/-
What the ONNX engine makes of the shapes that a model reports.

`extract_model_metadata` computes the floats of one input and of one output from the reported
shapes, which may leave any dimension open, and `infer_batch` builds the shape of the input tensor
from them.  A dimension that is open or zero counts for nothing in the sizes, whereas in the tensors
it does.

The output tensor is the runtime's.  It has a row for each input; the batch size may stand in the
place of the first reported dimension, when this one is open, one, or the batch size itself, or in
front of all of them.

Main definitions:

* `Gateway.OnnxEngine.Layout`, `Gateway.OnnxEngine.Returned` — the output tensors of a batch;
* `Gateway.OnnxEngine.ShapesExact` — the tensors have what the sizes promise, and rows are kept
  apart;
* `Gateway.OnnxEngine.InputExact`, `Gateway.OnnxEngine.OutputExact` — the condition on the reported
  shapes.

Main results:

* `Gateway.OnnxEngine.sizeOf_eq` — the sizes are the volumes of the shapes, in `size_t`;
* `Gateway.OnnxEngine.shapes_exact_iff` — **the tensors have what the sizes promise exactly when the
  reported shapes satisfy the condition.**
-/

import InferenceGateway.OnnxEngine
import InferenceGateway.SymbolicShape

set_option relaxedAutoImplicit false
set_option autoImplicit false

namespace Gateway.OnnxEngine

open SymbolicShape

/-! ### Sizes -/

/-- Where the first dimension is open, one float is counted for it in any case. -/
theorem volume_fixFirstDim (shape : List ℤ) : volume (fixFirstDim shape) = volume shape := by
  cases shape with
  | nil => rfl
  | cons d dims =>
      rw [fixFirstDim]
      split
      · next h =>
          rw [volume_cons, volume_cons, extent_of_nonpos (by omega : d ≤ 0)]
          rfl
      · rfl

/-- The loop of the sizes, from any value. -/
theorem foldl_sizeOf (shape : List ℤ) (size : ℕ) :
    shape.foldl (fun size dim => if 0 < dim then size * dim.toNat % 2 ^ 64 else size)
      (size % 2 ^ 64) = size * volume shape % 2 ^ 64 := by
  induction shape generalizing size with
  | nil => rw [List.foldl_nil, volume_nil, Nat.mul_one]
  | cons d dims ih =>
      have hround : (if 0 < d then size % 2 ^ 64 * d.toNat % 2 ^ 64 else size % 2 ^ 64) =
          size * extent d % 2 ^ 64 := by
        unfold extent
        split
        · rw [Nat.mod_mul_mod]
        · rw [Nat.mul_one]
      rw [List.foldl_cons, hround, ih, volume_cons, Nat.mul_assoc]

/-- **The sizes are the volumes of the shapes**, in `size_t`. -/
theorem sizeOf_eq (shape : List ℤ) : sizeOf shape = volume shape % 2 ^ 64 := by
  have hfold := foldl_sizeOf shape 1
  rw [Nat.one_mul] at hfold
  exact hfold

/-- What a model that was accepted leaves in the engine. -/
theorem extractModelMetadata_ok {e : OnnxEngine} {session : OrtSession}
    (h : (e.extractModelMetadata session).1 = true) :
    (e.extractModelMetadata session).2.hasBatchDim =
        findBatchDim e.hasBatchDim session.inputShape ∧
      (e.extractModelMetadata session).2.modelInfo.inputShape = fixFirstDim session.inputShape ∧
      (e.extractModelMetadata session).2.modelInfo.inputSize =
        volume session.inputShape % 2 ^ 64 ∧
      (e.extractModelMetadata session).2.modelInfo.outputSize =
        volume session.outputShape % 2 ^ 64 := by
  unfold extractModelMetadata at h ⊢
  split at h
  · cases h
  split at h
  · cases h
  split at h
  · cases h
  split at h
  · cases h
  · next hin hout _ _ _ _ _ _ =>
      rw [if_neg hin, if_neg hout]
      simp only [sizeOf_eq, volume_fixFirstDim, and_self]

/-! ### Tensors -/

/-- Where the batch size stands in the output tensor: in place of the first reported dimension, or
in front of the reported dimensions. -/
inductive Layout
  | replaced | inserted
  deriving DecidableEq

/-- The output tensor for `n` inputs has `n` rows with the dimensions `row`. -/
inductive Returned (shape : List ℤ) (n : ℕ) : Layout → List ℕ → Prop
  | replaced {d : ℤ} {dims : List ℤ} {row : List ℕ} :
      shape = d :: dims → d < 0 ∨ d = 1 ∨ d = n → Matches dims row →
      Returned shape n .replaced row
  | inserted {row : List ℕ} : Matches shape row → Returned shape n .inserted row

/-- **The tensors have what the sizes promise.**  For every batch the dimensions of the input tensor
are not negative, and their product is the number of floats that were packed; the floats of a row of
the output tensor are `output_size` many, and request `i` gets row `i`. -/
structure ShapesExact (F : Type) [Zero F] (e : OnnxEngine) (shape : List ℤ) (layout : Layout) :
    Prop where
  input : ∀ batch : List (InferenceInput F), batch ≠ [] →
    ∃ dims, e.tensorShape batch.length = some dims ∧ (∀ d ∈ dims, 0 ≤ d) ∧
      dims.prod = ((e.packBatchInput batch).length : ℤ)
  output : ∀ n row, 0 < n → Returned shape n layout row → e.modelInfo.outputSize = row.prod
  rows : ∀ n row (data : List F), 0 < n → Returned shape n layout row →
    data.length = n * row.prod → ∃ results, e.unpackBatchOutput data n = some results ∧
      results.map InferenceResult.data = (List.range n).map fun i => RowMajor.row row.prod i data

/-! ### The condition -/

/-- The dimensions of a row are known and their product is what is left of it in `size_t` behind the
factor in front; or one of them is zero, and the product of the others wraps to zero. -/
def RowExact (factor : ℕ) (dims : List ℤ) : Prop :=
  (∀ d ∈ dims, 0 < d) ∧ volume dims = factor * volume dims % 2 ^ 64 ∨
    0 ∈ dims ∧ factor * volume dims % 2 ^ 64 = 0

/-- Behind the batch dimension, or in the whole shape if there is none, no dimension is open. -/
def InputExact (hasBatchDim : Bool) (shape : List ℤ) : Prop :=
  if findBatchDim hasBatchDim shape then
    match shape with
    | [] => False
    | d :: dims => (∀ x ∈ dims, 0 ≤ x) ∧ RowExact (extent d) dims
  else (∀ x ∈ shape, 0 ≤ x) ∧ RowExact 1 shape

/-- No tensor has its rows in place of a zero. -/
def OutputExact : Layout → List ℤ → Prop
  | .replaced, d :: dims => d = 0 ∨ RowExact (extent d) dims
  | .replaced, [] => True
  | .inserted, shape => RowExact 1 shape

variable {F : Type} [Zero F] {e : OnnxEngine} {dims shape : List ℤ} {factor : ℕ}

theorem rowExact_iff : RowExact factor dims ↔
    ∀ row, Matches dims row → row.prod = factor * volume dims % 2 ^ 64 := prod_eq_iff.symm

/-- The input tensor, whose rows have the dimensions `dims`. -/
theorem input_iff (hshape : ∀ n : ℕ, e.tensorShape n = some ((n : ℤ) :: dims))
    (hsize : e.modelInfo.inputSize = factor * volume dims % 2 ^ 64) :
    (∀ batch : List (InferenceInput F), batch ≠ [] →
      ∃ dims, e.tensorShape batch.length = some dims ∧ (∀ d ∈ dims, 0 ≤ d) ∧
        dims.prod = ((e.packBatchInput batch).length : ℤ)) ↔
      (∀ d ∈ dims, 0 ≤ d) ∧ RowExact factor dims := by
  have hlength : ∀ batch : List (InferenceInput F), ((e.packBatchInput batch).length : ℤ) =
      batch.length * (factor * volume dims % 2 ^ 64 : ℕ) := by
    intro batch
    rw [length_packBatchInput, hsize, Int.natCast_mul]
  constructor
  · intro h
    obtain ⟨_, heq, hnonneg, hprod⟩ := h [{ modelName := [], data := [] }] nofun
    obtain rfl := Option.some.inj ((hshape _).symm.trans heq)
    have hdims : ∀ d ∈ dims, 0 ≤ d := fun d hd => hnonneg d (List.mem_cons_of_mem _ hd)
    refine ⟨hdims, (prod_int_eq_iff hdims).1 ?_⟩
    rw [hlength, List.prod_cons, List.length_singleton] at hprod
    simpa using hprod
  · rintro ⟨hdims, hexact⟩ batch -
    refine ⟨_, hshape _, ?_, ?_⟩
    · intro d hd
      rcases List.mem_cons.1 hd with rfl | hd
      · exact Int.natCast_nonneg _
      · exact hdims d hd
    · rw [hlength, List.prod_cons, (prod_int_eq_iff hdims).2 hexact]

/-- Only the first dimension may change. -/
theorem fixFirstDim_cons (d : ℤ) (dims : List ℤ) : ∃ d', fixFirstDim (d :: dims) = d' :: dims := by
  rw [fixFirstDim]
  split
  · exact ⟨1, rfl⟩
  · exact ⟨d, rfl⟩

/-- A shape without a batch dimension begins with a fixed dimension. -/
theorem fixFirstDim_eq {hasBatchDim : Bool} (h : findBatchDim hasBatchDim shape = false) :
    fixFirstDim shape = shape := by
  cases shape with
  | nil => rfl
  | cons d dims =>
      have hd : ¬ d < 0 := by
        intro hneg
        simp [findBatchDim, hneg] at h
      rw [fixFirstDim, if_neg hd]

/-- The input tensor of a model that was accepted. -/
theorem inputExact_iff {session : OrtSession} (h : (e.extractModelMetadata session).1 = true) :
    (∀ batch : List (InferenceInput F), batch ≠ [] →
      ∃ dims, (e.extractModelMetadata session).2.tensorShape batch.length = some dims ∧
        (∀ d ∈ dims, 0 ≤ d) ∧
          dims.prod = (((e.extractModelMetadata session).2.packBatchInput batch).length : ℤ)) ↔
      InputExact e.hasBatchDim session.inputShape := by
  obtain ⟨hflag, hshape, hsize, -⟩ := extractModelMetadata_ok h
  generalize (e.extractModelMetadata session).2 = e' at hflag hshape hsize
  unfold InputExact
  split
  · next hbatch =>
      rw [hbatch] at hflag
      split
      · next hnil =>
          -- there is no dimension to replace
          refine iff_of_false ?_ id
          intro hall
          obtain ⟨_, heq, -⟩ := hall [{ modelName := [], data := [] }] nofun
          rw [tensorShape, if_pos hflag, hshape, hnil] at heq
          cases heq
      · next d dims hcons =>
          refine input_iff ?_ (by rw [hsize, hcons, volume_cons])
          intro n
          obtain ⟨d', hd'⟩ := fixFirstDim_cons d dims
          rw [tensorShape, if_pos hflag, hshape, hcons, hd']
  · next hbatch =>
      rw [Bool.not_eq_true] at hbatch
      rw [hbatch] at hflag
      refine input_iff ?_ (by rw [hsize, Nat.one_mul])
      intro n
      rw [tensorShape, hflag, hshape, fixFirstDim_eq hbatch]
      rfl

/-- The rows of the output tensor. -/
theorem outputExact_iff (layout : Layout) (shape : List ℤ) :
    (∀ n row, 0 < n → Returned shape n layout row → volume shape % 2 ^ 64 = row.prod) ↔
      OutputExact layout shape := by
  cases layout with
  | inserted =>
      rw [OutputExact, rowExact_iff, Nat.one_mul]
      constructor
      · intro h row hrow
        exact (h 1 row Nat.one_pos (.inserted hrow)).symm
      · rintro h n row - ⟨hrow⟩
        exact (h row ‹_›).symm
  | replaced =>
      cases shape with
      | nil =>
          refine iff_of_true ?_ trivial
          rintro n row - (⟨hnil⟩ | _)
          cases hnil
      | cons d dims =>
          rw [OutputExact, rowExact_iff, volume_cons]
          constructor
          · intro h
            by_cases hd : d = 0
            · exact .inl hd
            · refine .inr fun row hrow => ?_
              by_cases hpos : 0 < d
              · exact (h d.toNat row (by omega)
                  (.replaced rfl (.inr (.inr (by omega))) hrow)).symm
              · exact (h 1 row Nat.one_pos (.replaced rfl (.inl (by omega)) hrow)).symm
          · rintro h n row hn hreturned
            cases hreturned with
            | replaced hcons hd hrow =>
                cases hcons
                rcases h with rfl | h
                · omega
                · exact (h row hrow).symm

/-- **The tensors have what the sizes promise exactly when** the reported shapes satisfy the
condition. -/
theorem shapes_exact_iff (F : Type) [Zero F] (e : OnnxEngine) (session : OrtSession)
    (layout : Layout) (h : (e.extractModelMetadata session).1 = true) :
    ShapesExact F (e.extractModelMetadata session).2 session.outputShape layout ↔
      InputExact e.hasBatchDim session.inputShape ∧ OutputExact layout session.outputShape := by
  have hsize := (extractModelMetadata_ok h).2.2.2
  rw [← @inputExact_iff F _ e session h, ← outputExact_iff, ← hsize]
  constructor
  · intro hexact
    exact ⟨hexact.input, hexact.output⟩
  · rintro ⟨hinput, houtput⟩
    refine ⟨hinput, houtput, ?_⟩
    intro n row data hn hreturned hlength
    rw [unpackBatchOutput, houtput n row hn hreturned, if_pos (Nat.le_of_eq hlength.symm)]
    refine ⟨_, rfl, ?_⟩
    rw [List.map_map]
    refine List.map_congr_left fun i _ => ?_
    rw [Function.comp_apply, unpackRow, houtput n row hn hreturned]

/-- A model with these shapes. -/
def sessionOf (inputShape outputShape : List ℤ) : OrtSession where
  inputCount := 1
  outputCount := 1
  inputName := some (ascii "x")
  inputShape := inputShape
  outputName := some (ascii "y")
  outputShape := outputShape

/-- A dynamic batch size, rows of two floats and results of one. -/
theorem shapes_exact_iff_pairs :
    ShapesExact ℤ (extractModelMetadata {} (sessionOf [-1, 2] [-1, 1])).2 [-1, 1] .replaced :=
  (shapes_exact_iff ℤ {} (sessionOf [-1, 2] [-1, 1]) .replaced rfl).2
    ⟨⟨by decide, .inl (by decide)⟩, .inr (.inl (by decide))⟩

/-- Results with a length of their own, such as that of a text: for two inputs with three floats
each, one float is counted. -/
theorem not_shapes_exact :
    ¬ ∀ (e : OnnxEngine) (session : OrtSession) (layout : Layout),
      (e.extractModelMetadata session).1 = true →
        ShapesExact ℤ (e.extractModelMetadata session).2 session.outputShape layout := by
  intro hall
  have hexact := hall {} (sessionOf [-1, 4] [-1, -1]) .replaced rfl
  have hrow : Returned [-1, -1] 2 .replaced [3] :=
    .replaced rfl (.inl (by decide)) (.cons (.inl (by decide)) .nil)
  exact absurd (hexact.output 2 [3] (by decide) hrow) (by decide)

end Gateway.OnnxEngine
