/-
The ONNX engine: packing a batch into one tensor and taking the output apart again.

`engine/onnx_engine.cpp` sends a whole batch through the runtime as one tensor whose rows are the
inputs, cut or padded to the size the model expects.  Row boundaries are nowhere stored: they come
from the arithmetic of `insert` and `resize` on the way in and from pointer strides on the way out.
The runtime is a parameter, `Gateway.Ort`, whose operations may throw `Ort::Exception`; whether the
SDK was there at build time is another.  Reads past the output tensor and the write to the first
entry of an empty shape are undefined and end the embedding in `none`.

Main definitions:

* `Gateway.ModelInfo`, `Gateway.OnnxEngine` — the model description and the engine's state;
* `Gateway.OnnxEngine.extractModelMetadata`, `Gateway.OnnxEngine.init` — loading a model;
* `Gateway.OnnxEngine.packBatchInput`, `Gateway.OnnxEngine.unpackBatchOutput` — the two helpers;
* `Gateway.OnnxEngine.inferBatch` — one call of the engine.

Main results:

* `Gateway.OnnxEngine.init_batchDimOk` — a loaded model with a batch dimension has a shape;
* `Gateway.OnnxEngine.packBatchInput_eq` — **what is packed** are the rows, one after the other;
* `Gateway.OnnxEngine.unpackBatchOutput_eq` — **what is unpacked** are the rows of the output;
* `Gateway.OnnxEngine.inferBatch_exits` — **the exits** of a call;
* `Gateway.OnnxEngine.infer_batch_row_exact` — **row exactness**.
-/

import InferenceGateway.RowMajor
import InferenceGateway.Task

set_option relaxedAutoImplicit false
set_option autoImplicit false

namespace Gateway

/-- What an engine knows about its model. -/
structure ModelInfo where
  name : Bytes
  inputShape : List ℤ := []
  outputShape : List ℤ := []
  inputSize : ℕ := 0
  outputSize : ℕ := 0

/-! ### The runtime -/

/-- What `Ort::Session` tells about the loaded model: the numbers of inputs and outputs, and name
and shape of the first of each.  A name is missing when the returned pointer is null. -/
structure OrtSession where
  inputCount : ℕ
  outputCount : ℕ
  inputName : Option Bytes
  inputShape : List ℤ
  outputName : Option Bytes
  outputShape : List ℤ

/-- An `Ort::Value`; `tensorData` is `GetTensorMutableData<float>()`. -/
structure OrtValue (F : Type) where
  isTensor : Bool
  tensorData : Except Bytes (List F)

/-- The operations of the runtime.  An error is an `Ort::Exception` with its `what()`. -/
structure Ort (F : Type) where
  session : Bytes → Except Bytes OrtSession
  createTensor : List F → List ℤ → Except Bytes (OrtValue F)
  run : OrtSession → Option Bytes → OrtValue F → Option Bytes → Except Bytes (List (OrtValue F))

/-! ### The engine -/

/-- The state of an `OnnxEngine`. -/
structure OnnxEngine where
  modelInfo : ModelInfo := { name := ascii "onnx" }
  initialized : Bool := false
  hasBatchDim : Bool := false
  session : Option OrtSession := none
  inputName : Option Bytes := none
  outputName : Option Bytes := none

namespace OnnxEngine

variable {F : Type}

/-- `shutdown`. -/
def shutdown (e : OnnxEngine) : OnnxEngine :=
  { e with
    session := none, inputName := none, outputName := none
    initialized := false, hasBatchDim := false }

/-- The number of floats of a shape: its positive dimensions multiplied in `size_t`. -/
def sizeOf (shape : List ℤ) : ℕ :=
  shape.foldl (fun size dim => if 0 < dim then size * dim.toNat % 2 ^ 64 else size) 1

/-- A first dimension below zero is a dynamic batch size, replaced by one. -/
def fixFirstDim : List ℤ → List ℤ
  | dim :: dims => if dim < 0 then 1 :: dims else dim :: dims
  | [] => []

/-- Whether the input shape already has a batch dimension: a dynamic first dimension, or a first
dimension of one with others behind it. -/
def findBatchDim (hasBatchDim : Bool) : List ℤ → Bool
  | dim :: dims =>
      hasBatchDim || decide (dim < 0) || (decide (dim = 1) && decide (0 < dims.length))
  | [] => hasBatchDim

/-- `extract_model_metadata` for the loaded session. -/
def extractModelMetadata (e : OnnxEngine) (session : OrtSession) : Bool × OnnxEngine :=
  if session.inputCount < 1 then (false, e)
  else if session.outputCount < 1 then (false, e)
  else match session.inputName with
    | none => (false, e)
    | some inputName =>
        let inputShape := fixFirstDim session.inputShape
        let e := { e with
          inputName := some inputName
          hasBatchDim := findBatchDim e.hasBatchDim session.inputShape
          modelInfo := { e.modelInfo with
            inputShape := inputShape, inputSize := sizeOf inputShape } }
        match session.outputName with
        | none => (false, e)
        | some outputName =>
            let outputShape := fixFirstDim session.outputShape
            (true, { e with
              outputName := some outputName
              modelInfo := { e.modelInfo with
                outputShape := outputShape, outputSize := sizeOf outputShape } })

/-- `init`; without the SDK it always fails. -/
def init (sdk : Bool) (ort : Ort F) (e : OnnxEngine) (modelPath : Bytes) : Bool × OnnxEngine :=
  if sdk then
    match ort.session modelPath with
    | .ok session =>
        let (ok, e) := extractModelMetadata { e with session := some session } session
        if ok then
          (true,
            { e with modelInfo := { e.modelInfo with name := modelPath }, initialized := true })
        else (false, e.shutdown)
    | .error _ =>
        (false, { e with modelInfo := { e.modelInfo with name := ascii "onnx_error" } }.shutdown)
  else (false, { e with initialized := false })

/-! ### Packing and unpacking -/

/-- `std::vector::resize`, new entries being zero. -/
def resize [Zero F] (v : List F) (n : ℕ) : List F := v.take n ++ List.replicate (n - v.length) 0

/-- The body of the loop of `pack_batch_input`. -/
def packInput [Zero F] (perInput : ℕ) (packed : List F) (input : InferenceInput F) : List F :=
  if perInput ≤ input.data.length then packed ++ input.data.take perInput
  else
    let packed := packed ++ input.data
    resize packed (packed.length + perInput - input.data.length)

/-- `pack_batch_input`. -/
def packBatchInput [Zero F] (e : OnnxEngine) (batch : List (InferenceInput F)) : List F :=
  batch.foldl (packInput e.modelInfo.inputSize) []

/-- The result that `unpack_batch_output` builds for row `i`. -/
def unpackRow (e : OnnxEngine) (batchOutput : List F) (i : ℕ) : InferenceResult F where
  success := true
  data := RowMajor.row e.modelInfo.outputSize i batchOutput
  shape := e.modelInfo.outputShape

/-- `unpack_batch_output`.  The rows lie side by side, so that all of them are inside the tensor
when the last one is. -/
def unpackBatchOutput (e : OnnxEngine) (batchOutput : List F) (batchSize : ℕ) :
    Option (List (InferenceResult F)) :=
  if batchSize * e.modelInfo.outputSize ≤ batchOutput.length then
    some ((List.range batchSize).map (e.unpackRow batchOutput))
  else none

/-! ### A call of the engine -/

/-- The failed result that every error exit gives to every input. -/
def failedResult (errorMsg : Bytes) : InferenceResult F where
  success := false
  errorMsg := errorMsg

/-- The loop of the error exits. -/
def failAll (errorMsg : Bytes) (batch : List (InferenceInput F)) : List (InferenceResult F) :=
  batch.map fun _ => failedResult errorMsg

/-- The shape of the packed tensor: the batch size replaces the batch dimension or goes before the
shape.  Without a first entry to replace the write is undefined. -/
def tensorShape (e : OnnxEngine) (batchSize : ℕ) : Option (List ℤ) :=
  if e.hasBatchDim then
    match e.modelInfo.inputShape with
    | _ :: dims => some (batchSize :: dims)
    | [] => none
  else some (batchSize :: e.modelInfo.inputShape)

/-- Steps 2 to 4 of `infer_batch`: tensor, `Run`, and the data of the first output.  The result is
`none` when there is no output or it is not a tensor. -/
def evaluate (ort : Ort F) (e : OnnxEngine) (session : OrtSession) (packedInput : List F)
    (inputShape : List ℤ) : Except Bytes (Option (List F)) := do
  let inputTensor ← ort.createTensor packedInput inputShape
  let outputTensors ← ort.run session e.inputName inputTensor e.outputName
  match outputTensors with
  | [] => return none
  | output :: _ => if output.isTensor then return some (← output.tensorData) else return none

/-- `infer_batch`. -/
def inferBatch [Zero F] (sdk : Bool) (ort : Ort F) (e : OnnxEngine)
    (batch : List (InferenceInput F)) : Option (List (InferenceResult F)) :=
  if sdk then
    match e.initialized, e.session with
    | true, some session =>
        if batch.isEmpty then some []
        else (e.tensorShape batch.length).bind fun inputShape =>
          match evaluate ort e session (e.packBatchInput batch) inputShape with
          | .ok (some outputData) => e.unpackBatchOutput outputData batch.length
          | .ok none => some (failAll (ascii "empty or invalid output tensor") batch)
          | .error what => some (failAll (ascii "onnxruntime error: " ++ what) batch)
    | _, _ => some (failAll (ascii "engine not initialized") batch)
  else some (failAll (ascii "OnnxEngine not available (compile with HAS_ONNXRUNTIME)") batch)

/-! ### Loading -/

/-- A model with a batch dimension has a first dimension. -/
def BatchDimOk (e : OnnxEngine) : Prop := e.hasBatchDim = true → e.modelInfo.inputShape ≠ []

theorem findBatchDim_ne_nil {shape : List ℤ} (h : findBatchDim false shape = true) :
    fixFirstDim shape ≠ [] := by
  cases shape with
  | nil => simp [findBatchDim] at h
  | cons dim dims => simp only [fixFirstDim]; split <;> simp

theorem shutdown_batchDimOk (e : OnnxEngine) : e.shutdown.BatchDimOk := fun h => by cases h

theorem extractModelMetadata_batchDimOk {e : OnnxEngine} (session : OrtSession)
    (h : e.hasBatchDim = false) : (e.extractModelMetadata session).2.BatchDimOk := by
  have hsame : e.BatchDimOk := fun h' => by simp [h] at h'
  unfold extractModelMetadata
  split
  · exact hsame
  split
  · exact hsame
  split
  · exact hsame
  · split
    · exact fun h' => findBatchDim_ne_nil (h ▸ h')
    · exact fun h' => findBatchDim_ne_nil (h ▸ h')

/-- **A loaded model with a batch dimension has a shape**, when the engine was new or shut down. -/
theorem init_batchDimOk (sdk : Bool) (ort : Ort F) {e : OnnxEngine} (modelPath : Bytes)
    (h : e.hasBatchDim = false) : (e.init sdk ort modelPath).2.BatchDimOk := by
  unfold init
  split
  · split
    · next session _ =>
        have hok := extractModelMetadata_batchDimOk (e := { e with session := some session })
          session h
        simp only
        split
        · exact hok
        · exact shutdown_batchDimOk _
    · exact shutdown_batchDimOk _
  · exact fun h' => by simp [h] at h'

/-! ### What is packed -/

section Packing

variable [Zero F]

/-- The first `n` values of an input, which counts as zero past its end. -/
def firstValues (n : ℕ) (data : List F) : List F := (List.range n).map fun j => data.getD j 0

@[simp] theorem length_firstValues (n : ℕ) (data : List F) : (firstValues n data).length = n := by
  simp [firstValues]

/-- A long input is cut. -/
theorem firstValues_of_le {n : ℕ} {data : List F} (h : n ≤ data.length) :
    firstValues n data = data.take n := by
  refine List.ext_getElem (by simp [h]) ?_
  intro j h₁ h₂
  have hj : j < n := by simpa using h₁
  simp [firstValues, List.getElem?_eq_getElem (by omega : j < data.length)]

/-- A short input is padded with zeros. -/
theorem firstValues_of_lt {n : ℕ} {data : List F} (h : data.length < n) :
    firstValues n data = data ++ List.replicate (n - data.length) 0 := by
  refine List.ext_getElem (by simp; omega) ?_
  intro j h₁ h₂
  have hj : j < n := by simpa using h₁
  by_cases hd : j < data.length
  · simp [firstValues, List.getElem_append_left hd, hd]
  · simp [firstValues, List.getElem_append_right (Nat.not_lt.1 hd), Nat.not_lt.1 hd]

/-- One round of the loop appends one row, whatever was packed before. -/
theorem packInput_eq (n : ℕ) (packed : List F) (input : InferenceInput F) :
    packInput n packed input = packed ++ firstValues n input.data := by
  unfold packInput
  split
  · next h => rw [firstValues_of_le h]
  · next h =>
      have h := Nat.not_le.1 h
      have hsize : (packed ++ input.data).length + n - input.data.length =
          (packed ++ input.data).length + (n - input.data.length) := by omega
      simp only [resize, hsize, firstValues_of_lt h, Nat.add_sub_cancel_left]
      rw [List.take_of_length_le (Nat.le_add_right ..), List.append_assoc]

/-- The rows of the packed tensor. -/
def inputRows (e : OnnxEngine) (batch : List (InferenceInput F)) : List (List F) :=
  batch.map fun input => firstValues e.modelInfo.inputSize input.data

theorem length_of_mem_inputRows {e : OnnxEngine} {batch : List (InferenceInput F)} {r : List F}
    (h : r ∈ e.inputRows batch) : r.length = e.modelInfo.inputSize := by
  obtain ⟨input, -, rfl⟩ := List.mem_map.1 h
  exact length_firstValues ..

theorem foldl_packInput (n : ℕ) (packed : List F) (batch : List (InferenceInput F)) :
    batch.foldl (packInput n) packed =
      packed ++ (batch.map fun input => firstValues n input.data).flatten := by
  induction batch generalizing packed with
  | nil => simp
  | cons input batch ih =>
      rw [List.foldl_cons, packInput_eq, ih, List.map_cons, List.flatten_cons, List.append_assoc]

/-- **What is packed** are the rows, one after the other. -/
theorem packBatchInput_eq (e : OnnxEngine) (batch : List (InferenceInput F)) :
    e.packBatchInput batch = (e.inputRows batch).flatten := foldl_packInput ..

theorem length_packBatchInput (e : OnnxEngine) (batch : List (InferenceInput F)) :
    (e.packBatchInput batch).length = batch.length * e.modelInfo.inputSize := by
  rw [packBatchInput_eq, RowMajor.length_flatten fun r => length_of_mem_inputRows, inputRows,
    List.length_map]

/-- Row `i` of the packed tensor is the `i`-th input, cut or padded. -/
theorem row_packBatchInput {e : OnnxEngine} {batch : List (InferenceInput F)} {i : ℕ}
    {input : InferenceInput F} (h : batch[i]? = some input) :
    RowMajor.row e.modelInfo.inputSize i (e.packBatchInput batch) =
      firstValues e.modelInfo.inputSize input.data := by
  rw [packBatchInput_eq]
  exact RowMajor.row_flatten (fun r => length_of_mem_inputRows) (by simp [inputRows, h])

/-! ### What is unpacked -/

/-- The result that an input deserves when `f` is the model. -/
def rowResult (e : OnnxEngine) (f : List F → List F) (input : InferenceInput F) :
    InferenceResult F where
  success := true
  data := f (firstValues e.modelInfo.inputSize input.data)
  shape := e.modelInfo.outputShape

/-- **What is unpacked** are the images of the inputs, in their order. -/
theorem unpackBatchOutput_eq {e : OnnxEngine} {batch : List (InferenceInput F)}
    {f : List F → List F} {out : List F}
    (h : RowMajor.MapsRows f e.modelInfo.inputSize e.modelInfo.outputSize batch.length
      (e.packBatchInput batch) out) :
    e.unpackBatchOutput out batch.length = some (batch.map (e.rowResult f)) := by
  obtain ⟨hlen, hrow⟩ := h
  rw [unpackBatchOutput, if_pos (Nat.le_of_eq hlen.symm)]
  refine congrArg some (List.ext_getElem (by simp) ?_)
  intro i h₁ h₂
  have hi : i < batch.length := by simpa using h₁
  have hdata := hrow i hi
  rw [row_packBatchInput (List.getElem?_eq_getElem hi)] at hdata
  simp only [List.getElem_map, List.getElem_range, unpackRow, rowResult, hdata]

end Packing

/-! ### Exits -/

/-- Every error exit gives each input one failed result. -/
theorem failAll_spec (errorMsg : Bytes) (batch : List (InferenceInput F)) :
    (failAll errorMsg batch).length = batch.length ∧
      ∀ r ∈ failAll errorMsg batch, r.success = false ∧ r.errorMsg = errorMsg := by
  refine ⟨List.length_map _, fun r hr => ?_⟩
  obtain ⟨input, -, rfl⟩ := List.mem_map.1 hr
  exact ⟨rfl, rfl⟩

section Exits

variable [Zero F] {sdk : Bool} {ort : Ort F} {e : OnnxEngine} {batch : List (InferenceInput F)}

/-- `infer_batch` sends the batch through the runtime, which answers with `result`. -/
structure Evaluates (sdk : Bool) (ort : Ort F) (e : OnnxEngine) (batch : List (InferenceInput F))
    (result : Except Bytes (Option (List F))) : Prop where
  available : sdk = true
  ready : e.initialized = true
  nonempty : batch ≠ []
  answers : ∃ session inputShape, e.session = some session ∧
    e.tensorShape batch.length = some inputShape ∧
    evaluate ort e session (e.packBatchInput batch) inputShape = result

/-- The error exits of `infer_batch` with their texts. -/
inductive ErrorExit (sdk : Bool) (ort : Ort F) (e : OnnxEngine) (batch : List (InferenceInput F)) :
    Bytes → Prop
  | unavailable : sdk = false →
      ErrorExit sdk ort e batch (ascii "OnnxEngine not available (compile with HAS_ONNXRUNTIME)")
  | uninitialized : sdk = true → e.initialized = false ∨ e.session = none →
      ErrorExit sdk ort e batch (ascii "engine not initialized")
  | invalidOutput : Evaluates sdk ort e batch (.ok none) →
      ErrorExit sdk ort e batch (ascii "empty or invalid output tensor")
  | exception (what : Bytes) : Evaluates sdk ort e batch (.error what) →
      ErrorExit sdk ort e batch (ascii "onnxruntime error: " ++ what)

/-- After the runtime has answered, the call depends on the answer only. -/
theorem inferBatch_evaluates (result : Except Bytes (Option (List F))) :
    Evaluates sdk ort e batch result → e.inferBatch sdk ort batch =
      match result with
      | .ok (some outputData) => e.unpackBatchOutput outputData batch.length
      | .ok none => some (failAll (ascii "empty or invalid output tensor") batch)
      | .error what => some (failAll (ascii "onnxruntime error: " ++ what) batch) := by
  rintro ⟨rfl, hready, hne, session, inputShape, hsession, hshape, rfl⟩
  simp [inferBatch, hready, hsession, hshape, hne]

/-- An error exit returns one failed result for each input. -/
theorem inferBatch_errorExit {errorMsg : Bytes} (h : ErrorExit sdk ort e batch errorMsg) :
    e.inferBatch sdk ort batch = some (failAll errorMsg batch) := by
  cases h with
  | unavailable h => simp [inferBatch, h]
  | uninitialized hsdk h =>
      rcases h with h | h
      · simp [inferBatch, hsdk, h]
      · cases hi : e.initialized <;> simp [inferBatch, hsdk, h, hi]
  | invalidOutput h => rw [inferBatch_evaluates _ h]
  | exception what h => rw [inferBatch_evaluates _ h]

/-- The shape of the tensor is defined for a model with a first dimension to replace. -/
theorem exists_tensorShape (h : e.BatchDimOk) (n : ℕ) : ∃ dims, e.tensorShape n = some dims := by
  unfold tensorShape
  split
  · next hdim =>
      cases hs : e.modelInfo.inputShape with
      | nil => exact absurd hs (h hdim)
      | cons dim dims => exact ⟨_, rfl⟩
  · exact ⟨_, rfl⟩

/-- **The exits of `infer_batch`**: an empty batch, an error exit, or an output tensor. -/
theorem inferBatch_exits (sdk : Bool) (ort : Ort F) (batch : List (InferenceInput F))
    (h : e.BatchDimOk) :
    e.inferBatch sdk ort batch = some [] ∧ batch = [] ∨
      (∃ errorMsg, ErrorExit sdk ort e batch errorMsg) ∨
      ∃ outputData, Evaluates sdk ort e batch (.ok (some outputData)) := by
  cases hsdk : sdk with
  | false => exact .inr (.inl ⟨_, .unavailable rfl⟩)
  | true =>
      cases hready : e.initialized with
      | false => exact .inr (.inl ⟨_, .uninitialized rfl (.inl hready)⟩)
      | true =>
          cases hsession : e.session with
          | none => exact .inr (.inl ⟨_, .uninitialized rfl (.inr hsession)⟩)
          | some session =>
              by_cases hne : batch = []
              · exact .inl ⟨by simp [inferBatch, hready, hsession, hne], hne⟩
              · obtain ⟨inputShape, hshape⟩ := exists_tensorShape h batch.length
                have heval : Evaluates true ort e batch
                    (evaluate ort e session (e.packBatchInput batch) inputShape) :=
                  ⟨rfl, hready, hne, session, inputShape, hsession, hshape, rfl⟩
                cases hr : evaluate ort e session (e.packBatchInput batch) inputShape with
                | error what => exact .inr (.inl ⟨_, .exception what (hr ▸ heval)⟩)
                | ok output =>
                    cases output with
                    | none => exact .inr (.inl ⟨_, .invalidOutput (hr ▸ heval)⟩)
                    | some outputData => exact .inr (.inr ⟨outputData, hr ▸ heval⟩)

/-! ### Row exactness -/

/-- **Row exactness.**  The packed tensor has one row of `input_size` entries for each input.  When
an output is the image of the packed tensor under a function `f` on rows, as there is one for every
`f` from rows of `input_size` to rows of `output_size` entries, `unpack_batch_output` gives each
input, in order, the image of its first `input_size` values, and `infer_batch` returns just that
when the runtime answers so.  Every error exit returns one failed result for each input, and a call
that neither takes one nor gets an output tensor had an empty batch. -/
theorem infer_batch_row_exact (ort : Ort F) (e : OnnxEngine) (batch : List (InferenceInput F)) :
    (e.packBatchInput batch).length = batch.length * e.modelInfo.inputSize ∧
      (∀ f out, RowMajor.MapsRows f e.modelInfo.inputSize e.modelInfo.outputSize batch.length
          (e.packBatchInput batch) out →
        e.unpackBatchOutput out batch.length = some (batch.map (e.rowResult f)) ∧
          ∀ sdk, Evaluates sdk ort e batch (.ok (some out)) →
            e.inferBatch sdk ort batch = some (batch.map (e.rowResult f))) ∧
      (∀ f : List F → List F,
        (∀ r, r.length = e.modelInfo.inputSize → (f r).length = e.modelInfo.outputSize) →
          ∃ out, RowMajor.MapsRows f e.modelInfo.inputSize e.modelInfo.outputSize batch.length
            (e.packBatchInput batch) out) ∧
      (∀ sdk errorMsg, ErrorExit sdk ort e batch errorMsg →
        ∃ results, e.inferBatch sdk ort batch = some results ∧ results.length = batch.length ∧
          ∀ r ∈ results, r.success = false ∧ r.errorMsg = errorMsg) ∧
      (e.BatchDimOk → ∀ sdk, e.inferBatch sdk ort batch = some [] ∧ batch = [] ∨
        (∃ errorMsg, ErrorExit sdk ort e batch errorMsg) ∨
        ∃ outputData, Evaluates sdk ort e batch (.ok (some outputData))) := by
  refine ⟨length_packBatchInput e batch, fun f out hout => ?_, fun f hf => ?_,
    fun sdk errorMsg h => ?_, fun h sdk => inferBatch_exits sdk ort batch h⟩
  · have hunpack := unpackBatchOutput_eq hout
    exact ⟨hunpack, fun sdk h => (inferBatch_evaluates _ h).trans hunpack⟩
  · exact ⟨_, RowMajor.mapsRows_flatten hf (length_packBatchInput e batch)⟩
  · obtain ⟨hlen, hfail⟩ := failAll_spec errorMsg batch
    exact ⟨_, inferBatch_errorExit h, hlen, hfail⟩

/-- A runtime with one model, which sums up rows of two entries. -/
def sumOrt : Ort ℤ where
  session _ := .ok
    { inputCount := 1, outputCount := 1, inputName := some (ascii "x"), inputShape := [-1, 2]
      outputName := some (ascii "y"), outputShape := [-1, 1] }
  createTensor data dims :=
    if dims = [(data.length / 2 : ℕ), 2] then .ok { isTensor := true, tensorData := .ok data }
    else .error (ascii "invalid dimensions")
  run _ _ input _ := input.tensorData.map fun data =>
    let sums := (List.range (data.length / 2)).map fun i => (RowMajor.row 2 i data).sum
    [{ isTensor := true, tensorData := .ok sums }]

/-- An engine that has loaded the model of that runtime. -/
def sumEngine : OnnxEngine := (init true sumOrt {} (ascii "sum.onnx")).2

/-- A short, an exact and a long input in one batch for that engine, and its exits for any batch. -/
theorem infer_batch_row_exact_sums :
    sumEngine.inferBatch true sumOrt
        [{ modelName := [], data := [5] }, { modelName := [], data := [3, 4] },
          { modelName := [], data := [4, 5, 6] }] =
      some [{ success := true, data := [5], shape := [1, 1] },
        { success := true, data := [7], shape := [1, 1] },
        { success := true, data := [9], shape := [1, 1] }] ∧
      ∀ batch, sumEngine.inferBatch true sumOrt batch = some [] ∧ batch = [] ∨
        (∃ errorMsg, ErrorExit true sumOrt sumEngine batch errorMsg) ∨
        ∃ outputData, Evaluates true sumOrt sumEngine batch (.ok (some outputData)) := by
  constructor
  · exact ((infer_batch_row_exact sumOrt sumEngine
      [{ modelName := [], data := [5] }, { modelName := [], data := [3, 4] },
        { modelName := [], data := [4, 5, 6] }]).2.1 (fun r => [r.sum]) [5, 7, 9]
      ⟨rfl, by decide⟩).2 true ⟨rfl, rfl, by simp, _, _, rfl, rfl, rfl⟩
  · intro batch
    have hloaded : sumEngine.BatchDimOk := init_batchDimOk true sumOrt _ rfl
    exact (infer_batch_row_exact sumOrt sumEngine batch).2.2.2.2 hloaded true

end Exits

end OnnxEngine

end Gateway
