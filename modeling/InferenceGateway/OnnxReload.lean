/-
Loading one model after another into an ONNX engine.

`init` may be called again on an engine that has a model.  It assigns everything it learns about the
model, but `has_batch_dim_` only in one direction: `extract_model_metadata` sets it where it finds a
batch dimension and leaves it alone otherwise.  `shutdown`, which every failure of `init` ends in,
resets it.

Main definitions:

* `Gateway.OnnxEngine.initThrow` — an `init` during which the runtime throws behind the loading;
* `Gateway.OnnxEngine.Call`, `Gateway.OnnxEngine.CallStep` — the calls that change an engine;
* `Gateway.OnnxEngine.Renewed` — a call that loads no model without a batch dimension over a raised
  flag;
* `Gateway.OnnxEngine.AsFresh` — what an engine owes to the last call alone.

Main results:

* `Gateway.OnnxEngine.init_ok` — what a successful `init` leaves;
* `Gateway.OnnxEngine.failed_run`, `Gateway.OnnxEngine.flag_run` — after a failure every batch
  fails, and the flag is up only behind a success;
* `Gateway.OnnxEngine.renewed_iff_asFresh` — **the engine is a function of the last call throughout
  a run exactly when** the calls are of this kind.
-/

import InferenceGateway.EventSystem
import InferenceGateway.OnnxShape

set_option relaxedAutoImplicit false
set_option autoImplicit false

namespace Gateway.OnnxEngine

open EventSystem

variable {F : Type} {sdk : Bool} {e e' : OnnxEngine}

/-! ### Calls -/

/-- Where the runtime throws behind the loading of the session: before the input name is known,
while the input shape is read, before the output name is known, or while the output shape is
read. -/
inductive ThrowPoint
  | inputName | inputShape | outputName | outputShape
  deriving DecidableEq

/-- What `extract_model_metadata` has assigned when the runtime throws. -/
def thrownAt (e : OnnxEngine) (session : OrtSession) : ThrowPoint → OnnxEngine
  | .inputName => { e with session := some session }
  | .inputShape => { e with session := some session, inputName := session.inputName }
  | .outputName =>
      { e with
        session := some session
        inputName := session.inputName
        hasBatchDim := findBatchDim e.hasBatchDim session.inputShape
        modelInfo := { e.modelInfo with
          inputShape := fixFirstDim session.inputShape
          inputSize := sizeOf (fixFirstDim session.inputShape) } }
  | .outputShape =>
      { e with
        session := some session
        inputName := session.inputName
        hasBatchDim := findBatchDim e.hasBatchDim session.inputShape
        outputName := session.outputName
        modelInfo := { e.modelInfo with
          inputShape := fixFirstDim session.inputShape
          inputSize := sizeOf (fixFirstDim session.inputShape) } }

/-- `init` when the runtime throws there. -/
def initThrow (e : OnnxEngine) (session : OrtSession) (point : ThrowPoint) : OnnxEngine :=
  let e := e.thrownAt session point
  { e with modelInfo := { e.modelInfo with name := ascii "onnx_error" } }.shutdown

/-- A call that changes the engine.  Each `init` meets a runtime of its own, since the file behind a
path may change. -/
inductive Call (F : Type)
  | init (ort : Ort F) (modelPath : Bytes) (ok : Bool)
  | initThrow (session : OrtSession) (point : ThrowPoint)
  | shutdown

/-- The calls on an engine. -/
inductive CallStep (sdk : Bool) (e : OnnxEngine) : Call F → OnnxEngine → Prop
  | init (ort : Ort F) (modelPath : Bytes) :
      CallStep sdk e (.init ort modelPath (e.init sdk ort modelPath).1)
        (e.init sdk ort modelPath).2
  | initThrow (session : OrtSession) (point : ThrowPoint) :
      sdk = true → CallStep sdk e (.initThrow session point) (e.initThrow session point)
  | shutdown : CallStep sdk e .shutdown e.shutdown

/-- The call loads no model without a batch dimension of its own while the flag is up. -/
def Renewed (e : OnnxEngine) : Call F → Prop
  | .init ort modelPath true => e.hasBatchDim = true →
      ∀ session, ort.session modelPath = .ok session → findBatchDim false session.inputShape = true
  | _ => True

/-- Every batch gets one failed result for each input. -/
def AllFail [Zero F] (sdk : Bool) (e : OnnxEngine) : Prop :=
  ∀ (ort : Ort F) (batch : List (InferenceInput F)), ∃ results,
    e.inferBatch sdk ort batch = some results ∧ results.length = batch.length ∧
      ∀ r ∈ results, r.success = false

/-- **What an engine owes to the last call.**  After a success it has the sizes, the flag and the
tensor shapes of a new engine with this model, and after a failure every batch fails. -/
def AsFresh [Zero F] (sdk : Bool) (e : OnnxEngine) : Call F → Prop
  | .init ort modelPath true =>
      e.modelInfo = (init sdk ort {} modelPath).2.modelInfo ∧
        e.hasBatchDim = (init sdk ort {} modelPath).2.hasBatchDim ∧
          ∀ n, e.tensorShape n = (init sdk ort {} modelPath).2.tensorShape n
  | .init _ _ false | .initThrow _ _ => AllFail (F := F) sdk e
  | .shutdown => True

/-! ### Success -/

theorem findBatchDim_eq (hasBatchDim : Bool) (shape : List ℤ) :
    findBatchDim hasBatchDim shape = (hasBatchDim || findBatchDim false shape) := by
  cases shape with
  | nil => simp [findBatchDim]
  | cons d dims => simp [findBatchDim, Bool.or_assoc]

/-- An engine with a model, of which the flag alone may depend on what was loaded before. -/
def loaded (modelPath : Bytes) (session : OrtSession) (hasBatchDim : Bool) : OnnxEngine where
  modelInfo :=
    { name := modelPath
      inputShape := fixFirstDim session.inputShape
      outputShape := fixFirstDim session.outputShape
      inputSize := sizeOf (fixFirstDim session.inputShape)
      outputSize := sizeOf (fixFirstDim session.outputShape) }
  initialized := true
  hasBatchDim := hasBatchDim
  session := some session
  inputName := session.inputName
  outputName := session.outputName

/-- **What a successful `init` leaves**; whether it succeeds does not depend on the engine. -/
theorem init_ok {ort : Ort F} {modelPath : Bytes} (h : (e.init sdk ort modelPath).1 = true) :
    ∃ session, ort.session modelPath = .ok session ∧ ∀ e' : OnnxEngine,
      e'.init sdk ort modelPath =
        (true, loaded modelPath session (findBatchDim e'.hasBatchDim session.inputShape)) := by
  unfold init at h
  split at h
  · next hsdk =>
      split at h
      · next session hsession =>
          refine ⟨session, hsession, ?_⟩
          intro e'
          have hok :
              (extractModelMetadata { e with session := some session } session).1 = true := by
            by_contra hfalse
            dsimp only at h
            rw [if_neg hfalse] at h
            cases h
          rw [init, if_pos hsdk, hsession]
          unfold extractModelMetadata at hok ⊢
          split at hok
          · cases hok
          split at hok
          · cases hok
          split at hok
          · cases hok
          split at hok
          · cases hok
          · next hin hout _ _ hname _ _ hname' =>
              simp only [hin, hout, hname, hname', if_false, if_true, loaded]
      · cases h
  · cases h

/-- A success behind a lowered flag, or on a model that raises it, is that of a new engine. -/
theorem init_fresh {ort : Ort F} {modelPath : Bytes} (h : (e.init sdk ort modelPath).1 = true)
    (hnew : e.hasBatchDim = true → ∀ session, ort.session modelPath = .ok session →
      findBatchDim false session.inputShape = true) :
    (e.init sdk ort modelPath).2 = (init sdk ort {} modelPath).2 := by
  obtain ⟨session, hsession, hinit⟩ := init_ok h
  have hflag : findBatchDim e.hasBatchDim session.inputShape =
      findBatchDim false session.inputShape := by
    cases hold : e.hasBatchDim with
    | false => rfl
    | true => rw [findBatchDim_eq, hnew hold session hsession, Bool.or_true]
  rw [hinit, hinit, hflag]

/-- A success with the flag of a new engine is one on a lowered flag, or on a model that raises
it. -/
theorem renewed_of_flag {ort : Ort F} {modelPath : Bytes} (h : (e.init sdk ort modelPath).1 = true)
    (hflag : (e.init sdk ort modelPath).2.hasBatchDim = (init sdk ort {} modelPath).2.hasBatchDim)
    (hold : e.hasBatchDim = true) (session : OrtSession)
    (hsession : ort.session modelPath = .ok session) :
    findBatchDim false session.inputShape = true := by
  obtain ⟨session', hsession', hinit⟩ := init_ok h
  obtain rfl := Except.ok.inj (hsession.symm.trans hsession')
  rw [hinit, hinit, hold] at hflag
  change findBatchDim true session.inputShape = findBatchDim false session.inputShape at hflag
  rw [← hflag, findBatchDim_eq, Bool.true_or]

/-! ### Failure -/

/-- An engine that is not initialised fails every batch. -/
theorem allFail_of_not_initialized [Zero F] (h : sdk = true → e.initialized = false) :
    AllFail (F := F) sdk e := by
  intro ort batch
  have hexit : ∃ errorMsg, ErrorExit sdk ort e batch errorMsg := by
    cases hsdk : sdk with
    | false => exact ⟨_, .unavailable rfl⟩
    | true => exact ⟨_, .uninitialized rfl (.inl (h hsdk))⟩
  obtain ⟨errorMsg, hexit⟩ := hexit
  obtain ⟨hlength, hfail⟩ := failAll_spec errorMsg batch
  exact ⟨_, inferBatch_errorExit hexit, hlength, fun r hr => (hfail r hr).1⟩

/-- What a failed `init` leaves: the flag is down where the engine could be used at all. -/
theorem init_failed {ort : Ort F} {modelPath : Bytes} (h : (e.init sdk ort modelPath).1 = false) :
    (e.init sdk ort modelPath).2.initialized = false ∧
      (sdk = true → (e.init sdk ort modelPath).2.hasBatchDim = false) := by
  unfold init at h ⊢
  split at h
  · next hsdk =>
      rw [if_pos hsdk]
      split at h
      · next session _ =>
          dsimp only at h ⊢
          split at h
          · cases h
          · next hfalse =>
              rw [if_neg hfalse]
              exact ⟨rfl, fun _ => rfl⟩
      · exact ⟨rfl, fun _ => rfl⟩
  · next hsdk =>
      rw [if_neg hsdk]
      exact ⟨rfl, fun h => absurd h hsdk⟩

/-! ### Runs -/

variable {c : Call F}

/-- **A call that renews the engine** leaves it as a new one would be. -/
theorem CallStep.asFresh [Zero F] (hs : CallStep sdk e c e') (h : Renewed e c) :
    AsFresh sdk e' c := by
  cases hs with
  | init ort modelPath =>
      cases hok : (e.init sdk ort modelPath).1 with
      | true =>
          rw [hok] at h
          rw [init_fresh hok h]
          exact ⟨rfl, rfl, fun _ => rfl⟩
      | false => exact allFail_of_not_initialized fun _ => (init_failed hok).1
  | initThrow session point => exact allFail_of_not_initialized fun _ => rfl
  | shutdown => trivial

/-- Otherwise the flag is not that of a new engine. -/
theorem CallStep.renewed [Zero F] (hs : CallStep sdk e c e') (h : AsFresh sdk e' c) :
    Renewed e c := by
  cases hs with
  | init ort modelPath =>
      cases hok : (e.init sdk ort modelPath).1 with
      | true =>
          rw [hok] at h
          exact renewed_of_flag hok h.2.1
      | false => trivial
  | initThrow | shutdown => trivial

/-- After a failed `init` every batch fails, whatever was loaded before. -/
theorem failed_run [Zero F] {calls : List (Call F)} {ort : Ort F} {modelPath : Bytes}
    (hr : Run (CallStep sdk) {} (calls ++ [.init ort modelPath false]) e) :
    AllFail (F := F) sdk e := by
  obtain ⟨e₀, -, hs⟩ := hr.of_snoc
  exact hs.asFresh trivial

/-- Only an `init` that succeeds leaves the flag up. -/
theorem CallStep.flag (hs : CallStep true e c e') (hflag : e'.hasBatchDim = true) :
    ∃ ort modelPath, c = .init ort modelPath true := by
  cases hs with
  | init ort modelPath =>
      cases hok : (e.init true ort modelPath).1 with
      | true => exact ⟨ort, modelPath, rfl⟩
      | false =>
          rw [(init_failed hok).2 rfl] at hflag
          cases hflag
  | initThrow | shutdown => cases hflag

/-- The flag is up only behind an `init` that succeeded. -/
theorem flag_run {calls : List (Call F)} (hr : Run (CallStep true) {} calls e)
    (hflag : e.hasBatchDim = true) :
    ∃ ort modelPath, calls.getLast? = some (.init ort modelPath true) := by
  cases hr with
  | nil => cases hflag
  | snoc _ hs =>
      obtain ⟨ort, modelPath, rfl⟩ := hs.flag hflag
      exact ⟨ort, modelPath, List.getLast?_concat⟩

/-- **The engine is a function of the last call throughout a run exactly when** no call loads a
model without a batch dimension while the flag is up. -/
theorem renewed_iff_asFresh (F : Type) [Zero F] (sdk : Bool) (calls : List (Call F))
    (e : OnnxEngine) :
    Run (Guarded (CallStep sdk) Renewed) {} calls e ↔
      Along (CallStep sdk) (fun calls e => ∀ c, calls.getLast? = some c → AsFresh sdk e c) {}
        calls e := by
  refine Run.iff_along (fun _ _ _ hs => hs.1) ?_ ?_
  · intro calls e hr c hlast
    cases hr with
    | nil => cases hlast
    | snoc _ hs =>
        rw [List.getLast?_concat] at hlast
        cases Option.some.inj hlast
        exact hs.1.asFresh hs.2
  · intro calls e c e' _ hs h
    exact ⟨hs, hs.renewed (h c List.getLast?_concat)⟩

/-- A runtime that loads one model. -/
def ortOf (session : OrtSession) : Ort ℤ where
  session _ := .ok session
  createTensor data _ := .ok { isTensor := true, tensorData := .ok data }
  run _ _ input _ := .ok [input]

/-- A model with a batch dimension is followed by one without, whose inputs of four floats are then
sent as a tensor of rank one. -/
theorem not_asFresh :
    ¬ ∀ (calls : List (Call ℤ)) (e : OnnxEngine), Run (CallStep true) {} calls e →
      ∀ c, calls.getLast? = some c → AsFresh true e c := by
  intro hall
  have hr : Run (CallStep true) {} _ _ :=
    .single (.init (ortOf (sessionOf [-1, 2] [-1, 1])) (ascii "pairs.onnx"))
  have hr := hr.snoc (.init (ortOf (sessionOf [4] [3])) (ascii "single.onnx"))
  have hflag := (hall _ _ hr _ List.getLast?_concat).2.1
  cases hflag

end Gateway.OnnxEngine
