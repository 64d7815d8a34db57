/-
Inference tasks, their outcome, and the answer a worker gives for them.

`scheduler/inference_task.h` and `common/types.h` hold the data that the scheduler, the engine and
the worker threads share.  A task is an object on the stack of one call of `do_request`; everybody
else holds a pointer to it.  The numbers a model computes with are an arbitrary type `F`, so that
nothing below depends on the rounding of `float`.

* `Gateway.InferenceTask`, `Gateway.InferenceTask.make` — a task and its construction in
  `do_request`;
* `Gateway.InferenceTask.expired` — the deadline test of the scheduler;
* `Gateway.InferenceTask.writeBack` — what `execute_batch` writes into a task, and
  `Gateway.InferenceTask.outcome`, what the worker can read of it afterwards;
* `Gateway.inferenceReply`, `Gateway.overloadedReply` — the answers of `do_request`;
* `Gateway.Verdict`, `Gateway.inferenceReply_eq` — how a task ends, on which the answer depends;
* `Gateway.MockEngine.inferBatch` — the mock engine, with `Gateway.MockEngine.getElem_inferRow`:
  its row is twice the input, cut or padded with zeros to the output size.
-/

import InferenceGateway.CString
import Mathlib.Data.List.Basic
import Mathlib.Algebra.Ring.Defs

set_option relaxedAutoImplicit false
set_option autoImplicit false

namespace Gateway

/-! ### Byte strings -/

/-- The bytes of a `std::string` or of a `char` buffer. -/
abbrev Bytes := List UInt8

/-- The bytes of a string literal of the source. -/
def ascii (s : String) : Bytes := s.toList.map fun c => c.toNat.toUInt8

/-! ### Data of the engine interface -/

/-- One input of a batch. -/
structure InferenceInput (F : Type) where
  modelName : Bytes
  data : List F
  shape : List ℤ := []

/-- One result of a batch. -/
structure InferenceResult (F : Type) where
  data : List F := []
  shape : List ℤ := []
  success : Bool
  errorMsg : Bytes := []
  deriving DecidableEq

/-! ### Tasks -/

/-- An inference task.  The mutex and the condition variable are not data: a critical section of
the task's mutex is one step of the system that owns the task. -/
structure InferenceTask (F : Type) where
  taskId : ℕ := 0
  clientFd : ℤ := -1
  modelName : Bytes := []
  inputData : List F := []
  arrivalTime : ℤ := 0
  deadline : ℤ := 0
  priority : ℤ := 1
  outputData : List F := []
  completed : Bool := false
  timeout : Bool := false
  success : Bool := false
  errorMsg : Bytes := []

namespace InferenceTask

variable {F : Type}

/-- The task that `do_request` builds from a request: the constructor's defaults, and the fields
filled in before `enqueue`. -/
def make (modelName : Bytes) (inputData : List F) (priority deadline clientFd : ℤ) :
    InferenceTask F where
  modelName := if modelName.isEmpty then ascii "default" else modelName
  inputData := inputData
  priority := priority
  deadline := deadline
  clientFd := clientFd

/-- `deadline > 0 && deadline < now`, the test of `cleanup_expired` and of the submit filter. -/
def expired (t : InferenceTask F) (now : ℤ) : Bool := decide (0 < t.deadline ∧ t.deadline < now)

theorem expired_iff (t : InferenceTask F) (now : ℤ) :
    t.expired now = true ↔ 0 < t.deadline ∧ t.deadline < now := by simp [expired]

/-- The input that `execute_batch` builds for the engine. -/
def toInput (t : InferenceTask F) : InferenceInput F :=
  { modelName := t.modelName, data := t.inputData }

/-- The write-back of `execute_batch` for one task: `result` is `results[i]`, or `none` when
`i >= results.size()`. -/
def writeBack (t : InferenceTask F) (result : Option (InferenceResult F)) : InferenceTask F :=
  match result with
  | some r =>
      if r.success then { t with outputData := r.data, success := true }
      else { t with success := false, errorMsg := r.errorMsg }
  | none => { t with success := false, errorMsg := ascii "batch result mismatch" }

/-! ### The part of a task that never changes after it was accepted -/

/-- The fields that the scheduler only reads. -/
def request (t : InferenceTask F) : ℕ × Bytes × List F × ℤ × ℤ :=
  (t.taskId, t.modelName, t.inputData, t.deadline, t.priority)

@[simp] theorem request_writeBack (t : InferenceTask F) (r : Option (InferenceResult F)) :
    (t.writeBack r).request = t.request := by
  unfold writeBack
  split
  · split <;> rfl
  · rfl

@[simp] theorem writeBack_timeout (t : InferenceTask F) (r : Option (InferenceResult F)) :
    (t.writeBack r).timeout = t.timeout := by
  unfold writeBack
  split
  · split <;> rfl
  · rfl

@[simp] theorem writeBack_completed (t : InferenceTask F) (r : Option (InferenceResult F)) :
    (t.writeBack r).completed = t.completed := by
  unfold writeBack
  split
  · split <;> rfl
  · rfl

theorem toInput_congr {t u : InferenceTask F} (h : t.request = u.request) :
    t.toInput = u.toInput := by
  simp only [request, Prod.mk.injEq] at h
  simp [toInput, h]

/-! ### Outcomes -/

/-- What a finished task tells its worker: the output of a success, or the text of a failure. -/
def outcome (t : InferenceTask F) : Except Bytes (List F) :=
  if t.success then .ok t.outputData else .error t.errorMsg

/-- The outcome that the engine's results assign to one position of the batch. -/
def outcomeOf (result : Option (InferenceResult F)) : Except Bytes (List F) :=
  match result with
  | some r => if r.success then .ok r.data else .error r.errorMsg
  | none => .error (ascii "batch result mismatch")

/-- The write-back gives a task exactly the outcome of its position. -/
@[simp] theorem outcome_writeBack (t : InferenceTask F) (r : Option (InferenceResult F)) :
    (t.writeBack r).outcome = outcomeOf r := by
  unfold writeBack outcomeOf outcome
  split
  · split <;> simp_all
  · simp

theorem success_iff (t : InferenceTask F) : t.success = true ↔ t.outcome = .ok t.outputData := by
  unfold outcome
  split <;> simp_all

/-- A result assigns a success only when the engine reported one for that position. -/
theorem outcomeOf_eq_ok {r : Option (InferenceResult F)} {out : List F}
    (h : outcomeOf r = .ok out) : ∃ x, r = some x ∧ x.success = true ∧ x.data = out := by
  unfold outcomeOf at h
  split at h
  · next x =>
      split at h
      · next hx => exact ⟨x, rfl, hx, by simpa using h⟩
      · simp at h
  · simp at h

end InferenceTask

/-! ### The answer of `do_request` -/

/-- The status and the JSON body that `do_request` leaves for `process_write`. -/
structure Reply where
  status : ℕ := 200
  body : Bytes
  deriving DecidableEq

/-- The answer when `enqueue` refuses the task. -/
def overloadedReply : Reply where
  status := 503
  body := ascii "\x7b\"status\":\"error\",\"msg\":\"server overloaded, queue full\"\x7d"

/-- The output array of the answer; `printF` is `snprintf(num, sizeof(num), "%f", x)`. -/
def printArray {F : Type} (printF : F → Bytes) (out : List F) : Bytes :=
  ascii "[" ++ (ascii ",").intercalate (out.map printF) ++ ascii "]"

/-- The answer that `do_request` builds from a task it has waited for. -/
def inferenceReply {F : Type} (printF : F → Bytes) (task : InferenceTask F) : Reply where
  body :=
    if task.timeout then ascii "\x7b\"status\":\"error\",\"msg\":\"inference timeout\"\x7d"
    else if !task.success then
      ascii "\x7b\"status\":\"error\",\"msg\":\"" ++
        (if task.errorMsg.isEmpty then ascii "inference failed" else CString.cut task.errorMsg) ++
        ascii "\"\x7d"
    else
      ascii "\x7b\"status\":\"ok\",\"model\":\"" ++ task.modelName ++ ascii "\",\"output\":" ++
        printArray printF task.outputData ++ ascii "\x7d"

/-! ### Verdicts -/

section Verdict

variable {F : Type}

/-- How a task ends, in the order in which `do_request` asks. -/
inductive Verdict (F : Type)
  | timedOut
  | failed (errorMsg : Bytes)
  | succeeded (output : List F)

/-- What `do_request` finds in a task. -/
def InferenceTask.verdict (t : InferenceTask F) : Verdict F :=
  if t.timeout then .timedOut
  else match t.outcome with
    | .error msg => .failed msg
    | .ok out => .succeeded out

theorem InferenceTask.verdict_timeout {t : InferenceTask F} (h : t.timeout = true) :
    t.verdict = .timedOut := by
  rw [verdict, if_pos h]

theorem InferenceTask.verdict_congr {t u : InferenceTask F} (h : t.timeout = u.timeout)
    (ho : t.outcome = u.outcome) : t.verdict = u.verdict := by
  rw [verdict, verdict, h, ho]

/-- The answer for a verdict, given the model name of the task. -/
def Verdict.reply (printF : F → Bytes) (modelName : Bytes) : Verdict F → Reply
  | .timedOut => { body := ascii "\x7b\"status\":\"error\",\"msg\":\"inference timeout\"\x7d" }
  | .failed errorMsg =>
      { body := ascii "\x7b\"status\":\"error\",\"msg\":\"" ++
          (if errorMsg.isEmpty then ascii "inference failed" else CString.cut errorMsg) ++
          ascii "\"\x7d" }
  | .succeeded output =>
      { body := ascii "\x7b\"status\":\"ok\",\"model\":\"" ++ modelName ++
          ascii "\",\"output\":" ++ printArray printF output ++ ascii "\x7d" }

/-- **The answer depends on the verdict** and on the model name only. -/
theorem inferenceReply_eq (printF : F → Bytes) (t : InferenceTask F) :
    inferenceReply printF t = t.verdict.reply printF t.modelName := by
  unfold inferenceReply InferenceTask.verdict InferenceTask.outcome
  cases t.timeout with
  | true => rfl
  | false => cases t.success <;> rfl

end Verdict

/-! ### The mock engine -/

/-- `MockEngine`: the part of its model description that `infer_batch` reads. -/
structure MockEngine where
  outputSize : ℕ := 5
  outputShape : List ℤ := [1, 5]

namespace MockEngine

variable {F : Type} [Zero F] [Mul F] [OfNat F 2]

def setIoSize (outputSize : ℕ) : MockEngine :=
  { outputSize := outputSize, outputShape := [1, (outputSize : ℤ)] }

/-- The inner loop of `infer_batch`: output `j` is twice input `j`, or twice zero past its end. -/
def inferRow (m : MockEngine) (data : List F) : List F :=
  (List.range m.outputSize).map fun j => data.getD j 0 * 2

/-- `MockEngine::infer_batch`. -/
def inferBatch (m : MockEngine) (batch : List (InferenceInput F)) : List (InferenceResult F) :=
  batch.map fun input =>
    { data := m.inferRow input.data, shape := m.outputShape, success := true }

@[simp] theorem length_inferRow (m : MockEngine) (data : List F) :
    (m.inferRow data).length = m.outputSize := by simp [inferRow]

/-- Entry `j` of a row is twice entry `j` of its input, which counts as zero past the end. -/
theorem getElem_inferRow (m : MockEngine) (data : List F) (j : ℕ)
    (h : j < (m.inferRow data).length) : (m.inferRow data)[j] = data.getD j 0 * 2 := by
  simp [inferRow]

theorem inferBatch_getElem? (m : MockEngine) (batch : List (InferenceInput F)) (i : ℕ) :
    (m.inferBatch batch)[i]? = (batch[i]?).map fun input =>
      { data := m.inferRow input.data, shape := m.outputShape, success := true } := by
  simp [inferBatch]

end MockEngine

end Gateway
