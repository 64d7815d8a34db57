/-
**The batch scheduler as an event system.**

`scheduler/batch_scheduler.cpp` is run by three kinds of threads: any number of workers call
`enqueue` from `do_request` and then wait for their task, one scheduler thread runs `run()`, and
each submitted batch runs `execute_batch` on a thread of its own.  This module gives the joint state
of all of them and one step relation, `Gateway.Sched.Step`, whose steps are their atomic actions.

A critical section of a task's mutex is one step.  So is a critical section of `queue_lock_`,
except that of `cleanup_expired`, which marks tasks while it holds the lock: there each task is
visited by steps of its own and `Gateway.Sched.State.lockFree` keeps the other users of the lock
out.  Reads of `running_` and `active_batch_count_` outside the lock are single steps, and so are
`pthread_cond_signal` and `sem_post`.  Clock readings, wake-ups of timed waits, the results of the
engine and the success of `pthread_create` are chosen by the environment.

A task is named by a number that is never used again, so a pointer names one object even after its
storage was reused; `storage` records which piece of stack the object occupies.

Main definitions:

* `Gateway.Sched.Config` — the settings, with the lower bound that `set_max_concurrent_batches`
  enforces;
* `Gateway.Sched.enqueue`, `Gateway.Sched.collectBatch` — the two functions that move tasks in and
  out of the queues;
* `Gateway.Sched.RunPc`, `Gateway.Sched.RunPc.branch` — the positions of `run()` and its branches;
* `Gateway.Sched.Exec` — one call of `execute_batch`;
* `Gateway.Sched.CallStep`, `Gateway.Sched.RunStep`, `Gateway.Sched.ExecStep` — the steps of a
  worker, of the scheduler thread and of an executor;
* `Gateway.Sched.Step`, `Gateway.Sched.Runs` — the step relation and its runs from the initial
  state.
-/

import InferenceGateway.EventSystem
import InferenceGateway.Task
import Mathlib.Tactic.Simps.Basic

set_option relaxedAutoImplicit false
set_option autoImplicit false

namespace Gateway.Sched

variable {F : Type}

/-! ### Settings -/

/-- The settings of the scheduler, fixed before `start()`. -/
structure Config where
  batchWindowMs : ℤ := 10
  maxBatchSize : ℤ := 8
  maxConcurrentBatches : ℤ := 2
  maxQueueSize : ℤ := 0
  /-- `set_max_concurrent_batches` never stores less than one. -/
  maxConcurrentBatches_pos : 1 ≤ maxConcurrentBatches := by decide

/-- `set_max_concurrent_batches`. -/
def Config.setMaxConcurrentBatches (cfg : Config) (n : ℤ) : Config :=
  { cfg with
    maxConcurrentBatches := if n > 0 then n else 1
    maxConcurrentBatches_pos := by split <;> omega }

/-- What the threads cannot decide themselves: the results the engine may return for a batch, the
batches on which it throws, whether `pthread_create` may fail, and `snprintf("%f")`. -/
structure World (F : Type) where
  inferBatch : List (InferenceInput F) → List (InferenceResult F) → Prop
  throws : List (InferenceInput F) → Prop
  createFails : Prop
  printF : F → Bytes

/-- Thread creation succeeds and the engine returns. -/
structure World.Reliable (w : World F) : Prop where
  creates : ¬ w.createFails
  returns : ∀ inputs, ¬ w.throws inputs

/-- The environment in which the engine is `MockEngine`. -/
def mockWorld [Zero F] [Mul F] [OfNat F 2] (m : MockEngine) (printF : F → Bytes) : World F where
  inferBatch inputs results := results = m.inferBatch inputs
  throws _ := False
  createFails := False
  printF := printF

theorem mockWorld_reliable [Zero F] [Mul F] [OfNat F 2] (m : MockEngine) (printF : F → Bytes) :
    (mockWorld m printF).Reliable := ⟨id, fun _ => id⟩

/-! ### Thread positions -/

/-- A pointer to an `InferenceTask`. -/
abbrev TaskRef := ℕ

/-- The three queues, most urgent first. -/
inductive QueueClass
  | high | mid | low
  deriving DecidableEq

/-- The `switch (task->priority)` of `enqueue`. -/
def QueueClass.ofPriority (priority : ℤ) : QueueClass :=
  if priority = 0 then .high else if priority = 2 then .low else .mid

/-- The queue that `cleanup_expired` visits next. -/
def QueueClass.next : QueueClass → Option QueueClass
  | .high => some .mid
  | .mid => some .low
  | .low => none

/-- How urgent a queue is: smaller is served first. -/
def QueueClass.rank : QueueClass → ℕ
  | .high => 0
  | .mid => 1
  | .low => 2

/-- Where a thread stands in releasing a task: about to set `timeout`, about to enter the critical
section of `mark_done`, or about to issue its `pthread_cond_signal`. -/
inductive MarkPhase
  | setTimeout | complete | signal
  deriving DecidableEq

/-- The position of the scheduler thread in `run()`.  `clean` and `cleanMark` hold `queue_lock_`;
their `second` tells the call of `cleanup_expired` after the accumulation sleep from the one before
it, `c` and `i` are the queue and the iterator. -/
inductive RunPc
  | notStarted
  | loopTest
  | semWait (waitMs : ℤ)
  | testRunning
  | cleanup (second : Bool)
  | clean (second : Bool) (now : ℤ) (c : QueueClass) (i : ℕ)
  | cleanMark (second : Bool) (now : ℤ) (c : QueueClass) (i : ℕ)
  | testIdle
  | testPending
  | sleeping
  | testRunningSlept
  | collect
  | throttleRunning (batch : List TaskRef)
  | throttleActive (batch : List TaskRef)
  | throttleWait (batch : List TaskRef)
  | testStop (batch : List TaskRef)
  | release (batch : List TaskRef)
  | filterClock (batch : List TaskRef)
  | filter (now : ℤ) (batch validBatch : List TaskRef)
  | submit (validBatch : List TaskRef)
  | spawn (validBatch : List TaskRef)
  | exited
  deriving DecidableEq

/-- The position of a thread in `execute_batch`. -/
inductive ExecPc
  | enter | convert | infer | write | complete | signal | release (notify : Bool) | post
  | finished | threw
  deriving DecidableEq

/-- One call of `execute_batch`, with its local variables. -/
structure Exec (F : Type) where
  batch : List TaskRef
  pc : ExecPc := .enter
  inputs : List (InferenceInput F) := []
  results : List (InferenceResult F) := []
  i : ℕ := 0

/-- The position of a worker in the call of `do_request` that owns a task. -/
inductive CallPc
  | absent
  | built
  | posting
  | checking
  | blocked
  | replying
  | rejected
  | returned (reply : Reply)
  deriving DecidableEq

/-! ### The state -/

/-- The joint state of the scheduler object, the tasks and all threads. -/
structure State (F : Type) where
  queueHigh : List TaskRef := []
  queueMid : List TaskRef := []
  queueLow : List TaskRef := []
  queueSem : ℕ := 0
  activeBatchCount : ℤ := 0
  running : Bool := false
  nextTaskId : ℕ := 1
  tasks : TaskRef → InferenceTask F := fun _ => {}
  pc : RunPc := .notStarted
  mark : Option (TaskRef × MarkPhase) := none
  execs : List (Exec F) := []
  calls : TaskRef → CallPc := fun _ => .absent
  storage : TaskRef → ℕ := fun _ => 0
  stopPosts : ℕ := 0

namespace State

/-- The constructed scheduler, before `start()`. -/
def init : State F := {}

def queue (s : State F) : QueueClass → List TaskRef
  | .high => s.queueHigh
  | .mid => s.queueMid
  | .low => s.queueLow

def setQueue (s : State F) (q : List TaskRef) : QueueClass → State F
  | .high => { s with queueHigh := q }
  | .mid => { s with queueMid := q }
  | .low => { s with queueLow := q }

/-- The tasks of the three queues, in the order in which `collect_batch` takes them. -/
def pending (s : State F) : List TaskRef := s.queueHigh ++ s.queueMid ++ s.queueLow

/-- `pending_count()`. -/
def pendingCount (s : State F) : ℕ :=
  s.queueHigh.length + s.queueMid.length + s.queueLow.length

/-- A write to one task. -/
@[simps -fullyApplied]
def modify (s : State F) (t : TaskRef) (f : InferenceTask F → InferenceTask F) : State F :=
  { s with tasks := Function.update s.tasks t (f (s.tasks t)) }

/-- The worker of task `t` moves on. -/
@[simps -fullyApplied]
def setCall (s : State F) (t : TaskRef) (pc : CallPc) : State F :=
  { s with calls := Function.update s.calls t pc }

/-- The executor number `e` moves on. -/
@[simps -fullyApplied]
def setExec (s : State F) (e : ℕ) (x : Exec F) : State F :=
  { s with execs := s.execs.set e x }

/-- Whether the scheduler thread is inside `cleanup_expired` and so holds `queue_lock_`. -/
def lockFree (s : State F) : Prop :=
  match s.pc with
  | .clean .. | .cleanMark .. => False
  | _ => True

/-- The task of a call is alive from its construction until `do_request` returns. -/
def alive (s : State F) (t : TaskRef) : Prop :=
  match s.calls t with
  | .absent | .returned _ => False
  | _ => True

end State

/-! ### The queue operations -/

/-- `enqueue` up to the unlock of `queue_lock_`; `now` is `time(nullptr)`. -/
def enqueue (cfg : Config) (s : State F) (task : TaskRef) (now : ℤ) : Bool × State F :=
  if 0 < cfg.maxQueueSize ∧ cfg.maxQueueSize ≤ s.pendingCount then (false, s)
  else
    let c := QueueClass.ofPriority (s.tasks task).priority
    let s := s.modify task fun t => { t with taskId := s.nextTaskId, arrivalTime := now }
    let s := { s with nextTaskId := s.nextTaskId + 1 }
    (true, s.setQueue (s.queue c ++ [task]) c)

/-- The lambda `collect_from` of `collect_batch`: it moves tasks from the front of a queue to the
batch while the batch is shorter than `max_batch_size_`. -/
def collectFrom (maxBatchSize : ℤ) (batch : List TaskRef) :
    List TaskRef → List TaskRef × List TaskRef
  | [] => (batch, [])
  | t :: q =>
      if (batch.length : ℤ) < maxBatchSize then collectFrom maxBatchSize (batch ++ [t]) q
      else (batch, t :: q)

/-- `collect_batch`. -/
def collectBatch (cfg : Config) (s : State F) : List TaskRef × State F :=
  let (batch, high) := collectFrom cfg.maxBatchSize [] s.queueHigh
  let (batch, mid) := collectFrom cfg.maxBatchSize batch s.queueMid
  let (batch, low) := collectFrom cfg.maxBatchSize batch s.queueLow
  (batch, { s with queueHigh := high, queueMid := mid, queueLow := low })

/-! ### The branches of `run()` -/

/-- The branches of `run()` that read nothing but the shared flags and counters, with the end of
each of its loops.  The queues are those that the iterator of `cleanup_expired` runs over. -/
def RunPc.branch (cfg : Config) (running : Bool) (active : ℤ) (queue : QueueClass → List TaskRef)
    (pending : ℕ) : RunPc → Option RunPc
  | .loopTest =>
      some (if running then .semWait (if active > 0 then cfg.batchWindowMs else 500) else .exited)
  | .semWait _ => some .testRunning
  | .testRunning => some (if running then .cleanup false else .exited)
  | .clean second now c i =>
      if i < (queue c).length then none
      else match c.next with
        | some c' => some (.clean second now c' 0)
        | none => some (if second then .collect else .testIdle)
  | .testIdle => some (if active = 0 then .testPending else .collect)
  | .testPending => some (if 0 < pending then .sleeping else .collect)
  | .sleeping => some .testRunningSlept
  | .testRunningSlept => some (if running then .cleanup true else .exited)
  | .throttleRunning batch => some (if running then .throttleActive batch else .testStop batch)
  | .throttleActive batch =>
      some (if cfg.maxConcurrentBatches ≤ active then .throttleWait batch else .testStop batch)
  | .throttleWait batch => some (.throttleRunning batch)
  | .testStop batch => some (if running then .filterClock batch else .release batch)
  | .release [] => some .exited
  | .filter _ [] validBatch => some (if validBatch.isEmpty then .loopTest else .submit validBatch)
  | _ => none

/-- The waits of `run()` on `queue_sem_`, which end with a token or with a timeout. -/
def RunPc.waits : RunPc → Prop
  | .semWait _ | .throttleWait _ => True
  | _ => False

/-! ### Events -/

/-- What a step does, as far as the results below speak about it.  `readDeadline`, `setTimeout`,
`markDone`, `signal`, `readInput` and `writeResult` are the accesses of the scheduler and executor
threads to a task. -/
inductive Event
  | tau
  | construct (t : TaskRef)
  | accept (t : TaskRef)
  | reject (t : TaskRef)
  | etimedout (t : TaskRef)
  | reply (t : TaskRef) (reply : Reply)
  | collect (batch : List TaskRef)
  | readDeadline (t : TaskRef)
  | setTimeout (t : TaskRef)
  | markDone (t : TaskRef)
  | signal (t : TaskRef)
  | readInput (t : TaskRef)
  | infer (batch : List TaskRef)
  | writeResult (t : TaskRef)
  | leak (batch : List TaskRef)
  | abort
  deriving DecidableEq

/-- The task that a step of the scheduler or of an executor reads, writes or signals. -/
def Event.touched : Event → Option TaskRef
  | .readDeadline t | .setTimeout t | .markDone t | .signal t | .readInput t | .writeResult t =>
      some t
  | _ => none

/-! ### The steps of a worker -/

/-- The steps of the worker whose call of `do_request` owns the task `t`. -/
inductive CallStep (cfg : Config) (w : World F) (t : TaskRef) :
    State F → Event → State F → Prop
  | construct {s : State F} (addr : ℕ) (modelName : Bytes) (inputData : List F)
      (priority deadline clientFd : ℤ) :
      s.calls t = .absent → (∀ u, s.alive u → s.storage u ≠ addr) →
      CallStep cfg w t s (.construct t)
        { s.modify t fun _ => .make modelName inputData priority deadline clientFd with
          storage := Function.update s.storage t addr
          calls := Function.update s.calls t .built }
  | accept {s s₁ : State F} (now : ℤ) :
      s.calls t = .built → s.lockFree → enqueue cfg s t now = (true, s₁) →
      CallStep cfg w t s (.accept t) (s₁.setCall t .posting)
  | reject {s s₁ : State F} (now : ℤ) :
      s.calls t = .built → s.lockFree → enqueue cfg s t now = (false, s₁) →
      CallStep cfg w t s (.reject t) (s₁.setCall t .rejected)
  | post {s : State F} :
      s.calls t = .posting →
      CallStep cfg w t s .tau { s.setCall t .checking with queueSem := s.queueSem + 1 }
  -- `wait_with_timeout_ms`: the test of `completed`, the wait, and its two ways of waking up
  | checkDone {s : State F} :
      s.calls t = .checking → (s.tasks t).completed = true →
      CallStep cfg w t s .tau (s.setCall t .replying)
  | checkBlock {s : State F} :
      s.calls t = .checking → (s.tasks t).completed = false →
      CallStep cfg w t s .tau (s.setCall t .blocked)
  | wake {s : State F} : s.calls t = .blocked → CallStep cfg w t s .tau (s.setCall t .checking)
  | etimedout {s : State F} :
      s.calls t = .blocked →
      CallStep cfg w t s (.etimedout t)
        ((s.modify t fun x => { x with timeout := true, completed := true }).setCall t .replying)
  | reply {s : State F} :
      s.calls t = .replying →
      CallStep cfg w t s (.reply t (inferenceReply w.printF (s.tasks t)))
        (s.setCall t (.returned (inferenceReply w.printF (s.tasks t))))
  | replyRejected {s : State F} :
      s.calls t = .rejected →
      CallStep cfg w t s (.reply t overloadedReply) (s.setCall t (.returned overloadedReply))

/-! ### The steps of the scheduler thread -/

/-- The steps of the scheduler thread.  Those of `run()` itself wait until a `mark_done` that the
thread has begun is over. -/
inductive RunStep (cfg : Config) (w : World F) : State F → Event → State F → Prop
  | branch {s : State F} (pc' : RunPc) :
      s.mark = none →
      s.pc.branch cfg s.running s.activeBatchCount s.queue s.pendingCount = some pc' →
      RunStep cfg w s .tau { s with pc := pc' }
  | takeToken {s : State F} (pc' : RunPc) :
      s.mark = none → s.pc.waits → 0 < s.queueSem →
      s.pc.branch cfg s.running s.activeBatchCount s.queue s.pendingCount = some pc' →
      RunStep cfg w s .tau { s with queueSem := s.queueSem - 1, pc := pc' }
  | cleanBegin {s : State F} (second : Bool) (now : ℤ) :
      s.mark = none → s.pc = .cleanup second →
      RunStep cfg w s .tau { s with pc := .clean second now .high 0 }
  | cleanKeep {s : State F} (second : Bool) (now : ℤ) (c : QueueClass) (i : ℕ) (t : TaskRef) :
      s.mark = none → s.pc = .clean second now c i → (s.queue c)[i]? = some t →
      (s.tasks t).expired now = false →
      RunStep cfg w s (.readDeadline t) { s with pc := .clean second now c (i + 1) }
  | cleanExpired {s : State F} (second : Bool) (now : ℤ) (c : QueueClass) (i : ℕ) (t : TaskRef) :
      s.mark = none → s.pc = .clean second now c i → (s.queue c)[i]? = some t →
      (s.tasks t).expired now = true →
      RunStep cfg w s (.readDeadline t)
        { s with pc := .cleanMark second now c i, mark := some (t, .setTimeout) }
  | collect {s s₁ : State F} (batch : List TaskRef) :
      s.mark = none → s.pc = .collect → collectBatch cfg s = (batch, s₁) →
      RunStep cfg w s (.collect batch)
        { s₁ with pc := if batch.isEmpty then .loopTest else .throttleRunning batch }
  | releaseNext {s : State F} (t : TaskRef) (batch : List TaskRef) :
      s.mark = none → s.pc = .release (t :: batch) →
      RunStep cfg w s .tau { s with pc := .release batch, mark := some (t, .setTimeout) }
  | filterBegin {s : State F} (now : ℤ) (batch : List TaskRef) :
      s.mark = none → s.pc = .filterClock batch →
      RunStep cfg w s .tau { s with pc := .filter now batch [] }
  | filterKeep {s : State F} (now : ℤ) (t : TaskRef) (batch validBatch : List TaskRef) :
      s.mark = none → s.pc = .filter now (t :: batch) validBatch →
      (s.tasks t).expired now = false →
      RunStep cfg w s (.readDeadline t) { s with pc := .filter now batch (validBatch ++ [t]) }
  | filterExpired {s : State F} (now : ℤ) (t : TaskRef) (batch validBatch : List TaskRef) :
      s.mark = none → s.pc = .filter now (t :: batch) validBatch →
      (s.tasks t).expired now = true →
      RunStep cfg w s (.readDeadline t)
        { s with pc := .filter now batch validBatch, mark := some (t, .setTimeout) }
  | submit {s : State F} (validBatch : List TaskRef) :
      s.mark = none → s.pc = .submit validBatch →
      RunStep cfg w s .tau
        { s with activeBatchCount := s.activeBatchCount + 1, pc := .spawn validBatch }
  | spawn {s : State F} (validBatch : List TaskRef) :
      s.mark = none → s.pc = .spawn validBatch →
      RunStep cfg w s .tau
        { s with execs := s.execs ++ [{ batch := validBatch }], pc := .loopTest }
  -- the error of `pthread_create` is ignored: the batch is never executed
  | spawnFails {s : State F} (validBatch : List TaskRef) :
      w.createFails → s.mark = none → s.pc = .spawn validBatch →
      RunStep cfg w s (.leak validBatch) { s with pc := .loopTest }
  -- `t->timeout = true` and the two actions of `mark_done`
  | markTimeout {s : State F} (t : TaskRef) :
      s.mark = some (t, .setTimeout) →
      RunStep cfg w s (.setTimeout t)
        { s.modify t fun x => { x with timeout := true } with mark := some (t, .complete) }
  | markComplete {s : State F} (t : TaskRef) :
      s.mark = some (t, .complete) →
      RunStep cfg w s (.markDone t)
        { s.modify t fun x => { x with completed := true } with mark := some (t, .signal) }
  | markSignal {s : State F} (t : TaskRef) :
      s.mark = some (t, .signal) → s.lockFree → RunStep cfg w s (.signal t) { s with mark := none }
  -- in `cleanup_expired` the task is erased right after its signal, still under the lock
  | cleanSignal {s : State F} (t : TaskRef) (second : Bool) (now : ℤ) (c : QueueClass) (i : ℕ) :
      s.mark = some (t, .signal) → s.pc = .cleanMark second now c i →
      RunStep cfg w s (.signal t)
        { s.setQueue ((s.queue c).eraseIdx i) c with pc := .clean second now c i, mark := none }

/-! ### The steps of an executor -/

/-- The steps of `execute_batch`: the executor `x` becomes `x'` while the shared state `s` becomes
`s'`. -/
inductive ExecStep (w : World F) : State F → Exec F → Event → State F → Exec F → Prop
  | empty {s : State F} {x : Exec F} :
      x.pc = .enter → x.batch = [] → ExecStep w s x .tau s { x with pc := .release false }
  | enter {s : State F} {x : Exec F} :
      x.pc = .enter → x.batch ≠ [] → ExecStep w s x .tau s { x with pc := .convert }
  | convert {s : State F} {x : Exec F} (t : TaskRef) :
      x.pc = .convert → x.batch[x.inputs.length]? = some t →
      ExecStep w s x (.readInput t) s { x with inputs := x.inputs ++ [(s.tasks t).toInput] }
  | converted {s : State F} {x : Exec F} :
      x.pc = .convert → x.batch.length ≤ x.inputs.length →
      ExecStep w s x (.infer x.batch) s { x with pc := .infer }
  | returns {s : State F} {x : Exec F} (results : List (InferenceResult F)) :
      x.pc = .infer → w.inferBatch x.inputs results →
      ExecStep w s x .tau s { x with pc := .write, results := results, i := 0 }
  -- an exception leaves the thread function and ends the process
  | throws {s : State F} {x : Exec F} :
      x.pc = .infer → w.throws x.inputs → ExecStep w s x .abort s { x with pc := .threw }
  | write {s : State F} {x : Exec F} (t : TaskRef) :
      x.pc = .write → x.batch[x.i]? = some t →
      ExecStep w s x (.writeResult t) (s.modify t fun y => y.writeBack x.results[x.i]?)
        { x with pc := .complete }
  | complete {s : State F} {x : Exec F} (t : TaskRef) :
      x.pc = .complete → x.batch[x.i]? = some t →
      ExecStep w s x (.markDone t) (s.modify t fun y => { y with completed := true })
        { x with pc := .signal }
  | signal {s : State F} {x : Exec F} (t : TaskRef) :
      x.pc = .signal → x.batch[x.i]? = some t →
      ExecStep w s x (.signal t) s { x with pc := .write, i := x.i + 1 }
  | written {s : State F} {x : Exec F} :
      x.pc = .write → x.batch.length ≤ x.i → ExecStep w s x .tau s { x with pc := .release true }
  | release {s : State F} {x : Exec F} (notify : Bool) :
      x.pc = .release notify → s.lockFree →
      ExecStep w s x .tau { s with activeBatchCount := s.activeBatchCount - 1 }
        { x with pc := if notify then .post else .finished }
  | post {s : State F} {x : Exec F} :
      x.pc = .post →
      ExecStep w s x .tau { s with queueSem := s.queueSem + 1 } { x with pc := .finished }

/-! ### The system -/

/-- One atomic action of one thread. -/
inductive Step (cfg : Config) (w : World F) : State F → Event → State F → Prop
  | call {s s' : State F} {e : Event} (t : TaskRef) :
      CallStep cfg w t s e s' → Step cfg w s e s'
  | run {s s' : State F} {e : Event} : RunStep cfg w s e s' → Step cfg w s e s'
  | exec {s s' : State F} {e : Event} {x x' : Exec F} (n : ℕ) :
      s.execs[n]? = some x → ExecStep w s x e s' x' → Step cfg w s e (s'.setExec n x')
  | start {s : State F} :
      s.pc = .notStarted → Step cfg w s .tau { s with running := true, pc := .loopTest }
  -- the two statements of `stop()`
  | stop {s : State F} :
      Step cfg w s .tau { s with running := false, stopPosts := s.stopPosts + 1 }
  | stopPost {s : State F} :
      0 < s.stopPosts →
      Step cfg w s .tau { s with queueSem := s.queueSem + 1, stopPosts := s.stopPosts - 1 }

/-- The runs of the scheduler from its construction. -/
abbrev Runs (cfg : Config) (w : World F) (evs : List (Event)) (s : State F) : Prop :=
  EventSystem.Run (Step cfg w) State.init evs s

end Gateway.Sched
