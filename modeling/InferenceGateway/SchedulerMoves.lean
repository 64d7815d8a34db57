/-
What the operations of the scheduler move, and what each thread leaves alone.

Every later result about the scheduler is an invariant of `Gateway.Sched.Step`.  This module says
once what the operations on the queues compute and which parts of the state each kind of thread
cannot touch, so that the invariants need not unfold them again.

* `Gateway.Sched.enqueue_eq_true`, `Gateway.Sched.enqueue_eq_false` — the two exits of `enqueue`;
* `Gateway.Sched.collectBatch_eq` — **`collect_batch` takes a prefix** of the three queues read one
  after the other, and leaves the rest in order;
* `Gateway.Sched.handOf`, `Gateway.Sched.branch_handOf` — the batch that `run()` holds at each
  position, which its branches do not change;
* `Gateway.Sched.CallStep.frame`, `Gateway.Sched.ExecStep.frame` — frame lemmas;
* `Gateway.Sched.Step.taskMove` — **all that a step can do to a task**.
-/

import InferenceGateway.Scheduler

set_option relaxedAutoImplicit false
set_option autoImplicit false

namespace Gateway.Sched

variable {F : Type} {cfg : Config} {w : World F} {s s' s₁ : State F}

/-! ### Queues of a state -/

namespace State

@[simp] theorem queue_high (s : State F) : s.queue .high = s.queueHigh := rfl

@[simp] theorem queue_mid (s : State F) : s.queue .mid = s.queueMid := rfl

@[simp] theorem queue_low (s : State F) : s.queue .low = s.queueLow := rfl

@[simp] theorem queue_setQueue_self (s : State F) (q : List TaskRef) (c : QueueClass) :
    (s.setQueue q c).queue c = q := by cases c <;> rfl

@[simp] theorem setQueue_tasks (s : State F) (q : List TaskRef) (c : QueueClass) :
    (s.setQueue q c).tasks = s.tasks := by cases c <;> rfl

@[simp] theorem setQueue_execs (s : State F) (q : List TaskRef) (c : QueueClass) :
    (s.setQueue q c).execs = s.execs := by cases c <;> rfl

@[simp] theorem setQueue_calls (s : State F) (q : List TaskRef) (c : QueueClass) :
    (s.setQueue q c).calls = s.calls := by cases c <;> rfl

@[simp] theorem setQueue_storage (s : State F) (q : List TaskRef) (c : QueueClass) :
    (s.setQueue q c).storage = s.storage := by cases c <;> rfl

@[simp] theorem setQueue_pc (s : State F) (q : List TaskRef) (c : QueueClass) :
    (s.setQueue q c).pc = s.pc := by cases c <;> rfl

@[simp] theorem setQueue_mark (s : State F) (q : List TaskRef) (c : QueueClass) :
    (s.setQueue q c).mark = s.mark := by cases c <;> rfl

@[simp] theorem setQueue_running (s : State F) (q : List TaskRef) (c : QueueClass) :
    (s.setQueue q c).running = s.running := by cases c <;> rfl

@[simp] theorem setQueue_activeBatchCount (s : State F) (q : List TaskRef) (c : QueueClass) :
    (s.setQueue q c).activeBatchCount = s.activeBatchCount := by cases c <;> rfl

@[simp] theorem setQueue_nextTaskId (s : State F) (q : List TaskRef) (c : QueueClass) :
    (s.setQueue q c).nextTaskId = s.nextTaskId := by cases c <;> rfl

theorem mem_pending {t : TaskRef} : t ∈ s.pending ↔ ∃ c, t ∈ s.queue c := by
  constructor
  · intro h
    simp only [pending, List.mem_append] at h
    rcases h with (h | h) | h
    · exact ⟨.high, h⟩
    · exact ⟨.mid, h⟩
    · exact ⟨.low, h⟩
  · rintro ⟨c, h⟩
    cases c <;> simp_all [pending]

theorem length_pending (s : State F) : s.pending.length = s.pendingCount := by
  simp only [pending, pendingCount, List.length_append]

/-- Replacing a queue changes the counts of the pending tasks by the counts of that queue. -/
theorem count_pending_setQueue (s : State F) (q : List TaskRef) (c : QueueClass) (t : TaskRef) :
    (s.setQueue q c).pending.count t + (s.queue c).count t = s.pending.count t + q.count t := by
  cases c <;> simp only [setQueue, pending, queue, List.count_append] <;> omega

end State

/-! ### `enqueue` -/

/-- `enqueue` finds the queues full. -/
def State.full (cfg : Config) (s : State F) : Prop :=
  0 < cfg.maxQueueSize ∧ cfg.maxQueueSize ≤ s.pendingCount

/-- The accepting exit: the task gets the next id and goes to the end of the queue of its
priority. -/
theorem enqueue_eq_true {t : TaskRef} {now : ℤ} (h : enqueue cfg s t now = (true, s₁)) :
    ¬ s.full cfg ∧
      s₁ = ({ s.modify t fun x => { x with taskId := s.nextTaskId, arrivalTime := now } with
          nextTaskId := s.nextTaskId + 1 } : State F).setQueue
        (s.queue (.ofPriority (s.tasks t).priority) ++ [t]) (.ofPriority (s.tasks t).priority) := by
  unfold enqueue at h
  split at h
  · simp at h
  · next hfull =>
      refine ⟨hfull, ?_⟩
      simp only [Prod.mk.injEq, true_and] at h
      rw [← h]
      cases QueueClass.ofPriority (s.tasks t).priority <;> rfl

/-- `enqueue` accepts whatever it finds room for. -/
theorem enqueue_of_not_full {t : TaskRef} (now : ℤ) (h : ¬ s.full cfg) :
    enqueue cfg s t now =
      (true, ({ s.modify t fun x => { x with taskId := s.nextTaskId, arrivalTime := now } with
          nextTaskId := s.nextTaskId + 1 } : State F).setQueue
        (s.queue (.ofPriority (s.tasks t).priority) ++ [t])
          (.ofPriority (s.tasks t).priority)) := by
  unfold State.full at h
  rw [enqueue, if_neg h]
  cases QueueClass.ofPriority (s.tasks t).priority <;> rfl

/-- The refusing exit changes nothing. -/
theorem enqueue_eq_false {t : TaskRef} {now : ℤ} (h : enqueue cfg s t now = (false, s₁)) :
    s.full cfg ∧ s₁ = s := by
  unfold enqueue at h
  split at h
  · next hfull => exact ⟨hfull, by simpa using h.symm⟩
  · simp at h

/-! ### `collect_batch` -/

/-- The loop of `collect_from` takes from the queue what the batch still lacks. -/
theorem collectFrom_eq (m : ℤ) (batch q : List TaskRef) :
    collectFrom m batch q =
      (batch ++ q.take (m - batch.length).toNat, q.drop (m - batch.length).toNat) := by
  induction q generalizing batch with
  | nil => simp [collectFrom]
  | cons t q ih =>
      rw [collectFrom]
      split
      · next h =>
          obtain ⟨k, hk⟩ : ∃ k, (m - batch.length).toNat = k + 1 :=
            ⟨(m - batch.length).toNat - 1, by omega⟩
          have hk' : (m - ((batch ++ [t]).length : ℕ)).toNat = k := by simp; omega
          rw [ih, hk, hk']
          simp
      · next h =>
          have : (m - batch.length).toNat = 0 := by omega
          simp [this]

/-- The number of tasks that a collection may take. -/
def Config.batchLimit (cfg : Config) : ℕ := (max cfg.maxBatchSize 0).toNat

/-- The state after `collect_batch`: what is left of each queue. -/
def State.collected (cfg : Config) (s : State F) : State F :=
  { s with
    queueHigh := s.queueHigh.drop cfg.batchLimit
    queueMid := s.queueMid.drop (cfg.batchLimit - s.queueHigh.length)
    queueLow := s.queueLow.drop (cfg.batchLimit - s.queueHigh.length - s.queueMid.length) }

/-- **`collect_batch` takes a prefix** of `queue_high_ ++ queue_mid_ ++ queue_low_` of length
`max_batch_size_`, or all of it, and leaves the rest of each queue in order. -/
theorem collectBatch_eq (cfg : Config) (s : State F) :
    collectBatch cfg s = (s.pending.take cfg.batchLimit, s.collected cfg) := by
  have hlen : ∀ n : ℕ, (cfg.maxBatchSize - n).toNat = cfg.batchLimit - n := by
    intro n; unfold Config.batchLimit; omega
  have hhigh : (s.queueHigh.take cfg.batchLimit).length = min cfg.batchLimit s.queueHigh.length :=
    List.length_take
  simp only [collectBatch, collectFrom_eq, hlen, List.length_nil, List.nil_append, hhigh,
    Nat.sub_zero, List.length_append, List.length_take]
  have h₁ : cfg.batchLimit - min cfg.batchLimit s.queueHigh.length =
      cfg.batchLimit - s.queueHigh.length := by omega
  have h₂ : cfg.batchLimit - (min cfg.batchLimit s.queueHigh.length +
      min (cfg.batchLimit - min cfg.batchLimit s.queueHigh.length) s.queueMid.length) =
      cfg.batchLimit - s.queueHigh.length - s.queueMid.length := by omega
  rw [h₂, h₁]
  simp only [State.pending, State.collected, List.take_append, List.length_append, Nat.sub_sub]

/-- Nothing is lost or invented by a collection. -/
theorem take_append_pending_collected (cfg : Config) (s : State F) :
    s.pending.take cfg.batchLimit ++ (s.collected cfg).pending = s.pending := by
  simp only [State.pending, State.collected]
  have := List.take_append_drop cfg.batchLimit (s.queueHigh ++ s.queueMid ++ s.queueLow)
  rw [List.drop_append, List.drop_append, List.length_append, ← Nat.sub_sub] at this
  simpa only [List.append_assoc] using this

/-- What a step that collects has to know. -/
theorem eq_of_collectBatch {batch : List TaskRef} (h : collectBatch cfg s = (batch, s₁)) :
    batch = s.pending.take cfg.batchLimit ∧ s₁ = s.collected cfg := by
  rw [collectBatch_eq, Prod.mk.injEq] at h
  exact ⟨h.1.symm, h.2.symm⟩

/-! ### The batch in hand -/

/-- The tasks that `run()` holds in its local variables. -/
def handOf : RunPc → List TaskRef
  | .throttleRunning batch | .throttleActive batch | .throttleWait batch | .testStop batch
  | .release batch | .filterClock batch | .submit batch | .spawn batch => batch
  | .filter _ batch validBatch => validBatch ++ batch
  | _ => []

/-- The branches of `run()` do not change the batch in hand. -/
theorem branch_handOf {running : Bool} {active : ℤ} {queue : QueueClass → List TaskRef}
    {pending : ℕ} {pc pc' : RunPc} (h : pc.branch cfg running active queue pending = some pc') :
    handOf pc' = handOf pc := by
  cases pc with
  | clean second now c i =>
      simp only [RunPc.branch] at h
      split at h
      · cases h
      · cases hc : c.next with
        | none =>
            simp only [hc, Option.some.injEq] at h
            subst h
            split <;> rfl
        | some c' =>
            simp only [hc, Option.some.injEq] at h
            subst h
            rfl
  | release batch =>
      cases batch with
      | nil => cases h; rfl
      | cons t batch => cases h
  | filter now batch validBatch =>
      cases batch with
      | nil =>
          simp only [RunPc.branch, Option.some.injEq] at h
          subst h
          cases validBatch <;> simp [handOf]
      | cons t batch => cases h
  | sleeping | semWait _ | throttleWait _ => cases h; rfl
  | loopTest | testRunning | testIdle | testPending | testRunningSlept | throttleRunning _
  | throttleActive _ | testStop _ =>
      simp only [RunPc.branch, Option.some.injEq] at h
      subst h
      split <;> rfl
  | _ => cases h

/-- The branches of `run()` neither leave nor enter the marking of a queued task. -/
theorem branch_ne_cleanMark {running : Bool} {active : ℤ} {queue : QueueClass → List TaskRef}
    {pending : ℕ} {pc pc' : RunPc} (h : pc.branch cfg running active queue pending = some pc')
    (second : Bool) (now : ℤ) (c : QueueClass) (i : ℕ) :
    pc ≠ .cleanMark second now c i ∧ pc' ≠ .cleanMark second now c i := by
  constructor
  · intro hpc
    subst hpc
    cases h
  · intro hpc
    subst hpc
    cases pc with
    | clean second now d j =>
        simp only [RunPc.branch] at h
        split at h
        · cases h
        · cases hd : d.next with
          | none =>
              simp only [hd, Option.some.injEq] at h
              split at h <;> cases h
          | some d' => simp [hd] at h
    | release batch => cases batch <;> cases h
    | filter now batch validBatch =>
        cases batch with
        | nil => cases validBatch <;> cases h
        | cons t batch => cases h
    | sleeping | semWait _ | throttleWait _ => cases h
    | loopTest | testRunning | testIdle | testPending | testRunningSlept | throttleRunning _
    | throttleActive _ | testStop _ =>
        simp only [RunPc.branch, Option.some.injEq] at h
        split at h <;> cases h
    | _ => cases h

/-! ### Frames -/

/-- An executor changes neither the queues nor anything of the scheduler thread or the workers. -/
theorem ExecStep.frame {x x' : Exec F} {e : Event} (h : ExecStep w s x e s' x') :
    s'.queueHigh = s.queueHigh ∧ s'.queueMid = s.queueMid ∧ s'.queueLow = s.queueLow ∧
      s'.running = s.running ∧ s'.nextTaskId = s.nextTaskId ∧ s'.pc = s.pc ∧ s'.mark = s.mark ∧
      s'.execs = s.execs ∧ s'.calls = s.calls ∧ s'.storage = s.storage := by
  cases h <;> simp

/-- A worker changes nothing of the scheduler thread or of the executors. -/
theorem CallStep.frame {t : TaskRef} {e : Event} (h : CallStep cfg w t s e s') :
    s'.activeBatchCount = s.activeBatchCount ∧ s'.running = s.running ∧ s'.pc = s.pc ∧
      s'.mark = s.mark ∧ s'.execs = s.execs := by
  cases h with
  | accept now _ _ h =>
      obtain ⟨-, rfl⟩ := enqueue_eq_true h
      simp
  | reject now _ _ h =>
      obtain ⟨-, rfl⟩ := enqueue_eq_false h
      simp
  | _ => simp

/-- The executors leave the pending tasks alone. -/
theorem ExecStep.pending {x x' : Exec F} {e : Event} (h : ExecStep w s x e s' x') :
    s'.pending = s.pending := by
  obtain ⟨h₁, h₂, h₃, -⟩ := h.frame
  simp [State.pending, h₁, h₂, h₃]

/-- The scheduler thread moves no worker. -/
theorem RunStep.calls {e : Event} (h : RunStep cfg w s e s') : s'.calls = s.calls := by
  cases h with
  | collect batch hm hpc hb =>
      obtain ⟨rfl, rfl⟩ := eq_of_collectBatch hb
      rfl
  | cleanSignal t second now c i hm hpc => simp
  | _ => rfl

/-- A worker moves only itself. -/
theorem CallStep.calls_of_ne {t u : TaskRef} {e : Event} (h : CallStep cfg w t s e s')
    (hu : u ≠ t) : s'.calls u = s.calls u := by
  cases h with
  | accept now _ _ h =>
      obtain ⟨-, rfl⟩ := enqueue_eq_true h
      simp [Function.update_of_ne hu]
  | reject now _ _ h =>
      obtain ⟨-, rfl⟩ := enqueue_eq_false h
      simp [Function.update_of_ne hu]
  | _ => simp [Function.update_of_ne hu]

/-- A call moves only by a step of its own worker. -/
theorem Step.calls {e : Event} (h : Step cfg w s e s') (u : TaskRef) :
    s'.calls u = s.calls u ∨ CallStep cfg w u s e s' := by
  cases h with
  | call t h =>
      by_cases hu : u = t
      · subst hu
        exact .inr h
      · exact .inl (h.calls_of_ne hu)
  | run h => exact .inl (by rw [h.calls])
  | exec n hx h =>
      obtain ⟨-, -, -, -, -, -, -, -, hcalls, -⟩ := h.frame
      exact .inl (by rw [State.setExec_calls, hcalls])
  | start _ => exact .inl rfl
  | stop => exact .inl rfl
  | stopPost _ => exact .inl rfl

/-! ### Tasks -/

/-- What a step that shows an event may leave of the task `t`. -/
inductive TaskMove (s : State F) (t : TaskRef) : Event → InferenceTask F → Prop
  | same {e : Event} : TaskMove s t e (s.tasks t)
  | construct (modelName : Bytes) (inputData : List F) (priority deadline clientFd : ℤ) :
      s.calls t = .absent →
      TaskMove s t (.construct t) (.make modelName inputData priority deadline clientFd)
  | accept (taskId : ℕ) (now : ℤ) :
      s.calls t = .built →
      TaskMove s t (.accept t) { s.tasks t with taskId := taskId, arrivalTime := now }
  | etimedout :
      s.calls t = .blocked →
      TaskMove s t (.etimedout t) { s.tasks t with timeout := true, completed := true }
  | setTimeout : TaskMove s t (.setTimeout t) { s.tasks t with timeout := true }
  | markDone : TaskMove s t (.markDone t) { s.tasks t with completed := true }
  | writeResult (r : Option (InferenceResult F)) :
      TaskMove s t (.writeResult t) ((s.tasks t).writeBack r)

/-- A write to one task is a move of that task and leaves the others as they are. -/
theorem TaskMove.update {e : Event} {u : TaskRef} {y : InferenceTask F} (h : TaskMove s u e y)
    (t : TaskRef) : TaskMove s t e (Function.update s.tasks u y t) := by
  by_cases htu : t = u
  · subst htu
    simpa using h
  · rw [Function.update_of_ne htu]
    exact .same

/-- **All that a step can do to a task.** -/
theorem Step.taskMove {e : Event} (h : Step cfg w s e s') (t : TaskRef) :
    TaskMove s t e (s'.tasks t) := by
  cases h with
  | call u h =>
      cases h with
      | construct addr modelName inputData priority deadline clientFd hc hfree =>
          exact (TaskMove.construct _ _ _ _ _ hc).update t
      | accept now hc hl he =>
          obtain ⟨-, rfl⟩ := enqueue_eq_true he
          simp only [State.setCall_tasks, State.setQueue_tasks, State.modify_tasks]
          exact (TaskMove.accept _ _ hc).update t
      | reject now hc hl he =>
          obtain ⟨-, rfl⟩ := enqueue_eq_false he
          exact .same
      | etimedout hc => exact (TaskMove.etimedout hc).update t
      | _ => exact .same
  | run h =>
      cases h with
      | collect batch hm hpc hb =>
          obtain ⟨rfl, rfl⟩ := eq_of_collectBatch hb
          exact .same
      | markTimeout u hm => exact TaskMove.setTimeout.update t
      | markComplete u hm => exact TaskMove.markDone.update t
      | cleanSignal u second now c i hm hpc =>
          simp only [State.setQueue_tasks]
          exact .same
      | _ => exact .same
  | exec n hx h =>
      cases h with
      | write u hpc hu => exact (TaskMove.writeResult _).update t
      | complete u hpc hu => exact TaskMove.markDone.update t
      | _ => exact .same
  | start _ => exact .same
  | stop => exact .same
  | stopPost _ => exact .same

/-! ### Storage -/

/-- Only the construction of a task chooses its storage. -/
theorem Step.storage {e : Event} (hs : Step cfg w s e s') {u : TaskRef} (h : e ≠ .construct u) :
    s'.storage u = s.storage u := by
  cases hs with
  | call v hs =>
      cases hs with
      | construct addr modelName inputData priority deadline clientFd hc hfree =>
          have huv : u ≠ v := fun huv => h (huv ▸ rfl)
          exact Function.update_of_ne huv _ _
      | accept now hc hl he =>
          obtain ⟨-, rfl⟩ := enqueue_eq_true he
          simp
      | reject now hc hl he =>
          obtain ⟨-, rfl⟩ := enqueue_eq_false he
          rfl
      | _ => rfl
  | run hs =>
      cases hs with
      | collect batch hm hpc hb =>
          obtain ⟨rfl, rfl⟩ := eq_of_collectBatch hb
          rfl
      | cleanSignal v second now c i hm hpc => simp
      | _ => rfl
  | exec n hx hs =>
      obtain ⟨-, -, -, -, -, -, -, -, -, hstorage⟩ := hs.frame
      rw [State.setExec_storage, hstorage]
  | start _ => rfl
  | stop => rfl
  | stopPost _ => rfl

/-- A live task was alive before and has kept its storage, or was built just now on storage that no
live task occupies. -/
theorem Step.alive_new {e : Event} (hs : Step cfg w s e s') {u : TaskRef} (h : s'.alive u) :
    s.alive u ∧ s'.storage u = s.storage u ∨
      e = .construct u ∧ ∀ v, s.alive v → s.storage v ≠ s'.storage u := by
  by_cases he : e = .construct u
  · subst he
    right
    cases hs with
    | run hs => cases hs
    | exec n hx hs => cases hs
    | call t hs =>
        cases hs with
        | construct addr modelName inputData priority deadline clientFd hc hfree =>
            exact ⟨rfl, fun v hv => by simpa using hfree v hv⟩
  · refine .inl ⟨?_, hs.storage he⟩
    rcases hs.calls u with hcalls | hs
    · simpa only [State.alive, hcalls] using h
    · cases hs with
      | construct => exact absurd rfl he
      | reply hc => simp [State.alive] at h
      | replyRejected hc => simp [State.alive] at h
      | accept now hc hl he => simp [State.alive, hc]
      | reject now hc hl he => simp [State.alive, hc]
      | post hc | checkDone hc _ | checkBlock hc _ | wake hc | etimedout hc =>
          simp [State.alive, hc]

end Gateway.Sched
