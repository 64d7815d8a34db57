/-
What becomes of a task.

A worker that leaves `wait_with_timeout_ms` reads its task without the mutex.  This module says
what it can find there: a timeout, or what the engine has returned for the input of this very task,
in the batch in which it was.  A worker whose task was refused has met a full queue.

* `Gateway.Sched.World.Gave` — the engine has given an outcome for an input, in some batch;
* `Gateway.Sched.Fate` — what `do_request` can meet with;
* `Gateway.Sched.Runs.written_of_completed` — a completed task has timed out, or an executor has
  written its result;
* `Gateway.Sched.Runs.fate` — **every worker meets with the fate of its own input**.
-/

import InferenceGateway.SchedulerVerdict

set_option relaxedAutoImplicit false
set_option autoImplicit false

namespace Gateway.Sched

open InferenceTask (outcomeOf)

variable {F : Type} {cfg : Config} {w : World F} {s s' : State F} {e : Event} {evs : List Event}
  {t : TaskRef}

/-! ### The fate of an input -/

/-- The engine has given this outcome for this input, in some batch. -/
def World.Gave (w : World F) (input : InferenceInput F) (outcome : Except Bytes (List F)) : Prop :=
  ∃ (inputs : List (InferenceInput F)) (results : List (InferenceResult F)) (j : ℕ),
    w.inferBatch inputs results ∧ inputs[j]? = some input ∧ outcomeOf results[j]? = outcome

/-- What `do_request` can meet with: a queue that is full, a timeout, or what the engine has given
for the input. -/
inductive Fate (cfg : Config) (w : World F) (input : InferenceInput F) :
    Option (Verdict F) → Prop
  | refused : 0 < cfg.maxQueueSize → Fate cfg w input none
  | timedOut : Fate cfg w input (some .timedOut)
  | failed {errorMsg : Bytes} :
      w.Gave input (.error errorMsg) → Fate cfg w input (some (.failed errorMsg))
  | succeeded {output : List F} :
      w.Gave input (.ok output) → Fate cfg w input (some (.succeeded output))

/-- An engine that works on the inputs one by one. -/
def World.RowWise (w : World F) (g : InferenceInput F → InferenceResult F) : Prop :=
  ∀ inputs results, w.inferBatch inputs results → results = inputs.map g

/-- What such an engine gives does not depend on the batch. -/
theorem World.RowWise.gave {g : InferenceInput F → InferenceResult F} (h : w.RowWise g)
    {input : InferenceInput F} {output : List F} (hgave : w.Gave input (.ok output)) :
    output = (g input).data := by
  obtain ⟨inputs, results, j, hinfer, hj, hout⟩ := hgave
  obtain rfl := h inputs results hinfer
  obtain ⟨x, hx, -, rfl⟩ := InferenceTask.outcomeOf_eq_ok hout
  rw [List.getElem?_map, hj] at hx
  exact congrArg InferenceResult.data (Option.some.inj hx).symm

/-- What the worker of a task finds after `enqueue` and its wait. -/
def State.found (s : State F) (t : TaskRef) : Option (Verdict F) :=
  if s.calls t = .rejected then none else some (s.tasks t).verdict

/-! ### Completed tasks -/

/-- Behind the first action of a release the task has its timeout. -/
def State.MarkTimed (s : State F) : Prop :=
  ∀ t, s.mark = some (t, .complete) ∨ s.mark = some (t, .signal) → (s.tasks t).timeout = true

theorem RunStep.markTimed (hs : RunStep cfg w s e s') (h : s.MarkTimed) : s'.MarkTimed := by
  cases hs with
  | collect batch hm hpc hb =>
      obtain ⟨rfl, rfl⟩ := eq_of_collectBatch hb
      exact h
  | markTimeout u hm =>
      intro t ht
      rcases ht with ht | ht
      · cases ht
        simp
      · cases ht
  | markComplete u hm =>
      intro t ht
      rcases ht with ht | ht
      · cases ht
      · cases ht
        simpa using h u (.inl hm)
  | branch | takeToken | cleanBegin | cleanKeep | filterBegin | filterKeep | submit | spawn
  | spawnFails => exact h
  | cleanExpired | releaseNext | filterExpired | markSignal | cleanSignal =>
      intro t ht
      rcases ht with ht | ht <;> cases ht

theorem Runs.markTimed (h : Runs cfg w evs s) : s.MarkTimed := by
  refine h.invariant (P := fun _ s => s.MarkTimed)
    (fun t ht => by rcases ht with ht | ht <;> cases ht) ?_
  intro evs s e s' hr ih hs
  -- a task that is being released was accepted, so its timeout stays
  have hkeep : s'.mark = s.mark → s'.MarkTimed := by
    intro hmark t ht
    rw [hmark] at ht
    have hplaced : t ∈ s.placed := by
      rcases ht with ht | ht
      · exact List.mem_append_left _ (mem_of_mark (Runs.iteratorOk hr) ht)
      · exact List.mem_append_left _ (mem_of_mark (Runs.iteratorOk hr) ht)
    have hacc := Runs.acceptable_of_accepted hr (Runs.accepted_of_mem_placed hr hplaced)
    rcases hs.timeout hacc with heq | ⟨-, hset⟩
    · exact heq.trans (ih t ht)
    · exact hset
  cases hs with
  | call u hs => exact hkeep hs.frame.2.2.2.1
  | run hs => exact hs.markTimed ih
  | exec n hx hs =>
      obtain ⟨-, -, -, -, -, -, hmark, -⟩ := hs.frame
      exact hkeep hmark
  | start _ => exact hkeep rfl
  | stop => exact hkeep rfl
  | stopPost _ => exact hkeep rfl

/-- **A completed task has timed out, or an executor has written its result.** -/
theorem Runs.written_of_completed (h : Runs cfg w evs s) (ht : (s.tasks t).completed = true) :
    (s.tasks t).timeout = true ∨ s.WrittenBy t := by
  refine h.invariant (P := fun _ s => (s.tasks t).completed = true →
    (s.tasks t).timeout = true ∨ s.WrittenBy t) (fun h => by cases h) ?_ ht
  intro evs s e s' hr ih hs ht
  rcases hs.completed t with hc | ⟨he | he, -⟩ | ⟨-, hc⟩
  · -- it was completed before: neither a timeout nor a result goes away
    have hold : (s.tasks t).completed = true := hc ▸ ht
    refine (ih hold).imp (fun htime => ?_) fun hwrite => hs.writtenBy hwrite
    rcases hs.timeout (Runs.acceptable_of_completed hr hold) with heq | ⟨-, hset⟩
    · exact heq.trans htime
    · exact hset
  · -- `mark_done`, of the scheduler thread or of an executor
    subst he
    cases hs with
    | call u hs => cases hs
    | run hs =>
        cases hs with
        | markComplete _ hm =>
            left
            simpa using Runs.markTimed hr t (.inl hm)
    | exec n hx hs =>
        cases hs with
        | complete _ hpc hu =>
            right
            exact ⟨n, _, _, List.getElem?_set_self (List.getElem?_eq_some_iff.1 hx).1, hu,
              Nat.lt_succ_self _⟩
  · subst he
    exact .inl hs.etimedout.2.2
  · rw [hc] at ht
    cases ht

/-- What an executor has written is what the engine gave for the input of the task. -/
theorem Runs.gave (h : Runs cfg w evs s) (ht : s.WrittenBy t) :
    w.Gave (s.tasks t).toInput (s.tasks t).outcome := by
  obtain ⟨n, x, j, hx, hj, hlt⟩ := ht
  have hrouted := Runs.routed h hx
  have hanswered := Exec.answered_of_wrote hlt
  refine ⟨x.inputs, x.results, j, hrouted.returned hanswered, ?_, (hrouted.outcome j t hlt hj).symm⟩
  rw [hrouted.inputs_eq hanswered, List.getElem?_map, hj]
  rfl

/-- A task that is there keeps its input. -/
theorem Step.toInput (hs : Step cfg w s e s') (h : s.calls t ≠ .absent) :
    s'.calls t ≠ .absent ∧ (s'.tasks t).toInput = (s.tasks t).toInput := by
  constructor
  · rcases hs.calls t with hcalls | hcall
    · rw [hcalls]
      exact h
    · cases hcall with
      | construct addr modelName inputData priority deadline clientFd hc hfree => exact absurd hc h
      | _ => simp
  · have hmove := hs.taskMove t
    generalize s'.tasks t = y at hmove ⊢
    cases hmove with
    | construct _ _ _ _ _ hc => exact absurd hc h
    | writeResult r => exact InferenceTask.toInput_congr (InferenceTask.request_writeBack _ r)
    | _ => rfl

/-- A task is constructed where there was none. -/
theorem Step.construct (hs : Step cfg w s (.construct t) s') :
    s.calls t = .absent ∧ s'.calls t = .built := by
  cases hs with
  | call u hs =>
      cases hs with
      | construct addr modelName inputData priority deadline clientFd hc hfree =>
          exact ⟨hc, by simp⟩
  | run hs => cases hs
  | exec n hx hs => cases hs

/-! ### Main result -/

/-- A task is refused only where the queue has a limit. -/
theorem Runs.limited_of_rejected (h : Runs cfg w evs s) (ht : s.calls t = .rejected) :
    0 < cfg.maxQueueSize := by
  refine h.invariant_state (P := fun s => s.calls t = .rejected → 0 < cfg.maxQueueSize)
    (fun h => by cases h) ?_ ht
  intro s e s' ih hs ht
  rcases hs.calls t with hcalls | hcall
  · exact ih (hcalls ▸ ht)
  · cases hcall with
    | reject now hc hl he => exact (enqueue_eq_false he).1.1
    | _ => simp at ht

/-- **Every worker meets with the fate of its own input**, whatever the batches are. -/
theorem Runs.fate {r : Reply} (h : Runs cfg w evs s) (hs : Step cfg w s (.reply t r) s') :
    Fate cfg w (s.tasks t).toInput (s.found t) := by
  unfold State.found
  rcases hs.reply with ⟨hc, -⟩ | hc
  · rw [if_neg (by simp [hc])]
    rcases Runs.written_of_completed h (Runs.replying h hc) with htime | hwrite
    · rw [InferenceTask.verdict_timeout htime]
      exact .timedOut
    · have hgave := Runs.gave h hwrite
      unfold InferenceTask.verdict
      split
      · exact .timedOut
      · cases hout : (s.tasks t).outcome with
        | error msg => exact .failed (hout ▸ hgave)
        | ok out => exact .succeeded (hout ▸ hgave)
  · rw [if_pos hc]
    exact .refused (Runs.limited_of_rejected h hc)

end Gateway.Sched
