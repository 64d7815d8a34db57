/-
**Task conservation in the scheduler.**

A task moves from a queue into the batch in hand, from there into an executing batch, and leaves
each of these places either for the next one or through `mark_done`.  The result of this module is
that the numbers of these moves agree: over every interleaving, what `enqueue` accepted is what the
scheduler side still refers to and what it has released.

The proof is a conservation law.  `Gateway.Sched.State.holding` lists the tasks that the scheduler
side still refers to, with the executing batches read through a function `h`; every step changes
the number of occurrences of a task in that list by what its event accounts for.  Three choices of
`h` give the three laws: the tasks not yet released, the tasks whose release has begun, and the
tasks not yet handed to the engine.

Main definitions:

* `Gateway.Sched.State.inHand`, `Gateway.Sched.Exec.held` — the batch in hand and the part of an
  executing batch that is not finished.

Main results:

* `Gateway.Sched.Step.count_placed` — the conservation law, step by step;
* `Gateway.Sched.Runs.placed_law`, `Gateway.Sched.Runs.markDone_law`,
  `Gateway.Sched.Runs.infer_law` — the three laws for runs.
-/

import InferenceGateway.SchedulerMoves
import Mathlib.Data.List.Nodup

set_option relaxedAutoImplicit false
set_option autoImplicit false

namespace Gateway.Sched

open EventSystem (total)

variable {F : Type} {cfg : Config} {w : World F} {s s' s₁ : State F} {e : Event}

/-! ### Places -/

/-- A task that `run()` is releasing and has already taken off its lists.  `cleanup_expired` erases
a task only after it was released. -/
def markingOf : RunPc → Option (TaskRef × MarkPhase) → List TaskRef
  | .cleanMark .., _ => []
  | _, mark => mark.toList.map Prod.fst

@[simp] theorem markingOf_none (pc : RunPc) : markingOf pc none = [] := by
  cases pc <;> rfl

/-- The batch in hand: the tasks collected by `run()` that are neither released nor submitted. -/
def State.inHand (s : State F) : List TaskRef := handOf s.pc ++ markingOf s.pc s.mark

/-- The tasks of an executing batch that are not finished. -/
def Exec.held (x : Exec F) : List TaskRef :=
  match x.pc with
  | .enter | .convert | .infer | .threw => x.batch
  | .write | .complete | .signal => x.batch.drop x.i
  | .release _ | .post | .finished => []

/-- The tasks of an executing batch that the engine has not seen. -/
def Exec.unseen (x : Exec F) : List TaskRef :=
  match x.pc with
  | .enter | .convert => x.batch
  | _ => []

/-- The task of an executing batch whose `mark_done` has set `completed` and still owes its
signal. -/
def Exec.owing (x : Exec F) : List TaskRef :=
  match x.pc with
  | .signal => (x.batch[x.i]?).toList
  | _ => []

/-- What the scheduler side refers to, with the executing batches read through `h`. -/
def State.holding (h : Exec F → List TaskRef) (s : State F) : List TaskRef :=
  s.pending ++ s.inHand ++ s.execs.flatMap h

/-- The tasks that the scheduler side has not finished with. -/
abbrev State.placed (s : State F) : List TaskRef := s.holding Exec.held

/-- The tasks marked done whose signal is still to come. -/
def State.owing (s : State F) : List TaskRef :=
  (match s.mark with
    | some (t, .signal) => [t]
    | _ => []) ++ s.execs.flatMap Exec.owing

/-! ### Events that move tasks -/

/-- How often an event brings `u` in. -/
def Event.gain (u : TaskRef) : Event → ℕ
  | .accept t => [t].count u
  | _ => 0

/-- How often an event lets `u` out: with the last action of `mark_done`, or with a batch whose
thread could not be created. -/
def Event.loss (u : TaskRef) : Event → ℕ
  | .signal t => [t].count u
  | .leak batch => batch.count u
  | _ => 0

/-- How often an event marks `u` done. -/
def Event.done (u : TaskRef) : Event → ℕ
  | .markDone t => [t].count u
  | _ => 0

/-- How often an event hands `u` to the engine. -/
def Event.inferred (u : TaskRef) : Event → ℕ
  | .infer batch => batch.count u
  | _ => 0

/-! ### The iterator of `cleanup_expired` -/

/-- While `cleanup_expired` releases a task, its iterator points to that task. -/
def State.IteratorOk (s : State F) : Prop :=
  ∀ second now c i t ph, s.pc = .cleanMark second now c i → s.mark = some (t, ph) →
    (s.queue c)[i]? = some t

theorem lockFree_ne_cleanMark (h : s.lockFree) (second : Bool) (now : ℤ) (c : QueueClass) (i : ℕ) :
    s.pc ≠ .cleanMark second now c i := by
  intro hpc
  simp [State.lockFree, hpc] at h

theorem RunStep.iteratorOk (h : RunStep cfg w s e s') (hi : s.IteratorOk) : s'.IteratorOk := by
  intro second' now' d j u ph hpc hmark
  cases h with
  | branch pc' _ hb => exact absurd hpc (branch_ne_cleanMark hb _ _ _ _).2
  | takeToken pc' _ _ _ hb => exact absurd hpc (branch_ne_cleanMark hb _ _ _ _).2
  | cleanExpired second now c i t _ _ ht _ =>
      cases hpc
      cases hmark
      exact ht
  | collect batch _ _ _ =>
      simp only at hpc
      split at hpc <;> cases hpc
  | markTimeout t ht =>
      cases hmark
      exact hi _ _ _ _ _ _ hpc ht
  | markComplete t ht =>
      cases hmark
      exact hi _ _ _ _ _ _ hpc ht
  | markSignal t _ _ => cases hmark
  | _ => cases hpc

theorem Step.iteratorOk (h : Step cfg w s e s') (hi : s.IteratorOk) : s'.IteratorOk := by
  cases h with
  | call t h =>
      obtain ⟨-, -, hpc, hmark, -⟩ := h.frame
      intro second now c i u ph h₁ h₂
      have hu := hi _ _ _ _ _ _ (hpc ▸ h₁) (hmark ▸ h₂)
      cases h with
      | accept now' _ hl h =>
          exact absurd (hpc ▸ h₁) (lockFree_ne_cleanMark hl _ _ _ _)
      | reject now' _ hl h =>
          exact absurd (hpc ▸ h₁) (lockFree_ne_cleanMark hl _ _ _ _)
      | _ => cases c <;> exact hu
  | run h => exact h.iteratorOk hi
  | exec n hx h =>
      obtain ⟨h₁, h₂, h₃, -, -, hpc, hmark, -⟩ := h.frame
      intro second now c i u ph hpc' hmark'
      have hu := hi second now c i u ph (hpc ▸ hpc') (hmark ▸ hmark')
      cases c
      · simpa [h₁] using hu
      · simpa [h₂] using hu
      · simpa [h₃] using hu
  | start hpc => intro _ _ _ _ _ _ h; cases h
  | stop => exact hi
  | stopPost _ => exact hi

theorem Runs.iteratorOk {evs : List Event} (h : Runs cfg w evs s) : s.IteratorOk := by
  refine h.invariant_state (P := State.IteratorOk) ?_ fun _ _ _ hi hs => hs.iteratorOk hi
  intro _ _ _ _ _ _ hpc
  cases hpc

/-! ### The conservation law -/

section Law

variable {h : Exec F → List TaskRef}

theorem count_eraseIdx {q : List TaskRef} {i : ℕ} {t : TaskRef} (ht : q[i]? = some t)
    (u : TaskRef) : (q.eraseIdx i).count u + [t].count u = q.count u := by
  have hq : q = q.take i ++ t :: q.drop (i + 1) := by
    obtain ⟨hi, rfl⟩ := List.getElem?_eq_some_iff.1 ht
    rw [← List.drop_eq_getElem_cons hi, List.take_append_drop]
  conv_rhs => rw [hq]
  rw [List.eraseIdx_eq_take_drop_succ]
  simp only [List.count_append, List.count_cons, List.count_nil]
  omega

/-- A worker changes what the scheduler side holds only by being accepted. -/
theorem CallStep.count_holding {t : TaskRef} (hs : CallStep cfg w t s e s') (u : TaskRef) :
    (s'.holding h).count u + e.loss u = (s.holding h).count u + e.gain u := by
  cases hs with
  | accept now hc hl he =>
      obtain ⟨-, rfl⟩ := enqueue_eq_true he
      set c := QueueClass.ofPriority (s.tasks t).priority
      set s₂ : State F :=
        { s.modify t fun x => { x with taskId := s.nextTaskId, arrivalTime := now } with
          nextTaskId := s.nextTaskId + 1 }
      have hp := s₂.count_pending_setQueue (s.queue c ++ [t]) c u
      have hq : s₂.queue c = s.queue c := by cases c <;> rfl
      have hp' : s₂.pending = s.pending := rfl
      rw [hq, hp', List.count_append] at hp
      have : ((s₂.setQueue (s.queue c ++ [t]) c).setCall t .posting).pending =
        (s₂.setQueue (s.queue c ++ [t]) c).pending := rfl
      simp only [State.holding, State.inHand, List.count_append, this, Event.loss, Event.gain,
        State.setCall_pc, State.setCall_mark, State.setCall_execs, State.setQueue_pc,
        State.setQueue_mark, State.setQueue_execs]
      have h₁ : s₂.pc = s.pc := rfl
      have h₂ : s₂.mark = s.mark := rfl
      have h₃ : s₂.execs = s.execs := rfl
      rw [h₁, h₂, h₃]
      omega
  | reject now hc hl he =>
      obtain ⟨-, rfl⟩ := enqueue_eq_false he
      rfl
  | _ => rfl

/-- The scheduler thread lets a task go only with its signal, or with a batch it cannot start. -/
theorem RunStep.count_holding (hnew : ∀ b, h { batch := b } = b) (hi : s.IteratorOk)
    (hs : RunStep cfg w s e s') (u : TaskRef) :
    (s'.holding h).count u + e.loss u = (s.holding h).count u + e.gain u := by
  simp only [State.holding, State.inHand, List.count_append]
  cases hs with
  | branch pc' hm hb =>
      simp only [hm, markingOf_none, branch_handOf hb]
      rfl
  | takeToken pc' hm _ _ hb =>
      simp only [hm, markingOf_none, branch_handOf hb]
      rfl
  | cleanBegin second now hm hpc =>
      simp only [hm, hpc, markingOf_none]
      rfl
  | cleanKeep second now c i t hm hpc ht _ =>
      simp only [hm, hpc, markingOf_none]
      rfl
  | cleanExpired second now c i t hm hpc ht _ =>
      simp only [hm, hpc, markingOf_none]
      rfl
  -- the batch leaves the queues and comes into the hand
  | collect batch hm hpc hb =>
      obtain ⟨rfl, rfl⟩ := eq_of_collectBatch hb
      set batch := s.pending.take cfg.batchLimit with hbatch
      have hhand : handOf (if batch.isEmpty then RunPc.loopTest else .throttleRunning batch) =
          batch := by
        cases batch <;> rfl
      have hc := congrArg (List.count u) (take_append_pending_collected cfg s)
      rw [← hbatch, List.count_append] at hc
      change (s.collected cfg).pending.count u +
          ((handOf (if batch.isEmpty then RunPc.loopTest else .throttleRunning batch)).count u +
            (markingOf _ s.mark).count u) + (s.execs.flatMap h).count u + 0 = _
      rw [hhand]
      simp only [hm, hpc, markingOf_none, handOf, List.count_nil, Event.gain]
      omega
  | releaseNext t batch hm hpc =>
      simp only [hm, hpc, markingOf, handOf, Option.toList_none, Option.toList_some, List.map_cons,
        List.map_nil, List.count_cons, List.count_nil, Event.loss, Event.gain,
        State.pending]
      omega
  | filterBegin now batch hm hpc =>
      simp only [hm, hpc, markingOf_none]
      rfl
  | filterKeep now t batch validBatch hm hpc _ =>
      simp only [hm, hpc, markingOf_none, handOf, List.count_append, List.count_cons,
        List.count_nil, Event.loss, Event.gain,
        State.pending]
      omega
  | filterExpired now t batch validBatch hm hpc _ =>
      simp only [hm, hpc, markingOf, handOf, Option.toList_none, Option.toList_some, List.map_cons,
        List.map_nil, List.count_append, List.count_cons, List.count_nil, Event.loss, Event.gain,
        State.pending]
      omega
  | submit validBatch hm hpc =>
      simp only [hm, hpc, markingOf_none]
      rfl
  | spawn validBatch hm hpc =>
      simp only [hm, hpc, markingOf_none, handOf, List.flatMap_append, List.flatMap_cons,
        List.flatMap_nil, List.append_nil, hnew, List.count_append, List.count_nil, Event.loss,
        Event.gain, State.pending]
      omega
  | spawnFails validBatch _ hm hpc =>
      simp only [hm, hpc, markingOf_none, handOf, List.count_nil, Event.loss, Event.gain,
        State.pending]
      omega
  | markTimeout t hm =>
      have : markingOf s.pc (some (t, .complete)) = markingOf s.pc (some (t, .setTimeout)) := by
        cases s.pc <;> rfl
      simp only [hm, State.modify_pc, State.modify_execs, this]
      rfl
  | markComplete t hm =>
      have : markingOf s.pc (some (t, .signal)) = markingOf s.pc (some (t, .complete)) := by
        cases s.pc <;> rfl
      simp only [hm, State.modify_pc, State.modify_execs, this]
      rfl
  -- the signal is the last access to the task
  | markSignal t hm hl =>
      have hmk : markingOf s.pc (some (t, .signal)) = [t] := by
        cases hpc : s.pc <;> first | rfl | simp [State.lockFree, hpc] at hl
      simp only [hm, hmk, markingOf_none, List.count_nil, Event.loss, Event.gain,
        State.pending]
      omega
  -- the iterator still stands at the task that it erases
  | cleanSignal t second now c i hm hpc =>
      have ht := hi second now c i t .signal hpc hm
      have hq := s.count_pending_setQueue ((s.queue c).eraseIdx i) c u
      have he := count_eraseIdx ht u
      simp only [hm, hpc, markingOf, handOf, State.setQueue_execs, List.count_nil,
        Option.toList_none, List.map_nil, Event.loss, Event.gain]
      change (s.setQueue ((s.queue c).eraseIdx i) c).pending.count u + _ + _ + _ = _
      omega

/-- An executor changes what is held by what its own batch changes. -/
theorem count_holding_setExec {x x' : Exec F} {n : ℕ} (hx : s.execs[n]? = some x)
    (hs : ExecStep w s x e s' x') (u : TaskRef) :
    ((s'.setExec n x').holding h).count u + (h x).count u =
      (s.holding h).count u + (h x').count u := by
  obtain ⟨-, -, -, -, -, hpc, hmark, hexecs, -⟩ := hs.frame
  have hp : (s'.setExec n x').pending = s.pending := hs.pending
  have hset := EventSystem.count_flatMap_set h u x' hx
  simp only [State.holding, State.inHand, hp, List.count_append, State.setExec_pc,
    State.setExec_mark, State.setExec_execs, hpc, hmark, hexecs]
  omega

end Law

/-! ### The three laws -/

/-- The unfinished part of an executing batch shrinks exactly with the signals. -/
theorem ExecStep.count_held {x x' : Exec F} (hs : ExecStep w s x e s' x') (u : TaskRef) :
    x'.held.count u + e.loss u = x.held.count u + e.gain u := by
  cases hs with
  | empty hpc hb => simp [Exec.held, hpc, hb, Event.loss, Event.gain]
  | signal t hpc ht =>
      obtain ⟨hi, rfl⟩ := List.getElem?_eq_some_iff.1 ht
      simp only [Exec.held, hpc, Event.loss, Event.gain, List.drop_eq_getElem_cons hi,
        List.count_cons, List.count_nil]
      omega
  | written hpc hi =>
      simp [Exec.held, hpc, List.drop_eq_nil_of_le hi, Event.loss, Event.gain]
  | release notify hpc _ => cases notify <;> simp [Exec.held, hpc, Event.loss, Event.gain]
  | _ => simp_all [Exec.held, Event.loss, Event.gain]

/-- **Conservation of the placed tasks.** -/
theorem Step.count_placed (hi : s.IteratorOk) (hs : Step cfg w s e s') (u : TaskRef) :
    s'.placed.count u + e.loss u = s.placed.count u + e.gain u := by
  cases hs with
  | call t h => exact h.count_holding u
  | run h => exact h.count_holding (fun _ => rfl) hi u
  | exec n hx h =>
      have h₁ := count_holding_setExec (h := Exec.held) hx h u
      have h₂ := h.count_held u
      simp only [State.placed]
      omega
  | start hpc =>
      simp [State.holding, State.inHand, State.pending, Event.loss, Event.gain, hpc, handOf,
        markingOf]
  | stop => rfl
  | stopPost _ => rfl

/-- How often an event signals `u`, the last action of `mark_done`. -/
def Event.signalled (u : TaskRef) : Event → ℕ
  | .signal t => [t].count u
  | _ => 0

theorem ExecStep.count_owing {x x' : Exec F} (hs : ExecStep w s x e s' x') (u : TaskRef) :
    x'.owing.count u + e.signalled u = x.owing.count u + e.done u := by
  cases hs with
  | complete t hpc ht => simp [Exec.owing, hpc, ht, Event.signalled, Event.done]
  | signal t hpc ht => simp [Exec.owing, hpc, ht, Event.signalled, Event.done]
  | release notify hpc _ => cases notify <;> simp [Exec.owing, hpc, Event.signalled, Event.done]
  | _ => simp_all [Exec.owing, Event.signalled, Event.done]

/-- **Conservation of the begun releases**: between setting `completed` and the signal a task is
owed its signal. -/
theorem Step.count_owing (hs : Step cfg w s e s') (u : TaskRef) :
    s'.owing.count u + e.signalled u = s.owing.count u + e.done u := by
  cases hs with
  | call t h =>
      obtain ⟨-, -, -, hmark, hexecs⟩ := h.frame
      simp only [State.owing, hmark, hexecs]
      cases h <;> rfl
  | run h =>
      cases h with
      | collect batch hm hpc hb =>
          obtain ⟨rfl, rfl⟩ := eq_of_collectBatch hb
          rfl
      | spawn validBatch hm hpc =>
          simp [State.owing, hm, Exec.owing, Event.signalled, Event.done]
      | markTimeout t hm => simp [State.owing, hm, Event.signalled, Event.done]
      | markComplete t hm =>
          simp only [State.owing, hm, State.modify_execs, List.count_append, List.count_nil,
            Event.signalled, Event.done]
          omega
      | markSignal t hm hl =>
          simp only [State.owing, hm, List.count_append, List.count_nil, Event.signalled,
            Event.done]
          omega
      | cleanSignal t second now c i hm hpc =>
          simp only [State.owing, hm, State.setQueue_execs, List.count_append, List.count_nil,
            Event.signalled, Event.done]
          omega
      | cleanExpired second now c i t hm _ _ _ =>
          simp [State.owing, hm, Event.signalled, Event.done]
      | releaseNext t batch hm _ => simp [State.owing, hm, Event.signalled, Event.done]
      | filterExpired now t batch validBatch hm _ _ =>
          simp [State.owing, hm, Event.signalled, Event.done]
      | _ => rfl
  | exec n hx h =>
      obtain ⟨-, -, -, -, -, -, hmark, hexecs, -⟩ := h.frame
      have hset := EventSystem.count_flatMap_set Exec.owing u ‹_› hx
      have hx' := h.count_owing u
      simp only [State.owing, List.count_append, State.setExec_mark, State.setExec_execs, hmark,
        hexecs]
      omega
  | start _ => rfl
  | stop => rfl
  | stopPost _ => rfl

/-- The tasks that are in a queue, in hand or in a batch that the engine has not seen. -/
abbrev State.unseen (s : State F) : List TaskRef := s.holding Exec.unseen

theorem ExecStep.count_unseen {x x' : Exec F} (hs : ExecStep w s x e s' x') (u : TaskRef) :
    x'.unseen.count u + e.inferred u ≤ x.unseen.count u + e.gain u := by
  cases hs with
  | release notify hpc _ => cases notify <;> simp [Exec.unseen, hpc, Event.inferred, Event.gain]
  | _ => simp_all [Exec.unseen, Event.inferred, Event.gain]

/-- Handing a batch to the engine uses up the right of its tasks to be handed over. -/
theorem Step.count_unseen (hi : s.IteratorOk) (hs : Step cfg w s e s') (u : TaskRef) :
    s'.unseen.count u + e.inferred u ≤ s.unseen.count u + e.gain u := by
  cases hs with
  | call t h =>
      have h₁ := h.count_holding (h := Exec.unseen) u
      have h₂ : e.inferred u = 0 := by cases h <;> rfl
      simp only [State.unseen]
      omega
  | run h =>
      have h₁ := h.count_holding (h := Exec.unseen) (fun _ => rfl) hi u
      have h₂ : e.inferred u = 0 := by cases h <;> rfl
      simp only [State.unseen]
      omega
  | exec n hx h =>
      have h₁ := count_holding_setExec (h := Exec.unseen) hx h u
      have h₂ := h.count_unseen u
      simp only [State.unseen]
      omega
  | start hpc =>
      simp [State.holding, State.inHand, State.pending, Event.inferred, Event.gain, hpc, handOf,
        markingOf]
  | stop => exact Nat.le_refl _
  | stopPost _ => exact Nat.le_refl _

/-! ### Acceptance happens once -/

/-- The right of a call to be accepted. -/
def State.acceptable (s : State F) (u : TaskRef) : ℕ :=
  match s.calls u with
  | .absent | .built => 1
  | _ => 0

theorem Step.acceptable (hs : Step cfg w s e s') (u : TaskRef) :
    s'.acceptable u + e.gain u ≤ s.acceptable u := by
  cases hs with
  | call t h =>
      by_cases hu : u = t
      · subst hu
        cases h with
        | accept now hc hl he =>
            simp [State.acceptable, hc, Event.gain]
        | _ => simp_all [State.acceptable, Event.gain]
      · have hu' : [t].count u = 0 := by simp [Ne.symm hu]
        cases h with
        | accept now hc hl he =>
            obtain ⟨-, rfl⟩ := enqueue_eq_true he
            simp [State.acceptable, Event.gain, hu', Function.update_of_ne hu]
        | reject now hc hl he =>
            obtain ⟨-, rfl⟩ := enqueue_eq_false he
            simp [State.acceptable, Event.gain, Function.update_of_ne hu]
        | _ => simp [State.acceptable, Event.gain, Function.update_of_ne hu]
  | run h =>
      cases h with
      | collect batch hm hpc hb =>
          obtain ⟨rfl, rfl⟩ := eq_of_collectBatch hb
          exact Nat.le_refl _
      | cleanSignal t second now c i hm hpc => simp [State.acceptable, Event.gain]
      | _ => exact Nat.le_refl _
  | exec n hx h =>
      obtain ⟨-, -, -, -, -, -, -, -, hcalls, -⟩ := h.frame
      have : e.gain u = 0 := by cases h <;> rfl
      simp [State.acceptable, hcalls, this]
  | start _ => exact Nat.le_refl _
  | stop => exact Nat.le_refl _
  | stopPost _ => exact Nat.le_refl _

/-! ### The laws for runs -/

theorem gain_eq (u : TaskRef) (e : Event) : e.gain u = if e = .accept u then 1 else 0 := by
  cases e <;> simp [Event.gain, List.count_cons]

theorem done_eq (u : TaskRef) (e : Event) : e.done u = if e = .markDone u then 1 else 0 := by
  cases e <;> simp [Event.done, List.count_cons]

theorem signalled_eq (u : TaskRef) (e : Event) :
    e.signalled u = if e = .signal u then 1 else 0 := by
  cases e <;> simp [Event.signalled, List.count_cons]

/-- How often an event loses `u` with a batch whose thread could not be created. -/
def Event.leakOf (u : TaskRef) : Event → ℕ
  | .leak batch => batch.count u
  | _ => 0

/-- A task is let out by its signal or with a leaked batch. -/
theorem total_loss_eq (u : TaskRef) (evs : List Event) :
    total (Event.loss u) evs = evs.count (.signal u) + total (Event.leakOf u) evs := by
  rw [← EventSystem.total_eq_count (signalled_eq u), ← EventSystem.total_add]
  refine congrArg List.sum (List.map_congr_left fun e _ => ?_)
  cases e <;> simp [Event.loss, Event.signalled, Event.leakOf]

@[simp] theorem holding_init (h : Exec F → List TaskRef) : (State.init : State F).holding h = [] :=
  rfl

namespace Runs

variable {evs : List Event}

/-- **The first law**: an accepted task is placed until it is released. -/
theorem placed_law (h : Runs cfg w evs s) (u : TaskRef) :
    s.placed.count u + total (Event.loss u) evs = evs.count (.accept u) := by
  have := h.balance (fun s => s.placed.count u) (Event.gain u) (Event.loss u)
    fun evs s e s' hr hs => hs.count_placed (Runs.iteratorOk hr) u
  rw [← EventSystem.total_eq_count (gain_eq u)]
  simpa using this

/-- **The second law**: a task marked done is owed a signal until it gets it. -/
theorem markDone_law (h : Runs cfg w evs s) (u : TaskRef) :
    s.owing.count u + evs.count (.signal u) = evs.count (.markDone u) := by
  have := h.balance (fun s => s.owing.count u) (Event.done u) (Event.signalled u)
    fun evs s e s' _ hs => hs.count_owing u
  rw [← EventSystem.total_eq_count (done_eq u),
    ← EventSystem.total_eq_count (signalled_eq u)]
  simpa [State.owing, State.init] using this

/-- **The third law**: a task is handed to the engine at most as often as it was accepted. -/
theorem infer_law (h : Runs cfg w evs s) (u : TaskRef) :
    s.unseen.count u + total (Event.inferred u) evs ≤ evs.count (.accept u) := by
  have := h.exhaust (fun s => s.unseen.count u) (Event.gain u) (Event.inferred u)
    fun evs s e s' hr hs => hs.count_unseen (Runs.iteratorOk hr) u
  rw [← EventSystem.total_eq_count (gain_eq u)]
  simpa using this

/-- A call is accepted at most once, and then it has left the positions before `enqueue`. -/
theorem accept_law (h : Runs cfg w evs s) (u : TaskRef) :
    s.acceptable u + evs.count (.accept u) ≤ 1 := by
  have := h.exhaust (fun s => s.acceptable u) (fun _ => 0) (Event.gain u)
    fun evs s e s' _ hs => by simpa using hs.acceptable u
  rw [← EventSystem.total_eq_count (gain_eq u)]
  simpa [State.acceptable, State.init] using this

theorem placed_nodup (h : Runs cfg w evs s) : s.placed.Nodup := by
  rw [List.nodup_iff_count_le_one]
  intro u
  have h₁ := placed_law h u
  have h₂ := accept_law h u
  omega

theorem accepted_of_mem_placed (h : Runs cfg w evs s) {u : TaskRef} (hu : u ∈ s.placed) :
    .accept u ∈ evs := by
  have h₁ := placed_law h u
  have h₂ : 0 < s.placed.count u := List.count_pos_iff.2 hu
  exact List.count_pos_iff.1 (by omega)

/-- A task that the scheduler side refers to belongs to a call that has passed `enqueue`. -/
theorem acceptable_of_accepted (h : Runs cfg w evs s) {u : TaskRef} (hu : .accept u ∈ evs) :
    s.acceptable u = 0 := by
  have h₁ := accept_law h u
  have h₂ : 0 < evs.count (.accept u) := List.count_pos_iff.2 hu
  omega

/-- With a reliable environment no batch is leaked, so a task is released only by its signal. -/
theorem total_loss (hw : w.Reliable) (h : Runs cfg w evs s) (u : TaskRef) :
    total (Event.loss u) evs = evs.count (.signal u) := by
  rw [← EventSystem.total_eq_count (signalled_eq u)]
  refine congrArg List.sum (List.map_congr_left fun e he => ?_)
  obtain ⟨pre, post, s₁, s₂, -, -, hs, -⟩ := h.split_of_mem he
  cases e with
  | leak batch =>
      cases hs with
      | call t h => cases h
      | run h => cases h with
        | spawnFails _ hc _ _ => exact absurd hc hw.creates
      | exec n hx h => cases h
  | _ => rfl

end Runs

end Gateway.Sched
