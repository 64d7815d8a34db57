/-
**The scheduler can always finish what it has accepted.**

`run()` waits for room, for tokens and for the clock, it holds `queue_lock_` while it cleans up, and
an executor gives its place back under the same lock.  None of this can block for good: from every
state in which the scheduler has not been stopped, the scheduler thread and the executors alone can
bring every accepted task to its signal, whatever the queues hold and wherever the threads stand.

The measure has two parts.  What is still to be done for the tasks, their *load*, falls with every
task that is collected, submitted, executed or given up.  What does not touch a task is a part of a
round of `run()`, and brings it closer to the next `collect_batch`.

Main definitions:

* `Gateway.Sched.Serve` — the steps of the scheduler thread and of the executors;
* `Gateway.Sched.State.load`, `Gateway.Sched.State.turn` — the two parts of the measure.

Main results:

* `Gateway.Sched.ExecStep.exists_next`, `Gateway.Sched.Serving.next` — some step goes down;
* `Gateway.Sched.Serving.drain` — **some run leaves nothing behind**;
* `Gateway.Sched.every_task_served` — every accepted task can get its signal, and its worker can
  then return without a timeout.
-/

import InferenceGateway.SchedulerShutdown
import InferenceGateway.SchedulerVerdict

set_option relaxedAutoImplicit false
set_option autoImplicit false

namespace Gateway.Sched

open EventSystem

variable {F : Type} {cfg : Config} {w : World F} {s s' : State F} {e : Event}
  {evs : List Event} {t : TaskRef}

/-! ### The steps that serve -/

/-- A step of the scheduler thread or of an executor. -/
inductive Serve (cfg : Config) (w : World F) : State F → Event → State F → Prop
  | run {s s' : State F} {e : Event} : RunStep cfg w s e s' → Serve cfg w s e s'
  | exec {s s' : State F} {e : Event} {x x' : Exec F} (n : ℕ) :
      s.execs[n]? = some x → ExecStep w s x e s' x' → Serve cfg w s e (s'.setExec n x')

theorem Serve.step (hs : Serve cfg w s e s') : Step cfg w s e s' := by
  cases hs with
  | run hs => exact .run hs
  | exec n hx hs => exact .exec n hx hs

/-- The engine returns something for every batch. -/
def World.Answers (w : World F) : Prop := ∀ inputs, ∃ results, w.inferBatch inputs results

/-! ### Where the threads can stand -/

/-- `cleanup_expired` releases a task at `cleanMark`, and is not releasing one at `clean`. -/
structure State.MarkOk (s : State F) : Prop where
  clean : ∀ second now c i, s.pc = .clean second now c i → s.mark = none
  cleanMark : ∀ second now c i, s.pc = .cleanMark second now c i → s.mark ≠ none

/-- An executor has a task in hand while it marks one done, and has not been left by an
exception. -/
def Exec.Ok (x : Exec F) : Prop :=
  x.pc ≠ .threw ∧ (x.pc = .complete ∨ x.pc = .signal → x.i < x.batch.length)

theorem State.MarkOk.congr (h : s.MarkOk) (hpc : s'.pc = s.pc) (hmark : s'.mark = s.mark) :
    s'.MarkOk where
  clean := fun second now c i hp => hmark.trans (h.clean second now c i (hpc ▸ hp))
  cleanMark := fun second now c i hp => hmark ▸ h.cleanMark second now c i (hpc ▸ hp)

theorem RunStep.markOk (hs : RunStep cfg w s e s') (h : s.MarkOk) : s'.MarkOk := by
  cases hs with
  | branch pc' hm hb =>
      exact ⟨fun _ _ _ _ _ => hm, fun _ _ _ _ hp => absurd hp (branch_ne_cleanMark hb _ _ _ _).2⟩
  | takeToken pc' hm _ _ hb =>
      exact ⟨fun _ _ _ _ _ => hm, fun _ _ _ _ hp => absurd hp (branch_ne_cleanMark hb _ _ _ _).2⟩
  | cleanExpired second now c i t hm hpc ht hex =>
      exact ⟨fun _ _ _ _ hp => (by cases hp), fun _ _ _ _ _ => by simp⟩
  | collect batch hm hpc hb =>
      obtain ⟨rfl, rfl⟩ := eq_of_collectBatch hb
      refine ⟨fun _ _ _ _ _ => hm, fun _ _ _ _ hp => ?_⟩
      simp only at hp
      split at hp <;> cases hp
  | markTimeout t hm =>
      refine ⟨fun second now c i hp => ?_, fun _ _ _ _ _ => by simp⟩
      simp [h.clean second now c i hp] at hm
  | markComplete t hm =>
      refine ⟨fun second now c i hp => ?_, fun _ _ _ _ _ => by simp⟩
      simp [h.clean second now c i hp] at hm
  | markSignal t hm hl =>
      exact ⟨fun _ _ _ _ _ => rfl, fun _ _ _ _ hp => absurd hp (lockFree_ne_cleanMark hl _ _ _ _)⟩
  | cleanSignal t second now c i hm hpc =>
      exact ⟨fun _ _ _ _ _ => rfl, fun _ _ _ _ hp => by cases hp⟩
  | cleanBegin second now hm | cleanKeep second now c i t hm =>
      exact ⟨fun _ _ _ _ _ => hm, fun _ _ _ _ hp => by cases hp⟩
  | _ => exact ⟨fun _ _ _ _ hp => (by cases hp), fun _ _ _ _ hp => (by cases hp)⟩

theorem Runs.markOk (h : Runs cfg w evs s) : s.MarkOk := by
  refine h.invariant_state (P := State.MarkOk) ?_ fun s e s' hok hs => ?_
  · exact ⟨fun _ _ _ _ hp => (by cases hp), fun _ _ _ _ hp => (by cases hp)⟩
  · cases hs with
    | call t hs => exact hok.congr hs.frame.2.2.1 hs.frame.2.2.2.1
    | run hs => exact hs.markOk hok
    | exec n hx hs =>
        obtain ⟨-, -, -, -, -, hpc, hmark, -⟩ := hs.frame
        exact hok.congr hpc hmark
    | start hpc => exact ⟨fun _ _ _ _ hp => (by cases hp), fun _ _ _ _ hp => (by cases hp)⟩
    | stop => exact hok.congr rfl rfl
    | stopPost _ => exact hok.congr rfl rfl

/-- Only a pass of `cleanup_expired` holds `queue_lock_` from one step to the next. -/
theorem lockFree_of_ne (hclean : ∀ second now c i, s.pc ≠ .clean second now c i)
    (hmark : ∀ second now c i, s.pc ≠ .cleanMark second now c i) : s.lockFree := by
  unfold State.lockFree
  split
  · next h => exact hclean _ _ _ _ h
  · next h => exact hmark _ _ _ _ h
  · trivial

theorem ExecStep.ok {x x' : Exec F} (hw : w.Reliable) (hs : ExecStep w s x e s' x') : x'.Ok := by
  cases hs with
  | throws hpc ht => exact absurd ht (hw.returns _)
  | write t hpc ht =>
      exact ⟨by simp, fun _ => (List.getElem?_eq_some_iff.1 ht).1⟩
  | complete t hpc ht =>
      exact ⟨by simp, fun _ => (List.getElem?_eq_some_iff.1 ht).1⟩
  | release notify hpc hl => cases notify <;> exact ⟨by simp, by simp⟩
  | convert t hpc ht => exact ⟨by simp [hpc], by simp [hpc]⟩
  | _ => exact ⟨by simp, by simp⟩

theorem Runs.execs_ok (hw : w.Reliable) (h : Runs cfg w evs s) : ∀ x ∈ s.execs, x.Ok := by
  refine h.invariant_state (P := fun s => ∀ x ∈ s.execs, x.Ok) (by simp [State.init]) ?_
  intro s e s' hok hs x hx
  cases hs with
  | call t hs => exact hok x (hs.frame.2.2.2.2 ▸ hx)
  | run hs =>
      cases hs with
      | collect batch hm hpc hb =>
          obtain ⟨rfl, rfl⟩ := eq_of_collectBatch hb
          exact hok x hx
      | spawn batch hm hpc =>
          rcases List.mem_append.1 hx with hx | hx
          · exact hok x hx
          · obtain rfl := List.mem_singleton.1 hx
            exact ⟨by simp, by simp⟩
      | cleanSignal t second now c i hm hpc => exact hok x (by simpa using hx)
      | _ => exact hok x hx
  | exec n hx' hs =>
      obtain ⟨-, -, -, -, -, -, -, hexecs, -⟩ := hs.frame
      simp only [State.setExec_execs, hexecs] at hx
      rcases List.mem_or_eq_of_mem_set hx with hx | rfl
      · exact hok x hx
      · exact hs.ok hw
  | start _ => exact hok x hx
  | stop => exact hok x hx
  | stopPost _ => exact hok x hx

/-! ### The measure -/

/-- What is still to be done for a batch that executes. -/
def Exec.work (x : Exec F) : ℕ :=
  match x.pc with
  | .enter => 5 * x.batch.length + 6
  | .convert => (x.batch.length - x.inputs.length) + 4 * x.batch.length + 5
  | .infer => 4 * x.batch.length + 4
  | .write => 4 * (x.batch.length - x.i) + 3
  | .complete => 4 * (x.batch.length - x.i) + 2
  | .signal => 4 * (x.batch.length - x.i) + 1
  | .release _ => 2
  | .post => 1
  | .finished | .threw => 0

/-- What is still to be done for the batch in hand. -/
def RunPc.load : RunPc → ℕ
  | .submit batch => 12 * batch.length + 8
  | .spawn batch => 12 * batch.length + 7
  | pc => 21 * (handOf pc).length

/-- What is still to be done for the tasks. -/
def State.load (s : State F) : ℕ :=
  22 * s.pendingCount + s.pc.load + (s.execs.map Exec.work).sum

/-- How many tasks `cleanup_expired` has not looked at, from the iterator on. -/
def State.unseenFrom (s : State F) (i : ℕ) : QueueClass → ℕ
  | .high => (s.queueHigh.length - i) + s.queueMid.length + s.queueLow.length
  | .mid => (s.queueMid.length - i) + s.queueLow.length
  | .low => s.queueLow.length - i

/-- How many steps of a `mark_done` are to come. -/
def MarkPhase.left : MarkPhase → ℕ
  | .setTimeout => 3
  | .complete => 2
  | .signal => 1

/-- How far a pass of `cleanup_expired` is from its end. -/
def State.cleanLeft (s : State F) (i : ℕ) (c : QueueClass) : ℕ :=
  4 * s.unseenFrom i c + (2 - c.rank)

/-- How far `run()` is from the next `collect_batch`. -/
def State.runLeft (s : State F) : ℕ :=
  match s.pc with
  | .clean true _ c i => s.cleanLeft i c + 1
  | .cleanMark true _ c i => s.cleanLeft i c - 3
  | .cleanup true => 4 * s.pendingCount + 4
  | .testRunningSlept => 4 * s.pendingCount + 5
  | .sleeping => 4 * s.pendingCount + 6
  | .testPending => 4 * s.pendingCount + 7
  | .testIdle => 4 * s.pendingCount + 8
  | .clean false _ c i => 4 * s.pendingCount + s.cleanLeft i c + 9
  | .cleanMark false _ c i => 4 * s.pendingCount + s.cleanLeft i c + 5
  | .cleanup false => 8 * s.pendingCount + 12
  | .testRunning => 8 * s.pendingCount + 13
  | .semWait _ => 8 * s.pendingCount + 14
  | .loopTest => 8 * s.pendingCount + 15
  | .filter _ batch _ => 8 * s.pendingCount + batch.length + 16
  | .filterClock batch => 8 * s.pendingCount + batch.length + 17
  | .testStop batch => 8 * s.pendingCount + batch.length + 18
  | .throttleActive batch => 8 * s.pendingCount + batch.length + 19
  | .throttleRunning batch => 8 * s.pendingCount + batch.length + 20
  | .throttleWait batch => 8 * s.pendingCount + batch.length + 21
  | _ => 0

/-- How far the scheduler thread is from the next `collect_batch`, with the `mark_done` that it is
in. -/
def State.turn (s : State F) : ℕ := s.runLeft + s.mark.elim 0 fun m => m.2.left

/-- A step that serves is a step towards the end: it lowers the load, or it keeps the load and
brings `run()` closer to the next `collect_batch`. -/
def Lower (s' s : State F) : Prop := s'.load < s.load ∨ s'.load = s.load ∧ s'.turn < s.turn

/-! ### An executor can always go on -/

/-- An executor that is not through has a next step, unless it waits for `queue_lock_`. -/
theorem ExecStep.exists_next (ha : w.Answers) {x : Exec F} (hok : x.Ok) (hne : x.pc ≠ .finished)
    (hl : s.lockFree) : ∃ e s' x', ExecStep w s x e s' x' ∧ x'.work < x.work := by
  cases hpc : x.pc with
  | enter =>
      by_cases hb : x.batch = []
      · exact ⟨_, _, _, .empty hpc hb, by simp [Exec.work, hpc, hb]⟩
      · exact ⟨_, _, _, .enter hpc hb, by simp only [Exec.work, hpc]; omega⟩
  | convert =>
      by_cases hlt : x.inputs.length < x.batch.length
      · refine ⟨_, _, _, .convert _ hpc (List.getElem?_eq_getElem hlt), ?_⟩
        simp only [Exec.work, hpc, List.length_append, List.length_singleton]
        omega
      · exact ⟨_, _, _, .converted hpc (not_lt.1 hlt), by simp only [Exec.work, hpc]; omega⟩
  | infer =>
      obtain ⟨results, hr⟩ := ha x.inputs
      exact ⟨_, _, _, .returns results hpc hr, by simp only [Exec.work, hpc]; omega⟩
  | write =>
      by_cases hlt : x.i < x.batch.length
      · refine ⟨_, _, _, .write _ hpc (List.getElem?_eq_getElem hlt), ?_⟩
        simp only [Exec.work, hpc]
        omega
      · exact ⟨_, _, _, .written hpc (not_lt.1 hlt), by simp only [Exec.work, hpc]; omega⟩
  | complete =>
      have hlt := hok.2 (.inl hpc)
      refine ⟨_, _, _, .complete _ hpc (List.getElem?_eq_getElem hlt), ?_⟩
      simp only [Exec.work, hpc]
      omega
  | signal =>
      have hlt := hok.2 (.inr hpc)
      refine ⟨_, _, _, .signal _ hpc (List.getElem?_eq_getElem hlt), ?_⟩
      simp only [Exec.work, hpc]
      omega
  | release notify =>
      refine ⟨_, _, _, .release notify hpc hl, ?_⟩
      cases notify <;> simp [Exec.work, hpc]
  | post => exact ⟨_, _, _, .post hpc, by simp [Exec.work, hpc]⟩
  | finished => exact absurd hpc hne
  | threw => exact absurd hpc hok.1

/-- A step of an executor lowers the load by what it lowers the work. -/
theorem ExecStep.lower {n : ℕ} {x x' : Exec F} (hx : s.execs[n]? = some x)
    (hs : ExecStep w s x e s' x') (hlt : x'.work < x.work) : Lower (s'.setExec n x') s := by
  obtain ⟨h₁, h₂, h₃, -, -, hpc, -, hexecs, -⟩ := hs.frame
  have hsum := sum_map_set Exec.work x' hx
  refine .inl ?_
  simp only [State.load, State.pendingCount, State.setExec_queueHigh, State.setExec_queueMid,
    State.setExec_queueLow, State.setExec_pc, State.setExec_execs, h₁, h₂, h₃, hpc, hexecs]
  omega

/-! ### The scheduler thread can always go on -/

/-- Erasing the task under the iterator shortens the queues by one. -/
theorem pendingCount_erase {c : QueueClass} {i : ℕ} (ht : (s.queue c)[i]? = some t) :
    (s.setQueue ((s.queue c).eraseIdx i) c).pendingCount + 1 = s.pendingCount := by
  have hlt := (List.getElem?_eq_some_iff.1 ht).1
  cases c with
  | high =>
      simp only [State.queue_high] at hlt
      simp only [State.setQueue, State.pendingCount, State.queue_high, List.length_eraseIdx, hlt,
        if_true]
      omega
  | mid =>
      simp only [State.queue_mid] at hlt
      simp only [State.setQueue, State.pendingCount, State.queue_mid, List.length_eraseIdx, hlt,
        if_true]
      omega
  | low =>
      simp only [State.queue_low] at hlt
      simp only [State.setQueue, State.pendingCount, State.queue_low, List.length_eraseIdx, hlt,
        if_true]
      omega

/-- A `mark_done` of the scheduler thread goes on. -/
theorem RunStep.exists_mark {ph : MarkPhase} (hok : s.MarkOk) (hi : s.IteratorOk)
    (hm : s.mark = some (t, ph)) : ∃ e s', RunStep cfg w s e s' ∧ Lower s' s := by
  cases ph with
  | setTimeout =>
      refine ⟨_, _, .markTimeout t hm, .inr ⟨rfl, ?_⟩⟩
      rw [State.turn, State.turn, hm]
      exact Nat.add_lt_add_left (Nat.lt_succ_self 2) s.runLeft
  | complete =>
      refine ⟨_, _, .markComplete t hm, .inr ⟨rfl, ?_⟩⟩
      rw [State.turn, State.turn, hm]
      exact Nat.add_lt_add_left (Nat.lt_succ_self 1) s.runLeft
  | signal =>
      by_cases hclean : ∃ second now c i, s.pc = .cleanMark second now c i
      · obtain ⟨second, now, c, i, hpc⟩ := hclean
        have hcount := pendingCount_erase (hi _ _ _ _ _ _ hpc hm)
        refine ⟨_, _, .cleanSignal t second now c i hm hpc, .inl ?_⟩
        have hexecs := s.setQueue_execs ((s.queue c).eraseIdx i) c
        simp only [State.load, hpc, RunPc.load, handOf, hexecs] at hcount ⊢
        simp only [State.pendingCount, List.length_nil] at hcount ⊢
        omega
      · have hl : s.lockFree := by
          refine lockFree_of_ne (fun second now c i hpc => ?_) fun second now c i hpc => ?_
          · simp [hok.clean second now c i hpc] at hm
          · exact hclean ⟨second, now, c, i, hpc⟩
        refine ⟨_, _, .markSignal t hm hl, .inr ⟨rfl, ?_⟩⟩
        rw [State.turn, State.turn, hm]
        exact Nat.add_lt_add_left Nat.zero_lt_one s.runLeft

/-- A branch of `run()` that lowers the measure. -/
theorem RunStep.exists_branch {pc' : RunPc} (hm : s.mark = none)
    (hb : s.pc.branch cfg s.running s.activeBatchCount s.queue s.pendingCount = some pc')
    (hlt : pc'.load < s.pc.load ∨
      pc'.load = s.pc.load ∧ ({ s with pc := pc' } : State F).runLeft < s.runLeft) :
    ∃ e s', RunStep cfg w s e s' ∧ Lower s' s := by
  refine ⟨_, _, .branch pc' hm hb, ?_⟩
  rcases hlt with hlt | ⟨heq, hlt⟩
  · refine .inl ?_
    simp only [State.load, State.pendingCount]
    omega
  · refine .inr ⟨by simp only [State.load, heq]; rfl, ?_⟩
    rw [State.turn, State.turn, hm]
    exact hlt

/-- A branch of `run()` with nothing new in hand, and closer to `collect_batch`. -/
theorem RunStep.exists_closer {pc pc' : RunPc} (hm : s.mark = none) (hpc : s.pc = pc)
    (hb : pc.branch cfg s.running s.activeBatchCount s.queue s.pendingCount = some pc')
    (hload : pc'.load = pc.load)
    (hlt : ({ s with pc := pc' } : State F).runLeft < ({ s with pc := pc } : State F).runLeft) :
    ∃ e s', RunStep cfg w s e s' ∧ Lower s' s := by
  subst hpc
  exact RunStep.exists_branch hm hb (.inr ⟨hload, hlt⟩)

theorem runLeft_clean {second : Bool} {now : ℤ} {c : QueueClass} {i : ℕ}
    (hpc : s.pc = .clean second now c i) :
    s.runLeft = s.cleanLeft i c + if second then 1 else 4 * s.pendingCount + 9 := by
  simp only [State.runLeft, hpc]
  cases second with
  | true => rfl
  | false =>
      simp only [Bool.false_eq_true, if_false]
      omega

theorem runLeft_cleanMark {second : Bool} {now : ℤ} {c : QueueClass} {i : ℕ}
    (hpc : s.pc = .cleanMark second now c i) (hleft : 4 ≤ s.cleanLeft i c) :
    s.runLeft + 4 = s.cleanLeft i c + if second then 1 else 4 * s.pendingCount + 9 := by
  simp only [State.runLeft, hpc]
  cases second with
  | true =>
      simp only [if_true]
      omega
  | false =>
      simp only [Bool.false_eq_true, if_false]
      omega

theorem turn_of_mark (hm : s.mark = none) : s.turn = s.runLeft := by
  rw [State.turn, hm]
  rfl

/-- A pass of `cleanup_expired` begins. -/
theorem RunStep.exists_cleanBegin {second : Bool} (hm : s.mark = none)
    (hpc : s.pc = .cleanup second) : ∃ e s', RunStep cfg w s e s' ∧ Lower s' s := by
  set s₁ : State F := { s with pc := .clean second 0 .high 0 } with hs₁
  refine ⟨_, s₁, .cleanBegin second 0 hm hpc, .inr ⟨?_, ?_⟩⟩
  · simp only [State.load, hpc, hs₁]
    rfl
  · have hleft : s₁.cleanLeft 0 .high = 4 * s.pendingCount + 2 := rfl
    have hcount : s₁.pendingCount = s.pendingCount := rfl
    rw [turn_of_mark hm, turn_of_mark (s := s₁) hm, runLeft_clean (s := s₁) rfl, hleft, hcount]
    simp only [State.runLeft, hpc]
    cases second with
    | true => exact Nat.lt_succ_self _
    | false =>
        change 4 * s.pendingCount + 2 + (4 * s.pendingCount + 9) < 8 * s.pendingCount + 12
        omega

/-- A task that the iterator passes is one task less to look at. -/
theorem cleanLeft_succ {c : QueueClass} {i : ℕ} (hi : i < (s.queue c).length) :
    s.cleanLeft (i + 1) c < s.cleanLeft i c ∧ 4 ≤ s.cleanLeft i c := by
  cases c with
  | high =>
      simp only [State.queue_high] at hi
      simp only [State.cleanLeft, State.unseenFrom]
      omega
  | mid =>
      simp only [State.queue_mid] at hi
      simp only [State.cleanLeft, State.unseenFrom]
      omega
  | low =>
      simp only [State.queue_low] at hi
      simp only [State.cleanLeft, State.unseenFrom]
      omega

/-- A pass of `cleanup_expired` looks at the task under the iterator. -/
theorem RunStep.exists_look {second : Bool} {now : ℤ} {c : QueueClass} {i : ℕ}
    (hm : s.mark = none) (hpc : s.pc = .clean second now c i) (hi : i < (s.queue c).length) :
    ∃ e s', RunStep cfg w s e s' ∧ Lower s' s := by
  have ht := List.getElem?_eq_getElem hi
  obtain ⟨hleft, hfour⟩ := cleanLeft_succ hi
  have hturn := turn_of_mark hm
  cases hex : (s.tasks (s.queue c)[i]).expired now with
  | false =>
      set s₁ : State F := { s with pc := .clean second now c (i + 1) } with hs₁
      refine ⟨_, s₁, .cleanKeep second now c i _ hm hpc ht hex, .inr ⟨?_, ?_⟩⟩
      · simp only [State.load, hpc, hs₁]
        rfl
      · have hcount : s₁.pendingCount = s.pendingCount := rfl
        have hclean : s₁.cleanLeft (i + 1) c = s.cleanLeft (i + 1) c := by cases c <;> rfl
        rw [hturn, turn_of_mark (s := s₁) hm, runLeft_clean hpc, runLeft_clean (s := s₁) rfl,
          hcount, hclean]
        omega
  | true =>
      set s₁ : State F :=
        { s with pc := .cleanMark second now c i, mark := some ((s.queue c)[i], .setTimeout) }
        with hs₁
      refine ⟨_, s₁, .cleanExpired second now c i _ hm hpc ht hex, .inr ⟨?_, ?_⟩⟩
      · simp only [State.load, hpc, hs₁]
        rfl
      · have hcount : s₁.pendingCount = s.pendingCount := rfl
        have hclean : s₁.cleanLeft i c = s.cleanLeft i c := by cases c <;> rfl
        have hmark := runLeft_cleanMark (s := s₁) rfl (hclean ▸ hfour)
        have hturn' : s₁.turn = s₁.runLeft + 3 := rfl
        rw [hcount, hclean] at hmark
        rw [hturn, hturn', runLeft_clean hpc]
        omega

/-- At the end of a queue the pass goes to the next one, or ends. -/
theorem RunStep.exists_nextQueue {second : Bool} {now : ℤ} {c : QueueClass} {i : ℕ}
    (hm : s.mark = none) (hpc : s.pc = .clean second now c i) (hi : ¬ i < (s.queue c).length) :
    ∃ e s', RunStep cfg w s e s' ∧ Lower s' s := by
  cases hnext : c.next with
  | some c' =>
      have hb : s.pc.branch cfg s.running s.activeBatchCount s.queue s.pendingCount =
          some (.clean second now c' 0) := by simp [RunPc.branch, hpc, hi, hnext]
      refine RunStep.exists_branch hm hb (.inr ⟨by rw [hpc]; rfl, ?_⟩)
      have hclean : ({ s with pc := .clean second now c' 0 } : State F).cleanLeft 0 c' <
          s.cleanLeft i c := by
        cases c <;> cases hnext <;>
          simp only [State.cleanLeft, State.unseenFrom, QueueClass.rank] <;> omega
      rw [runLeft_clean hpc, runLeft_clean (s := { s with pc := .clean second now c' 0 }) rfl]
      exact Nat.add_lt_add_right hclean _
  | none =>
      have hb : s.pc.branch cfg s.running s.activeBatchCount s.queue s.pendingCount =
          some (if second then .collect else .testIdle) := by simp [RunPc.branch, hpc, hi, hnext]
      refine RunStep.exists_branch hm hb (.inr ⟨by rw [hpc]; cases second <;> rfl, ?_⟩)
      rw [runLeft_clean hpc]
      cases second with
      | true => exact Nat.succ_pos _
      | false =>
          change 4 * s.pendingCount + 8 < s.cleanLeft i c + (4 * s.pendingCount + 9)
          omega

/-- A pass of `cleanup_expired` goes on. -/
theorem RunStep.exists_clean {second : Bool} {now : ℤ} {c : QueueClass} {i : ℕ}
    (hm : s.mark = none) (hpc : s.pc = .clean second now c i) :
    ∃ e s', RunStep cfg w s e s' ∧ Lower s' s := by
  by_cases hi : i < (s.queue c).length
  · exact RunStep.exists_look hm hpc hi
  · exact RunStep.exists_nextQueue hm hpc hi

/-- The batch in hand is gone through by the filter. -/
theorem RunStep.exists_filter {now : ℤ} {batch validBatch : List TaskRef} (hm : s.mark = none)
    (hpc : s.pc = .filter now batch validBatch) : ∃ e s', RunStep cfg w s e s' ∧ Lower s' s := by
  cases batch with
  | nil =>
      by_cases hv : validBatch = []
      · have hb : s.pc.branch cfg s.running s.activeBatchCount s.queue s.pendingCount =
            some .loopTest := by simp [RunPc.branch, hpc, hv]
        refine RunStep.exists_branch hm hb (.inr ⟨by rw [hpc, hv]; rfl, ?_⟩)
        simp only [State.runLeft, hpc, List.length_nil]
        exact Nat.lt_succ_self _
      · have hb : s.pc.branch cfg s.running s.activeBatchCount s.queue s.pendingCount =
            some (.submit validBatch) := by simp [RunPc.branch, hpc, hv]
        refine RunStep.exists_branch hm hb (.inl ?_)
        have hpos := List.length_pos_iff.2 hv
        simp only [hpc, RunPc.load, handOf, List.append_nil]
        omega
  | cons u batch =>
      cases hex : (s.tasks u).expired now with
      | false =>
          refine ⟨_, _, .filterKeep now u batch validBatch hm hpc hex, .inr ⟨?_, ?_⟩⟩
          · simp only [State.load, hpc, RunPc.load, handOf, List.append_assoc]
            rfl
          · simp only [State.turn, State.runLeft, hm, hpc, List.length_cons]
            exact Nat.lt_succ_self _
      | true =>
          refine ⟨_, _, .filterExpired now u batch validBatch hm hpc hex, .inl ?_⟩
          simp only [State.load, State.pendingCount, hpc, RunPc.load, handOf, List.length_append,
            List.length_cons]
          omega

/-- `collect_batch` lowers the load when something is pending. -/
theorem RunStep.exists_collect (hmax : 1 ≤ cfg.maxBatchSize) (hm : s.mark = none)
    (hpc : s.pc = .collect) (hne : s.pending ≠ []) :
    ∃ e s', RunStep cfg w s e s' ∧ Lower s' s := by
  have hlimit : 0 < cfg.batchLimit := by
    unfold Config.batchLimit
    omega
  have hpos : 0 < s.pending.length := List.length_pos_iff.2 hne
  have htake : (s.pending.take cfg.batchLimit).isEmpty = false := by
    rw [List.isEmpty_eq_false_iff, ← List.length_pos_iff, List.length_take]
    omega
  refine ⟨_, _, .collect _ hm hpc (collectBatch_eq cfg s), .inl ?_⟩
  have hcount : (s.collected cfg).pendingCount = s.pending.length - cfg.batchLimit := by
    rw [← State.length_pending, s.pending_collected cfg, List.length_drop]
  have hload : ({ s.collected cfg with pc := .throttleRunning (s.pending.take cfg.batchLimit) } :
      State F).load = 22 * (s.pending.length - cfg.batchLimit) +
        21 * min cfg.batchLimit s.pending.length + (s.execs.map Exec.work).sum := by
    rw [State.load, ← hcount]
    simp only [RunPc.load, handOf, List.length_take]
    rfl
  simp only [htake, Bool.false_eq_true, if_false]
  rw [hload, State.load, hpc, ← State.length_pending]
  simp only [RunPc.load, handOf, List.length_nil]
  omega

/-- With the executors through and nothing of its own to wait for, `run()` goes on. -/
theorem RunStep.exists_next (hmax : 1 ≤ cfg.maxBatchSize) (h : Runs cfg w evs s)
    (hrun : s.running = true) (hm : s.mark = none) (hl : s.lockFree)
    (hactive : s.pc.submitting = 0 → s.activeBatchCount = 0)
    (hpending : s.pc = .collect → s.pending ≠ []) : ∃ e s', RunStep cfg w s e s' ∧ Lower s' s := by
  have hne := Runs.not_exited h hrun
  cases hpc : s.pc with
  | notStarted => exact absurd hpc hne.2
  | exited => exact absurd hpc hne.1
  | loopTest | testRunning | testRunningSlept | throttleRunning _ | testStop _ =>
      refine RunStep.exists_closer hm hpc (by rw [RunPc.branch, if_pos hrun]) ?_ ?_
      · rfl
      · exact Nat.lt_succ_self _
  | semWait _ | sleeping | throttleWait _ =>
      refine RunStep.exists_closer hm hpc (by rw [RunPc.branch]) ?_ ?_
      · rfl
      · exact Nat.lt_succ_self _
  | cleanup second => exact RunStep.exists_cleanBegin hm hpc
  | testIdle =>
      have hidle := hactive (by rw [hpc]; rfl)
      refine RunStep.exists_closer hm hpc (by rw [RunPc.branch, if_pos hidle]) ?_ ?_
      · rfl
      · exact Nat.lt_succ_self _
  | testPending =>
      by_cases hp : 0 < s.pendingCount
      · refine RunStep.exists_closer hm hpc (by rw [RunPc.branch, if_pos hp]) ?_ ?_
        · rfl
        · exact Nat.lt_succ_self _
      · refine RunStep.exists_closer hm hpc (by rw [RunPc.branch, if_neg hp]) ?_ ?_
        · rfl
        · exact Nat.succ_pos _
  | collect => exact RunStep.exists_collect hmax hm hpc (hpending hpc)
  | throttleActive batch =>
      have hroom : ¬ cfg.maxConcurrentBatches ≤ s.activeBatchCount := by
        rw [hactive (by rw [hpc]; rfl)]
        have := cfg.maxConcurrentBatches_pos
        omega
      refine RunStep.exists_closer hm hpc (by rw [RunPc.branch, if_neg hroom]) ?_ ?_
      · rfl
      · exact Nat.lt_succ_self _
  | release batch =>
      have := Runs.checked h
      simp only [State.Checked, hpc, RunPc.Checked] at this
      exact absurd (hrun.symm.trans this) (by simp)
  | filterClock batch =>
      refine ⟨_, _, .filterBegin 0 batch hm hpc, .inr ⟨?_, ?_⟩⟩
      · simp only [State.load, hpc]
        rfl
      · simp only [State.turn, State.runLeft, hm, hpc]
        exact Nat.lt_succ_self _
  | filter now batch validBatch => exact RunStep.exists_filter hm hpc
  | submit batch =>
      refine ⟨_, _, .submit batch hm hpc, .inl ?_⟩
      simp only [State.load, State.pendingCount, hpc, RunPc.load]
      omega
  | spawn batch =>
      refine ⟨_, _, .spawn batch hm hpc, .inl ?_⟩
      simp only [State.load, State.pendingCount, hpc, RunPc.load, handOf, List.map_append,
        List.map_cons, List.map_nil, List.sum_append, List.sum_singleton, Exec.work,
        List.length_nil]
      omega
  | clean second now c i => simp [State.lockFree, hpc] at hl
  | cleanMark second now c i => simp [State.lockFree, hpc] at hl

/-! ### The way to the end -/

/-- The scheduler has been started and not been stopped. -/
structure Serving (cfg : Config) (w : World F) (s : State F) : Prop where
  reached : ∃ evs, Runs cfg w evs s
  running : s.running = true

namespace Serving

theorem next_run (h : Serving cfg w s) (hs : ∃ e s', RunStep cfg w s e s' ∧ Lower s' s) :
    ∃ e s', Serve cfg w s e s' ∧ Serving cfg w s' ∧ Lower s' s := by
  obtain ⟨evs, hr⟩ := h.reached
  obtain ⟨e, s', hs, hlt⟩ := hs
  exact ⟨e, s', .run hs, ⟨⟨_, hr.snoc (.run hs)⟩, hs.running_eq.trans h.running⟩, hlt⟩

/-- **Some thread of the scheduler can always go on**, as long as one of them holds a task or
executes. -/
theorem next (hw : w.Reliable) (ha : w.Answers) (hmax : 1 ≤ cfg.maxBatchSize)
    (h : Serving cfg w s) (hne : ¬ (s.placed = [] ∧ ∀ x ∈ s.execs, x.pc = .finished)) :
    ∃ e s', Serve cfg w s e s' ∧ Serving cfg w s' ∧ Lower s' s := by
  obtain ⟨evs, hr⟩ := h.reached
  cases hm : s.mark with
  | some m => exact h.next_run (RunStep.exists_mark (Runs.markOk hr) (Runs.iteratorOk hr) hm)
  | none =>
      by_cases hclean : ∃ second now c i, s.pc = .clean second now c i
      · obtain ⟨second, now, c, i, hpc⟩ := hclean
        exact h.next_run (RunStep.exists_clean hm hpc)
      -- nobody holds `queue_lock_`
      have hl : s.lockFree := by
        refine lockFree_of_ne (fun second now c i hpc => ?_) fun second now c i hpc => ?_
        · exact hclean ⟨second, now, c, i, hpc⟩
        · exact (Runs.markOk hr).cleanMark _ _ _ _ hpc hm
      by_cases hexec : ∃ x ∈ s.execs, x.pc ≠ .finished
      · obtain ⟨x, hmem, hxne⟩ := hexec
        obtain ⟨n, hx⟩ := List.getElem?_of_mem hmem
        obtain ⟨e, s', x', hs, hlt⟩ :=
          ExecStep.exists_next ha (Runs.execs_ok hw hr x hmem) hxne hl
        have hrun : s'.running = true := hs.frame.2.2.2.1.trans h.running
        exact ⟨e, _, .exec n hx hs, ⟨⟨_, hr.snoc (.exec n hx hs)⟩, hrun⟩, hs.lower hx hlt⟩
      · -- all executors are through
        have hdone : ∀ x ∈ s.execs, x.pc = .finished := fun x hx =>
          by_contra fun hx' => hexec ⟨x, hx, hx'⟩
        refine h.next_run (RunStep.exists_next hmax hr h.running hm hl (fun hsub => ?_) ?_)
        · rw [Runs.activeBatchCount_eq hw.creates hr, State.submitted, hsub]
          have hzero : (s.execs.map Exec.unfinished).sum = 0 := by
            refine List.sum_eq_zero fun k hk => ?_
            obtain ⟨x, hx, rfl⟩ := List.mem_map.1 hk
            simp [Exec.unfinished, hdone x hx]
          rw [hzero]
          rfl
        · intro hpc hnil
          refine hne ⟨?_, hdone⟩
          have hheld : s.execs.flatMap Exec.held = [] := by
            refine List.flatMap_eq_nil_iff.2 fun x hx => ?_
            simp [Exec.held, hdone x hx]
          rw [State.placed, State.holding, hnil, hheld, State.inHand, hm, hpc]
          rfl

/-- **Some run leaves nothing behind**, by steps of the scheduler alone. -/
theorem drain (hw : w.Reliable) (ha : w.Answers) (hmax : 1 ≤ cfg.maxBatchSize)
    (h : Serving cfg w s) :
    ∃ evs' s', Run (Serve cfg w) s evs' s' ∧ Serving cfg w s' ∧ s'.placed = [] ∧
      ∀ x ∈ s'.execs, x.pc = .finished :=
  Run.exists_of_decreasing (fun s => s.placed = [] ∧ ∀ x ∈ s.execs, x.pc = .finished)
    State.load State.turn (fun _ h hne => h.next hw ha hmax hne) s h

end Serving

/-! ### The requests -/

theorem Step.completed_of_markDone (hs : Step cfg w s (.markDone t) s') :
    (s'.tasks t).completed = true := by
  cases hs with
  | call u hs => cases hs
  | run hs =>
      cases hs with
      | markComplete _ hm => simp
  | exec n hx hs =>
      cases hs with
      | complete _ hpc ht => simp

/-- A task that was marked done stays completed. -/
theorem Runs.completed_of_markDone (h : Runs cfg w evs s) (ht : .markDone t ∈ evs) :
    (s.tasks t).completed = true := by
  induction h with
  | nil => exact absurd ht List.not_mem_nil
  | @snoc evs s s' e hr hs ih =>
      rcases List.mem_append.1 ht with ht | ht
      · have hdone := ih ht
        rcases hs.completed t with hc | ⟨-, hc⟩ | ⟨rfl, -⟩
        · exact hc.trans hdone
        · exact hc
        · -- a completed task is not built anew
          refine absurd ?_ (Runs.calls_of_completed hr hdone).1
          cases hs with
          | call u hs =>
              cases hs with
              | construct addr modelName inputData priority deadline clientFd hc hfree => exact hc
          | run hs => cases hs
          | exec n hx hs => cases hs
      · obtain rfl := List.mem_singleton.1 ht
        exact hs.completed_of_markDone

/-- Once nothing is left behind, every accepted task has been signalled. -/
theorem Runs.signalled_of_drained (hw : w.Reliable) (h : Runs cfg w evs s) (hnil : s.placed = [])
    (ht : .accept t ∈ evs) : .signal t ∈ evs ∧ (s.tasks t).completed = true := by
  have hplaced := Runs.placed_law h t
  have hpos : 0 < evs.count (.accept t) := List.count_pos_iff.2 ht
  rw [hnil, Runs.total_loss hw h t, List.count_nil] at hplaced
  have hsignal : 0 < evs.count (.signal t) := by omega
  have hdone := Runs.markDone_law h t
  have hmark : .markDone t ∈ evs := List.count_pos_iff.1 (by omega)
  exact ⟨List.count_pos_iff.1 hsignal, Runs.completed_of_markDone h hmark⟩

/-- A task that the scheduler still refers to has not been signalled. -/
theorem Runs.not_signalled (hw : w.Reliable) (h : Runs cfg w evs s) (ht : t ∈ s.placed) :
    .signal t ∉ evs := by
  intro hsignal
  have hplaced := Runs.placed_law h t
  have honce := Runs.accept_law h t
  have hpos : 0 < s.placed.count t := List.count_pos_iff.2 ht
  have hpos' : 0 < evs.count (.signal t) := List.count_pos_iff.2 hsignal
  rw [Runs.total_loss hw h t] at hplaced
  omega

/-- The worker of a completed task ends its wait by steps of its own, without a timeout. -/
theorem Runs.wait_over (h : Runs cfg w evs s) (hdone : (s.tasks t).completed = true)
    (hret : ∀ reply, s.calls t ≠ .returned reply) :
    ∃ evs' s', Run (CallStep cfg w t) s evs' s' ∧ s'.calls t = .replying ∧
      ∀ e ∈ evs', e = .tau := by
  obtain ⟨habsent, hbuilt, hrejected⟩ := Runs.calls_of_completed h hdone
  have hchecking : ∀ s : State F, s.calls t = .checking → (s.tasks t).completed = true →
      CallStep cfg w t s .tau (s.setCall t .replying) := fun s hc hdone => .checkDone hc hdone
  cases hc : s.calls t with
  | absent => exact absurd hc habsent
  | built => exact absurd hc hbuilt
  | rejected => exact absurd hc hrejected
  | returned reply => exact absurd hc (hret reply)
  | replying => exact ⟨[], s, .nil, hc, by simp⟩
  | checking => exact ⟨_, _, .single (hchecking s hc hdone), by simp, by simp⟩
  | posting =>
      have hrest := hchecking { s.setCall t .checking with queueSem := s.queueSem + 1 } (by simp)
        hdone
      exact ⟨_, _, (Run.single (.post hc)).trans (.single hrest), by simp, by simp⟩
  | blocked =>
      have hrest := hchecking (s.setCall t .checking) (by simp) hdone
      exact ⟨_, _, (Run.single (.wake hc)).trans (.single hrest), by simp, by simp⟩

/-- The worker of a completed task returns by steps of its own, and none of them is a timeout. -/
theorem Runs.worker_returns (h : Runs cfg w evs s) (hdone : (s.tasks t).completed = true) :
    ∃ evs' s' reply, Run (CallStep cfg w t) s evs' s' ∧ s'.calls t = .returned reply ∧
      .etimedout t ∉ evs' := by
  by_cases hret : ∃ reply, s.calls t = .returned reply
  · obtain ⟨reply, hc⟩ := hret
    exact ⟨[], s, reply, .nil, hc, List.not_mem_nil⟩
  · obtain ⟨evs', s', hr, hc, htau⟩ := h.wait_over hdone fun reply hc => hret ⟨reply, hc⟩
    refine ⟨_, _, inferenceReply w.printF (s'.tasks t), hr.snoc (.reply hc), by simp, ?_⟩
    intro hmem
    rcases List.mem_append.1 hmem with hmem | hmem
    · cases htau _ hmem
    · cases List.mem_singleton.1 hmem

/-- **Every accepted task can be served.**  Take any reachable state of a scheduler that has not
been stopped, with threads created and the engine returning.  Wherever the threads stand and
whatever waits, the scheduler thread and the executors alone have a run after which they refer to no
task and every batch is through; then every task accepted so far has got its signal, and its worker
returns without a timeout. -/
theorem every_task_served (hw : w.Reliable) (ha : w.Answers) (hmax : 1 ≤ cfg.maxBatchSize)
    (h : Runs cfg w evs s) (hrun : s.running = true) :
    ∃ evs' s', Run (Serve cfg w) s evs' s' ∧ s'.placed = [] ∧
      (∀ x ∈ s'.execs, x.pc = .finished) ∧ ∀ t, .accept t ∈ evs → .signal t ∈ evs ++ evs' ∧
        ∃ evs'' s'' reply, Run (CallStep cfg w t) s' evs'' s'' ∧
          s''.calls t = .returned reply ∧ .etimedout t ∉ evs'' := by
  obtain ⟨evs', s', hr, hserving, hnil, hdone⟩ := Serving.drain hw ha hmax ⟨⟨evs, h⟩, hrun⟩
  have h' : Runs cfg w (evs ++ evs') s' := h.trans (hr.mono fun _ _ _ hs => hs.step)
  refine ⟨evs', s', hr, hnil, hdone, fun t ht => ?_⟩
  obtain ⟨hsignal, hcompleted⟩ := Runs.signalled_of_drained hw h' hnil (List.mem_append_left _ ht)
  exact ⟨hsignal, Runs.worker_returns h' hcompleted⟩

/-- The first request, which the engine has, can be served. -/
theorem every_task_served_first : ∃ (evs : List Event) (s : State ℤ),
    Runs {} (mockWorld {} fun _ => []) evs s ∧ .accept 0 ∈ evs ∧ .signal 0 ∉ evs ∧
      ∃ evs' s', Run (Serve {} (mockWorld {} fun _ => [])) s evs' s' ∧ .signal 0 ∈ evs ++ evs' := by
  obtain ⟨evs, h, -⟩ := run_inferring {} (mockWorld {} fun _ : ℤ => []) (by decide) [] [3] 1 101
    7 0 100 (by decide)
  have hw := mockWorld_reliable {} (fun _ : ℤ => [])
  have hacc : .accept 0 ∈ evs := Runs.accepted_of_mem_placed h (by decide)
  obtain ⟨evs', s', hr, -, -, hserved⟩ := every_task_served hw (fun _ => ⟨_, rfl⟩) (by decide) h rfl
  exact ⟨evs, _, h, hacc, Runs.not_signalled hw h (by decide), evs', s', hr, (hserved 0 hacc).1⟩

end Gateway.Sched
