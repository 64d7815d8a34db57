/-
**Shutting the scheduler down.**

`stop()` stores `false` into `running_`, posts `queue_sem_` and returns; it waits for nothing.
`run()` looks at `running_` at four places and leaves at once, whatever is in the queues: only the
batch that waits for a free slot is released.  `enqueue` never looks at `running_`.  So tasks can
stay in the queues for good, new ones are accepted when nobody will take them, and the object can
be destroyed under the threads that use it.

Whether somebody is left behind is decided before `run()` is left.  It depends on where `run()`
stands when `stop()` is called and when a task is accepted after that: what waits in the queues is
taken once more only if `run()` is on its way to `collect_batch`, does not go to sleep again and
finds room in the batch for all of it.  The return of `stop()` depends on nothing of the kind; it is
late enough only if there was nothing to wait for in the first place.

Main definitions:

* `Gateway.Sched.State.ShutDown` — what is promised once `run()` has been left;
* `Gateway.Sched.Orderly` — where `run()` has to stand when `stop()` is called;
* `Gateway.Sched.State.Forgotten` — some task stays in the queues, and `run()` can be left;
* `Gateway.Sched.State.ReturnsLate` — what is promised of the return of `stop()`.

Main results:

* `Gateway.Sched.Step.leaves` — how the scheduler thread leaves `run()`;
* `Gateway.Sched.OrderlyRuns.served` — what waits in the queues after `stop()` is on its way;
* `Gateway.Sched.Runs.returnsLate_iff` — **when `stop()` returns late enough**;
* `Gateway.Sched.left_behind` — a task that nobody will ever answer;
* `Gateway.Sched.orderly_shutdown` — **an orderly shutdown leaves nobody behind**, and each step
  that is not orderly does.
-/

import InferenceGateway.SchedulerQueues

set_option relaxedAutoImplicit false
set_option autoImplicit false

namespace Gateway.Sched

open EventSystem (Run total)

variable {F : Type} {cfg : Config} {w : World F} {s s' : State F} {e : Event} {evs : List Event}

/-! ### What is promised -/

/-- The scheduler thread is not running and all executors are through. -/
def State.Quiet (s : State F) : Prop :=
  (s.pc = .exited ∨ s.pc = .notStarted) ∧ ∀ x ∈ s.execs, x.pc = .finished

/-- No thread of the scheduler has a step left. -/
def State.Unused (cfg : Config) (w : World F) (s : State F) : Prop :=
  (∀ e s', ¬ RunStep cfg w s e s') ∧
    ∀ (n : ℕ) x e s' x', s.execs[n]? = some x → ¬ ExecStep w s x e s' x'

/-- **Nobody is left behind** once `run()` has been left: the queues are empty, and every accepted
task is marked done or belongs to a batch that is still executing. -/
structure State.ShutDown (evs : List Event) (s : State F) : Prop where
  queues : s.pc = .exited → s.pending = []
  done : s.pc = .exited → ∀ t, .accept t ∈ evs →
    .markDone t ∈ evs ∨ ∃ x ∈ s.execs, x.pc ≠ .finished ∧ t ∈ x.batch

/-- Nobody starts the scheduler with this step. -/
def Onward (cfg : Config) (w : World F) (s : State F) (e : Event) (s' : State F) : Prop :=
  Step cfg w s e s' ∧ (s.pc = .notStarted → s'.pc = .notStarted)

/-- **Every call of `stop()` that returns from now on** returns when no batch is executing and the
scheduler thread does not use the object any more. -/
def State.ReturnsLate (cfg : Config) (w : World F) (s : State F) : Prop :=
  ∀ evs s₁ e s₂, Run (Onward cfg w) s evs s₁ → Onward cfg w s₁ e s₂ →
    s₂.stopPosts < s₁.stopPosts → s₂.Quiet ∧ s₂.Unused cfg w

/-! ### The condition -/

/-- `stop()` has been called on a scheduler that was started. -/
def State.Stopped (s : State F) : Prop := s.running = false ∧ s.pc ≠ .notStarted

instance (s : State F) : Decidable s.Stopped := inferInstanceAs (Decidable (_ ∧ _))

/-- `run()` has found `running_` set and has not yet called `collect_batch`. -/
def RunPc.collecting : RunPc → Bool
  | .cleanup _ | .clean .. | .cleanMark .. | .testIdle | .testPending | .collect => true
  | _ => false

/-- The event of a batch whose thread cannot be created. -/
def Event.leaks : Event → Bool
  | .leak _ => true
  | _ => false

/-- **An orderly step**: `stop()` is called while nothing waits in the queues or `run()` is on its
way to `collect_batch`; a task is accepted after that only while it still is; nothing waits when
`run()` decides whether to sleep, and what waits when it calls `collect_batch` fits into one batch;
and every submitted batch gets its thread. -/
structure Orderly (cfg : Config) (s : State F) (e : Event) (s' : State F) : Prop where
  stopped : s.running = true → s'.running = false → s.pending = [] ∨ s.pc.collecting = true
  offered : e.accepts ≠ [] → s.Stopped → s.pc.collecting = true
  slept : s.Stopped → s.pc = .testPending → s'.pc ≠ .testPending → s.pending = []
  collected : s.Stopped → s.pc = .collect → s'.pc ≠ .collect → s.pending.length ≤ cfg.batchLimit
  created : e.leaks = false

instance (cfg : Config) (s : State F) (e : Event) (s' : State F) :
    Decidable (Orderly cfg s e s') :=
  decidable_of_iff
    ((s.running = true → s'.running = false → s.pending = [] ∨ s.pc.collecting = true) ∧
      (e.accepts ≠ [] → s.Stopped → s.pc.collecting = true) ∧
      (s.Stopped → s.pc = .testPending → s'.pc ≠ .testPending → s.pending = []) ∧
      (s.Stopped → s.pc = .collect → s'.pc ≠ .collect → s.pending.length ≤ cfg.batchLimit) ∧
      e.leaks = false)
    ⟨fun ⟨h₁, h₂, h₃, h₄, h₅⟩ => ⟨h₁, h₂, h₃, h₄, h₅⟩,
      fun h => ⟨h.stopped, h.offered, h.slept, h.collected, h.created⟩⟩

/-- The runs whose steps are orderly. -/
abbrev OrderlyRuns (cfg : Config) (w : World F) (evs : List Event) (s : State F) : Prop :=
  Run (fun s e s' => Step cfg w s e s' ∧ Orderly cfg s e s') State.init evs s

theorem OrderlyRuns.runs (h : OrderlyRuns cfg w evs s) : Runs cfg w evs s :=
  h.mono fun _ _ _ hs => hs.1

/-! ### Leaving `run()` -/

/-- Outside of a `mark_done` the scheduler thread moves only inside `run()`. -/
theorem RunStep.running (hs : RunStep cfg w s e s') (hm : s.mark = none) :
    s.pc ≠ .exited ∧ s.pc ≠ .notStarted := by
  cases hs with
  | branch pc' _ hb => constructor <;> intro hpc <;> simp [hpc, RunPc.branch] at hb
  | takeToken pc' _ hw _ hb => constructor <;> intro hpc <;> simp [hpc, RunPc.branch] at hb
  | cleanBegin second now _ hpc => simp [hpc]
  | cleanKeep second now c i t _ hpc _ _ => simp [hpc]
  | cleanExpired second now c i t _ hpc _ _ => simp [hpc]
  | collect batch _ hpc _ => simp [hpc]
  | releaseNext t batch _ hpc => simp [hpc]
  | filterBegin now batch _ hpc => simp [hpc]
  | filterKeep now t batch validBatch _ hpc _ => simp [hpc]
  | filterExpired now t batch validBatch _ hpc _ => simp [hpc]
  | submit validBatch _ hpc => simp [hpc]
  | spawn validBatch _ hpc => simp [hpc]
  | spawnFails validBatch _ _ hpc => simp [hpc]
  | markTimeout t hm' => simp [hm] at hm'
  | markComplete t hm' => simp [hm] at hm'
  | markSignal t hm' _ => simp [hm] at hm'
  | cleanSignal t second now c i hm' _ => simp [hm] at hm'

theorem branch_ne_notStarted {running : Bool} {active : ℤ} {queue : QueueClass → List TaskRef}
    {pending : ℕ} {pc pc' : RunPc} (h : pc.branch cfg running active queue pending = some pc') :
    pc' ≠ .notStarted := by
  rintro rfl
  cases pc with
  | clean second now c i =>
      simp only [RunPc.branch] at h
      split at h
      · cases h
      · split at h
        · cases h
        · split at h <;> cases h
  | release b => cases b <;> cases h
  | filter now b validBatch =>
      cases b with
      | nil => cases validBatch <;> cases h
      | cons t b => cases h
  | sleeping | semWait _ | throttleWait _ => cases h
  | loopTest | testRunning | testIdle | testPending | testRunningSlept | throttleRunning _
  | throttleActive _ | testStop _ =>
      simp only [RunPc.branch, Option.some.injEq] at h
      split at h <;> cases h
  | _ => cases h

/-- The scheduler thread leaves `run()` by a branch: with no `mark_done` under way, and leaving
the queues as they are. -/
theorem RunStep.leaves (hs : RunStep cfg w s e s') (hne : s.pc ≠ .exited)
    (hpc' : s'.pc = .exited) : s'.mark = none ∧ s'.pending = s.pending := by
  cases hs with
  | branch pc' hm hb => exact ⟨hm, rfl⟩
  | takeToken pc' hm _ _ hb => exact ⟨hm, rfl⟩
  | collect batch hm hpc hb =>
      simp only at hpc'
      split at hpc' <;> cases hpc'
  | markTimeout t hm => exact absurd hpc' hne
  | markComplete t hm => exact absurd hpc' hne
  | markSignal t hm hl => exact absurd hpc' hne
  | _ => cases hpc'

theorem Step.leaves (hs : Step cfg w s e s') (hne : s.pc ≠ .exited) (hpc' : s'.pc = .exited) :
    s'.mark = none ∧ s'.pending = s.pending := by
  cases hs with
  | call t hs => exact absurd (hs.frame.2.2.1.symm.trans hpc') hne
  | run hs => exact hs.leaves hne hpc'
  | exec n hx hs =>
      obtain ⟨-, -, -, -, -, hpc, -⟩ := hs.frame
      exact absurd (hpc.symm.trans hpc') hne
  | start _ => cases hpc'
  | stop => exact absurd hpc' hne
  | stopPost _ => exact absurd hpc' hne

/-- Nothing leads back before the start. -/
theorem RunStep.notStarted (hs : RunStep cfg w s e s') (hpc' : s'.pc = .notStarted) :
    s.pc = .notStarted := by
  cases hs with
  | branch pc' _ hb => exact absurd hpc' (branch_ne_notStarted hb)
  | takeToken pc' _ _ _ hb => exact absurd hpc' (branch_ne_notStarted hb)
  | collect batch hm hpc hb =>
      simp only at hpc'
      split at hpc' <;> cases hpc'
  | markTimeout t hm => exact hpc'
  | markComplete t hm => exact hpc'
  | markSignal t hm hl => exact hpc'
  | _ => cases hpc'

theorem Step.notStarted (hs : Step cfg w s e s') (hpc' : s'.pc = .notStarted) :
    s.pc = .notStarted := by
  cases hs with
  | call t hs => exact hs.frame.2.2.1.symm.trans hpc'
  | run hs => exact hs.notStarted hpc'
  | exec n hx hs =>
      obtain ⟨-, -, -, -, -, hpc, -⟩ := hs.frame
      exact hpc.symm.trans hpc'
  | start _ => cases hpc'
  | stop => exact hpc'
  | stopPost _ => exact hpc'

/-- Outside of `run()` no `mark_done` of the scheduler thread is under way. -/
theorem Runs.mark_none (h : Runs cfg w evs s) (hpc : s.pc = .exited ∨ s.pc = .notStarted) :
    s.mark = none := by
  refine h.invariant_state (P := fun s => s.pc = .exited ∨ s.pc = .notStarted → s.mark = none)
    (fun _ => rfl) ?_ hpc
  intro s e s' ih hs hpc'
  by_cases hne : s.pc = .exited ∨ s.pc = .notStarted
  · have hm := ih hne
    cases hs with
    | call t hs => exact hs.frame.2.2.2.1.trans hm
    | run hs => exact (hne.elim (hs.running hm).1 (hs.running hm).2).elim
    | exec n hx hs =>
        obtain ⟨-, -, -, -, -, -, hmark, -⟩ := hs.frame
        exact hmark.trans hm
    | start _ => exact hm
    | stop => exact hm
    | stopPost _ => exact hm
  · obtain ⟨hne₁, hne₂⟩ := not_or.1 hne
    rcases hpc' with hpc' | hpc'
    · exact (hs.leaves hne₁ hpc').1
    · exact absurd (hs.notStarted hpc') hne₂

/-- The thread that has not been started has no step. -/
theorem RunStep.of_notStarted (hs : RunStep cfg w s e s') (hpc : s.pc = .notStarted) :
    s'.pc = .notStarted := by
  cases hs with
  | branch pc' _ hb => simp [hpc, RunPc.branch] at hb
  | takeToken pc' _ hw _ _ =>
      rw [hpc] at hw
      exact hw.elim
  | markTimeout _ _ | markComplete _ _ | markSignal _ _ _ => exact hpc
  | cleanBegin _ _ _ hpc₁ | cleanKeep _ _ _ _ _ _ hpc₁ _ _ | cleanExpired _ _ _ _ _ _ hpc₁ _ _
  | collect _ _ hpc₁ _ | releaseNext _ _ _ hpc₁ | filterBegin _ _ _ hpc₁
  | filterKeep _ _ _ _ _ hpc₁ _ | filterExpired _ _ _ _ _ hpc₁ _ | submit _ _ hpc₁
  | spawn _ _ hpc₁ | spawnFails _ _ _ hpc₁ | cleanSignal _ _ _ _ _ _ hpc₁ =>
      cases hpc.symm.trans hpc₁

/-! ### Being stopped -/

theorem branch_exited {running : Bool} {active : ℤ} {queue : QueueClass → List TaskRef}
    {pending : ℕ} {pc : RunPc} (h : pc.Checked cfg running active)
    (hb : pc.branch cfg running active queue pending = some .exited) : running = false := by
  cases pc with
  | clean second now c i =>
      simp only [RunPc.branch] at hb
      split at hb
      · cases hb
      · split at hb
        · cases hb
        · split at hb <;> cases hb
  | release b => exact h
  | filter now b validBatch =>
      cases b with
      | nil => cases validBatch <;> cases hb
      | cons t b => cases hb
  | sleeping | semWait _ | throttleWait _ => cases hb
  | loopTest | testRunning | testIdle | testPending | testRunningSlept | throttleRunning _
  | throttleActive _ | testStop _ =>
      simp only [RunPc.branch, Option.some.injEq] at hb
      split at hb <;> simp_all
  | _ => cases hb

theorem RunStep.running_eq (hs : RunStep cfg w s e s') : s'.running = s.running := by
  cases hs with
  | collect batch hm hpc hb =>
      obtain ⟨rfl, rfl⟩ := eq_of_collectBatch hb
      rfl
  | cleanSignal t second now c i hm hpc => simp
  | _ => rfl

theorem RunStep.not_exited (hs : RunStep cfg w s e s') (hc : s.Checked cfg)
    (hrun : s.running = true) (hne : s.pc ≠ .exited) : s'.pc ≠ .exited := by
  have hbranch : ∀ pc', s.pc.branch cfg s.running s.activeBatchCount s.queue s.pendingCount =
      some pc' → pc' ≠ .exited := by
    rintro pc' hb rfl
    exact absurd (hrun.symm.trans (branch_exited hc hb)) (by simp)
  intro hpc'
  cases hs with
  | branch pc' hm hb => exact hbranch _ hb hpc'
  | takeToken pc' hm _ _ hb => exact hbranch _ hb hpc'
  | collect batch hm hpc hb =>
      simp only at hpc'
      split at hpc' <;> cases hpc'
  | markTimeout t hm => exact hne hpc'
  | markComplete t hm => exact hne hpc'
  | markSignal t hm hl => exact hne hpc'
  | _ => cases hpc'

/-- `run()` is left only after `stop()`, which nothing takes back. -/
theorem Runs.not_exited (h : Runs cfg w evs s) (hrun : s.running = true) :
    s.pc ≠ .exited ∧ s.pc ≠ .notStarted := by
  refine h.invariant (P := fun _ s => s.running = true → s.pc ≠ .exited ∧ s.pc ≠ .notStarted)
    (fun h => by cases h) ?_ hrun
  intro evs s e s' hr ih hs hrun'
  cases hs with
  | call t hs =>
      rw [hs.frame.2.2.1]
      exact ih (hs.frame.2.1.symm.trans hrun')
  | run hs =>
      have hrun := hs.running_eq.symm.trans hrun'
      exact ⟨hs.not_exited (Runs.checked hr) hrun (ih hrun).1,
        fun hpc => (ih hrun).2 (hs.notStarted hpc)⟩
  | exec n hx hs =>
      obtain ⟨-, -, -, hrunning, -, hpc, -⟩ := hs.frame
      have := ih (hrunning.symm.trans hrun')
      rw [State.setExec_pc, hpc]
      exact this
  | start hpc => exact ⟨by simp, by simp⟩
  | stop => cases hrun'
  | stopPost _ => exact ih hrun'

/-! ### Threads that are through -/

/-- **Threads that are through have no step left.** -/
theorem Runs.unused (h : Runs cfg w evs s) (hq : s.Quiet) : s.Unused cfg w := by
  have hm := Runs.mark_none h hq.1
  refine ⟨fun e s' hs => hq.1.elim (hs.running hm).1 (hs.running hm).2, ?_⟩
  intro n x e s' x' hx hs
  have hpc := hq.2 x (List.mem_of_getElem? hx)
  cases hs <;> simp_all

theorem RunStep.stopPosts (hs : RunStep cfg w s e s') : s'.stopPosts = s.stopPosts := by
  cases hs with
  | collect batch hm hpc hb =>
      obtain ⟨rfl, rfl⟩ := eq_of_collectBatch hb
      rfl
  | cleanSignal t second now c i hm hpc => cases c <;> rfl
  | _ => rfl

theorem ExecStep.stopPosts {x x' : Exec F} (hs : ExecStep w s x e s' x') :
    s'.stopPosts = s.stopPosts := by
  cases hs <;> rfl

theorem CallStep.stopPosts {t : TaskRef} (hs : CallStep cfg w t s e s') :
    s'.stopPosts = s.stopPosts := by
  cases hs with
  | accept now _ _ he =>
      obtain ⟨-, rfl⟩ := enqueue_eq_true he
      cases QueueClass.ofPriority (s.tasks t).priority <;> rfl
  | reject now _ _ he =>
      obtain ⟨-, rfl⟩ := enqueue_eq_false he
      rfl
  | _ => rfl

/-- Only the call of `stop()` adds to the posts that are due. -/
theorem Step.stop_called (hs : Step cfg w s e s') (hcall : s.stopPosts < s'.stopPosts) :
    s' = { s with running := false, stopPosts := s.stopPosts + 1 } := by
  cases hs with
  | stop => rfl
  | call t hs => exact absurd hs.stopPosts (Nat.ne_of_gt hcall)
  | run hs => exact absurd hs.stopPosts (Nat.ne_of_gt hcall)
  | exec n hx hs =>
      rw [State.setExec_stopPosts, hs.stopPosts] at hcall
      exact absurd hcall (lt_irrefl _)
  | start _ => exact absurd hcall (lt_irrefl _)
  | stopPost _ => exact absurd hcall (not_lt.2 (Nat.sub_le _ _))

/-- Only the call of `stop()` unsets `running_`. -/
theorem Step.stops (hs : Step cfg w s e s') (hrun : s.running = true) (hrun' : s'.running = false) :
    s' = { s with running := false, stopPosts := s.stopPosts + 1 } := by
  cases hs with
  | stop => rfl
  | call t hs => cases hrun'.symm.trans (hs.frame.2.1.trans hrun)
  | run hs => cases hrun'.symm.trans (hs.running_eq.trans hrun)
  | exec n hx hs =>
      obtain ⟨-, -, -, hrun₁, -⟩ := hs.frame
      cases hrun'.symm.trans (hrun₁.trans hrun)
  | start _ => cases hrun'
  | stopPost _ => cases hrun'.symm.trans hrun

/-- The return of `stop()` is not a step of a thread of the scheduler. -/
theorem Onward.quiet (h : Runs cfg w evs s) (hs : Onward cfg w s e s') (hq : s.Quiet) :
    s'.Quiet := by
  have hunused := Runs.unused h hq
  obtain ⟨hs, hstart⟩ := hs
  cases hs with
  | call t hs =>
      obtain ⟨-, -, hpc, -, hexecs⟩ := hs.frame
      unfold State.Quiet
      rwa [hpc, hexecs]
  | run hs => exact absurd hs (hunused.1 _ _)
  | exec n hx hs => exact absurd hs (hunused.2 _ _ _ _ _ hx)
  | start hpc => cases hstart hpc
  | stop => exact hq
  | stopPost _ => exact hq

/-- **A call of `stop()` returns late enough exactly when there was nothing to wait for**: `stop()`
does not wait, so its own next statement may be the next step. -/
theorem Runs.returnsLate_iff (h : Runs cfg w evs s) (hs : Step cfg w s e s')
    (hcall : s.stopPosts < s'.stopPosts) : s'.ReturnsLate cfg w ↔ s.Quiet := by
  have hsame := hs.stop_called hcall
  constructor
  · intro hlate
    subst hsame
    obtain ⟨hquiet, -⟩ := hlate _ _ _ _ .nil ⟨.stopPost (Nat.succ_pos _), id⟩ (Nat.lt_succ_self _)
    exact hquiet
  · intro hq evs' s₁ e₁ s₂ hr hs₂ hlt
    have hq' : s'.Quiet := by
      subst hsame
      exact hq
    have hr' : Runs cfg w (evs ++ [e]) s' := h.snoc hs
    have hrun : ∀ {evs' s₁}, Run (Onward cfg w) s' evs' s₁ →
        Runs cfg w (evs ++ [e] ++ evs') s₁ := fun hr => hr'.trans (hr.mono fun _ _ _ hs => hs.1)
    have hq₁ : s₁.Quiet := by
      refine hr.invariant (P := fun _ s => s.Quiet) hq' ?_
      intro evs s e s' hr ih hs
      exact hs.quiet (hrun hr) ih
    have hq₂ := hs₂.quiet (hrun hr) hq₁
    exact ⟨hq₂, Runs.unused ((hrun hr).snoc hs₂.1) hq₂⟩

/-! ### Orderly runs -/

/-- Only `enqueue` puts a task into empty queues. -/
theorem Step.pending_nil (hs : Step cfg w s e s') (h : s.pending = []) (he : ∀ t, e ≠ .accept t) :
    s'.pending = [] := by
  have hqueue : ∀ c, s.queue c = [] := fun c => by
    refine List.eq_nil_iff_forall_not_mem.2 fun t ht => ?_
    have hmem : t ∈ s.pending := State.mem_pending.2 ⟨c, ht⟩
    rw [h] at hmem
    cases hmem
  have hqueue' : ∀ c, s'.queue c = [] := by
    intro c
    cases hs.queueMove with
    | accept t now hacc => exact absurd hacc (he t)
    | collect _ _ _ hq =>
        rw [hq c]
        exact List.suffix_nil.1 (hqueue c ▸ State.queue_collected_suffix cfg s c)
    | erase d i _ _ _ hd hne =>
        by_cases hcd : c = d
        · subst hcd
          rw [hd, hqueue c]
          rfl
        · exact (hne c hcd).trans (hqueue c)
    | keep _ _ _ hq => exact (hq c).trans (hqueue c)
  refine List.eq_nil_iff_forall_not_mem.2 fun t ht => ?_
  obtain ⟨c, hc⟩ := State.mem_pending.1 ht
  rw [hqueue' c] at hc
  cases hc

/-- A step that starts with `running_` unset neither sets it nor leaves the place before the
start, unless it is the start. -/
theorem Step.stopped_before (hs : Step cfg w s e s') (hst : s'.Stopped) (hrun : s.running = false) :
    s.Stopped := by
  refine ⟨hrun, fun hpc => ?_⟩
  obtain ⟨hrun', hpc'⟩ := hst
  cases hs with
  | call t hs => exact hpc' (hs.frame.2.2.1.trans hpc)
  | run hs => exact hpc' (hs.of_notStarted hpc)
  | exec n hx hs =>
      obtain ⟨-, -, -, -, -, hpc₁, -⟩ := hs.frame
      exact hpc' (hpc₁.trans hpc)
  | start _ => cases hrun'
  | stop => exact hpc' hpc
  | stopPost _ => exact hpc' hpc

/-- On its way to `collect_batch` the scheduler thread stays on it, unless it goes to sleep. -/
theorem branch_collecting {running : Bool} {active : ℤ} {queue : QueueClass → List TaskRef}
    {pending : ℕ} {pc pc' : RunPc} (h : pc.branch cfg running active queue pending = some pc')
    (hpc : pc.collecting = true) :
    pc'.collecting = true ∨ pc = .testPending ∧ pc' = .sleeping ∧ 0 < pending := by
  cases pc with
  | clean second now c i =>
      left
      simp only [RunPc.branch] at h
      split at h
      · cases h
      · split at h
        · cases h
          rfl
        · split at h <;> cases h <;> rfl
  | testIdle =>
      left
      simp only [RunPc.branch, Option.some.injEq] at h
      subst h
      split <;> rfl
  | testPending =>
      simp only [RunPc.branch, Option.some.injEq] at h
      subst h
      split
      · next hp => exact .inr ⟨rfl, rfl, hp⟩
      · exact .inl rfl
  | cleanup _ | cleanMark _ _ _ _ | collect => cases h
  | _ => cases hpc

theorem Step.accept_pc {t : TaskRef} (hs : Step cfg w s (.accept t) s') : s'.pc = s.pc := by
  cases hs with
  | call u hs => exact hs.frame.2.2.1
  | run hs => cases hs
  | exec n hx hs => cases hs

/-- What waits in the queues is on its way to a batch, or nothing waits. -/
def State.Served (s : State F) : Prop := s.pending = [] ∨ s.pc.collecting = true

theorem RunStep.served (hs : RunStep cfg w s e s') (ho : Orderly cfg s e s') (hst : s.Stopped)
    (h : s.pc.collecting = true) : s'.Served := by
  cases hs with
  | branch pc' hm hb =>
      rcases branch_collecting hb h with hc | ⟨hpc, rfl, -⟩
      · exact .inr hc
      · exact .inl (ho.slept hst hpc nofun)
  | takeToken pc' hm hw _ _ =>
      cases hpc : s.pc <;> simp [hpc, RunPc.waits, RunPc.collecting] at hw h
  | cleanBegin | cleanKeep | cleanExpired => exact .inr rfl
  | collect batch hm hpc hb =>
      obtain ⟨rfl, rfl⟩ := eq_of_collectBatch hb
      refine .inl ?_
      have hroom := ho.collected hst hpc (by simp only; split <;> simp)
      exact (s.pending_collected cfg).trans (List.drop_eq_nil_of_le hroom)
  | releaseNext _ _ _ hpc | filterBegin _ _ _ hpc | filterKeep _ _ _ _ _ hpc _
  | filterExpired _ _ _ _ _ hpc _ | submit _ _ hpc | spawn _ _ hpc | spawnFails _ _ _ hpc =>
      rw [hpc] at h
      cases h
  | markTimeout _ _ | markComplete _ _ | markSignal _ _ _ => exact .inr h
  | cleanSignal => exact .inr rfl

/-- **What waits in the queues after `stop()` is on its way to a batch.** -/
theorem OrderlyRuns.served (h : OrderlyRuns cfg w evs s) (hst : s.Stopped) : s.Served := by
  refine h.invariant_state (P := fun s => s.Stopped → s.Served) (fun h => absurd rfl h.2) ?_ hst
  intro s e s' ih ⟨hs, ho⟩ hst'
  cases hrun : s.running with
  | true =>
      have hserved := ho.stopped hrun hst'.1
      obtain rfl := hs.stops hrun hst'.1
      exact hserved
  | false =>
      have hst := hs.stopped_before hst' hrun
      rcases ih hst with hempty | hcol
      · by_cases hacc : ∃ t, e = .accept t
        · obtain ⟨t, rfl⟩ := hacc
          refine .inr ((congrArg RunPc.collecting hs.accept_pc).trans ?_)
          exact ho.offered (List.cons_ne_nil _ _) hst
        · exact .inl (hs.pending_nil hempty fun t he => hacc ⟨t, he⟩)
      · cases hs with
        | run hs => exact hs.served ho hst hcol
        | call t hs => exact .inr ((congrArg RunPc.collecting hs.frame.2.2.1).trans hcol)
        | exec n hx hs =>
            obtain ⟨-, -, -, -, -, hpc, -⟩ := hs.frame
            exact .inr ((congrArg RunPc.collecting hpc).trans hcol)
        | start _ => cases hst'.1
        | stop => exact .inr hcol
        | stopPost _ => exact .inr hcol

theorem OrderlyRuns.stopped_of_exited (h : OrderlyRuns cfg w evs s) (hpc : s.pc = .exited) :
    s.Stopped := by
  refine ⟨Bool.eq_false_of_not_eq_true fun hrun => ?_, by simp [hpc]⟩
  exact (Runs.not_exited h.runs hrun).1 hpc

theorem OrderlyRuns.queues (h : OrderlyRuns cfg w evs s) (hpc : s.pc = .exited) :
    s.pending = [] := by
  rcases h.served (h.stopped_of_exited hpc) with hempty | hcol
  · exact hempty
  · rw [hpc] at hcol
    cases hcol

theorem Exec.held_subset (x : Exec F) : x.held ⊆ x.batch := by
  intro t ht
  unfold Exec.held at ht
  split at ht
  · exact ht
  · exact ht
  · exact ht
  · exact ht
  · exact List.mem_of_mem_drop ht
  · exact List.mem_of_mem_drop ht
  · exact List.mem_of_mem_drop ht
  · cases ht
  · cases ht
  · cases ht

/-- Without leaked batches a task is released only by its signal. -/
theorem OrderlyRuns.total_loss (h : OrderlyRuns cfg w evs s) (u : TaskRef) :
    total (Event.loss u) evs = evs.count (.signal u) := by
  rw [← EventSystem.total_eq_count (signalled_eq u)]
  refine congrArg List.sum (List.map_congr_left fun e he => ?_)
  obtain ⟨pre, post, s₁, s₂, -, -, hs, -⟩ := h.split_of_mem he
  cases e with
  | leak batch => cases hs.2.created
  | _ => rfl

/-- **The promise holds after every orderly run.** -/
theorem OrderlyRuns.shutDown (h : OrderlyRuns cfg w evs s) : s.ShutDown evs where
  queues := h.queues
  done hpc t ht := by
    have hr := OrderlyRuns.runs h
    have hplaced := Runs.placed_law hr t
    have hloss := OrderlyRuns.total_loss h t
    have hdone := Runs.markDone_law hr t
    have hpos : 0 < evs.count (.accept t) := List.count_pos_iff.2 ht
    by_cases hmem : t ∈ s.placed
    · -- the thread holds nothing, so an executor does
      right
      have hhand : s.inHand = [] := by
        rw [State.inHand, hpc, Runs.mark_none hr (.inl hpc)]
        rfl
      rw [State.placed, State.holding, h.queues hpc, hhand] at hmem
      obtain ⟨x, hx, htx⟩ := List.mem_flatMap.1 (by simpa using hmem)
      refine ⟨x, hx, fun hfin => ?_, x.held_subset htx⟩
      simp [Exec.held, hfin] at htx
    · left
      have hzero : s.placed.count t = 0 := List.count_eq_zero.2 hmem
      exact List.count_pos_iff.1 (by omega)

/-- Nothing is accepted once `run()` has been left. -/
theorem OrderlyRuns.refused (h : OrderlyRuns cfg w evs s) {t : TaskRef}
    (ho : Orderly cfg s (.accept t) s') : s.pc ≠ .exited := by
  intro hpc
  have hcol := ho.offered (List.cons_ne_nil _ _) (h.stopped_of_exited hpc)
  rw [hpc] at hcol
  cases hcol

/-- `enqueue` refuses nothing while the queues are empty. -/
theorem Step.not_reject (hs : Step cfg w s e s') (h : s.pending = []) (t : TaskRef) :
    e ≠ .reject t := by
  rintro rfl
  cases hs with
  | call u hs =>
      cases hs with
      | reject now hc hl he =>
          obtain ⟨⟨hmax, hfull⟩, -⟩ := enqueue_eq_false he
          rw [← s.length_pending, h, List.length_nil] at hfull
          exact absurd (lt_of_lt_of_le hmax hfull) (lt_irrefl _)
  | run hs => cases hs
  | exec n hx hs => cases hs

/-- From empty queues on nothing is refused as long as nothing is accepted. -/
theorem not_rejected {evs' : List Event} (hr : Run (Step cfg w) s evs' s') (h : s.pending = [])
    (hacc : ∀ t, .accept t ∉ evs') : s'.pending = [] ∧ ∀ t, .reject t ∉ evs' := by
  induction hr with
  | nil => exact ⟨h, fun t ht => by cases ht⟩
  | @snoc evs' s₁ s₂ e _ hs ih =>
      obtain ⟨hempty, hrejects⟩ := ih fun t ht => hacc t (List.mem_append_left _ ht)
      have hne : ∀ t, e ≠ .accept t := by
        rintro t rfl
        exact hacc t (List.mem_append_right _ (List.mem_singleton_self _))
      refine ⟨hs.pending_nil hempty hne, fun t ht => ?_⟩
      rcases List.mem_append.1 ht with ht | ht
      · exact hrejects t ht
      · exact hs.not_reject hempty t (List.mem_singleton.1 ht).symm

/-! ### Disorderly steps -/

/-- A task that is lost: accepted, not marked done, and nobody refers to it any more. -/
def State.Lost (evs : List Event) (s : State F) (t : TaskRef) : Prop :=
  .accept t ∈ evs ∧ .markDone t ∉ evs ∧ t ∉ s.placed

/-- A batch whose thread cannot be created is lost. -/
theorem Runs.leak_lost (h : Runs cfg w evs s) {batch : List TaskRef}
    (hs : Step cfg w s (.leak batch) s') : ∃ t, s'.Lost (evs ++ [.leak batch]) t := by
  have hbatch : batch ≠ [] ∧ s'.owing ⊆ s.owing ∧ batch ⊆ s.placed := by
    cases hs with
    | call t hs => cases hs
    | exec n hx hs => cases hs
    | run hs =>
        cases hs with
        | spawnFails _ _ hm hpc =>
            have hready := (Runs.sized h).ready
            rw [hpc] at hready
            refine ⟨hready, fun t ht => ht, fun t ht => List.mem_append_left _
              (List.mem_append_right _ (List.mem_append_left _ ?_))⟩
            simpa [hpc, handOf] using ht
  obtain ⟨t, ht⟩ := List.exists_mem_of_ne_nil _ hbatch.1
  have hr : Runs cfg w (evs ++ [.leak batch]) s' := h.snoc hs
  have hplaced := List.count_pos_iff.2 (hbatch.2.2 ht)
  have hleak : 0 < batch.count t := List.count_pos_iff.2 ht
  have hstep := hs.count_placed (Runs.iteratorOk h) t
  have hlaw := Runs.placed_law hr t
  have hone := Runs.accept_law hr t
  have hmark := Runs.markDone_law hr t
  have howing := count_owing_le (Runs.iteratorOk hr) t
  have hloss := total_loss_eq t (evs ++ [.leak batch])
  rw [EventSystem.total_snoc (Event.leakOf t)] at hloss
  simp only [Event.loss, Event.leakOf, Event.gain] at hstep hloss
  refine ⟨t, List.mem_append_left _ (Runs.accepted_of_mem_placed h (hbatch.2.2 ht)), ?_, ?_⟩
  · exact List.count_eq_zero.1 (by omega)
  · exact List.count_eq_zero.1 (by omega)

/-- After `stop()`, something waits that no batch will take. -/
structure State.Doomed (s : State F) : Prop where
  stopped : s.Stopped
  waiting : s.pending ≠ []
  past : s.pc.collecting = false

/-- Past `collect_batch`, the tests of `running_` let nobody back. -/
theorem branch_past {active : ℤ} {queue : QueueClass → List TaskRef} {pending : ℕ}
    {pc pc' : RunPc} (h : pc.branch cfg false active queue pending = some pc')
    (hpc : pc.collecting = false) : pc'.collecting = false := by
  cases pc with
  | throttleActive batch =>
      simp only [RunPc.branch, Option.some.injEq] at h
      subst h
      split <;> rfl
  | release b =>
      cases b <;> cases h
      rfl
  | filter now b validBatch =>
      cases b with
      | nil => cases validBatch <;> cases h <;> rfl
      | cons t b => cases h
  | loopTest | semWait _ | testRunning | sleeping | testRunningSlept | throttleRunning _
  | throttleWait _ | testStop _ =>
      cases h
      rfl
  | clean _ _ _ _ | testIdle | testPending => cases hpc
  | _ => cases h

theorem CallStep.pending_ne_nil {t : TaskRef} (hs : CallStep cfg w t s e s')
    (h : s.pending ≠ [] ∨ e = .accept t) : s'.pending ≠ [] := by
  cases hs with
  | accept now hc hl he =>
      obtain ⟨-, rfl⟩ := enqueue_eq_true he
      refine List.ne_nil_of_mem (a := t) (State.mem_pending.2 ⟨s.classOf t, ?_⟩)
      unfold State.classOf
      cases QueueClass.ofPriority (s.tasks t).priority <;> simp [State.setQueue, State.queue]
  | reject now hc hl he =>
      obtain ⟨-, rfl⟩ := enqueue_eq_false he
      exact h.resolve_right fun he => by cases he
  | _ => exact h.resolve_right fun he => by cases he

theorem RunStep.doomed (hs : RunStep cfg w s e s') (h : s.Doomed) : s'.Doomed := by
  obtain ⟨⟨hrun, hstart⟩, hwait, hpast⟩ := h
  have hstopped : s'.Stopped := ⟨hs.running_eq.trans hrun, fun hpc => hstart (hs.notStarted hpc)⟩
  cases hs with
  | branch pc' hm hb | takeToken pc' hm _ _ hb =>
      rw [hrun] at hb
      exact ⟨hstopped, hwait, branch_past hb hpast⟩
  | cleanBegin _ _ _ hpc | cleanKeep _ _ _ _ _ _ hpc _ _ | cleanExpired _ _ _ _ _ _ hpc _ _
  | collect _ _ hpc _ | cleanSignal _ _ _ _ _ _ hpc =>
      rw [hpc] at hpast
      cases hpast
  | markTimeout _ _ | markComplete _ _ | markSignal _ _ _ => exact ⟨hstopped, hwait, hpast⟩
  | _ => exact ⟨hstopped, hwait, rfl⟩

/-- **What waits then, waits for good.** -/
theorem Step.doomed (hs : Step cfg w s e s') (h : s.Doomed) : s'.Doomed := by
  cases hs with
  | call t hs =>
      obtain ⟨-, hrun, hpc, -, -⟩ := hs.frame
      refine ⟨?_, hs.pending_ne_nil (.inl h.waiting), ?_⟩
      · unfold State.Stopped
        rw [hrun, hpc]
        exact h.stopped
      · rw [hpc]
        exact h.past
  | run hs => exact hs.doomed h
  | exec n hx hs =>
      obtain ⟨-, -, -, hrun, -, hpc, -⟩ := hs.frame
      refine ⟨?_, ?_, ?_⟩
      · unfold State.Stopped
        rw [State.setExec_running, State.setExec_pc, hrun, hpc]
        exact h.stopped
      · exact fun hnil => h.waiting (hs.pending.symm.trans hnil)
      · rw [State.setExec_pc, hpc]
        exact h.past
  | start hpc => exact absurd hpc h.stopped.2
  | stop => exact ⟨⟨rfl, h.stopped.2⟩, h.waiting, h.past⟩
  | stopPost _ => exact ⟨h.stopped, h.waiting, h.past⟩

/-- How far `run()` is from its end when `running_` is unset, past `collect_batch`. -/
def RunPc.wayOut : RunPc → ℕ
  | .loopTest | .testRunning | .testRunningSlept => 1
  | .semWait _ | .sleeping | .spawn _ => 2
  | .submit _ => 3
  | .release batch => 4 * batch.length + 1
  | .testStop batch => 4 * batch.length + 2
  | .throttleRunning batch => 4 * batch.length + 3
  | .throttleWait batch => 4 * batch.length + 4
  | .throttleActive batch => 4 * batch.length + 5
  | .filter _ batch _ => 4 * batch.length + 4
  | .filterClock batch => 4 * batch.length + 5
  | _ => 0

def MarkPhase.wayOut : MarkPhase → ℕ
  | .setTimeout => 3
  | .complete => 2
  | .signal => 1

def State.wayOut (s : State F) : ℕ :=
  s.pc.wayOut + (s.mark.map fun m => m.2.wayOut).getD 0

/-- A branch leads on. -/
theorem branch_wayOut {pc' : RunPc} (cfg : Config) (w : World F) (hm : s.mark = none)
    (hb : s.pc.branch cfg s.running s.activeBatchCount s.queue s.pendingCount = some pc')
    (hlt : pc'.wayOut < s.pc.wayOut) : ∃ e s', Step cfg w s e s' ∧ s'.wayOut < s.wayOut :=
  ⟨_, _, .run (.branch pc' hm hb), Nat.add_lt_add_right hlt _⟩

/-- The scheduler thread can always go on to the end of `run()`. -/
theorem State.Doomed.next (cfg : Config) (w : World F) (h : s.Doomed) (hne : s.pc ≠ .exited) :
    ∃ e s', Step cfg w s e s' ∧ s'.wayOut < s.wayOut := by
  obtain ⟨⟨hrun, hstart⟩, -, hpast⟩ := h
  cases hm : s.mark with
  | some m =>
      obtain ⟨t, phase⟩ := m
      cases phase with
      | setTimeout =>
          exact ⟨_, _, .run (.markTimeout t hm), by simp [State.wayOut, hm, MarkPhase.wayOut]⟩
      | complete =>
          exact ⟨_, _, .run (.markComplete t hm), by simp [State.wayOut, hm, MarkPhase.wayOut]⟩
      | signal =>
          have hl : s.lockFree := by
            unfold State.lockFree
            split
            · next hpc =>
                rw [hpc] at hpast
                cases hpast
            · next hpc =>
                rw [hpc] at hpast
                cases hpast
            · trivial
          exact ⟨_, _, .run (.markSignal t hm hl), by simp [State.wayOut, hm, MarkPhase.wayOut]⟩
  | none =>
      cases hpc : s.pc with
      | notStarted => exact absurd hpc hstart
      | exited => exact absurd hpc hne
      | loopTest | testRunning | testRunningSlept | throttleRunning _ | testStop _ =>
          refine branch_wayOut cfg w hm (by rw [hpc, hrun]; rfl) ?_
          rw [hpc]
          exact Nat.lt_succ_self _
      | semWait _ | sleeping | throttleWait _ =>
          refine branch_wayOut cfg w hm (by rw [hpc]; rfl) ?_
          rw [hpc]
          exact Nat.lt_succ_self _
      | throttleActive batch =>
          refine branch_wayOut cfg w hm (by rw [hpc]; rfl) ?_
          rw [hpc]
          split <;> simp only [RunPc.wayOut] <;> omega
      | release batch =>
          cases batch with
          | nil =>
              refine branch_wayOut cfg w hm (by rw [hpc]; rfl) ?_
              rw [hpc]
              exact Nat.succ_pos _
          | cons t batch =>
              refine ⟨_, _, .run (.releaseNext t batch hm hpc), ?_⟩
              simp only [State.wayOut, hm, hpc, RunPc.wayOut, MarkPhase.wayOut, List.length_cons,
                Option.map_some, Option.map_none, Option.getD_some, Option.getD_none]
              omega
      | filterClock batch =>
          refine ⟨_, _, .run (.filterBegin 0 batch hm hpc), ?_⟩
          simp [State.wayOut, hm, hpc, RunPc.wayOut]
      | filter now batch validBatch =>
          cases batch with
          | nil =>
              refine branch_wayOut cfg w hm (by rw [hpc]; rfl) ?_
              rw [hpc]
              split <;> simp [RunPc.wayOut]
          | cons t batch =>
              cases hex : (s.tasks t).expired now with
              | true =>
                  refine ⟨_, _, .run (.filterExpired now t batch validBatch hm hpc hex), ?_⟩
                  simp only [State.wayOut, hm, hpc, RunPc.wayOut, MarkPhase.wayOut,
                    List.length_cons, Option.map_some, Option.map_none, Option.getD_some,
                    Option.getD_none]
                  omega
              | false =>
                  refine ⟨_, _, .run (.filterKeep now t batch validBatch hm hpc hex), ?_⟩
                  simp only [State.wayOut, hm, hpc, RunPc.wayOut, List.length_cons]
                  omega
      | submit batch =>
          refine ⟨_, _, .run (.submit batch hm hpc), ?_⟩
          simp [State.wayOut, hm, hpc, RunPc.wayOut]
      | spawn batch =>
          refine ⟨_, _, .run (.spawn batch hm hpc), ?_⟩
          simp [State.wayOut, hm, hpc, RunPc.wayOut]
      | cleanup _ | clean _ _ _ _ | cleanMark _ _ _ _ | testIdle | testPending | collect =>
          rw [hpc] at hpast
          cases hpast

/-- **A task is forgotten**: `run()` can be left, and however the threads go on, some task waits in
the queues. -/
def State.Forgotten (cfg : Config) (w : World F) (s : State F) : Prop :=
  (∃ evs s', Run (Step cfg w) s evs s' ∧ s'.pc = .exited) ∧
    ∀ evs s', Run (Step cfg w) s evs s' → s'.pending ≠ []

theorem State.Doomed.forgotten (h : s.Doomed) (cfg : Config) (w : World F) :
    s.Forgotten cfg w := by
  constructor
  · obtain ⟨evs, s', hr, -, hpc⟩ := Run.exists_of_decreasing (R := Step cfg w)
      (fun s => s.pc = .exited) State.wayOut (fun _ => 0)
      (fun s (h : s.Doomed) hne => by
        obtain ⟨e, s', hs, hlt⟩ := h.next cfg w hne
        exact ⟨e, s', hs, hs.doomed h, .inl hlt⟩) s h
    exact ⟨evs, s', hr, hpc⟩
  · intro evs s' hr
    exact (hr.invariant_state (P := State.Doomed) h fun _ _ _ h hs => hs.doomed h).waiting

/-- With tasks in the queues and no batch under way, `run()` goes to sleep. -/
theorem RunStep.sleeps (hs : RunStep cfg w s e s') (hpc : s.pc = .testPending)
    (hpc' : s'.pc ≠ .testPending) (hwait : s.pending ≠ []) :
    s'.pc = .sleeping ∧ s'.pending = s.pending := by
  cases hs with
  | branch pc' hm hb =>
      have hpos : 0 < s.pendingCount := by
        rw [← s.length_pending]
        exact List.length_pos_iff.2 hwait
      simp only [hpc, RunPc.branch, if_pos hpos, Option.some.injEq] at hb
      exact ⟨hb.symm, rfl⟩
  | takeToken pc' hm hw _ _ =>
      rw [hpc] at hw
      exact hw.elim
  | markTimeout _ _ | markComplete _ _ | markSignal _ _ _ => exact absurd hpc hpc'
  | cleanBegin _ _ _ hpc₁ | cleanKeep _ _ _ _ _ _ hpc₁ _ _
  | cleanExpired _ _ _ _ _ _ hpc₁ _ _ | collect _ _ hpc₁ _ | releaseNext _ _ _ hpc₁
  | filterBegin _ _ _ hpc₁ | filterKeep _ _ _ _ _ hpc₁ _ | filterExpired _ _ _ _ _ hpc₁ _
  | submit _ _ hpc₁ | spawn _ _ hpc₁ | spawnFails _ _ _ hpc₁ | cleanSignal _ _ _ _ _ _ hpc₁ =>
      cases hpc.symm.trans hpc₁

/-- **Each disorderly step leaves somebody behind**: a task in the queues that nobody will serve, or
a task that is lost with its batch. -/
theorem Step.disorderly (h : Runs cfg w evs s) (hs : Step cfg w s e s')
    (hno : ¬ Orderly cfg s e s') : s'.Forgotten cfg w ∨ ∃ t, s'.Lost (evs ++ [e]) t := by
  by_contra hall
  obtain ⟨hforgotten, hlost⟩ := not_or.1 hall
  have hdoomed : ¬ s'.Doomed := fun hd => hforgotten (hd.forgotten cfg w)
  refine hno ⟨fun hrun hrun' => ?_, fun hacc hst => ?_, fun hst hpc hpc' => ?_,
    fun hst hpc hpc' => ?_, ?_⟩
  · -- `stop()` is called when it is too late for what waits
    obtain rfl := hs.stops hrun hrun'
    by_contra hpast
    obtain ⟨hwait, hcol⟩ := not_or.1 hpast
    exact hdoomed ⟨⟨rfl, (Runs.not_exited h hrun).2⟩, hwait, Bool.eq_false_of_not_eq_true hcol⟩
  · obtain ⟨t, rfl⟩ : ∃ t, e = .accept t := by
      cases e with
      | accept t => exact ⟨t, rfl⟩
      | _ => exact absurd rfl hacc
    cases hs with
    | run hs => cases hs
    | exec n hx hs => cases hs
    | call u hs =>
        obtain ⟨-, hrun, hpc, -, -⟩ := hs.frame
        have hu : Event.accept t = .accept u := by cases hs; rfl
        by_contra hcol
        refine hdoomed ⟨?_, hs.pending_ne_nil (.inr hu), ?_⟩
        · unfold State.Stopped
          rw [hrun, hpc]
          exact hst
        · rw [hpc]
          exact Bool.eq_false_of_not_eq_true hcol
  · by_contra hwait
    cases hs with
    | call t hs => exact hpc' (hs.frame.2.2.1.trans hpc)
    | run hs =>
        obtain ⟨hsleep, hsame⟩ := hs.sleeps hpc hpc' hwait
        refine hdoomed ⟨⟨hs.running_eq.trans hst.1, by simp [hsleep]⟩, hsame ▸ hwait, ?_⟩
        rw [hsleep]
        rfl
    | exec n hx hs =>
        obtain ⟨-, -, -, -, -, hpc₁, -⟩ := hs.frame
        exact hpc' (hpc₁.trans hpc)
    | start hpc₁ => cases hpc.symm.trans hpc₁
    | stop => exact hpc' hpc
    | stopPost _ => exact hpc' hpc
  · cases hs with
    | call t hs => exact absurd (hs.frame.2.2.1.trans hpc) hpc'
    | run hs =>
        by_contra hroom
        cases hs with
        | collect batch hm _ hb =>
            obtain ⟨rfl, rfl⟩ := eq_of_collectBatch hb
            refine hdoomed ⟨⟨hst.1, ?_⟩, ?_, ?_⟩
            · simp only
              split <;> simp
            · intro hnil
              have hrest : s.pending.drop cfg.batchLimit = [] :=
                (s.pending_collected cfg).symm.trans hnil
              exact hroom (List.drop_eq_nil_iff.1 hrest)
            · simp only
              split <;> rfl
        | branch pc' hm hb =>
            rw [hpc] at hb
            cases hb
        | takeToken pc' hm hw _ _ =>
            rw [hpc] at hw
            exact hw
        | cleanBegin _ _ _ hpc₁ | cleanKeep _ _ _ _ _ _ hpc₁ _ _
        | cleanExpired _ _ _ _ _ _ hpc₁ _ _ | releaseNext _ _ _ hpc₁ | filterBegin _ _ _ hpc₁
        | filterKeep _ _ _ _ _ hpc₁ _ | filterExpired _ _ _ _ _ hpc₁ _ | submit _ _ hpc₁
        | spawn _ _ hpc₁ | spawnFails _ _ _ hpc₁ | cleanSignal _ _ _ _ _ _ hpc₁ =>
            cases hpc.symm.trans hpc₁
        | markTimeout _ _ | markComplete _ _ | markSignal _ _ _ => exact hpc' hpc
    | exec n hx hs =>
        obtain ⟨-, -, -, -, -, hpc₁, -⟩ := hs.frame
        exact absurd (hpc₁.trans hpc) hpc'
    | start hpc₁ => cases hpc.symm.trans hpc₁
    | stop => exact absurd hpc hpc'
    | stopPost _ => exact absurd hpc hpc'
  · cases e with
    | leak batch => exact absurd (Runs.leak_lost h hs) hlost
    | _ => rfl

/-- **A task is left behind**: `stop()` is called while a task waits in its queue; the scheduler
thread leaves `run()` at once and nobody will ever mark the task done. -/
theorem left_behind : ¬ ∀ (evs : List Event) (s : State ℤ),
    Runs {} (mockWorld {} fun _ => []) evs s → s.ShutDown evs := by
  intro hall
  have h : Runs {} (mockWorld {} fun _ : ℤ => []) _ _ := .nil
  have h := h.snoc (.start rfl)
  have h := h.snoc (.call 0 (.construct 0 [] [3] 1 101 7 rfl fun u hu => hu.elim))
  have h := h.snoc (.call 0 (.accept 100 rfl trivial rfl))
  have h := h.snoc .stop
  have h := h.snoc (.run (.branch _ rfl rfl))
  exact absurd ((hall _ _ h).queues rfl) (by decide)

/-- **An orderly shutdown leaves nobody behind**, for every interleaving.  Suppose that `stop()` is
called only while nothing waits in the queues or `run()` is on its way to `collect_batch`, that
tasks are accepted after that only while it still is, that nothing waits when `run()` decides
whether to sleep and no more than one batch when it calls `collect_batch`, and that every batch gets
its thread.  Then, once `run()` has been left, the queues are empty and each accepted task is marked
done or still executing.  `enqueue` would not refuse a task then: from there on nothing is refused
as long as nothing is accepted, so nobody may offer one.  Each step that is not of this kind leaves
a task behind.  In every reachable state, a call of `stop()` returns only when no thread has a step
left on the object exactly if that is so already when it is called. -/
theorem orderly_shutdown (h : Runs cfg w evs s) :
    (OrderlyRuns cfg w evs s → s.ShutDown evs ∧
      (s.pc = .exited → ∀ evs' s', Run (Step cfg w) s evs' s' →
        (∀ t, .accept t ∉ evs') → ∀ t, .reject t ∉ evs') ∧
      (∀ t s', Orderly cfg s (.accept t) s' → s.pc ≠ .exited) ∧
      ∀ e s', Step cfg w s e s' → ¬ Orderly cfg s e s' →
        s'.Forgotten cfg w ∨ ∃ t, s'.Lost (evs ++ [e]) t) ∧
    ∀ e s', Step cfg w s e s' → s.stopPosts < s'.stopPosts →
      (s'.ReturnsLate cfg w ↔ s.Quiet) :=
  ⟨fun ho => ⟨ho.shutDown, fun hpc _ _ hr hacc => (not_rejected hr (ho.queues hpc) hacc).2,
      fun _ _ hs => ho.refused hs, fun _ _ hs hno => hs.disorderly h hno⟩,
    fun _ _ hs hcall => Runs.returnsLate_iff h hs hcall⟩

/-- The first task waits when `stop()` is called, but `run()` has just woken up for it; a second one
is accepted on the way, and both are collected and released.  Another call of `stop()` follows. -/
def stoppedInTime : List (Action ℤ) :=
  [.start, .construct 0 [] [3] 1 101 7, .enqueue 0 100, .construct 1 [] [4] 0 101 8] ++
    List.replicate 12 (.run 100) ++ [.stop, .enqueue 1 100] ++ List.replicate 18 (.run 100) ++
  [.stopPost]

/-- Both tasks of the script are marked done when `run()` has been left, and the second call of
`stop()` returns when everything is over. -/
theorem orderly_shutdown_inTime : ∃ (evs : List Event) (s : State ℤ),
    OrderlyRuns {} (mockWorld {} fun _ => []) evs s ∧ s.pc = .exited ∧
      acceptedTasks evs = [0, 1] ∧ s.ShutDown evs ∧
      State.ReturnsLate {} (mockWorld {} fun _ => [])
        { s with running := false, stopPosts := s.stopPosts + 1 } := by
  obtain ⟨evs, s, h, hshown⟩ := Run.of_script {} (mockWorld {} fun _ => [])
    (R := fun s e s' => Step {} (mockWorld {} fun _ => []) s e s' ∧ Orderly {} s e s')
    (fun s e s' => decide (Orderly {} s e s')) (fun _ _ _ hs ho => ⟨hs, of_decide_eq_true ho⟩)
    stoppedInTime (fun evs s => (s.pc, acceptedTasks evs, s.execs.length))
    (b := (.exited, [0, 1], 0)) (by decide +kernel)
  simp only [Prod.mk.injEq] at hshown
  obtain ⟨hpc, hacc, hexecs⟩ := hshown
  obtain ⟨hleft, hreturn⟩ := orderly_shutdown (OrderlyRuns.runs h)
  refine ⟨evs, s, h, hpc, hacc, (hleft h).1, (hreturn _ _ .stop (Nat.lt_succ_self _)).2 ?_⟩
  refine ⟨.inl hpc, fun x hx => ?_⟩
  rw [List.length_eq_zero_iff.1 hexecs] at hx
  cases hx

end Gateway.Sched
