/-
**The two timeout clocks.**

A request times out in two places.  Its worker waits `task_timeout_sec` seconds from the moment it
enters `wait_with_timeout_ms`, with the resolution of the clock; the scheduler thread compares the
whole seconds of its own clock reading with a deadline made of whole seconds, and takes only a
later second for an expired one.  So the scheduler side may find a task fresh for up to a second
after its worker has given it up, and then submits it.

The scheduler side is never early.  When its test agrees with the worker's clock is exactly known:
when the whole second of the deadline is over.

Main definitions:

* `Gateway.Sched.State.passed` — the tasks that have passed the submit filter and that the engine
  has not seen;
* `Gateway.Sched.Timed.Punctual` — the guard: the filter tests no task in the second in which the
  two clocks disagree, and no worker gives up while its task is between the filter and the engine.

Main results:

* `Gateway.Sched.expired_seconds_iff` — when the deadline test succeeds;
* `Gateway.Sched.clocks_disagree` — a test that comes too early;
* `Gateway.Sched.timeout_clocks` — **when the two clocks agree**, and that no answered request is
  then submitted.
-/

import InferenceGateway.SchedulerVerdict

set_option relaxedAutoImplicit false
set_option autoImplicit false

namespace Gateway.Sched

variable {F : Type} {cfg : Config} {w : World F} {T clock : ℤ} {s s' : State F} {e : Event}
  {evs : List Event} {p p' : Timed F} {tevs : List TimedEvent} {te : TimedEvent}

/-! ### One test -/

/-- **The deadline test** of a task built at `t₀` succeeds when the second of the deadline is
over. -/
theorem expired_seconds_iff {task : InferenceTask F} {t₀ : ℤ} (hT : 0 < T) (h₀ : 0 ≤ t₀)
    (hd : task.deadline = seconds t₀ + T) (t : ℤ) :
    task.expired (seconds t) = true ↔ (seconds t₀ + T + 1) * 1000000000 ≤ t := by
  rw [InferenceTask.expired_iff, hd]
  unfold seconds
  omega

/-- **The scheduler side is never early.** -/
theorem not_expired_before {task : InferenceTask F} {t₀ t : ℤ}
    (hd : task.deadline = seconds t₀ + T) (ht : t < t₀ + T * 1000000000) :
    task.expired (seconds t) = false := by
  rw [Bool.eq_false_iff, ne_eq, InferenceTask.expired_iff, hd]
  unfold seconds
  omega

/-! ### From the filter to the engine -/

/-- The tasks of the batch in hand that have passed the submit filter. -/
def RunPc.passed : RunPc → List TaskRef
  | .filter _ _ validBatch | .submit validBatch | .spawn validBatch => validBatch
  | _ => []

/-- The tasks of the batch in hand that the submit filter has yet to test. -/
def RunPc.untested : RunPc → List TaskRef
  | .filter _ batch _ => batch
  | _ => []

/-- The tasks that have passed the submit filter and that the engine has not seen. -/
def State.passed (s : State F) : List TaskRef := s.pc.passed ++ s.execs.flatMap Exec.unseen

/-- The branches of `run()` pass no task and begin no filter. -/
theorem branch_passed {running : Bool} {active : ℤ} {queue : QueueClass → List TaskRef}
    {pending : ℕ} {pc pc' : RunPc} (h : pc.branch cfg running active queue pending = some pc') :
    pc'.passed ⊆ pc.passed ∧ pc'.untested = [] := by
  cases pc with
  | clean second now c i =>
      simp only [RunPc.branch] at h
      split at h
      · cases h
      · cases hc : c.next with
        | none =>
            simp only [hc, Option.some.injEq] at h
            subst h
            split <;> exact ⟨List.nil_subset _, rfl⟩
        | some c' =>
            simp only [hc, Option.some.injEq] at h
            subst h
            exact ⟨List.nil_subset _, rfl⟩
  | release batch =>
      cases batch with
      | nil =>
          cases h
          exact ⟨List.nil_subset _, rfl⟩
      | cons t batch => cases h
  | filter now batch validBatch =>
      cases batch with
      | nil =>
          simp only [RunPc.branch, Option.some.injEq] at h
          subst h
          split
          · exact ⟨List.nil_subset _, rfl⟩
          · exact ⟨List.Subset.refl _, rfl⟩
      | cons t batch => cases h
  | sleeping | semWait _ | throttleWait _ =>
      cases h
      exact ⟨List.nil_subset _, rfl⟩
  | loopTest | testRunning | testIdle | testPending | testRunningSlept | throttleRunning _
  | throttleActive _ | testStop _ =>
      simp only [RunPc.branch, Option.some.injEq] at h
      subst h
      split <;> exact ⟨List.nil_subset _, rfl⟩
  | _ => cases h

/-- What an executor has not shown to the engine only shrinks. -/
theorem ExecStep.unseen_subset {x x' : Exec F} (hs : ExecStep w s x e s' x') :
    x'.unseen ⊆ x.unseen := by
  cases hs with
  | release notify hpc _ => cases notify <;> exact List.nil_subset _
  | enter hpc _ => simp [Exec.unseen, hpc]
  | convert t hpc _ => simp [Exec.unseen, hpc]
  | _ => exact List.nil_subset _

/-- An executor's step leaves the passed tasks among the passed ones. -/
theorem ExecStep.passed_subset {x x' : Exec F} {n : ℕ} (hx : s.execs[n]? = some x)
    (hs : ExecStep w s x e s' x') : (s'.setExec n x').passed ⊆ s.passed := by
  obtain ⟨-, -, -, -, -, hpc, -, hexecs, -⟩ := hs.frame
  intro t ht
  simp only [State.passed, State.setExec_pc, State.setExec_execs, hpc, hexecs, List.mem_append,
    List.mem_flatMap] at ht ⊢
  refine ht.imp_right ?_
  rintro ⟨y, hy, hty⟩
  rcases List.mem_or_eq_of_mem_set hy with hy | rfl
  · exact ⟨y, hy, hty⟩
  · exact ⟨x, List.mem_of_getElem? hx, hs.unseen_subset hty⟩

/-- **How a task passes the filter**: only by the test of the filter. -/
theorem Step.passed (hs : Step cfg w s e s') {t : TaskRef} (ht : t ∈ s'.passed) :
    t ∈ s.passed ∨ e = .readDeadline t ∧ t ∈ s.pc.untested ∧
      ∃ now, s.pc.checkTime = some now ∧ (s.tasks t).expired now = false := by
  cases hs with
  | call u hs =>
      obtain ⟨-, -, hpc, -, hexecs⟩ := hs.frame
      rw [State.passed, hpc, hexecs] at ht
      exact .inl ht
  | run hs =>
      simp only [State.passed, List.mem_append] at ht ⊢
      cases hs with
      | branch pc' hm hb => exact .inl (ht.imp_left fun h => (branch_passed hb).1 h)
      | takeToken pc' hm _ _ hb => exact .inl (ht.imp_left fun h => (branch_passed hb).1 h)
      | collect batch hm hpc hb =>
          obtain ⟨rfl, rfl⟩ := eq_of_collectBatch hb
          refine .inl (ht.imp_left fun h => ?_)
          simp only at h
          split at h <;> cases h
      -- the one step in which a task passes the test
      | filterKeep now u batch validBatch hm hpc hex =>
          rcases ht with ht | ht
          · rcases List.mem_append.1 ht with hv | hu
            · exact .inl (.inl (by simpa [hpc, RunPc.passed] using hv))
            · obtain rfl := List.mem_singleton.1 hu
              exact .inr ⟨rfl, by simp [hpc, RunPc.untested], now, by simp [hpc, RunPc.checkTime],
                hex⟩
          · exact .inl (.inr ht)
      | filterExpired now u batch validBatch hm hpc hex =>
          exact .inl (ht.imp_left fun h => by simpa [hpc, RunPc.passed] using h)
      | submit validBatch hm hpc =>
          exact .inl (ht.imp_left fun h => by simpa [hpc, RunPc.passed] using h)
      | spawn validBatch hm hpc =>
          rcases ht with ht | ht
          · cases ht
          · simp only [List.flatMap_append, List.flatMap_cons, List.flatMap_nil, List.append_nil,
              List.mem_append, Exec.unseen] at ht
            exact .inl (ht.symm.imp_left fun h => by simpa [hpc, RunPc.passed] using h)
      | markTimeout u hm => exact .inl ht
      | markComplete u hm => exact .inl ht
      | markSignal u hm hl => exact .inl ht
      | cleanSignal u second now c i hm hpc =>
          refine .inl (ht.imp (fun h => by cases h) fun h => ?_)
          simpa using h
      | _ => exact .inl (ht.imp_left fun h => by cases h)
  | exec n hx hs => exact .inl (hs.passed_subset hx ht)
  | start _ => exact .inl (List.mem_append_right _ ht)
  | stop => exact .inl ht
  | stopPost _ => exact .inl ht

/-- **How a task comes before the filter**: the filter reads the clock with it in hand. -/
theorem Step.untested (hs : Step cfg w s e s') {t : TaskRef} (ht : t ∈ s'.pc.untested) :
    t ∈ s.pc.untested ∧ s'.pc.checkTime = s.pc.checkTime ∨ ∃ batch, s.pc = .filterClock batch := by
  cases hs with
  | call u hs =>
      obtain ⟨-, -, hpc, -⟩ := hs.frame
      rw [hpc] at ht ⊢
      exact .inl ⟨ht, rfl⟩
  | run hs =>
      cases hs with
      | branch pc' hm hb => exact absurd ht (by simp [(branch_passed hb).2])
      | takeToken pc' hm _ _ hb => exact absurd ht (by simp [(branch_passed hb).2])
      | collect batch hm hpc hb =>
          simp only at ht
          split at ht <;> cases ht
      | filterBegin now batch hm hpc => exact .inr ⟨batch, hpc⟩
      | filterKeep now u batch validBatch hm hpc hex
      | filterExpired now u batch validBatch hm hpc hex =>
          rw [hpc]
          exact .inl ⟨List.mem_cons_of_mem _ ht, rfl⟩
      | markTimeout u hm => exact .inl ⟨ht, rfl⟩
      | markComplete u hm => exact .inl ⟨ht, rfl⟩
      | markSignal u hm hl => exact .inl ⟨ht, rfl⟩
      | _ => cases ht
  | exec n hx hs =>
      obtain ⟨-, -, -, -, -, hpc, -⟩ := hs.frame
      rw [State.setExec_pc, hpc] at ht ⊢
      exact .inl ⟨ht, rfl⟩
  | start _ => cases ht
  | stop => exact .inl ⟨ht, rfl⟩
  | stopPost _ => exact .inl ⟨ht, rfl⟩

theorem untested_subset {pc : RunPc} : pc.untested ⊆ handOf pc := by
  intro t ht
  cases pc with
  | filter now batch validBatch => exact List.mem_append_right _ ht
  | _ => cases ht

/-! ### What the clock tells about a run -/

/-- The deadline of a task is fixed when it is built. -/
theorem Step.deadline (hs : Step cfg w s e s') {t : TaskRef} (he : e ≠ .construct t) :
    (s'.tasks t).deadline = (s.tasks t).deadline := by
  have hmove := hs.taskMove t
  generalize s'.tasks t = y at hmove ⊢
  cases hmove with
  | construct => exact absurd rfl he
  | writeResult r =>
      have hreq := InferenceTask.request_writeBack (s.tasks t) r
      simp only [InferenceTask.request, Prod.mk.injEq] at hreq
      exact hreq.2.2.2.1
  | _ => rfl

theorem Step.not_absent (hs : Step cfg w s e s') {t : TaskRef} (he : e ≠ .construct t)
    (ht : s'.calls t ≠ .absent) : s.calls t ≠ .absent := by
  rcases hs.calls t with hcalls | hcall
  · exact hcalls ▸ ht
  · cases hcall with
    | construct => exact absurd rfl he
    | accept _ hc | reject _ hc | post hc | checkDone hc | checkBlock hc | wake hc | etimedout hc
    | reply hc | replyRejected hc => simp [hc]

/-- What a timed run knows: an expired wait has lasted its time, only expired waits end with
`ETIMEDOUT`, and the deadlines are those of the instants at which the tasks were built. -/
structure Timed.Sound (T : ℤ) (p : Timed F) (evs : List Event) : Prop where
  clock : 0 ≤ p.clock
  waited : ∀ t, p.expired t = true →
    ∃ t₁, p.waitFrom t = some t₁ ∧ t₁ + T * 1000000000 ≤ p.clock
  etimedout : ∀ t, .etimedout t ∈ evs → p.expired t = true
  deadline : ∀ t, p.sched.calls t ≠ .absent →
    0 ≤ p.builtAt t ∧ (p.sched.tasks t).deadline = seconds (p.builtAt t) + T

theorem Timed.Sound.sched (h : p.Sound T evs) (hs : Step cfg w p.sched e s')
    (ht : p.Timely T e s') : (p.next e s').Sound T (evs ++ [e]) where
  clock := h.clock
  waited := h.waited
  etimedout t hmem := by
    rcases List.mem_append.1 hmem with hmem | hmem
    · exact h.etimedout t hmem
    · exact ht.expires t (List.mem_singleton.1 hmem).symm
  deadline t hcall := by
    by_cases he : e = .construct t
    · subst he
      simpa using ⟨h.clock, ht.deadline t rfl⟩
    · have hbuilt : (p.next e s').builtAt t = p.builtAt t := by
        cases e with
        | construct u =>
            have htu : t ≠ u := fun heq => he (heq ▸ rfl)
            simp [Timed.next, Function.update_of_ne htu]
        | _ => rfl
      rw [hbuilt]
      exact ⟨(h.deadline t (hs.not_absent he hcall)).1,
        (hs.deadline he).trans (h.deadline t (hs.not_absent he hcall)).2⟩

theorem TimedRuns.sound (hT : 0 < T) (hmax : T ≤ 2147483) (h₀ : 0 ≤ clock)
    (h : TimedRuns cfg w T clock tevs p) : p.Sound T (schedEvents tevs) := by
  refine h.invariant (P := fun evs p => p.Sound T (schedEvents evs)) ?_ ?_
  · exact ⟨h₀, nofun, nofun, fun t ht => absurd rfl ht⟩
  · intro evs p e p' _ ih hs
    cases hs with
    | sched hs ht =>
        rw [schedEvents_snoc_sched]
        exact ih.sched hs ht
    | pass d =>
        rw [schedEvents_snoc_pass]
        refine ⟨by have := ih.clock; simp only; omega, fun t ht => ?_, ih.etimedout, ih.deadline⟩
        obtain ⟨t₁, hfrom, hle⟩ := ih.waited t ht
        exact ⟨t₁, hfrom, by simp only; omega⟩
    | startWait u _ hnone =>
        rw [schedEvents_snoc_startWait]
        refine ⟨ih.clock, fun t ht => ?_, ih.etimedout, ih.deadline⟩
        obtain ⟨t₁, hfrom, hle⟩ := ih.waited t ht
        have htu : t ≠ u := by
          rintro rfl
          exact absurd (hfrom.symm.trans hnone) (by simp)
        exact ⟨t₁, (Function.update_of_ne htu _ _).trans hfrom, hle⟩
    | expire u t₁ _ hfrom hle =>
        rw [schedEvents_snoc_expire]
        rw [waitUntil_eq hT.le hmax] at hle
        refine ⟨ih.clock, fun t ht => ?_, fun t ht => ?_, ih.deadline⟩
        · by_cases htu : t = u
          · subst htu
            exact ⟨t₁, hfrom, hle⟩
          · exact ih.waited t ((Function.update_of_ne htu _ _).symm.trans ht)
        · by_cases htu : t = u
          · subst htu
            simp
          · exact (Function.update_of_ne htu _ _).trans (ih.etimedout t ht)

/-! ### Punctual runs -/

/-- The guard: when the submit filter tests a task whose worker's time is over, the second of its
deadline is over too, and no worker times out while its task is between the clock reading of the
filter and the engine. -/
def Timed.Punctual (T : ℤ) (p : Timed F) : TimedEvent → Prop
  | .sched (.readDeadline t) =>
      t ∈ p.sched.pc.untested → ∀ t₁, p.waitFrom t = some t₁ →
        t₁ + T * 1000000000 ≤ p.filteredAt →
        (seconds (p.builtAt t) + T + 1) * 1000000000 ≤ p.filteredAt
  | .sched (.etimedout t) => t ∉ p.sched.pc.untested ∧ t ∉ p.sched.passed
  | _ => True

/-- The runs that satisfy the guard. -/
abbrev PunctualRuns (cfg : Config) (w : World F) (T clock : ℤ) (evs : List TimedEvent)
    (p : Timed F) : Prop :=
  EventSystem.Run (EventSystem.Guarded (TimedStep cfg w T) (Timed.Punctual T)) (.start clock) evs p

/-- What the guard maintains: a task that has passed the filter has not timed out, and one that is
yet to be tested timed out before the clock reading. -/
structure Timed.Filtered (T : ℤ) (p : Timed F) (evs : List Event) : Prop where
  read : ∀ t ∈ p.sched.pc.untested, p.sched.pc.checkTime = some (seconds p.filteredAt)
  untested : ∀ t ∈ p.sched.pc.untested, .etimedout t ∈ evs →
    ∃ t₁, p.waitFrom t = some t₁ ∧ t₁ + T * 1000000000 ≤ p.filteredAt
  passed : ∀ t ∈ p.sched.passed, .etimedout t ∉ evs

/-- The filter's clock reading stays while there is something to test. -/
theorem filteredAt_next {t : TaskRef} (ht : t ∈ p.sched.pc.untested) :
    (p.next e s').filteredAt = p.filteredAt := by
  simp only [Timed.next]
  split
  · next hpc =>
      rw [hpc] at ht
      cases ht
  · rfl

theorem Timed.Filtered.sched (h : p.Filtered T evs) (hsound : p.Sound T evs) (hT : 0 < T)
    (hr : Runs cfg w evs p.sched) (hs : Step cfg w p.sched e s') (ht : p.Timely T e s')
    (hg : p.Punctual T (.sched e)) : (p.next e s').Filtered T (evs ++ [e]) := by
  -- a task is new to the filter only in the step that reads the clock
  have hnow : ∀ {t batch}, p.sched.pc = .filterClock batch → t ∈ s'.pc.untested →
      s'.pc.checkTime = some (seconds p.clock) ∧ (p.next e s').filteredAt = p.clock ∧
        e ≠ .etimedout t := by
    intro t batch hpc hmem
    have hne : s'.pc ≠ p.sched.pc := by
      intro heq
      rw [heq, hpc] at hmem
      cases hmem
    refine ⟨(ht.filter batch hpc).resolve_left hne, by simp [Timed.next, hpc], ?_⟩
    rintro rfl
    cases hs with
    | call u hs => exact hne hs.frame.2.2.1
    | run hs => cases hs
    | exec n hx hs => cases hs
  constructor
  · intro t hmem
    rcases hs.untested hmem with ⟨hold, hcheck⟩ | ⟨batch, hpc⟩
    · rw [filteredAt_next hold]
      exact hcheck.trans (h.read t hold)
    · rw [(hnow hpc hmem).2.1]
      exact (hnow hpc hmem).1
  · intro t hmem hev
    rcases hs.untested hmem with ⟨hold, -⟩ | ⟨batch, hpc⟩
    · rw [filteredAt_next hold]
      rcases List.mem_append.1 hev with hev | hev
      · exact h.untested t hold hev
      · obtain rfl := List.mem_singleton.1 hev
        exact absurd hold hg.1
    · rw [(hnow hpc hmem).2.1]
      rcases List.mem_append.1 hev with hev | hev
      · exact hsound.waited t (hsound.etimedout t hev)
      · exact absurd (List.mem_singleton.1 hev).symm (hnow hpc hmem).2.2
  · intro t hmem hev
    rcases hs.passed hmem with hold | ⟨rfl, huntested, now, hcheck, hfresh⟩
    · rcases List.mem_append.1 hev with hev | hev
      · exact h.passed t hold hev
      · obtain rfl := List.mem_singleton.1 hev
        exact hg.2 hold
    · -- the task timed out before the reading, so its test was not in the second of the deadline
      have hev : .etimedout t ∈ evs := by simpa using hev
      obtain ⟨t₁, hfrom, hle⟩ := h.untested t huntested hev
      have hplaced : t ∈ p.sched.placed := List.mem_append_left _
        (List.mem_append_right _ (List.mem_append_left _ (untested_subset huntested)))
      obtain ⟨hbuilt, hdeadline⟩ :=
        hsound.deadline t (Runs.calls_of_mem_placed hr hplaced).1
      obtain rfl := Option.some.inj (hcheck.symm.trans (h.read t huntested))
      have hexpired := (expired_seconds_iff hT hbuilt hdeadline p.filteredAt).2
        (hg huntested t₁ hfrom hle)
      exact absurd (hexpired.symm.trans hfresh) (by simp)

theorem PunctualRuns.filtered (hT : 0 < T) (hmax : T ≤ 2147483) (h₀ : 0 ≤ clock)
    (h : PunctualRuns cfg w T clock tevs p) : p.Filtered T (schedEvents tevs) := by
  refine h.invariant (P := fun evs p => p.Filtered T (schedEvents evs)) ⟨nofun, nofun, nofun⟩ ?_
  intro evs p e p' hr ih hs
  have hrun := hr.of_guarded
  obtain ⟨hs, hg⟩ := hs
  cases hs with
  | sched hs ht =>
      rw [schedEvents_snoc_sched]
      exact ih.sched (TimedRuns.sound hT hmax h₀ hrun) hT (TimedRuns.runs hrun) hs ht hg
  | pass d =>
      rw [schedEvents_snoc_pass]
      exact ⟨ih.read, ih.untested, ih.passed⟩
  | startWait u _ hnone =>
      rw [schedEvents_snoc_startWait]
      refine ⟨ih.read, fun t hmem hev => ?_, ih.passed⟩
      obtain ⟨t₁, hfrom, hle⟩ := ih.untested t hmem hev
      have htu : t ≠ u := by
        rintro rfl
        exact absurd (hfrom.symm.trans hnone) (by simp)
      exact ⟨t₁, (Function.update_of_ne htu _ _).trans hfrom, hle⟩
  | expire u t₁ _ _ _ =>
      rw [schedEvents_snoc_expire]
      exact ⟨ih.read, ih.untested, ih.passed⟩

/-! ### Answered requests -/

/-- An executor owes no signal while the engine has not seen its batch. -/
theorem Exec.count_owing_unseen_le (x : Exec F) (t : TaskRef) :
    x.owing.count t + x.unseen.count t ≤ x.held.count t := by
  have howing := x.count_owing_le t
  obtain ⟨batch, pc, inputs, results, i⟩ := x
  cases pc with
  | enter | convert => simp [Exec.owing, Exec.unseen, Exec.held]
  | _ => simpa [Exec.unseen] using howing

theorem count_owing_unseen_le (hi : s.IteratorOk) (t : TaskRef) :
    s.owing.count t + (s.execs.flatMap Exec.unseen).count t ≤ s.placed.count t := by
  have hexecs : (s.execs.flatMap Exec.owing).count t + (s.execs.flatMap Exec.unseen).count t ≤
      (s.execs.flatMap Exec.held).count t := by
    induction s.execs with
    | nil => exact Nat.le_refl _
    | cons x execs ih =>
        have hx := x.count_owing_unseen_le t
        simp only [List.flatMap_cons, List.count_append]
        omega
  simp only [State.owing, State.placed, State.holding]
  rw [List.count_append, Nat.add_assoc, List.count_append]
  refine Nat.add_le_add ?_ hexecs
  split
  · next u hm =>
      by_cases hu : u = t
      · subst hu
        have := List.count_pos_iff.2 (mem_of_mark hi hm)
        simp only [List.count_singleton_self]
        omega
      · simp [hu]
  · exact Nat.zero_le _

theorem unseen_held {execs : List (Exec F)} :
    execs.flatMap Exec.unseen ⊆ execs.flatMap Exec.held := by
  intro t ht
  obtain ⟨x, hx, htx⟩ := List.mem_flatMap.1 ht
  refine List.mem_flatMap.2 ⟨x, hx, List.count_pos_iff.1 ?_⟩
  have hle := x.count_owing_unseen_le t
  have hpos : 0 < x.unseen.count t := List.count_pos_iff.2 htx
  omega

/-- A task that was marked done is not on its way to the engine. -/
theorem Runs.not_unseen_of_markDone (h : Runs cfg w evs s) {t : TaskRef}
    (ht : .markDone t ∈ evs) : t ∉ s.execs.flatMap Exec.unseen := by
  intro hmem
  have h₁ := Runs.markDone_law h t
  have h₂ := Runs.placed_law h t
  have h₃ := Runs.accept_law h t
  have h₄ := count_owing_unseen_le (Runs.iteratorOk h) t
  have h₅ : evs.count (.signal t) ≤ EventSystem.total (Event.loss t) evs := by
    rw [← EventSystem.total_eq_count (signalled_eq t)]
    refine EventSystem.total_mono (fun e => ?_) evs
    cases e <;> simp [Event.signalled, Event.loss]
  have hpos : 0 < evs.count (.markDone t) := List.count_pos_iff.2 ht
  have hpos' : 0 < (s.execs.flatMap Exec.unseen).count t := List.count_pos_iff.2 hmem
  omega

/-- A task is completed by `mark_done` or by its worker. -/
theorem Runs.completed_cause (h : Runs cfg w evs s) {t : TaskRef}
    (ht : (s.tasks t).completed = true) : .markDone t ∈ evs ∨ .etimedout t ∈ evs := by
  refine h.invariant (P := fun evs s => (s.tasks t).completed = true →
    .markDone t ∈ evs ∨ .etimedout t ∈ evs) (fun h => by cases h) ?_ ht
  intro evs s e s' _ ih hs ht
  rcases hs.completed t with hc | ⟨rfl | rfl, -⟩ | ⟨-, hc⟩
  · exact (ih (hc ▸ ht)).imp (List.mem_append_left _) (List.mem_append_left _)
  · exact .inl (by simp)
  · exact .inr (by simp)
  · exact absurd (hc.symm.trans ht) (by simp)

/-- An answered task was rejected, marked done or given up by its worker. -/
theorem Runs.replied_cause (h : Runs cfg w evs s) {t : TaskRef} {r : Reply}
    (ht : .reply t r ∈ evs) : .reject t ∈ evs ∨ .markDone t ∈ evs ∨ .etimedout t ∈ evs := by
  obtain ⟨pre, post, s₁, s₂, rfl, hpre, hs, -⟩ := h.split_of_mem ht
  have hleft : ∀ {e}, e ∈ pre → e ∈ pre ++ .reply t r :: post := List.mem_append_left _
  rcases hs.reply with ⟨hc, -⟩ | hc
  · exact .inr ((Runs.completed_cause hpre (Runs.replying hpre hc)).imp hleft hleft)
  · have hist := Runs.history hpre t
    simp only [hc, CallPc.History] at hist
    have hmem : .reject t ∈ pre.filter (Event.decides t) := by simp [hist]
    exact .inl (hleft (List.mem_filter.1 hmem).1)

/-- What the engine is shown has passed the filter. -/
theorem Step.infer_unseen {batch : List TaskRef} (hs : Step cfg w s (.infer batch) s') :
    batch ⊆ s.execs.flatMap Exec.unseen := by
  cases hs with
  | call u hs => cases hs
  | run hs => cases hs
  | exec n hx hs =>
      cases hs with
      | converted hpc _ =>
          intro t ht
          exact List.mem_flatMap.2
            ⟨_, List.mem_of_getElem? hx, by simpa [Exec.unseen, hpc] using ht⟩

/-- **The two clocks disagree**: a task built at 100 s whose worker starts to wait at once and gives
up after one second is still fresh for the scheduler thread half a second later. -/
theorem clocks_disagree : ¬ ∀ (T t₀ t₁ t : ℤ) (task : InferenceTask ℤ), 0 < T → 0 ≤ t₀ →
    task.deadline = seconds t₀ + T → t₀ ≤ t₁ → t₁ + T * 1000000000 ≤ t →
    task.expired (seconds t) = true := by
  intro hall
  have hexpired := hall 1 100000000000 100000000000 101500000000
    (.make [] [3] 1 101 7) (by decide) (by decide) rfl (by decide) (by decide)
  exact absurd hexpired (by decide)

/-- **When the two clocks agree.**  After the worker's time is over, the deadline test succeeds
exactly if the whole second of the deadline is over as well; before the worker's time is over it
never succeeds.  And in every run in which the submit filter tests no such task within that second,
no worker gives up between the filter and the engine, and the timeout in milliseconds fits an `int`,
no request that has been answered is shown to the engine. -/
theorem timeout_clocks (hT : 0 < T) :
    (∀ (task : InferenceTask F) (t₀ t₁ t : ℤ), 0 ≤ t₀ → task.deadline = seconds t₀ + T →
        t₀ ≤ t₁ → t₁ + T * 1000000000 ≤ t →
        (task.expired (seconds t) = true ↔ (seconds t₀ + T + 1) * 1000000000 ≤ t)) ∧
      (∀ (task : InferenceTask F) (t₀ t : ℤ), task.deadline = seconds t₀ + T →
        t < t₀ + T * 1000000000 → task.expired (seconds t) = false) ∧
      ∀ (cfg : Config) (w : World F) (clock : ℤ) (evs : List TimedEvent) (p p' : Timed F)
        (batch : List TaskRef), T ≤ 2147483 → 0 ≤ clock → PunctualRuns cfg w T clock evs p →
        TimedStep cfg w T p (.sched (.infer batch)) p' →
        ∀ t ∈ batch, ∀ r, .reply t r ∉ schedEvents evs := by
  refine ⟨fun _ _ _ t h₀ hd _ _ => expired_seconds_iff hT h₀ hd t,
    fun _ _ _ hd ht => not_expired_before hd ht, ?_⟩
  intro cfg w clock evs p p' batch hmax h₀ h hs t ht r hreply
  have hr := TimedRuns.runs h.of_guarded
  cases hs with
  | sched hs _ =>
      have hunseen := hs.infer_unseen ht
      rcases Runs.replied_cause hr hreply with hreject | hdone | hleft
      · exact (Runs.rejected hr hreject).1 (List.mem_append_right _ (unseen_held hunseen))
      · exact Runs.not_unseen_of_markDone hr hdone hunseen
      · exact (PunctualRuns.filtered hT hmax h₀ h).passed t (List.mem_append_right _ hunseen) hleft

/-- With a timeout of one second the deadline 101 s is over at 102 s; and the first request, which
is shown to the engine at 100 s, has not been answered. -/
theorem timeout_clocks_one :
    (InferenceTask.make [] [(3 : ℤ)] 1 101 7).expired (seconds 102000000000) = true ∧
      (InferenceTask.make [] [(3 : ℤ)] 1 101 7).expired (seconds 100900000000) = false ∧
      ∃ (evs : List TimedEvent) (p p' : Timed ℤ),
        PunctualRuns {} (mockWorld {} fun _ => []) 1 100000000000 evs p ∧
          TimedStep {} (mockWorld {} fun _ => []) 1 p (.sched (.infer [0])) p' ∧
          ∀ r, .reply 0 r ∉ schedEvents evs := by
  have hone : (0 : ℤ) < 1 := by decide
  obtain ⟨evs, h⟩ := run_collecting (Timed.Punctual 1) fun _ => trivial
  have h := h.snoc ⟨.call (.construct (t := 0) 0 [] [3] 1 101 7 rfl fun u hu => hu.elim)
    (fun _ => rfl) nofun nofun nofun nofun, trivial⟩
  have h := h.snoc ⟨.call (.accept (t := 0) 100 rfl trivial rfl) nofun (fun _ => rfl) nofun nofun
    nofun, trivial⟩
  have h := h.snoc ⟨.run (.collect _ rfl rfl rfl) nofun nofun, trivial⟩
  have h := h.snoc ⟨.run (.branch _ rfl rfl) nofun nofun, trivial⟩
  have h := h.snoc ⟨.run (.branch _ rfl rfl) nofun nofun, trivial⟩
  have h := h.snoc ⟨.run (.branch _ rfl rfl) nofun nofun, trivial⟩
  have h := h.snoc ⟨.run (.filterBegin 100 _ rfl rfl) nofun (fun _ _ => rfl), trivial⟩
  have h := h.snoc ⟨.run (.filterKeep 100 0 _ _ rfl rfl rfl) nofun nofun, nofun⟩
  have h := h.snoc ⟨.run (.branch _ rfl rfl) nofun nofun, trivial⟩
  have h := h.snoc ⟨.run (.submit _ rfl rfl) nofun nofun, trivial⟩
  have h := h.snoc ⟨.run (.spawn _ rfl rfl) nofun nofun, trivial⟩
  have h := h.snoc ⟨.exec (n := 0) rfl (.enter rfl nofun), trivial⟩
  have h := h.snoc ⟨.exec (n := 0) rfl (.convert 0 rfl rfl), trivial⟩
  refine ⟨((timeout_clocks hone).1 _ 100000000000 100000000000 _ (by decide) rfl le_rfl
    (by decide)).2 (by decide), (timeout_clocks hone).2.1 _ 100000000000 _ rfl (by decide),
    _, _, _, h, .exec (n := 0) rfl (.converted rfl le_rfl), ?_⟩
  exact (timeout_clocks hone).2.2 _ _ _ _ _ _ _ (by decide) (by decide) h
    (.exec (n := 0) rfl (.converted rfl le_rfl)) 0 (List.mem_singleton_self 0)

end Gateway.Sched
