/-
**Wake-ups of the scheduler thread.**

`queue_sem_` carries two messages, "a task was queued" and "a slot is free", and `run()` takes its
tokens in two places: at the head of its loop and while it waits for a free slot.  A token taken in
the second place may be the message about a task that is still queued, so the tokens do not count
the queued tasks.  What keeps a queued task from being forgotten is that a batch at work will post
a token when it ends.  This module says where that argument holds and where it breaks.

Main definitions:

* `Gateway.Sched.State.Covered` — nothing is queued, or a wake-up is due;
* `Gateway.Sched.State.NoLostWakeup` — no task is queued during an idle wait that nobody will end;
* `Gateway.Sched.WakefulStep` — a step that goes back to the head of the loop with nothing
  submitted is taken in a covered state only.

Main results:

* `Gateway.Sched.WakefulRuns.wakeOk` — the invariant of wakeful runs;
* `Gateway.Sched.lost_wakeup` — **a lost wake-up**: a batch expires while it waits for a slot;
* `Gateway.Sched.no_lost_wakeup_iff` — **wakeful runs lose no wake-up, and only they**.
-/

import InferenceGateway.SchedulerFailure
import InferenceGateway.SchedulerReplay
import InferenceGateway.SchedulerShutdown

set_option relaxedAutoImplicit false
set_option autoImplicit false

namespace Gateway.Sched

open EventSystem (Run total)

variable {F : Type} {cfg : Config} {w : World F} {s s' : State F} {e : Event} {evs : List Event}

/-! ### What is promised -/

/-- A wake-up is due: there is a token, or somebody will post one. -/
def State.Awake (s : State F) : Prop :=
  0 < s.queueSem ∨ 0 < s.activeBatchCount ∨ (∃ t, s.calls t = .posting) ∨
    ∃ x ∈ s.execs, x.pc = .post

/-- Nothing is queued, or a wake-up is due. -/
def State.Covered (s : State F) : Prop := s.pending = [] ∨ s.Awake

/-- **No task is queued during an idle wait that nobody will end**: no batch has a slot, there is no
token, and nobody stands between a change of the state and the post that goes with it. -/
def State.NoLostWakeup (s : State F) : Prop :=
  ∀ waitMs, s.pc = .semWait waitMs → s.activeBatchCount = 0 → s.queueSem = 0 →
    (∀ t, s.calls t ≠ .posting) → (∀ x ∈ s.execs, x.pc ≠ .post) → s.pending = []

theorem State.Covered.noLostWakeup (h : s.Covered) : s.NoLostWakeup := by
  intro waitMs _ hactive hsem hcalls hexecs
  rcases h with h | h | h | ⟨t, h⟩ | ⟨x, hx, h⟩
  · exact h
  · omega
  · omega
  · exact absurd h (hcalls t)
  · exact absurd h (hexecs x hx)

/-- A step of a wakeful run: going back to the head of the loop because nothing was collected, or
because the whole batch has expired, is left to covered states. -/
structure WakefulStep (cfg : Config) (w : World F) (s : State F) (e : Event) (s' : State F) :
    Prop where
  step : Step cfg w s e s'
  skip : ∀ now, s.pc = .filter now [] [] → s'.pc = .loopTest → s.running = true → s.Covered
  collect : s.pc = .collect → s'.pc = .loopTest → s.running = true → s.Covered

/-- The runs that consist of such steps. -/
abbrev WakefulRuns (cfg : Config) (w : World F) (evs : List Event) (s : State F) : Prop :=
  Run (WakefulStep cfg w) State.init evs s

theorem WakefulRuns.runs (h : WakefulRuns cfg w evs s) : Runs cfg w evs s :=
  h.mono fun _ _ _ hs => hs.step

/-! ### The other threads -/

/-- A worker that is accepted has a token to post. -/
theorem CallStep.covered {t : TaskRef} (hs : CallStep cfg w t s e s') (h : s.Covered) :
    s'.Covered := by
  have hactive := hs.frame.1
  have hexecs := hs.frame.2.2.2.2
  -- a step that queues nothing and posts nothing keeps what was due
  have hkeep : s'.pending = s.pending → s'.queueSem = s.queueSem →
      (∀ u, s.calls u = .posting → s'.calls u = .posting) → s'.Covered := by
    intro hp hq hc
    rcases h with h | h | h | ⟨u, h⟩ | ⟨x, hx, h⟩
    · exact .inl (hp.trans h)
    · exact .inr (.inl (hq ▸ h))
    · exact .inr (.inr (.inl (hactive ▸ h)))
    · exact .inr (.inr (.inr (.inl ⟨u, hc u h⟩)))
    · exact .inr (.inr (.inr (.inr ⟨x, hexecs ▸ hx, h⟩)))
  have hother : ∀ pc, s.calls t ≠ .posting →
      ∀ u, s.calls u = .posting → Function.update s.calls t pc u = .posting := by
    intro pc ht u hu
    have hne : u ≠ t := fun h => ht (h ▸ hu)
    rwa [Function.update_of_ne hne]
  cases hs with
  | accept now _ _ he => exact .inr (.inr (.inr (.inl ⟨t, by simp⟩)))
  | post ht => exact .inr (.inl (Nat.succ_pos _))
  | reject now ht _ he =>
      obtain ⟨-, rfl⟩ := enqueue_eq_false he
      exact hkeep rfl rfl (hother _ (by simp [ht]))
  | construct addr _ _ _ _ _ ht _ => exact hkeep rfl rfl (hother _ (by simp [ht]))
  | checkDone ht _ | checkBlock ht _ | wake ht | etimedout ht | reply ht | replyRejected ht =>
      exact hkeep rfl rfl (hother _ (by simp [ht]))

/-- An executor gives its slot back before it posts, and then stands before its post. -/
theorem ExecStep.covered {n : ℕ} {x x' : Exec F} (hs : ExecStep w s x e s' x')
    (hx : s.execs[n]? = some x) (hne : x.batch ≠ []) (hnotify : x.pc ≠ .release false)
    (h : s.Covered) : (s'.setExec n x').Covered := by
  obtain ⟨h₁, h₂, h₃, -, -, -, -, hexecs, hcalls, -⟩ := hs.frame
  have hpending : (s'.setExec n x').pending = s.pending := hs.pending
  have hmem : x' ∈ s.execs.set n x' :=
    List.mem_set (List.getElem?_eq_some_iff.1 hx).1 x'
  -- the other executors stay
  have hother : ∀ y ∈ s.execs, y.pc = .post → x.pc ≠ .post → y ∈ s.execs.set n x' := by
    intro y hy hpost hxpost
    obtain ⟨m, hm⟩ := List.getElem?_of_mem hy
    have hnm : n ≠ m := by
      rintro rfl
      obtain rfl : x = y := Option.some.inj (hx.symm.trans hm)
      exact hxpost hpost
    exact List.mem_of_getElem? (by rwa [List.getElem?_set_ne hnm])
  have hkeep : s'.queueSem = s.queueSem → s'.activeBatchCount = s.activeBatchCount →
      x.pc ≠ .post → (s'.setExec n x').Covered := by
    intro hq ha hxpost
    rcases h with h | h | h | ⟨u, h⟩ | ⟨y, hy, h⟩
    · exact .inl (hpending.trans h)
    · exact .inr (.inl (by simpa [hq] using h))
    · exact .inr (.inr (.inl (by simpa [ha] using h)))
    · exact .inr (.inr (.inr (.inl ⟨u, by simpa [hcalls] using h⟩)))
    · exact .inr (.inr (.inr (.inr ⟨y, by simpa [hexecs] using hother y hy h hxpost, h⟩)))
  cases hs with
  | release notify hpc hl =>
      cases notify with
      | false => exact absurd hpc hnotify
      | true => exact .inr (.inr (.inr (.inr ⟨_, by simpa using hmem, rfl⟩)))
  | post hpc => exact .inr (.inl (Nat.succ_pos _))
  | empty hpc hb => exact absurd hb hne
  | enter hpc _ | convert t hpc _ | converted hpc _ | returns r hpc _ | throws hpc _
  | write t hpc _ | complete t hpc _ | signal t hpc _ | written hpc _ =>
      exact hkeep rfl rfl (by simp [hpc])

/-- An executor has a batch, so it ends with a post. -/
theorem Runs.notifies (h : Runs cfg w evs s) : ∀ x ∈ s.execs, x.pc ≠ .release false := by
  refine h.invariant (P := fun _ s => ∀ x ∈ s.execs, x.pc ≠ .release false)
    (fun x hx => absurd hx List.not_mem_nil) ?_
  intro evs s e s' hr ih hs
  cases hs with
  | call t hs =>
      obtain ⟨-, -, -, -, hexecs⟩ := hs.frame
      rwa [hexecs]
  | run hs =>
      cases hs with
      | collect b hm hpc hb =>
          obtain ⟨rfl, rfl⟩ := eq_of_collectBatch hb
          exact ih
      | spawn b hm hpc =>
          intro x hx
          rcases List.mem_append.1 hx with hx | hx
          · exact ih x hx
          · obtain rfl := List.mem_singleton.1 hx
            simp
      | cleanSignal t second now c i hm hpc => simpa using ih
      | _ => exact ih
  | exec n hx hs =>
      obtain ⟨-, -, -, -, -, -, -, hexecs, -⟩ := hs.frame
      intro y hy
      rw [State.setExec_execs, hexecs] at hy
      rcases List.mem_or_eq_of_mem_set hy with hy | rfl
      · exact ih y hy
      · have hmem := List.mem_of_getElem? hx
        cases hs with
        | empty hpc hb => exact absurd hb ((Runs.sized hr).execs _ hmem).1
        | release notify hpc _ => cases notify <;> simp
        | convert t hpc _ => simp [hpc]
        | _ => simp
  | start _ => exact ih
  | stop => exact ih
  | stopPost _ => exact ih

/-! ### The scheduler thread -/

/-- What is due stays due when only other parts of the state change. -/
theorem State.Covered.congr (h : s.Covered) (hp : s'.pending = s.pending)
    (hq : s.queueSem ≤ s'.queueSem) (ha : s'.activeBatchCount = s.activeBatchCount)
    (hc : s'.calls = s.calls) (he : s'.execs = s.execs) : s'.Covered := by
  rcases h with h | h | h | ⟨t, h⟩ | ⟨x, hx, h⟩
  · exact .inl (hp.trans h)
  · exact .inr (.inl (Nat.lt_of_lt_of_le h hq))
  · exact .inr (.inr (.inl (ha ▸ h)))
  · exact .inr (.inr (.inr (.inl ⟨t, hc ▸ h⟩)))
  · exact .inr (.inr (.inr (.inr ⟨x, he ▸ hx, h⟩)))

/-- An empty collection leaves the queues as they are. -/
theorem pending_collected (h : s.pending.take cfg.batchLimit = []) :
    (s.collected cfg).pending = s.pending := by
  have := take_append_pending_collected cfg s
  rwa [h, List.nil_append] at this

/-- A batch that stands before its thread is counted. -/
theorem Runs.activeBatchCount_pos {batch : List TaskRef} (h : Runs cfg w evs s)
    (hpc : s.pc = .spawn batch) : 0 < s.activeBatchCount := by
  have hlaw := Runs.submitted_law h
  simp only [State.submitted, hpc, RunPc.submitting] at hlaw
  omega

/-- **The invariant of wakeful runs**: `run()` is at the head of its loop, or waits there, in
covered states only. -/
def State.WakeOk (s : State F) : Prop :=
  match s.pc with
  | .notStarted | .semWait _ => s.Covered
  | .loopTest => s.running = true → s.Covered
  | _ => True

theorem State.WakeOk.congr (h : s.WakeOk) (hpc : s'.pc = s.pc)
    (hr : s'.running = true → s.running = true) (hc : s.Covered → s'.Covered) : s'.WakeOk := by
  unfold State.WakeOk at h ⊢
  rw [hpc]
  cases hp : s.pc with
  | notStarted | semWait waitMs =>
      rw [hp] at h
      exact hc h
  | loopTest =>
      rw [hp] at h
      exact fun hrun => hc (h (hr hrun))
  | _ => trivial

/-- `run()` goes to the wait at its head from the test before it, and back to that test by skipping
a batch. -/
theorem branch_head {running : Bool} {active : ℤ} {queue : QueueClass → List TaskRef} {pending : ℕ}
    {pc pc' : RunPc} (h : pc.branch cfg running active queue pending = some pc') :
    (∀ waitMs, pc' = .semWait waitMs → pc = .loopTest ∧ running = true) ∧
      (pc' = .loopTest → ∃ now, pc = .filter now [] []) := by
  cases pc with
  | loopTest =>
      simp only [RunPc.branch, Option.some.injEq] at h
      subst h
      cases running <;> simp
  | clean second now c i =>
      simp only [RunPc.branch] at h
      split at h
      · cases h
      · split at h <;> cases h
        · simp
        · cases second <;> simp
  | release batch => cases batch <;> cases h; simp
  | filter now batch validBatch =>
      cases batch with
      | nil => cases validBatch <;> cases h <;> simp
      | cons t batch => cases h
  | sleeping | semWait _ | throttleWait _ => cases h; simp
  | testRunning | testIdle | testPending | testRunningSlept | throttleRunning _
  | throttleActive _ | testStop _ =>
      simp only [RunPc.branch, Option.some.injEq] at h
      subst h
      split <;> simp
  | _ => cases h

theorem branch_wakeOk {pc' : RunPc} (h : s.WakeOk)
    (hskip : ∀ now, s.pc = .filter now [] [] → pc' = .loopTest → s.running = true → s.Covered)
    (hb : s.pc.branch cfg s.running s.activeBatchCount s.queue s.pendingCount = some pc') :
    State.WakeOk { s with pc := pc' } := by
  have hcov : s.Covered → State.Covered { s with pc := pc' } := fun hc =>
    hc.congr rfl le_rfl rfl rfl rfl
  obtain ⟨hwait, htest⟩ := branch_head hb
  have hstart := branch_ne_notStarted hb
  cases pc' with
  | notStarted => exact absurd rfl hstart
  | loopTest =>
      obtain ⟨now, hpc⟩ := htest rfl
      exact fun hrun => hcov (hskip now hpc rfl hrun)
  | semWait waitMs =>
      obtain ⟨hpc, hrun⟩ := hwait waitMs rfl
      unfold State.WakeOk at h
      rw [hpc] at h
      exact hcov (h hrun)
  | _ => trivial

/-- **A wakeful step keeps the invariant.** -/
theorem WakefulStep.wakeOk (hr : Runs cfg w evs s) (hs : WakefulStep cfg w s e s')
    (h : s.WakeOk) : s'.WakeOk := by
  obtain ⟨hs, hskip, hcollect⟩ := hs
  cases hs with
  | call t hs =>
      obtain ⟨-, hrun, hpc, -⟩ := hs.frame
      exact h.congr hpc (fun h => hrun ▸ h) hs.covered
  | exec n hx hs =>
      obtain ⟨-, -, -, hrun, -, hpc, -⟩ := hs.frame
      have hmem := List.mem_of_getElem? hx
      exact h.congr hpc (fun h => hrun ▸ h)
        (hs.covered hx ((Runs.sized hr).execs _ hmem).1 (Runs.notifies hr _ hmem))
  | run hs =>
      cases hs with
      | branch pc' hm hb => exact branch_wakeOk h hskip hb
      | takeToken pc' hm hw hq hb =>
          cases hp : s.pc with
          | semWait waitMs | throttleWait batch =>
              rw [hp] at hb
              cases hb
              trivial
          | _ => simp [RunPc.waits, hp] at hw
      | collect batch hm hpc hb =>
          obtain ⟨rfl, rfl⟩ := eq_of_collectBatch hb
          by_cases hbatch : s.pending.take cfg.batchLimit = []
          · have hcov := hcollect hpc (by simp [hbatch])
            simp only [hbatch, List.isEmpty_nil, if_true]
            exact fun hrun => (hcov hrun).congr (pending_collected hbatch) le_rfl rfl rfl rfl
          · simp only [List.isEmpty_eq_false_iff.2 hbatch, Bool.false_eq_true, if_false]
            trivial
      -- the batch that was counted is at work, or keeps its slot for ever
      | spawn batch hm hpc | spawnFails batch _ hm hpc =>
          have hactive := Runs.activeBatchCount_pos hr hpc
          exact fun _ => .inr (.inr (.inl hactive))
      | markTimeout t hm | markComplete t hm | markSignal t hm _ =>
          exact h.congr rfl id fun hc => hc.congr rfl le_rfl rfl rfl rfl
      | _ => trivial
  | start hpc =>
      unfold State.WakeOk at h
      rw [hpc] at h
      exact fun _ => State.Covered.congr h rfl le_rfl rfl rfl rfl
  | stop => exact h.congr rfl (fun h => by cases h) fun hc => hc.congr rfl le_rfl rfl rfl rfl
  | stopPost _ => exact h.congr rfl id fun hc => hc.congr rfl (Nat.le_succ _) rfl rfl rfl

theorem WakefulRuns.wakeOk (h : WakefulRuns cfg w evs s) : s.WakeOk := by
  refine h.invariant (P := fun _ s => s.WakeOk) (.inl rfl) ?_
  intro evs s e s' hr ih hs
  exact hs.wakeOk (WakefulRuns.runs hr) ih

theorem WakefulRuns.noLostWakeup (h : WakefulRuns cfg w evs s) : s.NoLostWakeup := by
  intro waitMs hpc
  have hcov := WakefulRuns.wakeOk h
  unfold State.WakeOk at hcov
  rw [hpc] at hcov
  exact hcov.noLostWakeup waitMs hpc

/-! ### Steps that are not wakeful -/

/-- How `run()` comes back to the head of its loop, by a step of any thread. -/
theorem Step.to_head (hs : Step cfg w s e s') (hne : s.pc ≠ .loopTest)
    (hpc' : s'.pc = .loopTest) :
    s.pc = .notStarted ∨ (∃ batch, s.pc = .spawn batch) ∨
      ((∃ now, s.pc = .filter now [] []) ∧ s.mark = none ∧ s' = { s with pc := .loopTest }) ∨
      s.pc = .collect ∧ s.mark = none ∧ s.pending.take cfg.batchLimit = [] ∧
        s' = { s.collected cfg with pc := .loopTest } := by
  cases hs with
  | call t hs => exact absurd (hs.frame.2.2.1 ▸ hpc') hne
  | exec n hx hs => exact absurd (hs.frame.2.2.2.2.2.1 ▸ hpc') hne
  | start h => exact .inl h
  | stop | stopPost _ => exact absurd hpc' hne
  | run hs =>
      cases hs with
      | branch pc' hm hb =>
          obtain rfl : pc' = .loopTest := hpc'
          exact .inr (.inr (.inl ⟨(branch_head hb).2 rfl, hm, rfl⟩))
      | takeToken pc' hm hw hq hb =>
          obtain rfl : pc' = .loopTest := hpc'
          obtain ⟨now, hp⟩ := (branch_head hb).2 rfl
          simp [hp, RunPc.waits] at hw
      | collect batch hm hpc hb =>
          obtain ⟨rfl, rfl⟩ := eq_of_collectBatch hb
          have htake : s.pending.take cfg.batchLimit = [] := by
            by_contra hbatch
            simp [List.isEmpty_eq_false_iff.2 hbatch] at hpc'
          exact .inr (.inr (.inr ⟨hpc, hm, htake, by simp [htake]⟩))
      | spawn b _ h | spawnFails b _ _ h => exact .inr (.inl ⟨b, h⟩)
      | markTimeout t _ | markComplete t _ | markSignal t _ _ => exact absurd hpc' hne
      | _ => simp at hpc'

/-- With room for one task in a batch, a collection comes back empty from empty queues only. -/
theorem WakefulStep.of_skip (hmax : 1 ≤ cfg.maxBatchSize) (hs : Step cfg w s e s')
    (hskip : ∀ now, s.pc = .filter now [] [] → s'.pc = .loopTest → s.running = true → s.Covered) :
    WakefulStep cfg w s e s' := by
  refine ⟨hs, hskip, fun hpc hpc' _ => .inl ?_⟩
  have hlimit : 1 ≤ cfg.batchLimit := by unfold Config.batchLimit; omega
  rcases hs.to_head (by simp [hpc]) hpc' with h | ⟨batch, h⟩ | ⟨⟨now, h⟩, -⟩ | ⟨-, -, htake, -⟩
  · simp [hpc] at h
  · simp [hpc] at h
  · simp [hpc] at h
  · rcases List.take_eq_nil_iff.1 htake with h | h
    · omega
    · exact h

/-- From the head of the loop an uncovered scheduler goes into a wait that nobody ends. -/
theorem lost_of_loopTest (hpc : s.pc = .loopTest) (hm : s.mark = none) (hrun : s.running = true)
    (hactive : 0 ≤ s.activeBatchCount) (h : ¬ s.Covered) :
    ∃ s'', Step cfg w s .tau s'' ∧ ¬ s''.NoLostWakeup := by
  simp only [State.Covered, State.Awake, not_or, not_exists, not_and] at h
  obtain ⟨hpending, hsem, hslot, hcalls, hexecs⟩ := h
  refine ⟨_, .run (.branch _ hm (by rw [hpc]; rfl)), fun hno => hpending ?_⟩
  simp only [hrun, if_true] at hno
  exact hno _ rfl (by simp only; omega) (by simp only; omega) hcalls hexecs

/-- **Each step that is not wakeful strands a task**: the next step of `run()` goes into an idle
wait with a task in a queue and no wake-up due. -/
theorem Step.strands (hr : Runs cfg w evs s) (hs : Step cfg w s e s')
    (hno : ¬ WakefulStep cfg w s e s') : ∃ s'', Step cfg w s' .tau s'' ∧ ¬ s''.NoLostWakeup := by
  have hactive : 0 ≤ s.activeBatchCount := by
    rw [Runs.slots hr]
    exact Int.natCast_nonneg _
  -- what fails is one of the two conditions, at a step back to the head of the loop
  obtain ⟨hpc, hpc', hrun, hcov⟩ : ((∃ now, s.pc = .filter now [] []) ∨ s.pc = .collect) ∧
      s'.pc = .loopTest ∧ s.running = true ∧ ¬ s.Covered := by
    by_contra hall
    refine hno ⟨hs, fun now hpc hpc' hrun => ?_, fun hpc hpc' hrun => ?_⟩
    · by_contra hcov
      exact hall ⟨.inl ⟨now, hpc⟩, hpc', hrun, hcov⟩
    · by_contra hcov
      exact hall ⟨.inr hpc, hpc', hrun, hcov⟩
  have hne : s.pc ≠ .loopTest := by rcases hpc with ⟨now, hpc⟩ | hpc <;> simp [hpc]
  rcases hs.to_head hne hpc' with h | ⟨batch, h⟩ | ⟨-, hm, rfl⟩ | ⟨-, hm, htake, rfl⟩
  · rcases hpc with ⟨now, hpc⟩ | hpc <;> simp [hpc] at h
  · rcases hpc with ⟨now, hpc⟩ | hpc <;> simp [hpc] at h
  · exact lost_of_loopTest rfl hm hrun hactive fun h => hcov (h.congr rfl le_rfl rfl rfl rfl)
  · exact lost_of_loopTest rfl hm hrun hactive fun h =>
      hcov (h.congr (pending_collected htake).symm le_rfl rfl rfl rfl)

/-! ### A lost wake-up -/

/-- **A lost wake-up.**  A batch waits for the only slot while a third task is queued; `run()` takes
the tokens of all three tasks there, and the one that frees the slot.  By then the batch has
expired, so nothing is submitted, and `run()` goes into its idle wait with the third task queued,
no token, and nobody at work. -/
theorem lost_wakeup : ¬ ∀ (evs : List Event) (s : State ℤ),
    Runs { maxConcurrentBatches := 1, maxBatchSize := 1 } (mockWorld {} fun _ => []) evs s →
    s.NoLostWakeup := by
  intro hall
  have h : Runs { maxConcurrentBatches := 1, maxBatchSize := 1 } (mockWorld {} fun _ : ℤ => [])
    _ _ := Run.single (.start rfl)
  obtain ⟨evs₁, h⟩ := run_idle (s := { (State.init : State ℤ) with running := true }) 0 h rfl rfl
    rfl rfl rfl rfl
  -- three tasks arrive, and their workers post
  have hroom : ∀ s : State ℤ, ¬ s.full { maxConcurrentBatches := 1, maxBatchSize := 1 } :=
    fun s hfull => absurd hfull.1 (by decide)
  have h := run_posted (t := 0) [] [3] 1 0 7 0 100 h rfl (fun u hu => hu.elim) trivial (hroom _)
  have h := run_posted (t := 1) [] [4] 1 200 8 1 100 h rfl (fun u _ => by
    by_cases hu : u = 0 <;> simp [State.accepted, hu, State.init]) trivial (hroom _)
  have h := run_posted (t := 2) [] [5] 1 0 9 2 100 h rfl (fun u _ => by
    by_cases hu : u = 1 <;> by_cases hu' : u = 0 <;>
      simp [State.accepted, hu, hu', State.init]) trivial (hroom _)
  have h := h.snoc (.run (.collect [0] rfl rfl rfl))
  obtain ⟨evs₂, h⟩ := run_submit 100 h rfl rfl (by decide) (by decide) (by decide)
  -- the loop goes on to the second task, which finds no free slot
  have h := h.snoc (.run (.branch _ rfl rfl))
  have h := h.snoc (.run (.takeToken _ rfl trivial (by decide) rfl))
  have h := h.snoc (.run (.branch _ rfl rfl))
  have h := h.snoc (.run (.cleanBegin false 100 rfl rfl))
  have h := h.snoc (.run (.branch _ rfl rfl))
  have h := h.snoc (.run (.cleanKeep false 100 .mid 0 1 rfl rfl rfl rfl))
  have h := h.snoc (.run (.cleanKeep false 100 .mid 1 2 rfl rfl rfl rfl))
  have h := h.snoc (.run (.branch _ rfl rfl))
  have h := h.snoc (.run (.branch _ rfl rfl))
  have h := h.snoc (.run (.branch _ rfl rfl))
  have h := h.snoc (.run (.collect [1] rfl rfl rfl))
  have h := h.snoc (.run (.branch _ rfl rfl))
  have h := h.snoc (.run (.branch _ rfl rfl))
  -- waiting for it, `run()` takes the tokens of the other tasks
  have h := h.snoc (.run (.takeToken _ rfl trivial (by decide) rfl))
  have h := h.snoc (.run (.branch _ rfl rfl))
  have h := h.snoc (.run (.branch _ rfl rfl))
  have h := h.snoc (.run (.takeToken _ rfl trivial (by decide) rfl))
  have h := h.snoc (.run (.branch _ rfl rfl))
  have h := h.snoc (.run (.branch _ rfl rfl))
  -- the first batch ends
  have h := h.snoc (.exec 0 rfl (.enter rfl (by decide)))
  have h := h.snoc (.exec 0 rfl (.convert 0 rfl rfl))
  have h := h.snoc (.exec 0 rfl (.converted rfl (by decide)))
  have h := h.snoc (.exec 0 rfl (.returns _ rfl rfl))
  have h := h.snoc (.exec 0 rfl (.write 0 rfl rfl))
  have h := h.snoc (.exec 0 rfl (.complete 0 rfl rfl))
  have h := h.snoc (.exec 0 rfl (.signal 0 rfl rfl))
  have h := h.snoc (.exec 0 rfl (.written rfl (by decide)))
  have h := h.snoc (.exec 0 rfl (.release true rfl trivial))
  have h := h.snoc (.exec 0 rfl (.post rfl))
  have h := h.snoc (.run (.takeToken _ rfl trivial (by decide) rfl))
  have h := h.snoc (.run (.branch _ rfl rfl))
  have h := h.snoc (.run (.branch _ rfl rfl))
  have h := h.snoc (.run (.branch _ rfl rfl))
  -- meanwhile the second task has expired
  have h := h.snoc (.run (.filterBegin 300 [1] rfl rfl))
  have h := h.snoc (.run (.filterExpired 300 1 [] [] rfl rfl rfl))
  have h := h.snoc (.run (.markTimeout 1 rfl))
  have h := h.snoc (.run (.markComplete 1 rfl))
  have h := h.snoc (.run (.markSignal 1 rfl trivial))
  have h := h.snoc (.run (.branch _ rfl rfl))
  have h := h.snoc (.run (.branch _ rfl rfl))
  have hcalls : ∀ t, Function.update (Function.update (Function.update (fun _ => CallPc.absent)
      0 .checking) 1 .checking) 2 .checking t ≠ .posting := by
    intro t
    simp only [Function.update_apply]
    split_ifs <;> simp
  have hlost := hall _ _ h 500 rfl rfl rfl hcalls
    (List.forall_mem_singleton.2 fun hpc => by cases hpc)
  exact absurd hlost (by decide)

/-- **Wakeful runs lose no wake-up, and only they.**  For every configuration and every interleaving
of workers, executors and scheduler thread: as long as `run()` goes back to the head of its loop
with nothing submitted only when nothing is queued, or there is a token, a batch with a slot or
somebody about to post, no task is ever queued during an idle wait that nobody will end; and a step
that goes back otherwise leads, with the next step of `run()`, to such a wait.  When a batch may
hold a task, only a batch that has expired as a whole goes back so. -/
theorem no_lost_wakeup_iff (cfg : Config) (w : World F) :
    (∀ evs s, WakefulRuns cfg w evs s → s.NoLostWakeup) ∧
      (∀ evs s e s', Runs cfg w evs s → Step cfg w s e s' → ¬ WakefulStep cfg w s e s' →
        ∃ s'', Step cfg w s' .tau s'' ∧ ¬ s''.NoLostWakeup) ∧
      (1 ≤ cfg.maxBatchSize → ∀ s e s', Step cfg w s e s' →
        (∀ now, s.pc = .filter now [] [] → s'.pc = .loopTest → s.running = true → s.Covered) →
          WakefulStep cfg w s e s') :=
  ⟨fun _ _ h => WakefulRuns.noLostWakeup h, fun _ _ _ _ h hs hno => hs.strands h hno,
    fun hmax _ _ _ hs hskip => .of_skip hmax hs hskip⟩

/-- Whether a step of a script is one of a wakeful run: no task waits where it goes back, or there
is a token or a batch with a slot. -/
def wakeful (s : State ℤ) (_ : Event) (s' : State ℤ) : Bool :=
  match s.pc, s'.pc with
  | .filter _ [] [], .loopTest | .collect, .loopTest =>
      s.pending.isEmpty || decide (0 < s.queueSem) || decide (0 < s.activeBatchCount)
  | _, _ => true

theorem wakefulStep_of_wakeful {w : World ℤ} {s s' : State ℤ} (hs : Step cfg w s e s')
    (h : wakeful s e s' = true) : WakefulStep cfg w s e s' := by
  have hcovered : (s.pending.isEmpty || decide (0 < s.queueSem) ||
      decide (0 < s.activeBatchCount)) = true → s.Covered := by
    intro h
    rw [Bool.or_eq_true, Bool.or_eq_true, List.isEmpty_iff, decide_eq_true_eq,
      decide_eq_true_eq] at h
    rcases h with (h | h) | h
    · exact .inl h
    · exact .inr (.inl h)
    · exact .inr (.inr (.inl h))
  refine ⟨hs, fun now hpc hpc' _ => hcovered ?_, fun hpc hpc' _ => hcovered ?_⟩
  · unfold wakeful at h
    rwa [hpc, hpc'] at h
  · unfold wakeful at h
    rwa [hpc, hpc'] at h

/-- One batch at a time, and three requests with a task each: the second batch waits for the first
one to end. -/
def oneAtATime : Config where
  maxBatchSize := 1
  maxConcurrentBatches := 1
  maxConcurrentBatches_pos := le_refl 1

def throttled : List (Action ℤ) :=
  [.start, .construct 0 [] [3] 1 101 7, .enqueue 0 100, .worker 0, .construct 1 [] [4] 1 101 8,
    .enqueue 1 100, .worker 1, .construct 2 [] [5] 1 101 9, .enqueue 2 100, .worker 2, .run 100,
    .token] ++ List.replicate 29 (.run 100) ++ [.token] ++ List.replicate 11 (.run 100) ++
  [.token] ++ List.replicate 2 (.run 100)

/-- The first batch ends, the second one is submitted, and it ends while `run()` waits for a token
with the third request in its queue. -/
def unthrottled : List (Action ℤ) :=
  List.replicate 3 (.exec 0 []) ++
  [.exec 0 [{ data := [6, 0, 0, 0, 0], shape := [1, 5], success := true }]] ++
  List.replicate 6 (.exec 0 []) ++ [.token] ++ List.replicate 9 (.run 100) ++
  List.replicate 3 (.exec 1 []) ++
  [.exec 1 [{ data := [8, 0, 0, 0, 0], shape := [1, 5], success := true }]] ++
  List.replicate 5 (.exec 1 [])

/-- The second batch had to wait for a slot; when it is through, the third request is queued without
a token, but the executor is about to post one. -/
theorem no_lost_wakeup_throttled : ∃ (evs₀ evs : List Event) (s₀ s : State ℤ),
    WakefulRuns oneAtATime (mockWorld {} fun _ => []) evs₀ s₀ ∧ s₀.pc = .throttleWait [1] ∧
      s₀.pending = [2] ∧ Run (WakefulStep oneAtATime (mockWorld {} fun _ => [])) s₀ evs s ∧
      s.pc = .semWait 10 ∧ s.activeBatchCount = 0 ∧ s.queueSem = 0 ∧ s.pending = [2] ∧
      ((∃ t, s.calls t = .posting) ∨ ∃ x ∈ s.execs, x.pc = .post) := by
  obtain ⟨evs₀, s₀, evs, s, h₀, hr, hshown⟩ := Run.of_scripts oneAtATime
    (mockWorld {} fun _ => []) wakeful (fun _ _ _ => wakefulStep_of_wakeful) throttled unthrottled
    (fun _ s₀ _ s => ([s₀.pc, s.pc], [s₀.pending, s.pending], s.activeBatchCount, s.queueSem))
    (b := ([.throttleWait [1], .semWait 10], [[2], [2]], 0, 0)) (by decide +kernel)
  simp only [Prod.mk.injEq, List.cons.injEq, and_true] at hshown
  obtain ⟨⟨hpc₀, hpc⟩, ⟨hpending₀, hpending⟩, hactive, hsem⟩ := hshown
  refine ⟨evs₀, evs, s₀, s, h₀, hpc₀, hpending₀, hr, hpc, hactive, hsem, hpending, ?_⟩
  by_contra hno
  rw [not_or, not_exists, not_exists] at hno
  have hkept := (no_lost_wakeup_iff oneAtATime _).1 _ _ (h₀.trans hr) 10 hpc hactive hsem hno.1
    fun x hx hpost => hno.2 x ⟨hx, hpost⟩
  rw [hkept] at hpending
  cases hpending

end Gateway.Sched
