/-
**The concurrency limit of the scheduler.**

`run()` compares `active_batch_count_` with the limit outside the lock and increments it some steps
later, while executors decrement it on threads of their own.  What keeps the limit is that only
`run()` increments: between its test and its increment the counter can only fall.  So the invariant
records, for each position of `run()`, what it has already checked there, and couples the counter
with the position and with the executors.

Main definitions:

* `Gateway.Sched.RunPc.Checked` — what `run()` has checked at each position;
* `Gateway.Sched.State.submitted` — the batches submitted and not finished by `execute_batch`;
* `Gateway.Sched.State.Sized` — the sizes of the batches that are under way.

Main results:

* `Gateway.Sched.Runs.checked`, `Gateway.Sched.Runs.sized` — the two invariants;
* `Gateway.Sched.Runs.activeBatchCount_eq` — the counter counts the submitted batches;
* `Gateway.Sched.concurrency_limit` — **the counter stays between zero and the limit**, and every
  batch that the engine sees is non-empty and no longer than `max_batch_size_`.
-/

import InferenceGateway.SchedulerProgress

set_option relaxedAutoImplicit false
set_option autoImplicit false

namespace Gateway.Sched

variable {F : Type} {cfg : Config} {w : World F} {s s' : State F} {e : Event}

/-! ### What `run()` has checked -/

/-- What `run()` has checked when it stands at a position: it releases its batch only after it has
seen `stop()`, and goes on to submit one only after it has seen room for it. -/
def RunPc.Checked (cfg : Config) (running : Bool) (active : ℤ) : RunPc → Prop
  | .release _ => running = false
  | .testStop _ => running = false ∨ active < cfg.maxConcurrentBatches
  | .filterClock _ | .filter .. | .submit _ => active < cfg.maxConcurrentBatches
  | _ => True

/-- The checks stay valid when another thread stops the scheduler or finishes a batch. -/
theorem RunPc.Checked.mono {running running' : Bool} {active active' : ℤ} {pc : RunPc}
    (hr : running = false → running' = false) (ha : active' ≤ active)
    (h : pc.Checked cfg running active) : pc.Checked cfg running' active' := by
  cases pc with
  | release batch => exact hr h
  | testStop batch => exact h.imp hr (lt_of_le_of_lt ha)
  | filterClock batch => exact lt_of_le_of_lt ha h
  | filter now batch validBatch => exact lt_of_le_of_lt ha h
  | submit batch => exact lt_of_le_of_lt ha h
  | _ => trivial

/-- Each branch of `run()` checks what its target needs. -/
theorem RunPc.Checked.branch {running : Bool} {active : ℤ} {queue : QueueClass → List TaskRef}
    {pending : ℕ} {pc pc' : RunPc} (h : pc.Checked cfg running active)
    (hb : pc.branch cfg running active queue pending = some pc') :
    pc'.Checked cfg running active := by
  cases pc with
  | clean second now c i =>
      simp only [RunPc.branch] at hb
      split at hb
      · cases hb
      · split at hb <;> cases hb
        · trivial
        · split <;> trivial
  | release batch =>
      cases batch with
      | nil => cases hb; trivial
      | cons t batch => cases hb
  | filter now batch validBatch =>
      cases batch with
      | nil =>
          simp only [RunPc.branch, Option.some.injEq] at hb
          subst hb
          split
          · trivial
          · exact h
      | cons t batch => cases hb
  | throttleRunning batch =>
      simp only [RunPc.branch, Option.some.injEq] at hb
      subst hb
      cases running with
      | true => trivial
      | false => exact .inl rfl
  -- the comparison with the limit
  | throttleActive batch =>
      simp only [RunPc.branch, Option.some.injEq] at hb
      subst hb
      split
      · trivial
      · exact .inr (by omega)
  | testStop batch =>
      simp only [RunPc.branch, Option.some.injEq] at hb
      subst hb
      cases running with
      | true => exact h.resolve_left (by decide)
      | false => exact rfl
  | sleeping | semWait _ | throttleWait _ => cases hb; trivial
  | loopTest | testRunning | testIdle | testPending | testRunningSlept =>
      simp only [RunPc.branch, Option.some.injEq] at hb
      subst hb
      split <;> trivial
  | _ => cases hb

/-- Executors only lower the counter. -/
theorem ExecStep.activeBatchCount_le {x x' : Exec F} (h : ExecStep w s x e s' x') :
    s'.activeBatchCount ≤ s.activeBatchCount := by
  cases h with
  | release notify _ _ => exact Int.sub_le_self _ (by decide)
  | _ => exact le_refl _

/-- The checks of the current position. -/
abbrev State.Checked (cfg : Config) (s : State F) : Prop :=
  s.pc.Checked cfg s.running s.activeBatchCount

theorem Step.checked (hs : Step cfg w s e s') (h : s.Checked cfg) : s'.Checked cfg := by
  cases hs with
  | call t hs =>
      obtain ⟨hactive, hrun, hpc, -⟩ := hs.frame
      simpa only [State.Checked, hactive, hrun, hpc] using h
  | run hs =>
      cases hs with
      | branch pc' hm hb => exact h.branch hb
      | takeToken pc' hm hw hq hb => exact h.branch hb
      | collect batch hm hpc hb =>
          simp only [State.Checked]
          split <;> trivial
      | releaseNext t batch hm hpc | filterBegin now batch hm hpc
      | filterKeep now t batch validBatch hm hpc _
      | filterExpired now t batch validBatch hm hpc _ =>
          simp only [State.Checked, hpc] at h
          exact h
      | markTimeout t hm => exact h
      | markComplete t hm => exact h
      | markSignal t hm hl => exact h
      | _ => trivial
  | exec n hx hs =>
      obtain ⟨-, -, -, hrun, -, hpc, -⟩ := hs.frame
      simp only [State.Checked, State.setExec_pc, State.setExec_running,
        State.setExec_activeBatchCount, hpc, hrun]
      exact h.mono id hs.activeBatchCount_le
  | start hpc => trivial
  | stop => exact h.mono (fun _ => rfl) (le_refl _)
  | stopPost hp => exact h

theorem Runs.checked {evs : List Event} (h : Runs cfg w evs s) : s.Checked cfg :=
  h.invariant_state (P := State.Checked cfg)
    (show RunPc.Checked cfg _ _ .notStarted from trivial) fun _ _ _ hi hs => hs.checked hi

/-! ### The submitted batches -/

/-- `run()` has counted a batch whose thread is not created yet. -/
def RunPc.submitting : RunPc → ℕ
  | .spawn _ => 1
  | _ => 0

/-- `execute_batch` has not given its slot back. -/
def Exec.unfinished (x : Exec F) : ℕ :=
  match x.pc with
  | .post | .finished => 0
  | _ => 1

/-- The batches submitted and not finished by `execute_batch`. -/
def State.submitted (s : State F) : ℕ := s.pc.submitting + (s.execs.map Exec.unfinished).sum

theorem branch_submitting {running : Bool} {active : ℤ} {queue : QueueClass → List TaskRef}
    {pending : ℕ} {pc pc' : RunPc} (h : pc.branch cfg running active queue pending = some pc') :
    pc.submitting = 0 ∧ pc'.submitting = 0 := by
  cases pc with
  | clean second now c i =>
      simp only [RunPc.branch] at h
      split at h
      · cases h
      · split at h <;> cases h
        · exact ⟨rfl, rfl⟩
        · exact ⟨rfl, by split <;> rfl⟩
  | release batch =>
      cases batch with
      | nil => cases h; exact ⟨rfl, rfl⟩
      | cons t batch => cases h
  | filter now batch validBatch =>
      cases batch with
      | nil =>
          simp only [RunPc.branch, Option.some.injEq] at h
          subst h
          exact ⟨rfl, by split <;> rfl⟩
      | cons t batch => cases h
  | sleeping | semWait _ | throttleWait _ => cases h; exact ⟨rfl, rfl⟩
  | loopTest | testRunning | testIdle | testPending | testRunningSlept | throttleRunning _
  | throttleActive _ | testStop _ =>
      simp only [RunPc.branch, Option.some.injEq] at h
      subst h
      exact ⟨rfl, by split <;> rfl⟩
  | _ => cases h

/-- A batch gives its slot back exactly when the counter is decremented. -/
theorem ExecStep.unfinished {x x' : Exec F} (h : ExecStep w s x e s' x') :
    s'.activeBatchCount + x.unfinished = s.activeBatchCount + x'.unfinished := by
  cases h with
  | release notify hpc _ => cases notify <;> simp [Exec.unfinished, hpc]
  | _ => simp_all [Exec.unfinished]

/-- How many batches an event leaks. -/
def Event.leaked : Event → ℕ
  | .leak _ => 1
  | _ => 0

/-- The counter moves with the submitted batches, except that a leaked batch stays counted. -/
theorem Step.submitted_law (hs : Step cfg w s e s') :
    s'.activeBatchCount + s.submitted = s.activeBatchCount + s'.submitted + e.leaked := by
  cases hs with
  | call t hs =>
      obtain ⟨hactive, -, hpc, -, hexecs⟩ := hs.frame
      have hleak : e.leaked = 0 := by cases hs <;> rfl
      simp only [State.submitted, hactive, hpc, hexecs, hleak]
      omega
  | run hs =>
      simp only [State.submitted]
      cases hs with
      | branch pc' hm hb | takeToken pc' hm _ _ hb =>
          obtain ⟨h₁, h₂⟩ := branch_submitting hb
          simp only [h₁, h₂, Event.leaked]
          omega
      | collect batch hm hpc hb =>
          obtain ⟨rfl, rfl⟩ := eq_of_collectBatch hb
          have hsub : (if (s.pending.take cfg.batchLimit).isEmpty then RunPc.loopTest
              else .throttleRunning (s.pending.take cfg.batchLimit)).submitting = 0 := by
            split <;> rfl
          have hcollect : RunPc.collect.submitting = 0 := rfl
          simp only [hpc, hsub, hcollect, State.collected, Event.leaked]
          omega
      -- the count goes up before there is an executor; `submitting` stands for it
      | submit validBatch hm hpc =>
          simp only [hpc, RunPc.submitting, Event.leaked]
          omega
      | spawn validBatch hm hpc =>
          simp only [hpc, RunPc.submitting, List.map_append, List.sum_append, List.map_cons,
            List.map_nil, List.sum_cons, List.sum_nil, Exec.unfinished, Event.leaked]
          omega
      | spawnFails validBatch hf hm hpc =>
          simp only [hpc, RunPc.submitting, Event.leaked]
          omega
      | markTimeout t hm | markComplete t hm | markSignal t hm hl =>
          simp [Event.leaked]
      | cleanSignal t second now c i hm hpc =>
          simp [hpc, RunPc.submitting, Event.leaked]
      | cleanBegin second now hm hpc | cleanKeep second now c i t hm hpc _ _
      | cleanExpired second now c i t hm hpc _ _ | releaseNext t batch hm hpc
      | filterBegin now batch hm hpc | filterKeep now t batch validBatch hm hpc _
      | filterExpired now t batch validBatch hm hpc _ =>
          simp [hpc, RunPc.submitting, Event.leaked]
  | exec n hx hs =>
      obtain ⟨-, -, -, -, -, hpc, -, hexecs, -⟩ := hs.frame
      have h₁ := hs.unfinished
      have h₂ := EventSystem.sum_map_set Exec.unfinished ‹_› hx
      have hleak : e.leaked = 0 := by cases hs <;> rfl
      simp only [State.submitted, State.setExec_pc, State.setExec_execs,
        State.setExec_activeBatchCount, hpc, hexecs, hleak]
      omega
  | start hpc => simp [State.submitted, RunPc.submitting, hpc, Event.leaked]
  | stop => simp [State.submitted, Event.leaked]
  | stopPost _ => simp [State.submitted, Event.leaked]

theorem Step.activeBatchCount_eq (hc : ¬ w.createFails) (hs : Step cfg w s e s')
    (h : s.activeBatchCount = s.submitted) : s'.activeBatchCount = s'.submitted := by
  have hlaw := hs.submitted_law
  have hleak : e.leaked = 0 := by
    cases hs with
    | run hs => cases hs with
      | spawnFails _ hf _ _ => exact absurd hf hc
      | _ => rfl
    | call t hs => cases hs <;> rfl
    | exec n hx hs => cases hs <;> rfl
    | _ => rfl
  omega

/-- **The counter counts the submitted batches.** -/
theorem Runs.activeBatchCount_eq {evs : List Event} (hc : ¬ w.createFails) (h : Runs cfg w evs s) :
    s.activeBatchCount = s.submitted :=
  h.invariant_state (P := fun s => s.activeBatchCount = s.submitted) rfl
    fun _ _ _ hi hs => hs.activeBatchCount_eq hc hi

/-- The counter exceeds the limit in no state: only `submit` raises it, and `submit` was reached
with room. -/
theorem Runs.activeBatchCount_le {evs : List Event} (h : Runs cfg w evs s) :
    s.activeBatchCount ≤ cfg.maxConcurrentBatches := by
  refine h.invariant (P := fun _ s => s.activeBatchCount ≤ cfg.maxConcurrentBatches) ?_ ?_
  · exact le_trans (show (0 : ℤ) ≤ 1 by decide) cfg.maxConcurrentBatches_pos
  · intro evs s e s' hr ih hs
    cases hs with
    | call t hs => rw [hs.frame.1]; exact ih
    | run hs =>
        cases hs with
        | submit validBatch hm hpc =>
            have hroom := Runs.checked hr
            simp only [State.Checked, hpc, RunPc.Checked] at hroom
            exact hroom
        | collect batch hm hpc hb =>
            obtain ⟨rfl, rfl⟩ := eq_of_collectBatch hb
            exact ih
        | cleanSignal t second now c i hm hpc => simpa using ih
        | _ => exact ih
    | exec n hx hs =>
        exact le_trans hs.activeBatchCount_le ih
    | start _ => exact ih
    | stop => exact ih
    | stopPost _ => exact ih

/-! ### Batch sizes -/

/-- The batch that `run()` is about to submit is not empty. -/
def RunPc.Ready : RunPc → Prop
  | .submit batch | .spawn batch => batch ≠ []
  | _ => True

/-- The sizes of the batches under way: the batch in hand never grows past the collection limit,
and what is submitted and executed is not empty. -/
structure State.Sized (cfg : Config) (s : State F) : Prop where
  hand : (handOf s.pc).length ≤ cfg.batchLimit
  ready : s.pc.Ready
  execs : ∀ x ∈ s.execs, x.batch ≠ [] ∧ x.batch.length ≤ cfg.batchLimit

/-- Only a non-empty filtered batch is submitted. -/
theorem branch_ready {running : Bool} {active : ℤ} {queue : QueueClass → List TaskRef}
    {pending : ℕ} {pc pc' : RunPc} (h : pc.branch cfg running active queue pending = some pc') :
    pc'.Ready := by
  cases pc with
  | clean second now c i =>
      simp only [RunPc.branch] at h
      split at h
      · cases h
      · split at h <;> cases h
        · trivial
        · split <;> trivial
  | release b => cases b <;> cases h; trivial
  | filter now b validBatch =>
      cases b with
      | nil =>
          cases validBatch with
          | nil => cases h; trivial
          | cons t b => cases h; exact List.cons_ne_nil _ _
      | cons t b => cases h
  | sleeping | semWait _ | throttleWait _ => cases h; trivial
  | loopTest | testRunning | testIdle | testPending | testRunningSlept | throttleRunning _
  | throttleActive _ | testStop _ =>
      simp only [RunPc.branch, Option.some.injEq] at h
      subst h
      split <;> trivial
  | _ => cases h

theorem RunStep.sized (hs : RunStep cfg w s e s') (h : s.Sized cfg) : s'.Sized cfg := by
  obtain ⟨hhand, hready, hexecs⟩ := h
  cases hs with
  | branch pc' hm hb | takeToken pc' hm _ _ hb =>
      exact ⟨by simpa only [branch_handOf hb] using hhand, branch_ready hb, hexecs⟩
  | cleanBegin second now hm hpc | cleanKeep second now c i t hm hpc _ _
  | cleanExpired second now c i t hm hpc _ _ => exact ⟨Nat.zero_le _, trivial, hexecs⟩
  | collect batch hm hpc hb =>
      obtain ⟨rfl, rfl⟩ := eq_of_collectBatch hb
      refine ⟨?_, ?_, hexecs⟩
      · simp only
        split
        · exact Nat.zero_le _
        · exact List.length_take_le _ _
      · simp only
        split <;> trivial
  | releaseNext t batch hm hpc | filterExpired now t batch validBatch hm hpc _ =>
      refine ⟨?_, trivial, hexecs⟩
      simp only [hpc, handOf, List.length_append, List.length_cons] at hhand ⊢
      omega
  | filterBegin now batch hm hpc =>
      exact ⟨by simpa [hpc, handOf] using hhand, trivial, hexecs⟩
  | filterKeep now t batch validBatch hm hpc _ =>
      refine ⟨?_, trivial, hexecs⟩
      simp only [hpc, handOf, List.length_append, List.length_cons, List.length_nil] at hhand ⊢
      omega
  | submit validBatch hm hpc =>
      rw [hpc] at hhand hready
      exact ⟨hhand, hready, hexecs⟩
  | spawn validBatch hm hpc =>
      refine ⟨Nat.zero_le _, trivial, ?_⟩
      intro x hx
      rcases List.mem_append.1 hx with hx | hx
      · exact hexecs x hx
      · obtain rfl := List.mem_singleton.1 hx
        rw [hpc] at hhand hready
        exact ⟨hready, hhand⟩
  | spawnFails validBatch _ hm hpc => exact ⟨Nat.zero_le _, trivial, hexecs⟩
  | markTimeout t hm => exact ⟨hhand, hready, hexecs⟩
  | markComplete t hm => exact ⟨hhand, hready, hexecs⟩
  | markSignal t hm hl => exact ⟨hhand, hready, hexecs⟩
  | cleanSignal t second now c i hm hpc => exact ⟨Nat.zero_le _, trivial, by simpa using hexecs⟩

/-- An executor keeps its batch. -/
theorem ExecStep.batch_eq {x x' : Exec F} (h : ExecStep w s x e s' x') : x'.batch = x.batch := by
  cases h <;> rfl

theorem Step.sized (hs : Step cfg w s e s') (h : s.Sized cfg) : s'.Sized cfg := by
  cases hs with
  | call t hs =>
      obtain ⟨-, -, hpc, -, hexecs⟩ := hs.frame
      exact ⟨by rw [hpc]; exact h.hand, by rw [hpc]; exact h.ready, by rw [hexecs]; exact h.execs⟩
  | run hs => exact hs.sized h
  | exec n hx hs =>
      obtain ⟨-, -, -, -, -, hpc, -, hexecs, -⟩ := hs.frame
      refine ⟨by simpa only [State.setExec_pc, hpc] using h.hand,
        by simpa only [State.setExec_pc, hpc] using h.ready, ?_⟩
      intro y hy
      rw [State.setExec_execs, hexecs] at hy
      rcases List.mem_or_eq_of_mem_set hy with hy | rfl
      · exact h.execs y hy
      · rw [hs.batch_eq]
        exact h.execs _ (List.mem_of_getElem? hx)
  | start _ => exact ⟨Nat.zero_le _, trivial, h.execs⟩
  | stop => exact ⟨h.hand, h.ready, h.execs⟩
  | stopPost _ => exact ⟨h.hand, h.ready, h.execs⟩

theorem Runs.sized {evs : List Event} (h : Runs cfg w evs s) : s.Sized cfg := by
  refine h.invariant_state (P := State.Sized cfg) ?_ fun _ _ _ hi hs => hs.sized hi
  exact ⟨Nat.zero_le _, trivial, fun x hx => absurd hx List.not_mem_nil⟩

/-- Every batch that the engine is asked about was submitted, so its size is bounded. -/
theorem Runs.infer_sized {evs : List Event} (h : Runs cfg w evs s) {batch : List TaskRef}
    (hb : .infer batch ∈ evs) : batch ≠ [] ∧ (batch.length : ℤ) ≤ cfg.maxBatchSize := by
  obtain ⟨pre, post, s₁, s₂, -, hr, hs, -⟩ := h.split_of_mem hb
  cases hs with
  | call t hs => cases hs
  | run hs => cases hs
  | exec n hx hs =>
      cases hs with
      | converted hpc hlen =>
          obtain ⟨hne, hle⟩ := (Runs.sized hr).execs _ (List.mem_of_getElem? hx)
          have hpos : 0 < _ := List.length_pos_iff.2 hne
          refine ⟨hne, ?_⟩
          unfold Config.batchLimit at hle
          omega

/-! ### The limit -/

/-- **The concurrency limit.**  Whatever is passed to `set_max_concurrent_batches`, in every state
that the threads can reach `active_batch_count_` is the number of batches submitted and not yet
finished by `execute_batch`, and it stays between zero and the limit, which is what was passed, or
one if that is not positive; every batch that the engine is given is non-empty and has at most
`max_batch_size_` tasks. -/
theorem concurrency_limit (cfg : Config) (n : ℤ) (hc : ¬ w.createFails) {evs : List Event}
    (h : Runs (cfg.setMaxConcurrentBatches n) w evs s) :
    s.activeBatchCount = s.submitted ∧ 0 ≤ s.activeBatchCount ∧
      s.activeBatchCount ≤ (cfg.setMaxConcurrentBatches n).maxConcurrentBatches ∧
      s.activeBatchCount ≤ (if n > 0 then n else 1) ∧
      ∀ batch, .infer batch ∈ evs → batch ≠ [] ∧ (batch.length : ℤ) ≤ cfg.maxBatchSize := by
  have hcount := Runs.activeBatchCount_eq hc h
  have hle := Runs.activeBatchCount_le h
  refine ⟨hcount, ?_, hle, hle, fun batch hb => Runs.infer_sized h hb⟩
  rw [hcount]
  exact Int.natCast_nonneg _

/-- With the limit that `set_max_concurrent_batches(0)` leaves, a first batch is in the engine. -/
theorem concurrency_limit_first : ∃ (evs : List Event) (s : State ℤ),
    Runs (({} : Config).setMaxConcurrentBatches 0) (mockWorld {} fun _ => []) evs s ∧
      .infer [0] ∈ evs ∧ s.activeBatchCount = 1 ∧ s.activeBatchCount = s.submitted ∧
      s.activeBatchCount ≤ 1 ∧ (([0] : List TaskRef).length : ℤ) ≤ 8 := by
  obtain ⟨evs, h, hmem⟩ := run_inferring (({} : Config).setMaxConcurrentBatches 0)
    (mockWorld {} fun _ : ℤ => []) (by decide) [] [3] 1 101 7 0 100 (by decide)
  obtain ⟨hcount, -, -, hle, hbatch⟩ := concurrency_limit {} 0 id h
  exact ⟨evs, _, h, hmem, rfl, hcount, hle, (hbatch _ hmem).2⟩

end Gateway.Sched
