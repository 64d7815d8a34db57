/-
**What a failure after collection leaves behind.**

Once `run()` has counted a batch, only the end of `execute_batch` wakes its workers and gives its
slot back.  Two failures lie in between: `pthread_create` may return an error, which `run()`
ignores, and `infer_batch` may leave by an exception, which nobody catches.  In both cases the
cleanup is never made up for.  This module follows a failed batch through every continuation of
its run.

Main definitions:

* `Gateway.Sched.State.Failed` — a batch that failed, in either way;
* `Gateway.Sched.State.working`, `Gateway.Sched.State.failures` — the batches on their way to the
  end of `execute_batch`, and those that will never get there;
* `Gateway.Sched.State.Released` — some continuation marks every task of a batch done as failed and
  takes the slot back.

Main results:

* `Gateway.Sched.Runs.slots` — **every slot is in use or lost**;
* `Gateway.Sched.Runs.failed_not_done` — no task of a failed batch is ever marked done;
* `Gateway.Sched.Runs.not_submitting` — after as many failures as there are slots no batch is
  submitted any more;
* `Gateway.Sched.failure_never_released` — the results together.
-/

import InferenceGateway.SchedulerOutcome

set_option relaxedAutoImplicit false
set_option autoImplicit false

namespace Gateway.Sched

open EventSystem (Run total)

variable {F : Type} {cfg : Config} {w : World F} {s s' : State F} {e : Event}
  {evs evs' : List Event} {batch : List TaskRef}

/-! ### Failed batches -/

/-- A batch failed after it was collected: its thread could not be created, or the engine left
`infer_batch` by an exception. -/
def State.Failed (evs : List Event) (s : State F) (batch : List TaskRef) : Prop :=
  .leak batch ∈ evs ∨ ∃ x ∈ s.execs, x.pc = .threw ∧ x.batch = batch

/-- The thread of an executor ended with an exception. -/
def Exec.threw (x : Exec F) : Bool := decide (x.pc = .threw)

/-- `execute_batch` has its slot and is on its way to give it back. -/
def Exec.working (x : Exec F) : ℕ :=
  match x.pc with
  | .post | .finished | .threw => 0
  | _ => 1

/-- The batches that hold a slot and are on their way to give it back. -/
def State.working (s : State F) : ℕ := s.pc.submitting + (s.execs.map Exec.working).sum

/-- The batches that failed, in either way. -/
def State.failures (evs : List Event) (s : State F) : ℕ :=
  total Event.leaked evs + s.execs.countP Exec.threw

/-! ### Slots -/

theorem Exec.unfinished_eq (x : Exec F) : x.unfinished = x.working + x.threw.toNat := by
  obtain ⟨b, pc, inputs, results, i⟩ := x
  cases pc <;> rfl

theorem sum_unfinished (l : List (Exec F)) :
    (l.map Exec.unfinished).sum = (l.map Exec.working).sum + l.countP Exec.threw := by
  induction l with
  | nil => rfl
  | cons x l ih =>
      have hx := x.unfinished_eq
      rw [List.map_cons, List.sum_cons, List.map_cons, List.sum_cons, List.countP_cons, ih]
      cases ht : x.threw <;> simp only [ht, Bool.toNat_false, Bool.toNat_true] at hx <;>
        simp only [Bool.false_eq_true, if_false, if_true] <;> omega

/-- The counter is the number of submitted batches, unfinished or leaked. -/
theorem Runs.submitted_law (h : Runs cfg w evs s) :
    s.activeBatchCount = ((s.submitted + total Event.leaked evs : ℕ) : ℤ) := by
  refine h.invariant
    (P := fun evs s => s.activeBatchCount = ((s.submitted + total Event.leaked evs : ℕ) : ℤ))
    rfl ?_
  intro evs s e s' _ ih hs
  have hlaw := hs.submitted_law
  rw [EventSystem.total_snoc]
  push_cast
  omega

/-- **Every slot is in use or lost.** -/
theorem Runs.slots (h : Runs cfg w evs s) :
    s.activeBatchCount = ((s.working + s.failures evs : ℕ) : ℤ) := by
  have hlaw := Runs.submitted_law h
  have hsum := sum_unfinished s.execs
  simp only [State.submitted, State.working, State.failures] at hlaw ⊢
  omega

/-! ### Failures last -/

/-- An executor whose thread is gone takes no step. -/
theorem ExecStep.not_threw {x x' : Exec F} (h : ExecStep w s x e s' x') : x.pc ≠ .threw := by
  cases h <;> simp_all

/-- Such an executor stays where it is. -/
theorem Step.mem_threw (hs : Step cfg w s e s') {x : Exec F} (hx : x ∈ s.execs)
    (ht : x.pc = .threw) : x ∈ s'.execs := by
  cases hs with
  | call t hs =>
      obtain ⟨-, -, -, -, hexecs⟩ := hs.frame
      rwa [hexecs]
  | run hs =>
      cases hs with
      | collect b hm hpc hb =>
          obtain ⟨rfl, rfl⟩ := eq_of_collectBatch hb
          exact hx
      | spawn b hm hpc => exact List.mem_append_left _ hx
      | cleanSignal t second now c i hm hpc => simpa using hx
      | _ => exact hx
  | exec n hy hs =>
      obtain ⟨-, -, -, -, -, -, -, hexecs, -⟩ := hs.frame
      obtain ⟨m, hm⟩ := List.getElem?_of_mem hx
      have hne : n ≠ m := by
        rintro rfl
        obtain rfl : x = _ := Option.some.inj (hm.symm.trans hy)
        exact hs.not_threw ht
      rw [State.setExec_execs, hexecs]
      exact List.mem_of_getElem? (by rwa [List.getElem?_set_ne hne])
  | start _ => exact hx
  | stop => exact hx
  | stopPost _ => exact hx

/-- A step adds failures and takes none away. -/
theorem Step.countP_threw (hs : Step cfg w s e s') :
    s.execs.countP Exec.threw ≤ s'.execs.countP Exec.threw := by
  cases hs with
  | call t hs =>
      obtain ⟨-, -, -, -, hexecs⟩ := hs.frame
      rw [hexecs]
  | run hs =>
      cases hs with
      | collect b hm hpc hb =>
          obtain ⟨rfl, rfl⟩ := eq_of_collectBatch hb
          exact le_rfl
      | spawn b hm hpc => simp
      | cleanSignal t second now c i hm hpc => simp
      | _ => exact le_rfl
  | exec n hx hs =>
      obtain ⟨-, -, -, -, -, -, -, hexecs, -⟩ := hs.frame
      have hset := EventSystem.countP_set Exec.threw ‹_› hx
      have hnot : Exec.threw _ = false := decide_eq_false hs.not_threw
      rw [hnot, Bool.toNat_false] at hset
      rw [State.setExec_execs, hexecs]
      omega
  | start _ => exact le_rfl
  | stop => exact le_rfl
  | stopPost _ => exact le_rfl

theorem Step.failures_le (hs : Step cfg w s e s') :
    s.failures evs ≤ s'.failures (evs ++ [e]) := by
  have := hs.countP_threw
  simp only [State.failures, EventSystem.total_snoc]
  omega

/-- **A failed batch stays failed**, and its failure stays counted. -/
theorem State.Failed.run (hf : s.Failed evs batch) (hr : Run (Step cfg w) s evs' s') :
    s'.Failed (evs ++ evs') batch := by
  induction hr with
  | nil => simpa using hf
  | snoc _ hs ih =>
      rw [← List.append_assoc]
      rcases ih with hleak | ⟨x, hx, ht, hb⟩
      · exact .inl (List.mem_append_left _ hleak)
      · exact .inr ⟨x, hs.mem_threw hx ht, ht, hb⟩

theorem failures_le_run (evs : List Event) (hr : Run (Step cfg w) s evs' s') :
    s.failures evs ≤ s'.failures (evs ++ evs') := by
  induction hr with
  | nil => simp
  | snoc _ hs ih =>
      rw [← List.append_assoc]
      exact ih.trans hs.failures_le

theorem State.Failed.failures_pos (hf : s.Failed evs batch) : 0 < s.failures evs := by
  rcases hf with hleak | ⟨x, hx, ht, -⟩
  · exact Nat.add_pos_left (EventSystem.total_pos hleak Nat.one_pos) _
  · have hpos : 0 < s.execs.countP Exec.threw :=
      List.countP_pos_iff.2 ⟨x, hx, decide_eq_true ht⟩
    exact Nat.add_pos_right _ hpos

/-! ### The tasks of a failed batch -/

/-- A failed batch has tasks. -/
theorem Runs.failed_ne_nil (h : Runs cfg w evs s) (hf : s.Failed evs batch) : batch ≠ [] := by
  rcases hf with hleak | ⟨x, hx, -, rfl⟩
  · obtain ⟨pre, post, s₁, s₂, -, hr, hs, -⟩ := h.split_of_mem hleak
    cases hs with
    | call t hs => cases hs
    | exec n hx hs => cases hs
    | run hs =>
        cases hs with
        | spawnFails _ _ hm hpc =>
            have hready := (Runs.sized hr).ready
            rw [hpc] at hready
            exact hready
  · exact ((Runs.sized h).execs x hx).1

/-- An executor whose thread is gone owes no signal, nor does anybody else owe one to its tasks. -/
theorem Runs.not_owing_of_threw (h : Runs cfg w evs s) {x : Exec F} (hx : x ∈ s.execs)
    (hpc : x.pc = .threw) {t : TaskRef} (ht : t ∈ x.batch) : t ∉ s.owing := by
  obtain ⟨n, hn⟩ := List.getElem?_of_mem hx
  have hheld : t ∈ s.execs.flatMap Exec.held :=
    List.mem_flatMap.2 ⟨x, hx, by simpa [Exec.held, hpc] using ht⟩
  intro howing
  rcases List.mem_append.1 howing with hmark | hexec
  -- the mark of `run()` is at a task of its own
  · have hm : s.mark = some (t, .signal) := by
      split at hmark
      · next u hm => rwa [List.mem_singleton.1 hmark]
      · cases hmark
    exact (List.nodup_append.1 (Runs.placed_nodup h)).2.2 t
      (mem_of_mark (Runs.iteratorOk h) hm) t hheld rfl
  -- another executor has other tasks
  · obtain ⟨y, hy, hty⟩ := List.mem_flatMap.1 hexec
    obtain ⟨m, hm⟩ := List.getElem?_of_mem hy
    have hybatch : t ∈ y.batch := by
      unfold Exec.owing at hty
      split at hty
      · exact List.mem_of_getElem? (Option.mem_toList.1 hty)
      · cases hty
    obtain rfl := Runs.exec_eq_of_mem h hn hm ht hybatch
    obtain rfl : x = y := Option.some.inj (hn.symm.trans hm)
    simp [Exec.owing, hpc] at hty

/-- **No task of a failed batch is marked done**, though `enqueue` accepted it: the release of a
leaked task is used up by the leak, and a task of an executor whose thread is gone stays in it. -/
theorem Runs.failed_not_done (h : Runs cfg w evs s) (hf : s.Failed evs batch) {t : TaskRef}
    (ht : t ∈ batch) : .accept t ∈ evs ∧ .markDone t ∉ evs := by
  have hplaced := Runs.placed_law h t
  have hone := Runs.accept_law h t
  have hmark := Runs.markDone_law h t
  have hloss := total_loss_eq t evs
  rcases hf with hleak | ⟨x, hx, hpc, rfl⟩
  · have hpos : 0 < total (Event.leakOf t) evs :=
      EventSystem.total_pos hleak (List.count_pos_iff.2 ht)
    have howing := count_owing_le (Runs.iteratorOk h) t
    exact ⟨List.count_pos_iff.1 (by omega), List.count_eq_zero.1 (by omega)⟩
  · have hpos : 0 < s.placed.count t := List.count_pos_iff.2 (List.mem_append_right _
      (List.mem_flatMap.2 ⟨x, hx, by simpa [Exec.held, hpc] using ht⟩))
    have howing : s.owing.count t = 0 :=
      List.count_eq_zero.2 (Runs.not_owing_of_threw h hx hpc ht)
    exact ⟨List.count_pos_iff.1 (by omega), List.count_eq_zero.1 (by omega)⟩

/-! ### No slot is left -/

/-- `run()` stands between its check for a free slot and the creation of a thread. -/
def RunPc.Submitting : RunPc → Prop
  | .filterClock _ | .filter .. | .submit _ | .spawn _ => True
  | _ => False

/-- **After as many failures as there are slots no batch is submitted any more.** -/
theorem Runs.not_submitting (h : Runs cfg w evs s)
    (hf : cfg.maxConcurrentBatches ≤ s.failures evs) : ¬ s.pc.Submitting := by
  have hslots := Runs.slots h
  have hchecked := Runs.checked h
  have hle := Runs.activeBatchCount_le h
  intro hpc
  unfold State.working at hslots
  unfold State.Checked at hchecked
  cases hp : s.pc with
  | filterClock b | filter now b v | submit b =>
      simp only [hp, RunPc.Checked] at hchecked
      omega
  | spawn b =>
      simp only [hp, RunPc.submitting] at hslots
      omega
  | _ => simp [hp, RunPc.Submitting] at hpc

/-! ### Release -/

/-- What a failed batch should come to: in some continuation every task of it is marked done as a
failure and only the batches at work have slots. -/
def State.Released (cfg : Config) (w : World F) (evs : List Event) (s : State F)
    (batch : List TaskRef) : Prop :=
  ∃ evs' s', Run (Step cfg w) s evs' s' ∧
    (∀ t ∈ batch, .markDone t ∈ evs ++ evs' ∧ (s'.tasks t).success = false) ∧
    s'.activeBatchCount = s'.working

/-- A failed batch is not released. -/
theorem Runs.not_released (h : Runs cfg w evs s) (hf : s.Failed evs batch) :
    ¬ s.Released cfg w evs batch := by
  rintro ⟨evs', s', hr, hdone, -⟩
  have hr' : Runs cfg w (evs ++ evs') s' := h.trans hr
  obtain ⟨t, ht⟩ := List.exists_mem_of_ne_nil _ (Runs.failed_ne_nil h hf)
  exact (Runs.failed_not_done hr' (hf.run hr) ht).2 (hdone t ht).1

/-- **`pthread_create` fails** for the first batch: its task is never marked done, and the only
slot stays taken. -/
theorem create_fails_unreleased : ¬ ∀ (evs : List Event) (s : State ℤ) (batch : List TaskRef),
    Runs { maxConcurrentBatches := 1 }
      { mockWorld {} fun _ : ℤ => [] with createFails := True } evs s →
    s.Failed evs batch →
    s.Released { maxConcurrentBatches := 1 }
      { mockWorld {} fun _ : ℤ => [] with createFails := True } evs batch := by
  intro hall
  have h : Runs { maxConcurrentBatches := 1 }
    { mockWorld {} fun _ : ℤ => [] with createFails := True } _ _ := Run.single (.start rfl)
  obtain ⟨evs₁, h⟩ := run_idle (s := { (State.init : State ℤ) with running := true }) 0 h rfl rfl
    rfl rfl rfl rfl
  have h := h.snoc (.call 0 (.construct 0 [] [3] 1 101 7 rfl fun u hu => hu.elim))
  have h := h.snoc (.call 0 (.accept 100 rfl trivial rfl))
  have h := h.snoc (.run (.collect [0] rfl rfl rfl))
  have h := h.snoc (.run (.branch _ rfl rfl))
  have h := h.snoc (.run (.branch _ rfl rfl))
  have h := h.snoc (.run (.branch _ rfl rfl))
  have h := h.snoc (.run (.filterBegin 100 [0] rfl rfl))
  have h := h.snoc (.run (.filterKeep 100 0 [] [] rfl rfl rfl))
  have h := h.snoc (.run (.branch _ rfl rfl))
  have h := h.snoc (.run (.submit [0] rfl rfl))
  have h := h.snoc (.run (.spawnFails [0] trivial rfl rfl))
  have hleak : ∀ evs : List Event, .leak [0] ∈ evs ++ [.leak [0]] := fun evs =>
    List.mem_append_right _ (List.mem_singleton_self _)
  exact Runs.not_released h (.inl (hleak _)) (hall _ _ _ h (.inl (hleak _)))

/-- **A failure after collection releases nothing.**  Over every interleaving, a batch whose thread
could not be created or whose engine call ended with an exception is released in no continuation of
the run: none of its tasks, all of which `enqueue` accepted, is ever marked done; every later value
of `active_batch_count_` counts the failed batches besides those at work; and once there were as
many failures as slots no batch is submitted any more.  So failed batches are released in a run
exactly when there are none. -/
theorem failure_never_released (h : Runs cfg w evs s) :
    ((∀ batch, s.Failed evs batch → s.Released cfg w evs batch) ↔
        ∀ batch, ¬ s.Failed evs batch) ∧
      ∀ batch, s.Failed evs batch → batch ≠ [] ∧ ¬ s.Released cfg w evs batch ∧
        ∀ evs' s', Run (Step cfg w) s evs' s' →
          (∀ t ∈ batch, .accept t ∈ evs ++ evs' ∧ .markDone t ∉ evs ++ evs') ∧
          s'.activeBatchCount = ((s'.working + s'.failures (evs ++ evs') : ℕ) : ℤ) ∧
          0 < s'.failures (evs ++ evs') ∧
          (cfg.maxConcurrentBatches ≤ s.failures evs → ¬ s'.pc.Submitting) := by
  refine ⟨⟨fun hall batch hf => Runs.not_released h hf (hall batch hf),
    fun hnone batch hf => absurd hf (hnone batch)⟩, fun batch hf =>
    ⟨Runs.failed_ne_nil h hf, Runs.not_released h hf, fun evs' s' hr => ?_⟩⟩
  have hr' : Runs cfg w (evs ++ evs') s' := h.trans hr
  have hf' : s'.Failed (evs ++ evs') batch := hf.run hr
  have hmono := failures_le_run evs hr
  exact ⟨fun t ht => Runs.failed_not_done hr' hf' ht, Runs.slots hr', hf'.failures_pos,
    fun hlimit => Runs.not_submitting hr' (by omega)⟩

/-- The engine throws on the first batch: the counter stays at one in every continuation, and with
one slot nothing is submitted after it. -/
theorem failure_never_released_throws : ∃ (evs : List Event) (s : State ℤ),
    Runs { maxConcurrentBatches := 1 }
      { mockWorld {} fun _ : ℤ => [] with throws := fun _ => True } evs s ∧
    s.Failed evs [0] ∧
    ∀ evs' s', Run (Step { maxConcurrentBatches := 1 }
      { mockWorld {} fun _ : ℤ => [] with throws := fun _ => True }) s evs' s' →
        .markDone 0 ∉ evs ++ evs' ∧ ¬ s'.pc.Submitting := by
  obtain ⟨evs, h, -⟩ := run_inferring { maxConcurrentBatches := 1 }
    { mockWorld {} fun _ : ℤ => [] with throws := fun _ => True } (by decide) [] [3] 1 101 7 0 100
    (by decide)
  obtain ⟨s, h, hf⟩ : ∃ s, Runs _ _ (evs ++ [.abort]) s ∧ s.Failed (evs ++ [.abort]) [0] :=
    ⟨_, h.snoc (.exec 0 rfl (.throws rfl trivial)), .inr ⟨_, List.mem_cons_self, rfl, rfl⟩⟩
  refine ⟨_, s, h, hf, fun evs' s' hr => ?_⟩
  obtain ⟨hdone, -, -, hsub⟩ := ((failure_never_released h).2 [0] hf).2.2 evs' s' hr
  exact ⟨(hdone 0 List.mem_cons_self).2, hsub (Int.ofNat_le.2 hf.failures_pos)⟩

end Gateway.Sched
