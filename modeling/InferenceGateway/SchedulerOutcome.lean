/-
**Batch isolation: every task gets its own result.**

`execute_batch` builds one input per task, asks the engine once, and writes result `i` into task
`i`.  Three loops over one batch stay aligned because the batch of an executor never changes, no
task occurs in it twice, and no other executor has it.  The last two facts are conservation again,
read with the executing batches at their full length.

Main definitions:

* `Gateway.Sched.Exec.answered`, `Gateway.Sched.Exec.wrote`, `Gateway.Sched.Exec.marked` — how far
  an executor has come;
* `Gateway.Sched.Exec.Routed` — the alignment of the three loops.

Main results:

* `Gateway.Sched.Runs.batches_nodup` — no task belongs to two batches, or to one twice;
* `Gateway.Sched.Runs.routed` — the alignment holds of every executor of every run;
* `Gateway.Sched.Runs.success_written` — a success comes from an executor;
* `Gateway.Sched.batch_routing` — **routing**, with its consequence for the mock engine.
-/

import InferenceGateway.SchedulerPlace
import InferenceGateway.SchedulerReplay

set_option relaxedAutoImplicit false
set_option autoImplicit false

namespace Gateway.Sched

open InferenceTask (outcomeOf)

variable {F : Type} {cfg : Config} {w : World F} {s s' : State F} {e : Event} {evs : List Event}

/-! ### No task is in two batches -/

/-- The tasks of the scheduler side, with the executing batches at their full length. -/
abbrev State.batched (s : State F) : List TaskRef := s.holding Exec.batch

theorem Step.count_batched (hi : s.IteratorOk) (hs : Step cfg w s e s') (u : TaskRef) :
    s'.batched.count u ≤ s.batched.count u + e.gain u := by
  cases hs with
  | call t h =>
      have := h.count_holding (h := Exec.batch) u
      simp only [State.batched]
      omega
  | run h =>
      have := h.count_holding (h := Exec.batch) (fun _ => rfl) hi u
      simp only [State.batched]
      omega
  | exec n hx h =>
      have := count_holding_setExec (h := Exec.batch) hx h u
      simp only [State.batched, h.batch_eq] at this ⊢
      omega
  | start hpc =>
      simp [State.holding, State.inHand, State.pending, Event.gain, hpc, handOf, markingOf]
  | stop => exact Nat.le_add_right _ _
  | stopPost _ => exact Nat.le_add_right _ _

theorem Runs.batched_law (h : Runs cfg w evs s) (u : TaskRef) :
    s.batched.count u ≤ evs.count (.accept u) := by
  have := h.exhaust (fun s => s.batched.count u) (Event.gain u) (fun _ => 0)
    fun evs s e s' hr hs => by
      simpa using hs.count_batched (Runs.iteratorOk hr) u
  rw [← EventSystem.total_eq_count (gain_eq u)]
  simpa using this

/-- **No task belongs to two batches, or to one batch twice**, not even after it was finished. -/
theorem Runs.batches_nodup (h : Runs cfg w evs s) : s.batched.Nodup := by
  rw [List.nodup_iff_count_le_one]
  intro u
  have h₁ := Runs.batched_law h u
  have h₂ := Runs.accept_law h u
  omega

section Batches

variable {n m : ℕ} {x y : Exec F}

theorem mem_batched (hx : s.execs[n]? = some x) {t : TaskRef} (ht : t ∈ x.batch) : t ∈ s.batched :=
  List.mem_append_right _ (List.mem_flatMap.2 ⟨x, List.mem_of_getElem? hx, ht⟩)

/-- The tasks of an executor were accepted, so their requests are fixed. -/
theorem Runs.acceptable_of_mem_batch (h : Runs cfg w evs s) (hx : s.execs[n]? = some x)
    {t : TaskRef} (ht : t ∈ x.batch) : s.acceptable t = 0 := by
  have h₁ := Runs.batched_law h t
  have h₂ : 0 < s.batched.count t := List.count_pos_iff.2 (mem_batched hx ht)
  exact Runs.acceptable_of_accepted h (List.count_pos_iff.1 (by omega))

theorem Runs.batch_nodup (h : Runs cfg w evs s) (hx : s.execs[n]? = some x) : x.batch.Nodup := by
  have := (List.nodup_append.1 (Runs.batches_nodup h)).2.1
  exact (List.nodup_flatMap.1 this).1 x (List.mem_of_getElem? hx)

/-- Two executors have no task in common. -/
theorem Runs.exec_eq_of_mem (h : Runs cfg w evs s) (hx : s.execs[n]? = some x)
    (hy : s.execs[m]? = some y) {t : TaskRef} (ht : t ∈ x.batch) (ht' : t ∈ y.batch) : n = m := by
  refine EventSystem.eq_of_count_flatMap_le_one Exec.batch ?_ hx hy ht ht'
  have := (List.nodup_append.1 (Runs.batches_nodup h)).2.1
  exact List.nodup_iff_count_le_one.1 this t

end Batches

/-! ### How far an executor has come -/

namespace Exec

/-- The engine has returned. -/
def answered (x : Exec F) : Prop :=
  match x.pc with
  | .enter | .convert | .infer | .threw => False
  | _ => True

/-- How many results have been written back. -/
def wrote (x : Exec F) : ℕ :=
  match x.pc with
  | .write => x.i
  | .complete | .signal => x.i + 1
  | .release _ | .post | .finished => x.batch.length
  | _ => 0

/-- How many tasks have been marked done. -/
def marked (x : Exec F) : ℕ :=
  match x.pc with
  | .write | .complete => x.i
  | .signal => x.i + 1
  | .release _ | .post | .finished => x.batch.length
  | _ => 0

/-- **The alignment of the three loops** of `execute_batch`. -/
structure Routed (w : World F) (evs : List Event) (s : State F) (x : Exec F) : Prop where
  inputs : x.inputs = s.inputsOf (x.batch.take x.inputs.length)
  converted : x.pc ≠ .enter → x.pc ≠ .convert → x.batch.length ≤ x.inputs.length
  returned : x.answered → w.inferBatch x.inputs x.results
  outcome : ∀ j t, j < x.wrote → x.batch[j]? = some t →
    (s.tasks t).outcome = outcomeOf x.results[j]?
  done : ∀ j t, j < x.marked → x.batch[j]? = some t → .markDone t ∈ evs
  busy : x.pc ≠ .release false

end Exec

/-- A step changes the outcome of an accepted task only by writing its result. -/
theorem Step.outcome (hs : Step cfg w s e s') {t : TaskRef} (ha : s.acceptable t = 0)
    (hw : e ≠ .writeResult t) : (s'.tasks t).outcome = (s.tasks t).outcome := by
  have hmove := hs.taskMove t
  generalize s'.tasks t = y at hmove ⊢
  cases hmove with
  | construct _ _ _ _ _ hc => simp [State.acceptable, hc] at ha
  | writeResult r => exact absurd rfl hw
  | _ => rfl

theorem inputsOf_congr {batch : List TaskRef}
    (h : ∀ t ∈ batch, (s'.tasks t).request = (s.tasks t).request) :
    s'.inputsOf batch = s.inputsOf batch :=
  List.map_congr_left fun t ht => InferenceTask.toInput_congr (h t ht)

theorem inputsOf_modify (s : State F) (u : TaskRef) {f : InferenceTask F → InferenceTask F}
    (hf : ∀ y, (f y).request = y.request) (batch : List TaskRef) :
    (s.modify u f).inputsOf batch = s.inputsOf batch := by
  refine inputsOf_congr fun t _ => ?_
  by_cases htu : t = u
  · subst htu
    simpa using hf (s.tasks t)
  · simp [Function.update_of_ne htu]

/-- What another thread does leaves an executor routed. -/
theorem Exec.Routed.frame {x : Exec F} {n : ℕ} (hr : Runs cfg w evs s) (hs : Step cfg w s e s')
    (hx : s.execs[n]? = some x) (he : ∀ t ∈ x.batch, e ≠ .writeResult t)
    (h : x.Routed w evs s) : x.Routed w (evs ++ [e]) s' where
  inputs := by
    rw [inputsOf_congr fun t ht =>
      hs.request (Runs.acceptable_of_mem_batch hr hx (List.mem_of_mem_take ht))]
    exact h.inputs
  converted := h.converted
  returned := h.returned
  outcome j t hj ht := by
    have hmem := List.mem_of_getElem? ht
    rw [hs.outcome (Runs.acceptable_of_mem_batch hr hx hmem) (he t hmem)]
    exact h.outcome j t hj ht
  done j t hj ht := List.mem_append_left _ (h.done j t hj ht)
  busy := h.busy

/-- A new executor is routed. -/
theorem Exec.Routed.new (w : World F) (evs : List Event) (s : State F) (batch : List TaskRef) :
    ({ batch := batch } : Exec F).Routed w evs s where
  inputs := by simp [State.inputsOf]
  converted h := absurd rfl h
  returned h := h.elim
  outcome j t hj := absurd hj (Nat.not_lt_zero j)
  done j t hj := absurd hj (Nat.not_lt_zero j)
  busy := by simp

namespace Exec.Routed

variable {x : Exec F} {u : TaskRef}

theorem inputs_complete (h : x.Routed w evs s) (hans : x.answered) :
    x.batch.length ≤ x.inputs.length := by
  refine h.converted ?_ ?_
  · intro hpc
    simp [Exec.answered, hpc] at hans
  · intro hpc
    simp [Exec.answered, hpc] at hans

/-- The task of another place in the batch stays as it is. -/
theorem update_of_ne (hnodup : x.batch.Nodup) {k j : ℕ} {t : TaskRef} {y : InferenceTask F}
    (hkj : k ≠ j) (hu : x.batch[k]? = some u) (ht : x.batch[j]? = some t) :
    Function.update s.tasks u y t = s.tasks t := by
  refine Function.update_of_ne ?_ _ _
  rintro rfl
  obtain ⟨hk, hk'⟩ := List.getElem?_eq_some_iff.1 hu
  obtain ⟨hj, hj'⟩ := List.getElem?_eq_some_iff.1 ht
  exact hkj ((List.Nodup.getElem_inj_iff hnodup).1 (hk'.trans hj'.symm))

/-- One input is converted. -/
theorem convert (h : x.Routed w evs s) (hpc : x.pc = .convert)
    (hu : x.batch[x.inputs.length]? = some u) :
    ({ x with inputs := x.inputs ++ [(s.tasks u).toInput] } : Exec F).Routed w
      (evs ++ [.readInput u]) s where
  inputs := by
    have htake : x.batch.take (x.inputs.length + 1) = x.batch.take x.inputs.length ++ [u] := by
      rw [List.take_add_one, hu]
      rfl
    simp only [List.length_append, List.length_singleton, htake, State.inputsOf,
      List.map_append, List.map_singleton]
    rw [← State.inputsOf, ← h.inputs]
  converted _ h' := absurd hpc h'
  returned := by simp [Exec.answered, hpc]
  outcome := by simp [Exec.wrote, hpc]
  done := by simp [Exec.marked, hpc]
  busy := by simp [hpc]

/-- The executor goes on where nothing has been written yet. -/
theorem early (h : x.Routed w evs s) {pc : ExecPc} {results : List (InferenceResult F)} {i : ℕ}
    (hconv : pc ≠ .enter → pc ≠ .convert → x.batch.length ≤ x.inputs.length)
    (hret : ({ x with pc := pc, results := results, i := i } : Exec F).answered →
      w.inferBatch x.inputs results)
    (hwrote : ({ x with pc := pc, results := results, i := i } : Exec F).wrote = 0)
    (hmarked : ({ x with pc := pc, results := results, i := i } : Exec F).marked = 0)
    (hbusy : pc ≠ .release false) :
    ({ x with pc := pc, results := results, i := i } : Exec F).Routed w (evs ++ [e]) s where
  inputs := h.inputs
  converted := hconv
  returned := hret
  outcome j _ hj := absurd (hwrote ▸ hj) (Nat.not_lt_zero j)
  done j _ hj := absurd (hmarked ▸ hj) (Nat.not_lt_zero j)
  busy := hbusy

/-- The executor goes on behind the engine, and writes to no task. -/
theorem onward (h : x.Routed w evs s) (hans : x.answered) (htasks : s'.tasks = s.tasks)
    {pc : ExecPc} {i : ℕ} (hwrote : ({ x with pc := pc, i := i } : Exec F).wrote ≤ x.wrote)
    (hmarked : ({ x with pc := pc, i := i } : Exec F).marked ≤ x.marked)
    (hbusy : pc ≠ .release false) :
    ({ x with pc := pc, i := i } : Exec F).Routed w (evs ++ [e]) s' where
  inputs := by
    rw [State.inputsOf, htasks]
    exact h.inputs
  converted _ _ := h.inputs_complete hans
  returned _ := h.returned hans
  outcome j t hj ht := by
    rw [htasks]
    exact h.outcome j t (lt_of_lt_of_le hj hwrote) ht
  done j t hj ht := List.mem_append_left _ (h.done j t (lt_of_lt_of_le hj hmarked) ht)
  busy := hbusy

/-- A result is written back. -/
theorem writeBack (h : x.Routed w evs s) (hnodup : x.batch.Nodup) (hpc : x.pc = .write)
    (hu : x.batch[x.i]? = some u) :
    ({ x with pc := .complete } : Exec F).Routed w (evs ++ [.writeResult u])
      (s.modify u fun y => y.writeBack x.results[x.i]?) where
  inputs := by
    rw [inputsOf_modify _ _ fun y => InferenceTask.request_writeBack y _]
    exact h.inputs
  converted _ _ := h.inputs_complete (by simp [Exec.answered, hpc])
  returned _ := h.returned (by simp [Exec.answered, hpc])
  outcome j t hj ht := by
    simp only [Exec.wrote] at hj
    simp only [State.modify_tasks]
    by_cases hij : x.i = j
    · subst hij
      obtain rfl : u = t := by simpa [hu] using ht
      simp
    · rw [update_of_ne hnodup hij hu ht]
      exact h.outcome j t (by simp only [Exec.wrote, hpc]; omega) ht
  done j t hj ht :=
    List.mem_append_left _ (h.done j t (by simpa only [Exec.marked, hpc] using hj) ht)
  busy := by simp

/-- A task is marked done. -/
theorem complete (h : x.Routed w evs s) (hnodup : x.batch.Nodup) (hpc : x.pc = .complete)
    (hu : x.batch[x.i]? = some u) :
    ({ x with pc := .signal } : Exec F).Routed w (evs ++ [.markDone u])
      (s.modify u fun y => { y with completed := true }) where
  inputs := by
    rw [inputsOf_modify]
    · exact h.inputs
    · exact fun _ => rfl
  converted _ _ := h.inputs_complete (by simp [Exec.answered, hpc])
  returned _ := h.returned (by simp [Exec.answered, hpc])
  outcome j t hj ht := by
    have hout := h.outcome j t (by simpa only [Exec.wrote, hpc] using hj) ht
    simp only [State.modify_tasks]
    by_cases hij : x.i = j
    · subst hij
      obtain rfl : u = t := by simpa [hu] using ht
      simpa [InferenceTask.outcome] using hout
    · rw [update_of_ne hnodup hij hu ht]
      exact hout
  done j t hj ht := by
    simp only [Exec.marked] at hj
    by_cases hij : x.i = j
    · subst hij
      obtain rfl : u = t := by simpa [hu] using ht
      exact List.mem_append_right _ (List.mem_singleton_self _)
    · exact List.mem_append_left _
        (h.done j t (by simp only [Exec.marked, hpc]; omega) ht)
  busy := by simp

end Exec.Routed

/-- **The steps of an executor keep it routed.** -/
theorem ExecStep.routed {x x' : Exec F} (hs : ExecStep w s x e s' x') (hne : x.batch ≠ [])
    (hnodup : x.batch.Nodup) (h : x.Routed w evs s) : x'.Routed w (evs ++ [e]) s' := by
  cases hs with
  | empty hpc hb => exact absurd hb hne
  | enter hpc hb => exact h.early (fun _ h => absurd rfl h) (fun h => h.elim) rfl rfl (by simp)
  | convert t hpc ht => exact h.convert hpc ht
  | converted hpc hlen => exact h.early (fun _ _ => hlen) (fun h => h.elim) rfl rfl (by simp)
  | returns results hpc hres =>
      have hconv := h.converted (by simp [hpc]) (by simp [hpc])
      exact h.early (fun _ _ => hconv) (fun _ => hres) rfl rfl (by simp)
  | throws hpc hthrow =>
      have hconv := h.converted (by simp [hpc]) (by simp [hpc])
      exact h.early (fun _ _ => hconv) (fun h => h.elim) rfl rfl (by simp)
  | write u hpc hu => exact h.writeBack hnodup hpc hu
  | complete u hpc hu => exact h.complete hnodup hpc hu
  | signal u hpc hu =>
      exact h.onward (by simp [Exec.answered, hpc]) rfl (by simp [Exec.wrote, hpc])
        (by simp [Exec.marked, hpc]) (by simp)
  | written hpc hlen =>
      exact h.onward (by simp [Exec.answered, hpc]) rfl (by simpa [Exec.wrote, hpc] using hlen)
        (by simpa [Exec.marked, hpc] using hlen) (by simp)
  | release notify hpc hl =>
      cases notify with
      | false => exact absurd hpc h.busy
      | true =>
          refine h.onward (by simp [Exec.answered, hpc]) ?_ ?_ ?_ ?_
          · rfl
          · simp [Exec.wrote, hpc]
          · simp [Exec.marked, hpc]
          · simp
  | post hpc =>
      refine h.onward (by simp [Exec.answered, hpc]) ?_ ?_ ?_ ?_
      · rfl
      · simp [Exec.wrote, hpc]
      · simp [Exec.marked, hpc]
      · simp

/-- **Every executor of every run is routed.** -/
theorem Runs.routed (h : Runs cfg w evs s) {n : ℕ} {x : Exec F} (hx : s.execs[n]? = some x) :
    x.Routed w evs s := by
  refine h.invariant (P := fun evs s => ∀ n x, s.execs[n]? = some x → x.Routed w evs s)
    (fun n x hx => by simp [State.init] at hx) ?_ n x hx
  intro evs s e s' hr ih hs n x' hx'
  -- an executor that was there before and did not move
  have hframe : ∀ {x}, s.execs[n]? = some x → (∀ t ∈ x.batch, e ≠ .writeResult t) →
      x.Routed w (evs ++ [e]) s' := fun hx he => (ih n _ hx).frame hr hs hx he
  cases hs with
  | call t hs =>
      rw [hs.frame.2.2.2.2] at hx'
      exact hframe hx' fun u _ => by cases hs <;> simp
  | run hs =>
      have hnw : ∀ t, e ≠ .writeResult t := fun t => by cases hs <;> simp
      cases hs with
      | spawn validBatch hm hpc =>
          rcases Nat.lt_or_ge n s.execs.length with hn | hn
          · rw [List.getElem?_append_left hn] at hx'
            exact hframe hx' fun t _ => hnw t
          · obtain rfl : x' = { batch := validBatch } := by
              have := List.mem_of_getElem? (List.getElem?_append_right hn ▸ hx')
              simpa using this
            exact .new w _ _ _
      | collect batch hm hpc hb =>
          obtain ⟨rfl, rfl⟩ := eq_of_collectBatch hb
          exact hframe hx' fun t _ => hnw t
      | cleanSignal t second now c i hm hpc =>
          exact hframe (by simpa using hx') fun t _ => hnw t
      | _ => exact hframe hx' fun t _ => hnw t
  | exec m hy hs =>
      obtain ⟨-, -, -, -, -, -, -, hexecs, -⟩ := hs.frame
      rw [State.setExec_execs, hexecs] at hx'
      by_cases hmn : m = n
      · subst hmn
        obtain ⟨hlt, -⟩ := List.getElem?_eq_some_iff.1 hy
        obtain rfl : _ = x' := by simpa [List.getElem?_set_self hlt] using hx'
        have hroute := hs.routed ((Runs.sized hr).execs _ (List.mem_of_getElem? hy)).1
          (Runs.batch_nodup hr hy) (ih m _ hy)
        exact ⟨hroute.inputs, hroute.converted, hroute.returned, hroute.outcome, hroute.done,
          hroute.busy⟩
      · rw [List.getElem?_set_ne hmn] at hx'
        refine hframe hx' fun t ht => ?_
        cases hs with
        | write u hpc hu =>
            rintro ⟨⟩
            exact hmn (Runs.exec_eq_of_mem hr hy hx' (List.mem_of_getElem? hu) ht)
        | _ => simp
  | start _ => exact hframe hx' fun t _ => by simp
  | stop => exact hframe hx' fun t _ => by simp
  | stopPost _ => exact hframe hx' fun t _ => by simp

/-! ### Routing -/

/-- Where a success comes from: a result that an executor has written. -/
def State.WrittenBy (s : State F) (t : TaskRef) : Prop :=
  ∃ (n : ℕ) (x : Exec F) (j : ℕ), s.execs[n]? = some x ∧ x.batch[j]? = some t ∧ j < x.wrote

theorem ExecStep.wrote_mono {x x' : Exec F} (h : ExecStep w s x e s' x') {j : ℕ}
    (hj : j < x.wrote) (hlen : j < x.batch.length) : j < x'.wrote := by
  cases h with
  | release notify hpc _ => cases notify <;> exact hlen
  | signal t hpc _ => simpa only [Exec.wrote, hpc] using hj
  | write t hpc _ =>
      simp only [Exec.wrote, hpc] at hj ⊢
      omega
  | complete t hpc _ => simpa only [Exec.wrote, hpc] using hj
  | empty | written | post => exact hlen
  | _ => simp_all [Exec.wrote]

/-- Executors stay, keep their batches and only write more. -/
theorem Step.writtenBy (hs : Step cfg w s e s') {t : TaskRef} (h : s.WrittenBy t) :
    s'.WrittenBy t := by
  obtain ⟨n, x, j, hx, hj, hlt⟩ := h
  cases hs with
  | call u hs => exact ⟨n, x, j, hs.frame.2.2.2.2 ▸ hx, hj, hlt⟩
  | run hs =>
      cases hs with
      | spawn validBatch hm hpc =>
          refine ⟨n, x, j, ?_, hj, hlt⟩
          rw [List.getElem?_append_left (List.getElem?_eq_some_iff.1 hx).1]
          exact hx
      | collect batch hm hpc hb =>
          obtain ⟨rfl, rfl⟩ := eq_of_collectBatch hb
          exact ⟨n, x, j, hx, hj, hlt⟩
      | cleanSignal u second now c i hm hpc => exact ⟨n, x, j, by simpa using hx, hj, hlt⟩
      | _ => exact ⟨n, x, j, hx, hj, hlt⟩
  | exec m hy hs =>
      obtain ⟨-, -, -, -, -, -, -, hexecs, -⟩ := hs.frame
      by_cases hmn : m = n
      · subst hmn
        obtain rfl := Option.some.inj (hy.symm.trans hx)
        refine ⟨m, _, j, ?_, by rw [hs.batch_eq]; exact hj,
          hs.wrote_mono hlt (List.getElem?_eq_some_iff.1 hj).1⟩
        rw [State.setExec_execs, hexecs, List.getElem?_set_self (List.getElem?_eq_some_iff.1 hy).1]
      · refine ⟨n, x, j, ?_, hj, hlt⟩
        rw [State.setExec_execs, hexecs, List.getElem?_set_ne hmn]
        exact hx
  | start _ => exact ⟨n, x, j, hx, hj, hlt⟩
  | stop => exact ⟨n, x, j, hx, hj, hlt⟩
  | stopPost _ => exact ⟨n, x, j, hx, hj, hlt⟩

/-- Only the write-back sets `success`. -/
theorem Step.success (hs : Step cfg w s e s') {t : TaskRef} (h : (s'.tasks t).success = true) :
    (s.tasks t).success = true ∨ s'.WrittenBy t := by
  have hupdate : ∀ {u : TaskRef} {y : InferenceTask F},
      (Function.update s.tasks u y t).success = true →
      (y.success = true → (s.tasks u).success = true) → (s.tasks t).success = true := by
    intro u y hy hyu
    by_cases htu : t = u
    · subst htu; exact hyu (by simpa using hy)
    · rwa [Function.update_of_ne htu] at hy
  cases hs with
  | call u hs =>
      left
      cases hs with
      | construct addr modelName inputData priority deadline clientFd hc hfree =>
          exact hupdate h fun h => by simp [InferenceTask.make] at h
      | accept now hc hl he =>
          obtain ⟨-, rfl⟩ := enqueue_eq_true he
          simp only [State.setCall_tasks, State.setQueue_tasks, State.modify_tasks] at h
          exact hupdate h id
      | reject now hc hl he =>
          obtain ⟨-, rfl⟩ := enqueue_eq_false he
          exact h
      | etimedout hc => exact hupdate h id
      | _ => exact h
  | run hs =>
      left
      cases hs with
      | collect batch hm hpc hb =>
          obtain ⟨rfl, rfl⟩ := eq_of_collectBatch hb
          exact h
      | markTimeout u hm => exact hupdate h id
      | markComplete u hm => exact hupdate h id
      | cleanSignal u second now c i hm hpc => simpa using h
      | _ => exact h
  | exec n hx hs =>
      cases hs with
      | write u hpc hu =>
          by_cases htu : t = u
          · subst htu
            right
            exact ⟨n, _, _, List.getElem?_set_self (List.getElem?_eq_some_iff.1 hx).1, hu,
              Nat.lt_succ_self _⟩
          · left
            simpa [Function.update_of_ne htu] using h
      | complete u hpc hu => exact .inl (hupdate h id)
      | _ => exact .inl h
  | start _ => exact .inl h
  | stop => exact .inl h
  | stopPost _ => exact .inl h

/-- **A success is written by an executor.** -/
theorem Runs.success_written (h : Runs cfg w evs s) {t : TaskRef}
    (ht : (s.tasks t).success = true) : s.WrittenBy t := by
  refine h.invariant_state (P := fun s => (s.tasks t).success = true → s.WrittenBy t)
    (fun h => by cases h) (fun s e s' ih hs ht => ?_) ht
  rcases hs.success ht with ht | hwritten
  · exact hs.writtenBy (ih ht)
  · exact hwritten

/-- The engine has answered before an executor writes anything. -/
theorem Exec.answered_of_wrote {x : Exec F} {j : ℕ} (h : j < x.wrote) : x.answered := by
  unfold Exec.answered
  unfold Exec.wrote at h
  split <;> simp_all

/-- Once the engine has answered, the inputs were built from the whole batch. -/
theorem Exec.Routed.inputs_eq {x : Exec F} (h : x.Routed w evs s) (ha : x.answered) :
    x.inputs = x.batch.map fun t => (s.tasks t).toInput := by
  have hlen : x.batch.length ≤ x.inputs.length := by
    refine h.converted ?_ ?_ <;> intro hpc <;> simp [Exec.answered, hpc] at ha
  have := h.inputs
  rwa [List.take_of_length_le hlen] at this

/-- An engine that returns anything. -/
def anyWorld : World ℤ where
  inferBatch _ _ := True
  throws _ := False
  createFails := False
  printF _ := []

instance : DecidableRel anyWorld.inferBatch := fun _ _ => inferInstanceAs (Decidable True)

/-- Three tasks in one batch, for which the engine returns two results. -/
def shortBatch : List (Action ℤ) :=
  [.start, .construct 0 [] [3] 1 101 7, .enqueue 0 100, .construct 1 [] [4] 1 101 8,
    .enqueue 1 100, .construct 2 [] [5] 1 101 9, .enqueue 2 100] ++
  List.replicate 32 (.run 100) ++ List.replicate 5 (.exec 0 []) ++
  [.exec 0 [{ data := [6, 7], success := true },
    { success := false, errorMsg := ascii "broken" }]] ++ List.replicate 11 (.exec 0 [])

end Gateway.Sched
