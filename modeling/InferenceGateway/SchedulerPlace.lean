/-
**Every accepted task is in exactly one place.**

The laws of `InferenceGateway.SchedulerConserve` count; this module reads the counts as places.  A
task that `enqueue` accepted waits in one queue, is in the batch in hand, belongs to one executing
batch, or has been released by the last action of `mark_done`.  It also says why the scheduler
thread may set `timeout`: the field `deadline` cannot change under it, because the only step that
writes the request fields of a task is the one that builds it.

Main definitions:

* `Gateway.Sched.Place`, `Gateway.Sched.At` — the places of a task;
* `Gateway.Sched.State.TimeoutCause` — the two reasons for a timeout on the scheduler side.

Main results:

* `Gateway.Sched.Step.request` — no step changes the request of a task that was accepted;
* `Gateway.Sched.Runs.timeoutCause` — the invariant behind the reasons;
* `Gateway.Sched.task_conservation` — **task conservation**.
-/

import InferenceGateway.SchedulerConserve
import InferenceGateway.SchedulerLimit
import InferenceGateway.SchedulerReplay

set_option relaxedAutoImplicit false
set_option autoImplicit false

namespace Gateway.Sched

open EventSystem (total)

variable {F : Type} {cfg : Config} {w : World F} {s s' s₁ : State F} {e : Event}

/-! ### The request of an accepted task -/

/-- **A task's request is fixed once its call has passed `enqueue`**: model name, input, deadline,
priority and id. -/
theorem Step.request (hs : Step cfg w s e s') {t : TaskRef} (ha : s.acceptable t = 0) :
    (s'.tasks t).request = (s.tasks t).request := by
  have hmove := hs.taskMove t
  generalize s'.tasks t = y at hmove ⊢
  cases hmove with
  | construct _ _ _ _ _ hc => simp [State.acceptable, hc] at ha
  | accept _ _ hc => simp [State.acceptable, hc] at ha
  | writeResult r => exact InferenceTask.request_writeBack _ r
  | _ => rfl

/-! ### Why the scheduler sets `timeout` -/

/-- The clock reading that `run()` compares deadlines with. -/
def RunPc.checkTime : RunPc → Option ℤ
  | .clean _ now _ _ | .cleanMark _ now _ _ | .filter now _ _ => some now
  | _ => none

/-- The reasons for which the scheduler thread may set `timeout` on a task: its deadline lies before
the clock reading of this check, or `stop()` was seen while the task was in the batch in hand. -/
def State.TimeoutCause (s : State F) (t : TaskRef) : Prop :=
  (∃ now, s.pc.checkTime = some now ∧ 0 < (s.tasks t).deadline ∧ (s.tasks t).deadline < now) ∨
    (∃ batch, s.pc = .release batch) ∧ s.running = false ∧ t ∈ s.inHand

/-- A write to some task keeps the cause of a timeout when it keeps the task's request. -/
theorem State.TimeoutCause.congr {t : TaskRef} (hpc : s'.pc = s.pc) (hmark : s'.mark = s.mark)
    (hrun : s.running = false → s'.running = false)
    (hreq : (s'.tasks t).request = (s.tasks t).request) (h : s.TimeoutCause t) :
    s'.TimeoutCause t := by
  have hdeadline : (s'.tasks t).deadline = (s.tasks t).deadline := by
    simp only [InferenceTask.request, Prod.mk.injEq] at hreq
    exact hreq.2.2.2.1
  rcases h with ⟨now, hnow, h₁, h₂⟩ | ⟨⟨batch, hb⟩, hstop, ht⟩
  · exact .inl ⟨now, by rw [hpc]; exact hnow, by rw [hdeadline]; exact h₁,
      by rw [hdeadline]; exact h₂⟩
  · refine .inr ⟨⟨batch, by rw [hpc]; exact hb⟩, hrun hstop, ?_⟩
    rw [State.inHand, hpc, hmark]
    exact ht

/-- Only the first step of a release begins it. -/
theorem RunStep.timeoutCause (hs : RunStep cfg w s e s') (hc : s.Checked cfg) {t : TaskRef}
    (hm' : s'.mark = some (t, .setTimeout)) : s'.TimeoutCause t := by
  cases hs with
  | cleanExpired second now c i u hm hpc hu hex =>
      cases hm'
      exact .inl ⟨now, rfl, (InferenceTask.expired_iff _ _).1 hex⟩
  | releaseNext u batch hm hpc =>
      cases hm'
      simp only [State.Checked, hpc, RunPc.Checked] at hc
      exact .inr ⟨⟨batch, rfl⟩, hc, by simp [State.inHand, markingOf]⟩
  | filterExpired now u batch validBatch hm hpc hex =>
      cases hm'
      exact .inl ⟨now, rfl, (InferenceTask.expired_iff _ _).1 hex⟩
  | collect batch hm hpc hb =>
      obtain ⟨rfl, rfl⟩ := eq_of_collectBatch hb
      exact absurd (hm.symm.trans hm') (by simp)
  | branch pc' hm hb | takeToken pc' hm _ _ hb | cleanBegin second now hm hpc
  | cleanKeep second now c i t hm hpc _ _ | filterBegin now batch hm hpc
  | filterKeep now t batch validBatch hm hpc _ | submit validBatch hm hpc
  | spawn validBatch hm hpc | spawnFails validBatch _ hm hpc =>
      exact absurd (hm.symm.trans hm') (by simp)
  | markTimeout u hm | markComplete u hm | markSignal u hm hl
  | cleanSignal u second now c i hm hpc => cases hm'

/-- A task that `run()` is releasing is still in its queue or in hand. -/
theorem mem_of_mark (hi : s.IteratorOk) {t : TaskRef} {ph : MarkPhase}
    (hm : s.mark = some (t, ph)) : t ∈ s.pending ++ s.inHand := by
  rw [State.inHand]
  cases hpc : s.pc with
  | cleanMark second now c i =>
      exact List.mem_append_left _ (State.mem_pending.2
        ⟨c, List.mem_of_getElem? (hi second now c i t ph hpc hm)⟩)
  | _ => exact List.mem_append_right _ (List.mem_append_right _ (by simp [markingOf, hm]))

/-- **The scheduler thread begins a release only for a reason**, and the reason lasts until it sets
`timeout`. -/
theorem Runs.timeoutCause {evs : List Event} (h : Runs cfg w evs s) {t : TaskRef}
    (hm : s.mark = some (t, .setTimeout)) : s.TimeoutCause t := by
  refine h.invariant (P := fun _ s => s.mark = some (t, .setTimeout) → s.TimeoutCause t)
    (fun h => by cases h) ?_ hm
  intro evs s e s' hr ih hs hm'
  by_cases hm : s.mark = some (t, .setTimeout)
  · have hplaced : t ∈ s.placed :=
      List.mem_append_left _ (mem_of_mark (Runs.iteratorOk hr) hm)
    have hacc := Runs.accepted_of_mem_placed hr hplaced
    have hreq := hs.request (Runs.acceptable_of_accepted hr hacc)
    cases hs with
    | call u hs =>
        obtain ⟨-, hrun, hpc, hmark, -⟩ := hs.frame
        exact (ih hm).congr hpc hmark (fun h => hrun ▸ h) hreq
    | run hs => exact hs.timeoutCause (Runs.checked hr) hm'
    | exec n hx hs =>
        obtain ⟨-, -, -, hrun, -, hpc, hmark, -⟩ := hs.frame
        exact (ih hm).congr hpc hmark (fun h => by simpa [hrun] using h) hreq
    | start hpc =>
        rcases ih hm with ⟨now, hnow, -⟩ | ⟨⟨batch, hb⟩, -⟩
        · simp [RunPc.checkTime, hpc] at hnow
        · simp [hpc] at hb
    | stop => exact State.TimeoutCause.congr (s := s) rfl rfl (fun _ => rfl) rfl (ih hm)
    | stopPost _ => exact State.TimeoutCause.congr (s := s) rfl rfl id rfl (ih hm)
  · cases hs with
    | call u hs => exact absurd (hs.frame.2.2.2.1 ▸ hm') hm
    | run hs => exact hs.timeoutCause (Runs.checked hr) hm'
    | exec n hx hs =>
        obtain ⟨-, -, -, -, -, -, hmark, -⟩ := hs.frame
        exact absurd (hmark ▸ hm') hm
    | start _ => exact absurd hm' hm
    | stop => exact absurd hm' hm
    | stopPost _ => exact absurd hm' hm

/-! ### Places -/

/-- The places of an accepted task.  It is finished when `mark_done` has issued its signal. -/
inductive Place
  | queue (c : QueueClass)
  | hand
  | exec (n : ℕ)
  | finished

/-- Where a task is, after the events `evs`. -/
def At (evs : List Event) (s : State F) (t : TaskRef) : Place → Prop
  | .queue c => t ∈ s.queue c
  | .hand => t ∈ s.inHand
  | .exec n => ∃ x, s.execs[n]? = some x ∧ t ∈ x.held
  | .finished => .signal t ∈ evs

/-- A task that the scheduler side holds once is in one of its places only. -/
theorem existsUnique_place_of_count {evs : List Event} {t : TaskRef} (hc : s.placed.count t = 1)
    (hs : .signal t ∉ evs) : ∃! p, At evs s t p := by
  have hmem : t ∈ s.placed := List.count_pos_iff.1 (by omega)
  simp only [State.placed, State.holding, List.count_append, State.pending] at hc
  have hpos : ∀ {p}, At evs s t p →
      match p with
      | .queue c => 0 < (s.queue c).count t
      | .hand => 0 < s.inHand.count t
      | .exec _ => 0 < (s.execs.flatMap Exec.held).count t
      | .finished => False := by
    intro p hp
    cases p with
    | queue c => exact List.count_pos_iff.2 hp
    | hand => exact List.count_pos_iff.2 hp
    | exec n =>
        obtain ⟨x, hx, ht⟩ := hp
        exact List.count_pos_iff.2 (List.mem_flatMap.2 ⟨x, List.mem_of_getElem? hx, ht⟩)
    | finished => exact hs hp
  -- two places would be two entries
  have hone : ∀ p q, At evs s t p → At evs s t q → p = q := by
    intro p q hp hq
    have hp' := hpos hp
    have hq' := hpos hq
    cases p with
    | queue c =>
        cases q with
        | queue d =>
            cases c <;> cases d <;> simp only [State.queue] at hp' hq' <;> first | rfl | omega
        | hand => cases c <;> simp only [State.queue] at hp' hq' <;> omega
        | exec m => cases c <;> simp only [State.queue] at hp' hq' <;> omega
        | finished => exact hq'.elim
    | hand =>
        cases q with
        | queue d => cases d <;> simp only [State.queue] at hp' hq' <;> omega
        | hand => rfl
        | exec m => simp only at hp' hq'; omega
        | finished => exact hq'.elim
    | exec n =>
        cases q with
        | queue d => cases d <;> simp only [State.queue] at hp' hq' <;> omega
        | hand => simp only at hp' hq'; omega
        | exec m =>
            obtain ⟨x, hx, ht⟩ := hp
            obtain ⟨y, hy, ht'⟩ := hq
            rw [EventSystem.eq_of_count_flatMap_le_one Exec.held (by omega) hx hy ht ht']
        | finished => exact hq'.elim
    | finished => exact hp'.elim
  simp only [State.placed, State.holding, List.mem_append, or_assoc] at hmem
  rcases hmem with ht | ht | ht
  · obtain ⟨c, ht⟩ := State.mem_pending.1 ht
    exact ⟨.queue c, ht, fun q hq => hone q _ hq ht⟩
  · exact ⟨.hand, ht, fun q hq => hone q _ hq ht⟩
  · obtain ⟨x, hx, ht⟩ := List.mem_flatMap.1 ht
    obtain ⟨n, hn⟩ := List.getElem?_of_mem hx
    exact ⟨.exec n, ⟨x, hn, ht⟩, fun q hq => hone q _ hq ⟨x, hn, ht⟩⟩

/-- A task that is not placed is in no place but the last. -/
theorem place_of_not_mem {evs : List Event} {t : TaskRef} (ht : t ∉ s.placed) {p : Place}
    (hp : At evs s t p) : p = .finished := by
  simp only [State.placed, State.holding, List.mem_append, or_assoc, not_or] at ht
  cases p with
  | queue c => exact absurd (State.mem_pending.2 ⟨c, hp⟩) ht.1
  | hand => exact absurd hp ht.2.1
  | exec n =>
      obtain ⟨x, hx, hu⟩ := hp
      exact absurd (List.mem_flatMap.2 ⟨x, List.mem_of_getElem? hx, hu⟩) ht.2.2
  | finished => rfl

/-! ### Releases -/

theorem Exec.count_owing_le (x : Exec F) (t : TaskRef) : x.owing.count t ≤ x.held.count t := by
  obtain ⟨batch, pc, inputs, results, i⟩ := x
  cases pc with
  | signal =>
      cases hu : batch[i]? with
      | none => simp [Exec.owing, hu]
      | some u =>
          obtain ⟨hi, rfl⟩ := List.getElem?_eq_some_iff.1 hu
          simp only [Exec.owing, Exec.held, hu, Option.toList_some, List.drop_eq_getElem_cons hi,
            List.count_cons, List.count_nil]
          omega
  | _ => simp [Exec.owing]

/-- A task that is owed a signal is placed. -/
theorem count_owing_le (hi : s.IteratorOk) (t : TaskRef) : s.owing.count t ≤ s.placed.count t := by
  simp only [State.owing, State.placed, State.holding]
  rw [List.count_append, List.count_append]
  refine Nat.add_le_add ?_ (EventSystem.count_flatMap_le (fun x => x.count_owing_le t) _)
  split
  · next u hm =>
      by_cases hu : u = t
      · subst hu
        have := List.count_pos_iff.2 (mem_of_mark hi hm)
        simp only [List.count_singleton_self]
        omega
      · simp [hu]
  · exact Nat.zero_le _

/-- **A task is marked done at most once**, for a mark either still owes its signal, and then the
task is placed, or has used up the task's only release. -/
theorem Runs.count_markDone_le {evs : List Event} (h : Runs cfg w evs s) (t : TaskRef) :
    evs.count (.markDone t) ≤ 1 := by
  have h₁ := Runs.markDone_law h t
  have h₂ := Runs.placed_law h t
  have h₃ := Runs.accept_law h t
  have h₄ := count_owing_le (Runs.iteratorOk h) t
  have h₅ := total_loss_eq t evs
  omega

/-! ### Conservation -/

/-- **Task conservation.**  Over every interleaving of workers, scheduler thread, executors and
`stop()`, with threads created and the engine returning, a task that `enqueue` accepted is in
exactly one place and no other task is in any; the scheduler side marks a task done at most once
and hands it to the engine at most once; and it sets `timeout` only when the deadline lies before
the clock reading of the check, or when `stop()` was seen with the task in hand. -/
theorem task_conservation (hw : w.Reliable) {evs : List Event} (h : Runs cfg w evs s) :
    s.placed.Nodup ∧
      (∀ t, .accept t ∈ evs → ∃! p, At evs s t p) ∧
      (∀ t p, At evs s t p → .accept t ∈ evs) ∧
      (∀ t, evs.count (.markDone t) ≤ 1) ∧
      (∀ t, total (Event.inferred t) evs ≤ 1) ∧
      ∀ t s', Step cfg w s (.setTimeout t) s' → s.TimeoutCause t := by
  have hlaw := Runs.placed_law h
  have hacc := Runs.accept_law h
  have hloss := Runs.total_loss hw h
  refine ⟨Runs.placed_nodup h, ?_, ?_, Runs.count_markDone_le h, ?_, ?_⟩
  · intro t ht
    have hpos : 0 < evs.count (.accept t) := List.count_pos_iff.2 ht
    -- a task that was signalled has left every other place
    by_cases hs : .signal t ∈ evs
    · have hs' : 0 < evs.count (.signal t) := List.count_pos_iff.2 hs
      have hnot : t ∉ s.placed := fun hmem => by
        have := List.count_pos_iff.2 hmem
        have := hlaw t
        have := hacc t
        have := hloss t
        omega
      exact ⟨.finished, hs, fun p hp => place_of_not_mem hnot hp⟩
    · have hs' : evs.count (.signal t) = 0 := List.count_eq_zero.2 hs
      have := hlaw t
      have := hacc t
      have := hloss t
      exact existsUnique_place_of_count (by omega) hs
  · intro t p hp
    by_cases hmem : t ∈ s.placed
    · exact Runs.accepted_of_mem_placed h hmem
    · obtain rfl := place_of_not_mem hmem hp
      have hs : 0 < evs.count (.signal t) := List.count_pos_iff.2 hp
      have := hlaw t
      have := hloss t
      exact List.count_pos_iff.1 (by omega)
  · intro t
    have := Runs.infer_law h t
    have := hacc t
    omega
  · intro t s' hs
    cases hs with
    | call u hs => cases hs
    | run hs =>
        cases hs with
        | markTimeout _ hm => exact Runs.timeoutCause h hm
    | exec n hx hs => cases hs

/-- Four requests; the batch of the first one is through, that of the second is executing, and the
third has been collected. -/
def fourPlaces : List (Action ℤ) :=
  [.start, .construct 0 [] [3] 1 101 7, .enqueue 0 100, .construct 1 [] [4] 1 101 8,
    .enqueue 1 100, .construct 2 [] [5] 1 101 9, .enqueue 2 100, .construct 3 [] [6] 2 101 10,
    .enqueue 3 100] ++ List.replicate 32 (.run 100) ++ List.replicate 3 (.exec 0 []) ++
  [.exec 0 [{ data := [6, 0, 0, 0, 0], shape := [1, 5], success := true }]] ++
  List.replicate 3 (.exec 0 []) ++ List.replicate 31 (.run 100)

/-- Each of them is in a place of another kind, and in no other. -/
theorem task_conservation_four : ∃ (evs : List Event) (s : State ℤ),
    Runs { maxBatchSize := 1 } (mockWorld {} fun _ => []) evs s ∧
      At evs s 0 .finished ∧ At evs s 1 (.exec 1) ∧ At evs s 2 .hand ∧ At evs s 3 (.queue .low) ∧
      ∀ t ∈ [0, 1, 2, 3], ∃! p, At evs s t p := by
  obtain ⟨evs, s, h, hshown⟩ := Runs.of_script { maxBatchSize := 1 } (mockWorld {} fun _ => [])
    fourPlaces
    (fun evs s => (decide (.signal 0 ∈ evs), s.execs[1]?.map Exec.held, s.inHand, s.queue .low))
    (b := (true, some [1], [2], [3])) (by decide +kernel)
  simp only [Prod.mk.injEq, decide_eq_true_eq] at hshown
  obtain ⟨hsignal, hexec, hhand, hqueue⟩ := hshown
  obtain ⟨x, hx, hheld⟩ := Option.map_eq_some_iff.1 hexec
  have h0 : At evs s 0 .finished := hsignal
  have h1 : At evs s 1 (.exec 1) := ⟨x, hx, by simp [hheld]⟩
  have h2 : At evs s 2 .hand := by simp [At, hhand]
  have h3 : At evs s 3 (.queue .low) := by simp [At, hqueue]
  obtain ⟨-, hplace, hacc, -⟩ := task_conservation (mockWorld_reliable {} fun _ => []) h
  refine ⟨evs, s, h, h0, h1, h2, h3, fun t ht => hplace t ?_⟩
  simp only [List.mem_cons, List.not_mem_nil, or_false] at ht
  rcases ht with rfl | rfl | rfl | rfl
  · exact hacc _ _ h0
  · exact hacc _ _ h1
  · exact hacc _ _ h2
  · exact hacc _ _ h3

end Gateway.Sched
