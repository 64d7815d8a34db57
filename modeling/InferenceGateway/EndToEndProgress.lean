/-
Every client that waits can be answered.

A connection that has asked stands still until its task comes back, and it shares the scheduler
with all others.  This module shows that it is never stuck there as long as nothing takes its slot
away and no worker has left the scheduler behind: from every state that careful steps reach the
threads of the scheduler, the worker of the connection and its client can bring the answer home with
careful steps, and no other connection has to do anything for it.

* `Gateway.EndToEnd.System.Owned` — every worker that waits has a task of its own, which is alive;
* `Gateway.EndToEnd.Event.attends` — the steps of the scheduler, of one worker and of its client;
* `Gateway.EndToEnd.every_request_answered` — **the answer can always be given**.
-/

import InferenceGateway.EndToEnd
import InferenceGateway.SchedulerAttend

set_option relaxedAutoImplicit false
set_option autoImplicit false

namespace Gateway

open EventSystem (Guarded Run)

namespace EndToEnd

open HttpConn
open CString (Single)
open Sched (Config World TaskRef)

variable {ι : Type*} {F : Type} [DecidableEq ι] {cfg : Config} {w : World F} {svc : ι → Service F}
  {s s' : System ι F} {e : Event ι} {evs : List (Event ι)}

/-! ### Tasks have owners -/

/-- Every worker that waits has a task of its own, which is alive. -/
def System.Owned (s : System ι F) : Prop :=
  ∀ i c now t, s.stage i = .asking c now t →
    s.sched.alive t ∧ ∀ j c' now', s.stage j = .asking c' now' t → j = i

omit [DecidableEq ι] in
/-- What the scheduler does leaves the owners alone, as long as it answers nobody. -/
theorem System.Owned.sched {sched : Sched.State F} {e : Sched.Event} (h : s.Owned)
    (hs : Sched.Step cfg w s.sched e sched) (he : ∀ t r, e ≠ .reply t r) :
    System.Owned { s with sched := sched } := by
  intro i c now t hi
  obtain ⟨halive, hone⟩ := h i c now t hi
  refine ⟨?_, hone⟩
  rcases hs.alive halive with halive' | ⟨r, heq⟩
  · exact halive'
  · exact absurd heq (he t r)

/-- A connection that is not waiting any more. -/
theorem System.Owned.move {i : ι} {stage : Stage F} (h : s.Owned)
    (hstage : ∀ c now t, stage ≠ .asking c now t) : (s.move i stage).Owned := by
  have hold : ∀ j c now t, (s.move i stage).stage j = .asking c now t →
      s.stage j = .asking c now t := by
    intro j c now t hj
    rcases eq_or_ne j i with rfl | hne
    · rw [System.move_stage, Function.update_self] at hj
      exact absurd hj (hstage c now t)
    · rwa [System.move_stage, Function.update_of_ne hne] at hj
  intro j c now t hj
  obtain ⟨halive, hone⟩ := h j c now t (hold j c now t hj)
  exact ⟨halive, fun k c' now' hk => hone k c' now' (hold k c' now' t hk)⟩

theorem Stage.processed_ne_asking (v : Option (Verdict F)) (p : Processed) (c : HttpConn) (now : ℤ)
    (t : TaskRef) : Stage.processed v p ≠ .asking c now t := by
  unfold Stage.processed
  split
  · simp
  · split <;> simp

/-- A new task belongs to the worker that has constructed it. -/
theorem System.Owned.ask {i : ι} {c : HttpConn} {now : ℤ} {t : TaskRef} {sched : Sched.State F}
    (h : s.Owned) (hi : ∀ c now t, s.stage i ≠ .asking c now t)
    (hs : Sched.Step cfg w s.sched (.construct t) sched) :
    ({ s with sched := sched }.move i (.asking c now t)).Owned := by
  obtain ⟨habsent, hbuilt⟩ := hs.construct
  have hnew : ∀ j c' now', s.stage j ≠ .asking c' now' t := by
    intro j c' now' hj
    have halive := (h j c' now' t hj).1
    rw [Sched.State.alive, habsent] at halive
    exact halive
  have hother := System.Owned.sched h hs (by simp)
  intro j c' now' t' hj
  rcases eq_or_ne j i with rfl | hne
  · rw [System.move_stage, Function.update_self] at hj
    cases hj
    refine ⟨by simp [Sched.State.alive, hbuilt], fun k c'' now'' hk => ?_⟩
    by_contra hkj
    rw [System.move_stage, Function.update_of_ne hkj] at hk
    exact hnew k c'' now'' hk
  · rw [System.move_stage, Function.update_of_ne hne] at hj
    obtain ⟨halive, hone⟩ := hother j c' now' t' hj
    refine ⟨halive, fun k c'' now'' hk => ?_⟩
    rcases eq_or_ne k i with rfl | hki
    · rw [System.move_stage, Function.update_self] at hk
      cases hk
      exact absurd hj (hnew j c' now')
    · rw [System.move_stage, Function.update_of_ne hki] at hk
      exact hone k c'' now'' hk

/-- The worker whose task is answered gives it up. -/
theorem System.Owned.answer {i : ι} {c : HttpConn} {now : ℤ} {t : TaskRef} {r : Reply}
    {sched : Sched.State F} {stage : Stage F} (h : s.Owned) (hi : s.stage i = .asking c now t)
    (hs : Sched.Step cfg w s.sched (.reply t r) sched)
    (hstage : ∀ c now t, stage ≠ .asking c now t) :
    ({ s with sched := sched }.move i stage).Owned := by
  have hmoved := h.move (i := i) hstage
  intro j c' now' t' hj
  obtain ⟨halive, hone⟩ := hmoved j c' now' t' hj
  refine ⟨?_, hone⟩
  rcases hs.alive halive with halive' | ⟨r', heq⟩
  · exact halive'
  · cases heq
    -- nobody else waits for this task
    rcases eq_or_ne j i with rfl | hne
    · rw [System.move_stage, Function.update_self] at hj
      exact absurd hj (hstage _ _ _)
    · rw [System.move_stage, Function.update_of_ne hne] at hj
      exact absurd ((h i c now t hi).2 j c' now' hj) hne

/-- **Every careful step keeps the owners.** -/
theorem Step.owned (hs : Step cfg w svc s e s') (hg : Careful s e) (hok : s.Ok cfg w svc)
    (h : s.Owned) : s'.Owned := by
  cases hs with
  | accept _ => exact System.Owned.move (s := s) h (by simp)
  | @read i c q hi hfits => exact System.Owned.move (s := s.hear i q) h (by simp)
  | process now p hi htask hp => exact h.move (Stage.processed_ne_asking _ _)
  | ask now t hi hs htask => exact h.ask (by simp [hi]) hs
  | sched _ hreply hs _ => exact h.sched hs hreply
  | answer r p hi hs hp => exact h.answer hi hs (Stage.processed_ne_asking _ _)
  | @write i v p x x' e hi hs =>
      unfold System.wrote
      split
      all_goals exact System.Owned.move (s := s) h (by simp)
  | forget _ | drop _ => exact h.move (by simp)
  | cross => exact hg.elim
  | dangle hs ht hdead =>
      obtain ⟨evs, hr⟩ := hok.runs
      exact absurd (hr.alive hs ht) hdead

theorem System.owned_run (hr : Run (CarefulStep cfg w svc) {} evs s) : s.Owned :=
  hr.invariant (P := fun _ s => s.Owned) (fun _ _ _ _ h => by cases h)
    fun _ _ _ _ hr h hs => hs.1.owned hs.2 (System.ok_run hr) h

/-! ### Main result -/

/-- The steps of the scheduler, of one worker and of its client: nobody gives up, and no other
worker does anything. -/
def Event.attends (i : ι) (t : TaskRef) : Event ι → Prop
  | .sched e => e.attends t
  | .answer j u => j = i ∧ u = t
  | .write j _ => j = i
  | _ => False

/-- What attends to a worker leaves no task behind. -/
theorem apart_of_attend {t : TaskRef} {sched sched' : Sched.State F} {e : Sched.Event}
    (hs : Sched.Attend cfg w t sched e sched') : Apart sched e := by
  have hattends := hs.attends
  refine ⟨?_, ?_, ?_⟩
  · rintro u rfl
    exact hattends
  · rintro u r rfl
    exact hattends
  · cases e with
    | reply | etimedout => exact hattends.elim
    | _ => trivial

/-- **Every request can be answered.**  Take any state that careful steps reach, with a scheduler
that was not stopped, threads created and the engine returning.  Whatever the other connections
and all threads are doing, a worker that has asked the scheduler can be answered, and its client
can have the response: the threads of the scheduler, this worker and its client have a careful run
of their own after which the connection is idle, with one more response, while all other connections
stand still. -/
theorem every_request_answered (hw : w.Reliable) (ha : w.Answers) (hmax : 1 ≤ cfg.maxBatchSize)
    (hr : Run (CarefulStep cfg w svc) {} evs s) (hrun : s.sched.running = true) {i : ι}
    {c : HttpConn} {now : ℤ} {t : TaskRef} (hi : s.stage i = .asking c now t) :
    ∃ evs' s' e, Run (CarefulStep cfg w svc) s evs' s' ∧ (∀ e ∈ evs', e.attends i t) ∧ s'.Idle i ∧
      s'.chunks = s.chunks ∧ s'.log = Function.update s.log i (s.log i ++ [e]) ∧
      ∀ j, j ≠ i → s'.stage j = s.stage j := by
  have hok := System.ok_run hr
  obtain ⟨sevs, hpatient⟩ := hok.runs
  have hruns := hpatient.of_guarded
  have hstage := hok.stage i
  rw [hi] at hstage
  obtain ⟨hheard, -, task, htask, -⟩ := hstage
  -- the task comes back, and nothing of it is left with the scheduler
  obtain ⟨evs₁, sched, hattend, hcalls⟩ := Sched.Serving.attend hw ha hmax ⟨⟨sevs, hruns⟩, hrun⟩
    (System.owned_run hr i c now t hi).1
  have howed : t ∈ sched.owing → t ∈ sched.placed := fun h => by
    have hpos : 0 < sched.owing.count t := List.count_pos_iff.2 h
    have hruns' := hruns.trans (hattend.mono fun _ _ _ hs => hs.step)
    exact List.count_pos_iff.1
      (hpos.trans_le (Sched.count_owing_le (Sched.Runs.iteratorOk hruns') t))
  have hreply : ∃ r sched', Sched.Step cfg w sched (.reply t r) sched' ∧ t ∉ sched.owing := by
    rcases hcalls with ⟨hc, hnil⟩ | ⟨hc, rfl⟩
    · refine ⟨_, _, .call t (.reply hc), fun h => ?_⟩
      have := howed h
      rw [hnil] at this
      cases this
    · exact ⟨_, _, .call t (.replyRejected hc), fun h =>
        (Sched.Runs.calls_of_mem_placed hruns (howed h)).2.2 hc⟩
  obtain ⟨r, sched', hreply, howing⟩ := hreply
  have hapart : Run (Guarded (Sched.Step cfg w) Apart) s.sched evs₁ sched :=
    hattend.mono fun _ _ _ hs => ⟨hs.step, apart_of_attend hs⟩
  have hrun₁ : Run (CarefulStep cfg w svc) s _ _ := run_sched hpatient hapart
  -- and is answered
  obtain ⟨p, hp, hwritten⟩ := process_of_taskOf htask (sched.found t)
  obtain ⟨wevs, x, hsend, hphase⟩ := sent_to_end (hheard.ready hp hwritten).prepared
  have hrun₂ := run_answer svc (s := { s with sched := sched }) hi hreply howing hp hwritten hsend
    hphase
  refine ⟨_, _, _, hrun₁.trans hrun₂, fun e he => ?_,
    System.idle_of_stage (Function.update_self i _ _), rfl, rfl,
    fun j hj => Function.update_of_ne hj _ _⟩
  simp only [List.mem_append, List.mem_map, List.mem_cons] at he
  rcases he with ⟨e', he', rfl⟩ | rfl | ⟨e', -, rfl⟩
  · obtain ⟨_, _, _, _, -, -, hs, -⟩ := hattend.split_of_mem he'
    exact hs.attends
  · exact ⟨rfl, rfl⟩
  · rfl

/-- Two connections wait for tasks that nobody has enqueued yet, and each can be answered while the
other goes on waiting. -/
theorem every_request_answered_either : ∃ (evs : List (Event Bool)) (s : System Bool Single),
    Run (CarefulStep {} echoWorld fun _ => noteService.onFloats) {} evs s ∧
      (∀ i, ∃ c now t, s.stage i = .asking c now t ∧ s.sched.calls t = .built) ∧
      ∀ i, ∃ evs' s' e, Run (CarefulStep {} echoWorld fun _ => noteService.onFloats) s evs' s' ∧
        s'.Idle i ∧ s'.log i = [e] ∧ s'.stage (!i) = s.stage (!i) := by
  obtain ⟨evs, c₁, c₂, -, -, hr⟩ := both_asked
  have hw : echoWorld.Reliable := ⟨id, fun _ => id⟩
  have ha : echoWorld.Answers := fun _ => ⟨_, rfl⟩
  have hrun : sched₂.running = true := by decide +kernel
  have hcalls : sched₂.calls 0 = .built ∧ sched₂.calls 1 = .built := by decide +kernel
  have hstage : ∀ i, ∃ c now t, (bothAsk c₁ c₂).stage i = .asking c now t ∧
      (bothAsk c₁ c₂).sched.calls t = .built := by
    intro i
    cases i
    · exact ⟨c₁, 0, 0, rfl, hcalls.1⟩
    · exact ⟨c₂, 0, 1, rfl, hcalls.2⟩
  refine ⟨evs, _, hr, hstage, fun i => ?_⟩
  obtain ⟨c, now, t, hi, -⟩ := hstage i
  obtain ⟨evs', s', e, hr', -, hidle, -, hlog, hother⟩ :=
    every_request_answered hw ha (by decide) hr hrun hi
  refine ⟨evs', s', e, hr', hidle, ?_, hother _ (by cases i <;> decide)⟩
  rw [hlog, Function.update_self]
  rfl

end EndToEnd

end Gateway
