/-
A worker that waits can always be attended to.

The worker of a task needs the scheduler twice: to let go of `queue_lock_`, so that `enqueue` can
begin, and to come to an end with the task.  This module puts the runs that leave nothing behind
around the steps of one worker: wherever it stands in `do_request`, the threads of the scheduler and
the worker itself can bring it to the point where it reads its task.

* `Gateway.Sched.Attend` — the steps of the scheduler and of one worker, without its timeout;
* `Gateway.Sched.Serving.unlock` — a scheduler with nothing to do lets go of the lock;
* `Gateway.Sched.Serving.attend` — **every worker can be attended to**.
-/

import InferenceGateway.SchedulerDrain

set_option relaxedAutoImplicit false
set_option autoImplicit false

namespace Gateway.Sched

open EventSystem

variable {F : Type} {cfg : Config} {w : World F} {s s' : State F} {e : Event}
  {evs : List Event} {t : TaskRef}

/-! ### The steps for one worker -/

/-- The steps of the scheduler thread, of the executors, and of the worker of `t` as long as it
neither gives up nor answers. -/
inductive Attend (cfg : Config) (w : World F) (t : TaskRef) : State F → Event → State F → Prop
  | serve {s s' : State F} {e : Event} : Serve cfg w s e s' → Attend cfg w t s e s'
  | call {s s' : State F} {e : Event} :
      CallStep cfg w t s e s' → e = .tau ∨ e = .accept t → Attend cfg w t s e s'

theorem Attend.step (hs : Attend cfg w t s e s') : Step cfg w s e s' := by
  cases hs with
  | serve hs => exact hs.step
  | call hs _ => exact .call t hs

/-- The events that concern the wait of `t` only. -/
def Event.attends (t : TaskRef) : Event → Prop
  | .construct _ | .reply .. | .etimedout _ | .reject _ => False
  | .accept u => u = t
  | _ => True

theorem Serve.attends (hs : Serve cfg w s e s') (t : TaskRef) : e.attends t := by
  cases hs with
  | run hs => cases hs <;> trivial
  | exec n hx hs => cases hs <;> trivial

theorem Attend.attends (hs : Attend cfg w t s e s') : e.attends t := by
  cases hs with
  | serve hs => exact hs.attends t
  | call _ he =>
      rcases he with rfl | rfl
      · trivial
      · rfl

/-- What a worker does without events is a part of it. -/
theorem attend_of_worker (hr : Run (CallStep cfg w t) s evs s') (htau : ∀ e ∈ evs, e = .tau) :
    Run (Attend cfg w t) s evs s' := by
  induction hr with
  | nil => exact .nil
  | snoc _ hs ih =>
      exact (ih fun e he => htau e (List.mem_append_left _ he)).snoc
        (.call hs (.inl (htau _ (List.mem_append_right _ List.mem_cons_self))))

/-- What a worker does without events leaves the tasks where they are. -/
theorem placed_of_worker (hr : Run (CallStep cfg w t) s evs s') (htau : ∀ e ∈ evs, e = .tau) :
    s'.placed = s.placed := by
  induction hr with
  | nil => rfl
  | snoc _ hs ih =>
      obtain rfl := htau _ (List.mem_append_right _ List.mem_cons_self)
      refine Eq.trans ?_ (ih fun e he => htau e (List.mem_append_left _ he))
      cases hs <;> rfl

/-- The scheduler moves no worker. -/
theorem Serve.calls (hs : Serve cfg w s e s') : s'.calls = s.calls := by
  cases hs with
  | run hs => exact hs.calls
  | exec n hx hs =>
      obtain ⟨-, -, -, -, -, -, -, -, hcalls, -⟩ := hs.frame
      rw [State.setExec_calls, hcalls]

theorem calls_of_serve (hr : Run (Serve cfg w) s evs s') : s'.calls = s.calls :=
  hr.invariant_state (P := fun s' => s'.calls = s.calls) rfl fun _ _ _ h hs => hs.calls.trans h

/-- How many queues a pass of `cleanup_expired` has to visit. -/
def RunPc.cleanLeft : RunPc → ℕ
  | .clean _ _ c _ => 3 - c.rank
  | _ => 0

namespace Serving

/-- What attends to a worker keeps the scheduler running. -/
theorem of_run (h : Serving cfg w s) (hr : Run (Attend cfg w t) s evs s')
    (hrun : s'.running = true) : Serving cfg w s' := by
  obtain ⟨evs', h'⟩ := h.reached
  exact ⟨⟨_, h'.trans (hr.mono fun _ _ _ hs => hs.step)⟩, hrun⟩

/-! ### The lock -/

/-- A pass of `cleanup_expired` over empty queues goes on to the next queue. -/
theorem unlock_next (h : Serving cfg w s) (hnil : s.pending = []) (hm : s.mark = none)
    (hlock : ¬ s.lockFree) : ∃ s', Serve cfg w s .tau s' ∧ Serving cfg w s' ∧ s'.pending = [] ∧
      s'.mark = none ∧ s'.pc.cleanLeft < s.pc.cleanLeft := by
  obtain ⟨evs, hr⟩ := h.reached
  unfold State.lockFree at hlock
  split at hlock
  · next second now c i hpc =>
      have hqueue : ¬ i < (s.queue c).length := by
        rw [State.pending, List.append_eq_nil_iff, List.append_eq_nil_iff] at hnil
        cases c <;> simp [State.queue, hnil]
      -- the iterator is at the end of the queue
      have hnext : ∀ pc', (RunPc.clean second now c i).branch cfg s.running s.activeBatchCount
          s.queue s.pendingCount = some pc' →
          pc'.cleanLeft < (RunPc.clean second now c i).cleanLeft →
          ∃ s', Serve cfg w s .tau s' ∧ Serving cfg w s' ∧ s'.pending = [] ∧ s'.mark = none ∧
            s'.pc.cleanLeft < s.pc.cleanLeft := by
        intro pc' hb hlt
        rw [← hpc] at hb hlt
        have hs : RunStep cfg w s .tau { s with pc := pc' } := .branch pc' hm hb
        exact ⟨_, .run hs, ⟨⟨_, hr.snoc (.run hs)⟩, h.running⟩, hnil, hm, hlt⟩
      rw [RunPc.branch, if_neg hqueue] at hnext
      cases c with
      | high => exact hnext (.clean second now .mid 0) rfl (Nat.lt_succ_self 2)
      | mid => exact hnext (.clean second now .low 0) rfl (Nat.lt_succ_self 1)
      | low =>
          cases second with
          | true => exact hnext .collect rfl Nat.one_pos
          | false => exact hnext .testIdle rfl Nat.one_pos
  · next second now c i hpc => exact absurd hm ((Runs.markOk hr).cleanMark _ _ _ _ hpc)
  · exact absurd trivial hlock

/-- **A scheduler with nothing to do lets go of the lock.** -/
theorem unlock (h : Serving cfg w s) (hnil : s.placed = []) :
    ∃ evs' s', Run (Serve cfg w) s evs' s' ∧ Serving cfg w s' ∧ s'.lockFree ∧ s'.pending = [] := by
  obtain ⟨evs, hr⟩ := h.reached
  have hpending : s.pending = [] := by
    rw [State.placed, State.holding, List.append_eq_nil_iff, List.append_eq_nil_iff] at hnil
    exact hnil.1.1
  have hmark : s.mark = none := by
    cases hm : s.mark with
    | none => rfl
    | some m =>
        have hmem : m.1 ∈ s.placed := List.mem_append_left (s.execs.flatMap Exec.held)
          (mem_of_mark (Runs.iteratorOk hr) hm)
        rw [hnil] at hmem
        cases hmem
  have hstep : ∀ s, Serving cfg w s ∧ s.pending = [] ∧ s.mark = none → ¬ s.lockFree →
      ∃ e s', Serve cfg w s e s' ∧ (Serving cfg w s' ∧ s'.pending = [] ∧ s'.mark = none) ∧
        (s'.pc.cleanLeft < s.pc.cleanLeft ∨ s'.pc.cleanLeft = s.pc.cleanLeft ∧ 0 < 0) := by
    rintro s ⟨h, hnil, hm⟩ hlock
    obtain ⟨s', hs, h', hnil', hm', hlt⟩ := unlock_next h hnil hm hlock
    exact ⟨_, s', hs, ⟨h', hnil', hm'⟩, .inl hlt⟩
  obtain ⟨evs', s', hr', ⟨hserving, hnil', -⟩, hfree⟩ := Run.exists_of_decreasing State.lockFree
    (fun s => s.pc.cleanLeft) (fun _ => 0) hstep s ⟨h, hpending, hmark⟩
  exact ⟨evs', s', hr', hserving, hfree, hnil'⟩

/-! ### The worker -/

/-- A worker whose task was accepted comes to read it, and the scheduler is through with it. -/
theorem attend_accepted (hw : w.Reliable) (ha : w.Answers) (hmax : 1 ≤ cfg.maxBatchSize)
    (h : Serving cfg w s) (hacc : ∀ evs, Runs cfg w evs s → .accept t ∈ evs)
    (hret : ∀ reply, s.calls t ≠ .returned reply) :
    ∃ evs' s', Run (Attend cfg w t) s evs' s' ∧ s'.calls t = .replying ∧ s'.placed = [] := by
  obtain ⟨evs, hr⟩ := h.reached
  obtain ⟨evs₁, s₁, hr₁, -, hnil, -⟩ := drain hw ha hmax h
  have hr' : Runs cfg w (evs ++ evs₁) s₁ := hr.trans (hr₁.mono fun _ _ _ hs => hs.step)
  obtain ⟨-, hdone⟩ := Runs.signalled_of_drained hw hr' hnil
    (List.mem_append_left _ (hacc evs hr))
  have hret₁ : ∀ reply, s₁.calls t ≠ .returned reply := by
    rw [calls_of_serve hr₁]
    exact hret
  obtain ⟨evs₂, s₂, hr₂, hc, htau⟩ := Runs.wait_over hr' hdone hret₁
  have hnil₂ : s₂.placed = [] := (placed_of_worker hr₂ htau).trans hnil
  exact ⟨_, s₂, (hr₁.mono fun _ _ _ hs => .serve hs).trans (attend_of_worker hr₂ htau), hc, hnil₂⟩

/-- **Every worker can be attended to.**  Wherever the threads stand and whatever waits, the threads
of the scheduler and the worker itself can bring it to the point where it reads its task, with the
scheduler through with all of them, or it was refused already. -/
theorem attend (hw : w.Reliable) (ha : w.Answers) (hmax : 1 ≤ cfg.maxBatchSize)
    (h : Serving cfg w s) (ht : s.alive t) :
    ∃ evs' s', Run (Attend cfg w t) s evs' s' ∧
      (s'.calls t = .replying ∧ s'.placed = [] ∨ s.calls t = .rejected ∧ s' = s) := by
  have haccepted : ∀ s : State F, Serving cfg w s →
      (∀ decided, (s.calls t).History t decided → decided = [.accept t]) →
      ∃ evs' s', Run (Attend cfg w t) s evs' s' ∧ s'.calls t = .replying ∧ s'.placed = [] := by
    intro s h hdecided
    refine attend_accepted hw ha hmax h (fun evs hr => ?_) fun reply hc => ?_
    · have hmem : .accept t ∈ evs.filter (Event.decides t) := by
        rw [hdecided _ (Runs.history hr t)]
        exact List.mem_cons_self
      exact (List.mem_filter.1 hmem).1
    · have := hdecided [.accept t, .reply t reply] (by rw [hc]; exact .inl rfl)
      cases this
  have hleft :
      (∃ evs' s', Run (Attend cfg w t) s evs' s' ∧ s'.calls t = .replying ∧ s'.placed = []) →
      ∃ evs' s', Run (Attend cfg w t) s evs' s' ∧
        (s'.calls t = .replying ∧ s'.placed = [] ∨ s.calls t = .rejected ∧ s' = s) := by
    rintro ⟨evs', s', hr, hc⟩
    exact ⟨evs', s', hr, .inl hc⟩
  cases hc : s.calls t with
  | absent | returned =>
      unfold State.alive at ht
      rw [hc] at ht
      exact ht.elim
  | rejected => exact ⟨[], s, .nil, .inr ⟨rfl, rfl⟩⟩
  | posting | checking | blocked | replying =>
      rw [hc] at hleft
      exact hleft (haccepted s h fun decided hd => by rwa [hc] at hd)
  | built =>
      rw [hc] at hleft
      refine hleft ?_
      -- the scheduler lets go of the lock, with queues that are empty
      obtain ⟨evs₁, s₁, hr₁, h₁, hnil, -⟩ := drain hw ha hmax h
      obtain ⟨evs₂, s₂, hr₂, h₂, hfree, hpending⟩ := h₁.unlock hnil
      have hc₂ : s₂.calls t = .built := by rw [calls_of_serve hr₂, calls_of_serve hr₁, hc]
      have hroom : ¬ s₂.full cfg := by
        rintro ⟨hpos, hle⟩
        rw [← State.length_pending, hpending] at hle
        exact absurd hle (not_le.2 hpos)
      have haccept : CallStep cfg w t s₂ (.accept t) _ :=
        .accept 0 hc₂ hfree (enqueue_of_not_full 0 hroom)
      have hr : Run (Attend cfg w t) s _ _ :=
        ((hr₁.trans hr₂).mono fun _ _ _ hs => .serve hs).snoc (.call haccept (.inr rfl))
      have h₃ := h.of_run hr (haccept.frame.2.1.trans h₂.running)
      obtain ⟨evs', s', hr', hc'⟩ := haccepted _ h₃ fun decided hd => by
        rw [State.setCall_calls, Function.update_self] at hd
        exact hd
      exact ⟨_, s', hr.trans hr', hc'⟩

end Serving

end Gateway.Sched
