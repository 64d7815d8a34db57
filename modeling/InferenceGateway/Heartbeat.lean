/-
**The ticks of the gateway.**

What `InferenceGateway/SignalLoop.lean` keeps, one alarm on its way to the next tick, is here turned
into what the gateway does with it: the ticks do not come too fast, no `SIGTERM` is lost, and from
wherever the loop stands a next tick can come.

Main definitions:

* `Gateway.SignalLoop.ticks` — the times at which a run ticks;
* `Gateway.SignalLoop.Going` — the loop runs, and nobody has sent a `SIGTERM`;
* `Gateway.SignalLoop.State.far`, `Gateway.SignalLoop.MainPc.toWait` — how far the alarm is from the
  flag, and the main thread from `epoll_wait`.

Main results:

* `Gateway.SignalLoop.Runs.spaced` — two ticks are `TIMESLOT` apart;
* `Gateway.SignalLoop.Runs.stopping` — no `SIGTERM` is lost;
* `Gateway.SignalLoop.Going.progress` — the next tick comes on some run;
* `Gateway.SignalLoop.heartbeat` — **the heartbeat.**
-/

import InferenceGateway.SignalLoop

set_option relaxedAutoImplicit false
set_option autoImplicit false

namespace Gateway.SignalLoop

open EventSystem Web

variable {cfg : Config} {s s' : State} {e : Event} {evs : List Event}

/-! ### Two ticks are far apart -/

/-- The times of the ticks of a run. -/
def ticks (evs : List Event) : List ℕ :=
  evs.filterMap fun
    | .tick now => some now
    | _ => none

@[simp] theorem ticks_snoc (evs : List Event) (e : Event) :
    ticks (evs ++ [e]) = ticks evs ++ ticks [e] := List.filterMap_append

/-- An alarm has gone off and the tick is still to come. -/
def State.due (s : State) : Prop :=
  s.pending .alrm = true ∨ .alrm ∈ s.handlers ∨ .alrm ∈ s.pipe ∨
    s.timeout = true ∧ s.pc ≠ .rearm ∧ s.pc ≠ .clear

/-- The ticks so far are `TIMESLOT` apart, and so will be the next one. -/
structure Spaced (s : State) (ticks : List ℕ) : Prop where
  apart : ticks.Pairwise fun a b => a + TIMESLOT ≤ b
  past : ∀ a ∈ ticks, a ≤ s.now
  clock : ∀ a ∈ ticks, ∀ d, s.clock = some d → a + TIMESLOT ≤ d
  due : s.due → ∀ a ∈ ticks, a + TIMESLOT ≤ s.now

/-- A step that does not tick keeps the ticks apart when no alarm falls due by it. -/
theorem Spaced.keep {l : List ℕ} (h : Spaced s l) (hnow : s.now ≤ s'.now)
    (hclock : ∀ d, s'.clock = some d → s.clock = some d ∨ s.now + TIMESLOT ≤ d)
    (hdue : s'.due → s.due) : Spaced s' l where
  apart := h.apart
  past := fun a ha => (h.past a ha).trans hnow
  clock := fun a ha d hd => by
    rcases hclock d hd with hd | hd
    · exact h.clock a ha d hd
    · exact (Nat.add_le_add_right (h.past a ha) _).trans hd
  due := fun hd a ha => (h.due (hdue hd) a ha).trans hnow

/-- What falls due by a move of the main thread was due before. -/
theorem State.due_of_move {pc : MainPc} (hpc : s.pc ≠ .rearm ∧ s.pc ≠ .clear)
    (h : ({ s with pc := pc } : State).due) : s.due := by
  rcases h with h | h | h | ⟨ht, -⟩
  · exact .inl h
  · exact .inr (.inl h)
  · exact .inr (.inr (.inl h))
  · exact .inr (.inr (.inr ⟨ht, hpc⟩))

/-- The bytes that `recv` reads were due in the socket pair. -/
theorem State.due_of_receive {es : List Entry} {n : ℕ}
    (hpc : s.pc = .loop (.signal :: es))
    (h : ({ s with
      pc := .loop es
      timeout := (dealwithsingal (s.pipe.take n) (s.timeout, s.stopServer)).1
      stopServer := (dealwithsingal (s.pipe.take n) (s.timeout, s.stopServer)).2
      pipe := s.pipe.drop n } : State).due) : s.due := by
  rcases h with h | h | h | ⟨ht, -⟩
  · exact .inl h
  · exact .inr (.inl h)
  · exact .inr (.inr (.inl (List.mem_of_mem_drop h)))
  · simp only [dealwithsingal_eq, Bool.or_eq_true, decide_eq_true_eq] at ht
    rcases ht with ht | ht
    · exact .inr (.inr (.inr ⟨ht, by simp [hpc]⟩))
    · exact .inr (.inr (.inl (List.mem_of_mem_take ht)))

/-- While `timer_handler` has the alarm, no other is on its way. -/
theorem Good.alone (h : Good s) (ht : s.timeout = true) (hpc : s.pc ≠ .clear) :
    s.clock = none ∧ s.pending .alrm = false ∧ .alrm ∉ s.handlers ∧ .alrm ∉ s.pipe := by
  have hone := h.atMost
  simp only [State.alarms, ht, Bool.true_and, bne_iff_ne.2 hpc, Bool.toNat_true] at hone
  refine ⟨?_, ?_, fun hmem => ?_, fun hmem => ?_⟩
  · cases hc : s.clock with
    | none => rfl
    | some d =>
        simp only [hc, Option.isSome_some, Bool.toNat_true] at hone
        omega
  · cases hp : s.pending .alrm with
    | false => rfl
    | true =>
        simp only [hp, Bool.toNat_true] at hone
        omega
  · have := List.count_pos_iff.2 hmem
    omega
  · have := List.count_pos_iff.2 hmem
    omega

/-- A step without a tick. -/
theorem Spaced.quiet {l : List ℕ} (hnil : ticks [e] = []) (h : Spaced s l) :
    Spaced s (l ++ ticks [e]) := by
  rwa [hnil, List.append_nil]

theorem MainStep.spaced {l : List ℕ} (hs : MainStep s e s') (hg : Good s) (h : Spaced s l) :
    Spaced s' (l ++ ticks [e]) := by
  cases hs with
  | tick hpc =>
      have ht := hg.ticking (.inl hpc)
      obtain ⟨hclock, hpending, hhandlers, hpipe⟩ := hg.alone ht (by simp [hpc])
      have hdue : s.due := .inr (.inr (.inr ⟨ht, by simp [hpc]⟩))
      have hnot : ¬ ({ s with pc := .rearm } : State).due := by
        rintro (hd | hd | hd | ⟨-, hd, -⟩)
        · simp [hpending] at hd
        · exact hhandlers hd
        · exact hpipe hd
        · exact hd rfl
      refine ⟨?_, ?_, ?_, fun hd => absurd hd hnot⟩
      · refine List.pairwise_append.2 ⟨h.apart, List.pairwise_singleton _ _, fun a ha b hb => ?_⟩
        obtain rfl := List.mem_singleton.1 hb
        exact h.due hdue a ha
      · intro a ha
        rcases List.mem_append.1 ha with ha | ha
        · exact h.past a ha
        · exact (List.mem_singleton.1 ha).le
      · intro a ha d hd
        simp [hclock] at hd
  | alarm hpc =>
      refine Spaced.quiet rfl (h.keep (le_refl _) (fun d hd => .inr ?_) ?_)
      · exact (Option.some.inj hd).le
      · exact State.due_of_move (by simp [hpc])
  | rearm hpc =>
      refine Spaced.quiet rfl (h.keep (le_refl _) (fun d hd => .inr ?_) ?_)
      · exact (Option.some.inj hd).le
      · rintro (hd | hd | hd | ⟨-, -, hd⟩)
        · exact .inl hd
        · exact .inr (.inl hd)
        · exact .inr (.inr (.inl hd))
        · exact absurd rfl hd
  | clear hpc =>
      refine Spaced.quiet rfl (h.keep (le_refl _) (fun d hd => .inl hd) ?_)
      rintro (hd | hd | hd | ⟨hd, -⟩)
      · exact .inl hd
      · exact .inr (.inl hd)
      · exact .inr (.inr (.inl hd))
      · cases hd
  | signal hpc h0 hmax hn =>
      exact Spaced.quiet rfl (h.keep (le_refl _) (fun d hd => .inl hd) (State.due_of_receive hpc))
  | addsigAlrm hpc | addsigTerm hpc | enter hpc _ | leave hpc _ | epollWait hpc _ _
  | epollFailure hpc | other hpc | signalFailed hpc _ | loopEnd hpc | publish hpc =>
      exact Spaced.quiet rfl (h.keep (le_refl _) (fun d hd => .inl hd)
        (State.due_of_move (by simp [hpc])))

theorem SignalStep.spaced {l : List ℕ} (hs : SignalStep cfg s e s') (h : Spaced s l) :
    Spaced s' (l ++ ticks [e]) := by
  cases hs with
  | time => exact Spaced.quiet rfl (h.keep (Nat.le_succ _) (fun d hd => .inl hd) id)
  | @expire d hd hnow =>
      refine Spaced.quiet rfl ⟨h.apart, h.past, ?_, fun _ a ha => (h.clock a ha d hd).trans hnow⟩
      intro a ha d' hd'
      cases hd'
  | raise => exact Spaced.quiet rfl (h.keep (le_refl _) (fun d hd => .inl hd) id)
  | @deliver sig hp hi =>
      refine Spaced.quiet rfl (h.keep (le_refl _) (fun d hd => .inl hd) fun hd => ?_)
      cases sig with
      | alrm => exact .inl hp
      | term =>
          rcases hd with hd | hd | hd
          · exact .inl hd
          · exact .inr (.inl (by simpa using hd))
          · exact .inr (.inr hd)
  | deliverDefault hp hi => exact Spaced.quiet rfl (h.keep (le_refl _) (fun d hd => .inl hd) id)
  | @send sig hmem hpub =>
      refine Spaced.quiet rfl (h.keep (le_refl _) (fun d hd => .inl hd) ?_)
      rintro (hd | hd | hd | hd)
      · exact .inl hd
      · exact .inr (.inl (List.mem_of_mem_erase hd))
      · rcases List.mem_append.1 hd with hd | hd
        · exact .inr (.inr (.inl hd))
        · obtain rfl := List.mem_singleton.1 hd
          exact .inr (.inl hmem)
      · exact .inr (.inr (.inr hd))
  | sendFull hmem hpub hfull =>
      refine Spaced.quiet rfl (h.keep (le_refl _) (fun d hd => .inl hd) ?_)
      rintro (hd | hd | hd)
      · exact .inl hd
      · exact .inr (.inl (List.mem_of_mem_erase hd))
      · exact .inr (.inr hd)
  | sendNull hmem hpub => exact Spaced.quiet rfl (h.keep (le_refl _) (fun d hd => .inl hd) id)

/-- **Two ticks are `TIMESLOT` apart.** -/
theorem Runs.spaced (hr : Runs cfg evs s) : Spaced s (ticks evs) := by
  refine hr.invariant (P := fun evs s => Spaced s (ticks evs)) ?_ ?_
  · exact ⟨List.Pairwise.nil, by simp [ticks], by simp [ticks], by simp [ticks]⟩
  · intro evs s e s' hr h hs
    rw [ticks_snoc]
    obtain ⟨hact, -⟩ := hs
    cases hact with
    | main hs => exact hs.spaced (Runs.good hr) h
    | signal hs => exact hs.spaced h

/-! ### No `SIGTERM` is lost -/

/-- A loop that is stopping goes on to stop. -/
theorem Step.stopping (hs : Step cfg s e s') (h : s.stopping) : s'.stopping := by
  obtain ⟨hact, -⟩ := hs
  cases hact with
  | main hs =>
      cases hs with
      | @signal es n hpc h0 hmax hn =>
          simp only [State.stopping, dealwithsingal_eq, Bool.or_eq_true, decide_eq_true_eq]
          rcases h with h | h
          · exact .inl (.inl h)
          · rw [← List.take_append_drop n s.pipe] at h
            rcases List.mem_append.1 h with h | h
            · exact .inl (.inr h)
            · exact .inr h
      | _ => exact h
  | signal hs =>
      cases hs with
      | send hmem hpub => exact h.imp_right (List.mem_append_left _)
      | _ => exact h

/-- A handler that has sent a `SIGTERM`, or found the socket pair full, leaves one there. -/
theorem Step.stopping_of_send {taken : Bool} (hs : Step cfg s (.send .term taken) s') (h : Good s)
    (he : s'.ended = none) : s'.stopping := by
  obtain ⟨hact, -⟩ := hs
  cases hact with
  | main hs => cases hs
  | signal hs =>
      cases hs with
      | send hmem hpub => exact .inr (List.mem_append_right _ (List.mem_singleton_self _))
      | sendFull hmem hpub hfull =>
          refine .inr (term_mem_of_full (s := s) hfull ?_)
          have := h.atMost
          simp only [State.alarms] at this
          omega
      | sendNull hmem hpub => cases he

theorem Runs.stopping (hr : Runs cfg evs s) (he : s.ended = none) {taken : Bool}
    (hsend : .send .term taken ∈ evs) : s.stopping := by
  induction hr with
  | nil => exact absurd hsend List.not_mem_nil
  | @snoc evs s s' e hr hs ih =>
      rcases List.mem_append.1 hsend with hsend | hsend
      · exact hs.stopping (ih hs.2 hsend)
      · obtain rfl := List.mem_singleton.1 hsend
        exact hs.stopping_of_send (Runs.good hr) he

/-! ### The next tick -/

/-- The loop runs, and nobody has sent a `SIGTERM`. -/
structure Going (s : State) : Prop where
  good : Good s
  started : s.pc.startup = false
  running : s.pc ≠ .returned
  going : s.stopServer = false
  notPending : s.pending .term = false
  notHandled : .term ∉ s.handlers
  notSent : .term ∉ s.pipe
  alive : s.ended = none

namespace Going

/-- An alarm is on its way. -/
theorem alarms_eq (h : Going s) : s.alarms = 1 := by
  have harmed : s.pc.unarmed = false := by
    have := h.started
    cases hpc : s.pc <;> rw [hpc] at this <;> first | rfl | cases this
  rcases h.good.armed harmed with ha | ha | ha
  · exact ha
  · rw [h.going] at ha
    cases ha
  · exact absurd ha h.notSent

end Going

/-- A round of the loop is about to read the socket pair. -/
def MainPc.reading : MainPc → Bool
  | .loop entries => decide (.signal ∈ entries)
  | _ => false

/-- How far the alarm is from the flag. -/
def State.far (s : State) : ℕ :=
  (s.clock.elim 0 fun d => 5 + (d - s.now)) + 4 * (s.pending .alrm).toNat +
    3 * s.handlers.count .alrm + (if s.pc.reading then 1 else 2) * s.pipe.count .alrm +
    if s.pc = .rearm then TIMESLOT + 6 else 0

/-- How far the main thread is from `epoll_wait`. -/
def MainPc.toWait : MainPc → ℕ
  | .loop entries => entries.length + 2
  | .clear => 2
  | .head => 1
  | _ => 0

/-- The alarm comes closer, or it stays and the main thread comes closer to `epoll_wait`. -/
def Closer (s' s : State) : Prop := s'.far < s.far ∨ s'.far = s.far ∧ s'.pc.toWait < s.pc.toWait

namespace Going

/-- A step of the main thread on the way to `epoll_wait`. -/
theorem move {pc : MainPc} (cfg : Config) (h : Going s) (hs : MainStep s .main { s with pc := pc })
    (hstart : pc.startup = false) (hrun : pc ≠ .returned) (hread : pc.reading = s.pc.reading)
    (hrearm : pc ≠ .rearm) (hrearm' : s.pc ≠ .rearm) (hlt : pc.toWait < s.pc.toWait) :
    ∃ e s', Step cfg s e s' ∧ Going s' ∧ Closer s' s := by
  refine ⟨_, _, ⟨.main hs, h.alive⟩, ⟨hs.good h.good h.alive, hstart, hrun, h.going, h.notPending,
    h.notHandled, h.notSent, h.alive⟩, .inr ⟨?_, hlt⟩⟩
  simp only [State.far, hread, if_neg hrearm, if_neg hrearm']

/-- A step of the kernel or a handler that brings the alarm closer. -/
theorem signal {cfg : Config} (h : Going s) (hs : SignalStep cfg s e s') (hpc : s'.pc = s.pc)
    (hstop : s'.stopServer = s.stopServer) (hpending : s'.pending .term = false)
    (hhandlers : .term ∉ s'.handlers) (hpipe : .term ∉ s'.pipe) (hend : s'.ended = none)
    (hlt : s'.far < s.far) : ∃ e s', Step cfg s e s' ∧ Going s' ∧ Closer s' s :=
  ⟨_, _, ⟨.signal hs, h.alive⟩, ⟨hs.good h.good, hpc ▸ h.started, hpc ▸ h.running,
    hstop.trans h.going, hpending, hhandlers, hpipe, hend⟩, .inl hlt⟩

/-- In `epoll_wait` the alarm can always come closer. -/
theorem next_wait (cfg : Config) (h : Going s) (hpc : s.pc = .wait) :
    ∃ e s', Step cfg s e s' ∧ Going s' ∧ Closer s' s := by
  have hread : s.pc.reading = false := by rw [hpc]; rfl
  have hpub : s.published = true := by
    rw [h.good.published, h.started]
    rfl
  cases hclock : s.clock with
  | some d =>
      by_cases hd : d ≤ s.now
      · refine h.signal (.expire hclock hd) rfl rfl h.notPending h.notHandled h.notSent h.alive ?_
        simp only [State.far, hclock, Option.elim_some, Option.elim_none, Function.update_self,
          Bool.toNat_true]
        omega
      · refine h.signal .time rfl rfl h.notPending h.notHandled h.notSent h.alive ?_
        simp only [State.far, hclock, Option.elim_some]
        omega
  | none =>
      have hone := h.alarms_eq
      have ht := h.good.untimed (by rw [hpc]; rfl)
      simp only [State.alarms, hclock, ht, Option.isSome_none, Bool.toNat_false,
        Bool.false_and] at hone
      by_cases hp : s.pending .alrm = true
      · have hi : s.installed .alrm := by
          rw [State.installed, hpc]
          simp
        refine h.signal (.deliver hp hi) rfl rfl h.notPending ?_ h.notSent h.alive ?_
        · simpa using h.notHandled
        · simp only [State.far, hp, Function.update_self, List.count_cons_self, Bool.toNat_true,
            Bool.toNat_false]
          omega
      by_cases hh : Signal.alrm ∈ s.handlers
      · have hpos := List.count_pos_iff.2 hh
        refine h.signal (.send hh hpub) rfl rfl h.notPending
          (fun hm => h.notHandled (List.mem_of_mem_erase hm)) (by simpa using h.notSent) h.alive ?_
        simp only [State.far, hread, List.count_erase_self, List.count_append,
          List.count_singleton_self]
        simp only [Bool.false_eq_true, if_false]
        omega
      · -- the byte is in the socket pair
        have hpipe : 0 < s.pipe.count .alrm := by
          have := List.count_eq_zero.2 hh
          simp only [Bool.not_eq_true] at hp
          rw [hp] at hone
          simp only [Bool.toNat_false] at hone
          omega
        have hs : MainStep s .main { s with pc := .loop [.signal] } :=
          .epollWait hpc (by simp) fun _ hnil => by simp [hnil] at hpipe
        refine ⟨_, _, ⟨.main hs, h.alive⟩, ⟨hs.good h.good h.alive, rfl, by simp, h.going,
          h.notPending, h.notHandled, h.notSent, h.alive⟩, .inl ?_⟩
        simp only [State.far, MainPc.reading, hpc]
        simp
        omega

/-- `dealwithsingal` finds the alarm in the socket pair. -/
theorem next_receive {entries : List Entry} (cfg : Config) (h : Going s)
    (hpc : s.pc = .loop (.signal :: entries)) :
    ∃ e s', Step cfg s e s' ∧ Going s' ∧ Closer s' s := by
  obtain ⟨hone, hne⟩ := h.good.entries _ hpc
  obtain ⟨sig, pipe, hpipe⟩ := List.exists_cons_of_ne_nil (hne List.mem_cons_self)
  have hsig : sig = .alrm := by
    cases sig with
    | alrm => rfl
    | term => exact absurd (hpipe ▸ List.mem_cons_self) h.notSent
  subst hsig
  have hs : MainStep s .main { s with
      pc := .loop entries
      timeout := (dealwithsingal (s.pipe.take 1) (s.timeout, s.stopServer)).1
      stopServer := (dealwithsingal (s.pipe.take 1) (s.timeout, s.stopServer)).2
      pipe := s.pipe.drop 1 } :=
    .signal hpc Nat.zero_lt_one (by simp) (by simp [hpipe])
  have hcount : s.pipe.count .alrm ≤ 1 := by
    have := h.good.atMost
    simp only [State.alarms] at this
    omega
  have hnone : Entry.signal ∉ entries := fun hmem => by
    have := List.count_pos_iff.2 hmem
    simp at hone
    omega
  refine ⟨_, _, ⟨.main hs, h.alive⟩, ⟨hs.good h.good h.alive, rfl, by simp, ?_, h.notPending,
    h.notHandled, fun hm => h.notSent (List.mem_of_mem_drop hm), h.alive⟩, .inl ?_⟩
  · simp [dealwithsingal_eq, hpipe, h.going]
  · rw [hpipe, List.count_cons_self] at hcount
    simp only [State.far, MainPc.reading, hpc, hpipe, hnone, List.drop_one, List.tail_cons,
      List.count_cons_self]
    simp
    omega

/-- **As long as nobody sends a `SIGTERM`, the alarm can always come closer to the tick.** -/
theorem next (cfg : Config) (h : Going s) (hne : s.pc ≠ .tick) :
    ∃ e s', Step cfg s e s' ∧ Going s' ∧ Closer s' s := by
  cases hpc : s.pc with
  | addsigAlrm | addsigTerm | alarm | publish => 
      have := h.started
      rw [hpc] at this
      cases this
  | returned => exact absurd hpc h.running
  | tick => exact absurd hpc hne
  | wait => exact h.next_wait cfg hpc
  | head => 
      exact h.move cfg (.enter hpc h.going) rfl (by simp) (by rw [hpc]; rfl) (by simp)
        (by simp [hpc]) (by rw [hpc]; exact Nat.zero_lt_one)
  | clear =>
      have hs : MainStep s .main { s with pc := .head, timeout := false } := .clear hpc
      refine ⟨_, _, ⟨.main hs, h.alive⟩, ⟨hs.good h.good h.alive, rfl, by simp, h.going,
        h.notPending, h.notHandled, h.notSent, h.alive⟩, .inr ⟨?_, ?_⟩⟩
      · simp [State.far, MainPc.reading, hpc]
      · rw [hpc]
        exact Nat.lt_succ_self 1
  | rearm =>
      have hs : MainStep s .main { s with pc := .clear, clock := some (s.now + TIMESLOT) } :=
        .rearm hpc
      refine ⟨_, _, ⟨.main hs, h.alive⟩, ⟨hs.good h.good h.alive, rfl, by simp, h.going,
        h.notPending, h.notHandled, h.notSent, h.alive⟩, .inl ?_⟩
      simp only [State.far, MainPc.reading, hpc, Option.elim_some]
      simp
      omega
  | loop entries =>
      cases entries with
      | nil =>
          have hs : MainStep s .main { s with pc := if s.timeout then .tick else .head } :=
            .loopEnd hpc
          by_cases ht : s.timeout = true
          · rw [if_pos ht] at hs
            exact h.move cfg hs rfl (by simp) (by rw [hpc]; rfl) (by simp) (by simp [hpc])
              (by rw [hpc]; exact Nat.zero_lt_two)
          · rw [if_neg ht] at hs
            exact h.move cfg hs rfl (by simp) (by rw [hpc]; rfl) (by simp) (by simp [hpc])
              (by rw [hpc]; exact Nat.one_lt_two)
      | cons entry entries =>
          cases entry with
          | other =>
              exact h.move cfg (.other hpc) rfl (by simp) (by simp [hpc, MainPc.reading]) (by simp)
                (by simp [hpc]) (by rw [hpc]; exact Nat.lt_succ_self _)
          | signal => exact h.next_receive cfg hpc

end Going

/-- Without a `SIGTERM` from outside there is none inside. -/
theorem Runs.noTerm (hr : Runs cfg evs s) (hno : .raise ∉ evs) :
    s.stopServer = false ∧ s.pending .term = false ∧ .term ∉ s.handlers ∧ .term ∉ s.pipe := by
  induction hr with
  | nil => exact ⟨rfl, rfl, List.not_mem_nil, List.not_mem_nil⟩
  | @snoc evs s s' e hr hs ih =>
      obtain ⟨hstop, hpending, hhandlers, hpipe⟩ := ih fun h => hno (List.mem_append_left _ h)
      obtain ⟨hact, -⟩ := hs
      cases hact with
      | main hs =>
          cases hs with
          | @signal es n hpc h0 hmax hn =>
              have hterm : .term ∉ s.pipe.take n := fun hm => hpipe (List.mem_of_mem_take hm)
              refine ⟨?_, hpending, hhandlers, fun hm => hpipe (List.mem_of_mem_drop hm)⟩
              simp [dealwithsingal_eq, hstop, hterm]
          | _ => exact ⟨hstop, hpending, hhandlers, hpipe⟩
      | signal hs =>
          cases hs with
          | raise =>
              exact absurd (List.mem_append_right _ (List.mem_singleton_self _)) hno
          | @deliver sig hp hi =>
              cases sig with
              | alrm => exact ⟨hstop, hpending, by simpa using hhandlers, hpipe⟩
              | term => exact absurd (hpending.symm.trans hp) Bool.false_ne_true
          | @send sig hmem hpub =>
              have hsig : sig ≠ .term := fun h => hhandlers (h ▸ hmem)
              exact ⟨hstop, hpending, fun hm => hhandlers (List.mem_of_mem_erase hm), by
                simpa [hpipe] using Ne.symm hsig⟩
          | sendFull hmem hpub hfull =>
              exact ⟨hstop, hpending, fun hm => hhandlers (List.mem_of_mem_erase hm), hpipe⟩
          | _ => exact ⟨hstop, hpending, hhandlers, hpipe⟩

/-- **The next tick comes**: some run from here reaches it. -/
theorem Going.progress (cfg : Config) (h : Going s) :
    ∃ evs' s', Run (Step cfg) s evs' s' ∧ .tick s'.now ∈ evs' := by
  obtain ⟨evs', s', hr, hgoing, htick⟩ := Run.exists_of_decreasing (fun s => s.pc = .tick)
    State.far (fun s => s.pc.toWait) (fun s h hne => h.next cfg hne) s h
  exact ⟨_, _, hr.snoc ⟨.main (.tick htick), hgoing.alive⟩,
    List.mem_append_right _ (List.mem_singleton_self _)⟩

/-- `dealwithsingal` never finds the socket pair empty. -/
theorem Runs.not_failed (hr : Runs cfg evs s) : .failed ∉ evs := by
  intro hmem
  obtain ⟨pre, post, s₁, s₂, -, hr, ⟨hact, -⟩, -⟩ := hr.split_of_mem hmem
  cases hact with
  | main hs =>
      cases hs with
      | signalFailed hpc hpipe =>
          exact ((Runs.good hr).entries _ hpc).2 List.mem_cons_self hpipe
  | signal hs => cases hs

/-- **The heartbeat.**  In every run of the main thread, the kernel and the handlers, from
`alarm(TIMESLOT)` on exactly one alarm is on its way to the next tick, unless a `SIGTERM` stops the
loop; two ticks are `TIMESLOT` apart; a handler never loses a `SIGTERM`, and once `stop_server` is
set the loop does not wait again; `dealwithsingal` never fails, and a signal ends the process
otherwise only before `u_pipefd` is set.  As long as nobody has sent a `SIGTERM`, some run reaches
the next tick. -/
theorem heartbeat (hr : Runs cfg evs s) :
    s.alarms ≤ 1 ∧ (s.pc.unarmed = false → s.alarms = 1 ∨ s.stopping) ∧
      (ticks evs).Pairwise (fun a b => a + TIMESLOT ≤ b) ∧
      (s.ended = none → ∀ taken, .send .term taken ∈ evs → s.stopping) ∧
      (s.stopServer = true → s.pc ≠ .wait) ∧ .failed ∉ evs ∧
      (s.ended ≠ none → s.pc.startup = true) ∧
      (s.pc.startup = false → s.pc ≠ .returned → .raise ∉ evs →
        ∃ evs' s', Run (Step cfg) s evs' s' ∧ .tick s'.now ∈ evs') := by
  have hgood := Runs.good hr
  refine ⟨hgood.atMost, hgood.armed, (Runs.spaced hr).apart,
    fun he taken hsend => Runs.stopping hr he hsend, fun hstop hpc => ?_, Runs.not_failed hr,
    fun he => hgood.ended (Option.isSome_iff_ne_none.2 he), fun hstart hrun hno => ?_⟩
  · rw [hgood.waiting hpc] at hstop
    cases hstop
  · obtain ⟨h₁, h₂, h₃, h₄⟩ := Runs.noTerm hr hno
    have halive : s.ended = none := by
      by_contra he
      rw [hgood.ended (Option.isSome_iff_ne_none.2 he)] at hstart
      cases hstart
    exact Going.progress cfg ⟨hgood, hstart, hrun, h₁, h₂, h₃, h₄, halive⟩

/-- `eventListen` ends with one alarm on its way and a tick to come. -/
theorem heartbeat_started : ∃ (evs : List Event) (s : State),
    Runs ⟨2, le_refl 2⟩ evs s ∧ s.pc = .head ∧ s.alarms = 1 ∧
      ∃ evs' s', Run (Step ⟨2, le_refl 2⟩) s evs' s' ∧ .tick s'.now ∈ evs' := by
  have h : Runs ⟨2, le_refl 2⟩ [] {} := .nil
  have h := h.snoc ⟨.main (.addsigAlrm rfl), rfl⟩
  have h := h.snoc ⟨.main (.addsigTerm rfl), rfl⟩
  have h := h.snoc ⟨.main (.alarm rfl), rfl⟩
  have h := h.snoc ⟨.main (.publish rfl), rfl⟩
  exact ⟨_, _, h, rfl, rfl, (heartbeat h).2.2.2.2.2.2.2 rfl (by simp) (by simp)⟩

end Gateway.SignalLoop
