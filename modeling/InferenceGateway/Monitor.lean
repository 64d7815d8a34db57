/-
**Monitors: a mutex, a condition variable, and what the threads may rely on.**

Threads share data under one mutex.  A thread that has the mutex may release it and fall asleep on
the condition variable in one step; it is woken by a broadcast, by a signal, or by nothing at all,
and takes the mutex again before it goes on.  What the data are, where a thread is in its program
and which of these things it does there are parameters, and each thread may have its own program.

Main definitions:

* `Monitor.Program` — what a thread does at each of its places;
* `Monitor.Step` — one step of one thread;
* `Monitor.Sound` — an invariant of the data while the mutex is free, with what the thread that has
  the mutex knows of them at each place;
* `Monitor.Wakes` — every step that makes the condition of a sleeper true leaves behind a thread
  that will wake it.

Main results:

* `Monitor.exclusive` — one thread has the mutex;
* `Monitor.outside`, `Monitor.thread` — the rules for places outside and for one thread;
* `Monitor.Sound.run` — **the rule for invariants**;
* `Monitor.Sound.refines` — **the rule for atomicity**: the data change as the visible actions say,
  one after the other;
* `Monitor.Wakes.run` — **the rule against lost wakeups**.
-/

import InferenceGateway.EventSystem

set_option relaxedAutoImplicit false
set_option autoImplicit false

namespace Monitor

variable {ι σ π ε : Type*}

/-! ### Threads -/

/-- Where a thread is: without the mutex, with it, asleep on the condition variable, or awake there
and about to take the mutex again. -/
inductive Phase (π : Type*)
  | outside (p : π)
  | inside (p : π)
  | asleep (p : π)
  | notified (p : π)

namespace Phase

/-- What a broadcast does to a thread. -/
def wake : Phase π → Phase π
  | asleep p => notified p
  | ph => ph

/-- The place of a thread. -/
def place : Phase π → π
  | outside p | inside p | asleep p | notified p => p

@[simp] theorem place_wake (ph : Phase π) : ph.wake.place = ph.place := by
  cases ph <;> rfl

/-- The place of a thread that executes its program. -/
def running : Phase π → Option π
  | outside p | inside p => some p
  | asleep _ | notified _ => none

end Phase

/-- What a thread does: calls without the mutex, where it takes the mutex, actions with the mutex
and what they show, where it releases the mutex, where it falls asleep, what it goes on with
afterwards, and where it wakes all sleepers or one of them. -/
structure Program (σ π ε : Type*) where
  call : π → π → Prop
  enter : π → Prop
  act : π → σ → Option ε → π → σ → Prop
  leave : π → π → Prop
  wait : π → σ → Prop
  resume : π → π → Prop
  broadcast : π → π → Prop
  signal : π → π → Prop

/-- The joint state. -/
structure State (ι σ π : Type*) where
  data : σ
  owner : Option ι
  threads : ι → Phase π

/-- All threads at their first place, without the mutex. -/
def State.start (data : σ) (p : ι → π) : State ι σ π where
  data := data
  owner := none
  threads i := .outside (p i)

/-- A step that is made with the mutex or without it. -/
inductive Moves (R : π → π → Prop) : Phase π → Phase π → Prop
  | outside {p p' : π} (h : R p p') : Moves R (.outside p) (.outside p')
  | inside {p p' : π} (h : R p p') : Moves R (.inside p) (.inside p')

section Steps

variable [DecidableEq ι]

/-- Thread `i` goes to another place. -/
def State.move (s : State ι σ π) (i : ι) (ph : Phase π) : State ι σ π :=
  { s with threads := Function.update s.threads i ph }

/-- One step of one thread.  `wake` is what comes without a broadcast or a signal: a spurious
wakeup or the end of a timeout. -/
inductive Step (P : ι → Program σ π ε) (s : State ι σ π) :
    Option (ι × ε) → State ι σ π → Prop
  | call {i : ι} {p p' : π} (at_ : s.threads i = .outside p) (h : (P i).call p p') :
      Step P s none (s.move i (.outside p'))
  | lock {i : ι} {p : π} (at_ : s.threads i = .outside p) (h : (P i).enter p)
      (free : s.owner = none) : Step P s none { s.move i (.inside p) with owner := some i }
  | act {i : ι} {p p' : π} {e : Option ε} {d : σ} (at_ : s.threads i = .inside p)
      (h : (P i).act p s.data e p' d) :
      Step P s (e.map (Prod.mk i)) { s.move i (.inside p') with data := d }
  | unlock {i : ι} {p p' : π} (at_ : s.threads i = .inside p) (h : (P i).leave p p') :
      Step P s none { s.move i (.outside p') with owner := none }
  | wait {i : ι} {p : π} (at_ : s.threads i = .inside p) (h : (P i).wait p s.data) :
      Step P s none { s.move i (.asleep p) with owner := none }
  | wake {i : ι} {p : π} (at_ : s.threads i = .asleep p) : Step P s none (s.move i (.notified p))
  | relock {i : ι} {p p' : π} (at_ : s.threads i = .notified p) (h : (P i).resume p p')
      (free : s.owner = none) : Step P s none { s.move i (.inside p') with owner := some i }
  | broadcast {i : ι} {ph : Phase π} (h : Moves (P i).broadcast (s.threads i) ph) :
      Step P s none
        { s with threads := Function.update (fun j => (s.threads j).wake) i ph }
  | signal {i j : ι} {ph : Phase π} {q : π} (h : Moves (P i).signal (s.threads i) ph)
      (sleeper : s.threads j = .asleep q) :
      Step P s none ((s.move i ph).move j (.notified q))
  | signalNobody {i : ι} {ph : Phase π} (h : Moves (P i).signal (s.threads i) ph)
      (nobody : ∀ j q, s.threads j ≠ .asleep q) : Step P s none (s.move i ph)

/-- What the threads did, in order. -/
def shown (evs : List (Option (ι × ε))) : List ε := evs.filterMap (Option.map Prod.snd)

/-- What thread `i` did in a step. -/
def own (i : ι) (e : Option (ι × ε)) : Option ε :=
  e.bind fun x => if x.1 = i then some x.2 else none

/-- What thread `i` did, in order. -/
def shownBy (i : ι) (evs : List (Option (ι × ε))) : List ε := evs.filterMap (own i)

end Steps

/-! ### Who has the mutex -/

/-- The owner of the mutex is the thread that is inside. -/
def Owned (s : State ι σ π) : Prop :=
  ∀ i, s.owner = some i ↔ ∃ p, s.threads i = .inside p

/-- **Two threads are never inside.** -/
theorem exclusive {s : State ι σ π} (h : Owned s) {i j : ι} {p q : π}
    (hi : s.threads i = .inside p) (hj : s.threads j = .inside q) : i = j :=
  Option.some.inj (((h i).2 ⟨p, hi⟩).symm.trans ((h j).2 ⟨q, hj⟩))

theorem not_inside {s : State ι σ π} (h : Owned s) (hfree : s.owner = none) {i : ι} {p : π} :
    s.threads i ≠ .inside p := by
  intro hi
  have howner := (h i).2 ⟨p, hi⟩
  rw [hfree] at howner
  cases howner

variable [DecidableEq ι] {P : ι → Program σ π ε} {s s' : State ι σ π}

@[simp] theorem move_self (s : State ι σ π) (i : ι) (ph : Phase π) :
    (s.move i ph).threads i = ph := Function.update_self ..

theorem move_of_ne {i j : ι} (h : j ≠ i) (s : State ι σ π) (ph : Phase π) :
    (s.move i ph).threads j = s.threads j := Function.update_of_ne h ..

/-- A step that neither enters nor leaves. -/
theorem owned_move (h : Owned s) {i : ι} {ph : Phase π}
    (hiff : (∃ p, ph = .inside p) ↔ ∃ p, s.threads i = .inside p) : Owned (s.move i ph) := by
  intro j
  by_cases hj : j = i
  · subst hj
    rw [move_self, hiff]
    exact h j
  · rw [move_of_ne hj]
    exact h j

/-- A step that takes the mutex. -/
theorem owned_enter (h : Owned s) (hfree : s.owner = none) (i : ι) (p : π) :
    Owned { s.move i (.inside p) with owner := some i } := by
  intro j
  by_cases hj : j = i
  · subst hj
    exact ⟨fun _ => ⟨p, move_self s j _⟩, fun _ => rfl⟩
  · refine ⟨fun heq => absurd (Option.some.inj heq).symm hj, ?_⟩
    rintro ⟨q, hq⟩
    exact absurd ((move_of_ne hj s _).symm.trans hq) (not_inside h hfree)

/-- A step that gives it back. -/
theorem owned_leave (h : Owned s) {i : ι} {p : π} (hi : s.threads i = .inside p) {ph : Phase π}
    (hph : ∀ q, ph ≠ .inside q) : Owned { s.move i ph with owner := none } := by
  intro j
  refine ⟨fun heq => absurd heq (Option.some_ne_none j).symm, ?_⟩
  rintro ⟨q, hq⟩
  by_cases hj : j = i
  · subst hj
    exact absurd ((move_self s j ph).symm.trans hq) (hph q)
  · exact absurd (exclusive h ((move_of_ne hj s ph).symm.trans hq) hi) hj

theorem wake_eq_inside {ph : Phase π} {p : π} : ph.wake = .inside p ↔ ph = .inside p := by
  cases ph <;> simp [Phase.wake]

theorem Moves.inside_iff {R : π → π → Prop} {ph ph' : Phase π} (h : Moves R ph ph') :
    (∃ p, ph' = .inside p) ↔ ∃ p, ph = .inside p := by
  cases h <;> simp

theorem Owned.step (h : Owned s) {e : Option (ι × ε)} (hs : Step P s e s') : Owned s' := by
  cases hs with
  | call hat _ => exact owned_move h (by simp [hat])
  | lock _ _ hfree => exact owned_enter h hfree _ _
  | act hat _ => exact owned_move h (by simp [hat])
  | unlock hat _ => exact owned_leave h hat (by simp)
  | wait hat _ => exact owned_leave h hat (by simp)
  | wake hat => exact owned_move h (by simp [hat])
  | relock _ _ hfree => exact owned_enter h hfree _ _
  | @broadcast i ph hmoves =>
      intro j
      rw [h j]
      dsimp only
      by_cases hj : j = i
      · subst hj
        rw [Function.update_self, hmoves.inside_iff]
      · rw [Function.update_of_ne hj]
        simp only [wake_eq_inside]
  | @signal i j ph q hmoves hsleeper =>
      have hij : j ≠ i := by
        rintro rfl
        rw [hsleeper] at hmoves
        cases hmoves
      refine owned_move (owned_move h hmoves.inside_iff) ?_
      rw [move_of_ne hij, hsleeper]
      simp
  | signalNobody hmoves _ => exact owned_move h hmoves.inside_iff

omit [DecidableEq ι] in
theorem Owned.start (data : σ) (p : ι → π) : Owned (State.start data p) := by
  intro i
  simp [State.start]

/-- **The rule for places outside**: a thread without the mutex is where it began, or where a call,
an `unlock`, or a broadcast or a signal without the mutex has led it. -/
theorem outside {O : ι → π → Prop}
    (hcall : ∀ {i p p'}, (P i).call p p' → O i p → O i p')
    (hleave : ∀ {i p p'}, (P i).leave p p' → O i p')
    (hbroadcast : ∀ {i p p'}, (P i).broadcast p p' → O i p → O i p')
    (hsignal : ∀ {i p p'}, (P i).signal p p' → O i p → O i p') {data : σ} {p : ι → π}
    (h : ∀ i, O i (p i)) {evs : List (Option (ι × ε))}
    (hr : EventSystem.Run (Step P) (State.start data p) evs s) :
    ∀ i q, s.threads i = .outside q → O i q := by
  have hmoves : ∀ {R : ι → π → π → Prop}, (∀ {i p p'}, R i p p' → O i p → O i p') →
      ∀ {s : State ι σ π} {i ph q}, (∀ j r, s.threads j = .outside r → O j r) →
        Moves (R i) (s.threads i) ph → ph = .outside q → O i q := by
    rintro R hR s i ph q hs hm rfl
    generalize hph : s.threads i = ph₀ at hm
    cases hm with
    | outside h => exact hR h (hs i _ hph)
  have hmove : ∀ {s : State ι σ π} {i ph}, (∀ j r, s.threads j = .outside r → O j r) →
      (∀ q, ph = .outside q → O i q) → ∀ j q, (s.move i ph).threads j = .outside q → O j q := by
    intro s i ph hs hph j q hj
    by_cases hji : j = i
    · subst hji
      exact hph q ((move_self s j ph).symm.trans hj)
    · exact hs j q ((move_of_ne hji s ph).symm.trans hj)
  refine hr.invariant_state (P := fun s => ∀ i q, s.threads i = .outside q → O i q) ?_ ?_
  · rintro i q ⟨⟩
    exact h i
  · intro s e s' hs hstep
    cases hstep with
    | call hat hc =>
        refine hmove hs ?_
        rintro q ⟨⟩
        exact hcall hc (hs _ _ hat)
    | unlock _ hl =>
        refine hmove hs ?_
        rintro q ⟨⟩
        exact hleave hl
    | lock | act | wait | wake | relock => exact hmove hs (by simp)
    | @broadcast i ph hm =>
        intro j q hj
        dsimp only at hj
        by_cases hji : j = i
        · subst hji
          rw [Function.update_self] at hj
          exact hmoves hbroadcast hs hm hj
        · rw [Function.update_of_ne hji] at hj
          refine hs j q ?_
          cases hph : s.threads j <;> rw [hph] at hj <;> cases hj
          rfl
    | signal hm _ => exact hmove (hmove hs fun q => hmoves hsignal hs hm) (by simp)
    | signalNobody hm _ => exact hmove hs fun q => hmoves hsignal hs hm

/-! ### The rule for one thread -/

/-- What was done was done by a thread. -/
theorem mem_shown {evs : List (Option (ι × ε))} {e : ε} (h : e ∈ shown evs) :
    ∃ i, e ∈ shownBy i evs := by
  obtain ⟨x, hx, he⟩ := List.mem_filterMap.1 h
  obtain ⟨⟨i, e'⟩, rfl, rfl⟩ := Option.map_eq_some_iff.1 he
  exact ⟨i, List.mem_filterMap.2 ⟨_, hx, if_pos rfl⟩⟩

theorem mem_shown_of_own {evs : List (Option (ι × ε))} {i : ι} {e : ε} (h : e ∈ shownBy i evs) :
    e ∈ shown evs := by
  obtain ⟨x, hx, he⟩ := List.mem_filterMap.1 h
  obtain ⟨⟨j, e'⟩, rfl, hj⟩ := Option.bind_eq_some_iff.1 he
  dsimp only at hj
  split at hj
  · cases hj
    exact List.mem_filterMap.2 ⟨_, hx, rfl⟩
  · cases hj

/-- What a step is for one thread. -/
inductive Local (P : Program σ π ε) : π → Option ε → π → Prop
  | stutter {p : π} : Local P p none p
  | call {p p' : π} (h : P.call p p') : Local P p none p'
  | act {p p' : π} {e : Option ε} {d d' : σ} (h : P.act p d e p' d') : Local P p e p'
  | leave {p p' : π} (h : P.leave p p') : Local P p none p'
  | resume {p p' : π} (h : P.resume p p') : Local P p none p'
  | broadcast {p p' : π} (h : P.broadcast p p') : Local P p none p'
  | signal {p p' : π} (h : P.signal p p') : Local P p none p'

theorem local_move (s : State ι σ π) {i j : ι} {ph : Phase π}
    (h : j = i → Local (P i) (s.threads i).place none ph.place) :
    Local (P i) (s.threads i).place none ((s.move j ph).threads i).place := by
  by_cases hij : i = j
  · subst hij
    rw [move_self]
    exact h rfl
  · rw [move_of_ne hij]
    exact .stutter

omit [DecidableEq ι] in
theorem Moves.places {R : π → π → Prop} {ph ph' : Phase π} (h : Moves R ph ph') :
    R ph.place ph'.place := by
  cases h with
  | outside h => exact h
  | inside h => exact h

/-- What a thread does is its own. -/
theorem own_self (i : ι) (e : Option ε) : own i (e.map (Prod.mk i)) = e := by
  cases e with
  | none => rfl
  | some e => exact if_pos rfl

theorem own_of_ne {i j : ι} (hij : i ≠ j) (e : Option ε) : own i (e.map (Prod.mk j)) = none := by
  cases e with
  | none => rfl
  | some e => exact if_neg (Ne.symm hij)

theorem Step.local {e : Option (ι × ε)} (hs : Step P s e s') (i : ι) :
    Local (P i) (s.threads i).place (own i e) (s'.threads i).place := by
  cases hs with
  | call hat h =>
      refine local_move s ?_
      rintro rfl
      rw [hat]
      exact .call h
  | lock hat _ _ | wait hat _ | wake hat =>
      refine local_move s ?_
      rintro rfl
      rw [hat]
      exact .stutter
  | @act j p p' e d hat h =>
      dsimp only
      by_cases hij : i = j
      · subst hij
        rw [own_self, move_self, hat]
        exact .act h
      · rw [own_of_ne hij, move_of_ne hij]
        exact .stutter
  | unlock hat h =>
      refine local_move s ?_
      rintro rfl
      rw [hat]
      exact .leave h
  | relock hat h _ =>
      refine local_move s ?_
      rintro rfl
      rw [hat]
      exact .resume h
  | @broadcast j ph h =>
      dsimp only
      by_cases hij : i = j
      · subst hij
        rw [Function.update_self]
        exact .broadcast h.places
      · rw [Function.update_of_ne hij, Phase.place_wake]
        exact .stutter
  | @signal j k ph q h hsleeper =>
      have hjk : k ≠ j := by
        rintro rfl
        rw [hsleeper] at h
        cases h
      by_cases hik : i = k
      · subst hik
        rw [move_self, hsleeper]
        exact .stutter
      · rw [move_of_ne hik]
        refine local_move s ?_
        rintro rfl
        exact .signal h.places
  | signalNobody h _ =>
      refine local_move s ?_
      rintro rfl
      exact .signal h.places

/-- **The rule for one thread.**  `L p es` is a property of the place of thread `i` and of what it
did; only the steps of its own program matter. -/
theorem thread {i : ι} {L : π → List ε → Prop}
    (hlocal : ∀ {p e p' es}, Local (P i) p e p' → L p es → L p' (es ++ e.toList)) {data : σ}
    {p : ι → π} (h : L (p i) []) {evs : List (Option (ι × ε))}
    (hr : EventSystem.Run (Step P) (State.start data p) evs s) :
    L (s.threads i).place (shownBy i evs) := by
  refine hr.invariant (P := fun evs s => L (s.threads i).place (shownBy i evs)) h ?_
  intro evs s e s' _ ih hs
  have hsnoc : shownBy i (evs ++ [e]) = shownBy i evs ++ (own i e).toList := by
    rw [shownBy, List.filterMap_append, ← shownBy]
    cases h : own i e with
    | none => rw [List.filterMap_cons_none h, List.filterMap_nil, Option.toList_none]
    | some x => rw [List.filterMap_cons_some h, List.filterMap_nil, Option.toList_some]
  rw [hsnoc]
  exact hlocal (hs.local i) ih

/-! ### The rule for invariants -/

/-- `I` holds of the data while the mutex is free, and the thread that has the mutex at the place
`p` knows `A i p` of them. -/
structure Sound (P : ι → Program σ π ε) (I : σ → Prop) (A : ι → π → σ → Prop) : Prop where
  enter : ∀ {i p d}, (P i).enter p → I d → A i p d
  act : ∀ {i p d e p' d'}, (P i).act p d e p' d' → A i p d → A i p' d'
  leave : ∀ {i p p' d}, (P i).leave p p' → A i p d → I d
  wait : ∀ {i p d}, (P i).wait p d → A i p d → I d
  resume : ∀ {i p p' d}, (P i).resume p p' → I d → A i p' d
  broadcast : ∀ {i p p' d}, (P i).broadcast p p' → A i p d → A i p' d
  signal : ∀ {i p p' d}, (P i).signal p p' → A i p d → A i p' d

/-- What the rule gives in a state. -/
structure Keeps (I : σ → Prop) (A : ι → π → σ → Prop) (s : State ι σ π) : Prop where
  owned : Owned s
  free : s.owner = none → I s.data
  held : ∀ i p, s.threads i = .inside p → A i p s.data

namespace Sound

variable {I : σ → Prop} {A : ι → π → σ → Prop}

omit [DecidableEq ι] in
theorem start {data : σ} (h : I data) (p : ι → π) : Keeps I A (State.start data p) where
  owned := .start data p
  free _ := h
  held i q hq := by cases hq

/-- A step of thread `i`, which was inside or is not inside afterwards. -/
theorem keeps_move (hk : Keeps I A s) {i : ι} {ph : Phase π} (howned : Owned (s.move i ph))
    (hheld : ∀ p, ph = .inside p → A i p s.data) : Keeps I A (s.move i ph) where
  owned := howned
  free := hk.free
  held j q hq := by
    by_cases hj : j = i
    · subst hj
      exact hheld q ((move_self s j ph).symm.trans hq)
    · exact hk.held j q ((move_of_ne hj s ph).symm.trans hq)

omit [DecidableEq ι] in
/-- A step that is made with the mutex or without it. -/
theorem keeps_moves (hk : Keeps I A s) {i : ι} {R : π → π → Prop} {ph : Phase π}
    (hmoves : Moves R (s.threads i) ph)
    (hR : ∀ {p p'}, R p p' → A i p s.data → A i p' s.data) :
    ∀ p, ph = .inside p → A i p s.data := by
  generalize hph : s.threads i = ph₀ at hmoves
  cases hmoves with
  | outside _ => exact fun p hp => by cases hp
  | inside h =>
      rintro p ⟨⟩
      exact hR h (hk.held i _ hph)

theorem step (hP : Sound P I A) (hk : Keeps I A s) {e : Option (ι × ε)} (hs : Step P s e s') :
    Keeps I A s' := by
  have howned := hk.owned.step hs
  cases hs with
  | call _ _ => exact keeps_move hk howned fun p hp => by cases hp
  | @lock i p hat henter hfree =>
      refine ⟨howned, fun h => (by cases h), fun j q hq => ?_⟩
      obtain rfl := exclusive howned hq (move_self s i _)
      cases (move_self s j _).symm.trans hq
      exact hP.enter henter (hk.free hfree)
  | @act i p p' _ d hat hact =>
      refine ⟨howned, fun hnone => ?_, fun j q hq => ?_⟩
      · exact absurd hat (not_inside hk.owned hnone)
      · obtain rfl := exclusive howned hq (move_self s i _)
        cases (move_self s j _).symm.trans hq
        exact hP.act hact (hk.held j _ hat)
  | @unlock i p p' hat hleave =>
      refine ⟨howned, fun _ => hP.leave hleave (hk.held i p hat), fun j q hq => ?_⟩
      exact absurd hq (not_inside howned rfl)
  | @wait i p hat hwait =>
      refine ⟨howned, fun _ => hP.wait hwait (hk.held i p hat), fun j q hq => ?_⟩
      exact absurd hq (not_inside howned rfl)
  | wake _ => exact keeps_move hk howned fun p hp => by cases hp
  | @relock i p p' hat hresume hfree =>
      refine ⟨howned, fun h => (by cases h), fun j q hq => ?_⟩
      obtain rfl := exclusive howned hq (move_self s i _)
      cases (move_self s j _).symm.trans hq
      exact hP.resume hresume (hk.free hfree)
  | @broadcast i ph hmoves =>
      refine ⟨howned, hk.free, fun j q hq => ?_⟩
      dsimp only at hq
      by_cases hj : j = i
      · subst hj
        rw [Function.update_self] at hq
        exact keeps_moves hk hmoves hP.broadcast q hq
      · rw [Function.update_of_ne hj] at hq
        exact hk.held j q (wake_eq_inside.1 hq)
  | @signal i j ph q hmoves hsleeper =>
      have hij : j ≠ i := by
        rintro rfl
        rw [hsleeper] at hmoves
        cases hmoves
      have hk' : Keeps I A (s.move i ph) :=
        keeps_move hk (owned_move hk.owned hmoves.inside_iff) (keeps_moves hk hmoves hP.signal)
      exact keeps_move hk' howned fun p hp => by cases hp
  | signalNobody hmoves _ => exact keeps_move hk howned (keeps_moves hk hmoves hP.signal)

/-- **The rule for invariants.** -/
theorem run (hP : Sound P I A) {data : σ} {p : ι → π} (h : I data)
    {evs : List (Option (ι × ε))} (hr : EventSystem.Run (Step P) (State.start data p) evs s) :
    Keeps I A s :=
  hr.invariant_state (start h p) fun _ _ _ hk hs => hP.step hk hs

/-- **The rule for atomicity.**  If the silent actions leave the data alone, and the visible ones
do what `R` says, knowing what the thread knows there, then the data go through a run of `R` that
shows what the threads did, whatever the other steps are. -/
theorem refines (hP : Sound P I A) {R : σ → ε → σ → Prop}
    (hsilent : ∀ {i p d p' d'}, (P i).act p d none p' d' → d' = d)
    (hact : ∀ {i p d e p' d'}, (P i).act p d (some e) p' d' → A i p d → R d e d')
    {data : σ} {p : ι → π} (h : I data) {evs : List (Option (ι × ε))}
    (hr : EventSystem.Run (Step P) (State.start data p) evs s) :
    EventSystem.Run R data (shown evs) s.data := by
  refine hr.invariant (P := fun evs s => EventSystem.Run R data (shown evs) s.data) .nil ?_
  intro evs s e s' hr ih hs
  have hk := hP.run h hr
  have hskip : shown (evs ++ [none]) = shown evs := by simp [shown]
  cases hs with
  | @act i p p' e d hat hi =>
      cases e with
      | none =>
          obtain rfl := hsilent hi
          exact hskip ▸ ih
      | some e =>
          have hlast : shown (evs ++ [some (i, e)]) = shown evs ++ [e] := by simp [shown]
          exact hlast ▸ ih.snoc (hact hi (hk.held i p hat))
  | call | lock | unlock | wait | wake | relock | broadcast | signal | signalNobody =>
      exact hskip ▸ ih

end Sound

/-! ### The rule against lost wakeups -/

/-- `C i p` is what thread `i` waits for at the place `p`; a thread at a place where it `owes` will
wake the sleepers before anything else that matters.  Who makes the condition of another thread
true owes from then on, who falls asleep does not owe and waits for something that is false, and
signals are used only where one thread at most can wait. -/
structure Wakes (P : ι → Program σ π ε) (A C : ι → π → σ → Prop) (owes : ι → π → Prop) : Prop where
  call : ∀ {i p p'}, (P i).call p p' → owes i p → owes i p'
  act : ∀ {i p d e p' d'}, (P i).act p d e p' d' → A i p d → owes i p → owes i p'
  raise : ∀ {i p d e p' d' j q}, (P i).act p d e p' d' → A i p d → j ≠ i → ¬ C j q d → C j q d' →
    owes i p'
  leave : ∀ {i p p'}, (P i).leave p p' → owes i p → owes i p'
  wait : ∀ {i p d}, (P i).wait p d → A i p d → ¬ C i p d ∧ ¬ owes i p
  sole : ∀ {i p p'}, (P i).signal p p' →
    ∀ {j k q r d d'}, (P j).wait q d → (P k).wait r d' → j = k

/-- Each sleeper whose condition holds will be woken by a thread that runs, and each sleeper came
from a wait. -/
structure Covered (P : ι → Program σ π ε) (C : ι → π → σ → Prop) (owes : ι → π → Prop)
    (s : State ι σ π) : Prop where
  woken : ∀ i p, s.threads i = .asleep p → C i p s.data →
    ∃ j q, (s.threads j).running = some q ∧ owes j q
  slept : ∀ i p, s.threads i = .asleep p → ∃ d, (P i).wait p d

namespace Wakes

variable {A C : ι → π → σ → Prop} {owes : ι → π → Prop}

omit [DecidableEq ι] in
/-- A step is covered if its sleepers are old ones or fell asleep for a reason, if who owed still
owes, and if the condition of a sleeper was true before or somebody owes now. -/
theorem next (hc : Covered P C owes s)
    (hslept : ∀ j q, s'.threads j = .asleep q →
      s.threads j = .asleep q ∨ ¬ C j q s'.data ∧ ∃ d, (P j).wait q d)
    (howes : ∀ j q, (s.threads j).running = some q → owes j q →
      ∃ q', (s'.threads j).running = some q' ∧ owes j q')
    (hraise : ∀ j q, s'.threads j = .asleep q → C j q s'.data →
      C j q s.data ∨ ∃ k r, (s'.threads k).running = some r ∧ owes k r) : Covered P C owes s' where
  woken j q hj hC := by
    rcases hslept j q hj with hold | ⟨hnot, -⟩
    · rcases hraise j q hj hC with hC | howe
      · obtain ⟨k, r, hk, hr⟩ := hc.woken j q hold hC
        obtain ⟨r', hk', hr'⟩ := howes k r hk hr
        exact ⟨k, r', hk', hr'⟩
      · exact howe
    · exact absurd hC hnot
  slept j q hj := by
    rcases hslept j q hj with hold | ⟨-, hwait⟩
    · exact hc.slept j q hold
    · exact hwait

/-- Who sleeps after a step of one thread slept before, or is that thread. -/
theorem asleep_of_move {i j : ι} {ph : Phase π} {q : π}
    (h : (s.move i ph).threads j = .asleep q) :
    j ≠ i ∧ s.threads j = .asleep q ∨ j = i ∧ ph = .asleep q := by
  by_cases hji : j = i
  · subst hji
    rw [move_self] at h
    exact .inr ⟨rfl, h⟩
  · rw [move_of_ne hji] at h
    exact .inl ⟨hji, h⟩

theorem asleep_elsewhere {i j : ι} {ph : Phase π} {p' q : π} (hph : ph.running = some p')
    (h : (s.move i ph).threads j = .asleep q) : j ≠ i ∧ s.threads j = .asleep q := by
  rcases asleep_of_move h with hold | ⟨-, rfl⟩
  · exact hold
  · cases hph

/-- Who owed still owes after a step of one thread, if that thread does. -/
theorem owed_move {i : ι} {ph : Phase π}
    (howes : ∀ p, (s.threads i).running = some p → owes i p →
      ∃ p', ph.running = some p' ∧ owes i p') {j : ι} {q : π}
    (hj : (s.threads j).running = some q) (hq : owes j q) :
    ∃ q', ((s.move i ph).threads j).running = some q' ∧ owes j q' := by
  by_cases hji : j = i
  · subst hji
    rw [move_self]
    exact howes q hj hq
  · rw [move_of_ne hji]
    exact ⟨q, hj, hq⟩

/-- A step of one thread that leaves the data alone, and after which it runs. -/
theorem covered_move (hc : Covered P C owes s) {i : ι} {ph : Phase π} {p' : π}
    (hph : ph.running = some p')
    (howes : ∀ p, (s.threads i).running = some p → owes i p → owes i p') :
    Covered P C owes (s.move i ph) := by
  refine next hc (fun j q hj => .inl (asleep_elsewhere hph hj).2)
    (fun j q hj hq => owed_move (fun p hp howe => ?_) hj hq) fun _ _ _ hC => .inl hC
  exact ⟨p', hph, howes p hp howe⟩

omit [DecidableEq ι] in
theorem running_moves {R : π → π → Prop} {ph ph' : Phase π} (h : Moves R ph ph') :
    ∃ p', ph'.running = some p' := by
  cases h with
  | outside _ => exact ⟨_, rfl⟩
  | inside _ => exact ⟨_, rfl⟩

omit [DecidableEq ι] in
/-- Where nobody sleeps, nothing is to be covered. -/
theorem covered_of_awake (h : ∀ i p, s.threads i ≠ .asleep p) : Covered P C owes s :=
  ⟨fun i p hi => absurd hi (h i p), fun i p hi => absurd hi (h i p)⟩

theorem step (hW : Wakes P A C owes) {I : σ → Prop} (hk : Keeps I A s) (hc : Covered P C owes s)
    {e : Option (ι × ε)} (hs : Step P s e s') : Covered P C owes s' := by
  cases hs with
  | @call i p p' hat hcall =>
      refine covered_move hc rfl fun q hq howe => ?_
      rw [hat] at hq
      cases hq
      exact hW.call hcall howe
  | @lock i p hat _ _ =>
      have hmove : Covered P C owes (s.move i (.inside p)) := by
        refine covered_move hc rfl fun q hq howe => ?_
        rw [hat] at hq
        cases hq
        exact howe
      exact ⟨hmove.woken, hmove.slept⟩
  | @act i p p' e d hat hact =>
      have hA := hk.held i p hat
      have hrun : (Phase.inside p').running = some p' := rfl
      refine next hc (fun j q hj => .inl (asleep_elsewhere (s := s) hrun hj).2)
        (fun j q hj howe => owed_move (s := s) (fun q hq howe => ?_) hj howe) fun j q hj hC => ?_
      · rw [hat] at hq
        cases hq
        exact ⟨p', hrun, hW.act hact hA howe⟩
      · by_cases hold : C j q s.data
        · exact .inl hold
        · have hji := (asleep_elsewhere (s := s) hrun hj).1
          exact .inr ⟨i, p', congrArg Phase.running (move_self s i _),
            hW.raise hact hA hji hold hC⟩
  | @unlock i p p' hat hleave =>
      have hmove : Covered P C owes (s.move i (.outside p')) := by
        refine covered_move hc rfl fun q hq howe => ?_
        rw [hat] at hq
        cases hq
        exact hW.leave hleave howe
      exact ⟨hmove.woken, hmove.slept⟩
  | @wait i p hat hwait =>
      obtain ⟨hnot, hnotowes⟩ := hW.wait hwait (hk.held i p hat)
      refine next hc (fun j q hj => ?_)
        (fun j q hj howe => owed_move (s := s) (fun q hq howe => ?_) hj howe)
        fun _ _ _ hC => .inl hC
      · rcases asleep_of_move (s := s) hj with ⟨-, hold⟩ | ⟨rfl, heq⟩
        · exact .inl hold
        · cases heq
          exact .inr ⟨hnot, _, hwait⟩
      · rw [hat] at hq
        cases hq
        exact absurd howe hnotowes
  | @wake i p hat =>
      refine next hc (fun j q hj => ?_)
        (fun j q hj howe => owed_move (s := s) (fun q hq _ => ?_) hj howe) fun _ _ _ hC => .inl hC
      · rcases asleep_of_move hj with ⟨-, hold⟩ | ⟨-, heq⟩
        · exact .inl hold
        · cases heq
      · rw [hat] at hq
        cases hq
  | @relock i p p' hat hresume _ =>
      have hmove : Covered P C owes (s.move i (.inside p')) := by
        refine covered_move hc rfl fun q hq _ => ?_
        rw [hat] at hq
        cases hq
      exact ⟨hmove.woken, hmove.slept⟩
  | @broadcast i ph hmoves =>
      obtain ⟨p', hp'⟩ := running_moves hmoves
      refine covered_of_awake fun j q hj => ?_
      dsimp only at hj
      by_cases hji : j = i
      · subst hji
        rw [Function.update_self] at hj
        subst hj
        cases hp'
      · rw [Function.update_of_ne hji] at hj
        cases hph : s.threads j <;> rw [hph] at hj <;> cases hj
  | @signal i j ph q hmoves hsleeper =>
      obtain ⟨p', hp'⟩ := running_moves hmoves
      obtain ⟨p, r, hsig⟩ : ∃ p p', (P i).signal p p' := by
        generalize s.threads i = ph₀ at hmoves
        cases hmoves with
        | outside h => exact ⟨_, _, h⟩
        | inside h => exact ⟨_, _, h⟩
      obtain ⟨d, hd⟩ := hc.slept j q hsleeper
      -- the sleeper that was woken is the only one
      refine covered_of_awake fun k r hk' => ?_
      rcases asleep_of_move hk' with ⟨hkj, hk'⟩ | ⟨-, heq⟩
      · obtain ⟨-, hold⟩ := asleep_elsewhere hp' hk'
        obtain ⟨d', hd'⟩ := hc.slept k r hold
        exact hkj (hW.sole hsig hd' hd)
      · cases heq
  | @signalNobody i ph hmoves hnobody =>
      obtain ⟨p', hp'⟩ := running_moves hmoves
      exact covered_of_awake fun k r hk' => hnobody k r (asleep_elsewhere hp' hk').2

/-- **The rule against lost wakeups.**  While the condition of a sleeper holds, there is a thread
that will wake it. -/
theorem run (hW : Wakes P A C owes) {I : σ → Prop} (hP : Sound P I A) {data : σ} {p : ι → π}
    (h : I data) {evs : List (Option (ι × ε))}
    (hr : EventSystem.Run (Step P) (State.start data p) evs s) : Covered P C owes s := by
  refine hr.invariant (P := fun _ s => Covered P C owes s)
    (covered_of_awake fun i q hq => by cases hq) ?_
  intro evs s e s' hr hc hs
  exact hW.step (hP.run h hr) hc hs

end Wakes

end Monitor
