/-
**The heartbeat of the gateway: `SIGALRM`, the socket pair and the event loop.**

`eventListen` installs one handler for `SIGALRM` and `SIGTERM`, sets the alarm clock and then makes
the socket pair known to the handler.  The handler writes one byte; `eventLoop` finds the byte with
`epoll_wait`, `dealwithsingal` turns it into one of two flags, and at the end of a round a set
`timeout` lets `timer_handler` call `tick` and set the alarm clock again.  Nothing but this chain
ever ticks: should one alarm be lost, no idle connection would be closed any more.

The kernel, the handlers, which run in some thread, and the main thread take their steps in any
order.  A signal that is pending already is not counted twice, and `send` in the handler may find
the socket pair full.

Main definitions:

* `Gateway.SignalLoop.State`, `Gateway.SignalLoop.Step` — the three parties;
* `Gateway.SignalLoop.State.alarms` — how many alarms are on their way to the next tick;
* `Gateway.SignalLoop.State.stopping` — the loop has been told to stop, or a byte in the socket
  pair will tell it;
* `Gateway.SignalLoop.Good` — what holds in every reachable state.

Main results:

* `Gateway.SignalLoop.Good.receive`, `Gateway.SignalLoop.Good.arm`, `Gateway.SignalLoop.Good.keep` —
  what leaves the socket pair is in the flags, and nobody else loses an alarm;
* `Gateway.SignalLoop.Runs.good` — **every run keeps to it.**
-/

import InferenceGateway.Server

set_option relaxedAutoImplicit false
set_option autoImplicit false

namespace Gateway.SignalLoop

open EventSystem Web

/-! ### The parties -/

/-- The signals that have the handler `sig_handle`. -/
inductive Signal
  | alrm | term
  deriving DecidableEq

/-- An entry of the array that `epoll_wait` fills: `m_pipefd[0]` with `EPOLLIN`, or anything
else. -/
inductive Entry
  | signal | other
  deriving DecidableEq

/-- Where the main thread is: in `eventListen` before `addsig(SIGALRM, ..)`, `addsig(SIGTERM, ..)`,
`alarm(TIMESLOT)` and `Utils::u_pipefd = m_pipefd`; in `eventLoop` at the test of `stop_server`, in
`epoll_wait`, between two entries, in `timer_handler` before `tick` and before `alarm`, before
`timeout = false`; or behind the loop. -/
inductive MainPc
  | addsigAlrm | addsigTerm | alarm | publish
  | head
  | wait
  | loop (entries : List Entry)
  | tick
  | rearm
  | clear
  | returned
  deriving DecidableEq

/-- How the process ends otherwise: by the default action of `SIGTERM`, or in the handler with
`u_pipefd` still null. -/
inductive Fate
  | killed | segv
  deriving DecidableEq

/-- The socket pair takes at least `room` bytes. -/
structure Config where
  room : ℕ
  two_le_room : 2 ≤ room

/-- The joint state: the main thread with its flags, `u_pipefd`, the alarm clock with the time it
goes off, the pending signals, the handlers that have not sent yet, and the bytes in the socket
pair. -/
structure State where
  now : ℕ := 0
  pc : MainPc := .addsigAlrm
  timeout : Bool := false
  stopServer : Bool := false
  published : Bool := false
  clock : Option ℕ := none
  pending : Signal → Bool := fun _ => false
  handlers : List Signal := []
  pipe : List Signal := []
  ended : Option Fate := none

/-- What a step shows.  `failed` is a `dealwithsingal` that returns `false`. -/
inductive Event
  | main
  | tick (now : ℕ)
  | failed
  | time
  | expire
  | raise
  | deliver (sig : Signal)
  | send (sig : Signal) (taken : Bool)
  deriving DecidableEq

/-- The `switch (singals[i])` of `dealwithsingal`, with `timeout` and `stop_server`. -/
def switchSignal (flags : Bool × Bool) : Signal → Bool × Bool
  | .alrm => (true, flags.2)
  | .term => (flags.1, true)

/-- `dealwithsingal` on the bytes that `recv` has read. -/
def dealwithsingal (singals : List Signal) (flags : Bool × Bool) : Bool × Bool :=
  singals.foldl switchSignal flags

/-- Whether the handler of a signal has been installed. -/
def State.installed (s : State) : Signal → Prop
  | .alrm => s.pc ≠ .addsigAlrm
  | .term => s.pc ≠ .addsigAlrm ∧ s.pc ≠ .addsigTerm

/-- The steps of the main thread. -/
inductive MainStep (s : State) : Event → State → Prop
  | addsigAlrm : s.pc = .addsigAlrm → MainStep s .main { s with pc := .addsigTerm }
  | addsigTerm : s.pc = .addsigTerm → MainStep s .main { s with pc := .alarm }
  | alarm :
      s.pc = .alarm →
      MainStep s .main { s with pc := .publish, clock := some (s.now + TIMESLOT) }
  | publish : s.pc = .publish → MainStep s .main { s with pc := .head, published := true }
  | enter : s.pc = .head → s.stopServer = false → MainStep s .main { s with pc := .wait }
  | leave : s.pc = .head → s.stopServer = true → MainStep s .main { s with pc := .returned }
  /-- With no entries this is also a call that a signal interrupts (`EINTR`). -/
  | epollWait {entries : List Entry} :
      s.pc = .wait → entries.count .signal ≤ 1 → (.signal ∈ entries → s.pipe ≠ []) →
      MainStep s .main { s with pc := .loop entries }
  | epollFailure : s.pc = .wait → MainStep s .main { s with pc := .returned }
  | other {entries : List Entry} :
      s.pc = .loop (.other :: entries) → MainStep s .main { s with pc := .loop entries }
  /-- `recv` returns at most 1024 bytes. -/
  | signal {entries : List Entry} {n : ℕ} :
      s.pc = .loop (.signal :: entries) → 0 < n → n ≤ 1024 → n ≤ s.pipe.length →
      MainStep s .main { s with
        pc := .loop entries
        timeout := (dealwithsingal (s.pipe.take n) (s.timeout, s.stopServer)).1
        stopServer := (dealwithsingal (s.pipe.take n) (s.timeout, s.stopServer)).2
        pipe := s.pipe.drop n }
  | signalFailed {entries : List Entry} :
      s.pc = .loop (.signal :: entries) → s.pipe = [] →
      MainStep s .failed { s with pc := .loop entries }
  | loopEnd :
      s.pc = .loop [] → MainStep s .main { s with pc := if s.timeout then .tick else .head }
  | tick : s.pc = .tick → MainStep s (.tick s.now) { s with pc := .rearm }
  | rearm :
      s.pc = .rearm → MainStep s .main { s with pc := .clear, clock := some (s.now + TIMESLOT) }
  | clear : s.pc = .clear → MainStep s .main { s with pc := .head, timeout := false }

/-- The steps of the kernel and of the handlers.  A handler runs in any thread. -/
inductive SignalStep (cfg : Config) (s : State) : Event → State → Prop
  | time : SignalStep cfg s .time { s with now := s.now + 1 }
  | expire {d : ℕ} :
      s.clock = some d → d ≤ s.now →
      SignalStep cfg s .expire
        { s with clock := none, pending := Function.update s.pending .alrm true }
  /-- Somebody sends `SIGTERM`. -/
  | raise :
      SignalStep cfg s .raise { s with pending := Function.update s.pending .term true }
  | deliver {sig : Signal} :
      s.pending sig = true → s.installed sig →
      SignalStep cfg s (.deliver sig)
        { s with
          pending := Function.update s.pending sig false
          handlers := sig :: s.handlers }
  | deliverDefault {sig : Signal} :
      s.pending sig = true → ¬ s.installed sig →
      SignalStep cfg s (.deliver sig) { s with ended := some .killed }
  | send {sig : Signal} :
      sig ∈ s.handlers → s.published = true →
      SignalStep cfg s (.send sig true)
        { s with handlers := s.handlers.erase sig, pipe := s.pipe ++ [sig] }
  /-- The socket pair is full. -/
  | sendFull {sig : Signal} :
      sig ∈ s.handlers → s.published = true → cfg.room ≤ s.pipe.length →
      SignalStep cfg s (.send sig false) { s with handlers := s.handlers.erase sig }
  /-- `u_pipefd[1]` with `u_pipefd` null. -/
  | sendNull {sig : Signal} :
      sig ∈ s.handlers → s.published = false →
      SignalStep cfg s (.send sig false) { s with ended := some .segv }

/-- One action of a party. -/
inductive Act (cfg : Config) (s : State) (e : Event) (s' : State) : Prop
  | main : MainStep s e s' → Act cfg s e s'
  | signal : SignalStep cfg s e s' → Act cfg s e s'

/-- A process that has been ended does nothing. -/
abbrev Step (cfg : Config) : State → Event → State → Prop :=
  Guarded (Act cfg) fun s _ => s.ended = none

/-- The runs from the start of the process. -/
abbrev Runs (cfg : Config) (evs : List Event) (s : State) : Prop := Run (Step cfg) {} evs s

variable {cfg : Config} {s s' : State} {e : Event} {evs : List Event}

/-! ### `dealwithsingal` -/

/-- `dealwithsingal` sets the flags of the signals that it finds. -/
theorem dealwithsingal_eq (singals : List Signal) (flags : Bool × Bool) :
    dealwithsingal singals flags =
      (flags.1 || decide (.alrm ∈ singals), flags.2 || decide (.term ∈ singals)) := by
  unfold dealwithsingal
  induction singals generalizing flags with
  | nil => simp
  | cons sig singals ih =>
      rw [List.foldl_cons, ih]
      cases sig with
      | alrm => simp [switchSignal]
      | term => simp [switchSignal]

/-! ### What every step keeps -/

/-- The alarms on their way to the next tick: in the clock, pending, in a handler, in the socket
pair, or in the flag `timeout` until `timer_handler` has set the clock again. -/
def State.alarms (s : State) : ℕ :=
  s.clock.isSome.toNat + (s.pending .alrm).toNat + s.handlers.count .alrm + s.pipe.count .alrm +
    (s.timeout && s.pc != .clear).toNat

/-- The loop has been told to stop, or a byte in the socket pair will tell it. -/
def State.stopping (s : State) : Prop := s.stopServer = true ∨ .term ∈ s.pipe

/-- Where the main thread has not set the alarm clock yet. -/
def MainPc.unarmed : MainPc → Bool
  | .addsigAlrm | .addsigTerm | .alarm => true
  | _ => false

/-- Where `eventListen` has not told the handler of the socket pair. -/
def MainPc.startup : MainPc → Bool
  | .addsigAlrm | .addsigTerm | .alarm | .publish => true
  | _ => false

/-- Where `timeout` is clear. -/
def MainPc.untimed : MainPc → Bool
  | .loop _ | .tick | .rearm | .clear => false
  | _ => true

/-- What holds in every reachable state. -/
structure Good (s : State) : Prop where
  published : s.published = !s.pc.startup
  unarmed : s.pc.unarmed = true → s.alarms = 0
  atMost : s.alarms ≤ 1
  armed : s.pc.unarmed = false → s.alarms = 1 ∨ s.stopping
  untimed : s.pc.untimed = true → s.timeout = false
  ticking : s.pc = .tick ∨ s.pc = .rearm ∨ s.pc = .clear → s.timeout = true
  quiet : s.pc.startup = true → s.stopServer = false ∧ s.pipe = []
  waiting : s.pc = .wait → s.stopServer = false
  entries : ∀ es, s.pc = .loop es → es.count .signal ≤ 1 ∧ (.signal ∈ es → s.pipe ≠ [])
  ended : s.ended.isSome = true → s.pc.startup = true

theorem good_start : Good {} where
  published := rfl
  unarmed := fun _ => rfl
  atMost := Nat.zero_le _
  armed := fun h => by cases h
  untimed := fun _ => rfl
  ticking := fun h => by rcases h with h | h | h <;> cases h
  quiet := fun _ => ⟨rfl, rfl⟩
  waiting := fun h => by cases h
  entries := fun _ h => by cases h
  ended := fun h => by cases h

/-- A move of the main thread that leaves the alarms and the socket pair alone. -/
theorem Good.move {pc : MainPc} (h : Good s) (hstart : pc.startup = s.pc.startup)
    (harmed : pc.unarmed = s.pc.unarmed) (huntimed : pc.untimed = true → s.timeout = false)
    (hclear : s.timeout = true → pc ≠ .clear ∧ s.pc ≠ .clear)
    (hticking : pc = .tick ∨ pc = .rearm ∨ pc = .clear → s.timeout = true)
    (hwait : pc = .wait → s.stopServer = false)
    (hentries : ∀ es, pc = .loop es → es.count .signal ≤ 1 ∧ (.signal ∈ es → s.pipe ≠ [])) :
    Good { s with pc := pc } := by
  have halarms : ({ s with pc := pc } : State).alarms = s.alarms := by
    have hflag : (s.timeout && pc != .clear) = (s.timeout && s.pc != .clear) := by
      cases ht : s.timeout with
      | false => rfl
      | true => rw [bne_iff_ne.2 (hclear ht).1, bne_iff_ne.2 (hclear ht).2]
    simp only [State.alarms, hflag]
  exact {
    published := h.published.trans (by rw [hstart])
    unarmed := fun hpc => halarms.trans (h.unarmed (harmed ▸ hpc))
    atMost := halarms.le.trans h.atMost
    armed := fun hpc => by
      rw [halarms]
      exact h.armed (harmed ▸ hpc)
    untimed := huntimed
    ticking := hticking
    quiet := fun hpc => h.quiet (hstart ▸ hpc)
    waiting := hwait
    entries := hentries
    ended := fun he => hstart.trans (h.ended he) }

/-- The same with `timeout` clear. -/
theorem Good.move_untimed {pc : MainPc} (h : Good s) (hs : s.pc.untimed = true)
    (hstart : pc.startup = s.pc.startup) (harmed : pc.unarmed = s.pc.unarmed)
    (hpc : pc ≠ .tick ∧ pc ≠ .rearm ∧ pc ≠ .clear) (hwait : pc = .wait → s.stopServer = false)
    (hentries : ∀ es, pc = .loop es → es.count .signal ≤ 1 ∧ (.signal ∈ es → s.pipe ≠ [])) :
    Good { s with pc := pc } := by
  have ht := h.untimed hs
  refine h.move hstart harmed (fun _ => ht) (fun h => ?_) (fun hp => ?_) hwait hentries
  · exact absurd (ht.symm.trans h) Bool.false_ne_true
  · rcases hp with hp | hp | hp
    · exact absurd hp hpc.1
    · exact absurd hp hpc.2.1
    · exact absurd hp hpc.2.2

/-- A byte that is read sets `timeout`, which was clear since the byte was the only alarm. -/
theorem alarms_receive {es : List Entry} (n : ℕ) (hone : s.alarms ≤ 1)
    (hpc : s.pc = .loop (.signal :: es)) :
    ({ s with
      pc := .loop es
      timeout := s.timeout || decide (.alrm ∈ s.pipe.take n)
      stopServer := s.stopServer || decide (.term ∈ s.pipe.take n)
      pipe := s.pipe.drop n } : State).alarms = s.alarms := by
  have hcount : (s.pipe.take n).count .alrm + (s.pipe.drop n).count .alrm = s.pipe.count .alrm := by
    rw [← List.count_append, List.take_append_drop]
  have hflag : ∀ t : Bool, (t && MainPc.loop es != .clear) = t := fun t => Bool.and_true t
  have hflag' : (s.timeout && s.pc != .clear) = s.timeout := by
    rw [hpc]
    exact Bool.and_true _
  simp only [State.alarms, hflag, hflag'] at hone ⊢
  by_cases hmem : Signal.alrm ∈ s.pipe.take n
  · have hpos := List.count_pos_iff.2 hmem
    have ht : s.timeout = false := by
      by_contra hne
      simp only [Bool.not_eq_false] at hne
      rw [hne, Bool.toNat_true] at hone
      omega
    rw [decide_eq_true hmem, ht, Bool.or_true, Bool.toNat_true, Bool.toNat_false]
    rw [ht, Bool.toNat_false] at hone
    omega
  · rw [decide_eq_false hmem, Bool.or_false]
    have hzero : (s.pipe.take n).count .alrm = 0 := List.count_eq_zero.2 hmem
    omega

/-- `recv` in `dealwithsingal`: what leaves the socket pair is in the flags. -/
theorem Good.receive {es : List Entry} {n : ℕ} (h : Good s) (hpc : s.pc = .loop (.signal :: es)) :
    Good { s with
      pc := .loop es
      timeout := (dealwithsingal (s.pipe.take n) (s.timeout, s.stopServer)).1
      stopServer := (dealwithsingal (s.pipe.take n) (s.timeout, s.stopServer)).2
      pipe := s.pipe.drop n } := by
  simp only [dealwithsingal_eq]
  have halarms := alarms_receive n h.atMost hpc
  have hnone : Entry.signal ∉ es := fun hmem => by
    have := List.count_pos_iff.2 hmem
    have := (h.entries _ hpc).1
    simp at this
    omega
  refine {
    published := h.published.trans (by rw [hpc]; rfl)
    unarmed := fun hp => by cases hp
    atMost := halarms.le.trans h.atMost
    armed := fun _ => ?_
    untimed := fun hp => by cases hp
    ticking := fun hp => by simp at hp
    quiet := fun hp => by cases hp
    waiting := fun hp => by cases hp
    entries := ?_
    ended := fun he => by
      have := h.ended he
      rw [hpc] at this
      cases this }
  · rw [halarms]
    refine (h.armed (by rw [hpc]; rfl)).imp_right fun hstop => ?_
    rcases hstop with hstop | hterm
    · exact .inl (by simp [hstop])
    · rw [← List.take_append_drop n s.pipe] at hterm
      rcases List.mem_append.1 hterm with hterm | hterm
      · exact .inl (by simp [hterm])
      · exact .inr hterm
  · rintro es' ⟨⟩
    exact ⟨by rw [List.count_eq_zero.2 hnone]; omega, fun hmem => absurd hmem hnone⟩

/-- `alarm`, called when no alarm is on its way. -/
theorem Good.arm {pc : MainPc} (h : Good s) (hpc : s.pc = .alarm ∧ pc = .publish ∨
    s.pc = .rearm ∧ pc = .clear) :
    Good { s with pc := pc, clock := some (s.now + TIMESLOT) } := by
  -- nothing is on its way but the flag, which no longer counts
  have halarms : ({ s with pc := pc, clock := some (s.now + TIMESLOT) } : State).alarms = 1 := by
    rcases hpc with ⟨hpc, rfl⟩ | ⟨hpc, rfl⟩
    · have hzero := h.unarmed (by rw [hpc]; rfl)
      simp only [State.alarms, Option.isSome_some, Bool.toNat_true] at hzero ⊢
      rw [hpc] at hzero
      change 1 + _ + _ + _ + (s.timeout && true).toNat = 1
      change _ + _ + _ + _ + (s.timeout && true).toNat = 0 at hzero
      omega
    · have hone := h.atMost
      have ht := h.ticking (.inr (.inl hpc))
      simp only [State.alarms, Option.isSome_some, Bool.toNat_true, ht, hpc] at hone ⊢
      change _ + 1 ≤ 1 at hone
      change _ + 0 = 1
      omega
  have hstart : pc.startup = s.pc.startup := by
    rcases hpc with ⟨hpc, rfl⟩ | ⟨hpc, rfl⟩ <;> rw [hpc] <;> rfl
  exact {
    published := h.published.trans (by rw [hstart])
    unarmed := fun hp => by rcases hpc with ⟨-, rfl⟩ | ⟨-, rfl⟩ <;> cases hp
    atMost := halarms.le
    armed := fun _ => .inl halarms
    untimed := fun hp => by
      rcases hpc with ⟨hpc, -⟩ | ⟨-, rfl⟩
      · exact h.untimed (by rw [hpc]; rfl)
      · cases hp
    ticking := fun hp => by
      rcases hpc with ⟨-, rfl⟩ | ⟨hpc, -⟩
      · simp at hp
      · exact h.ticking (.inr (.inl hpc))
    quiet := fun hp => h.quiet (hstart ▸ hp)
    waiting := fun hp => by rcases hpc with ⟨-, rfl⟩ | ⟨-, rfl⟩ <;> cases hp
    entries := fun es hp => by rcases hpc with ⟨-, rfl⟩ | ⟨-, rfl⟩ <;> cases hp
    ended := fun he => hstart.trans (h.ended he) }

/-- A move to the test of `stop_server` with a clear `timeout`, which keeps the alarms. -/
theorem Good.head {published timeout : Bool} (h : Good s) (he : s.ended = none)
    (hpublished : published = true) (htimeout : timeout = false) (hpc : s.pc.unarmed = false)
    (halarms : ({ s with pc := .head, published := published, timeout := timeout } :
      State).alarms = s.alarms) :
    Good { s with pc := .head, published := published, timeout := timeout } where
  published := hpublished
  unarmed := fun hp => by cases hp
  atMost := halarms.le.trans h.atMost
  armed := fun _ => by
    rw [halarms]
    exact h.armed hpc
  untimed := fun _ => htimeout
  ticking := fun hp => by simp at hp
  quiet := fun hp => by cases hp
  waiting := fun hp => by cases hp
  entries := fun es hp => by cases hp
  ended := fun hp => by simp [he] at hp

theorem MainStep.good (hs : MainStep s e s') (h : Good s) (he : s.ended = none) : Good s' := by
  cases hs with
  | addsigAlrm hpc =>
      exact h.move_untimed (by rw [hpc]; rfl) (by rw [hpc]; rfl) (by rw [hpc]; rfl) (by simp)
        (by simp) (by simp)
  | addsigTerm hpc =>
      exact h.move_untimed (by rw [hpc]; rfl) (by rw [hpc]; rfl) (by rw [hpc]; rfl) (by simp)
        (by simp) (by simp)
  | alarm hpc => exact h.arm (.inl ⟨hpc, rfl⟩)
  | publish hpc =>
      have ht := h.untimed (by rw [hpc]; rfl)
      have halarms : ({ s with pc := .head, published := true } : State).alarms = s.alarms := by
        simp [State.alarms, ht]
      exact h.head he rfl ht (by rw [hpc]; rfl) halarms
  | enter hpc hstop =>
      exact h.move_untimed (by rw [hpc]; rfl) (by rw [hpc]; rfl) (by rw [hpc]; rfl) (by simp)
        (fun _ => hstop) (by simp)
  | leave hpc hstop =>
      exact h.move_untimed (by rw [hpc]; rfl) (by rw [hpc]; rfl) (by rw [hpc]; rfl) (by simp)
        (by simp) (by simp)
  | @epollWait entries hpc hone hpipe =>
      refine h.move_untimed (by rw [hpc]; rfl) (by rw [hpc]; rfl) (by rw [hpc]; rfl) (by simp)
        (by simp) ?_
      rintro es ⟨⟩
      exact ⟨hone, hpipe⟩
  | epollFailure hpc =>
      exact h.move_untimed (by rw [hpc]; rfl) (by rw [hpc]; rfl) (by rw [hpc]; rfl) (by simp)
        (by simp) (by simp)
  | other hpc =>
      obtain ⟨hone, hpipe⟩ := h.entries _ hpc
      refine h.move (by rw [hpc]; rfl) (by rw [hpc]; rfl) (fun hp => by cases hp) (by simp [hpc])
        (by simp) (by simp) ?_
      · rintro es ⟨⟩
        exact ⟨by simpa using hone, fun hmem => hpipe (List.mem_cons_of_mem _ hmem)⟩
  | signal hpc h0 hmax hn => exact h.receive hpc
  | signalFailed hpc hpipe =>
      exact absurd hpipe ((h.entries _ hpc).2 List.mem_cons_self)
  | loopEnd hpc =>
      by_cases ht : s.timeout = true
      · rw [if_pos ht]
        exact h.move (by rw [hpc]; rfl) (by rw [hpc]; rfl) (fun hp => by cases hp) (by simp [hpc])
          (fun _ => ht) (by simp) (by simp)
      · rw [if_neg ht]
        exact h.move (by rw [hpc]; rfl) (by rw [hpc]; rfl) (fun _ => by simpa using ht)
          (by simp [hpc]) (by simp) (by simp) (by simp)
  | tick hpc =>
      have ht := h.ticking (.inl hpc)
      exact h.move (by rw [hpc]; rfl) (by rw [hpc]; rfl) (fun hp => by cases hp) (by simp [hpc])
        (fun _ => ht) (by simp) (by simp)
  | rearm hpc => exact h.arm (.inr ⟨hpc, rfl⟩)
  | clear hpc =>
      have halarms : ({ s with pc := .head, timeout := false } : State).alarms = s.alarms := by
        simp [State.alarms, hpc]
      have hpublished : s.published = true := h.published.trans (by rw [hpc]; rfl)
      exact h.head he hpublished rfl (by rw [hpc]; rfl) halarms

/-- A step of the kernel or of a handler that loses no alarm, unless a `SIGTERM` is there. -/
theorem Good.keep (h : Good s) (hpc : s'.pc = s.pc) (htimeout : s'.timeout = s.timeout)
    (hstop : s'.stopServer = s.stopServer) (hpub : s'.published = s.published)
    (hpipe : s.pipe ⊆ s'.pipe) (hquiet : s.pc.startup = true → s'.pipe = s.pipe)
    (halarms : s'.alarms = s.alarms ∨ s'.alarms ≤ s.alarms ∧ s'.stopping)
    (hended : s'.ended.isSome = true → s.pc.startup = true) : Good s' where
  published := by rw [hpub, hpc, h.published]
  unarmed := fun hp => by
    rw [hpc] at hp
    have := h.unarmed hp
    rcases halarms with ha | ⟨ha, -⟩ <;> omega
  atMost := by
    have := h.atMost
    rcases halarms with ha | ⟨ha, -⟩ <;> omega
  armed := fun hp => by
    rw [hpc] at hp
    rcases halarms with ha | ⟨-, hs⟩
    · rw [ha]
      refine (h.armed hp).imp_right fun hs => ?_
      exact hs.imp (fun hs => hstop.trans hs) fun hs => hpipe hs
    · exact .inr hs
  untimed := fun hp => htimeout.trans (h.untimed (hpc ▸ hp))
  ticking := fun hp => by
    rw [hpc] at hp
    exact htimeout.trans (h.ticking hp)
  quiet := fun hp => by
    rw [hpc] at hp
    rw [hstop, hquiet hp]
    exact h.quiet hp
  waiting := fun hp => hstop.trans (h.waiting (hpc ▸ hp))
  entries := fun es hp => by
    obtain ⟨hone, hne⟩ := h.entries es (hpc ▸ hp)
    refine ⟨hone, fun hmem hnil => hne hmem ?_⟩
    rw [hnil] at hpipe
    exact List.subset_nil.1 hpipe
  ended := fun he => by
    rw [hpc]
    exact hended he

/-- A full socket pair without an alarm in it holds a `SIGTERM`. -/
theorem term_mem_of_full (hfull : cfg.room ≤ s.pipe.length) (halrm : s.pipe.count .alrm ≤ 1) :
    .term ∈ s.pipe := by
  by_contra hterm
  have hall : s.pipe.count .alrm = s.pipe.length := by
    refine List.count_eq_length.2 fun sig hsig => ?_
    cases sig with
    | alrm => rfl
    | term => exact absurd hsig hterm
  have := cfg.two_le_room
  omega

theorem SignalStep.good (hs : SignalStep cfg s e s') (h : Good s) : Good s' := by
  have hone := h.atMost
  cases hs with
  | time => exact h.keep rfl rfl rfl rfl (List.Subset.refl _) (fun _ => rfl) (.inl rfl) h.ended
  | @expire d hd hnow =>
      refine h.keep rfl rfl rfl rfl (List.Subset.refl _) (fun _ => rfl) (.inl ?_) h.ended
      simp only [State.alarms, hd, Option.isSome_some, Option.isSome_none, Function.update_self,
        Bool.toNat_true, Bool.toNat_false] at hone ⊢
      omega
  | raise =>
      refine h.keep rfl rfl rfl rfl (List.Subset.refl _) (fun _ => rfl) (.inl ?_) h.ended
      rfl
  | @deliver sig hp hi =>
      refine h.keep rfl rfl rfl rfl (List.Subset.refl _) (fun _ => rfl) (.inl ?_) h.ended
      cases sig with
      | alrm =>
          simp only [State.alarms, hp, Function.update_self, List.count_cons_self, Bool.toNat_true,
            Bool.toNat_false]
          omega
      | term => rfl
  | @deliverDefault sig hp hi =>
      refine h.keep rfl rfl rfl rfl (List.Subset.refl _) (fun _ => rfl) (.inl rfl) fun _ => ?_
      cases sig with
      | alrm => rw [not_not.1 hi]; rfl
      | term =>
          rcases not_and_or.1 hi with hi | hi
          · rw [not_not.1 hi]; rfl
          · rw [not_not.1 hi]; rfl
  | @send sig hmem hpub =>
      have hpos := List.count_pos_iff.2 hmem
      refine h.keep rfl rfl rfl rfl (List.subset_append_left _ _) (fun hp => ?_) (.inl ?_) h.ended
      · rw [h.published, hp] at hpub
        cases hpub
      · cases sig with
        | alrm =>
            simp only [State.alarms, List.count_append, List.count_erase_self,
              List.count_singleton_self]
            omega
        | term =>
            have hne : Signal.alrm ≠ .term := by simp
            simp only [State.alarms, List.count_append, List.count_erase_of_ne hne]
            rfl
  | @sendFull sig hmem hpub hfull =>
      have hle : (s.handlers.erase sig).count .alrm ≤ s.handlers.count .alrm :=
        List.erase_sublist.count_le _
      have hcount : s.pipe.count .alrm ≤ 1 := by
        simp only [State.alarms] at hone
        omega
      have hterm : .term ∈ s.pipe := term_mem_of_full hfull hcount
      refine h.keep rfl rfl rfl rfl (List.Subset.refl _) (fun _ => rfl) (.inr ⟨?_, .inr hterm⟩)
        h.ended
      simp only [State.alarms]
      omega
  | @sendNull sig hmem hpub =>
      refine h.keep rfl rfl rfl rfl (List.Subset.refl _) (fun _ => rfl) (.inl rfl) fun _ => ?_
      simpa [h.published] using hpub

/-- **What every step keeps.** -/
theorem Step.good (hs : Step cfg s e s') (h : Good s) : Good s' := by
  obtain ⟨hact, he⟩ := hs
  cases hact with
  | main hs => exact hs.good h he
  | signal hs => exact hs.good h

theorem Runs.good (hr : Runs cfg evs s) : Good s :=
  hr.invariant_state good_start fun _ _ _ h hs => hs.good h

end Gateway.SignalLoop
