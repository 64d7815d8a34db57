/-
Descriptors, registrations and slots.

`accept` sets up three things for a descriptor: the entry in the kernel's table, the registration
with `epoll` and the slot.  They are taken apart in other places and by other threads.  What always
holds between them is small, and it is kept by every step that reads only on open descriptors.

* `Gateway.Web.Slot.Tagged` — a slot has bytes of the connection it was initialised for only;
* `Gateway.Web.Core` — open descriptors have their slots, closed ones are not registered;
* `Gateway.Web.MainStep.core`, `Gateway.Web.WorkerStep.core` — the steps keep it.
-/

import InferenceGateway.Server

set_option relaxedAutoImplicit false
set_option autoImplicit false

namespace Gateway.Web

variable {cfg : Config} {s s' : Server} {e : Event} {fd : ℕ}

/-! ### Descriptors and slots -/

/-- The bytes in the buffers of a slot were read on the connection it was initialised for, and so
was the request that its response answers. -/
def Slot.Tagged (slot : Slot) : Prop :=
  (∀ x ∈ slot.received, slot.owner = some x) ∧
    ∀ chunks, slot.response = some chunks → chunks ≠ [] ∧ ∀ x ∈ chunks, slot.owner = some x

/-- Open descriptors have the slots that were initialised for them, and only open descriptors are
registered. -/
structure Core (s : Server) : Prop where
  opened : ∀ fd conn, s.fds fd = some conn →
    (s.slots fd).owner = some conn ∧ (s.slots fd).sockfd = some fd
  registered : ∀ fd, s.fds fd = none → s.epoll fd = none
  tagged : ∀ fd, (s.slots fd).Tagged

namespace Core

/-- The core does not depend on the rest of the state. -/
theorem congr (h : Core s) (hf : s'.fds = s.fds) (he : s'.epoll = s.epoll)
    (hs : s'.slots = s.slots) : Core s' := by
  constructor
  · rw [hf, hs]
    exact h.opened
  · rw [hf, he]
    exact h.registered
  · rw [hs]
    exact h.tagged

theorem close (h : Core s) (fd : ℕ) : Core (s.close fd) := by
  constructor
  · intro g conn hg
    by_cases hgf : g = fd
    · subst hgf
      simp at hg
    · rw [Server.close_fds, Function.update_of_ne hgf] at hg
      exact h.opened g conn hg
  · intro g hg
    by_cases hgf : g = fd
    · subst hgf
      simp
    · rw [Server.close_fds, Function.update_of_ne hgf] at hg
      rw [Server.close_epoll, Function.update_of_ne hgf]
      exact h.registered g hg
  · exact h.tagged

/-- A change of one slot that keeps what the core says about it. -/
theorem setSlot (h : Core s) {slot : Slot} (ho : slot.owner = (s.slots fd).owner)
    (hk : slot.sockfd = (s.slots fd).sockfd ∨ s.fds fd = none) (ht : slot.Tagged) :
    Core (s.setSlot fd slot) := by
  constructor
  · intro g conn hg
    rw [Server.setSlot_slots]
    by_cases hgf : g = fd
    · subst hgf
      rw [Function.update_self, ho]
      rcases hk with hk | hk
      · rw [hk]
        exact h.opened g conn hg
      · rw [Server.setSlot_fds, hk] at hg
        cases hg
    · rw [Function.update_of_ne hgf]
      exact h.opened g conn hg
  · exact h.registered
  · intro g
    rw [Server.setSlot_slots]
    by_cases hgf : g = fd
    · subst hgf
      rwa [Function.update_self]
    · rw [Function.update_of_ne hgf]
      exact h.tagged g

theorem initSlot (h : Core s) (fd : ℕ) : Core (s.initSlot fd) := by
  refine h.setSlot rfl (.inl rfl) ⟨?_, ?_⟩
  · intro x hx
    cases hx
  · intro chunks hchunks
    cases hchunks

theorem rearm (h : Core s) (fd : ℕ) (i : Interest) : Core (s.rearm fd i) := by
  refine ⟨h.opened, ?_, h.tagged⟩
  intro g hg
  have hnone := h.registered g hg
  rw [Server.rearm_epoll]
  by_cases hgf : g = fd
  · subst hgf
    rw [Function.update_self, hnone]
    rfl
  · rw [Function.update_of_ne hgf]
    exact hnone

theorem modfd (h : Core s) (fd : ℕ) (i : Interest) : Core (s.modfd fd i) := by
  unfold Server.modfd
  split
  · exact h
  · exact h.rearm _ i

theorem timer (h : Core s) (fd : ℕ) : Core (s.timer fd) := by
  unfold Server.timer
  constructor
  · intro g conn hg
    by_cases hgf : g = fd
    · subst hgf
      simp only [Function.update_self, Option.some.injEq] at hg ⊢
      exact ⟨hg, trivial⟩
    · simp only [Function.update_of_ne hgf] at hg ⊢
      exact h.opened g conn hg
  · intro g hg
    by_cases hgf : g = fd
    · subst hgf
      simp at hg
    · simp only [Function.update_of_ne hgf] at hg ⊢
      exact h.registered g hg
  · intro g
    by_cases hgf : g = fd
    · subst hgf
      simp [Slot.Tagged]
    · simp only [Function.update_of_ne hgf]
      exact h.tagged g

theorem readOnce (h : Core s) (ho : s.fds fd ≠ none) (hr : ReadOnce s fd s') : Core s' := by
  cases hr with
  | @intro sock conn hsock hconn =>
      obtain ⟨c, hc⟩ := Option.ne_none_iff_exists'.1 ho
      obtain ⟨howner, hsock'⟩ := h.opened fd c hc
      obtain rfl : sock = fd := Option.some.inj (hsock.symm.trans hsock')
      refine h.setSlot rfl (.inl rfl) ⟨?_, (h.tagged sock).2⟩
      intro x hx
      rcases List.mem_append.1 hx with hx | hx
      · exact (h.tagged sock).1 x hx
      · obtain rfl := List.mem_singleton.1 hx
        exact (h.opened sock x hconn).1

theorem write {r : Option Bool} (h : Core s) (hw : Write s fd e r s') : Core s' := by
  cases hw with
  | empty => exact (h.modfd fd .input).initSlot fd
  | sent => exact h
  | again => exact h.modfd fd .output
  | keepAlive => exact (h.modfd fd .input).initSlot fd
  | finished => exact h.modfd fd .input
  | fail => exact h

end Core

namespace Server

theorem adjustTimer_eq (s : Server) (fd : ℕ) :
    ∃ ts, s.adjustTimer fd = { s with timers := ts } := by
  unfold adjustTimer
  split
  · exact ⟨s.timers, rfl⟩
  · split
    · exact ⟨s.timers, rfl⟩
    · exact ⟨_, rfl⟩

theorem dealTimer_eq (s : Server) (fd : ℕ) :
    ∃ ts, s.dealTimer fd = { s.cbFunc fd with timers := ts } := by
  unfold dealTimer
  split
  · exact ⟨s.timers, rfl⟩
  · exact ⟨_, rfl⟩

theorem adjustTimer_events (s : Server) (fd : ℕ) :
    (s.adjustTimer fd).events = s.events := by
  obtain ⟨ts, hts⟩ := s.adjustTimer_eq fd
  rw [hts]

theorem dealTimer_main (s : Server) (fd : ℕ) : (s.dealTimer fd).main = s.main := by
  obtain ⟨ts, hts⟩ := s.dealTimer_eq fd
  rw [hts]
  rfl

theorem dealTimer_events (s : Server) (fd : ℕ) : (s.dealTimer fd).events = s.events := by
  obtain ⟨ts, hts⟩ := s.dealTimer_eq fd
  rw [hts]
  rfl

theorem modfd_eq (s : Server) (fd : ℕ) (i : Interest) :
    ∃ ep, s.modfd fd i = { s with epoll := ep } := by
  unfold modfd
  split
  · exact ⟨s.epoll, rfl⟩
  · exact ⟨_, rfl⟩

end Server

/-- A descriptor that `epoll` reports was armed. -/
theorem armed_of_deliverable {evs : List Ready} (hdel : ∀ e ∈ evs, Deliverable s e)
    (hfd : fd ∈ evs.filterMap Ready.fd) : ∃ i, s.epoll fd = some i ∧ i ≠ .disabled := by
  obtain ⟨r, hr, hrfd⟩ := List.mem_filterMap.1 hfd
  have hd := hdel r hr
  cases r with
  | listen | signal => cases hrfd
  | hangup g =>
      cases hrfd
      exact hd
  | input g =>
      cases hrfd
      exact ⟨_, hd, nofun⟩
  | output g =>
      cases hrfd
      exact ⟨_, hd, nofun⟩

/-- **The main thread keeps the core**, if it reads only on open descriptors. -/
theorem MainStep.core (h : Core s) (hread : ∀ fd, s.main = .read fd → s.fds fd ≠ none)
    (hs : MainStep cfg s e s') : Core s' := by
  cases hs with
  | epollWait hm hnd hdel =>
      refine ⟨h.opened, ?_, h.tagged⟩
      intro g hg
      have hnone := h.registered g hg
      unfold Server.deliver
      dsimp only
      rw [if_neg]
      · exact hnone
      · intro hmem
        obtain ⟨i, hi, -⟩ := armed_of_deliverable hdel hmem
        rw [hnone] at hi
        cases hi
  | listen | acceptFail | acceptBusy | signal | handOverFull | poll | notFlagged | input | output
  | loopEnd | tickEnd => exact h.congr rfl rfl rfl
  | accept => exact (h.timer _).congr rfl rfl rfl
  | hangup | flagged | readFail =>
      obtain ⟨ts, hts⟩ := s.dealTimer_eq ‹ℕ›
      rw [hts]
      exact (h.close _).congr rfl rfl rfl
  | dispatch | append | appendFull =>
      obtain ⟨ts, hts⟩ := s.adjustTimer_eq ‹ℕ›
      rw [hts]
      exact h.congr rfl rfl rfl
  | handOver | clear | release =>
      refine Core.congr (s := s.setSlot _ _) ?_ rfl rfl rfl
      exact h.setSlot rfl (.inl rfl) (h.tagged _)
  | readOk hm hr => exact (h.readOnce (hread _ hm) hr).congr rfl rfl rfl
  | writeMore hm hw => exact h.write hw
  | @writeOk fd e t hm hw =>
      obtain ⟨ts, hts⟩ := t.adjustTimer_eq fd
      rw [hts]
      exact (h.write hw).congr rfl rfl rfl
  | @writeFail fd e t hm hw =>
      obtain ⟨ts, hts⟩ := t.dealTimer_eq fd
      rw [hts]
      exact ((h.write hw).close _).congr rfl rfl rfl
  | tick => exact (h.close _).congr rfl rfl rfl

/-- The connection that a request in a worker's hand was read on. -/
def WorkerPc.Sourced (s : Server) : WorkerPc → Prop
  | .request fd chunks => chunks ≠ [] ∧ ∀ x ∈ chunks, (s.slots fd).owner = some x
  | _ => True

/-- **A worker keeps the core**, if it reads only on open descriptors. -/
theorem WorkerStep.core {pc pc' : WorkerPc} (h : Core s)
    (hread : ∀ fd, pc = .reading fd → s.fds fd ≠ none)
    (hclosing : ∀ fd, pc = .closing fd → s.fds fd = none) (hsrc : pc.Sourced s)
    (hs : WorkerStep cfg s pc e s' pc') : Core s' := by
  cases hs with
  | take => exact h.congr rfl rfl rfl
  | proactor | reactorRead | reactorWrite | readFail | noRequest | request | closeNothing =>
      exact h
  | readOk hr => exact h.readOnce (hread _ rfl) hr
  | received | written | failed | flagging => exact h.setSlot rfl (.inl rfl) (h.tagged _)
  | @respond fd chunks =>
      refine h.setSlot rfl (.inl rfl) ⟨(h.tagged fd).1, ?_⟩
      intro l hl
      cases hl
      exact hsrc
  | rearmInput => exact h.modfd _ .input
  | rearmOutput => exact h.modfd _ .output
  | closeConn => exact h.close _
  | closed =>
      refine Core.congr (s := s.setSlot _ _) ?_ rfl rfl rfl
      exact h.setSlot rfl (.inr (hclosing _ rfl)) (h.tagged _)
  | writeMore hw | writeOk hw | writeFail hw => exact h.write hw

end Gateway.Web
