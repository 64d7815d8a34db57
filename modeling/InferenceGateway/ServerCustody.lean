/-
Who has a slot.

A descriptor is reported by `epoll` once and is then disabled until `modfd` arms it again.  So its
slot is in one hand at a time: in the array of reported events, with the main thread, in the queue
of the pool, or with a worker.  This holds as long as no descriptor is closed while its slot is in
somebody's hand, which the code does not ensure.

* `Gateway.Web.Server.places` — the slots that are in somebody's hand;
* `Gateway.Web.Sound` — the invariant: no slot is in two hands, and `epoll` is silent about it
  meanwhile;
* `Gateway.Web.Careful` — the condition on a step;
* `Gateway.Web.sound_run` — **every run of careful steps keeps the invariant**.
-/

import InferenceGateway.ServerCore
import Mathlib.Data.List.Nodup

set_option relaxedAutoImplicit false
set_option autoImplicit false

namespace Gateway.Web

open EventSystem

variable {cfg : Config} {s s' : Server} {e : Event} {fd : ℕ}

/-! ### Hands -/

/-- The slot that the main thread has to itself. -/
def MainPc.own : MainPc → Option ℕ
  | .read fd | .append fd _ | .write fd => some fd
  | _ => none

/-- The slot whose `improv` the main thread waits for or resets. -/
def MainPc.polled : MainPc → Option ℕ
  | .poll fd | .flagged fd | .clear fd | .release fd => some fd
  | _ => none

/-- The slot that a worker reads, processes or writes. -/
def WorkerPc.held : WorkerPc → Option ℕ
  | .taken fd | .reading fd | .received fd | .process fd | .request fd _ | .answered fd
  | .unfinished fd | .writing fd => some fd
  | .idle | .closing _ | .written _ | .failed _ | .flagging _ => none

namespace Server

/-- The slots that workers use. -/
def held (s : Server) : List ℕ := s.workers.flatMap fun w => w.held.toList

/-- The slots in somebody's hand, with one entry for each hand. -/
def places (s : Server) : List ℕ :=
  s.events.filterMap Ready.fd ++ (s.main.own.toList ++ (s.queue ++ s.held))

theorem held_congr {t : Server} (hk : t.workers = s.workers) : t.held = s.held := by
  rw [held, held, hk]

theorem count_places (s : Server) (fd : ℕ) :
    s.places.count fd =
      (s.events.filterMap Ready.fd).count fd + s.main.own.toList.count fd + s.queue.count fd +
        (s.workers.flatMap fun w => w.held.toList).count fd := by
  simp only [places, held, List.count_append]
  omega

/-- The places when the main thread has no slot to itself. -/
theorem not_mem_places {t : Server} {g : ℕ} (hm : t.main.own = none)
    (he : g ∉ t.events.filterMap Ready.fd) (hq : g ∉ t.queue) (hh : g ∉ t.held) :
    g ∉ t.places := by
  rw [places, hm]
  simp [he, hq, hh]

end Server

/-- `write` works on the slot and on `epoll` only. -/
theorem Write.frame {r : Option Bool} (hw : Write s fd e r s') :
    s'.events = s.events ∧ s'.main = s.main ∧ s'.queue = s.queue ∧ s'.workers = s.workers ∧
      s'.fds = s.fds := by
  obtain ⟨_, hin⟩ := s.modfd_eq fd .input
  obtain ⟨_, hout⟩ := s.modfd_eq fd .output
  cases hw with
  | sent | fail => exact ⟨rfl, rfl, rfl, rfl, rfl⟩
  | again =>
      rw [hout]
      exact ⟨rfl, rfl, rfl, rfl, rfl⟩
  | empty | keepAlive | finished =>
      rw [hin]
      exact ⟨rfl, rfl, rfl, rfl, rfl⟩

theorem ReadOnce.frame (hr : ReadOnce s fd s') :
    s'.events = s.events ∧ s'.main = s.main ∧ s'.queue = s.queue ∧ s'.workers = s.workers ∧
      s'.fds = s.fds ∧ s'.epoll = s.epoll := by
  cases hr with
  | intro => exact ⟨rfl, rfl, rfl, rfl, rfl, rfl⟩

/-- **The main thread takes no slot** but from `epoll`. -/
theorem MainStep.count_le (hs : MainStep cfg s e s') (hw : s.main ≠ .wait) (g : ℕ) :
    s'.places.count g ≤ s.places.count g := by
  simp only [Server.count_places]
  cases hs with
  | epollWait hm => exact absurd hm hw
  | listen hm hev | signal hm hev | input _ hm hev | output _ hm hev =>
      simp [hm, hev, MainPc.own, Ready.fd, List.filterMap_cons, List.count_cons]
  | acceptFail hm | acceptBusy hm | poll hm | notFlagged hm | clear hm | release hm | tickEnd hm =>
      simp [hm, MainPc.own]
  | accept hm =>
      simp only [Server.timer, hm]
      split <;> simp [MainPc.own]
  | @hangup fd _ hm hev =>
      obtain ⟨ts, hts⟩ := s.dealTimer_eq fd
      simp [hts, hm, hev, MainPc.own, Ready.fd, List.count_cons]
  | @dispatch fd _ _ _ hm hev =>
      obtain ⟨ts, hts⟩ := s.adjustTimer_eq fd
      rcases hev with ⟨hev, -⟩ | ⟨hev, -⟩
      · simp [hts, hm, hev, MainPc.own, Ready.fd, List.count_cons]
      · simp [hts, hm, hev, MainPc.own, Ready.fd, List.count_cons]
  | handOver _ hm | handOverFull _ hm =>
      simp [hm, MainPc.own, List.count_cons]
      try omega
  | @flagged fd hm =>
      obtain ⟨ts, hts⟩ := s.dealTimer_eq fd
      simp [hts, hm, MainPc.own]
  | readOk hm hr =>
      obtain ⟨he, -, hq, hk, -⟩ := hr.frame
      simp [he, hq, hk, hm, MainPc.own]
  | @readFail fd hm =>
      obtain ⟨ts, hts⟩ := s.dealTimer_eq fd
      simp [hts, hm, MainPc.own]
  | @append fd _ hm | @appendFull fd _ hm =>
      obtain ⟨ts, hts⟩ := s.adjustTimer_eq fd
      simp [hts, hm, MainPc.own]
      try omega
  | writeMore hm hw =>
      obtain ⟨he, hm', hq, hk, -⟩ := hw.frame
      simp [he, hm', hq, hk]
  | @writeOk fd _ t hm hw =>
      obtain ⟨he, hm', hq, hk, -⟩ := hw.frame
      obtain ⟨ts, hts⟩ := t.adjustTimer_eq fd
      simp [hts, he, hq, hk, hm, MainPc.own]
  | @writeFail fd _ t hm hw =>
      obtain ⟨he, hm', hq, hk, -⟩ := hw.frame
      obtain ⟨ts, hts⟩ := t.dealTimer_eq fd
      simp [hts, he, hq, hk, hm, MainPc.own]
  | loopEnd hm hev =>
      simp only [hm]
      split <;> simp [MainPc.own]
  | tick hm => simp [hm, MainPc.own]

/-! ### The invariant -/

/-- **The invariant of the server.** -/
structure Sound (s : Server) : Prop where
  core : Core s
  custody : ∀ g, s.places.count g ≤ 1
  silent : ∀ g ∈ s.places, s.epoll g = some .disabled
  closing : ∀ g, .closing g ∈ s.workers → s.fds g = none
  sourced : ∀ w ∈ s.workers, w.Sourced s
  idle : s.main = .wait ∨ (∃ cur, s.main = .tick cur) → s.events = []
  polled : ∀ g, s.main.polled = some g → g ∉ s.events.filterMap Ready.fd

theorem places_start (threads : ℕ) : (start threads).places = [] := by
  have hheld : (start threads).held = [] := by
    refine List.flatMap_eq_nil_iff.2 ?_
    intro w hw
    obtain rfl := List.eq_of_mem_replicate hw
    rfl
  rw [Server.places, hheld]
  rfl

theorem sound_start (threads : ℕ) : Sound (start threads) where
  core := by
    refine ⟨?_, fun _ _ => rfl, ?_⟩
    · intro g conn hg
      cases hg
    · intro g
      refine ⟨?_, ?_⟩
      · intro x hx
        cases hx
      · intro chunks hchunks
        cases hchunks
  custody := by
    intro g
    rw [places_start]
    exact Nat.zero_le _
  silent := by
    intro g hg
    rw [places_start] at hg
    cases hg
  closing := fun _ _ => rfl
  sourced := by
    intro w hw
    obtain rfl := List.eq_of_mem_replicate hw
    trivial
  idle := fun _ => rfl
  polled := by
    intro g hg
    cases hg

/-- Steps that may not happen when the invariant is to be kept: `cb_func` closes a descriptor whose
slot is in the queue or with a worker, or `accept` returns a descriptor that a worker has closed in
`close_conn` and has not yet forgotten. -/
def Careful (s : Server) : Event → Prop
  | .dealTimer fd | .tick fd => s.fds fd ≠ none → fd ∉ s.queue ∧ fd ∉ s.held
  | .accept fd => .closing fd ∉ s.workers
  | _ => True

namespace Sound

/-- Slots in somebody's hand belong to open descriptors. -/
theorem opened (h : Sound s) {g : ℕ} (hg : g ∈ s.places) : s.fds g ≠ none := by
  intro hnone
  have := h.silent g hg
  rw [h.core.registered g hnone] at this
  cases this

theorem sockfd (h : Sound s) {g : ℕ} (hg : g ∈ s.places) : (s.slots g).sockfd = some g := by
  obtain ⟨conn, hconn⟩ := Option.ne_none_iff_exists'.1 (h.opened hg)
  exact (h.core.opened g conn hconn).2

theorem mem_own {g : ℕ} (hg : s.main.own = some g) : g ∈ s.places := by
  simp [Server.places, hg]

theorem mem_held {w : WorkerPc} {g : ℕ} (hw : w ∈ s.workers) (hg : w.held = some g) :
    g ∈ s.held :=
  List.mem_flatMap.2 ⟨w, hw, by simp [hg]⟩

theorem held_places {g : ℕ} (hg : g ∈ s.held) : g ∈ s.places := by
  simp [Server.places, hg]

/-- The slot that the main thread has to itself is in no other hand. -/
theorem own_alone (h : Sound s) {g : ℕ} (hg : s.main.own = some g) :
    g ∉ s.events.filterMap Ready.fd ∧ g ∉ s.queue ∧ g ∉ s.held := by
  have hcount := h.custody g
  simp only [Server.places, List.count_append, hg, Option.toList_some, List.count_cons_self,
    List.count_nil] at hcount
  refine ⟨?_, ?_, ?_⟩
  · exact List.count_eq_zero.1 (by omega)
  · exact List.count_eq_zero.1 (by omega)
  · exact List.count_eq_zero.1 (by omega)

/-- The slot of a reported descriptor is in no other hand. -/
theorem reported_alone (h : Sound s) {r : Ready} {evs : List Ready} (hev : s.events = r :: evs)
    (hr : r.fd = some fd) : fd ∉ evs.filterMap Ready.fd ∧ fd ∉ s.queue ∧ fd ∉ s.held := by
  have hcount := h.custody fd
  simp only [Server.places, List.count_append, hev, List.filterMap_cons, hr,
    List.count_cons_self] at hcount
  refine ⟨?_, ?_, ?_⟩
  · exact List.count_eq_zero.1 (by omega)
  · exact List.count_eq_zero.1 (by omega)
  · exact List.count_eq_zero.1 (by omega)

end Sound

/-- What a step may do to a descriptor and to the owner of its slot, other than `accept`. -/
def Kept (s s' : Server) (g : ℕ) : Prop :=
  (s'.fds g = s.fds g ∨ s'.fds g = none) ∧ (s'.slots g).owner = (s.slots g).owner

theorem kept_close (s : Server) (fd g : ℕ) : Kept s (s.close fd) g := by
  refine ⟨?_, rfl⟩
  by_cases hg : g = fd
  · subst hg
    exact .inr (by simp)
  · exact .inl (by simp [hg])

theorem kept_setSlot (s : Server) (fd : ℕ) (slot : Slot) (ho : slot.owner = (s.slots fd).owner)
    (g : ℕ) : Kept s (s.setSlot fd slot) g := by
  refine ⟨.inl rfl, ?_⟩
  rw [Server.setSlot_slots]
  by_cases hg : g = fd
  · subst hg
    rw [Function.update_self]
    exact ho
  · rw [Function.update_of_ne hg]

theorem kept_modfd (s : Server) (fd : ℕ) (i : Interest) (g : ℕ) : Kept s (s.modfd fd i) g := by
  obtain ⟨_, hep⟩ := s.modfd_eq fd i
  rw [hep]
  exact ⟨.inl rfl, rfl⟩

theorem Kept.trans {t : Server} {g : ℕ} (h : Kept s t g) (h' : Kept t s' g) : Kept s s' g := by
  refine ⟨?_, h'.2.trans h.2⟩
  rcases h'.1 with hf | hf
  · rw [hf]
    exact h.1
  · exact .inr hf

theorem ReadOnce.kept (hr : ReadOnce s fd s') (g : ℕ) : Kept s s' g := by
  cases hr with
  | intro => exact kept_setSlot s fd _ (by rfl) g

theorem Write.kept {r : Option Bool} (hw : Write s fd e r s') (g : ℕ) : Kept s s' g := by
  cases hw with
  | sent | fail => exact ⟨.inl rfl, rfl⟩
  | again | finished => exact kept_modfd s fd _ g
  | empty | keepAlive => exact (kept_modfd s fd _ g).trans (kept_setSlot _ fd _ (by rfl) g)

/-- What the main thread does to the descriptors and to the owners of the slots. -/
theorem MainStep.kept (hs : MainStep cfg s e s') (g : ℕ) :
    e = .accept g ∧ s.fds g = none ∨ Kept s s' g := by
  cases hs with
  | @accept fd _ hnone =>
      by_cases hg : g = fd
      · subst hg
        exact .inl ⟨rfl, hnone⟩
      · refine .inr ⟨.inl ?_, ?_⟩
        · simp [Server.timer, hg]
        · simp [Server.timer, hg]
  | epollWait | listen | acceptFail | acceptBusy | signal | handOverFull | poll | notFlagged
  | input | output | loopEnd | tickEnd => exact .inr ⟨.inl rfl, rfl⟩
  | @hangup fd | @flagged fd | @readFail fd =>
      obtain ⟨ts, hts⟩ := s.dealTimer_eq fd
      rw [hts]
      exact .inr (kept_close s fd g)
  | @dispatch fd | @append fd | @appendFull fd =>
      obtain ⟨ts, hts⟩ := s.adjustTimer_eq fd
      rw [hts]
      exact .inr ⟨.inl rfl, rfl⟩
  | @handOver fd state =>
      exact .inr (kept_setSlot s fd { s.slots fd with state := state } rfl g)
  | @clear fd =>
      exact .inr (kept_setSlot s fd { s.slots fd with timerFlag := false } rfl g)
  | @release fd =>
      exact .inr (kept_setSlot s fd { s.slots fd with improv := false } rfl g)
  | readOk _ hr => exact .inr (hr.kept g)
  | writeMore _ hw => exact .inr (hw.kept g)
  | @writeOk fd _ t _ hw =>
      obtain ⟨ts, hts⟩ := t.adjustTimer_eq fd
      rw [hts]
      exact .inr (hw.kept g)
  | @writeFail fd _ t _ hw =>
      obtain ⟨ts, hts⟩ := t.dealTimer_eq fd
      rw [hts]
      exact .inr ((hw.kept g).trans (kept_close t fd g))
  | @tick cur t => exact .inr (kept_close s t.fd g)

theorem MainStep.workers (hs : MainStep cfg s e s') : s'.workers = s.workers := by
  cases hs with
  | @hangup fd | @flagged fd | @readFail fd =>
      obtain ⟨ts, hts⟩ := s.dealTimer_eq fd
      rw [hts]
      rfl
  | @dispatch fd | @append fd | @appendFull fd =>
      obtain ⟨ts, hts⟩ := s.adjustTimer_eq fd
      rw [hts]
  | readOk _ hr => exact hr.frame.2.2.2.1
  | writeMore _ hw => exact hw.frame.2.2.2.1
  | @writeOk fd _ t _ hw =>
      obtain ⟨ts, hts⟩ := t.adjustTimer_eq fd
      rw [hts]
      exact hw.frame.2.2.2.1
  | @writeFail fd _ t _ hw =>
      obtain ⟨ts, hts⟩ := t.dealTimer_eq fd
      rw [hts]
      exact hw.frame.2.2.2.1
  | _ => rfl

/-- Bookkeeping of the main thread: it waits or ticks only when the reported events are handled, and
the slot it polls is not among them. -/
theorem MainStep.control (h : Sound s) (hs : MainStep cfg s e s') :
    (s'.main = .wait ∨ (∃ cur, s'.main = .tick cur) → s'.events = []) ∧
      ∀ g, s'.main.polled = some g → g ∉ s'.events.filterMap Ready.fd := by
  have hpolled := h.polled
  cases hs with
  | loopEnd hm hev =>
      refine ⟨fun _ => hev, ?_⟩
      intro g hg
      simp [hev]
  | tick hm => exact ⟨fun _ => h.idle (.inr ⟨_, hm⟩), by simp [hm, MainPc.polled]⟩
  | tickEnd hm => exact ⟨fun _ => h.idle (.inr ⟨_, hm⟩), by simp [MainPc.polled]⟩
  | @handOver fd state _ hm | @handOverFull fd state _ hm =>
      refine ⟨by simp, ?_⟩
      intro g hg
      obtain rfl : fd = g := by simpa [MainPc.polled] using hg
      exact (h.own_alone (by simp [hm, MainPc.own])).1
  | @poll fd hm | @notFlagged fd hm | @clear fd hm =>
      refine ⟨by simp, ?_⟩
      intro g hg
      exact hpolled g (by rw [hm]; exact hg)
  | @flagged fd hm =>
      obtain ⟨ts, hts⟩ := s.dealTimer_eq fd
      rw [hts]
      refine ⟨by simp, ?_⟩
      intro g hg
      exact hpolled g (by rw [hm]; exact hg)
  | accept hm =>
      dsimp only
      split <;> exact ⟨by simp, by simp [MainPc.polled]⟩
  | @hangup fd _ hm =>
      obtain ⟨ts, hts⟩ := s.dealTimer_eq fd
      simp [hts, hm, MainPc.polled]
  | signal hm => simp [hm, MainPc.polled]
  | writeMore hm hw =>
      obtain ⟨-, hm', -⟩ := hw.frame
      simp [hm', hm, MainPc.polled]
  | _ => exact ⟨by simp [Server.deliver], by simp [Server.deliver, MainPc.polled]⟩

theorem modfd_epoll_of_ne {g : ℕ} {i : Interest} (hsock : (s.slots fd).sockfd = some fd)
    (hg : g ≠ fd) : (s.modfd fd i).epoll g = s.epoll g := by
  rw [Server.modfd, hsock]
  simp [hg]

/-- `write` changes the registration of its own descriptor only. -/
theorem Write.epoll_of_ne {r : Option Bool} {g : ℕ} (hw : Write s fd e r s')
    (hsock : (s.slots fd).sockfd = some fd) (hg : g ≠ fd) : s'.epoll g = s.epoll g := by
  cases hw with
  | sent | fail => rfl
  | again | finished => exact modfd_epoll_of_ne hsock hg
  | empty | keepAlive => exact modfd_epoll_of_ne hsock hg

theorem close_epoll_of_ne {g : ℕ} (hg : g ≠ fd) : (s.close fd).epoll g = s.epoll g := by
  simp [hg]

/-- A descriptor whose registration the main thread changes is in nobody's hand afterwards. -/
theorem MainStep.epoll_eq (h : Sound s) (hc : Careful s e) (hs : MainStep cfg s e s')
    (hw : s.main ≠ .wait) {g : ℕ} (hg : g ∈ s'.places) : s'.epoll g = s.epoll g := by
  have hg' : g ∈ s.places :=
    List.count_pos_iff.1 (lt_of_lt_of_le (List.count_pos_iff.2 hg) (hs.count_le hw g))
  cases hs with
  | epollWait hm => exact absurd hm hw
  | listen | acceptFail | acceptBusy | signal | handOver | handOverFull | poll | notFlagged | clear
  | release | input | output | loopEnd | tickEnd => rfl
  | @accept fd hm hnone =>
      -- slots in somebody's hand are open, and `accept` returns a closed descriptor
      have hne : g ≠ fd := by
        rintro rfl
        exact h.opened hg' hnone
      simp [Server.timer, hne]
  | @hangup fd evs hm hev =>
      obtain ⟨ts, hts⟩ := s.dealTimer_eq fd
      rw [hts] at hg ⊢
      refine close_epoll_of_ne ?_
      rintro rfl
      obtain ⟨he, hq, hheld⟩ := h.reported_alone hev rfl
      exact absurd hg (Server.not_mem_places (congrArg MainPc.own hm) he hq hheld)
  | @dispatch fd | @append fd | @appendFull fd =>
      obtain ⟨ts, hts⟩ := s.adjustTimer_eq fd
      rw [hts]
  | @flagged fd hm =>
      -- a worker may have the slot again: this is where the step has to be careful
      obtain ⟨ts, hts⟩ := s.dealTimer_eq fd
      rw [hts] at hg ⊢
      refine close_epoll_of_ne ?_
      rintro rfl
      obtain ⟨hq, hheld⟩ := hc (h.opened hg')
      have he := h.polled g (by rw [hm]; rfl)
      exact absurd hg (Server.not_mem_places rfl he hq hheld)
  | readOk hm hr =>
      obtain ⟨-, -, -, -, -, he⟩ := hr.frame
      exact congrFun he g
  | @readFail fd hm =>
      obtain ⟨ts, hts⟩ := s.dealTimer_eq fd
      rw [hts] at hg ⊢
      refine close_epoll_of_ne ?_
      rintro rfl
      obtain ⟨he, hq, hheld⟩ := h.own_alone (g := g) (by rw [hm]; rfl)
      exact absurd hg (Server.not_mem_places rfl he hq hheld)
  | writeMore hm hw =>
      cases hw with
      | sent => rfl
  | @writeOk fd _ t hm hw =>
      have hown : s.main.own = some fd := by rw [hm]; rfl
      obtain ⟨he, hq, hheld⟩ := h.own_alone hown
      obtain ⟨he', -, hq', hk, -⟩ := hw.frame
      obtain ⟨ts, hts⟩ := t.adjustTimer_eq fd
      rw [hts] at hg ⊢
      refine hw.epoll_of_ne (h.sockfd (Sound.mem_own hown)) ?_
      rintro rfl
      have hheld' : g ∉ t.held := Server.held_congr hk ▸ hheld
      exact absurd hg (Server.not_mem_places rfl (he' ▸ he) (hq' ▸ hq) hheld')
  | @writeFail fd _ t hm hw =>
      have hown : s.main.own = some fd := by rw [hm]; rfl
      obtain ⟨he, hq, hheld⟩ := h.own_alone hown
      obtain ⟨he', -, hq', hk, -⟩ := hw.frame
      obtain ⟨ts, hts⟩ := t.dealTimer_eq fd
      rw [hts] at hg ⊢
      have hne : g ≠ fd := by
        rintro rfl
        have hheld' : g ∉ t.held := Server.held_congr hk ▸ hheld
        exact absurd hg (Server.not_mem_places rfl (he' ▸ he) (hq' ▸ hq) hheld')
      exact (close_epoll_of_ne hne).trans (hw.epoll_of_ne (h.sockfd (Sound.mem_own hown)) hne)
  | @tick cur t ts hm hts =>
      -- so is the close of a connection that was idle for too long
      refine close_epoll_of_ne ?_
      rintro rfl
      obtain ⟨hq, hheld⟩ := hc (h.opened hg')
      have he : t.fd ∉ s.events.filterMap Ready.fd := by simp [h.idle (.inr ⟨cur, hm⟩)]
      exact absurd hg (Server.not_mem_places (congrArg MainPc.own hm) he hq hheld)

/-- `epoll_wait` hands out descriptors that were armed. -/
theorem Sound.deliver (h : Sound s) {evs : List Ready} (hm : s.main = .wait)
    (hnd : (evs.filterMap Ready.fd).Nodup) (hdel : ∀ e ∈ evs, Deliverable s e) :
    (∀ g, (s.deliver evs).places.count g ≤ 1) ∧
      ∀ g ∈ (s.deliver evs).places, (s.deliver evs).epoll g = some .disabled := by
  have hev := h.idle (.inl hm)
  have hmem : ∀ g, g ∈ evs.filterMap Ready.fd → g ∉ s.places := by
    intro g hg hg'
    obtain ⟨i, hi, hne⟩ := armed_of_deliverable hdel hg
    rw [h.silent g hg'] at hi
    cases hi
    exact hne rfl
  have hcount : ∀ g, (s.deliver evs).places.count g =
      (evs.filterMap Ready.fd).count g + s.places.count g := by
    intro g
    simp only [Server.count_places, hev, hm, Server.deliver]
    simp [MainPc.own]
    omega
  constructor
  · intro g
    rw [hcount]
    have h₁ := List.nodup_iff_count_le_one.1 hnd g
    by_cases hg : g ∈ evs.filterMap Ready.fd
    · rw [List.count_eq_zero.2 (hmem g hg)]
      exact h₁
    · rw [List.count_eq_zero.2 hg, Nat.zero_add]
      exact h.custody g
  · intro g hg
    have hpos := List.count_pos_iff.2 hg
    rw [hcount] at hpos
    simp only [Server.deliver]
    split
    · rfl
    · next hnot =>
        rw [List.count_eq_zero.2 hnot, Nat.zero_add] at hpos
        exact h.silent g (List.count_pos_iff.1 hpos)

/-- **The main thread keeps the invariant.** -/
theorem MainStep.sound (h : Sound s) (hc : Careful s e) (hs : MainStep cfg s e s') : Sound s' := by
  have hread : ∀ fd, s.main = .read fd → s.fds fd ≠ none := by
    intro fd hm
    exact h.opened (Sound.mem_own (by rw [hm]; rfl))
  obtain ⟨hidle, hpolled⟩ := hs.control h
  have hcustody : (∀ g, s'.places.count g ≤ 1) ∧ ∀ g ∈ s'.places, s'.epoll g = some .disabled := by
    by_cases hw : s.main = .wait
    · cases hs with
      | epollWait hm hnd hdel => exact h.deliver hm hnd hdel
      | _ => simp_all
    · refine ⟨fun g => (hs.count_le hw g).trans (h.custody g), ?_⟩
      intro g hg
      rw [hs.epoll_eq h hc hw hg]
      exact h.silent g
        (List.count_pos_iff.1 (lt_of_lt_of_le (List.count_pos_iff.2 hg) (hs.count_le hw g)))
  refine ⟨hs.core h.core hread, hcustody.1, hcustody.2, ?_, ?_, hidle, hpolled⟩
  · intro g hg
    rw [hs.workers] at hg
    rcases hs.kept g with ⟨rfl, -⟩ | ⟨hk | hk, -⟩
    · exact absurd hg hc
    · rw [hk]
      exact h.closing g hg
    · exact hk
  · intro w hw
    rw [hs.workers] at hw
    have hsrc := h.sourced w hw
    cases w with
    | request fd chunks =>
        rcases hs.kept fd with ⟨-, hnone⟩ | ⟨-, ho⟩
        · exact absurd hnone (h.opened (Sound.held_places (Sound.mem_held hw rfl)))
        · simp only [WorkerPc.Sourced] at hsrc ⊢
          rwa [ho]
    | _ => trivial

/-! ### Workers -/

/-- What a worker leaves alone. -/
theorem WorkerStep.frame {pc pc' : WorkerPc} (hs : WorkerStep cfg s pc e s' pc') :
    s'.events = s.events ∧ s'.main = s.main ∧ s'.workers = s.workers := by
  cases hs with
  | rearmInput | rearmOutput =>
      obtain ⟨_, hep⟩ := s.modfd_eq ‹ℕ› _
      rw [hep]
      exact ⟨rfl, rfl, rfl⟩
  | readOk hr =>
      obtain ⟨he, hm, -, hk, -⟩ := hr.frame
      exact ⟨he, hm, hk⟩
  | writeMore hw | writeOk hw | writeFail hw =>
      obtain ⟨he, hm, -, hk, -⟩ := hw.frame
      exact ⟨he, hm, hk⟩
  | _ => exact ⟨rfl, rfl, rfl⟩

/-- **A worker takes slots from the queue only.** -/
theorem WorkerStep.count_le {pc pc' : WorkerPc} (hs : WorkerStep cfg s pc e s' pc') (g : ℕ) :
    s'.queue.count g + pc'.held.toList.count g ≤ s.queue.count g + pc.held.toList.count g := by
  cases hs with
  | take hq => simp [hq, WorkerPc.held, List.count_cons]
  | @rearmInput fd =>
      obtain ⟨_, hep⟩ := s.modfd_eq fd .input
      simp [hep, WorkerPc.held]
  | @rearmOutput fd =>
      obtain ⟨_, hep⟩ := s.modfd_eq fd .output
      simp [hep, WorkerPc.held]
  | readOk hr =>
      obtain ⟨-, -, hq, -⟩ := hr.frame
      simp [hq, WorkerPc.held]
  | writeMore hw | writeOk hw | writeFail hw =>
      obtain ⟨-, -, hq, -⟩ := hw.frame
      simp [hq, WorkerPc.held]
  | closeConn hpc =>
      rcases hpc with rfl | ⟨_, rfl⟩
      · simp [WorkerPc.held]
      · simp [WorkerPc.held]
  | closeNothing hpc =>
      rcases hpc with rfl | ⟨_, rfl⟩
      · simp [WorkerPc.held]
      · simp [WorkerPc.held]
  | _ => simp [WorkerPc.held]

/-- A worker changes the registration of the slot it holds only, and lets go of it. -/
theorem WorkerStep.epoll_eq {pc pc' : WorkerPc} (hs : WorkerStep cfg s pc e s' pc')
    (hsock : ∀ fd, pc.held = some fd → (s.slots fd).sockfd = some fd) (g : ℕ) :
    s'.epoll g = s.epoll g ∨ pc.held = some g ∧ pc'.held = none ∧ s'.queue = s.queue := by
  cases hs with
  | @rearmInput fd | @rearmOutput fd =>
      by_cases hg : g = fd
      · subst hg
        obtain ⟨_, hep⟩ := s.modfd_eq g _
        exact .inr ⟨rfl, rfl, by rw [hep]⟩
      · exact .inl (modfd_epoll_of_ne (hsock fd rfl) hg)
  | readOk hr => exact .inl (congrFun hr.frame.2.2.2.2.2 g)
  | @closeConn pc fd sock hpc hs =>
      have hheld : pc.held = some fd := by
        rcases hpc with rfl | ⟨_, rfl⟩
        · rfl
        · rfl
      obtain rfl : fd = sock := Option.some.inj ((hsock fd hheld).symm.trans hs)
      by_cases hg : g = fd
      · subst hg
        exact .inr ⟨hheld, rfl, rfl⟩
      · exact .inl (close_epoll_of_ne hg)
  | @writeMore fd _ _ hw =>
      cases hw with
      | sent => exact .inl rfl
  | @writeOk fd _ _ hw | @writeFail fd _ _ hw =>
      by_cases hg : g = fd
      · subst hg
        exact .inr ⟨rfl, rfl, hw.frame.2.2.1⟩
      · exact .inl (hw.epoll_of_ne (hsock fd rfl) hg)
  | _ => exact .inl rfl

theorem WorkerStep.kept {pc pc' : WorkerPc} (hs : WorkerStep cfg s pc e s' pc') (g : ℕ) :
    Kept s s' g := by
  cases hs with
  | rearmInput | rearmOutput => exact kept_modfd s _ _ g
  | readOk hr => exact hr.kept g
  | writeMore hw | writeOk hw | writeFail hw => exact hw.kept g
  | closeConn => exact kept_close s _ g
  | received | written | failed | flagging | respond => exact kept_setSlot s _ _ (by rfl) g
  | @closed fd => exact kept_setSlot s fd { s.slots fd with sockfd := none } rfl g
  | _ => exact ⟨.inl rfl, rfl⟩

/-- A worker that is in `close_conn` has closed its descriptor. -/
theorem WorkerStep.closing {pc pc' : WorkerPc} (hs : WorkerStep cfg s pc e s' pc')
    (hsock : ∀ fd, pc.held = some fd → (s.slots fd).sockfd = some fd) {g : ℕ}
    (hg : pc' = .closing g) : s'.fds g = none := by
  cases hs with
  | @closeConn pc fd sock hpc hs =>
      have hheld : pc.held = some fd := by
        rcases hpc with rfl | ⟨_, rfl⟩
        · rfl
        · rfl
      obtain rfl : fd = sock := Option.some.inj ((hsock fd hheld).symm.trans hs)
      cases hg
      simp
  | _ => cases hg

/-- A worker takes requests from slots whose bytes were read on their own connection. -/
theorem WorkerStep.sourced {pc pc' : WorkerPc} (h : Core s)
    (hs : WorkerStep cfg s pc e s' pc') : pc'.Sourced s' := by
  cases hs with
  | @request fd hne => exact ⟨hne, (h.tagged fd).1⟩
  | _ => trivial

theorem WorkerPc.Sourced.kept {w : WorkerPc} (h : w.Sourced s) (hk : ∀ g, Kept s s' g) :
    w.Sourced s' := by
  cases w with
  | request fd chunks =>
      simp only [WorkerPc.Sourced] at h ⊢
      rwa [(hk fd).2]
  | _ => trivial

/-- **A worker keeps the invariant.** -/
theorem WorkerStep.sound {i : ℕ} {pc pc' : WorkerPc} (h : Sound s)
    (hi : s.workers[i]? = some pc) (hs : WorkerStep cfg s pc e s' pc') :
    Sound { s' with workers := s'.workers.set i pc' } := by
  have hmem : pc ∈ s.workers := List.mem_of_getElem? hi
  have hopen : ∀ fd, pc.held = some fd → fd ∈ s.places := fun fd hfd =>
    Sound.held_places (Sound.mem_held hmem hfd)
  have hsock : ∀ fd, pc.held = some fd → (s.slots fd).sockfd = some fd := fun fd hfd =>
    h.sockfd (hopen fd hfd)
  obtain ⟨hev, hmain, hworkers⟩ := hs.frame
  have hset : ∀ g, ((s.workers.set i pc').flatMap fun w => w.held.toList).count g +
      pc.held.toList.count g =
        (s.workers.flatMap fun w => w.held.toList).count g + pc'.held.toList.count g := fun g =>
    count_flatMap_set (fun w : WorkerPc => w.held.toList) g pc' hi
  have hle : ∀ g, (Server.places { s' with workers := s'.workers.set i pc' }).count g ≤
      s.places.count g := by
    intro g
    have h₁ := hs.count_le g
    have h₂ := hset g
    simp only [Server.count_places, hev, hmain, hworkers]
    omega
  have hin : ∀ w ∈ s'.workers.set i pc', w = pc' ∨ w ∈ s.workers := by
    intro w hw
    rw [hworkers] at hw
    exact (List.mem_or_eq_of_mem_set hw).symm
  constructor
  · refine (hs.core h.core ?_ ?_ (h.sourced pc hmem)).congr rfl rfl rfl
    · rintro fd rfl
      exact h.opened (hopen fd rfl)
    · rintro fd rfl
      exact h.closing fd hmem
  · exact fun g => (hle g).trans (h.custody g)
  · intro g hg
    have hpos := List.count_pos_iff.2 hg
    rcases hs.epoll_eq hsock g with he | ⟨hheld, hnone, hq⟩
    · change s'.epoll g = _
      rw [he]
      exact h.silent g (List.count_pos_iff.1 (hpos.trans_le (hle g)))
    · -- the worker has let go of the slot, and no one else had it
      have h₁ := h.custody g
      have h₂ := hset g
      simp only [hheld, hnone, Option.toList_some, Option.toList_none, List.count_cons_self,
        List.count_nil] at h₂
      simp only [Server.count_places, hev, hmain, hworkers, hq] at hpos h₁
      omega
  · intro g hg
    rcases hin _ hg with hg | hg
    · exact hs.closing hsock hg.symm
    · rcases (hs.kept g).1 with hk | hk
      · exact hk.trans (h.closing g hg)
      · exact hk
  · intro w hw
    rcases hin w hw with rfl | hw
    · exact (hs.sourced h.core).kept fun _ => ⟨.inl rfl, rfl⟩
    · exact (h.sourced w hw).kept hs.kept
  · rw [hev, hmain]
    exact h.idle
  · rw [hev, hmain]
    exact h.polled

/-- **A careful step keeps the invariant.** -/
theorem Step.sound (h : Sound s) (hc : Careful s e) (hs : Step cfg s e s') : Sound s' := by
  cases hs with
  | main hs => exact hs.sound h hc
  | worker hi hs => exact hs.sound h hi
  | elapse d =>
      exact ⟨h.core.congr rfl rfl rfl, h.custody, h.silent, h.closing, h.sourced, h.idle, h.polled⟩

/-- **Every run of careful steps keeps the invariant.** -/
theorem sound_run {threads : ℕ} {evs : List Event}
    (hr : Run (Guarded (Step cfg) Careful) (start threads) evs s) : Sound s :=
  hr.invariant_state (sound_start threads) fun _ _ _ h hs => Step.sound h hs.2 hs.1

end Gateway.Web
