/-
No event is dropped.

A descriptor is registered one-shot: when `epoll` has reported it, it is silent until `modfd` arms
it again.  So whoever deals with the event has to pass the connection on: to the pool, from there to
a worker, and back to `epoll`, or to close it.  `dealwithread` and `dealwithwrite` ignore what
`append` and `append_p` return, and the reactor model may overlook that a read or a write has
failed.  In all other runs nothing is lost.

* `Gateway.Web.Watched` — what is claimed of a state;
* `Gateway.Web.Watch` — the invariant;
* `Gateway.Web.no_event_dropped` — **attentive runs drop no event**;
* `Gateway.Web.event_dropped` — a refused request, and a failure that is overlooked.
-/

import InferenceGateway.ServerHandshake

set_option relaxedAutoImplicit false
set_option autoImplicit false

namespace Gateway.Web

open EventSystem

variable {cfg : Config} {s s' : Server} {e : Event} {fd : ℕ}

/-! ### What is claimed -/

namespace Server

/-- `epoll` will report the descriptor. -/
def Armed (s : Server) (fd : ℕ) : Prop := s.epoll fd = some .input ∨ s.epoll fd = some .output

instance (s : Server) (fd : ℕ) : Decidable (s.Armed fd) := inferInstanceAs (Decidable (_ ∨ _))

/-- No event of the descriptor is waiting for the main thread or being handled by it. -/
def Settled (s : Server) (fd : ℕ) : Prop :=
  fd ∉ s.events.filterMap Ready.fd ∧ s.main.own ≠ some fd ∧ s.main.polled ≠ some fd

end Server

/-- **The situation of the connections.**  When the main thread has handled the event of a
descriptor, exactly one of four things is the case: it is in the queue of the pool, once; a worker
has it, and one only; it is armed; it is closed.  And where the main thread polls `improv`, the flag
is set, or the request that will set it is queued or with a worker. -/
structure Watched (s : Server) : Prop where
  situation : ∀ fd, s.Settled fd →
    s.queue.count fd + s.held.count fd + (if s.Armed fd then 1 else 0) +
      (if s.fds fd = none then 1 else 0) = 1
  answered : ∀ fd, s.main = .poll fd →
    (s.slots fd).improv = true ∨ fd ∈ s.queue ∨ ∃ w ∈ s.workers, w.pending = some fd

/-! ### The invariant -/

namespace Server

/-- A worker has failed to read or to write, and the main thread is about to see it. -/
def Failing (s : Server) (fd : ℕ) : Prop :=
  (s.main = .poll fd ∨ s.main = .flagged fd) ∧
    (.failed fd ∈ s.workers ∨ .flagging fd ∈ s.workers ∨ (s.slots fd).timerFlag = true)

/-- Somebody has the connection or will have it. -/
def Reached (s : Server) (fd : ℕ) : Prop := fd ∈ s.places ∨ s.Armed fd ∨ s.Failing fd

theorem mem_places : fd ∈ s.places ↔
    fd ∈ s.events.filterMap Ready.fd ∨ s.main.own = some fd ∨ fd ∈ s.queue ∨ fd ∈ s.held := by
  simp only [places, List.mem_append, Option.mem_toList]

theorem not_failing (hm : s.main.polled = none) : ¬ s.Failing fd := by
  rintro ⟨hp | hp, -⟩
  · rw [hp] at hm
    cases hm
  · rw [hp] at hm
    cases hm

end Server

/-- The worker reads, writes or sets a flag. -/
def WorkerPc.io : WorkerPc → Bool
  | .reading _ | .received _ | .writing _ | .written _ | .failed _ | .flagging _ => true
  | _ => false

/-- **The invariant.** -/
structure Watch (cfg : Config) (s : Server) : Prop where
  sound : Sound s
  registered : ∀ fd, s.fds fd ≠ none → s.epoll fd ≠ none
  reached : ∀ fd, s.fds fd ≠ none → s.Reached fd
  reactor : cfg.reactor = true → Handshake s
  proactor : cfg.reactor = false → s.main.polled = none ∧ ∀ w ∈ s.workers, w.io = false

theorem watch_start (threads : ℕ) : Watch cfg (start threads) where
  sound := sound_start threads
  registered := fun _ hfd => absurd rfl hfd
  reached := fun _ hfd => absurd rfl hfd
  reactor := fun _ => handshake_start threads
  proactor := by
    refine fun _ => ⟨rfl, ?_⟩
    intro w hw
    rw [List.eq_of_mem_replicate hw]
    rfl

/-- The invariant says what is claimed. -/
theorem Watch.watched (h : Watch cfg s) : Watched s where
  situation fd hfd := by
    obtain ⟨hev, hown, hpolled⟩ := hfd
    have hcustody := h.sound.custody fd
    rw [Server.count_places, List.count_eq_zero.2 hev,
      List.count_eq_zero.2 (by simpa using hown)] at hcustody
    have hcount : fd ∈ s.places ↔ 0 < s.queue.count fd + s.held.count fd := by
      rw [Server.mem_places, Nat.add_pos_iff_pos_or_pos, List.count_pos_iff, List.count_pos_iff]
      simp [hev, hown]
    by_cases hopen : s.fds fd = none
    · have hnot : fd ∉ s.places := fun hmem => h.sound.opened hmem hopen
      have harmed : ¬ s.Armed fd := by
        rw [Server.Armed, h.sound.core.registered fd hopen]
        nofun
      rw [hcount] at hnot
      rw [if_neg harmed, if_pos hopen]
      omega
    · rw [if_neg hopen]
      by_cases hmem : fd ∈ s.places
      · have harmed : ¬ s.Armed fd := by
          rw [Server.Armed, h.sound.silent fd hmem]
          nofun
        have hpos := hcount.1 hmem
        rw [if_neg harmed]
        change 0 + 0 + s.queue.count fd + s.held.count fd ≤ 1 at hcustody
        omega
      · have harmed : s.Armed fd := by
          rcases h.reached fd hopen with hp | ha | ⟨hp | hp, -⟩
          · exact absurd hp hmem
          · exact ha
          · exact absurd (by rw [hp]; rfl) hpolled
          · exact absurd (by rw [hp]; rfl) hpolled
        rw [hcount] at hmem
        rw [if_pos harmed]
        omega
  answered fd hm := by
    cases hcfg : cfg.reactor with
    | false =>
        have hpolled := (h.proactor hcfg).1
        rw [hm] at hpolled
        cases hpolled
    | true =>
        cases himp : (s.slots fd).improv with
        | true => exact .inl rfl
        | false =>
            have htokens := (h.reactor hcfg).tokens fd
            rw [if_pos ⟨hm, himp⟩, Server.tokens] at htokens
            by_cases hq : fd ∈ s.queue
            · exact .inr (.inl hq)
            · rw [List.count_eq_zero.2 hq] at htokens
              have hmem : fd ∈ s.workers.flatMap fun w => w.pending.toList :=
                List.count_pos_iff.1 (by omega)
              obtain ⟨w, hw, hfd⟩ := List.mem_flatMap.1 hmem
              exact .inr (.inr ⟨w, hw, by simpa using hfd⟩)

/-! ### The main thread -/

/-- A step that leaves the connection where it is. -/
theorem Server.Reached.carry (h : s.Reached fd) (hnf : ¬ s.Failing fd)
    (he : s'.epoll fd = s.epoll fd) (hp : fd ∈ s.places → fd ∈ s'.places) : s'.Reached fd := by
  rcases h with h | h | h
  · exact .inl (hp h)
  · refine .inr (.inl ?_)
    rw [Server.Armed, he]
    exact h
  · exact absurd h hnf

/-- A step of the main thread that leaves the registration and the workers as they are: what was
reported may come into its hand, and what was in its hand may come into the queue. -/
theorem Server.Reached.main (h : s.Reached fd) (hnf : ¬ s.Failing fd)
    (he : s'.epoll fd = s.epoll fd) (hk : s'.workers = s.workers)
    (hq : fd ∈ s.queue → fd ∈ s'.queue)
    (hev : fd ∈ s.events.filterMap Ready.fd →
      fd ∈ s'.events.filterMap Ready.fd ∨ s'.main.own = some fd)
    (hown : s.main.own = some fd → s'.main.own = some fd ∨ fd ∈ s'.queue) : s'.Reached fd := by
  refine h.carry hnf he ?_
  rw [Server.mem_places, Server.mem_places, Server.held_congr hk]
  rintro (hp | hp | hp | hp)
  · rcases hev hp with hp | hp
    · exact .inl hp
    · exact .inr (.inl hp)
  · rcases hown hp with hp | hp
    · exact .inr (.inl hp)
    · exact .inr (.inr (.inl hp))
  · exact .inr (.inr (.inl (hq hp)))
  · exact .inr (.inr (.inr hp))

/-- `modfd` arms the descriptor of an open slot. -/
theorem modfd_armed (hsock : (s.slots fd).sockfd = some fd) (hreg : s.epoll fd ≠ none)
    (i : Interest) : (s.modfd fd i).epoll fd = some i := by
  obtain ⟨j, hj⟩ := Option.ne_none_iff_exists'.1 hreg
  rw [Server.modfd, hsock]
  simp [hj]

/-- A successful `write` arms the descriptor. -/
theorem Write.armed (hw : Write s fd e (some true) s') (hsock : (s.slots fd).sockfd = some fd)
    (hreg : s.epoll fd ≠ none) : s'.Armed fd := by
  cases hw with
  | again => exact .inr (modfd_armed hsock hreg .output)
  | empty | keepAlive => exact .inl (modfd_armed hsock hreg .input)

/-- What is open after `close` is another descriptor. -/
theorem ne_of_close {g : ℕ} (hg : (s.close fd).fds g ≠ none) : g ≠ fd ∧ s.fds g ≠ none := by
  rw [Server.close_fds, Function.update_apply] at hg
  split at hg
  · exact absurd rfl hg
  · next hne => exact ⟨hne, hg⟩

section Main

variable {g : ℕ} {pc : MainPc}

/-- Outside of a poll there is no failure. -/
theorem unfailing (hm : s.main = pc) (hpc : pc.polled = none) : ¬ s.Failing g :=
  Server.not_failing (by rw [hm, hpc])

/-- The main thread has nothing in its hand. -/
theorem own_ne_of_none (hm : s.main = pc) (hpc : pc.own = none) : s.main.own ≠ some g := by
  rw [hm, hpc]
  exact Option.some_ne_none g ∘ Eq.symm

/-- The main thread has another slot in its hand. -/
theorem own_ne_of_ne (hm : s.main = pc) (hpc : pc.own = some fd) (hne : g ≠ fd) :
    s.main.own ≠ some g := by
  rw [hm, hpc]
  exact fun heq => hne (Option.some.inj heq).symm

/-- The event at the front comes into the hand. -/
theorem front_cases {r : Ready} {evs : List Ready} (hev : s.events = r :: evs) (hr : r.fd = some fd)
    (hp : g ∈ s.events.filterMap Ready.fd) :
    g ∈ evs.filterMap Ready.fd ∨ some fd = some g := by
  rw [hev, List.filterMap_cons_some hr] at hp
  rcases List.mem_cons.1 hp with rfl | hp
  · exact .inr rfl
  · exact .inl hp

namespace Watch

/-- `deal_timer` of a descriptor that is in the hand of the main thread or was just reported. -/
theorem reached_dealTimer (h : Watch cfg s) {evs : List Ready}
    (hg : (s.dealTimer fd).fds g ≠ none) (hnf : g ≠ fd → ¬ s.Failing g)
    (hev : g ∈ s.events.filterMap Ready.fd → g ∈ evs.filterMap Ready.fd ∨ some fd = some g)
    (hown : g ≠ fd → s.main.own ≠ some g) :
    Server.Reached { s.dealTimer fd with events := evs, main := pc } g := by
  obtain ⟨ts, hts⟩ := s.dealTimer_eq fd
  rw [hts] at hg ⊢
  obtain ⟨hne, hold⟩ := ne_of_close hg
  refine (h.reached g hold).main (hnf hne) (close_epoll_of_ne hne) rfl id ?_
    fun hp => absurd hp (hown hne)
  intro hp
  exact .inl ((hev hp).resolve_right fun heq => hne (Option.some.inj heq).symm)

/-- `append`: the slot in the hand goes into the queue. -/
theorem reached_append (h : Watch cfg s) {state : IoState} (hm : s.main = .append fd state)
    (hg : s.fds g ≠ none) (he : s'.epoll g = s.epoll g) (hk : s'.workers = s.workers)
    (hq : s'.queue = s.queue ++ [fd]) (hev : s'.events = s.events) : s'.Reached g := by
  refine (h.reached g hg).main (unfailing hm rfl) he hk ?_ ?_ ?_
  · rw [hq]
    exact List.mem_append_left _
  · rw [hev]
    exact .inl
  · rw [hm, hq]
    rintro ⟨⟩
    exact .inr (List.mem_append_right _ (List.mem_singleton_self _))

/-- A `write` of the main thread to another descriptor. -/
theorem reached_write (h : Watch cfg s) (hm : s.main = .write fd) {r : Option Bool} {t : Server}
    (hw : Write s fd e r t) (hne : g ≠ fd) (hg : t.fds g ≠ none) (he : s'.epoll g = t.epoll g)
    (hk : s'.workers = t.workers) (hq : s'.queue = t.queue) (hev : s'.events = t.events) :
    s'.Reached g := by
  obtain ⟨hev', -, hq', hk', hf⟩ := hw.frame
  have hold : s.fds g ≠ none := by rwa [← hf]
  have hsock := h.sound.sockfd (Sound.mem_own (g := fd) (by rw [hm]; rfl))
  refine (h.reached g hold).main (unfailing hm rfl) (he.trans (hw.epoll_of_ne hsock hne))
    (hk.trans hk') ?_ ?_ fun hp => absurd hp (own_ne_of_ne hm rfl hne)
  · rw [hq, hq']
    exact id
  · rw [hev, hev']
    exact .inl

/-- The main thread sees `improv`: a failure is still one that it is about to see. -/
theorem reached_poll (h : Watch cfg s) (hm : s.main = .poll fd) (hg : s.fds g ≠ none) :
    Server.Reached { s with main := .flagged fd } g := by
  rcases h.reached g hg with hp | hp | ⟨hp | hp, hfail⟩
  · refine .inl ?_
    rw [Server.mem_places, hm] at hp
    exact Server.mem_places.2 hp
  · exact .inr (.inl hp)
  · cases hm.symm.trans hp
    exact .inr (.inr ⟨.inr rfl, hfail⟩)
  · cases hm.symm.trans hp

/-- The main thread sees no `timer_flag`, and no worker that has failed is about to set it. -/
theorem reached_notFlagged (h : Watch cfg s) (hm : s.main = .flagged fd)
    (hflag : (s.slots fd).timerFlag = false) (hworkers : .flagging fd ∉ s.workers)
    (hg : s.fds g ≠ none) : Server.Reached { s with main := .release fd } g := by
  refine (h.reached g hg).main ?_ rfl rfl id .inl fun hp => absurd hp (own_ne_of_none hm rfl)
  rintro ⟨hp | hp, hfail⟩
  · cases hm.symm.trans hp
  · cases hm.symm.trans hp
    rcases hfail with hfail | hfail | hfail
    · cases hcfg : cfg.reactor with
      | false =>
          have hpolled := (h.proactor hcfg).1
          rw [hm] at hpolled
          cases hpolled
      | true => cases hm.symm.trans ((h.reactor hcfg).polling hfail rfl).1
    · exact hworkers hfail
    · rw [hflag] at hfail
      cases hfail

end Watch

/-- **The main thread loses no connection.** -/
theorem MainStep.reached (h : Watch cfg s) (ha : Attentive s e s') (hs : MainStep cfg s e s')
    (hg : s'.fds g ≠ none) : s'.Reached g := by
  have hnone : ∀ {pc : MainPc} {P : Prop}, s.main = pc → pc.own = none → s.main.own = some g →
      P := fun hm hpc hp => absurd hp (own_ne_of_none hm hpc)
  cases hs with
  | @epollWait evs hm hnd hdel =>
      by_cases hmem : g ∈ evs.filterMap Ready.fd
      · exact .inl (Server.mem_places.2 (.inl hmem))
      · refine (h.reached g hg).main (unfailing hm rfl) (if_neg hmem) rfl id ?_ (hnone hm rfl)
        rw [h.sound.idle (.inl hm)]
        nofun
  | listen hm hev | signal hm hev =>
      refine (h.reached g hg).main (unfailing hm rfl) rfl rfl id ?_ (hnone hm rfl)
      rw [hev]
      exact .inl
  | acceptFail hm | acceptBusy hm | tickEnd hm | loopEnd hm =>
      exact (h.reached g hg).main (unfailing hm rfl) rfl rfl id .inl (hnone hm rfl)
  | @accept fd hm =>
      by_cases hgf : g = fd
      · subst hgf
        exact .inr (.inl (.inl (Function.update_self ..)))
      · have hold : s.fds g ≠ none := by
          change Function.update s.fds fd _ g ≠ none at hg
          rwa [Function.update_of_ne hgf] at hg
        exact (h.reached g hold).main (unfailing hm rfl) (Function.update_of_ne hgf _ _) rfl id
          .inl (hnone hm rfl)
  | hangup hm hev =>
      exact h.reached_dealTimer hg (fun _ => unfailing hm rfl) (front_cases hev rfl)
        fun _ => own_ne_of_none hm rfl
  | @dispatch fd evs state hr hm hev =>
      obtain ⟨ts, hts⟩ := s.adjustTimer_eq fd
      rw [hts] at hg ⊢
      refine (h.reached g hg).main (unfailing hm rfl) rfl rfl id ?_ (hnone hm rfl)
      rcases hev with ⟨hev, -⟩ | ⟨hev, -⟩
      · exact front_cases hev rfl
      · exact front_cases hev rfl
  | @input fd evs hr hm hev | @output fd evs hr hm hev =>
      exact (h.reached g hg).main (unfailing hm rfl) rfl rfl id (front_cases hev rfl)
        (hnone hm rfl)
  | handOver hr hm => exact h.reached_append hm hg rfl rfl rfl rfl
  | handOverFull | appendFull => exact absurd rfl (ha.2.1 _)
  | @append fd hr hm =>
      obtain ⟨ts, hts⟩ := s.adjustTimer_eq fd
      rw [hts] at hg ⊢
      exact h.reached_append hm hg rfl rfl rfl rfl
  | readOk hm hr =>
      obtain ⟨hev, -, hq, hk, hf, he⟩ := hr.frame
      have hold : s.fds g ≠ none := by rwa [← hf]
      refine (h.reached g hold).main (unfailing hm rfl) (congrFun he g) hk ?_ ?_ ?_
      · rw [hq]
        exact id
      · rw [hev]
        exact .inl
      · rw [hm]
        exact .inl
  | readFail hm =>
      refine h.reached_dealTimer hg (fun _ => unfailing hm rfl) ?_
        fun hne => own_ne_of_ne hm rfl hne
      rw [Server.dealTimer_events]
      exact .inl
  | writeMore hm hw =>
      cases hw with
      | sent => exact h.reached g hg
  | @writeOk fd _ t hm hw =>
      obtain ⟨ts, hts⟩ := t.adjustTimer_eq fd
      rw [hts] at hg ⊢
      by_cases hgf : g = fd
      · subst hgf
        have hold : s.fds g ≠ none := by rwa [← hw.frame.2.2.2.2]
        have hsock := h.sound.sockfd (Sound.mem_own (g := g) (by rw [hm]; rfl))
        exact .inr (.inl (hw.armed hsock (h.registered g hold)))
      · exact h.reached_write hm hw hgf hg rfl rfl rfl rfl
  | @writeFail fd _ t hm hw =>
      obtain ⟨ts, hts⟩ := t.dealTimer_eq fd
      rw [hts] at hg ⊢
      obtain ⟨hne, hold⟩ := ne_of_close hg
      exact h.reached_write hm hw hne hold (close_epoll_of_ne hne) rfl rfl rfl
  | @tick cur t ts hm hts =>
      obtain ⟨hne, hold⟩ := ne_of_close hg
      exact (h.reached g hold).main (unfailing hm rfl) (close_epoll_of_ne hne) rfl id .inl .inl
  | poll hm => exact h.reached_poll hm hg
  | @flagged fd hm =>
      refine h.reached_dealTimer hg (fun hne => ?_) ?_ fun _ => own_ne_of_none hm rfl
      · rintro ⟨hp | hp, -⟩
        · cases hm.symm.trans hp
        · cases hm.symm.trans hp
          exact hne rfl
      · rw [Server.dealTimer_events]
        exact .inl
  | notFlagged hm hflag => exact h.reached_notFlagged hm hflag (ha.2.2 _ hm rfl) hg
  | clear hm | release hm =>
      refine (h.reached g hg).main ?_ rfl rfl id .inl (hnone hm rfl)
      rintro ⟨hp | hp, -⟩
      · cases hm.symm.trans hp
      · cases hm.symm.trans hp

end Main

/-! ### Workers -/

section Worker

variable {i g : ℕ} {pc pc' : WorkerPc}

/-- The other workers stay where they are. -/
theorem mem_set_of_ne {w : WorkerPc} (hi : s.workers[i]? = some pc) (hw : w ∈ s.workers)
    (hne : w ≠ pc) : w ∈ s.workers.set i pc' := by
  obtain ⟨j, hj⟩ := List.getElem?_of_mem hw
  have hij : i ≠ j := by
    rintro rfl
    rw [hi] at hj
    exact hne (Option.some.inj hj).symm
  refine List.mem_of_getElem? (i := j) ?_
  rw [List.getElem?_set_ne hij, hj]

theorem mem_set_self (hi : s.workers[i]? = some pc) : pc' ∈ s.workers.set i pc' := by
  obtain ⟨hlt, -⟩ := List.getElem?_eq_some_iff.1 hi
  exact List.mem_set hlt _

/-- A connection stays reached when the worker that has it keeps it, and the registration and the
failures stay. -/
theorem Server.Reached.worker (h : s.Reached g) (hi : s.workers[i]? = some pc)
    (hframe : s'.events = s.events ∧ s'.main = s.main ∧ s'.workers = s.workers)
    (he : s'.epoll g = s.epoll g) (hq : g ∈ s.queue → g ∈ s'.queue ∨ pc'.held = some g)
    (hp : pc.held = some g → pc'.held = some g)
    (hf : s.Failing g → Server.Failing { s' with workers := s'.workers.set i pc' } g) :
    Server.Reached { s' with workers := s'.workers.set i pc' } g := by
  obtain ⟨hev, hm, hk⟩ := hframe
  have hheld : pc'.held = some g → g ∈ (s.workers.set i pc').flatMap fun w => w.held.toList :=
    fun hheld => List.mem_flatMap.2 ⟨pc', mem_set_self hi, by simp [hheld]⟩
  rcases h with h | h | h
  · refine .inl ?_
    rw [Server.mem_places] at h ⊢
    dsimp only [Server.held]
    rw [hev, hm, hk]
    rcases h with h | h | h | h
    · exact .inl h
    · exact .inr (.inl h)
    · rcases hq h with h | h
      · exact .inr (.inr (.inl h))
      · exact .inr (.inr (.inr (hheld h)))
    · refine .inr (.inr (.inr ?_))
      obtain ⟨w, hw, hg⟩ := List.mem_flatMap.1 h
      by_cases hne : w = pc
      · subst hne
        exact hheld (hp (by simpa using hg))
      · exact List.mem_flatMap.2 ⟨w, mem_set_of_ne hi hw hne, hg⟩
  · refine .inr (.inl ?_)
    rw [Server.Armed]
    dsimp only
    rw [he]
    exact h
  · exact .inr (.inr (hf h))

/-- A failure stays as long as the worker that has failed does. -/
theorem Server.Failing.worker (h : s.Failing g) (hi : s.workers[i]? = some pc)
    (hframe : s'.events = s.events ∧ s'.main = s.main ∧ s'.workers = s.workers)
    (ht : (s.slots g).timerFlag = true → (s'.slots g).timerFlag = true)
    (hpc : pc ≠ .failed g) (hpc' : pc ≠ .flagging g) :
    Server.Failing { s' with workers := s'.workers.set i pc' } g := by
  obtain ⟨-, hm, hk⟩ := hframe
  obtain ⟨hmain, hfail⟩ := h
  refine ⟨by dsimp only; rwa [hm], ?_⟩
  dsimp only
  rw [hk]
  rcases hfail with hfail | hfail | hfail
  · exact .inl (mem_set_of_ne hi hfail (Ne.symm hpc))
  · exact .inr (.inl (mem_set_of_ne hi hfail (Ne.symm hpc')))
  · exact .inr (.inr (ht hfail))

/-- The worker arms the descriptor of its slot and lets it go. -/
theorem Server.Reached.rearm (h : s.Reached g) (hi : s.workers[i]? = some pc)
    (hheld : pc.held = some fd) (hsock : (s.slots fd).sockfd = some fd) (hreg : s.epoll g ≠ none)
    {x : Interest} (hx : x = .input ∨ x = .output) (hpc : pc ≠ .failed g)
    (hpc' : pc ≠ .flagging g) :
    Server.Reached { s.modfd fd x with workers := (s.modfd fd x).workers.set i pc' } g := by
  by_cases hgf : g = fd
  · subst hgf
    have harmed := modfd_armed hsock hreg x
    refine .inr (.inl ?_)
    rcases hx with rfl | rfl
    · exact .inl harmed
    · exact .inr harmed
  · have hne := modfd_epoll_of_ne (i := x) hsock hgf
    obtain ⟨ep, hep⟩ := s.modfd_eq fd x
    rw [hep] at hne ⊢
    refine h.worker hi ⟨rfl, rfl, rfl⟩ hne .inl ?_
      fun hf => hf.worker hi ⟨rfl, rfl, rfl⟩ id hpc hpc'
    intro heq
    exact absurd (Option.some.inj (heq.symm.trans hheld)) hgf

/-- A change of a slot that resets no `timer_flag`. -/
theorem setSlot_timerFlag (slot : Slot) (ht : (s.slots fd).timerFlag = true → slot.timerFlag = true)
    (hg : (s.slots g).timerFlag = true) : ((s.setSlot fd slot).slots g).timerFlag = true := by
  rw [Server.setSlot_slots, Function.update_apply]
  split
  · next heq => exact ht (heq ▸ hg)
  · exact hg

/-- A worker has one slot at most. -/
theorem held_ne {P : Prop} (hfd : pc.held = some fd) (hne : g ≠ fd) (hg : pc.held = some g) : P :=
  absurd (Option.some.inj (hg.symm.trans hfd)) hne

namespace Watch

/-- The slot of a worker is open at its descriptor. -/
theorem sockfd_held (h : Watch cfg s) (hi : s.workers[i]? = some pc) (hfd : pc.held = some fd) :
    (s.slots fd).sockfd = some fd :=
  h.sound.sockfd (Sound.held_places (Sound.mem_held (List.mem_of_getElem? hi) hfd))

/-- The main thread polls for the worker that reads or writes. -/
theorem polling (h : Watch cfg s) (hi : s.workers[i]? = some pc) (hp : pc.pending = some fd)
    (hio : pc.io = true) : s.main = .poll fd := by
  have hmem := List.mem_of_getElem? hi
  cases hcfg : cfg.reactor with
  | false =>
      rw [(h.proactor hcfg).2 pc hmem] at hio
      cases hio
  | true => exact ((h.reactor hcfg).polling hmem hp).1

/-- `read_once` fails: the worker goes on to set the flags, and the main thread polls for them. -/
theorem worker_readFail (h : Watch cfg s) (hi : s.workers[i]? = some (.reading fd))
    (hg : s.fds g ≠ none) :
    Server.Reached { s with workers := s.workers.set i (.failed fd) } g := by
  by_cases hgf : g = fd
  · subst hgf
    exact .inr (.inr ⟨.inl (h.polling hi rfl rfl), .inl (mem_set_self hi)⟩)
  · have hframe := (WorkerStep.readFail : WorkerStep cfg s (.reading fd) _ _ _).frame
    exact (h.reached g hg).worker hi hframe rfl .inl (held_ne rfl hgf)
      fun hf => hf.worker hi hframe id nofun nofun

/-- The worker that has failed sets `improv`. -/
theorem worker_failed (h : Watch cfg s) (hi : s.workers[i]? = some (.failed fd))
    (hg : s.fds g ≠ none) :
    Server.Reached { s.setSlot fd { s.slots fd with improv := true } with
      workers := s.workers.set i (.flagging fd) } g := by
  have hframe := (WorkerStep.failed : WorkerStep cfg s (.failed fd) _ _ _).frame
  refine (h.reached g hg).worker hi hframe rfl .inl nofun ?_
  intro hf
  by_cases hgf : g = fd
  · subst hgf
    exact ⟨hf.1, .inr (.inl (mem_set_self hi))⟩
  · exact hf.worker hi hframe (setSlot_timerFlag _ id) (by simpa using Ne.symm hgf) nofun

/-- And `timer_flag`. -/
theorem worker_flagging (h : Watch cfg s) (hi : s.workers[i]? = some (.flagging fd))
    (hg : s.fds g ≠ none) :
    Server.Reached { s.setSlot fd { s.slots fd with timerFlag := true } with
      workers := s.workers.set i .idle } g := by
  have hframe := (WorkerStep.flagging : WorkerStep cfg s (.flagging fd) _ _ _).frame
  refine (h.reached g hg).worker hi hframe rfl .inl nofun ?_
  intro hf
  by_cases hgf : g = fd
  · subst hgf
    exact ⟨hf.1, .inr (.inr (by simp))⟩
  · exact hf.worker hi hframe (setSlot_timerFlag _ fun _ => rfl) nofun
      (by simpa using Ne.symm hgf)

/-- `close_conn` closes the descriptor of the slot. -/
theorem worker_closeConn (h : Watch cfg s) (hi : s.workers[i]? = some pc) {sock : ℕ}
    (hpc : pc = .process fd ∨ ∃ chunks, pc = .request fd chunks)
    (hsock : (s.slots fd).sockfd = some sock) (hg : (s.close sock).fds g ≠ none) :
    Server.Reached { s.close sock with workers := s.workers.set i (.closing fd) } g := by
  obtain ⟨hne, hold⟩ := ne_of_close hg
  have hheld : pc.held = some fd := by
    rcases hpc with rfl | ⟨_, rfl⟩
    · rfl
    · rfl
  have hframe := (WorkerStep.closeConn hpc hsock : WorkerStep cfg s pc _ _ _).frame
  obtain rfl : fd = sock := Option.some.inj ((h.sockfd_held hi hheld).symm.trans hsock)
  refine (h.reached g hold).worker hi hframe (close_epoll_of_ne hne) .inl (held_ne hheld hne) ?_
  intro hf
  rcases hpc with rfl | ⟨_, rfl⟩
  · exact hf.worker hi hframe id nofun nofun
  · exact hf.worker hi hframe id nofun nofun

/-- A `write` of a worker to another descriptor. -/
theorem worker_write (h : Watch cfg s) (hi : s.workers[i]? = some (.writing fd)) {r : Option Bool}
    (hw : Write s fd e r s') (hg : s.fds g ≠ none) (hne : g ≠ fd) :
    Server.Reached { s' with workers := s'.workers.set i pc' } g := by
  obtain ⟨hev, hm, hq, hk, -⟩ := hw.frame
  refine (h.reached g hg).worker hi ⟨hev, hm, hk⟩
    (hw.epoll_of_ne (h.sockfd_held hi rfl) hne) (fun hmem => .inl (hq ▸ hmem)) (held_ne rfl hne) ?_
  intro hf
  refine hf.worker hi ⟨hev, hm, hk⟩ ?_ nofun nofun
  rw [hw.slots_of_ne hne]
  exact id

end Watch

/-- **A worker loses no connection.** -/
theorem WorkerStep.reached (h : Watch cfg s) (hi : s.workers[i]? = some pc)
    (hs : WorkerStep cfg s pc e s' pc') (hg : s'.fds g ≠ none) :
    Server.Reached { s' with workers := s'.workers.set i pc' } g := by
  have hopen : s.fds g ≠ none := by
    rcases (hs.kept g).1 with hk | hk
    · rwa [← hk]
    · exact absurd hk hg
  have hold := h.reached g hopen
  have hframe := hs.frame
  cases hs with
  | take hq =>
      refine hold.worker hi hframe rfl ?_ nofun fun hf => hf.worker hi hframe id nofun nofun
      rw [hq]
      intro hmem
      rcases List.mem_cons.1 hmem with rfl | hmem
      · exact .inr rfl
      · exact .inl hmem
  | proactor | reactorRead | reactorWrite | noRequest | request =>
      exact hold.worker hi hframe rfl .inl id fun hf => hf.worker hi hframe id nofun nofun
  | readOk hr =>
      cases hr with
      | intro =>
          exact hold.worker hi hframe rfl .inl id
            fun hf => hf.worker hi hframe (setSlot_timerFlag _ id) nofun nofun
  | received | respond =>
      exact hold.worker hi hframe rfl .inl id
        fun hf => hf.worker hi hframe (setSlot_timerFlag _ id) nofun nofun
  | @closed fd =>
      exact hold.worker hi hframe rfl .inl nofun fun hf => hf.worker hi hframe
        (setSlot_timerFlag { s.slots fd with sockfd := none } id) nofun nofun
  | written =>
      exact hold.worker hi hframe rfl .inl nofun
        fun hf => hf.worker hi hframe (setSlot_timerFlag _ id) nofun nofun
  | failed => exact h.worker_failed hi hopen
  | flagging => exact h.worker_flagging hi hopen
  | readFail => exact h.worker_readFail hi hopen
  | rearmInput =>
      exact hold.rearm hi rfl (h.sockfd_held hi rfl) (h.registered g hopen) (.inl rfl) nofun nofun
  | rearmOutput =>
      exact hold.rearm hi rfl (h.sockfd_held hi rfl) (h.registered g hopen) (.inr rfl) nofun nofun
  | closeConn hpc hsock => exact h.worker_closeConn hi hpc hsock hg
  | @closeNothing _ fd hpc hsock =>
      have hheld : pc.held = some fd := by
        rcases hpc with rfl | ⟨_, rfl⟩
        · rfl
        · rfl
      rw [h.sockfd_held hi hheld] at hsock
      cases hsock
  | writeMore hw =>
      cases hw with
      | sent => exact hold.worker hi hframe rfl .inl id fun hf => hf.worker hi hframe id nofun nofun
  | @writeOk fd _ _ hw =>
      by_cases hgf : g = fd
      · subst hgf
        exact .inr (.inl (hw.armed (h.sockfd_held hi rfl) (h.registered g hopen)))
      · exact h.worker_write hi hw hopen hgf
  | @writeFail fd _ _ hw =>
      by_cases hgf : g = fd
      · -- the worker goes on to set the flags, and the main thread polls for them
        subst hgf
        obtain ⟨-, hm, -, hk, -⟩ := hw.frame
        refine .inr (.inr ⟨.inl (hm.trans (h.polling hi rfl rfl)), .inl ?_⟩)
        dsimp only
        rw [hk]
        exact mem_set_self hi
      · exact h.worker_write hi hw hopen hgf

end Worker

/-! ### Registrations and the proactor model -/

/-- Open descriptors are registered. -/
def Registered (s : Server) : Prop := ∀ fd, s.fds fd ≠ none → s.epoll fd ≠ none

theorem Registered.close (h : Registered s) (fd : ℕ) : Registered (s.close fd) := by
  intro g hg
  obtain ⟨hne, hold⟩ := ne_of_close hg
  rw [close_epoll_of_ne hne]
  exact h g hold

theorem Registered.modfd (h : Registered s) (fd : ℕ) (i : Interest) :
    Registered (s.modfd fd i) := by
  unfold Server.modfd
  split
  · exact h
  · intro g hg
    rw [Server.rearm_epoll, Function.update_apply]
    split
    · next heq =>
        subst heq
        simpa using h g hg
    · exact h g hg

theorem Registered.write {r : Option Bool} (h : Registered s) (hw : Write s fd e r s') :
    Registered s' := by
  cases hw with
  | sent | fail => exact h
  | again => exact h.modfd fd .output
  | empty | keepAlive | finished => exact h.modfd fd .input

theorem MainStep.registered (h : Registered s) (hs : MainStep cfg s e s') : Registered s' := by
  cases hs with
  | @epollWait evs hm hnd hdel =>
      intro g hg
      change (if g ∈ evs.filterMap Ready.fd then some Interest.disabled else s.epoll g) ≠ none
      split
      · nofun
      · exact h g hg
  | @accept fd =>
      intro g hg
      change Function.update s.epoll fd (some .input) g ≠ none
      change Function.update s.fds fd (some s.nextConn) g ≠ none at hg
      by_cases hgf : g = fd
      · subst hgf
        simp
      · rw [Function.update_of_ne hgf] at hg ⊢
        exact h g hg
  | @hangup fd | @flagged fd | @readFail fd =>
      obtain ⟨ts, hts⟩ := s.dealTimer_eq fd
      rw [hts]
      exact h.close fd
  | @dispatch fd | @append fd | @appendFull fd =>
      obtain ⟨ts, hts⟩ := s.adjustTimer_eq fd
      rw [hts]
      exact h
  | readOk _ hr =>
      cases hr with
      | intro => exact h
  | writeMore _ hw => exact h.write hw
  | @writeOk fd _ t _ hw =>
      have ht : Registered t := h.write hw
      obtain ⟨ts, hts⟩ := t.adjustTimer_eq fd
      rw [hts]
      exact ht
  | @writeFail fd _ t _ hw =>
      have ht : Registered t := h.write hw
      obtain ⟨ts, hts⟩ := t.dealTimer_eq fd
      rw [hts]
      exact ht.close fd
  | @tick _ t => exact h.close t.fd
  | _ => exact h

theorem WorkerStep.registered {pc pc' : WorkerPc} (h : Registered s)
    (hs : WorkerStep cfg s pc e s' pc') : Registered s' := by
  cases hs with
  | rearmInput => exact h.modfd _ .input
  | rearmOutput => exact h.modfd _ .output
  | readOk hr =>
      cases hr with
      | intro => exact h
  | closeConn => exact h.close _
  | writeMore hw | writeOk hw | writeFail hw => exact h.write hw
  | _ => exact h

/-- In the proactor model the workers process only. -/
theorem WorkerStep.io {pc pc' : WorkerPc} (hcfg : cfg.reactor = false) (hio : pc.io = false)
    (hs : WorkerStep cfg s pc e s' pc') : pc'.io = false := by
  cases hs with
  | reactorRead hr | reactorWrite hr => exact absurd (hr.symm.trans hcfg) nofun
  | readOk | readFail | writeMore | writeOk | writeFail => cases hio
  | _ => first | rfl | cases hio

/-! ### Runs -/

/-- **Attentive steps keep the invariant.** -/
theorem Step.watch (h : Watch cfg s) (ha : Attentive s e s') (hs : Step cfg s e s') :
    Watch cfg s' := by
  have hsound := hs.sound h.sound ha.1
  have hreactor : cfg.reactor = true → Handshake s' := fun hcfg =>
    hs.handshake (h.reactor hcfg) hcfg ha
  cases hs with
  | main hs =>
      refine ⟨hsound, hs.registered h.registered, fun g hg => hs.reached h ha hg, hreactor, ?_⟩
      intro hcfg
      rw [hs.workers]
      exact ⟨hs.polled_none hcfg (h.proactor hcfg).1, (h.proactor hcfg).2⟩
  | worker hi hs =>
      obtain ⟨-, hm, hk⟩ := hs.frame
      have hreg := hs.registered h.registered
      refine ⟨hsound, fun g hg => hreg g hg, fun g hg => hs.reached h hi hg, hreactor, ?_⟩
      intro hcfg
      refine ⟨by rw [hm]; exact (h.proactor hcfg).1, ?_⟩
      intro w hw
      rw [hk] at hw
      rcases List.mem_or_eq_of_mem_set hw with hw | rfl
      · exact (h.proactor hcfg).2 w hw
      · exact hs.io hcfg ((h.proactor hcfg).2 _ (List.mem_of_getElem? hi))
  | elapse => exact ⟨hsound, h.registered, h.reached, hreactor, h.proactor⟩

/-- The steps that drop no event. -/
def AttentiveStep (cfg : Config) (s : Server) (e : Event) (s' : Server) : Prop :=
  Step cfg s e s' ∧ Attentive s e s'

theorem watch_run {threads : ℕ} {evs : List Event}
    (hr : Run (AttentiveStep cfg) (start threads) evs s) : Watch cfg s :=
  hr.invariant_state (watch_start threads) fun _ _ _ h hs => hs.1.watch h hs.2

/-- **No event is dropped** in a run in which every step is attentive: `append` and `append_p` find
room, the main thread does not overlook a failure of a worker, and no descriptor is closed or reused
while its slot is queued or with a worker. -/
theorem no_event_dropped {threads : ℕ} {evs : List Event}
    (hr : Run (AttentiveStep cfg) (start threads) evs s) : Watched s :=
  (watch_run hr).watched

/-! ### Dropped events -/

/-- Eight workers that sleep and `n` connections whose requests are queued. -/
structure Queued (n : ℕ) (s : Server) : Prop where
  main : s.main = .wait
  events : s.events = []
  timeout : s.timeout = false
  queue : s.queue.length = n
  count : s.userCount = n
  free : ∀ fd, 5 + n ≤ fd → s.fds fd = none
  workers : s.workers = List.replicate 8 .idle

/-- Another client connects and sends a request, and the main thread has read it. -/
structure Asking (n : ℕ) (s : Server) : Prop where
  main : s.main = .append (5 + n) .read
  events : s.events = []
  timeout : s.timeout = false
  queue : s.queue.length = n
  count : s.userCount = n + 1
  free : ∀ fd, 5 + (n + 1) ≤ fd → s.fds fd = none
  opened : s.fds (5 + n) ≠ none
  workers : s.workers = List.replicate 8 .idle

theorem Attentive.main {pc : MainPc} (hm : s.main = pc) (hpc : ∀ g, pc ≠ .flagged g)
    (hc : Careful s e) (he : ∀ g, e ≠ .append g false) : Attentive s e s' :=
  ⟨hc, he, fun g hg => absurd (hm.symm.trans hg) (hpc g)⟩

theorem Queued.ask {n : ℕ} (h : Queued n s) (hn : n ≤ 10000) :
    ∃ evs s', Run (AttentiveStep proactor) s evs s' ∧ Asking n s' := by
  have hfree := h.free (5 + n) le_rfl
  have hr : Run (AttentiveStep proactor) s _ _ := .single ⟨.main (.epollWait h.main (by decide)
    (@deliverable_singleton _ .listen trivial)), .main h.main nofun trivial nofun⟩
  have hr := hr.snoc ⟨.main (.listen rfl rfl), .main rfl nofun trivial nofun⟩
  have hbusy : s.userCount < MAX_FD := by
    rw [h.count]
    exact lt_of_le_of_lt (Int.ofNat_le.2 hn) (by decide)
  have hclosing : .closing (5 + n) ∉ s.workers := by
    rw [h.workers]
    intro hmem
    cases List.eq_of_mem_replicate hmem
  have hr := hr.snoc ⟨.main (@MainStep.accept _ _ (5 + n) rfl hfree nofun hbusy),
    .main rfl nofun hclosing nofun⟩
  have hr := hr.snoc ⟨.main (.loopEnd rfl rfl), .main rfl nofun trivial nofun⟩
  have hwait : (if s.timeout then MainPc.tick s.now else .wait) = .wait := by
    rw [h.timeout]
    rfl
  have hinput : Function.update s.epoll (5 + n) (some Interest.input) (5 + n) = some .input :=
    Function.update_self ..
  have hnodup : ([Ready.input (5 + n)].filterMap Ready.fd).Nodup := List.nodup_singleton _
  have hsock : (Function.update s.slots (5 + n)
      { sockfd := some (5 + n), owner := some s.nextConn } (5 + n)).sockfd = some (5 + n) := by
    rw [Function.update_self]
  have hconn : Function.update s.fds (5 + n) (some s.nextConn) (5 + n) = some s.nextConn :=
    Function.update_self ..
  have hr := hr.snoc ⟨.main (.epollWait hwait hnodup
    (@deliverable_singleton _ (.input (5 + n)) hinput)), .main hwait nofun trivial nofun⟩
  have hr := hr.snoc ⟨.main (.input rfl rfl rfl), .main rfl nofun trivial nofun⟩
  have hr := hr.snoc ⟨.main (.readOk rfl (@ReadOnce.intro _ _ (5 + n) s.nextConn hsock hconn)),
    .main rfl nofun trivial nofun⟩
  refine ⟨_, _, hr, rfl, rfl, h.timeout, h.queue, ?_, ?_, ?_, h.workers⟩
  · change s.userCount + 1 = _
    rw [h.count]
  · intro g hg
    change Function.update s.fds (5 + n) _ g = none
    rw [Function.update_of_ne (by omega)]
    exact h.free g (by omega)
  · change Function.update s.fds (5 + n) _ (5 + n) ≠ none
    simp

/-- There is room for its request. -/
theorem Asking.append {n : ℕ} (h : Asking n s) (hn : n < 10000) :
    ∃ evs s', Run (AttentiveStep proactor) s evs s' ∧ Queued (n + 1) s' := by
  have hr : Run (AttentiveStep proactor) s _ _ := .single ⟨.main (.append rfl h.main (by
    rw [h.queue]
    exact hn)), .main h.main nofun trivial nofun⟩
  obtain ⟨ts, hts⟩ := s.adjustTimer_eq (5 + n)
  rw [hts] at hr
  have hr := hr.snoc ⟨.main (.loopEnd rfl h.events), .main rfl nofun trivial nofun⟩
  refine ⟨_, _, hr, ?_, h.events, h.timeout, ?_, ?_, h.free, h.workers⟩
  · change (if s.timeout then MainPc.tick s.now else .wait) = .wait
    rw [h.timeout]
    rfl
  · change (s.queue ++ [5 + n]).length = n + 1
    rw [List.length_append, h.queue, List.length_singleton]
  · change s.userCount = _
    rw [h.count]
    rfl

theorem queued_run (n : ℕ) (hn : n ≤ 10000) :
    ∃ evs s, Run (AttentiveStep proactor) (start 8) evs s ∧ Queued n s := by
  induction n with
  | zero => exact ⟨[], start 8, .nil, rfl, rfl, rfl, rfl, rfl, fun _ _ => rfl, rfl⟩
  | succ n ih =>
      obtain ⟨evs, s, hr, hs⟩ := ih (by omega)
      obtain ⟨evs₁, s₁, hr₁, hs₁⟩ := hs.ask (by omega)
      obtain ⟨evs₂, s₂, hr₂, hs₂⟩ := hs₁.append hn
      exact ⟨_, s₂, (hr.trans hr₁).trans hr₂, hs₂⟩

/-- Ten connections send a request each; nothing is dropped. -/
theorem no_event_dropped_ten :
    ∃ evs s, Run (AttentiveStep proactor) (start 8) evs s ∧ s.queue.length = 10 ∧ Watched s := by
  obtain ⟨evs, s, hr, hs⟩ := queued_run 10 (by decide)
  exact ⟨evs, s, hr, hs.queue, no_event_dropped hr⟩

/-- In a full pool the request of the next client is refused, and its connection is nowhere. -/
theorem Asking.drop {n : ℕ} (h : Asking n s) (hw : Watch proactor s) (hn : 10000 ≤ n) :
    ∃ s', Step proactor s (.append (5 + n) false) s' ∧ ¬ Watched s' := by
  have hown : s.main.own = some (5 + n) := by rw [h.main]; rfl
  obtain ⟨hev, hq, hheld⟩ := hw.sound.own_alone hown
  have hsilent := hw.sound.silent _ (Sound.mem_own hown)
  have hstep : Step proactor s (.append (5 + n) false) _ :=
    .main (.appendFull rfl h.main (by
      rw [h.queue]
      exact hn))
  obtain ⟨ts, hts⟩ := s.adjustTimer_eq (5 + n)
  rw [hts] at hstep
  refine ⟨_, hstep, ?_⟩
  intro hwatched
  have hone := hwatched.situation (5 + n) ⟨hev, nofun, nofun⟩
  change s.queue.count (5 + n) + s.held.count (5 + n) + (if s.Armed (5 + n) then 1 else 0) +
    (if s.fds (5 + n) = none then 1 else 0) = 1 at hone
  have harmed : ¬ s.Armed (5 + n) := by
    rw [Server.Armed, hsilent]
    nofun
  rw [List.count_eq_zero.2 hq, List.count_eq_zero.2 hheld, if_neg harmed, if_neg h.opened] at hone
  cases hone

/-- The reactor model. -/
def reactor : Config := { reactor := true, edgeListen := false }

/-- A worker fails to read, and the main thread tests `timer_flag` before the worker has set it. -/
theorem overlooked : ∃ evs s, Run (Step reactor) (start 8) evs s ∧ ¬ Watched s := by
  have h : Run (Step reactor) (start 8) _ _ :=
    .single (.main (.epollWait rfl (by decide) (@deliverable_singleton _ .listen trivial)))
  have h := h.snoc (.main (.listen rfl rfl))
  have h := h.snoc (.main (@MainStep.accept _ _ 5 rfl rfl nofun (by decide)))
  have h := h.snoc (.main (.loopEnd rfl rfl))
  have h := h.snoc (.main (.epollWait rfl (by decide) (@deliverable_singleton _ (.input 5) rfl)))
  have h := h.snoc (.main (.dispatch rfl rfl (.inl ⟨rfl, rfl⟩)))
  have h := h.snoc (.main (.handOver rfl rfl (by decide)))
  have h := h.snoc (@Step.worker _ _ _ _ 0 _ _ rfl (.take rfl))
  have h := h.snoc (@Step.worker _ _ _ _ 0 _ _ rfl (.reactorRead rfl rfl))
  have h := h.snoc (@Step.worker _ _ _ _ 0 _ _ rfl .readFail)
  have h := h.snoc (@Step.worker _ _ _ _ 0 _ _ rfl .failed)
  have h := h.snoc (.main (.poll rfl rfl))
  have h := h.snoc (.main (.notFlagged rfl rfl))
  have h := h.snoc (.main (.release rfl))
  refine ⟨_, _, h, ?_⟩
  intro hw
  have hone := hw.situation 5 ⟨by decide, nofun, nofun⟩
  revert hone
  decide

/-- **Events are dropped** in both models: `append_p` refuses the request of the client behind ten
thousand queued ones, and the main thread of the reactor model overlooks a failed read. -/
theorem event_dropped :
    (∃ evs s, Run (Step proactor) (start 8) evs s ∧ ¬ Watched s) ∧
      ∃ evs s, Run (Step reactor) (start 8) evs s ∧ ¬ Watched s := by
  refine ⟨?_, overlooked⟩
  obtain ⟨evs, s, hr, hs⟩ := queued_run 10000 le_rfl
  obtain ⟨evs', s', hr', hs'⟩ := hs.ask le_rfl
  obtain ⟨s'', hstep, hnot⟩ := hs'.drop (watch_run (hr.trans hr')) le_rfl
  have hrun := (hr.trans hr').mono fun _ _ _ h => h.1
  exact ⟨_, s'', hrun.snoc hstep, hnot⟩

end Gateway.Web
