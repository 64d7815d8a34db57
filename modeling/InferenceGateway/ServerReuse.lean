/-
Descriptors that are reused too early.

Nothing in the code keeps a step careful.  A worker waits in `do_request` for up to
`task_timeout_sec`, 30 seconds by default, and the timer of its connection runs for `3 * TIMESLOT`,
15 seconds.  When it runs out, `tick` closes the descriptor under the worker, and the next `accept`
may return it.  The worker then puts its response into the slot of the new connection.

* `Gateway.Web.Step.careless` — a step that is not careful lets a slot be initialised while a worker
  processes it, at once or in some continuation;
* `Gateway.Web.response_isolation` — **runs of careful steps are proper, and careless steps lead to
  improper ones**;
* `Gateway.Web.response_crosses` — a run in which a response reaches a stranger.
-/

import InferenceGateway.ServerResponse

set_option relaxedAutoImplicit false
set_option autoImplicit false

namespace Gateway.Web

open EventSystem

variable {cfg : Config} {s s' : Server} {e : Event} {fd : ℕ}

/-! ### Careless steps -/

/-- The number of clients is bounded, clients have descriptors that the process does not hold
itself, and only the reactor model polls `improv`. -/
structure Bounded (cfg : Config) (s : Server) : Prop where
  userCount : s.userCount ≤ MAX_FD
  free : ∀ fd, s.fds fd ≠ none → fd ∉ cfg.reserved
  polled : cfg.reactor = false → s.main.polled = none

theorem bounded_start (threads : ℕ) : Bounded cfg (start threads) where
  userCount := Int.natCast_nonneg 65536
  free := fun _ h => absurd rfl h
  polled := fun _ => rfl

theorem Write.userCount {r : Option Bool} (hw : Write s fd e r s') :
    s'.userCount = s.userCount := by
  obtain ⟨_, hin⟩ := s.modfd_eq fd .input
  obtain ⟨_, hout⟩ := s.modfd_eq fd .output
  cases hw with
  | sent | fail => rfl
  | again => rw [hout]
  | empty | keepAlive => rw [hin, Server.initSlot_userCount]
  | finished => rw [hin]

theorem ReadOnce.userCount (hr : ReadOnce s fd s') : s'.userCount = s.userCount := by
  cases hr with
  | intro => rfl

/-- The counter of the clients rises only in `accept`, below the bound. -/
theorem MainStep.userCount_le (hs : MainStep cfg s e s') (h : s.userCount ≤ MAX_FD) :
    s'.userCount ≤ MAX_FD := by
  have hsub : s.userCount - 1 ≤ MAX_FD := (Int.sub_le_self _ (by decide)).trans h
  cases hs with
  | accept _ _ _ hlt => exact Int.add_one_le_of_lt hlt
  | @hangup fd | @flagged fd | @readFail fd =>
      obtain ⟨ts, hts⟩ := s.dealTimer_eq fd
      rw [hts]
      exact hsub
  | @dispatch fd | @append fd | @appendFull fd =>
      obtain ⟨ts, hts⟩ := s.adjustTimer_eq fd
      rw [hts]
      exact h
  | readOk _ hr => exact hr.userCount ▸ h
  | writeMore _ hw => exact hw.userCount ▸ h
  | @writeOk fd _ t _ hw =>
      obtain ⟨ts, hts⟩ := t.adjustTimer_eq fd
      rw [hts]
      exact hw.userCount ▸ h
  | @writeFail fd _ t _ hw =>
      obtain ⟨ts, hts⟩ := t.dealTimer_eq fd
      rw [hts, Server.cbFunc_userCount, hw.userCount]
      exact hsub
  | tick => exact hsub
  | _ => exact h

theorem WorkerStep.userCount_le {pc pc' : WorkerPc} (hs : WorkerStep cfg s pc e s' pc') :
    s'.userCount ≤ s.userCount := by
  cases hs with
  | rearmInput | rearmOutput =>
      obtain ⟨_, hep⟩ := s.modfd_eq _ _
      rw [hep]
  | readOk hr => exact hr.userCount.le
  | writeMore hw | writeOk hw | writeFail hw => exact hw.userCount.le
  | closed => exact Int.sub_le_self _ (by decide)
  | _ => exact le_refl _

/-- The main thread of the proactor model polls nothing. -/
theorem MainStep.polled_none (hcfg : cfg.reactor = false) (hs : MainStep cfg s e s')
    (h : s.main.polled = none) : s'.main.polled = none := by
  cases hs with
  | dispatch hr | handOver hr | handOverFull hr => rw [hcfg] at hr; cases hr
  | poll hm | flagged hm | notFlagged hm | clear hm => rw [hm] at h; cases h
  | accept | loopEnd => dsimp only; split <;> rfl
  | @hangup fd =>
      obtain ⟨ts, hts⟩ := s.dealTimer_eq fd
      rw [hts]
      exact h
  | writeMore _ hw => rw [hw.frame.2.1]; exact h
  | signal | tick => exact h
  | _ => rfl

theorem Step.bounded (h : Bounded cfg s) (hs : Step cfg s e s') : Bounded cfg s' := by
  cases hs with
  | main hs =>
      refine ⟨hs.userCount_le h.userCount, ?_, fun hcfg => hs.polled_none hcfg (h.polled hcfg)⟩
      intro g hg
      rcases hs.kept g with ⟨rfl, -⟩ | ⟨hk | hk, -⟩
      · cases hs with
        | accept _ _ hfree => exact hfree
        | writeMore _ hw | writeOk _ hw => cases hw
      · exact h.free g (hk ▸ hg)
      · exact absurd hk hg
  | worker hi hs =>
      obtain ⟨-, hmain, -⟩ := hs.frame
      refine ⟨hs.userCount_le.trans h.userCount, ?_, fun hcfg => ?_⟩
      · intro g hg
        rcases (hs.kept g).1 with hk | hk
        · exact h.free g (hk ▸ hg)
        · exact absurd hk hg
      · rw [hmain]
        exact h.polled hcfg
  | elapse => exact ⟨h.userCount, h.free, h.polled⟩

theorem bounded_run {threads : ℕ} {evs : List Event}
    (hr : Run (Step cfg) (start threads) evs s) : Bounded cfg s :=
  hr.invariant_state (bounded_start threads) fun _ _ _ h hs => hs.bounded h

theorem deliverable_singleton {r : Ready} (h : Deliverable s r) :
    ∀ e ∈ [r], Deliverable s e := by
  intro e he
  obtain rfl := List.mem_singleton.1 he
  exact h

/-- `tick` closes descriptors until it finds a timer that has not run out, while the workers and
the queue stay as they are. -/
theorem tick_run (cfg : Config) {cur : ℕ} (hm : s.main = .tick cur) :
    ∃ evs t, Run (Step cfg) s evs t ∧ t.main = .wait ∧ t.workers = s.workers ∧
      t.queue = s.queue ∧ t.userCount ≤ s.userCount ∧ ∀ g, s.fds g = none → t.fds g = none := by
  generalize hts : s.timers = ts
  induction ts generalizing s with
  | nil =>
      refine ⟨_, _, .single (.main (.tickEnd hm ?_)), rfl, rfl, rfl, le_refl _, fun _ h => h⟩
      intro t ht
      rw [hts] at ht
      cases ht
  | cons t ts ih =>
      by_cases hexp : t.expire ≤ cur
      · obtain ⟨evs, u, hr, hmain, hw, hq, hu, hf⟩ :=
          ih (s := { s.cbFunc t.fd with timers := ts }) hm rfl
        refine ⟨_, u, (Run.single (.main (.tick hm hts hexp))).trans hr, hmain, hw, hq,
          hu.trans (Int.sub_le_self _ (by decide)), ?_⟩
        intro g hg
        refine hf g ?_
        by_cases hgf : g = t.fd
        · simp [hgf]
        · simpa [hgf] using hg
      · refine ⟨_, _, .single (.main (.tickEnd hm ?_)), rfl, rfl, rfl, le_refl _, fun _ h => h⟩
        intro t' ht'
        rw [hts] at ht'
        cases ht'
        exact Nat.lt_of_not_le hexp

/-- **A careless `tick` can be followed by a new connection in a busy slot.** -/
theorem tick_reused (hb : Bounded cfg s) (hs : Step cfg s (.tick fd) s')
    (hopen : s.fds fd ≠ none) (hbusy : fd ∈ s.queue ∨ fd ∈ s.held) :
    ∃ evs t t', Run (Step cfg) s' evs t ∧ Step cfg t (.accept fd) t' ∧
      ¬ Proper t (.accept fd) := by
  cases hs with
  | main hs =>
      cases hs with
      | @tick cur t ts hm hts hexp =>
          obtain ⟨evs, u, hr, hmain, hw, hq, hu, hf⟩ :=
            tick_run cfg (s := { s.cbFunc t.fd with timers := ts }) hm
          have hr := hr.snoc (.main (.epollWait hmain (by decide)
            (@deliverable_singleton _ .listen trivial)))
          have hr := hr.snoc (.main (.listen rfl rfl))
          have hnone : u.fds t.fd = none := hf t.fd (Function.update_self ..)
          have hcount : u.userCount < MAX_FD :=
            lt_of_le_of_lt hu (lt_of_lt_of_le (Int.sub_lt_self _ (by decide)) hb.userCount)
          refine ⟨_, _, _, hr, .main (.accept rfl hnone (hb.free t.fd hopen) hcount), ?_⟩
          intro hproper
          refine hproper ?_
          rcases hbusy with hbusy | hbusy
          · exact .inl (hq ▸ hbusy)
          · refine .inr (.inl ?_)
            exact (Server.held_congr (s := s) (t := u) hw).symm ▸ hbusy
      | writeMore _ hw | writeOk _ hw => cases hw
  | worker _ hs =>
      cases hs with
      | writeMore hw => cases hw

/-- In the proactor model `deal_timer` is always careful: it closes descriptors that the main thread
has to itself. -/
theorem Sound.dealTimer_careful (h : Sound s) (hp : s.main.polled = none)
    (hs : Step cfg s (.dealTimer fd) s') : Careful s (.dealTimer fd) := by
  intro _
  cases hs with
  | main hs =>
      cases hs with
      | hangup _ hev => exact (h.reported_alone hev rfl).2
      | flagged hm => rw [hm] at hp; cases hp
      | readFail hm => exact (h.own_alone (by rw [hm]; rfl)).2
      | writeMore _ hw | writeOk _ hw => cases hw
      | writeFail hm _ => exact (h.own_alone (by rw [hm]; rfl)).2
  | worker _ hs =>
      cases hs with
      | writeMore hw => cases hw

/-- **What a careless step leads to**: a slot is initialised while a worker processes it, at once or
after the end of the loop.  Only `deal_timer` is excepted in the reactor model, where the main
thread may wait for a worker before it accepts again. -/
theorem Step.careless (h : Sound s) (hb : Bounded cfg s) (hs : Step cfg s e s')
    (hc : ¬ Careful s e) (hd : cfg.reactor = true → ∀ fd, e ≠ .dealTimer fd) :
    ¬ Proper s e ∨ ∃ evs t fd t', Run (Step cfg) s' evs t ∧ Step cfg t (.accept fd) t' ∧
      ¬ Proper t (.accept fd) := by
  cases e with
  | accept fd =>
      refine .inl fun hp => hc fun hclosing => ?_
      exact hp (.inr (.inr hclosing))
  | tick fd =>
      obtain ⟨hopen, hbusy⟩ := Classical.not_imp.1 hc
      have hbusy : fd ∈ s.queue ∨ fd ∈ s.held := by tauto
      obtain ⟨evs, t, t', hr, ha, hp⟩ := tick_reused hb hs hopen hbusy
      exact .inr ⟨evs, t, fd, t', hr, ha, hp⟩
  | dealTimer fd =>
      cases hreactor : cfg.reactor with
      | true => exact absurd rfl (hd hreactor fd)
      | false => exact absurd (h.dealTimer_careful (hb.polled hreactor) hs) hc
  | _ => exact absurd trivial hc

/-! ### A request and its response -/

/-- The proactor model. -/
def proactor : Config := { reactor := false, edgeListen := false }

/-- Connection `conn` is open at descriptor 5, and the only worker waits in `do_request` for the
response to a request that was read there on connection 0. -/
structure Asked (s : Server) (conn : ℕ) : Prop where
  main : s.main = .loop
  events : s.events = []
  timeout : s.timeout = false
  workers : s.workers = [.request 5 [0]]
  fds : s.fds 5 = some conn
  registered : ∃ i, s.epoll 5 = some i
  sockfd : (s.slots 5).sockfd = some 5

/-- A connection is accepted and asks, before its timer runs out. -/
theorem asked_run :
    ∃ evs s, Run (Guarded (Step proactor) Careful) (start 1) evs s ∧ Asked s 0 ∧
      s.timers = [⟨0, 5, 15⟩] ∧ s.userCount = 1 ∧ s.nextConn = 1 ∧ s.nextTimer = 1 := by
  have h : Run (Guarded (Step proactor) Careful) (start 1) _ _ :=
    Run.nil.snoc ⟨.main (.epollWait rfl (by decide) (@deliverable_singleton _ .listen trivial)),
      trivial⟩
  have h := h.snoc ⟨.main (.listen rfl rfl), trivial⟩
  have h := h.snoc ⟨.main (@MainStep.accept _ _ 5 rfl rfl (by decide) (by decide)), by
    simp [Careful, start, Server.deliver]⟩
  have h := h.snoc ⟨.main (.loopEnd rfl rfl), trivial⟩
  have h := h.snoc ⟨.main (.epollWait rfl (by decide) (@deliverable_singleton _ (.input 5) rfl)),
    trivial⟩
  have h := h.snoc ⟨.main (.input rfl rfl rfl), trivial⟩
  have h := h.snoc ⟨.main (.readOk rfl (.intro rfl rfl)), trivial⟩
  have h := h.snoc ⟨.main (.append rfl rfl (by decide)), trivial⟩
  have h := h.snoc ⟨@Step.worker _ _ _ _ 0 _ _ rfl (.take rfl), trivial⟩
  have h := h.snoc ⟨@Step.worker _ _ _ _ 0 _ _ rfl (.proactor rfl), trivial⟩
  have h := h.snoc ⟨@Step.worker _ _ _ _ 0 _ _ rfl (.request (by decide)), trivial⟩
  exact ⟨_, _, h, ⟨rfl, rfl, rfl, rfl, rfl, ⟨_, rfl⟩, rfl⟩, rfl, rfl, rfl, rfl⟩

/-- The worker answers, and what it has written is sent on the connection at descriptor 5. -/
theorem Asked.send {conn : ℕ} (h : Asked s conn) :
    ∃ evs t, Run (Guarded (Step proactor) Careful) s evs t ∧
      Step proactor t (.send conn [0]) t := by
  obtain ⟨i, hi⟩ := h.registered
  have hr : Run (Guarded (Step proactor) Careful) s [.respond 5 [0]] _ :=
    .single ⟨@Step.worker _ _ _ _ 0 _ _ (by rw [h.workers]; rfl) .respond, trivial⟩
  have hr := hr.snoc ⟨@Step.worker _ _ _ _ 0 _ _ (by simp [h.workers]; rfl) .rearmOutput, trivial⟩
  simp only [Server.modfd, Server.setSlot, Function.update_self, h.sockfd] at hr
  have hr := hr.snoc ⟨.main (.loopEnd h.main h.events), trivial⟩
  have hr := hr.snoc ⟨.main (.epollWait (by simp [h.timeout]) (by decide)
    (@deliverable_singleton _ (.output 5) (by simp [Deliverable, hi]))), trivial⟩
  have hr := hr.snoc ⟨.main (.output rfl rfl rfl), trivial⟩
  exact ⟨_, _, hr, .main (.writeMore rfl (.sent rfl rfl h.fds))⟩

/-- While the worker waits, the timer of the connection runs out; `tick` closes descriptor 5, and
`accept` returns it for connection 1. -/
theorem Asked.reused (h : Asked s 0) (ht : s.timers = [⟨0, 5, 15⟩]) (hu : s.userCount = 1)
    (hn : s.nextConn = 1) :
    ∃ evs t t', Run (Step proactor) s evs t ∧ Step proactor t (.accept 5) t' ∧
      ¬ Proper t (.accept 5) ∧ Asked t' 1 := by
  have hr : Run (Step proactor) s [.quiet] _ := .single (.main (.loopEnd h.main h.events))
  have hr := hr.snoc (.elapse 15)
  have hr := hr.snoc (.main (.epollWait (by simp [h.timeout]) (by decide)
    (@deliverable_singleton _ .signal trivial)))
  have hr := hr.snoc (.main (.signal rfl rfl))
  have hr := hr.snoc (.main (.loopEnd rfl rfl))
  have hr := hr.snoc (.main (.tick rfl ht (Nat.le_add_left 15 s.now)))
  have hr := hr.snoc (.main (.tickEnd rfl (by
    intro t ht
    cases ht)))
  have hr := hr.snoc (.main (.epollWait rfl (by decide) (@deliverable_singleton _ .listen trivial)))
  have hr := hr.snoc (.main (.listen rfl rfl))
  refine ⟨_, _, _, hr, .main (@MainStep.accept _ _ 5 rfl rfl (by decide) ?_),
    ?_, ?_⟩
  · change s.userCount - 1 < MAX_FD
    rw [hu]
    decide
  · intro hproper
    refine hproper (.inr (.inl ?_))
    exact Sound.mem_held (w := .request 5 [0]) (h.workers ▸ List.mem_singleton_self _) rfl
  · exact ⟨rfl, rfl, rfl, h.workers, congrArg some hn, ⟨.input, rfl⟩, rfl⟩

/-! ### Responses reach the connection that asked -/

/-- **A response only reaches the connection that asked**, and no slot is initialised while a worker
processes it, in every run in which `cb_func` closes no descriptor whose slot is queued or with a
worker, and `accept` returns none that a worker is about to give up in `close_conn`.  A step that
breaks this condition is improper or can be followed by an improper `accept`, the `deal_timer` of
the reactor model excepted. -/
theorem response_isolation {threads : ℕ} {evs : List Event}
    (hr : Run (Guarded (Step cfg) Careful) (start threads) evs s) :
    Run (Guarded (Step cfg) Proper) (start threads) evs s ∧
      ∀ e s', Step cfg s e s' → ¬ Careful s e → (cfg.reactor = true → ∀ fd, e ≠ .dealTimer fd) →
        ¬ Proper s e ∨ ∃ evs' t fd t', Run (Step cfg) s' evs' t ∧ Step cfg t (.accept fd) t' ∧
          ¬ Proper t (.accept fd) :=
  ⟨careful_run hr, fun _ _ hs hc hd => hs.careless (sound_run hr) (bounded_run hr.of_guarded) hc hd⟩

/-- A connection is accepted, asks and gets its response. -/
theorem response_isolation_one :
    ∃ evs s, Run (Guarded (Step proactor) Proper) (start 1) (evs ++ [.send 0 [0]]) s := by
  obtain ⟨evs, s, hr, h, -⟩ := asked_run
  obtain ⟨evs', t, hr', hs⟩ := h.send
  exact ⟨_, _, (response_isolation ((hr.trans hr').snoc ⟨hs, trivial⟩)).1⟩

/-- Connection 0 asks, and while its worker waits for the scheduler, connection 1 is accepted at the
same descriptor.  The response to connection 0 is sent on connection 1. -/
theorem response_crosses :
    ∃ evs evs' s₁ s₂ s₃, Run (Step proactor) (start 1) evs s₁ ∧
      Step proactor s₁ (.accept 5) s₂ ∧ ¬ Proper s₁ (.accept 5) ∧
      Run (Step proactor) s₂ evs' s₃ ∧
      Step proactor s₃ (.send 1 [0]) s₃ ∧ ¬ Proper s₃ (.send 1 [0]) := by
  obtain ⟨evs, s, hr, h, ht, hu, hn, -⟩ := asked_run
  obtain ⟨evs', s₁, s₂, hr₁, haccept, hbusy, h₂⟩ := h.reused ht hu hn
  obtain ⟨evs'', s₃, hr₃, hsend⟩ := h₂.send
  refine ⟨_, _, s₁, s₂, s₃, hr.of_guarded.trans hr₁, haccept, hbusy, hr₃.of_guarded, hsend, ?_⟩
  rintro ⟨-, hall⟩
  exact absurd (hall 0 (List.mem_singleton_self 0)) (by decide)

end Gateway.Web
