/-
Connections, timers and the counter.

A connection is accounted for three times: the kernel has its descriptor, the timer list has a node
for it and `m_user_count` counts it.  `cb_func` with `del_timer` or in `tick` takes it from all
three.  `close_conn`, which a worker calls when `process` fails, leaves the node in the list.

* `Gateway.Web.Ledger` — the three accounts agree;
* `Gateway.Web.Accounts` — the invariant: the ledger, and only open descriptors are handled;
* `Gateway.Web.Accounted` — what a client relies on: the accounts, and a close for each accept;
* `Gateway.Web.connection_accounting` — **the runs without `close_conn` are the ones that keep it**.
-/

import InferenceGateway.ServerReuse
import InferenceGateway.LinkedList
import Mathlib.Data.Finset.Card

set_option relaxedAutoImplicit false
set_option autoImplicit false

namespace Gateway.Web

open EventSystem

variable {cfg : Config} {s s' : Server} {e : Event} {fd id : ℕ} {ns : List (ℕ × ℕ)}

/-! ### The ledger -/

/-- The nodes of the timer list, with their descriptors. -/
def Server.nodes (s : Server) : List (ℕ × ℕ) := s.timers.map fun t => (t.id, t.fd)

/-- What the ledger reads of the rest of the state. -/
def Server.books (s : Server) : (ℕ → Option ℕ) × ℤ × (ℕ → Option ℕ) × ℕ :=
  (s.fds, s.userCount, s.timerOf, s.nextTimer)

/-- The nodes, the open descriptors, `users_timer` and the counter agree. -/
structure Ledger (s : Server) (ns : List (ℕ × ℕ)) : Prop where
  count : s.userCount = ns.length
  opened : ∀ fd, s.fds fd ≠ none ↔ fd ∈ ns.map Prod.snd
  once : (ns.map Prod.snd).Nodup
  keys : (ns.map Prod.fst).Nodup
  current : ∀ x ∈ ns, s.timerOf x.2 = some x.1
  fresh : ∀ x ∈ ns, x.1 < s.nextTimer

namespace Ledger

theorem perm {ns' : List (ℕ × ℕ)} (h : Ledger s ns) (hp : ns.Perm ns') :
    Ledger s ns' where
  count := h.count.trans (by rw [hp.length_eq])
  opened fd := (h.opened fd).trans (hp.map Prod.snd).mem_iff
  once := (hp.map Prod.snd).nodup_iff.1 h.once
  keys := (hp.map Prod.fst).nodup_iff.1 h.keys
  current x hx := h.current x (hp.mem_iff.2 hx)
  fresh x hx := h.fresh x (hp.mem_iff.2 hx)

/-- The ledger does not depend on the rest of the state. -/
theorem congr (h : Ledger s ns) (hb : s'.books = s.books) : Ledger s' ns := by
  simp only [Server.books, Prod.mk.injEq] at hb
  obtain ⟨hf, hc, ht, hn⟩ := hb
  constructor
  · rw [hc]
    exact h.count
  · rw [hf]
    exact h.opened
  · exact h.once
  · exact h.keys
  · rw [ht]
    exact h.current
  · rw [hn]
    exact h.fresh

/-- The node of an open descriptor. -/
theorem node (h : Ledger s ns) (hfd : s.fds fd ≠ none) :
    ∃ id, s.timerOf fd = some id ∧ (id, fd) ∈ ns := by
  obtain ⟨⟨id, g⟩, hmem, rfl⟩ := List.mem_map.1 ((h.opened fd).1 hfd)
  exact ⟨id, h.current _ hmem, hmem⟩

/-- **A connection is opened.** -/
theorem accept (h : Ledger s ns) (hfd : s.fds fd = none) :
    Ledger (s.timer fd) ((s.nextTimer, fd) :: ns) := by
  have hnot : fd ∉ ns.map Prod.snd := fun hmem => (h.opened fd).2 hmem hfd
  constructor
  · change s.userCount + 1 = _
    rw [h.count]
    rfl
  · intro g
    change Function.update s.fds fd (some s.nextConn) g ≠ none ↔ _
    rw [List.map_cons, List.mem_cons, ← h.opened]
    by_cases hg : g = fd
    · simp [hg]
    · simp [hg]
  · exact List.nodup_cons.2 ⟨hnot, h.once⟩
  · refine List.nodup_cons.2 ⟨?_, h.keys⟩
    intro hmem
    obtain ⟨x, hx, heq⟩ := List.mem_map.1 hmem
    exact absurd (h.fresh x hx) (by rw [heq]; exact Nat.lt_irrefl _)
  · intro x hx
    change Function.update s.timerOf fd (some s.nextTimer) x.2 = _
    rcases List.mem_cons.1 hx with rfl | hx
    · exact Function.update_self ..
    · have hne : x.2 ≠ fd := by
        intro heq
        exact hnot (heq ▸ List.mem_map_of_mem hx)
      rw [Function.update_of_ne hne]
      exact h.current x hx
  · intro x hx
    change x.1 < s.nextTimer + 1
    rcases List.mem_cons.1 hx with rfl | hx
    · exact Nat.lt_succ_self _
    · exact (h.fresh x hx).trans (Nat.lt_succ_self _)

/-- **A connection is closed** and its node is taken out. -/
theorem close {rest : List (ℕ × ℕ)} (h : Ledger s ((id, fd) :: rest)) :
    Ledger (s.cbFunc fd) rest := by
  obtain ⟨hnot, honce⟩ := List.nodup_cons.1 h.once
  constructor
  · have hcount := h.count
    rw [List.length_cons] at hcount
    change s.userCount - 1 = _
    omega
  · intro g
    change Function.update s.fds fd none g ≠ none ↔ _
    have hg := h.opened g
    rw [List.map_cons, List.mem_cons] at hg
    by_cases hgf : g = fd
    · subst hgf
      simpa using hnot
    · rw [Function.update_of_ne hgf, hg]
      simp [hgf]
  · exact honce
  · exact (List.nodup_cons.1 h.keys).2
  · intro x hx
    exact h.current x (List.mem_cons_of_mem _ hx)
  · intro x hx
    exact h.fresh x (List.mem_cons_of_mem _ hx)

end Ledger

/-! ### The timer list -/

namespace Server

/-- `add_timer` is a sorted insertion. -/
theorem insertTimer_eq (t : Timer) (l : List Timer) :
    insertTimer t l = LinkedList.insertBefore (fun u => decide (t.expire < u.expire)) t l := by
  induction l with
  | nil => rfl
  | cons u l ih =>
      rw [insertTimer, LinkedList.insertBefore, ih]
      by_cases hlt : t.expire < u.expire
      · simp [hlt]
      · simp [hlt]

theorem insertTimer_perm (t : Timer) (l : List Timer) : (insertTimer t l).Perm (t :: l) := by
  rw [insertTimer_eq]
  exact LinkedList.perm_insertBefore _ t l

/-- A list whose nodes differ, without one of them. -/
theorem filter_id {l : List Timer} {t : Timer} (hl : (l.map Timer.id).Nodup) (ht : t ∈ l) :
    (t :: l.filter fun u => u.id ≠ t.id).Perm l := by
  obtain ⟨pre, post, rfl⟩ := List.append_of_mem ht
  have hperm : (pre ++ t :: post).Perm (t :: (pre ++ post)) := List.perm_middle
  have hnot := (List.nodup_cons.1 ((hperm.map Timer.id).nodup_iff.1 hl)).1
  refine List.Perm.trans ?_ hperm.symm
  have hfilter : (t :: (pre ++ post)).filter (fun u => u.id ≠ t.id) = pre ++ post := by
    rw [List.filter_cons_of_neg (by simp)]
    refine List.filter_eq_self.2 ?_
    intro u hu
    have hne : u.id ≠ t.id := by
      intro heq
      exact hnot (heq ▸ List.mem_map_of_mem hu)
    simpa using hne
  exact ((hperm.filter _).trans (by rw [hfilter])).cons t

/-- `adjust_timer` keeps the nodes. -/
theorem adjustTimer_nodes (s : Server) (fd : ℕ) (hkeys : (s.timers.map Timer.id).Nodup) :
    (s.adjustTimer fd).nodes.Perm s.nodes := by
  unfold adjustTimer
  cases hid : s.timerOf fd with
  | none => exact .refl _
  | some id =>
      cases hfind : s.timers.find? (·.id = id) with
      | none =>
          simp only [hfind]
          exact .refl _
      | some t =>
          simp only [hfind]
          obtain rfl : t.id = id := by simpa using List.find?_some hfind
          have hmem := List.mem_of_find?_eq_some hfind
          have hperm := (insertTimer_perm { t with expire := s.now + 3 * TIMESLOT }
            (s.timers.filter fun u => u.id ≠ t.id)).map fun u => (u.id, u.fd)
          exact hperm.trans ((filter_id hkeys hmem).map fun u => (u.id, u.fd))

/-- `deal_timer` for a descriptor with a node takes it out. -/
theorem dealTimer_nodes (s : Server) {fd id : ℕ} (hid : s.timerOf fd = some id)
    (hmem : (id, fd) ∈ s.nodes) (hkeys : (s.timers.map Timer.id).Nodup) :
    ((id, fd) :: (s.dealTimer fd).nodes).Perm s.nodes := by
  obtain ⟨t, ht, heq⟩ := List.mem_map.1 hmem
  cases heq
  unfold dealTimer
  rw [hid]
  exact (filter_id hkeys ht).map fun u => (u.id, u.fd)

theorem timer_nodes (s : Server) (fd : ℕ) :
    (s.timer fd).nodes.Perm ((s.nextTimer, fd) :: s.nodes) := by
  have hperm := insertTimer_perm ⟨s.nextTimer, fd, s.now + 3 * TIMESLOT⟩ s.timers
  exact hperm.map fun u => (u.id, u.fd)

end Server

/-! ### The invariant -/

/-- The descriptor of an entry that the main thread is dealing with and has not closed. -/
def MainPc.deals : MainPc → Option ℕ
  | .read fd | .append fd _ | .write fd | .poll fd | .flagged fd => some fd
  | _ => none

/-- The main thread has no entries: it waits for some, or it is in `tick`. -/
def MainPc.rests : MainPc → Bool
  | .wait | .tick _ => true
  | _ => false

/-- **The invariant.**  The descriptors that the main thread has been told of are open, and it will
not meet one of them twice. -/
structure Accounts (s : Server) : Prop where
  ledger : Ledger s s.nodes
  registered : ∀ fd, s.fds fd = none → s.epoll fd = none
  told : ∀ fd ∈ s.events.filterMap Ready.fd, s.fds fd ≠ none
  distinct : (s.events.filterMap Ready.fd).Nodup
  deals : ∀ fd, s.main.deals = some fd → s.fds fd ≠ none ∧ fd ∉ s.events.filterMap Ready.fd
  closing : ∀ fd, .closing fd ∉ s.workers
  idle : s.main.rests = true → s.events = []

theorem accounts_start (threads : ℕ) : Accounts (start threads) where
  ledger := by
    refine ⟨rfl, ?_, List.nodup_nil, List.nodup_nil, ?_, ?_⟩
    · intro fd
      simp [start, Server.nodes]
    · intro x hx
      cases hx
    · intro x hx
      cases hx
  registered := fun _ _ => rfl
  told := by
    intro fd hfd
    cases hfd
  distinct := List.nodup_nil
  deals := by
    intro fd hfd
    cases hfd
  closing := by
    intro fd hfd
    cases List.eq_of_mem_replicate hfd
  idle := fun _ => rfl

namespace Accounts

theorem keys (h : Accounts s) : (s.timers.map Timer.id).Nodup := by
  have hkeys := h.ledger.keys
  rw [Server.nodes, List.map_map] at hkeys
  exact hkeys

/-- `adjust_timer` keeps the ledger. -/
theorem adjustTimer (h : Accounts s) (fd : ℕ) :
    Ledger (s.adjustTimer fd) (s.adjustTimer fd).nodes := by
  obtain ⟨ts, hts⟩ := s.adjustTimer_eq fd
  refine Ledger.congr (s := s) (h.ledger.perm (s.adjustTimer_nodes fd h.keys).symm) ?_
  rw [hts]
  rfl

/-- `deal_timer` for an open descriptor keeps the ledger. -/
theorem dealTimer (h : Accounts s) (hfd : s.fds fd ≠ none) :
    Ledger (s.dealTimer fd) (s.dealTimer fd).nodes := by
  obtain ⟨id, hid, hmem⟩ := h.ledger.node hfd
  obtain ⟨ts, hts⟩ := s.dealTimer_eq fd
  have hclose := (h.ledger.perm (s.dealTimer_nodes hid hmem h.keys).symm).close
  refine hclose.congr ?_
  rw [hts]
  rfl

end Accounts

/-- `modfd` registers nothing. -/
theorem modfd_epoll_none (i : Interest) {g : ℕ} (hg : s.epoll g = none) :
    (s.modfd fd i).epoll g = none := by
  unfold Server.modfd
  split
  · exact hg
  · rw [Server.rearm_epoll, Function.update_apply]
    split
    · next heq => rw [← heq, hg]; rfl
    · exact hg

/-- `write` leaves the accounts alone. -/
theorem Write.books {r : Option Bool} (hw : Write s fd e r s') :
    s'.timers = s.timers ∧ s'.books = s.books ∧ ∀ g, s.epoll g = none → s'.epoll g = none := by
  obtain ⟨_, hin⟩ := s.modfd_eq fd .input
  obtain ⟨_, hout⟩ := s.modfd_eq fd .output
  cases hw with
  | sent | fail => exact ⟨rfl, rfl, fun _ h => h⟩
  | again => exact ⟨by rw [hout], by rw [hout]; rfl, fun _ => modfd_epoll_none _⟩
  | empty | keepAlive =>
      exact ⟨by rw [hin]; rfl, by rw [hin]; rfl, fun _ => modfd_epoll_none _⟩
  | finished => exact ⟨by rw [hin], by rw [hin]; rfl, fun _ => modfd_epoll_none _⟩

namespace Accounts

/-- The ledger of a state with the same accounts. -/
theorem same (h : Accounts s) (ht : s'.timers = s.timers) (hb : s'.books = s.books) :
    Ledger s' s'.nodes := by
  have hnodes : s'.nodes = s.nodes := by rw [Server.nodes, Server.nodes, ht]
  rw [hnodes]
  exact h.ledger.congr hb

/-- The next entry. -/
theorem next (h : Accounts s) {r : Ready} {evs : List Ready} (hev : s.events = r :: evs)
    (hr : r.fd = some fd) : s.fds fd ≠ none ∧ fd ∉ evs.filterMap Ready.fd := by
  have hlist : s.events.filterMap Ready.fd = fd :: evs.filterMap Ready.fd := by
    rw [hev, List.filterMap_cons, hr]
  have hdistinct := h.distinct
  rw [hlist] at hdistinct
  exact ⟨h.told fd (by rw [hlist]; exact List.mem_cons_self ..), (List.nodup_cons.1 hdistinct).1⟩

/-- The entries behind the next one. -/
theorem rest {r : Ready} {evs : List Ready} (hev : s.events = r :: evs) :
    (evs.filterMap Ready.fd).Sublist (s.events.filterMap Ready.fd) := by
  rw [hev]
  exact (List.sublist_cons_self r evs).filterMap _

/-- A step that opens and closes nothing. -/
theorem quiet (h : Accounts s) (hledger : Ledger s' s'.nodes) (hf : s'.fds = s.fds)
    (he : ∀ fd, s.epoll fd = none → s'.epoll fd = none)
    (hev : (s'.events.filterMap Ready.fd).Sublist (s.events.filterMap Ready.fd))
    (hdeals : ∀ fd, s'.main.deals = some fd →
      s.fds fd ≠ none ∧ fd ∉ s'.events.filterMap Ready.fd)
    (hclosing : ∀ fd, .closing fd ∉ s'.workers)
    (hidle : s'.main.rests = true → s'.events = []) : Accounts s' := by
  refine ⟨hledger, ?_, ?_, h.distinct.sublist hev, ?_, hclosing, hidle⟩
  · intro fd hfd
    rw [hf] at hfd
    exact he fd (h.registered fd hfd)
  · intro fd hfd
    rw [hf]
    exact h.told fd (hev.subset hfd)
  · rw [hf]
    exact hdeals

/-- A step that closes a descriptor the main thread will not meet again. -/
theorem shut (h : Accounts s) (hledger : Ledger s' s'.nodes)
    (hf : s'.fds = Function.update s.fds fd none)
    (he : ∀ g, s.epoll g = none ∨ g = fd → s'.epoll g = none)
    (hev : (s'.events.filterMap Ready.fd).Sublist (s.events.filterMap Ready.fd))
    (hfd : fd ∉ s'.events.filterMap Ready.fd) (hdeals : s'.main.deals = none)
    (hk : s'.workers = s.workers)
    (hidle : s'.main.rests = true → s'.events = []) : Accounts s' := by
  refine ⟨hledger, ?_, ?_, h.distinct.sublist hev, ?_, ?_, hidle⟩
  · intro g hg
    by_cases hgf : g = fd
    · exact he g (.inr hgf)
    · rw [hf, Function.update_of_ne hgf] at hg
      exact he g (.inl (h.registered g hg))
  · intro g hg
    have hgf : g ≠ fd := by
      rintro rfl
      exact hfd hg
    rw [hf, Function.update_of_ne hgf]
    exact h.told g (hev.subset hg)
  · rw [hdeals]
    nofun
  · rw [hk]
    exact h.closing

end Accounts

theorem deals_nothing {pc : MainPc} {p : ℕ → Prop} (hpc : pc.deals = none) (fd : ℕ)
    (hfd : pc.deals = some fd) : p fd := by
  rw [hpc] at hfd
  cases hfd

/-- The registration is gone with the descriptor. -/
theorem close_epoll_none {g : ℕ} (hg : s.epoll g = none ∨ g = fd) :
    (s.close fd).epoll g = none := by
  rw [Server.close_epoll, Function.update_apply]
  split
  · rfl
  · next hne => exact hg.resolve_right hne

/-- `write` keeps the accounts. -/
theorem Accounts.write {r : Option Bool} (h : Accounts s) (hw : Write s fd e r s') :
    Accounts s' := by
  obtain ⟨hev, hmain, -, hk, hf⟩ := hw.frame
  obtain ⟨ht, hb, he⟩ := hw.books
  refine h.quiet (h.same ht hb) hf he (by rw [hev]) ?_
    (by rw [hk]; exact h.closing) ?_
  · intro g hg
    rw [hmain] at hg
    rw [hev]
    exact h.deals g hg
  · rw [hmain, hev]
    exact h.idle

namespace Accounts

/-- `adjust_timer` of a descriptor that the main thread has been told of. -/
theorem adjusted (h : Accounts s) {evs : List Ready} {queue : List ℕ} {pc : MainPc}
    (hev : (evs.filterMap Ready.fd).Sublist (s.events.filterMap Ready.fd))
    (hdeals : ∀ g, pc.deals = some g → s.fds g ≠ none ∧ g ∉ evs.filterMap Ready.fd)
    (hrests : pc.rests = false) :
    Accounts { s.adjustTimer fd with events := evs, queue := queue, main := pc } := by
  obtain ⟨ts, hts⟩ := s.adjustTimer_eq fd
  have hledger := h.adjustTimer fd
  rw [hts] at hledger ⊢
  refine h.quiet (hledger.congr rfl) rfl (fun _ h => h) hev hdeals h.closing ?_
  exact fun htrue => absurd (htrue.symm.trans hrests) Bool.noConfusion

/-- `deal_timer` deletes the node together with the connection. -/
theorem dealt (h : Accounts s) {evs : List Ready} {pc : MainPc} (hopen : s.fds fd ≠ none)
    (hev : (evs.filterMap Ready.fd).Sublist (s.events.filterMap Ready.fd))
    (hnot : fd ∉ evs.filterMap Ready.fd) (hdeals : pc.deals = none) (hrests : pc.rests = false) :
    Accounts { s.dealTimer fd with events := evs, main := pc } := by
  obtain ⟨ts, hts⟩ := s.dealTimer_eq fd
  have hledger := h.dealTimer hopen
  rw [hts] at hledger ⊢
  refine h.shut (hledger.congr rfl) rfl (fun _ => close_epoll_none) hev hnot hdeals rfl ?_
  exact fun htrue => absurd (htrue.symm.trans hrests) Bool.noConfusion

/-- `tick` does the same with the node at the head. -/
theorem ticked (h : Accounts s) {cur : ℕ} {t : Timer} {ts : List Timer} (hm : s.main = .tick cur)
    (hts : s.timers = t :: ts) : Accounts { s.cbFunc t.fd with timers := ts } := by
  have hledger := h.ledger
  rw [Server.nodes, hts, List.map_cons] at hledger
  have hev := h.idle (by rw [hm]; rfl)
  refine h.shut (hledger.close.congr rfl) rfl (fun _ => close_epoll_none) (.refl _) ?_ ?_ rfl ?_
  · change t.fd ∉ s.events.filterMap Ready.fd
    rw [hev]
    nofun
  · exact (congrArg MainPc.deals hm).trans rfl
  · exact fun _ => hev

/-- `accept` opens a connection and gives it a node. -/
theorem accepted (h : Accounts s) {pc : MainPc} (hfd : s.fds fd = none) (hdeals : pc.deals = none)
    (hrests : pc.rests = false) : Accounts { s.timer fd with main := pc } := by
  have hledger := (h.ledger.accept hfd).perm (s.timer_nodes fd).symm
  refine ⟨hledger.congr rfl, ?_, ?_, h.distinct, deals_nothing hdeals, h.closing, ?_⟩
  · intro g hg
    change Function.update s.fds fd (some s.nextConn) g = none at hg
    change Function.update s.epoll fd (some .input) g = none
    by_cases hgf : g = fd
    · subst hgf
      simp at hg
    · rw [Function.update_of_ne hgf] at hg ⊢
      exact h.registered g hg
  · intro g hg
    have hgf : g ≠ fd := by
      rintro rfl
      exact h.told g hg hfd
    change Function.update s.fds fd (some s.nextConn) g ≠ none
    rw [Function.update_of_ne hgf]
    exact h.told g hg
  · exact fun htrue => absurd (htrue.symm.trans hrests) Bool.noConfusion

/-- What `epoll_wait` reports is armed, so it is open. -/
theorem delivered (h : Accounts s) {evs : List Ready} (hnd : (evs.filterMap Ready.fd).Nodup)
    (hdel : ∀ e ∈ evs, Deliverable s e) : Accounts (s.deliver evs) := by
  have harmed : ∀ g ∈ evs.filterMap Ready.fd, s.fds g ≠ none := by
    intro g hg hnone
    obtain ⟨i, hi, -⟩ := armed_of_deliverable hdel hg
    rw [h.registered g hnone] at hi
    cases hi
  refine ⟨h.same rfl rfl, ?_, harmed, hnd, deals_nothing rfl, h.closing, nofun⟩
  intro g hg
  change (if g ∈ evs.filterMap Ready.fd then some Interest.disabled else s.epoll g) = none
  rw [if_neg fun hmem => harmed g hmem hg]
  exact h.registered g hg

end Accounts

/-- **The main thread keeps the accounts.** -/
theorem MainStep.accounts (h : Accounts s) (hs : MainStep cfg s e s') : Accounts s' := by
  have hsub := List.Sublist.refl (s.events.filterMap Ready.fd)
  cases hs with
  | epollWait hm hnd hdel => exact h.delivered hnd hdel
  | listen hm hev =>
      exact h.quiet (h.same rfl rfl) rfl (fun _ h => h) (Accounts.rest hev)
        (deals_nothing rfl) h.closing nofun
  | signal hm hev =>
      refine h.quiet (h.same rfl rfl) rfl (fun _ h => h) (Accounts.rest hev)
        (deals_nothing (by rw [hm]; rfl)) h.closing ?_
      rw [hm]
      nofun
  | acceptFail hm | acceptBusy hm | release hm =>
      exact h.quiet (h.same rfl rfl) rfl (fun _ h => h) hsub (deals_nothing rfl)
        h.closing nofun
  | accept hm hfd =>
      cases cfg.edgeListen with
      | false => exact h.accepted hfd rfl rfl
      | true => exact h.accepted hfd rfl rfl
  | notFlagged hm hfl | clear hm =>
      exact h.quiet (h.same rfl rfl) rfl (fun _ h => h) hsub (deals_nothing rfl)
        h.closing nofun
  | handOver hr hm hlt | handOverFull hr hm hlt | poll hm himp =>
      refine h.quiet (h.same rfl rfl) rfl (fun _ h => h) hsub ?_ h.closing nofun
      intro g hg
      exact h.deals g (by rw [hm]; exact hg)
  | @input fd evs hr hm hev | @output fd evs hr hm hev =>
      refine h.quiet (h.same rfl rfl) rfl (fun _ h => h) (Accounts.rest hev) ?_
        h.closing nofun
      intro g hg
      cases hg
      exact h.next hev rfl
  | @dispatch fd evs state hr hm hev =>
      obtain ⟨r, hev, hrfd⟩ : ∃ r, s.events = r :: evs ∧ r.fd = some fd := by
        rcases hev with ⟨hev, -⟩ | ⟨hev, -⟩
        · exact ⟨_, hev, rfl⟩
        · exact ⟨_, hev, rfl⟩
      refine h.adjusted (Accounts.rest hev) ?_ rfl
      intro g hg
      cases hg
      exact h.next hev hrfd
  | readOk hm hread =>
      cases hread with
      | intro =>
          refine h.quiet (h.same rfl rfl) rfl (fun _ h => h) hsub ?_ h.closing nofun
          intro g hg
          exact h.deals g (by rw [hm]; exact hg)
  | append | appendFull =>
      exact h.adjusted (by rw [Server.adjustTimer_events]) (deals_nothing rfl) rfl
  | writeMore hm hw => exact h.write hw
  | writeOk hm hw =>
      have h' := h.write hw
      exact h'.adjusted (by rw [Server.adjustTimer_events]) (deals_nothing rfl) rfl
  | loopEnd hm hev =>
      refine h.quiet (h.same rfl rfl) rfl (fun _ h => h) hsub ?_ h.closing fun _ => hev
      refine deals_nothing ?_
      dsimp only
      split <;> rfl
  | tickEnd hm hlt =>
      refine h.quiet (h.same rfl rfl) rfl (fun _ h => h) hsub (deals_nothing rfl)
        h.closing ?_
      intro _
      exact h.idle (by rw [hm]; rfl)
  | hangup hm hev =>
      obtain ⟨hopen, hnot⟩ := h.next hev rfl
      exact h.dealt hopen (Accounts.rest hev) hnot (by rw [Server.dealTimer_main, hm]; rfl)
        (by rw [Server.dealTimer_main, hm]; rfl)
  | @flagged fd hm | @readFail fd hm =>
      obtain ⟨hopen, hnot⟩ := h.deals fd (by rw [hm]; rfl)
      rw [← s.dealTimer_events fd] at hnot
      exact h.dealt hopen (by rw [Server.dealTimer_events]) hnot rfl rfl
  | @writeFail fd e t hm hw =>
      have h' := h.write hw
      obtain ⟨hopen, hnot⟩ := h'.deals fd (by rw [hw.frame.2.1, hm]; rfl)
      rw [← t.dealTimer_events fd] at hnot
      exact h'.dealt hopen (by rw [Server.dealTimer_events]) hnot rfl rfl
  | tick hm hts => exact h.ticked hm hts

/-- `modfd` leaves the accounts alone. -/
theorem Accounts.modfd (h : Accounts s) (fd : ℕ) (i : Interest) :
    (s.modfd fd i).fds = s.fds ∧ Ledger (s.modfd fd i) (s.modfd fd i).nodes := by
  obtain ⟨ep, hep⟩ := s.modfd_eq fd i
  rw [hep]
  exact ⟨rfl, h.same rfl rfl⟩

/-- A worker that is not in `close_conn` leaves the accounts alone. -/
theorem WorkerStep.books {pc pc' : WorkerPc} (h : Accounts s)
    (hs : WorkerStep cfg s pc e s' pc') (he : ∀ fd, e ≠ .closeConn fd)
    (hpc : ∀ fd, pc ≠ .closing fd) :
    s'.fds = s.fds ∧ Ledger s' s'.nodes ∧ (∀ g, s.epoll g = none → s'.epoll g = none) ∧
      ∀ fd, pc' ≠ .closing fd := by
  cases hs with
  | closeConn => exact absurd rfl (he _)
  | closed => exact absurd rfl (hpc _)
  | @rearmInput fd =>
      obtain ⟨hf, hledger⟩ := h.modfd fd .input
      exact ⟨hf, hledger, fun _ => modfd_epoll_none .input, nofun⟩
  | @rearmOutput fd =>
      obtain ⟨hf, hledger⟩ := h.modfd fd .output
      exact ⟨hf, hledger, fun _ => modfd_epoll_none .output, nofun⟩
  | readOk hr =>
      cases hr with
      | intro => exact ⟨rfl, h.same rfl rfl, fun _ h => h, nofun⟩
  | writeMore hw | writeOk hw | writeFail hw =>
      obtain ⟨-, -, -, -, hf⟩ := hw.frame
      obtain ⟨ht, hb, hep⟩ := hw.books
      exact ⟨hf, h.same ht hb, hep, nofun⟩
  | _ => exact ⟨rfl, h.same rfl rfl, fun _ h => h, nofun⟩

/-- **A worker keeps the accounts** as long as it does not call `close_conn`. -/
theorem WorkerStep.accounts {i : ℕ} {pc pc' : WorkerPc} (h : Accounts s)
    (hi : s.workers[i]? = some pc) (hs : WorkerStep cfg s pc e s' pc')
    (he : ∀ fd, e ≠ .closeConn fd) :
    Accounts { s' with workers := s'.workers.set i pc' } := by
  have hpc : ∀ fd, pc ≠ .closing fd := by
    rintro fd rfl
    exact h.closing fd (List.mem_of_getElem? hi)
  obtain ⟨hev, hmain, hk⟩ := hs.frame
  obtain ⟨hf, hledger, hep, hpc'⟩ := hs.books h he hpc
  refine h.quiet (hledger.congr rfl) hf hep ?_ ?_ ?_ ?_
  · dsimp only
    rw [hev]
  · intro g hg
    dsimp only at hg ⊢
    rw [hmain] at hg
    rw [hev]
    exact h.deals g hg
  · intro g hg
    dsimp only at hg
    rw [hk] at hg
    rcases List.mem_or_eq_of_mem_set hg with hg | hg
    · exact h.closing g hg
    · exact hpc' g hg.symm
  · dsimp only
    rw [hmain, hev]
    exact h.idle

/-- **Every step without `close_conn` keeps the accounts.** -/
theorem Step.accounts (h : Accounts s) (hs : Step cfg s e s') (he : ∀ fd, e ≠ .closeConn fd) :
    Accounts s' := by
  cases hs with
  | main hs => exact hs.accounts h
  | worker hi hs => exact hs.accounts h hi he
  | elapse d =>
      exact h.quiet (h.same rfl rfl) rfl (fun _ h => h) (List.Sublist.refl _) h.deals
        h.closing h.idle

theorem accounts_run {threads : ℕ} {evs : List Event} (hr : Run (Step cfg) (start threads) evs s)
    (he : ∀ fd, .closeConn fd ∉ evs) : Accounts s := by
  induction hr with
  | nil => exact accounts_start threads
  | snoc _ hs ih =>
      refine hs.accounts (ih fun fd hmem => he fd (List.mem_append_left _ hmem)) ?_
      rintro fd rfl
      exact he fd (by simp)

/-! ### Opening and closing -/

/-- The descriptor that a step closes. -/
def Event.closes : Event → Option ℕ
  | .dealTimer fd | .tick fd | .closeConn fd => some fd
  | _ => none

/-- `write` closes nothing. -/
theorem Write.closes {r : Option Bool} (hw : Write s fd e r s') :
    e.closes = none ∧ ∀ g, e ≠ .accept g := by
  cases hw with
  | _ => exact ⟨rfl, nofun⟩

/-- What a step does to the open descriptors: it opens one that was not open, it closes one that
was, or neither. -/
def Moves (s : Server) (e : Event) (s' : Server) : Prop :=
  (∃ fd, e = .accept fd ∧ s.fds fd = none ∧ s'.fds = Function.update s.fds fd (some s.nextConn)) ∨
  (∃ fd, e.closes = some fd ∧ s.fds fd ≠ none ∧ s'.fds = Function.update s.fds fd none) ∨
  (e.closes = none ∧ (∀ fd, e ≠ .accept fd) ∧ s'.fds = s.fds)

theorem MainStep.moves (h : Accounts s) (hs : MainStep cfg s e s') : Moves s e s' := by
  cases hs with
  | accept _ hfd => exact .inl ⟨_, rfl, hfd, rfl⟩
  | @hangup fd _ _ hev =>
      obtain ⟨ts, hts⟩ := s.dealTimer_eq fd
      rw [hts]
      exact .inr (.inl ⟨fd, rfl, (h.next hev rfl).1, rfl⟩)
  | @flagged fd hm | @readFail fd hm =>
      obtain ⟨ts, hts⟩ := s.dealTimer_eq fd
      rw [hts]
      exact .inr (.inl ⟨fd, rfl, (h.deals fd (by rw [hm]; rfl)).1, rfl⟩)
  | @writeFail fd _ t hm hw =>
      obtain ⟨ts, hts⟩ := t.dealTimer_eq fd
      rw [hts]
      refine .inr (.inl ⟨fd, rfl, (h.deals fd (by rw [hm]; rfl)).1, ?_⟩)
      change Function.update t.fds fd none = _
      rw [hw.frame.2.2.2.2]
  | @tick _ t _ _ hts =>
      refine .inr (.inl ⟨t.fd, rfl, (h.ledger.opened t.fd).2 ?_, rfl⟩)
      rw [Server.nodes, hts]
      exact List.mem_cons_self ..
  | @dispatch fd | @append fd | @appendFull fd =>
      obtain ⟨ts, hts⟩ := s.adjustTimer_eq fd
      rw [hts]
      exact .inr (.inr ⟨rfl, nofun, rfl⟩)
  | readOk _ hr => exact .inr (.inr ⟨rfl, nofun, hr.frame.2.2.2.2.1⟩)
  | writeMore _ hw => exact .inr (.inr ⟨hw.closes.1, hw.closes.2, hw.frame.2.2.2.2⟩)
  | @writeOk fd _ t _ hw =>
      obtain ⟨ts, hts⟩ := t.adjustTimer_eq fd
      rw [hts]
      exact .inr (.inr ⟨hw.closes.1, hw.closes.2, hw.frame.2.2.2.2⟩)
  | _ => exact .inr (.inr ⟨rfl, nofun, rfl⟩)

theorem Step.moves (h : Accounts s) (hs : Step cfg s e s') (he : ∀ fd, e ≠ .closeConn fd) :
    Moves s e s' := by
  cases hs with
  | main hs => exact hs.moves h
  | worker hi hs =>
      refine .inr (.inr ⟨?_, ?_, ?_⟩)
      · cases hs with
        | closeConn => exact absurd rfl (he _)
        | writeMore hw => exact hw.closes.1
        | _ => rfl
      · cases hs with
        | writeMore hw => exact hw.closes.2
        | _ => nofun
      · refine (hs.books h he ?_).1
        rintro fd rfl
        exact h.closing fd (List.mem_of_getElem? hi)
  | elapse => exact .inr (.inr ⟨rfl, nofun, rfl⟩)

/-- The number of connections that are open at a descriptor. -/
def Server.openAt (s : Server) (fd : ℕ) : ℕ := if s.fds fd = none then 0 else 1

/-- A step is in balance: an accept opens one connection, and a close closes one. -/
theorem Moves.balance (h : Moves s e s') (fd : ℕ) :
    s'.openAt fd + (if e.closes = some fd then 1 else 0)
      = s.openAt fd + (if e = .accept fd then 1 else 0) := by
  rcases h with ⟨g, rfl, hg, hf⟩ | ⟨g, hc, hg, hf⟩ | ⟨hc, ha, hf⟩
  · by_cases hgf : g = fd
    · subst hgf
      simp [Server.openAt, hf, hg, Event.closes]
    · simp [Server.openAt, hf, Event.closes, hgf, Ne.symm hgf]
  · have ha : e ≠ .accept fd := by
      rintro rfl
      cases hc
    by_cases hgf : g = fd
    · subst hgf
      simp [Server.openAt, hf, hg, hc, ha]
    · simp [Server.openAt, hf, hc, ha, hgf, Ne.symm hgf]
  · simp [Server.openAt, hf, hc, ha fd]

/-- **What a client relies on.**  The counter is the number of open connections; an open descriptor
has one node in the timer list, and a node has an open descriptor; the node is the one that the
connection got when it was accepted, which is in `users_timer`; and every connection at a descriptor
was closed once, but for the one that is open. -/
structure Accounted (evs : List Event) (s : Server) : Prop where
  count : ∃ conns : Finset ℕ, (∀ fd, fd ∈ conns ↔ s.fds fd ≠ none) ∧ s.userCount = conns.card
  node : ∀ fd, s.fds fd ≠ none ↔ ∃ t ∈ s.timers, t.fd = fd
  once : (s.timers.map Timer.fd).Nodup
  current : ∀ t ∈ s.timers, s.timerOf t.fd = some t.id
  closed : ∀ fd, evs.countP (· = .accept fd) = evs.countP (·.closes = some fd) + s.openAt fd

theorem balance_run {threads : ℕ} {evs : List Event} (hr : Run (Step cfg) (start threads) evs s)
    (he : ∀ fd, .closeConn fd ∉ evs) (fd : ℕ) :
    evs.countP (· = .accept fd) = evs.countP (·.closes = some fd) + s.openAt fd := by
  induction hr with
  | nil => rfl
  | @snoc evs s s' e hr hs ih =>
      have hevs : ∀ fd, .closeConn fd ∉ evs := fun fd hmem => he fd (List.mem_append_left _ hmem)
      have hstep : ∀ fd, e ≠ .closeConn fd := by
        rintro fd rfl
        exact he fd (by simp)
      have hbalance := (hs.moves (accounts_run hr hevs) hstep).balance fd
      have hold := ih hevs
      rw [List.countP_append, List.countP_append, List.countP_singleton, List.countP_singleton]
      simp only [decide_eq_true_eq]
      omega

/-- The invariant says what a client relies on. -/
theorem Accounts.accounted (h : Accounts s) {evs : List Event}
    (hb : ∀ fd, evs.countP (· = .accept fd) = evs.countP (·.closes = some fd) + s.openAt fd) :
    Accounted evs s where
  count := by
    refine ⟨(s.nodes.map Prod.snd).toFinset, ?_, ?_⟩
    · intro fd
      rw [List.mem_toFinset, h.ledger.opened]
    · rw [List.toFinset_card_of_nodup h.ledger.once, List.length_map, h.ledger.count]
  node fd := by
    rw [h.ledger.opened, Server.nodes, List.map_map, List.mem_map]
    rfl
  once := by
    have honce := h.ledger.once
    rw [Server.nodes, List.map_map] at honce
    exact honce
  current t ht := h.ledger.current (t.id, t.fd) (List.mem_map_of_mem ht)
  closed := hb

/-- **`close_conn` breaks the accounts**: it leaves the node of the connection, or there was no
connection. -/
theorem Step.closeConn_breaks {evs : List Event} (hs : Step cfg s (.closeConn fd) s')
    (h : Accounted evs s) : ¬ Accounted (evs ++ [.closeConn fd]) s' := by
  intro h'
  have hclosed := h.closed fd
  have hclosed' := h'.closed fd
  cases hs with
  | main hs =>
      cases hs with
      | writeMore _ hw => cases hw
      | writeOk _ hw => cases hw
  | worker hi hs =>
      cases hs with
      | writeMore hw => cases hw
      | closeConn hpc hsock =>
          by_cases hfd : s.fds fd = none
          · simp [List.countP_append, Event.closes, Server.openAt, hfd]
              at hclosed hclosed'
            omega
          · obtain ⟨t, ht, htfd⟩ := (h.node fd).1 hfd
            refine (h'.node fd).2 ⟨t, ht, htfd⟩ ?_
            exact Function.update_self ..

/-- **Connection accounting.**  The runs in which no worker closes a descriptor in `close_conn` are
the ones that keep the accounts in every state on the way. -/
theorem connection_accounting {threads : ℕ} {evs : List Event}
    (hr : Run (Step cfg) (start threads) evs s) :
    (∀ fd, .closeConn fd ∉ evs) ↔
      ∀ pre post s₁, evs = pre ++ post → Run (Step cfg) (start threads) pre s₁ →
        Run (Step cfg) s₁ post s → Accounted pre s₁ := by
  constructor
  · rintro he pre post s₁ rfl hpre -
    have hpre' : ∀ fd, .closeConn fd ∉ pre := fun fd hmem => he fd (List.mem_append_left _ hmem)
    exact (accounts_run hpre hpre').accounted (balance_run hpre hpre')
  · intro h fd hmem
    obtain ⟨pre, post, s₁, s₂, rfl, hpre, hs, hpost⟩ := hr.split_of_mem hmem
    refine hs.closeConn_breaks (h pre (.closeConn fd :: post) s₁ rfl hpre ?_) ?_
    · exact (Run.single hs).trans hpost
    · exact h (pre ++ [.closeConn fd]) post s₂ (by simp) (hpre.snoc hs) hpost

/-- Three connections are accepted.  The client of the first hangs up and the kernel gives its
descriptor to a fourth one; then the timer of the second expires. -/
theorem connection_accounting_reused : ∃ (evs : List Event) (s : Server),
    Run (Step proactor) (start 1) evs s ∧ Accounted evs s ∧
      evs.filter (· ≠ .quiet) =
        [.accept 5, .accept 6, .accept 7, .dealTimer 5, .accept 5, .tick 6] ∧
      s.userCount = 2 ∧ s.timers = [⟨2, 7, 18⟩, ⟨3, 5, 18⟩] := by
  have h : Run (Step proactor) (start 1) _ _ :=
    Run.nil.snoc (.main (.epollWait rfl (by decide) (@deliverable_singleton _ .listen trivial)))
  have h := h.snoc (.main (.listen rfl rfl))
  have h := h.snoc (.main (@MainStep.accept _ _ 5 rfl rfl (by decide) (by decide)))
  have h := h.snoc (.main (.loopEnd rfl rfl))
  have h := h.snoc (.main (.epollWait rfl (by decide) (@deliverable_singleton _ .listen trivial)))
  have h := h.snoc (.main (.listen rfl rfl))
  have h := h.snoc (.main (@MainStep.accept _ _ 6 rfl rfl (by decide) (by decide)))
  have h := h.snoc (.main (.loopEnd rfl rfl))
  have h := h.snoc (.elapse 3)
  have h := h.snoc (.main (.epollWait rfl (by decide) (@deliverable_singleton _ .listen trivial)))
  have h := h.snoc (.main (.listen rfl rfl))
  have h := h.snoc (.main (@MainStep.accept _ _ 7 rfl rfl (by decide) (by decide)))
  have h := h.snoc (.main (.loopEnd rfl rfl))
  -- the client of connection 0 hangs up
  have h := h.snoc (.main (.epollWait rfl (by decide)
    (@deliverable_singleton _ (.hangup 5) ⟨.input, rfl, by decide⟩)))
  have h := h.snoc (.main (.hangup rfl rfl))
  have h := h.snoc (.main (.loopEnd rfl rfl))
  have h := h.snoc (.main (.epollWait rfl (by decide) (@deliverable_singleton _ .listen trivial)))
  have h := h.snoc (.main (.listen rfl rfl))
  have h := h.snoc (.main (@MainStep.accept _ _ 5 rfl rfl (by decide) (by decide)))
  have h := h.snoc (.main (.loopEnd rfl rfl))
  -- the timer of connection 1 expires
  have h := h.snoc (.elapse 12)
  have h := h.snoc (.main (.epollWait rfl (by decide) (@deliverable_singleton _ .signal trivial)))
  have h := h.snoc (.main (.signal rfl rfl))
  have h := h.snoc (.main (.loopEnd rfl rfl))
  have h := h.snoc (.main (@MainStep.tick _ _ 15 ⟨1, 6, 15⟩ _ rfl rfl le_rfl))
  exact ⟨_, _, h, (connection_accounting h).1 (by simp) _ [] _ rfl h .nil, rfl, rfl, rfl⟩

/-- Connection 0 asks, and the worker that processes the request ends in a handler of `process`.
The kernel gives the descriptor to connection 1, and the timer of connection 0 closes it. -/
theorem stranger_closed :
    ∃ evs s s', Run (Step proactor) (start 1) evs s ∧ ¬ Accounted evs s ∧
      s.fds 5 = some 1 ∧ s.timerOf 5 = some 1 ∧ s.timers.head? = some ⟨0, 5, 15⟩ ∧
      Step proactor s (.tick 5) s' ∧ s'.fds 5 = none ∧ s'.userCount = 0 ∧
      s'.timers.map Timer.fd = [5] := by
  obtain ⟨evs, s, hr, h, ht, hu, hn, hid⟩ := asked_run
  have hr := hr.of_guarded
  have hr := hr.snoc (@Step.worker _ _ _ _ 0 _ _ (by rw [h.workers]; rfl)
    (.closeConn (.inr ⟨_, rfl⟩) h.sockfd))
  have hr := hr.snoc (@Step.worker _ _ _ _ 0 _ _ (by simp [h.workers]; rfl) .closed)
  have hr := hr.snoc (.main (.loopEnd h.main h.events))
  have hr := hr.snoc (.elapse 15)
  have hr := hr.snoc (.main (.epollWait (by simp [h.timeout])
    (show ([.listen, .signal].filterMap Ready.fd).Nodup by decide) (by simp [Deliverable])))
  have hr := hr.snoc (.main (.listen rfl rfl))
  have hr := hr.snoc (.main (@MainStep.accept _ _ 5 rfl rfl (by decide) (by
    change s.userCount - 1 < MAX_FD
    rw [hu]
    decide)))
  have hr := hr.snoc (.main (.signal rfl rfl))
  have hr := hr.snoc (.main (.loopEnd rfl rfl))
  have hlater : ¬ s.now + 15 + 3 * TIMESLOT < 15 := by omega
  have htimers : Server.insertTimer ⟨s.nextTimer, 5, s.now + 15 + 3 * TIMESLOT⟩ s.timers
      = [⟨0, 5, 15⟩, ⟨1, 5, s.now + 15 + 3 * TIMESLOT⟩] := by
    rw [ht, hid, Server.insertTimer, if_neg hlater]
    rfl
  refine ⟨_, _, _, hr, ?_, congrArg some hn, congrArg some hid, congrArg List.head? htimers,
    .main (@MainStep.tick _ _ _ ⟨0, 5, 15⟩ _ rfl htimers (Nat.le_add_left 15 s.now)), ?_, ?_,
    ?_⟩
  · intro hacc
    have honce := hacc.once
    change ((Server.insertTimer ⟨s.nextTimer, 5, s.now + 15 + 3 * TIMESLOT⟩ s.timers).map
      Timer.fd).Nodup at honce
    rw [htimers] at honce
    exact absurd honce (by simp)
  · rfl
  · change s.userCount - 1 + 1 - 1 = 0
    rw [hu]
    rfl
  · rfl

end Gateway.Web
