/-
The two flags of the reactor model.

In the reactor model the main thread hands a slot to the pool and polls `improv`; the worker sets
`improv` when it has read or written, and after a failure `timer_flag` as well, but only behind
`improv`.  So the main thread may find the first flag and test the second one too early.  As long as
it does not, each request in the pool belongs to the poll that waits for it, and each flag is
cleared by the poll it was set for.

* `Gateway.Web.Handshake` — the invariant of the two flags;
* `Gateway.Web.Attentive` — the condition on a step;
* `Gateway.Web.Step.handshake` — **attentive steps keep it**.
-/

import InferenceGateway.ServerReuse

set_option relaxedAutoImplicit false
set_option autoImplicit false

namespace Gateway.Web

open EventSystem

variable {cfg : Config} {s s' : Server} {e : Event} {fd : ℕ}

/-! ### Flags to come -/

theorem polled_of_main {pc : MainPc} (hm : s.main = pc) (hpc : pc.polled = none) :
    s.main.polled = none := hm ▸ hpc

/-- The slot whose `improv` the worker will set. -/
def WorkerPc.pending : WorkerPc → Option ℕ
  | .taken fd | .reading fd | .received fd | .writing fd | .written fd | .failed fd => some fd
  | _ => none

/-- The slot whose `timer_flag` the worker will set. -/
def WorkerPc.raising : WorkerPc → Option ℕ
  | .flagging fd => some fd
  | _ => none

/-- How often the `improv` of a slot will be set. -/
def Server.tokens (s : Server) (fd : ℕ) : ℕ :=
  s.queue.count fd + (s.workers.flatMap fun w => w.pending.toList).count fd

/-- The workers that will set the `timer_flag` of a slot. -/
def Server.raisers (s : Server) (fd : ℕ) : ℕ :=
  (s.workers.flatMap fun w => w.raising.toList).count fd

/-- Nobody is about to set the flag. -/
theorem raisers_eq_zero (h : .flagging fd ∉ s.workers) : s.raisers fd = 0 := by
  refine List.count_eq_zero.2 ?_
  intro hmem
  obtain ⟨w, hw, hfd⟩ := List.mem_flatMap.1 hmem
  have hraising : w.raising = some fd := by simpa using hfd
  cases w with
  | flagging g =>
      cases hraising
      exact h hw
  | _ => cases hraising

/-- **The invariant of the flags.**  Exactly one `improv` is to come while the main thread polls in
vain, and none otherwise; a `timer_flag` that is set or to come belongs to the slot that the main
thread polls, and to nobody else. -/
structure Handshake (s : Server) : Prop where
  tokens : ∀ fd, s.tokens fd = if s.main = .poll fd ∧ (s.slots fd).improv = false then 1 else 0
  improv : ∀ fd, (s.slots fd).improv = true → s.main.polled = some fd
  once : ∀ fd, s.raisers fd + (s.slots fd).timerFlag.toNat ≤ 1
  raised : ∀ fd, 0 < s.raisers fd + (s.slots fd).timerFlag.toNat →
    s.main = .poll fd ∧ (s.slots fd).improv = true ∨ s.main = .flagged fd ∨
      s.main = .clear fd ∧ s.raisers fd = 0

/-- The condition on a step: it is careful, `append` does not refuse the slot, and the main thread
does not pass the test of `timer_flag` while a worker is about to set it. -/
def Attentive (s : Server) (e : Event) (s' : Server) : Prop :=
  Careful s e ∧ (∀ fd, e ≠ .append fd false) ∧
    ∀ fd, s.main = .flagged fd → s'.main = .release fd → .flagging fd ∉ s.workers

/-- The last of these conditions. -/
def Patient (s s' : Server) : Prop :=
  ∀ fd, s.main = .flagged fd → s'.main = .release fd → .flagging fd ∉ s.workers

theorem handshake_start (threads : ℕ) : Handshake (start threads) := by
  have hnone : ∀ f : WorkerPc → Option ℕ, f .idle = none →
      (start threads).workers.flatMap (fun w => (f w).toList) = [] := by
    intro f hf
    refine List.flatMap_eq_nil_iff.2 ?_
    intro w hw
    rw [List.eq_of_mem_replicate hw, hf]
    rfl
  have htokens : ∀ fd, (start threads).tokens fd = 0 := by
    intro fd
    rw [Server.tokens, hnone WorkerPc.pending rfl]
    rfl
  have hraisers : ∀ fd, (start threads).raisers fd = 0 := by
    intro fd
    rw [Server.raisers, hnone WorkerPc.raising rfl]
    rfl
  refine ⟨?_, nofun, ?_, ?_⟩
  · intro fd
    rw [htokens, if_neg (by simp [start])]
  · intro fd
    rw [hraisers]
    exact Nat.zero_le _
  · intro fd hpos
    rw [hraisers] at hpos
    exact absurd hpos (Nat.lt_irrefl 0)

namespace Handshake

/-- A `timer_flag` belongs to the slot that the main thread polls. -/
theorem unraised (h : Handshake s) (hp : s.main ≠ .poll fd) (hf : s.main ≠ .flagged fd)
    (hc : s.main ≠ .clear fd) : s.raisers fd = 0 ∧ (s.slots fd).timerFlag = false := by
  have hraised : ¬ 0 < s.raisers fd + (s.slots fd).timerFlag.toNat := by
    intro hpos
    rcases h.raised fd hpos with ⟨heq, -⟩ | heq | ⟨heq, -⟩
    · exact hp heq
    · exact hf heq
    · exact hc heq
  cases hflag : (s.slots fd).timerFlag with
  | true =>
      rw [hflag] at hraised
      exact absurd (Nat.succ_pos _) hraised
  | false => exact ⟨by omega, rfl⟩

/-- Behind `deal_timer` nobody is about to set a `timer_flag`. -/
theorem raisers_of_clear (h : Handshake s) (hm : s.main = .clear fd) (g : ℕ) :
    s.raisers g = 0 := by
  refine Nat.eq_zero_of_not_pos ?_
  intro hpos
  rcases h.raised g (Nat.add_pos_left hpos _) with ⟨heq, -⟩ | heq | ⟨-, hzero⟩
  · cases hm.symm.trans heq
  · cases hm.symm.trans heq
  · omega

/-- Where the main thread does not poll in vain, no `improv` is to come. -/
theorem tokens_of_ne (h : Handshake s) (hpoll : ∀ fd, s.main ≠ .poll fd) (fd : ℕ) :
    s.tokens fd = 0 := by
  rw [h.tokens, if_neg fun hand => hpoll fd hand.1]

/-- Outside of a poll there are no flags. -/
theorem none_of_polled (h : Handshake s) (hm : s.main.polled = none) (fd : ℕ) :
    s.tokens fd = 0 ∧ (s.slots fd).improv = false ∧ s.raisers fd = 0 ∧
      (s.slots fd).timerFlag = false := by
  have hne : ∀ {pc : MainPc} {g : ℕ}, pc.polled = some g → s.main ≠ pc := by
    rintro pc g hpc rfl
    rw [hm] at hpc
    cases hpc
  refine ⟨h.tokens_of_ne (fun g => hne (g := g) rfl) fd, ?_,
    h.unraised (hne (g := fd) rfl) (hne (g := fd) rfl) (hne (g := fd) rfl)⟩
  cases himp : (s.slots fd).improv with
  | false => rfl
  | true => exact absurd rfl (hne (h.improv fd himp))

/-- A state in which no flag is to come and no `timer_flag` is set. -/
theorem of_quiet (hpoll : ∀ fd, s.main ≠ .poll fd) (htokens : ∀ fd, s.tokens fd = 0)
    (himprov : ∀ fd, (s.slots fd).improv = true → s.main.polled = some fd)
    (hraisers : ∀ fd, s.raisers fd = 0) (hflag : ∀ fd, (s.slots fd).timerFlag = false) :
    Handshake s := by
  refine ⟨?_, himprov, ?_, ?_⟩
  · intro fd
    rw [htokens, if_neg fun hand => hpoll fd hand.1]
  · intro fd
    rw [hraisers, hflag]
    exact Nat.zero_le _
  · intro fd hpos
    rw [hraisers, hflag] at hpos
    exact absurd hpos (Nat.lt_irrefl 0)

/-- A step of the main thread outside of a poll, which sets no flag. -/
theorem elsewhere (h : Handshake s) (hm : s.main.polled = none) (hm' : s'.main.polled = none)
    (hq : s'.queue = s.queue) (hk : s'.workers = s.workers)
    (hslots : ∀ fd, (s'.slots fd).improv ≤ (s.slots fd).improv ∧
      (s'.slots fd).timerFlag ≤ (s.slots fd).timerFlag) : Handshake s' := by
  refine of_quiet ?_ ?_ ?_ ?_ ?_
  · intro fd heq
    rw [heq] at hm'
    cases hm'
  · intro fd
    rw [Server.tokens, hq, hk]
    exact (h.none_of_polled hm fd).1
  · intro fd himp
    have hle := (hslots fd).1
    rw [(h.none_of_polled hm fd).2.1] at hle
    rw [Bool.eq_false_of_le_false hle] at himp
    cases himp
  · intro fd
    rw [Server.raisers, hk]
    exact (h.none_of_polled hm fd).2.2.1
  · intro fd
    have hle := (hslots fd).2
    rw [(h.none_of_polled hm fd).2.2.2] at hle
    exact Bool.eq_false_of_le_false hle

end Handshake

/-- A change of a slot that sets no flag. -/
theorem setSlot_flags (s : Server) {fd : ℕ} (slot : Slot) (hi : slot.improv ≤ (s.slots fd).improv)
    (ht : slot.timerFlag ≤ (s.slots fd).timerFlag) (g : ℕ) :
    ((s.setSlot fd slot).slots g).improv ≤ (s.slots g).improv ∧
      ((s.setSlot fd slot).slots g).timerFlag ≤ (s.slots g).timerFlag := by
  rw [Server.setSlot_slots]
  by_cases hg : g = fd
  · subst hg
    rw [Function.update_self]
    exact ⟨hi, ht⟩
  · rw [Function.update_of_ne hg]
    exact ⟨le_rfl, le_rfl⟩

/-- `write` sets no flag. -/
theorem Write.flags {r : Option Bool} (hw : Write s fd e r s') (g : ℕ) :
    (s'.slots g).improv ≤ (s.slots g).improv ∧ (s'.slots g).timerFlag ≤ (s.slots g).timerFlag := by
  obtain ⟨_, hin⟩ := s.modfd_eq fd .input
  obtain ⟨_, hout⟩ := s.modfd_eq fd .output
  cases hw with
  | sent | fail => exact ⟨le_rfl, le_rfl⟩
  | again =>
      rw [hout]
      exact ⟨le_rfl, le_rfl⟩
  | finished =>
      rw [hin]
      exact ⟨le_rfl, le_rfl⟩
  | empty | keepAlive =>
      rw [hin]
      exact setSlot_flags s _ (Bool.false_le _) (Bool.false_le _) g

namespace Handshake

/-- `append` of the reactor: all flags are down, and the request that will set `improv` is in the
queue. -/
theorem handOver (h : Handshake s) (hm : s.main.polled = none) (state : IoState) :
    Handshake { s.setSlot fd { s.slots fd with state := state } with
      queue := s.queue ++ [fd], main := .poll fd } := by
  have hold := h.none_of_polled hm
  have hslots := setSlot_flags s { s.slots fd with state := state } le_rfl le_rfl
  have himp : ∀ g,
      ((s.setSlot fd { s.slots fd with state := state }).slots g).improv = false := by
    intro g
    have hle := (hslots g).1
    rw [(hold g).2.1] at hle
    exact Bool.eq_false_of_le_false hle
  have hflag : ∀ g,
      ((s.setSlot fd { s.slots fd with state := state }).slots g).timerFlag = false := by
    intro g
    have hle := (hslots g).2
    rw [(hold g).2.2.2] at hle
    exact Bool.eq_false_of_le_false hle
  refine ⟨?_, ?_, ?_, ?_⟩
  · intro g
    have htokens := (hold g).1
    simp only [Server.tokens] at htokens
    simp only [Server.tokens, List.count_append, List.count_singleton, himp,
      MainPc.poll.injEq, and_true, Server.setSlot_workers, beq_iff_eq]
    omega
  · intro g hg
    rw [himp] at hg
    cases hg
  · intro g
    have hraisers : s.raisers g = 0 := (hold g).2.2.1
    change s.raisers g + _ ≤ 1
    rw [hraisers, hflag]
    exact Nat.zero_le _
  · intro g hg
    have hraisers : s.raisers g = 0 := (hold g).2.2.1
    change 0 < s.raisers g + _ at hg
    rw [hraisers, hflag] at hg
    exact absurd hg (Nat.lt_irrefl 0)

/-- The main thread sees `improv`. -/
theorem poll (h : Handshake s) (hm : s.main = .poll fd) (himp : (s.slots fd).improv = true) :
    Handshake { s with main := .flagged fd } := by
  refine ⟨?_, ?_, h.once, ?_⟩
  · intro g
    have htokens := h.tokens g
    rw [if_neg] at htokens ⊢
    · exact htokens
    · nofun
    · rintro ⟨heq, hfalse⟩
      cases hm.symm.trans heq
      rw [himp] at hfalse
      cases hfalse
  · intro g hg
    have hpolled := h.improv g hg
    rw [hm] at hpolled
    exact hpolled
  · intro g hg
    rcases h.raised g hg with ⟨heq, -⟩ | heq | ⟨heq, -⟩
    · cases hm.symm.trans heq
      exact .inr (.inl rfl)
    · cases hm.symm.trans heq
    · cases hm.symm.trans heq

/-- The main thread sees `timer_flag`, and `deal_timer` closes the connection. -/
theorem flagged (h : Handshake s) (hm : s.main = .flagged fd)
    (hflag : (s.slots fd).timerFlag = true) :
    Handshake { s.dealTimer fd with main := .clear fd } := by
  obtain ⟨ts, hts⟩ := s.dealTimer_eq fd
  rw [hts]
  refine ⟨?_, ?_, h.once, ?_⟩
  · intro g
    have htokens := h.tokens g
    rw [if_neg (by rw [hm]; nofun)] at htokens
    rw [if_neg nofun]
    exact htokens
  · intro g hg
    have hpolled := h.improv g hg
    rw [hm] at hpolled
    exact hpolled
  · intro g hg
    rcases h.raised g hg with ⟨heq, -⟩ | heq | ⟨heq, -⟩
    · cases hm.symm.trans heq
    · cases hm.symm.trans heq
      have honce := h.once fd
      rw [hflag, Bool.toNat_true] at honce
      have hraisers : s.raisers fd = 0 := by omega
      exact .inr (.inr ⟨rfl, hraisers⟩)
    · cases hm.symm.trans heq

/-- The main thread sees no `timer_flag`, and nobody is about to set it. -/
theorem notFlagged (h : Handshake s) (hm : s.main = .flagged fd)
    (hflag : (s.slots fd).timerFlag = false) (hworkers : .flagging fd ∉ s.workers) :
    Handshake { s with main := .release fd } := by
  have hraisers : s.raisers fd = 0 := raisers_eq_zero hworkers
  have hnone : ∀ g, s.raisers g = 0 ∧ (s.slots g).timerFlag = false := by
    intro g
    by_cases hg : g = fd
    · subst hg
      exact ⟨hraisers, hflag⟩
    · exact h.unraised (by rw [hm]; nofun) (by rw [hm]; simpa using Ne.symm hg)
        (by rw [hm]; nofun)
  refine Handshake.of_quiet nofun (h.tokens_of_ne (by rw [hm]; nofun)) ?_ (fun g => (hnone g).1)
    fun g => (hnone g).2
  intro g hg
  have hpolled := h.improv g hg
  rw [hm] at hpolled
  exact hpolled

theorem clear (h : Handshake s) (hm : s.main = .clear fd) :
    Handshake { s.setSlot fd { s.slots fd with timerFlag := false } with
      main := .release fd } := by
  have hraisers := h.raisers_of_clear hm
  refine Handshake.of_quiet nofun (h.tokens_of_ne (by rw [hm]; nofun)) ?_ hraisers ?_
  · intro g hg
    have hle := (setSlot_flags s { s.slots fd with timerFlag := false } le_rfl
      (Bool.false_le _) g).1
    have hpolled := h.improv g (Bool.eq_true_of_true_le (hg ▸ hle))
    rw [hm] at hpolled
    exact hpolled
  · intro g
    change (Function.update s.slots fd _ g).timerFlag = false
    by_cases hg : g = fd
    · subst hg
      rw [Function.update_self]
    · rw [Function.update_of_ne hg]
      exact (h.unraised (by rw [hm]; nofun) (by rw [hm]; nofun)
        (by rw [hm]; simpa using Ne.symm hg)).2

theorem release (h : Handshake s) (hm : s.main = .release fd) :
    Handshake { s.setSlot fd { s.slots fd with improv := false } with main := .loop } := by
  have hnone : ∀ g, s.raisers g = 0 ∧ (s.slots g).timerFlag = false := fun g =>
    h.unraised (by rw [hm]; nofun) (by rw [hm]; nofun) (by rw [hm]; nofun)
  refine Handshake.of_quiet nofun (h.tokens_of_ne (by rw [hm]; nofun)) ?_ (fun g => (hnone g).1)
    ?_
  · intro g hg
    change (Function.update s.slots fd _ g).improv = true at hg
    by_cases hgf : g = fd
    · subst hgf
      rw [Function.update_self] at hg
      cases hg
    · rw [Function.update_of_ne hgf] at hg
      have hpolled := h.improv g hg
      rw [hm] at hpolled
      exact absurd (Option.some.inj hpolled).symm hgf
  · intro g
    have hle := (setSlot_flags s { s.slots fd with improv := false }
      (Bool.false_le _) le_rfl g).2
    rw [(hnone g).2] at hle
    exact Bool.eq_false_of_le_false hle

end Handshake

/-- **The main thread keeps the handshake.** -/
theorem MainStep.handshake (h : Handshake s) (hcfg : cfg.reactor = true)
    (hroom : ∀ fd, e ≠ .append fd false) (hp : Patient s s') (hs : MainStep cfg s e s') :
    Handshake s' := by
  have hsame : ∀ fd, (s.slots fd).improv ≤ (s.slots fd).improv ∧
      (s.slots fd).timerFlag ≤ (s.slots fd).timerFlag := fun _ => ⟨le_rfl, le_rfl⟩
  cases hs with
  | epollWait hm | listen hm | acceptFail hm | acceptBusy hm | input _ hm | output _ hm
  | tickEnd hm =>
      exact h.elsewhere (by rw [hm]; rfl) rfl rfl rfl hsame
  | signal hm | tick hm =>
      exact h.elsewhere (by rw [hm]; rfl) (polled_of_main hm rfl) rfl rfl hsame
  | loopEnd hm =>
      refine h.elsewhere (by rw [hm]; rfl) ?_ rfl rfl hsame
      dsimp only
      split <;> rfl
  | @accept fd hm =>
      refine h.elsewhere (by rw [hm]; rfl) ?_ rfl rfl ?_
      · dsimp only
        split <;> rfl
      · exact setSlot_flags s { sockfd := some fd, owner := some s.nextConn }
          (Bool.false_le _) (Bool.false_le _)
  | @hangup fd _ hm =>
      obtain ⟨ts, hts⟩ := s.dealTimer_eq fd
      rw [hts]
      exact h.elsewhere (by rw [hm]; rfl) (polled_of_main hm rfl) rfl rfl hsame
  | @readFail fd hm =>
      obtain ⟨ts, hts⟩ := s.dealTimer_eq fd
      rw [hts]
      exact h.elsewhere (by rw [hm]; rfl) rfl rfl rfl hsame
  | @dispatch fd _ _ _ hm =>
      obtain ⟨ts, hts⟩ := s.adjustTimer_eq fd
      rw [hts]
      exact h.elsewhere (by rw [hm]; rfl) rfl rfl rfl hsame
  | readOk hm hr =>
      cases hr with
      | intro =>
          exact h.elsewhere (by rw [hm]; rfl) rfl rfl rfl (setSlot_flags s _ le_rfl le_rfl)
  | writeMore hm hw =>
      obtain ⟨-, hm', hq, hk, -⟩ := hw.frame
      exact h.elsewhere (by rw [hm]; rfl) (by rw [hm', hm]; rfl) hq hk hw.flags
  | @writeOk fd _ t hm hw =>
      obtain ⟨-, -, hq, hk, -⟩ := hw.frame
      obtain ⟨ts, hts⟩ := t.adjustTimer_eq fd
      rw [hts]
      exact h.elsewhere (by rw [hm]; rfl) rfl hq hk hw.flags
  | @writeFail fd _ t hm hw =>
      obtain ⟨-, -, hq, hk, -⟩ := hw.frame
      obtain ⟨ts, hts⟩ := t.dealTimer_eq fd
      rw [hts]
      exact h.elsewhere (by rw [hm]; rfl) rfl hq hk hw.flags
  | append hr | appendFull hr => exact absurd (hr.symm.trans hcfg) Bool.false_ne_true
  | handOverFull => exact absurd rfl (hroom _)
  | handOver _ hm => exact h.handOver (by rw [hm]; rfl) _
  | poll hm himp => exact h.poll hm himp
  | flagged hm hflag => exact h.flagged hm hflag
  | notFlagged hm hflag => exact h.notFlagged hm hflag (hp _ hm rfl)
  | clear hm => exact h.clear hm
  | release hm => exact h.release hm

/-! ### Workers -/

/-- The main thread polls in vain as long as the worker has not set `improv`. -/
theorem Handshake.polling (h : Handshake s) {w : WorkerPc} (hw : w ∈ s.workers)
    (hp : w.pending = some fd) :
    s.main = .poll fd ∧ (s.slots fd).improv = false ∧ s.raisers fd = 0 ∧
      (s.slots fd).timerFlag = false := by
  have hpos : 0 < s.tokens fd := by
    have hmem : fd ∈ s.workers.flatMap fun w => w.pending.toList :=
      List.mem_flatMap.2 ⟨w, hw, by simp [hp]⟩
    exact Nat.add_pos_right _ (List.count_pos_iff.2 hmem)
  have htokens := h.tokens fd
  split at htokens
  · next hand =>
      refine ⟨hand.1, hand.2, ?_⟩
      have hraised : ¬ 0 < s.raisers fd + (s.slots fd).timerFlag.toNat := by
        intro hpos
        rcases h.raised fd hpos with ⟨-, himp⟩ | heq | ⟨heq, -⟩
        · rw [hand.2] at himp
          cases himp
        · cases hand.1.symm.trans heq
        · cases hand.1.symm.trans heq
      cases hflag : (s.slots fd).timerFlag with
      | true =>
          rw [hflag] at hraised
          exact absurd (Nat.succ_pos _) hraised
      | false => exact ⟨by omega, rfl⟩
  · omega

section Worker

variable {i : ℕ} {pc pc' : WorkerPc}

/-- The numbers of flags to come when a worker goes on. -/
theorem tokens_set (pc' : WorkerPc) (hi : s.workers[i]? = some pc) (hk : s'.workers = s.workers)
    (g : ℕ) :
    Server.tokens { s' with workers := s'.workers.set i pc' } g + s.queue.count g +
        pc.pending.toList.count g =
      s.tokens g + s'.queue.count g + pc'.pending.toList.count g := by
  have hcount := count_flatMap_set (fun w : WorkerPc => w.pending.toList) g pc' hi
  simp only [Server.tokens, hk]
  omega

theorem raisers_set (pc' : WorkerPc) (hi : s.workers[i]? = some pc) (hk : s'.workers = s.workers)
    (g : ℕ) :
    Server.raisers { s' with workers := s'.workers.set i pc' } g + pc.raising.toList.count g =
      s.raisers g + pc'.raising.toList.count g := by
  have hcount := count_flatMap_set (fun w : WorkerPc => w.raising.toList) g pc' hi
  simp only [Server.raisers, hk]
  exact hcount

/-- A step of a worker that has nothing to do with the flags. -/
theorem Handshake.neutral (h : Handshake s) (hi : s.workers[i]? = some pc)
    (hm : s'.main = s.main) (hk : s'.workers = s.workers)
    (hq : ∀ g, s'.queue.count g + pc'.pending.toList.count g =
      s.queue.count g + pc.pending.toList.count g)
    (hr : pc'.raising = pc.raising)
    (hslots : ∀ g, (s'.slots g).improv = (s.slots g).improv ∧
      (s'.slots g).timerFlag = (s.slots g).timerFlag) :
    Handshake { s' with workers := s'.workers.set i pc' } := by
  have htokens : ∀ g, Server.tokens { s' with workers := s'.workers.set i pc' } g = s.tokens g := by
    intro g
    have hset := tokens_set pc' hi hk g
    have hg := hq g
    omega
  have hraisers : ∀ g,
      Server.raisers { s' with workers := s'.workers.set i pc' } g = s.raisers g := by
    intro g
    have hset := raisers_set pc' hi hk g
    rw [hr] at hset
    omega
  refine ⟨?_, ?_, ?_, ?_⟩
  · intro g
    rw [htokens, h.tokens]
    dsimp only
    rw [hm, (hslots g).1]
  · intro g
    dsimp only
    rw [hm, (hslots g).1]
    exact h.improv g
  · intro g
    rw [hraisers]
    dsimp only
    rw [(hslots g).2]
    exact h.once g
  · intro g
    rw [hraisers]
    dsimp only
    rw [(hslots g).1, (hslots g).2, hm]
    exact h.raised g

/-- A worker sets `improv`, and goes on to set `timer_flag` or not. -/
theorem Handshake.set_improv (h : Handshake s) (hi : s.workers[i]? = some pc)
    (hm : s'.main = s.main) (hq : s'.queue = s.queue) (hk : s'.workers = s.workers)
    (hslots : s'.slots = Function.update s.slots fd { s.slots fd with improv := true })
    (hp : pc.pending = some fd) (hp' : pc'.pending = none) (hr : pc.raising = none)
    (hr' : pc'.raising = none ∨ pc'.raising = some fd) :
    Handshake { s' with workers := s'.workers.set i pc' } := by
  obtain ⟨hpoll, himp, hraisers, hflag⟩ := h.polling (List.mem_of_getElem? hi) hp
  -- the request that will set `improv` was the only one, and it has done so
  have htokens : ∀ g, Server.tokens { s' with workers := s'.workers.set i pc' } g = 0 := by
    intro g
    have hset := tokens_set pc' hi hk g
    have hold := h.tokens g
    have hqueue : s'.queue.count g = s.queue.count g := by rw [hq]
    rw [hp, hp'] at hset
    rw [hpoll] at hold
    by_cases hg : g = fd
    · subst hg
      rw [if_pos ⟨rfl, himp⟩] at hold
      simp at hset
      omega
    · rw [if_neg (by simp [Ne.symm hg])] at hold
      simp [hold] at hset
      omega
  have hraise : ∀ g, Server.raisers { s' with workers := s'.workers.set i pc' } g =
      s.raisers g + pc'.raising.toList.count g := by
    intro g
    have hset := raisers_set pc' hi hk g
    rw [hr] at hset
    exact hset
  have hother : ∀ g, g ≠ fd → s'.slots g = s.slots g ∧ pc'.raising.toList.count g = 0 := by
    intro g hg
    refine ⟨by rw [hslots, Function.update_of_ne hg], ?_⟩
    rcases hr' with hr' | hr'
    · simp [hr']
    · simp [hr', Ne.symm hg]
  have hself : s'.slots fd = { s.slots fd with improv := true } := by
    rw [hslots, Function.update_self]
  refine ⟨?_, ?_, ?_, ?_⟩
  · intro g
    rw [htokens, if_neg]
    rintro ⟨heq, hfalse⟩
    cases (hpoll.symm.trans hm.symm).trans heq
    rw [hself] at hfalse
    cases hfalse
  · intro g hg
    change s'.main.polled = _
    rw [hm]
    by_cases hgf : g = fd
    · rw [hgf, hpoll]
      rfl
    · rw [(hother g hgf).1] at hg
      exact h.improv g hg
  · intro g
    rw [hraise]
    change _ + (s'.slots g).timerFlag.toNat ≤ 1
    by_cases hgf : g = fd
    · subst hgf
      rw [hself, hraisers, hflag]
      rcases hr' with hr' | hr'
      · simp [hr']
      · simp [hr']
    · rw [(hother g hgf).1, (hother g hgf).2]
      exact h.once g
  · intro g
    rw [hraise]
    change 0 < _ + (s'.slots g).timerFlag.toNat → s'.main = _ ∧ (s'.slots g).improv = true ∨
      s'.main = _ ∨ s'.main = _ ∧ _
    intro hpos
    rw [hm]
    by_cases hgf : g = fd
    · subst hgf
      exact .inl ⟨hpoll, by rw [hself]⟩
    · rw [(hother g hgf).1, (hother g hgf).2] at *
      exact h.raised g hpos

/-- A worker sets `timer_flag`. -/
theorem Handshake.set_flag (h : Handshake s) (hi : s.workers[i]? = some (.flagging fd))
    (hm : s'.main = s.main) (hq : s'.queue = s.queue) (hk : s'.workers = s.workers)
    (hslots : s'.slots = Function.update s.slots fd { s.slots fd with timerFlag := true }) :
    Handshake { s' with workers := s'.workers.set i .idle } := by
  have htokens : ∀ g, Server.tokens { s' with workers := s'.workers.set i .idle } g =
      s.tokens g := by
    intro g
    have hset := tokens_set .idle hi hk g
    have hqueue : s'.queue.count g = s.queue.count g := by rw [hq]
    simp only [WorkerPc.pending, Option.toList_none, List.count_nil] at hset
    omega
  have hraise : ∀ g, Server.raisers { s' with workers := s'.workers.set i .idle } g +
      ([fd] : List ℕ).count g = s.raisers g := fun g => raisers_set .idle hi hk g
  have hfd := hraise fd
  rw [List.count_singleton_self] at hfd
  have honce := h.once fd
  have hself : s'.slots fd = { s.slots fd with timerFlag := true } := by
    rw [hslots, Function.update_self]
  have hother : ∀ g, g ≠ fd → s'.slots g = s.slots g := by
    intro g hg
    rw [hslots, Function.update_of_ne hg]
  have himp : ∀ g, (s'.slots g).improv = (s.slots g).improv := by
    intro g
    by_cases hgf : g = fd
    · rw [hgf, hself]
    · rw [hother g hgf]
  -- the flag takes the place of the worker that was about to set it
  refine ⟨?_, ?_, ?_, ?_⟩
  · intro g
    rw [htokens, h.tokens]
    dsimp only
    rw [hm, himp]
  · intro g
    dsimp only
    rw [hm, himp]
    exact h.improv g
  · intro g
    change _ + (s'.slots g).timerFlag.toNat ≤ 1
    by_cases hgf : g = fd
    · subst hgf
      rw [hself, Bool.toNat_true]
      omega
    · have hg := hraise g
      have hle := h.once g
      rw [hother g hgf]
      omega
  · intro g
    change 0 < _ + (s'.slots g).timerFlag.toNat → s'.main = _ ∧ (s'.slots g).improv = true ∨
      s'.main = _ ∨ s'.main = _ ∧ _
    intro hpos
    have hg := hraise g
    have hold : 0 < s.raisers g + (s.slots g).timerFlag.toNat := by
      by_cases hgf : g = fd
      · subst hgf
        omega
      · rw [hother g hgf] at hpos
        omega
    rw [himp]
    rcases h.raised g hold with ⟨hp, hi⟩ | hp | ⟨hp, hzero⟩
    · exact .inl ⟨hm.trans hp, hi⟩
    · exact .inr (.inl (hm.trans hp))
    · exact .inr (.inr ⟨hm.trans hp, by omega⟩)

end Worker

/-- `write` works on its own slot. -/
theorem Write.slots_of_ne {r : Option Bool} (hw : Write s fd e r s') {g : ℕ} (hg : g ≠ fd) :
    s'.slots g = s.slots g := by
  obtain ⟨_, hin⟩ := s.modfd_eq fd .input
  obtain ⟨_, hout⟩ := s.modfd_eq fd .output
  cases hw with
  | sent | fail => rfl
  | again => rw [hout]
  | finished => rw [hin]
  | empty | keepAlive =>
      rw [hin]
      exact Function.update_of_ne hg _ _

/-- A change of a slot that leaves its flags. -/
theorem setSlot_same_flags (slot : Slot) (hi : slot.improv = (s.slots fd).improv)
    (ht : slot.timerFlag = (s.slots fd).timerFlag) (g : ℕ) :
    ((s.setSlot fd slot).slots g).improv = (s.slots g).improv ∧
      ((s.setSlot fd slot).slots g).timerFlag = (s.slots g).timerFlag := by
  rw [Server.setSlot_slots]
  by_cases hg : g = fd
  · subst hg
    rw [Function.update_self]
    exact ⟨hi, ht⟩
  · rw [Function.update_of_ne hg]
    exact ⟨rfl, rfl⟩

/-- The flags that `init` resets at the end of `write` are not set. -/
theorem Handshake.write_flags {r : Option Bool} (h : Handshake s)
    (hwriting : .writing fd ∈ s.workers) (hw : Write s fd e r s') (g : ℕ) :
    (s'.slots g).improv = (s.slots g).improv ∧ (s'.slots g).timerFlag = (s.slots g).timerFlag := by
  by_cases hg : g = fd
  · subst hg
    obtain ⟨-, himp, -, hflag⟩ := h.polling hwriting rfl
    have hle := hw.flags g
    rw [himp, hflag] at hle ⊢
    exact ⟨Bool.eq_false_of_le_false hle.1, Bool.eq_false_of_le_false hle.2⟩
  · rw [hw.slots_of_ne hg]
    exact ⟨rfl, rfl⟩

/-- **A worker keeps the handshake.** -/
theorem WorkerStep.handshake {i : ℕ} {pc pc' : WorkerPc} (h : Handshake s)
    (hcfg : cfg.reactor = true) (hi : s.workers[i]? = some pc)
    (hs : WorkerStep cfg s pc e s' pc') :
    Handshake { s' with workers := s'.workers.set i pc' } := by
  obtain ⟨-, hm, hk⟩ := hs.frame
  have hmem := List.mem_of_getElem? hi
  have hsame : ∀ g, (s.slots g).improv = (s.slots g).improv ∧
      (s.slots g).timerFlag = (s.slots g).timerFlag := fun _ => ⟨rfl, rfl⟩
  cases hs with
  | proactor hr => exact absurd (hr.symm.trans hcfg) Bool.false_ne_true
  | take hq =>
      refine h.neutral hi rfl rfl ?_ rfl hsame
      intro g
      simp [hq, WorkerPc.pending, List.count_cons]
  | reactorRead | reactorWrite | readFail | noRequest | request =>
      exact h.neutral hi rfl rfl (fun _ => rfl) rfl hsame
  | readOk hr =>
      cases hr with
      | intro => exact h.neutral hi rfl rfl (fun _ => rfl) rfl (setSlot_same_flags _ rfl rfl)
  | respond => exact h.neutral hi rfl rfl (fun _ => rfl) rfl (setSlot_same_flags _ rfl rfl)
  | @rearmInput fd | @rearmOutput fd =>
      obtain ⟨ep, hep⟩ := s.modfd_eq fd _
      rw [hep]
      exact h.neutral hi rfl rfl (fun _ => rfl) rfl hsame
  | closeConn hpc | closeNothing hpc =>
      rcases hpc with rfl | ⟨_, rfl⟩
      · exact h.neutral hi rfl rfl (fun _ => rfl) rfl hsame
      · exact h.neutral hi rfl rfl (fun _ => rfl) rfl hsame
  | @closed fd =>
      exact h.neutral hi rfl rfl (fun _ => rfl) rfl
        (setSlot_same_flags { s.slots fd with sockfd := none } rfl rfl)
  | writeMore hw | writeOk hw | writeFail hw =>
      exact h.neutral hi hm hk (fun g => congrArg (fun q => q.count g + _) hw.frame.2.2.1) rfl
        (h.write_flags hmem hw)
  | received => exact h.set_improv hi rfl rfl rfl rfl rfl rfl rfl (.inl rfl)
  | written => exact h.set_improv hi rfl rfl rfl rfl rfl rfl rfl (.inl rfl)
  | failed => exact h.set_improv hi rfl rfl rfl rfl rfl rfl rfl (.inr rfl)
  | flagging => exact h.set_flag hi rfl rfl rfl rfl

/-- **Attentive steps keep the handshake** in the reactor model. -/
theorem Step.handshake (h : Handshake s) (hcfg : cfg.reactor = true) (ha : Attentive s e s')
    (hs : Step cfg s e s') : Handshake s' := by
  cases hs with
  | main hs => exact hs.handshake h hcfg ha.2.1 ha.2.2
  | worker hi hs => exact hs.handshake h hcfg hi
  | elapse => exact ⟨h.tokens, h.improv, h.once, h.raised⟩

end Gateway.Web
