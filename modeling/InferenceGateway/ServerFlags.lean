/-
**What the event loop learns from the two flags.**

In the reactor model the worker tells the main thread by `improv` and `timer_flag` how a `read_once`
or a `write` has ended.  What it has to tell is read off its position: nothing before the call,
the result behind it, and a failure that is known to `improv` only while the worker is about to set
`timer_flag`.  This is compared with what was shown since the slot was handed over.

`write` may end in `init()`, which resets both flags.  In `Gateway.Web.Step` this is one step with
the return of `write`; here the two assignments are steps of their own, so that all other steps may
come between them.

Main definitions:

* `Gateway.Web.FineServer`, `Gateway.Web.FineStep` — the server with the resets of `init()` as
  single steps;
* `Gateway.Web.sinceHandOver` — the results and the calls of `deal_timer` since the last `append`;
* `Gateway.Web.Answered` — the main thread goes on after a success with no `deal_timer` and after a
  failure with one, and hands a slot over with both flags down.

Main results:

* `Gateway.Web.FineStep.told` — patient steps keep what the flags tell in line with the events;
* `Gateway.Web.answered_iff_patient` — **every result is answered throughout a run exactly when the
  main thread never tests `timer_flag` while the worker is about to set it.**
-/

import InferenceGateway.ServerHandshake

set_option relaxedAutoImplicit false
set_option autoImplicit false

namespace Gateway.Web

open EventSystem

variable {cfg : Config} {s s' : Server} {e : Event} {fd : ℕ} {since : List Event}

/-! ### The resets of `init()` as single steps -/

/-- The assignment of `init()` that comes next: `timer_flag = 0` or `improv = 0`. -/
inductive Reset
  | timerFlag | improv
  deriving DecidableEq

/-- The server, with the workers that are within `init()`. -/
structure FineServer where
  server : Server
  resets : ℕ → Option Reset := fun _ => none

/-- `init()` up to `timer_flag = 0`. -/
def Server.beginInit (s : Server) (fd : ℕ) : Server :=
  s.setSlot fd
    { sockfd := (s.slots fd).sockfd, owner := (s.slots fd).owner
      improv := (s.slots fd).improv, timerFlag := (s.slots fd).timerFlag }

/-- The steps of the server, where a `write` that ends in `init()` may also go on in single steps:
`modfd` and the first part of `init()`, `timer_flag = 0`, and `improv = 0` with the return. -/
inductive FineStep (cfg : Config) (s : FineServer) : Event → FineServer → Prop
  | main {s' : Server} {e : Event} :
      MainStep cfg s.server e s' → FineStep cfg s e { s with server := s' }
  | worker {s' : Server} {e : Event} {i : ℕ} {pc pc' : WorkerPc} :
      s.resets i = none → s.server.workers[i]? = some pc → WorkerStep cfg s.server pc e s' pc' →
      FineStep cfg s e { s with server := { s' with workers := s'.workers.set i pc' } }
  | init {i fd : ℕ} :
      s.resets i = none → s.server.workers[i]? = some (.writing fd) →
      FineStep cfg s .quiet
        ⟨(s.server.modfd fd .input).beginInit fd, Function.update s.resets i (some .timerFlag)⟩
  | resetTimerFlag {i fd : ℕ} :
      s.resets i = some .timerFlag → s.server.workers[i]? = some (.writing fd) →
      FineStep cfg s .quiet
        ⟨s.server.setSlot fd { s.server.slots fd with timerFlag := false },
          Function.update s.resets i (some .improv)⟩
  | resetImprov {i fd : ℕ} :
      s.resets i = some .improv → s.server.workers[i]? = some (.writing fd) →
      FineStep cfg s (.ioDone fd true)
        ⟨{ s.server.setSlot fd { s.server.slots fd with improv := false } with
            workers := s.server.workers.set i (.written fd) },
          Function.update s.resets i none⟩
  | elapse (d : ℕ) :
      FineStep cfg s .quiet { s with server := { s.server with now := s.server.now + d } }

/-- A step in which the main thread is patient. -/
def PatientStep (cfg : Config) (s : FineServer) (e : Event) (s' : FineServer) : Prop :=
  FineStep cfg s e s' ∧ Patient s.server s'.server

/-! ### Events since the hand-over -/

/-- The results and the calls of `deal_timer`, from the last `append` on. -/
def track (since : List Event) : Event → List Event
  | .append _ _ => []
  | .ioDone fd ok => since ++ [.ioDone fd ok]
  | .dealTimer fd => since ++ [.dealTimer fd]
  | _ => since

def sinceHandOver (evs : List Event) : List Event := evs.foldl track []

@[simp] theorem sinceHandOver_snoc (evs : List Event) (e : Event) :
    sinceHandOver (evs ++ [e]) = track (sinceHandOver evs) e := by
  simp [sinceHandOver]

/-- **Every result is answered.**  When the main thread goes on, it has seen one result since the
hand-over, and called `deal_timer` once if it was a failure and never otherwise; before it hands a
slot over, both flags of the slot are down; and a result comes while it polls. -/
structure Answered (evs : List Event) (s : Server) : Prop where
  released : ∀ fd, s.main = .release fd →
    sinceHandOver evs = [.ioDone fd true] ∨ sinceHandOver evs = [.ioDone fd false, .dealTimer fd]
  lowered : ∀ fd state, s.main = .append fd state →
    (s.slots fd).improv = false ∧ (s.slots fd).timerFlag = false
  awaited : ∀ fd ok, evs.getLast? = some (.ioDone fd ok) → s.main = .poll fd

/-! ### What there is to tell -/

/-- What a worker has shown since the hand-over of the slot it reads or writes. -/
def WorkerPc.told : WorkerPc → Option (List Event)
  | .taken _ | .reading _ | .writing _ => some []
  | .received fd | .written fd => some [.ioDone fd true]
  | .failed fd | .flagging fd => some [.ioDone fd false]
  | _ => none

/-- The requests, the workers, the flags and the main thread agree with the events since the
hand-over. -/
structure Told (since : List Event) (s : Server) : Prop where
  queued : ∀ fd ∈ s.queue, since = []
  workers : ∀ w ∈ s.workers, ∀ evs, w.told = some evs → since = evs
  failure : ∀ fd, (s.slots fd).timerFlag = true → s.main ≠ .clear fd →
    since = [.ioDone fd false]
  success : ∀ fd, (s.main = .poll fd ∧ (s.slots fd).improv = true ∨ s.main = .flagged fd) →
    (s.slots fd).timerFlag = false → s.raisers fd = 0 → since = [.ioDone fd true]
  clear : ∀ fd, s.main = .clear fd → since = [.ioDone fd false, .dealTimer fd]
  release : ∀ fd, s.main = .release fd →
    since = [.ioDone fd true] ∨ since = [.ioDone fd false, .dealTimer fd]

/-- A worker with something to tell will set a flag. -/
theorem WorkerPc.told_cases {w : WorkerPc} {evs : List Event} (h : w.told = some evs) :
    (∃ fd, w.pending = some fd) ∨ ∃ fd, w = .flagging fd := by
  cases w with
  | taken fd | reading fd | received fd | writing fd | written fd | failed fd =>
      exact .inl ⟨fd, rfl⟩
  | flagging fd => exact .inr ⟨fd, rfl⟩
  | _ => cases h

theorem raisers_pos (h : .flagging fd ∈ s.workers) : 0 < s.raisers fd :=
  List.count_pos_iff.2 (List.mem_flatMap.2 ⟨_, h, by simp [WorkerPc.raising]⟩)

theorem tokens_pos {w : WorkerPc} (h : w ∈ s.workers) (hp : w.pending = some fd) :
    0 < s.tokens fd :=
  Nat.add_pos_right _ (List.count_pos_iff.2 (List.mem_flatMap.2 ⟨w, h, by simp [hp]⟩))

theorem tokens_pos_of_queue (h : fd ∈ s.queue) : 0 < s.tokens fd :=
  Nat.add_pos_left (List.count_pos_iff.2 h) _

/-- With no flag to come there is nothing to tell. -/
theorem Told.of_none (since : List Event) (htokens : ∀ fd, s.tokens fd = 0)
    (hraisers : ∀ fd, s.raisers fd = 0) :
    (∀ fd ∈ s.queue, since = []) ∧ ∀ w ∈ s.workers, ∀ evs, w.told = some evs → since = evs := by
  constructor
  · intro fd hq
    have hpos := tokens_pos_of_queue hq
    rw [htokens] at hpos
    cases hpos
  · intro w hw evs htold
    rcases WorkerPc.told_cases htold with ⟨fd, hp⟩ | ⟨fd, rfl⟩
    · have hpos := tokens_pos hw hp
      rw [htokens] at hpos
      cases hpos
    · have hpos := raisers_pos hw
      rw [hraisers] at hpos
      cases hpos

/-- Outside of a poll there is nothing to tell. -/
theorem Handshake.told (h : Handshake s) (hm : s.main.polled = none) : Told since s := by
  have hnone := h.none_of_polled hm
  obtain ⟨hqueue, hworkers⟩ := Told.of_none since (fun g => (hnone g).1)
    fun g => (hnone g).2.2.1
  have hne : ∀ {pc : MainPc} {g : ℕ}, pc.polled = some g → s.main ≠ pc := by
    rintro pc g hpc rfl
    rw [hm] at hpc
    cases hpc
  refine ⟨hqueue, hworkers, ?_, ?_, ?_, ?_⟩
  · intro g hflag
    rw [(hnone g).2.2.2] at hflag
    cases hflag
  · rintro g (⟨heq, -⟩ | heq)
    · exact absurd heq (hne (g := g) rfl)
    · exact absurd heq (hne (g := g) rfl)
  · exact fun g heq => absurd heq (hne (g := g) rfl)
  · exact fun g heq => absurd heq (hne (g := g) rfl)

/-- Behind `deal_timer` nothing is to come. -/
theorem Handshake.told_of_clear (h : Handshake s) (hm : s.main = .clear fd)
    (hsince : since = [.ioDone fd false, .dealTimer fd]) : Told since s := by
  obtain ⟨hqueue, hworkers⟩ := Told.of_none since
    (h.tokens_of_ne (by rw [hm]; nofun)) (h.raisers_of_clear hm)
  refine ⟨hqueue, hworkers, ?_, ?_, ?_, ?_⟩
  · intro g hflag hne
    have hg : g ≠ fd := by
      rintro rfl
      exact hne hm
    have hdown : s.raisers g = 0 ∧ (s.slots g).timerFlag = false :=
      h.unraised (by rw [hm]; nofun) (by rw [hm]; nofun) (by rw [hm]; simpa using hg.symm)
    exact absurd hflag (by simp [hdown.2])
  · rintro g (⟨heq, -⟩ | heq)
    · cases hm.symm.trans heq
    · cases hm.symm.trans heq
  · intro g heq
    cases hm.symm.trans heq
    exact hsince
  · intro g heq
    cases hm.symm.trans heq

/-- Nor is anything when the main thread goes on. -/
theorem Handshake.told_of_release (h : Handshake s) (hm : s.main = .release fd)
    (hsince : since = [.ioDone fd true] ∨ since = [.ioDone fd false, .dealTimer fd]) :
    Told since s := by
  have hnone : ∀ g, s.raisers g = 0 ∧ (s.slots g).timerFlag = false := fun g =>
    h.unraised (by rw [hm]; nofun) (by rw [hm]; nofun) (by rw [hm]; nofun)
  obtain ⟨hqueue, hworkers⟩ := Told.of_none since
    (h.tokens_of_ne (by rw [hm]; nofun)) fun g => (hnone g).1
  refine ⟨hqueue, hworkers, ?_, ?_, ?_, ?_⟩
  · intro g hflag
    exact absurd hflag (by simp [(hnone g).2])
  · rintro g (⟨heq, -⟩ | heq)
    · cases hm.symm.trans heq
    · cases hm.symm.trans heq
  · intro g heq
    cases hm.symm.trans heq
  · intro g heq
    cases hm.symm.trans heq
    exact hsince

/-- **The main thread keeps to what it was told.** -/
theorem MainStep.told (h : Handshake s) (ht : Told since s) (hcfg : cfg.reactor = true)
    (hroom : ∀ fd, e ≠ .append fd false) (hp : Patient s s') (hs : MainStep cfg s e s') :
    Told (track since e) s' := by
  have h' := hs.handshake h hcfg hroom hp
  cases hs with
  | epollWait | listen | acceptFail | acceptBusy | input | output | tickEnd => exact h'.told rfl
  | signal hm | tick hm => exact h'.told (polled_of_main hm rfl)
  | loopEnd | accept =>
      refine h'.told ?_
      dsimp only
      split <;> rfl
  | hangup hm =>
      refine h'.told ?_
      obtain ⟨ts, hts⟩ := s.dealTimer_eq ‹ℕ›
      rw [hts]
      exact polled_of_main hm rfl
  | readFail | dispatch | readOk | writeOk | writeFail => exact h'.told rfl
  | writeMore hm hw =>
      obtain ⟨-, hm', -⟩ := hw.frame
      exact h'.told (by rw [hm', hm]; rfl)
  | append hr | appendFull hr => exact absurd (hr.symm.trans hcfg) Bool.false_ne_true
  | handOverFull => exact absurd rfl (hroom _)
  | @handOver fd state _ hm =>
      -- nothing was shown since the hand-over, which is this step
      have hold := h.none_of_polled (by rw [hm]; rfl)
      obtain ⟨-, hworkers⟩ := Told.of_none [] (fun g => (hold g).1)
        fun g => (hold g).2.2.1
      have hle := setSlot_flags s { s.slots fd with state := state } le_rfl le_rfl
      refine ⟨fun _ _ => rfl, hworkers, ?_, ?_, nofun, nofun⟩
      · intro g hflag
        have hg := (hle g).2
        rw [(hold g).2.2.2] at hg
        exact absurd hflag (by simpa using Bool.eq_false_of_le_false hg)
      · rintro g (⟨-, himp⟩ | heq)
        · have hg := (hle g).1
          rw [(hold g).2.1] at hg
          exact absurd himp (by simpa using Bool.eq_false_of_le_false hg)
        · cases heq
  | @poll fd hm himp =>
      refine ⟨ht.queued, ht.workers, fun g hflag _ => ht.failure g hflag (by rw [hm]; nofun), ?_,
        nofun, nofun⟩
      rintro g (⟨heq, -⟩ | heq)
      · cases heq
      · cases heq
        exact ht.success fd (.inl ⟨hm, himp⟩)
  | @flagged fd hm hflag =>
      have hsince := ht.failure fd hflag (by rw [hm]; nofun)
      exact h'.told_of_clear rfl (by rw [hsince]; rfl)
  | @notFlagged fd hm hflag =>
      have hsince := ht.success fd (.inr hm) hflag (raisers_eq_zero (hp fd hm rfl))
      exact h'.told_of_release rfl (.inl hsince)
  | @clear fd hm => exact h'.told_of_release rfl (.inr (ht.clear fd hm))
  | release => exact h'.told rfl

/-! ### Workers -/

section Worker

variable {i : ℕ} {pc pc' : WorkerPc}

/-- A worker that has yet to set `improv` is the only one with something to tell. -/
theorem Handshake.alone (h : Handshake s) (hi : s.workers[i]? = some pc)
    (hp : pc.pending = some fd) :
    s.queue = [] ∧ ∀ j w, s.workers[j]? = some w → j ≠ i → w.told = none := by
  obtain ⟨hpoll, himp, -, -⟩ := h.polling (List.mem_of_getElem? hi) hp
  have hone : ∀ g, s.tokens g = if g = fd then 1 else 0 := by
    intro g
    rw [h.tokens, hpoll]
    by_cases hg : g = fd
    · rw [if_pos ⟨by rw [hg], hg ▸ himp⟩, if_pos hg]
    · rw [if_neg (by simp [Ne.symm hg]), if_neg hg]
  have hself : 0 < (s.workers.flatMap fun w => w.pending.toList).count fd :=
    List.count_pos_iff.2 (List.mem_flatMap.2 ⟨pc, List.mem_of_getElem? hi, by simp [hp]⟩)
  have hfd := hone fd
  rw [if_pos rfl, Server.tokens] at hfd
  constructor
  · refine List.eq_nil_iff_forall_not_mem.2 ?_
    intro g hg
    have hpos := List.count_pos_iff.2 hg
    by_cases hgf : g = fd
    · subst hgf
      omega
    · have hzero := hone g
      rw [if_neg hgf, Server.tokens] at hzero
      omega
  · intro j w hj hne
    cases htold : w.told with
    | none => rfl
    | some evs =>
        rcases WorkerPc.told_cases htold with ⟨g, hg⟩ | ⟨g, rfl⟩
        · obtain ⟨hpoll', -⟩ := h.polling (List.mem_of_getElem? hj) hg
          cases hpoll.symm.trans hpoll'
          have hcount : (s.workers.flatMap fun w => w.pending.toList).count fd ≤ 1 := by omega
          exact absurd (eq_of_count_flatMap_le_one (fun w : WorkerPc => w.pending.toList)
            hcount hj hi (by simp [hg]) (by simp [hp])) hne
        · have hraised := h.raised g (Nat.add_pos_left (raisers_pos (List.mem_of_getElem? hj)) _)
          rcases hraised with ⟨heq, himp'⟩ | heq | ⟨heq, -⟩
          · cases hpoll.symm.trans heq
            rw [himp] at himp'
            cases himp'
          · cases hpoll.symm.trans heq
          · cases hpoll.symm.trans heq

/-- A step of a worker that shows no result and sets no flag. -/
theorem Told.neutral (ht : Told since s) (hi : s.workers[i]? = some pc)
    (hm : s'.main = s.main) (hk : s'.workers = s.workers) (hq : ∀ g ∈ s'.queue, g ∈ s.queue)
    (hr : pc'.raising = pc.raising) (htold : ∀ evs, pc'.told = some evs → since = evs)
    (hslots : ∀ g, (s'.slots g).improv = (s.slots g).improv ∧
      (s'.slots g).timerFlag = (s.slots g).timerFlag) :
    Told since { s' with workers := s'.workers.set i pc' } := by
  have hraisers : ∀ g,
      Server.raisers { s' with workers := s'.workers.set i pc' } g = s.raisers g := by
    intro g
    have hset := raisers_set pc' hi hk g
    rw [hr] at hset
    omega
  refine ⟨fun g hg => ht.queued g (hq g hg), ?_, ?_, ?_, ?_, ?_⟩
  · intro w hw evs hevs
    dsimp only at hw
    rw [hk] at hw
    rcases List.mem_or_eq_of_mem_set hw with hold | rfl
    · exact ht.workers w hold evs hevs
    · exact htold evs hevs
  · intro g
    dsimp only
    rw [hm, (hslots g).2]
    exact ht.failure g
  · intro g
    rw [hraisers]
    dsimp only
    rw [hm, (hslots g).1, (hslots g).2]
    exact ht.success g
  · intro g
    dsimp only
    rw [hm]
    exact ht.clear g
  · intro g
    dsimp only
    rw [hm]
    exact ht.release g

/-- A worker shows its result. -/
theorem Told.result {ok : Bool} (ht : Told since s) (h : Handshake s)
    (hi : s.workers[i]? = some pc) (hp : pc.pending = some fd) (htold : pc.told = some [])
    (hm : s'.main = s.main) (hq : s'.queue = s.queue) (hk : s'.workers = s.workers)
    (htold' : pc'.told = some [.ioDone fd ok])
    (hslots : ∀ g, (s'.slots g).improv = (s.slots g).improv ∧
      (s'.slots g).timerFlag = (s.slots g).timerFlag) :
    Told (since ++ [.ioDone fd ok]) { s' with workers := s'.workers.set i pc' } := by
  obtain ⟨hpoll, himp, -, -⟩ := h.polling (List.mem_of_getElem? hi) hp
  obtain ⟨hqueue, hothers⟩ := h.alone hi hp
  obtain rfl := ht.workers pc (List.mem_of_getElem? hi) [] htold
  have hmain : s'.main = .poll fd := hm.trans hpoll
  refine ⟨?_, ?_, ?_, ?_, ?_, ?_⟩
  · intro g hg
    dsimp only at hg
    rw [hq, hqueue] at hg
    cases hg
  · intro w hw evs hevs
    dsimp only at hw
    rw [hk] at hw
    obtain ⟨j, hj⟩ := List.getElem?_of_mem hw
    rw [List.getElem?_set] at hj
    split at hj
    · next hij =>
        split at hj
        · obtain rfl := Option.some.inj hj
          exact Option.some.inj (htold'.symm.trans hevs)
        · cases hj
    · next hij =>
        rw [hothers j w hj (Ne.symm hij)] at hevs
        cases hevs
  · intro g hflag
    dsimp only at hflag
    rw [(hslots g).2] at hflag
    have hraised := h.raised g (by rw [hflag]; exact Nat.succ_pos _)
    rcases hraised with ⟨heq, himp'⟩ | heq | ⟨heq, -⟩
    · cases hpoll.symm.trans heq
      rw [himp] at himp'
      cases himp'
    · cases hpoll.symm.trans heq
    · cases hpoll.symm.trans heq
  · rintro g (⟨heq, himp'⟩ | heq)
    · cases hmain.symm.trans heq
      dsimp only at himp'
      rw [(hslots fd).1, himp] at himp'
      cases himp'
    · cases hmain.symm.trans heq
  · intro g heq
    cases hmain.symm.trans heq
  · intro g heq
    cases hmain.symm.trans heq

/-- A worker sets `improv` behind its result. -/
theorem Told.set_improv {ok : Bool} (ht : Told since s) (h : Handshake s)
    (hi : s.workers[i]? = some pc) (hp : pc.pending = some fd)
    (htold : pc.told = some [.ioDone fd ok]) (hm : s'.main = s.main) (hq : s'.queue = s.queue)
    (hk : s'.workers = s.workers)
    (hslots : s'.slots = Function.update s.slots fd { s.slots fd with improv := true })
    (hr : pc'.raising = if ok then none else some fd)
    (htold' : ∀ evs, pc'.told = some evs → evs = [.ioDone fd ok]) :
    Told since { s' with workers := s'.workers.set i pc' } := by
  obtain ⟨hpoll, himp, -, -⟩ := h.polling (List.mem_of_getElem? hi) hp
  have hsince := ht.workers pc (List.mem_of_getElem? hi) _ htold
  have hmain : s'.main = .poll fd := hm.trans hpoll
  have hflags : ∀ g, (s'.slots g).timerFlag = (s.slots g).timerFlag := by
    intro g
    rw [hslots]
    by_cases hg : g = fd
    · rw [hg, Function.update_self]
    · rw [Function.update_of_ne hg]
  refine ⟨?_, ?_, ?_, ?_, ?_, ?_⟩
  · intro g hg
    dsimp only at hg
    rw [hq] at hg
    exact ht.queued g hg
  · intro w hw evs hevs
    dsimp only at hw
    rw [hk] at hw
    rcases List.mem_or_eq_of_mem_set hw with hold | rfl
    · exact ht.workers w hold evs hevs
    · rw [hsince, htold' evs hevs]
  · intro g
    dsimp only
    rw [hm, hflags]
    exact ht.failure g
  · rintro g (⟨heq, -⟩ | heq) - hzero
    · cases hmain.symm.trans heq
      cases ok with
      | true => exact hsince
      | false =>
          -- the worker goes on to set `timer_flag`
          have hset := raisers_set pc' hi hk fd
          rw [hr, hzero] at hset
          have hraising : pc.raising = none := by
            cases pc with
            | flagging => cases hp
            | _ => rfl
          simp [hraising] at hset
    · cases hmain.symm.trans heq
  · intro g heq
    cases hmain.symm.trans heq
  · intro g heq
    cases hmain.symm.trans heq

/-- A worker sets `timer_flag`. -/
theorem Told.set_flag (ht : Told since s)
    (hi : s.workers[i]? = some (.flagging fd)) (hm : s'.main = s.main) (hq : s'.queue = s.queue)
    (hk : s'.workers = s.workers)
    (hslots : s'.slots = Function.update s.slots fd { s.slots fd with timerFlag := true }) :
    Told since { s' with workers := s'.workers.set i .idle } := by
  have hsince := ht.workers _ (List.mem_of_getElem? hi) _ rfl
  have hself : s'.slots fd = { s.slots fd with timerFlag := true } := by
    rw [hslots, Function.update_self]
  have hother : ∀ g, g ≠ fd → s'.slots g = s.slots g := by
    intro g hg
    rw [hslots, Function.update_of_ne hg]
  refine ⟨?_, ?_, ?_, ?_, ?_, ?_⟩
  · intro g hg
    dsimp only at hg
    rw [hq] at hg
    exact ht.queued g hg
  · intro w hw evs hevs
    dsimp only at hw
    rw [hk] at hw
    rcases List.mem_or_eq_of_mem_set hw with hold | rfl
    · exact ht.workers w hold evs hevs
    · cases hevs
  · intro g
    dsimp only
    rw [hm]
    by_cases hg : g = fd
    · exact fun _ _ => hg ▸ hsince
    · rw [hother g hg]
      exact ht.failure g
  · intro g hmain hflag hzero
    dsimp only at hmain hflag
    have hset := raisers_set .idle hi hk g
    rw [hzero] at hset
    by_cases hg : g = fd
    · rw [hg, hself] at hflag
      cases hflag
    · rw [hother g hg] at hmain hflag
      rw [hm] at hmain
      refine ht.success g hmain hflag ?_
      simpa [WorkerPc.raising, Ne.symm hg] using hset.symm
  · intro g
    dsimp only
    rw [hm]
    exact ht.clear g
  · intro g
    dsimp only
    rw [hm]
    exact ht.release g

/-- **A worker tells how its call has ended.** -/
theorem WorkerStep.told (h : Handshake s) (ht : Told since s) (hcfg : cfg.reactor = true)
    (hi : s.workers[i]? = some pc) (hs : WorkerStep cfg s pc e s' pc') :
    Told (track since e) { s' with workers := s'.workers.set i pc' } := by
  obtain ⟨-, hm, hk⟩ := hs.frame
  have hmem := List.mem_of_getElem? hi
  have htold := ht.workers pc hmem
  have hsame : ∀ g, (s.slots g).improv = (s.slots g).improv ∧
      (s.slots g).timerFlag = (s.slots g).timerFlag := fun _ => ⟨rfl, rfl⟩
  cases hs with
  | proactor hr => exact absurd (hr.symm.trans hcfg) Bool.false_ne_true
  | @take fd rest hq =>
      refine ht.neutral hi rfl rfl ?_ rfl ?_ hsame
      · intro g hg
        rw [hq]
        exact List.mem_cons_of_mem fd hg
      · intro evs hevs
        rw [ht.queued fd (by simp [hq])]
        exact Option.some.inj hevs
  | reactorRead | reactorWrite => exact ht.neutral hi rfl rfl (fun _ => id) rfl htold hsame
  | noRequest | request => exact ht.neutral hi rfl rfl (fun _ => id) rfl nofun hsame
  | readOk hr =>
      cases hr with
      | intro =>
          exact ht.result h hi rfl rfl rfl rfl rfl rfl (setSlot_same_flags _ rfl rfl)
  | readFail => exact ht.result h hi rfl rfl rfl rfl rfl rfl hsame
  | writeOk hw | writeFail hw =>
      obtain ⟨-, hm, hq, hk, -⟩ := hw.frame
      exact ht.result h hi rfl rfl hm hq hk rfl (h.write_flags hmem hw)
  | respond =>
      exact ht.neutral hi rfl rfl (fun _ => id) rfl nofun (setSlot_same_flags _ rfl rfl)
  | @rearmInput fd | @rearmOutput fd =>
      obtain ⟨ep, hep⟩ := s.modfd_eq fd _
      rw [hep]
      exact ht.neutral hi rfl rfl (fun _ => id) rfl nofun hsame
  | closeConn hpc | closeNothing hpc =>
      rcases hpc with rfl | ⟨_, rfl⟩
      · exact ht.neutral hi rfl rfl (fun _ => id) rfl nofun hsame
      · exact ht.neutral hi rfl rfl (fun _ => id) rfl nofun hsame
  | @closed fd =>
      exact ht.neutral hi rfl rfl (fun _ => id) rfl nofun
        (setSlot_same_flags { s.slots fd with sockfd := none } rfl rfl)
  | @writeMore fd e t hw =>
      have hquiet : track since e = since := by
        cases hw with
        | sent => rfl
      rw [hquiet]
      exact ht.neutral hi hm hk (fun g hg => hw.frame.2.2.1 ▸ hg) rfl htold (h.write_flags hmem hw)
  | received => exact ht.set_improv h hi rfl rfl rfl rfl rfl rfl rfl nofun
  | written => exact ht.set_improv h hi rfl rfl rfl rfl rfl rfl rfl nofun
  | failed =>
      exact ht.set_improv h hi rfl rfl rfl rfl rfl rfl rfl fun _ hevs => (Option.some.inj hevs).symm
  | flagging => exact ht.set_flag hi rfl rfl rfl rfl

end Worker

/-! ### Single steps -/

/-- The handshake depends on the flags, and not on the rest of the slots. -/
theorem Handshake.congr (h : Handshake s) (hm : s'.main = s.main) (hq : s'.queue = s.queue)
    (hk : s'.workers = s.workers)
    (hslots : ∀ g, (s'.slots g).improv = (s.slots g).improv ∧
      (s'.slots g).timerFlag = (s.slots g).timerFlag) : Handshake s' := by
  have htokens : ∀ g, s'.tokens g = s.tokens g := by
    intro g
    rw [Server.tokens, Server.tokens, hq, hk]
  have hraisers : ∀ g, s'.raisers g = s.raisers g := by
    intro g
    rw [Server.raisers, Server.raisers, hk]
  refine ⟨?_, ?_, ?_, ?_⟩
  · intro g
    rw [htokens, hm, (hslots g).1]
    exact h.tokens g
  · intro g
    rw [hm, (hslots g).1]
    exact h.improv g
  · intro g
    rw [hraisers, (hslots g).2]
    exact h.once g
  · intro g
    rw [hraisers, (hslots g).1, (hslots g).2, hm]
    exact h.raised g

/-- So does what it tells. -/
theorem Told.congr (ht : Told since s) (hm : s'.main = s.main) (hq : s'.queue = s.queue)
    (hk : s'.workers = s.workers)
    (hslots : ∀ g, (s'.slots g).improv = (s.slots g).improv ∧
      (s'.slots g).timerFlag = (s.slots g).timerFlag) : Told since s' := by
  refine ⟨?_, ?_, ?_, ?_, ?_, ?_⟩
  · rw [hq]
    exact ht.queued
  · rw [hk]
    exact ht.workers
  · intro g
    rw [hm, (hslots g).2]
    exact ht.failure g
  · intro g
    rw [hm, (hslots g).1, (hslots g).2, Server.raisers, hk]
    exact ht.success g
  · rw [hm]
    exact ht.clear
  · rw [hm]
    exact ht.release

/-- The queue is empty when a slot is handed over, so the slot is not refused. -/
theorem MainStep.not_refused (h : Handshake s) (hcfg : cfg.reactor = true)
    (hroom : 0 < cfg.maxRequests) (hs : MainStep cfg s e s') (fd : ℕ) : e ≠ .append fd false := by
  rintro rfl
  cases hs with
  | handOverFull _ hm hfull =>
      have hempty : s.queue = [] := by
        refine List.eq_nil_iff_forall_not_mem.2 ?_
        intro g hg
        have hpos := tokens_pos_of_queue hg
        rw [(h.none_of_polled (by rw [hm]; rfl) g).1] at hpos
        cases hpos
      rw [hempty, List.length_nil] at hfull
      omega
  | appendFull hr => exact absurd (hr.symm.trans hcfg) Bool.false_ne_true
  | writeMore _ hw | writeOk _ hw => cases hw

/-- **A patient step keeps the flags in line with the events.** -/
theorem FineStep.told {s s' : FineServer} (h : Handshake s.server) (ht : Told since s.server)
    (hcfg : cfg.reactor = true) (hroom : 0 < cfg.maxRequests) (hp : Patient s.server s'.server)
    (hs : FineStep cfg s e s') : Handshake s'.server ∧ Told (track since e) s'.server := by
  cases hs with
  | main hs =>
      have hnot := hs.not_refused h hcfg hroom
      exact ⟨hs.handshake h hcfg hnot hp, hs.told h ht hcfg hnot hp⟩
  | worker _ hi hs => exact ⟨hs.handshake h hcfg hi, hs.told h ht hcfg hi⟩
  | elapse d =>
      exact ⟨h.congr rfl rfl rfl fun _ => ⟨rfl, rfl⟩, ht.congr rfl rfl rfl fun _ => ⟨rfl, rfl⟩⟩
  | @init i fd _ hi =>
      obtain ⟨ep, hep⟩ := s.server.modfd_eq fd .input
      rw [hep]
      have hflags := @setSlot_same_flags { s.server with epoll := ep } fd
        { sockfd := (s.server.slots fd).sockfd, owner := (s.server.slots fd).owner
          improv := (s.server.slots fd).improv, timerFlag := (s.server.slots fd).timerFlag } rfl rfl
      exact ⟨h.congr rfl rfl rfl hflags, ht.congr rfl rfl rfl hflags⟩
  | @resetTimerFlag i fd _ hi =>
      -- the flag is down already
      obtain ⟨-, -, -, hflag⟩ := h.polling (List.mem_of_getElem? hi) rfl
      have hflags := @setSlot_same_flags s.server fd
        { s.server.slots fd with timerFlag := false } rfl hflag.symm
      exact ⟨h.congr rfl rfl rfl hflags, ht.congr rfl rfl rfl hflags⟩
  | @resetImprov i fd _ hi =>
      obtain ⟨-, himp, -, -⟩ := h.polling (List.mem_of_getElem? hi) rfl
      have hflags := @setSlot_same_flags s.server fd
        { s.server.slots fd with improv := false } himp.symm rfl
      exact ⟨h.neutral hi rfl rfl (fun _ => rfl) rfl hflags,
        ht.result h hi rfl rfl rfl rfl rfl rfl hflags⟩

/-- A result comes while the main thread polls. -/
theorem FineStep.awaited {s s' : FineServer} {ok : Bool} (h : Handshake s.server)
    (hs : FineStep cfg s (.ioDone fd ok) s') : s'.server.main = .poll fd := by
  cases hs with
  | main hs =>
      cases hs with
      | writeMore _ hw | writeOk _ hw => cases hw
  | worker _ hi hs =>
      obtain ⟨-, hm, -⟩ := hs.frame
      have hpoll : s.server.main = .poll fd := by
        cases hs with
        | readOk | readFail | writeOk | writeFail =>
            exact (h.polling (List.mem_of_getElem? hi) rfl).1
        | writeMore hw => cases hw
      exact hm.trans hpoll
  | resetImprov _ hi => exact (h.polling (List.mem_of_getElem? hi) rfl).1

/-- The test of `timer_flag`. -/
theorem MainStep.of_flagged (hs : MainStep cfg s e s') (hm : s.main = .flagged fd) :
    e = .dealTimer fd ∧ s'.main = .clear fd ∨ e = .quiet ∧ s'.main = .release fd := by
  cases hs with
  | flagged hm' =>
      cases hm.symm.trans hm'
      exact .inl ⟨rfl, rfl⟩
  | notFlagged hm' =>
      cases hm.symm.trans hm'
      exact .inr ⟨rfl, rfl⟩
  | dispatch _ hm' | handOver _ hm' | handOverFull _ hm' | input _ hm' | append _ hm'
  | appendFull _ hm' | output _ hm' => cases hm.symm.trans hm'
  | epollWait hm' | listen hm' | acceptFail hm' | acceptBusy hm' | accept hm' | hangup hm'
  | signal hm' | poll hm' | clear hm' | release hm' | readOk hm' | readFail hm' | writeMore hm'
  | writeOk hm' | writeFail hm' | loopEnd hm' | tick hm' | tickEnd hm' => cases hm.symm.trans hm'

/-! ### Runs -/

/-- The server before its first step. -/
def fineStart (threads : ℕ) : FineServer := { server := start threads }

variable {threads : ℕ} {evs : List Event} {t : FineServer}

/-- **Patient runs keep the flags in line with the events.** -/
theorem told_run (hcfg : cfg.reactor = true) (hroom : 0 < cfg.maxRequests)
    (hr : Run (PatientStep cfg) (fineStart threads) evs t) :
    Handshake t.server ∧ Told (sinceHandOver evs) t.server := by
  refine hr.invariant (P := fun evs t => Handshake t.server ∧ Told (sinceHandOver evs) t.server)
    ⟨handshake_start threads, (handshake_start threads).told rfl⟩ ?_
  intro evs t e t' _ ih hs
  rw [sinceHandOver_snoc]
  exact hs.1.told ih.1 ih.2 hcfg hroom hs.2

/-- In a patient run every result is answered. -/
theorem answered_run (hcfg : cfg.reactor = true) (hroom : 0 < cfg.maxRequests)
    (hr : Run (PatientStep cfg) (fineStart threads) evs t) : Answered evs t.server := by
  obtain ⟨h, ht⟩ := told_run hcfg hroom hr
  refine ⟨ht.release, ?_, ?_⟩
  · intro fd state hm
    have hnone := h.none_of_polled (by rw [hm]; rfl) fd
    exact ⟨hnone.2.1, hnone.2.2.2⟩
  · intro fd ok hlast
    cases hr with
    | nil => cases hlast
    | snoc hr hs =>
        rw [List.getLast?_concat] at hlast
        cases Option.some.inj hlast
        exact hs.1.awaited (told_run hcfg hroom hr).1

/-- A main thread that is not patient misses a failure. -/
theorem patient_of_answered {t' : FineServer} (hcfg : cfg.reactor = true)
    (hroom : 0 < cfg.maxRequests) (hr : Run (PatientStep cfg) (fineStart threads) evs t)
    (hs : FineStep cfg t e t') (ha : Answered (evs ++ [e]) t'.server) :
    Patient t.server t'.server := by
  intro fd hm hm' hmem
  have hsince := (told_run hcfg hroom hr).2.workers _ hmem _ rfl
  have hquiet : e = .quiet := by
    cases hs with
    | main hs =>
        rcases hs.of_flagged hm with ⟨-, hclear⟩ | ⟨he, -⟩
        · cases hm'.symm.trans hclear
        · exact he
    | worker _ _ hs =>
        have hframe := hs.frame.2.1
        cases (hm'.symm.trans hframe).trans hm
    | init | resetTimerFlag | elapse => rfl
    | resetImprov => cases hm'.symm.trans hm
  have hreleased := ha.released fd hm'
  rw [sinceHandOver_snoc, hquiet] at hreleased
  change sinceHandOver evs = _ ∨ sinceHandOver evs = _ at hreleased
  rw [hsince] at hreleased
  simp at hreleased

/-- **Every result is answered throughout a run exactly when the main thread is patient** in it. -/
theorem answered_iff_patient (hcfg : cfg.reactor = true) (hroom : 0 < cfg.maxRequests)
    (threads : ℕ) (evs : List Event) (s : FineServer) :
    Run (PatientStep cfg) (fineStart threads) evs s ↔
      Along (FineStep cfg) (fun evs s => Answered evs s.server) (fineStart threads) evs s :=
  Run.iff_along (fun _ _ _ hs => hs.1) (fun _ _ hr => answered_run hcfg hroom hr)
    fun _ _ _ _ hr hs ha => ⟨hs, patient_of_answered hcfg hroom hr hs ha⟩

/-- The reactor model. -/
def polling : Config := { reactor := true, edgeListen := false }

/-- A client connects and closes its side at once, so the worker fails to read.  It has set `improv`
and not yet `timer_flag`, and the main thread has seen `improv`. -/
theorem failed_read :
    ∃ evs s, Run (PatientStep polling) (fineStart 1) evs s ∧
      sinceHandOver evs = [.ioDone 5 false] ∧ s.server.main = .flagged 5 ∧
      s.server.workers = [.flagging 5] ∧ (s.server.slots 5).timerFlag = false ∧
      s.resets 0 = none := by
  have h : Run (PatientStep polling) (fineStart 1) _ _ :=
    .single ⟨.main (.epollWait rfl (by decide) (@deliverable_singleton _ .listen trivial)), nofun⟩
  have h := h.snoc ⟨.main (.listen rfl rfl), nofun⟩
  have h := h.snoc ⟨.main (@MainStep.accept _ _ 5 rfl rfl (by decide) (by decide)), nofun⟩
  have h := h.snoc ⟨.main (.loopEnd rfl rfl), nofun⟩
  have h := h.snoc
    ⟨.main (.epollWait rfl (by decide) (@deliverable_singleton _ (.input 5) rfl)), nofun⟩
  have h := h.snoc ⟨.main (.dispatch rfl rfl (.inl ⟨rfl, rfl⟩)), nofun⟩
  have h := h.snoc ⟨.main (.handOver rfl rfl (by decide)), nofun⟩
  have h := h.snoc ⟨@FineStep.worker _ _ _ _ 0 _ _ rfl rfl (.take rfl), nofun⟩
  have h := h.snoc ⟨@FineStep.worker _ _ _ _ 0 _ _ rfl rfl (.reactorRead rfl rfl), nofun⟩
  have h := h.snoc ⟨@FineStep.worker _ _ _ _ 0 _ _ rfl rfl .readFail, nofun⟩
  have h := h.snoc ⟨@FineStep.worker _ _ _ _ 0 _ _ rfl rfl .failed, nofun⟩
  have h := h.snoc ⟨.main (.poll rfl rfl), nofun⟩
  exact ⟨_, _, h, rfl, rfl, rfl, rfl, rfl⟩

/-- The main thread waits until the worker has set `timer_flag`. -/
theorem answered_iff_patient_read :
    ∃ evs s, Along (FineStep polling) (fun evs s => Answered evs s.server) (fineStart 1) evs s ∧
      s.server.main = .release 5 := by
  obtain ⟨evs, s, h, -, hm, hk, hflag, hreset⟩ := failed_read
  have h := h.snoc ⟨@FineStep.worker _ _ _ _ 0 _ _ hreset (by rw [hk]; rfl) .flagging,
    fun _ _ hm' => by cases hm'.symm.trans hm⟩
  have h := h.snoc ⟨.main (@MainStep.flagged _ _ 5 hm (by simp)), nofun⟩
  have h := h.snoc ⟨.main (.clear rfl), nofun⟩
  exact ⟨_, _, (answered_iff_patient rfl (by decide) 1 _ _).1 h, rfl⟩

/-- The main thread tests `timer_flag` before the worker has set it, and goes on. -/
theorem not_answered :
    ¬ ∀ (evs : List Event) (s : FineServer), Run (FineStep polling) (fineStart 1) evs s →
      Answered evs s.server := by
  intro hall
  obtain ⟨evs, s, h, hsince, hm, -, hflag, -⟩ := failed_read
  have h := (h.mono fun _ _ _ hs => hs.1).snoc (.main (.notFlagged hm hflag))
  have hreleased := (hall _ _ h).released 5 rfl
  rw [sinceHandOver_snoc, hsince] at hreleased
  simp [track] at hreleased

end Gateway.Web
