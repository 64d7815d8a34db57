/-
Reading from the socket, in both trigger modes.

`read_once` runs on each notification of `epoll`.  With level triggering it calls `recv` once; with
edge triggering it calls `recv` until nothing is left.  The socket is the bytes that have arrived
and were not read; bytes may arrive at any time, also between two calls of `recv`, and a
notification may find nothing.  The peer does not close and there is no error.

Main definitions:

* `Gateway.HttpIn` — the read buffer as a block with `m_read_idx`, and `Gateway.HttpIn.received` —
  what `read_once` does with an answer of `recv`;
* `Gateway.Link`, `Gateway.Link.Step` — the connection and its socket, one action at a time;
* `Gateway.Link.Kept` — what is promised of a connection, `Gateway.Link.Same` — of two;
* `Gateway.Link.Spoils` — the actions after which `read_once` returns `false`.

Main results:

* `Gateway.HttpIn.store_spec` — **a `recv` appends** to the bytes that are stored;
* `Gateway.Link.closed_of_spoils`, `Gateway.Link.Sound.step` — what an action does to the promise;
* `Gateway.Link.kept_iff` — **when a connection keeps the promise**;
* `Gateway.Link.read_once_agrees` — **when both modes do, and read the same**.
-/

import InferenceGateway.EventSystem
import InferenceGateway.HttpBuffer
import InferenceGateway.HttpFragment

set_option relaxedAutoImplicit false
set_option autoImplicit false

namespace Gateway

open HttpConn (feed fresh outcome)

/-! ### `read_once` -/

/-- `m_TRIGMode`. -/
inductive TrigMode
  | lt | et
  deriving DecidableEq

/-- What `recv` returns: a number of bytes and the bytes, -1 with `EAGAIN`, or zero. -/
inductive Answer
  | bytes (q : Bytes)
  | again
  | zero
  deriving DecidableEq

/-- `bytes_read`. -/
def Answer.bytesRead : Answer → ℤ
  | bytes q => q.length
  | again => -1
  | zero => 0

/-- Where `read_once` goes on: at the next `recv`, or to its caller. -/
inductive Flow
  | recv
  | returns (value : Bool)
  deriving DecidableEq

/-- `m_read_buf` with its size, and `m_read_idx`. -/
structure HttpIn where
  readBuf : Bytes
  readBufSize : ℕ
  readIdx : ℤ
  deriving DecidableEq

namespace HttpIn

/-- The buffer that `init()` makes. -/
def init (size : ℕ) : HttpIn where
  readBuf := List.replicate size 0
  readBufSize := size
  readIdx := 0

/-- The test at the beginning of `read_once`. -/
def full (c : HttpIn) : Bool := c.readIdx ≥ c.readBufSize

/-- The third argument of `recv`. -/
def space (c : HttpIn) : ℤ := c.readBufSize - c.readIdx

/-- `recv` writes what it returns to `m_read_buf + m_read_idx`. -/
def store (c : HttpIn) : Answer → Except Fault HttpIn
  | .bytes q => do return { c with readBuf := ← poke c.readBuf c.readIdx q }
  | _ => .ok c

/-- What `read_once` does with an answer of `recv`. -/
def received (mode : TrigMode) (c : HttpIn) (a : Answer) : Except Fault (Flow × HttpIn) := do
  let c ← c.store a
  match mode with
  | .lt =>
      let c := { c with readIdx := c.readIdx + a.bytesRead }
      if a.bytesRead ≤ 0 then return (.returns false, c) else return (.returns true, c)
  | .et =>
      if a.bytesRead = -1 then return (.returns true, c)
      else if a.bytesRead = 0 then return (.returns false, c)
      else return (.recv, { c with readIdx := c.readIdx + a.bytesRead })

/-- The bytes that are stored. -/
def stored (c : HttpIn) : Bytes := c.readBuf.take c.readIdx.toNat

/-- The positions are in order. -/
structure WellPlaced (c : HttpIn) : Prop where
  block : c.readBuf.length = c.readBufSize
  nonneg : 0 ≤ c.readIdx
  le_size : c.readIdx ≤ c.readBufSize

section Received

variable {c : HttpIn} {q : Bytes}

theorem WellPlaced.length_stored (h : c.WellPlaced) : c.readIdx = c.stored.length := by
  obtain ⟨hblock, hnonneg, hle⟩ := h
  rw [stored, List.length_take]
  omega

theorem wellPlaced_init (size : ℕ) : (init size).WellPlaced where
  block := List.length_replicate
  nonneg := le_refl _
  le_size := by
    change (0 : ℤ) ≤ (size : ℤ)
    omega

/-- **A `recv` appends** its bytes to those that are stored, and stays in the buffer. -/
theorem store_spec (h : c.WellPlaced) (hq : (q.length : ℤ) ≤ c.space) :
    ∃ c', c.store (.bytes q) = .ok c' ∧ c'.readBufSize = c.readBufSize ∧
      c'.readIdx = c.readIdx ∧ ({ c' with readIdx := c.readIdx + q.length } : HttpIn).WellPlaced ∧
      ({ c' with readIdx := c.readIdx + q.length } : HttpIn).stored = c.stored ++ q := by
  obtain ⟨hblock, hnonneg, hle⟩ := h
  obtain ⟨i, hi⟩ := Int.eq_ofNat_of_zero_le hnonneg
  unfold space at hq
  have hfit : i + q.length ≤ c.readBuf.length := by omega
  have hpoke := poke_eq c.readBuf i q hfit
  refine ⟨{ c with readBuf := c.readBuf.take i ++ q ++ c.readBuf.drop (i + q.length) }, ?_, rfl,
    rfl, ⟨?_, ?_, ?_⟩, ?_⟩
  · rw [store, hi, hpoke]
    rfl
  · simp only [List.length_append, List.length_take, List.length_drop]
    omega
  · change 0 ≤ c.readIdx + q.length
    omega
  · change c.readIdx + q.length ≤ c.readBufSize
    omega
  · have hlen : (c.readBuf.take i ++ q).length = i + q.length := by
      rw [List.length_append, List.length_take, Nat.min_eq_left (by omega)]
    have hnat : (c.readIdx + q.length).toNat = (c.readBuf.take i ++ q).length := by omega
    have hidx : c.readIdx.toNat = i := by omega
    rw [stored, stored, hidx, hnat, List.take_left]

/-- An answer with bytes: level-triggered reading returns, edge-triggered reading goes on. -/
theorem received_bytes (mode : TrigMode) (h : c.WellPlaced) (hne : q ≠ [])
    (hq : (q.length : ℤ) ≤ c.space) :
    ∃ c', c.received mode (.bytes q) =
        .ok (match mode with | .lt => .returns true | .et => .recv, c') ∧
      c'.readBufSize = c.readBufSize ∧ c'.WellPlaced ∧ c'.stored = c.stored ++ q := by
  obtain ⟨c', hstore, hsize, hidx, hw, hstored⟩ := store_spec h hq
  have hpos := List.length_pos_iff.2 hne
  refine ⟨{ c' with readIdx := c.readIdx + q.length }, ?_, hsize, hw, hstored⟩
  cases mode with
  | lt =>
      have hgo : ¬ (Answer.bytes q).bytesRead ≤ 0 := by
        change ¬ (q.length : ℤ) ≤ 0
        omega
      simp only [received, hstore, bind, Except.bind, if_neg hgo, hidx]
      rfl
  | et =>
      have hminus : ¬ (Answer.bytes q).bytesRead = -1 := by
        change ¬ (q.length : ℤ) = -1
        omega
      have hzero : ¬ (Answer.bytes q).bytesRead = 0 := by
        change ¬ (q.length : ℤ) = 0
        omega
      simp only [received, hstore, bind, Except.bind, if_neg hminus, if_neg hzero, hidx]
      rfl

/-- Edge-triggered reading ends when nothing is left. -/
theorem received_again (c : HttpIn) : c.received .et .again = .ok (.returns true, c) := rfl

end Received

end HttpIn

/-! ### The connection and its socket -/

/-- Where a connection stands: before `read_once`, before a `recv`, closed because `read_once`
returned `false`, or out of its buffer. -/
inductive LinkPc
  | idle | receiving | closed
  | faulted (f : Fault)
  deriving DecidableEq

/-- A connection and the bytes in its socket.  `calls` has what each call of `read_once` that
returned `true` has stored, and `call` what the running one has. -/
structure Link where
  conn : HttpIn
  pending : Bytes := []
  pc : LinkPc := .idle
  calls : List Bytes := []
  call : Bytes := []

/-- Bytes arrive, `epoll` notifies, `recv` returns. -/
inductive LinkEvent
  | arrive (q : Bytes)
  | notify
  | recv (a : Answer)

/-- The bytes that an event brings. -/
def LinkEvent.brings : LinkEvent → Bytes
  | arrive q => q
  | notify => []
  | recv _ => []

namespace Link

def start (size : ℕ) : Link := { conn := .init size }

/-- What `recv` may return, and what it leaves in the socket.  It returns bytes if there are some
and the caller has space; it returns zero only to a caller without space. -/
def Answers (s : Link) (rest : Bytes) : Answer → Prop
  | .bytes q => q ≠ [] ∧ (q.length : ℤ) ≤ s.conn.space ∧ s.pending = q ++ rest
  | .again => s.pending = [] ∧ rest = []
  | .zero => s.conn.space = 0 ∧ rest = s.pending

/-- The bytes of an answer. -/
def got : Answer → Bytes
  | .bytes q => q
  | _ => []

/-- `read_once` goes on, or its caller does: the connection is closed after `false`. -/
def after (s : Link) (a : Answer) (rest : Bytes) : Except Fault (Flow × HttpIn) → Link
  | .error f => { s with pc := .faulted f }
  | .ok (.recv, c) => { s with conn := c, pending := rest, call := s.call ++ got a }
  | .ok (.returns true, c) =>
      { conn := c, pending := rest, pc := .idle, calls := s.calls ++ [s.call ++ got a] }
  | .ok (.returns false, c) => { s with conn := c, pending := rest, pc := .closed }

/-- One action. -/
inductive Step (mode : TrigMode) : Link → LinkEvent → Link → Prop
  | arrive (s : Link) (q : Bytes) :
      Step mode s (.arrive q) { s with pending := s.pending ++ q }
  | refuse {s : Link} : s.pc = .idle → s.conn.full = true →
      Step mode s .notify { s with pc := .closed }
  | enter {s : Link} : s.pc = .idle → s.conn.full = false →
      Step mode s .notify { s with pc := .receiving }
  | recv {s : Link} {a : Answer} {rest : Bytes} : s.pc = .receiving → s.Answers rest a →
      Step mode s (.recv a) (s.after a rest (s.conn.received mode a))

abbrev Run (mode : TrigMode) (size : ℕ) (evs : List LinkEvent) (s : Link) : Prop :=
  EventSystem.Run (Step mode) (start size) evs s

/-- The bytes that have arrived. -/
def arrived (evs : List LinkEvent) : Bytes := evs.flatMap LinkEvent.brings

/-- What is promised of a connection: it is open, and the stored bytes are those that arrived, up
to what still is in the socket; `m_read_idx` counts them and does not pass the end. -/
structure Kept (stream : Bytes) (s : Link) : Prop where
  isOpen : s.pc = .idle ∨ s.pc = .receiving
  count : s.conn.readIdx = s.conn.stored.length
  le_size : s.conn.readIdx ≤ s.conn.readBufSize
  bytes : s.conn.stored ++ s.pending = stream

/-- What is promised of two connections that have read everything: the same bytes, and the same
request when `process_read` runs after each call, and when it runs on all the bytes. -/
def Same (size : ℕ) (s s' : Link) : Prop :=
  s.pending = [] → s'.pending = [] →
    s.conn.stored = s'.conn.stored ∧ s.conn.readIdx = s'.conn.readIdx ∧
      (s.pc = .idle → s'.pc = .idle →
        outcome (feed (fresh size) s.calls) = outcome (feed (fresh size) s'.calls) ∧
          outcome (feed (fresh size) s.calls) =
            outcome ((fresh size).append s.conn.stored).processRead)

/-- The actions that end the connection: a notification when the buffer is full; in level-triggered
mode one that finds nothing; in either mode a zero for a caller without space. -/
def Spoils (mode : TrigMode) (s : Link) : LinkEvent → Prop
  | .arrive _ => False
  | .notify => s.conn.full = true
  | .recv (.bytes _) => False
  | .recv .again => mode = .lt
  | .recv .zero => True

/-- A run without such an action. -/
def Unspoiled (mode : TrigMode) (size : ℕ) (evs : List LinkEvent) (s : Link) : Prop :=
  EventSystem.Run (EventSystem.Guarded (Step mode) fun s e => ¬ Spoils mode s e) (start size) evs s

/-! ### Single actions -/

section Steps

variable {mode : TrigMode} {size : ℕ} {stream : Bytes} {s s' : Link} {e : LinkEvent}

/-- What an open connection has in order, besides what is promised. -/
structure Sound (size : ℕ) (stream : Bytes) (s : Link) : Prop where
  isOpen : s.pc = .idle ∨ s.pc = .receiving
  placed : s.conn.WellPlaced
  size_eq : s.conn.readBufSize = size
  bytes : s.conn.stored ++ s.pending = stream
  history : s.calls.flatten ++ s.call = s.conn.stored
  between : s.pc = .idle → s.call = []

theorem Sound.kept (h : Sound size stream s) : Kept stream s where
  isOpen := h.isOpen
  count := h.placed.length_stored
  le_size := h.placed.le_size
  bytes := h.bytes

theorem sound_start (size : ℕ) : Sound size [] (start size) where
  isOpen := .inl rfl
  placed := HttpIn.wellPlaced_init size
  size_eq := rfl
  bytes := rfl
  history := rfl
  between := fun _ => rfl

/-- **An answer that does not spoil the connection**: bytes in either mode, and nothing left in
edge-triggered mode. -/
theorem Sound.recv {a : Answer} {rest : Bytes} (h : Sound size stream s) (hpc : s.pc = .receiving)
    (ha : s.Answers rest a) (hok : ¬ Spoils mode s (.recv a)) :
    Sound size stream (s.after a rest (s.conn.received mode a)) := by
  obtain ⟨hopen, hw, hsize, hbytes, hhistory, -⟩ := h
  cases a with
  | bytes q =>
      obtain ⟨hne, hq, hpending⟩ := ha
      obtain ⟨c', hreceived, hsize', hw', hstored⟩ := HttpIn.received_bytes mode hw hne hq
      rw [hpending, ← List.append_assoc, ← hstored] at hbytes
      have hcalls : s.calls.flatten ++ (s.call ++ q) = c'.stored := by
        rw [← List.append_assoc, hhistory, hstored]
      rw [hreceived]
      cases mode with
      | lt =>
          refine ⟨.inl rfl, hw', hsize'.trans hsize, hbytes, ?_, fun _ => rfl⟩
          simpa [after, got] using hcalls
      | et =>
          refine ⟨hopen, hw', hsize'.trans hsize, hbytes, hcalls, fun hidle => ?_⟩
          change s.pc = .idle at hidle
          rw [hpc] at hidle
          cases hidle
  | again =>
      obtain ⟨hpending, rfl⟩ := ha
      rw [hpending] at hbytes
      cases mode with
      | lt => exact absurd rfl hok
      | et =>
          rw [HttpIn.received_again]
          refine ⟨.inl rfl, hw, hsize, hbytes, ?_, fun _ => rfl⟩
          simpa [after, got] using hhistory
  | zero => exact absurd trivial hok

/-- **An action that does not spoil the connection** keeps it in order. -/
theorem Sound.step (h : Sound size stream s) (hs : Step mode s e s') (hok : ¬ Spoils mode s e) :
    Sound size (stream ++ e.brings) s' := by
  cases hs with
  | arrive q =>
      refine ⟨h.isOpen, h.placed, h.size_eq, ?_, h.history, h.between⟩
      rw [← h.bytes]
      exact (List.append_assoc _ _ _).symm
  | refuse hpc hfull => exact absurd hfull hok
  | enter hpc hfull =>
      rw [LinkEvent.brings, List.append_nil]
      refine ⟨.inr rfl, h.placed, h.size_eq, h.bytes, h.history, nofun⟩
  | recv hpc ha =>
      rw [LinkEvent.brings, List.append_nil]
      exact h.recv hpc ha hok

/-- **An action that spoils the connection** closes it. -/
theorem closed_of_spoils (hs : Step mode s e s') (hspoils : Spoils mode s e) : s'.pc = .closed := by
  cases hs with
  | arrive q => cases hspoils
  | refuse hpc hfull => rfl
  | enter hpc hfull =>
      change s.conn.full = true at hspoils
      rw [hfull] at hspoils
      cases hspoils
  | @recv a rest hpc ha =>
      cases a with
      | bytes q => cases hspoils
      | again =>
          obtain rfl : mode = .lt := hspoils
          rfl
      | zero =>
          cases mode with
          | lt => rfl
          | et => rfl

/-- A closed connection stays closed. -/
theorem closed_step (h : s.pc = .closed) (hs : Step mode s e s') : s'.pc = .closed := by
  cases hs with
  | arrive q => exact h
  | refuse hpc _ => rfl
  | enter hpc _ =>
      rw [h] at hpc
      cases hpc
  | recv hpc _ =>
      rw [h] at hpc
      cases hpc

end Steps

/-! ### Runs -/

section Runs

variable {mode : TrigMode} {size : ℕ} {evs : List LinkEvent} {s : Link}

theorem arrived_snoc (evs : List LinkEvent) (e : LinkEvent) :
    arrived (evs ++ [e]) = arrived evs ++ e.brings := by
  rw [arrived, List.flatMap_append, List.flatMap_singleton]
  rfl

/-- A run without a spoiling action. -/
theorem sound_run (hr : Unspoiled mode size evs s) : Sound size (arrived evs) s := by
  refine hr.invariant (P := fun evs s => Sound size (arrived evs) s) (sound_start size) ?_
  intro evs s e s' _ ih hs
  rw [arrived_snoc]
  exact ih.step hs.1 hs.2

/-- A run without a spoiling action, or a closed connection. -/
theorem unspoiled_or_closed (hr : Run mode size evs s) :
    Unspoiled mode size evs s ∨ s.pc = .closed := by
  refine hr.invariant (P := fun evs s => Unspoiled mode size evs s ∨ s.pc = .closed) (.inl .nil) ?_
  rintro evs s e s' _ (hgood | hclosed) hs
  · by_cases hspoils : Spoils mode s e
    · exact .inr (closed_of_spoils hs hspoils)
    · exact .inl (hgood.snoc ⟨hs, hspoils⟩)
  · exact .inr (closed_step hclosed hs)

/-- **A connection keeps the promise exactly in the runs without a spoiling action.** -/
theorem kept_iff (hr : Run mode size evs s) :
    Kept (arrived evs) s ↔ Unspoiled mode size evs s := by
  refine ⟨fun hkept => ?_, fun hgood => (sound_run hgood).kept⟩
  rcases unspoiled_or_closed hr with hgood | hclosed
  · exact hgood
  · rcases hkept.isOpen with h | h
    all_goals
      rw [hclosed] at h
      cases h

end Runs

/-! ### Two connections -/

/-- What the calls of `read_once` have stored, one after the other, is parsed as the whole. -/
theorem Sound.feed {size : ℕ} {stream : Bytes} {s : Link} (h : Sound size stream s)
    (hidle : s.pc = .idle) :
    outcome (feed (fresh size) s.calls) =
      outcome ((fresh size).append s.conn.stored).processRead := by
  have hflat : s.calls.flatten = s.conn.stored := by
    have := h.history
    rwa [h.between hidle, List.append_nil] at this
  have hfit : s.calls.flatten.length ≤ size := by
    have hcount := h.placed.length_stored
    have hle := h.placed.le_size
    rw [hflat]
    have := h.size_eq
    omega
  rw [← hflat]
  exact HttpConn.outcome_feed s.calls (HttpConn.wellPlaced_fresh size)
    (HttpConn.fits_fresh_append hfit) (HttpConn.fresh_idle size)

/-- Two connections in order that were sent the same bytes. -/
theorem Sound.same {size : ℕ} {stream : Bytes} {s s' : Link} (h : Sound size stream s)
    (h' : Sound size stream s') : Same size s s' := by
  intro hpending hpending'
  have hstored : s.conn.stored = s'.conn.stored := by
    have hs := h.bytes
    have hs' := h'.bytes
    rw [hpending, List.append_nil] at hs
    rw [hpending', List.append_nil] at hs'
    rw [hs, hs']
  refine ⟨hstored, ?_, fun hidle hidle' => ⟨?_, h.feed hidle⟩⟩
  · rw [h.placed.length_stored, h'.placed.length_stored, hstored]
  · rw [h.feed hidle, h'.feed hidle', hstored]

/-! ### Main result -/

/-- **A notification that finds nothing** closes a level-triggered connection, with `m_read_idx`
at -1. -/
theorem read_once_closes : ¬ ∀ (size : ℕ) (evs evs' : List LinkEvent) (s s' : Link),
    Run .lt size evs s → Run .et size evs' s' → arrived evs = arrived evs' →
      (arrived evs).length ≤ size →
        Kept (arrived evs) s ∧ Kept (arrived evs) s' ∧ Same size s s' := by
  intro hall
  have hr : ∀ mode, Run mode 8 [.notify, .recv .again]
      (after { start 8 with pc := .receiving } .again [] (((start 8).conn).received mode .again)) :=
    fun mode => .snoc (.snoc .nil (.enter rfl rfl)) (.recv rfl ⟨rfl, rfl⟩)
  obtain ⟨hkept, -, -⟩ := hall 8 _ _ _ _ (hr .lt) (hr .et) rfl (by decide)
  rcases hkept.isOpen with h | h
  all_goals cases h

/-- **A level-triggered and an edge-triggered connection** that are sent the same bytes stay open,
store them in order and hand `process_read` the same request, if and only if no action of either
run makes `read_once` return `false`. -/
theorem read_once_agrees (size : ℕ) {evs evs' : List LinkEvent} {s s' : Link}
    (hr : Run .lt size evs s) (hr' : Run .et size evs' s') (hsent : arrived evs = arrived evs') :
    Kept (arrived evs) s ∧ Kept (arrived evs) s' ∧ Same size s s' ↔
      Unspoiled .lt size evs s ∧ Unspoiled .et size evs' s' := by
  have hlt := kept_iff hr
  have het := kept_iff hr'
  rw [← hsent] at het
  constructor
  · rintro ⟨hkept, hkept', -⟩
    exact ⟨hlt.1 hkept, het.1 hkept'⟩
  · rintro ⟨hgood, hgood'⟩
    have hsound := sound_run hgood
    have hsound' := sound_run hgood'
    rw [← hsent] at hsound'
    exact ⟨hlt.2 hgood, het.2 hgood', hsound.same hsound'⟩

/-- A connection whose buffer is filled exactly by one call. -/
def filled : Link where
  conn := { readBuf := [71, 69], readBufSize := 2, readIdx := 2 }
  calls := [[71, 69]]

/-- Both modes fill the buffer and stay open. -/
theorem read_once_agrees_filled : Kept [71, 69] filled ∧ Kept [71, 69] filled ∧
    Same 2 filled filled := by
  -- the call has begun, and then has read everything
  have hbegun : ∀ mode, Unspoiled mode 2 [.arrive [71, 69], .notify]
      { conn := .init 2, pending := [71, 69], pc := .receiving } :=
    fun _ => .snoc (.snoc .nil ⟨.arrive _ _, nofun⟩) ⟨.enter rfl rfl, nofun⟩
  have hbytes : Answers { conn := .init 2, pending := [71, 69], pc := .receiving } []
      (.bytes [71, 69]) := ⟨nofun, by decide, rfl⟩
  have hnothing : Answers { filled with pc := .receiving, calls := [], call := [71, 69] } []
      .again := ⟨rfl, rfl⟩
  have hlt : Unspoiled .lt 2 [.arrive [71, 69], .notify, .recv (.bytes [71, 69])] filled :=
    (hbegun .lt).snoc ⟨.recv rfl hbytes, nofun⟩
  have hread : Unspoiled .et 2 [.arrive [71, 69], .notify, .recv (.bytes [71, 69])]
      { filled with pc := .receiving, calls := [], call := [71, 69] } :=
    (hbegun .et).snoc ⟨.recv rfl hbytes, nofun⟩
  have het : Unspoiled .et 2
      [.arrive [71, 69], .notify, .recv (.bytes [71, 69]), .recv .again] filled :=
    hread.snoc ⟨.recv rfl hnothing, nofun⟩
  exact (read_once_agrees 2 hlt.of_guarded het.of_guarded rfl).2 ⟨hlt, het⟩

end Link

end Gateway
