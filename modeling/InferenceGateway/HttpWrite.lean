/-
How a response is sent.

`http_conn::write` hands the response to `writev`, possibly in many pieces and over many calls.  A
run of `write` is a list of events: the calls, and the outcome of each `writev`.

* `Gateway.HttpConn.advance` — the counters after a `writev`;
* `Gateway.Sending`, `Gateway.WriteStep` — the loop of `write`, with the bytes that the kernel got;
* `Gateway.Sending.Delivers` — the state of a response that arrives;
* `Gateway.partial_writes` — when the response arrives.
-/

import InferenceGateway.EventSystem
import InferenceGateway.HttpParse
import InferenceGateway.HttpResponse

set_option relaxedAutoImplicit false
set_option autoImplicit false

namespace Gateway

open EventSystem

namespace HttpConn

/-! ### Sending -/

/-- The counters of `write` after a `writev` that took `temp` bytes. -/
def advance (c : HttpConn) (temp : ℕ) : HttpConn :=
  let c := { c with bytesHaveSend := c.bytesHaveSend + temp, bytesToSend := c.bytesToSend - temp }
  if c.iov0Len ≤ c.bytesHaveSend then
    { c with
      iov0Len := 0, iov1Base := c.bytesHaveSend - c.writeIdx, iov1Len := c.bytesToSend }
  else { c with iov0Base := c.bytesHaveSend, iov0Len := c.iov0Len - c.bytesHaveSend }

end HttpConn

/-- What `writev` does: it takes bytes, or it fails with `EAGAIN`, or with another error. -/
inductive Writev
  | sent (n : ℕ)
  | again
  | failed
  deriving DecidableEq

/-- Where a response is: between two calls of `write`, in its loop before the next `writev`, or
past the call that ended it. -/
inductive WritePhase
  | waiting | sending
  | finished (keepAlive : Bool)
  | failed
  deriving DecidableEq

/-- A connection that sends, with the bytes that the kernel has taken. -/
structure Sending where
  conn : HttpConn
  wire : Bytes := []
  phase : WritePhase := .waiting
  deriving DecidableEq

inductive WriteEvent
  | call
  | writev (outcome : Writev)
  deriving DecidableEq

namespace Sending

/-- The loop of `write` after a `writev` that took `n` bytes. -/
def take (s : Sending) (n : ℕ) : Sending :=
  let conn := s.conn.advance n
  let wire := s.wire ++ (s.conn.writeBuf.drop s.conn.iov0Base).take n
  if conn.bytesToSend ≤ 0 then
    if conn.linger then { conn := conn.init, wire := wire, phase := .finished true }
    else { conn := conn, wire := wire, phase := .finished false }
  else { conn := conn, wire := wire, phase := .sending }

end Sending

/-- The steps of `write`.  In the single-`iovec` mode `writev` takes at most `iov_len` bytes, and
none only if there are none. -/
inductive WriteStep : Sending → WriteEvent → Sending → Prop
  | call {s : Sending} :
      s.phase = .waiting → s.conn.bytesToSend ≠ 0 → WriteStep s .call { s with phase := .sending }
  | callDone {s : Sending} :
      s.phase = .waiting → s.conn.bytesToSend = 0 →
      WriteStep s .call { s with conn := s.conn.init, phase := .finished true }
  | sent {s : Sending} {n : ℕ} :
      s.phase = .sending → s.conn.iovCount = 1 → n ≤ s.conn.iov0Len →
      (n = 0 → s.conn.iov0Len = 0) → WriteStep s (.writev (.sent n)) (s.take n)
  | again {s : Sending} :
      s.phase = .sending → WriteStep s (.writev .again) { s with phase := .waiting }
  | failed {s : Sending} :
      s.phase = .sending → WriteStep s (.writev .failed) { s with phase := .failed }

/-! ### The state of a response -/

/-- The counts of the calls of `writev` that took something, in order. -/
def counts (evs : List WriteEvent) : List ℕ :=
  evs.filterMap fun e =>
    match e with
    | .writev (.sent n) => if n = 0 then none else some n
    | _ => none

/-- The first two counts, if there are two, are the whole response. -/
def FirstTwo (len : ℕ) (ks : List ℕ) : Prop :=
  ∀ k₁ k₂ rest, ks = k₁ :: k₂ :: rest → k₁ + k₂ = len

namespace Sending

/-- **The response arrives.**  The kernel has got the first `bytes_have_send` bytes of it; the next
`writev` is asked for the rest, and there is a rest; and when `write` has finished, the kernel has
got all of it. -/
structure Delivers (resp : Bytes) (s : Sending) : Prop where
  wire : (∀ k, s.phase ≠ .finished k) → s.wire = resp.take s.conn.bytesHaveSend
  covers : s.phase = .sending →
    s.conn.bytesHaveSend < resp.length ∧ s.conn.iov0Base = s.conn.bytesHaveSend ∧
      s.conn.iov0Base + s.conn.iov0Len = resp.length
  finished : ∀ k, s.phase = .finished k → s.wire = resp

/-- What `m_iv[0]` covers after some counts.  The second one is subtracted together with the first,
and from then on the range is too short. -/
def Range (len : ℕ) (conn : HttpConn) : List ℕ → Prop
  | [] => conn.iov0Base = 0 ∧ conn.iov0Len = len
  | [k] => 0 < k ∧ conn.iov0Base = k ∧ conn.iov0Len = len - k
  | k₁ :: k₂ :: _ =>
      k₁ + k₂ < len ∧ conn.bytesHaveSend + conn.iov0Len < len ∧
        (conn.iov0Len = 0 ∨ conn.iov0Base = conn.bytesHaveSend)

/-- A response of which some bytes are still to be sent. -/
structure Underway (resp : Bytes) (ks : List ℕ) (s : Sending) : Prop where
  count : s.conn.iovCount = 1
  buf : s.conn.writeBuf = resp
  haveSend : s.conn.bytesHaveSend = ks.sum
  rest : ks.sum < resp.length
  toSend : s.conn.bytesToSend = resp.length - ks.sum
  wire : s.wire = resp.take ks.sum
  range : Range resp.length s.conn ks

/-- Calls and refusals change neither the counters nor the range. -/
theorem Underway.phase {resp : Bytes} {ks : List ℕ} {s : Sending} (h : Underway resp ks s)
    (p : WritePhase) : Underway resp ks { s with phase := p } :=
  ⟨h.count, h.buf, h.haveSend, h.rest, h.toSend, h.wire, h.range⟩

/-- The invariant of a run of `write`. -/
def Tracked (resp : Bytes) (ks : List ℕ) (s : Sending) : Prop :=
  match s.phase with
  | .waiting | .sending => Underway resp ks s
  | .finished _ => s.wire = resp ∧ FirstTwo resp.length ks
  | .failed => s.wire = resp.take s.conn.bytesHaveSend

/-! ### One `writev` -/

section Advance

variable {len n : ℕ} {conn : HttpConn} {ks : List ℕ}

theorem advance_short (h : conn.iov0Len ≤ conn.bytesHaveSend + n) :
    (conn.advance n).iov0Len = 0 ∧ (conn.advance n).iov0Base = conn.iov0Base := by
  unfold HttpConn.advance
  dsimp only
  rw [if_pos h]
  exact ⟨rfl, rfl⟩

theorem advance_long (h : conn.bytesHaveSend + n < conn.iov0Len) :
    (conn.advance n).iov0Len = conn.iov0Len - (conn.bytesHaveSend + n) ∧
      (conn.advance n).iov0Base = conn.bytesHaveSend + n := by
  unfold HttpConn.advance
  dsimp only
  rw [if_neg (not_le.2 h)]
  exact ⟨rfl, rfl⟩

theorem advance_rest (conn : HttpConn) (n : ℕ) :
    (conn.advance n).bytesHaveSend = conn.bytesHaveSend + n ∧
      (conn.advance n).bytesToSend = conn.bytesToSend - n ∧
      (conn.advance n).writeBuf = conn.writeBuf ∧ (conn.advance n).iovCount = conn.iovCount := by
  unfold HttpConn.advance
  dsimp only
  split <;> exact ⟨rfl, rfl, rfl, rfl⟩

/-- A `writev` that takes something takes it from the first byte that was not sent. -/
theorem Range.base (h : Range len conn ks) (hsum : conn.bytesHaveSend = ks.sum)
    (hlt : ks.sum < len) (hn : 0 < n) (hle : n ≤ conn.iov0Len) :
    conn.iov0Base = ks.sum ∧ ks.sum + n ≤ len := by
  match ks, h with
  | [], h =>
      obtain ⟨h₁, h₂⟩ := h
      simp only [List.sum_nil]
      omega
  | [k], h =>
      obtain ⟨-, h₁, h₂⟩ := h
      simp only [List.sum_cons, List.sum_nil] at hlt ⊢
      omega
  | k₁ :: k₂ :: rest, h =>
      obtain ⟨-, h₁, h₂⟩ := h
      rw [← hsum]
      omega

/-- **The range after one more count.** -/
theorem Range.advance (h : Range len conn ks) (hsum : conn.bytesHaveSend = ks.sum) (hn : 0 < n)
    (hlt : ks.sum + n < len) :
    Range len (conn.advance n) (ks ++ [n]) := by
  obtain ⟨hhave, -, -, -⟩ := advance_rest conn n
  match ks, h with
  | [], h =>
      obtain ⟨h₁, h₂⟩ := h
      simp only [List.sum_nil] at hsum hlt
      have hlong : conn.bytesHaveSend + n < conn.iov0Len := by omega
      obtain ⟨hl, hb⟩ := advance_long hlong
      exact ⟨hn, by omega, by omega⟩
  | [k], h =>
      obtain ⟨hk, h₁, h₂⟩ := h
      simp only [List.sum_cons, List.sum_nil] at hsum hlt
      rcases Nat.lt_or_ge (conn.bytesHaveSend + n) conn.iov0Len with hlong | hshort
      · obtain ⟨hl, hb⟩ := advance_long hlong
        exact ⟨by omega, by omega, .inr (by omega)⟩
      · obtain ⟨hl, hb⟩ := advance_short hshort
        exact ⟨by omega, by omega, .inl hl⟩
  | k₁ :: k₂ :: rest, h =>
      obtain ⟨hk, h₁, h₂⟩ := h
      rw [← hsum] at hlt
      rcases Nat.lt_or_ge (conn.bytesHaveSend + n) conn.iov0Len with hlong | hshort
      · obtain ⟨hl, hb⟩ := advance_long hlong
        exact ⟨hk, by omega, .inr (by omega)⟩
      · obtain ⟨hl, hb⟩ := advance_short hshort
        exact ⟨hk, by omega, .inl hl⟩

/-- The count that completes a response is the first or the second one. -/
theorem Range.firstTwo (h : Range len conn ks) (hsum : conn.bytesHaveSend = ks.sum)
    (hle : n ≤ conn.iov0Len) (heq : ks.sum + n = len) : FirstTwo len (ks ++ [n]) := by
  intro k₁ k₂ rest hks
  match ks, h with
  | [], _ => cases hks
  | [k], _ =>
      cases hks
      simpa using heq
  | j₁ :: j₂ :: rest, h =>
      obtain ⟨-, h₁, -⟩ := h
      rw [← hsum] at heq
      omega

end Advance

variable {resp : Bytes} {ks : List ℕ} {s s' : Sending} {n : ℕ}

/-- **One `writev` keeps the invariant.** -/
theorem tracked_take (h : Underway resp ks s) (hn : 0 < n) (hle : n ≤ s.conn.iov0Len) :
    Tracked resp (ks ++ [n]) (s.take n) := by
  obtain ⟨hhave, hsend, hbuf, hcount⟩ := advance_rest s.conn n
  obtain ⟨hbase, hbound⟩ := h.range.base h.haveSend h.rest hn hle
  have hwire : s.wire ++ (s.conn.writeBuf.drop s.conn.iov0Base).take n =
      resp.take (ks.sum + n) := by
    rw [h.wire, h.buf, hbase, List.take_add]
  have htoSend : (s.conn.advance n).bytesToSend = resp.length - (ks.sum + n : ℕ) := by
    rw [hsend, h.toSend]
    omega
  have hsum : (ks ++ [n]).sum = ks.sum + n := by simp
  unfold Sending.take
  rw [hwire]
  dsimp only
  split
  · next hdone =>
      have heq : ks.sum + n = resp.length := by omega
      have hfin : resp.take (ks.sum + n) = resp ∧ FirstTwo resp.length (ks ++ [n]) := by
        rw [heq, List.take_length]
        exact ⟨rfl, h.range.firstTwo h.haveSend hle heq⟩
      split
      · exact hfin
      · exact hfin
  · next hmore =>
      have hlt : ks.sum + n < resp.length := by omega
      constructor
      · exact hcount.trans h.count
      · exact hbuf.trans h.buf
      · rw [hsum, ← h.haveSend]
        exact hhave
      · rw [hsum]
        exact hlt
      · rw [hsum]
        exact htoSend
      · rw [hsum]
      · exact h.range.advance h.haveSend hn hlt

/-- A `writev` that is asked for nothing changes nothing but the state of the second `iovec`: the
loop spins. -/
theorem take_zero (h : Underway resp ks s) (hlen : s.conn.iov0Len = 0) :
    Underway resp ks (s.take 0) ∧ (s.take 0).phase = .sending := by
  obtain ⟨hhave, hsend, hbuf, hcount⟩ := advance_rest s.conn 0
  have hshort : s.conn.iov0Len ≤ s.conn.bytesHaveSend + 0 := by omega
  obtain ⟨hl, hb⟩ := advance_short hshort
  have hrest := h.rest
  have hmore : ¬ (s.conn.advance 0).bytesToSend ≤ 0 := by
    rw [hsend, h.toSend]
    omega
  have hrange : Range resp.length (s.conn.advance 0) ks := by
    match ks, h.range, hrest with
    | [], ⟨h₁, h₂⟩, hrest => omega
    | [k], ⟨_, h₁, h₂⟩, hrest =>
        simp only [List.sum_cons, List.sum_nil] at hrest
        omega
    | k₁ :: k₂ :: rest, ⟨hk, h₁, h₂⟩, _ => exact ⟨hk, by omega, .inl hl⟩
  unfold Sending.take
  dsimp only
  rw [if_neg hmore]
  refine ⟨⟨hcount.trans h.count, hbuf.trans h.buf, hhave.trans h.haveSend, h.rest, ?_, ?_,
    hrange⟩, rfl⟩
  · exact hsend.trans ((sub_zero _).trans h.toSend)
  · simpa using h.wire

/-! ### Runs -/

/-- A response that `process_write` has prepared waits for the first call of `write`. -/
def start (c : HttpConn) : Sending := { conn := c }

theorem tracked_start {c : HttpConn} (h : c.Prepared) : Tracked c.writeBuf [] (start c) := by
  constructor
  · exact h.count
  · rfl
  · exact h.haveSend
  · exact h.nonempty
  · rw [start, h.toSend]
    simp
  · rfl
  · exact ⟨h.base, h.len⟩

theorem counts_snoc (evs : List WriteEvent) (e : WriteEvent) :
    counts (evs ++ [e]) = counts evs ++ counts [e] := List.filterMap_append

/-- **A step keeps the invariant.** -/
theorem tracked_step {evs : List WriteEvent} {e : WriteEvent} (h : Tracked resp (counts evs) s)
    (hs : WriteStep s e s') : Tracked resp (counts (evs ++ [e])) s' := by
  rw [counts_snoc]
  cases hs with
  | call hp hne =>
      rw [Tracked, hp] at h
      have hnil : counts [.call] = [] := rfl
      rw [hnil, List.append_nil]
      exact h.phase .sending
  | callDone hp h0 =>
      rw [Tracked, hp] at h
      have hrest := h.rest
      rw [h.toSend] at h0
      omega
  | @sent n hp hmode hle hzero =>
      rw [Tracked, hp] at h
      by_cases hn : n = 0
      · subst hn
        have hnil : counts [.writev (.sent 0)] = [] := rfl
        obtain ⟨hnext, hphase⟩ := take_zero h (hzero rfl)
        rw [hnil, List.append_nil, Tracked, hphase]
        exact hnext
      · have hcount : counts [.writev (.sent n)] = [n] := by simp [counts, hn]
        rw [hcount]
        exact tracked_take h (Nat.pos_of_ne_zero hn) hle
  | again hp =>
      rw [Tracked, hp] at h
      have hnil : counts [.writev .again] = [] := rfl
      rw [hnil, List.append_nil]
      exact h.phase .waiting
  | failed hp =>
      rw [Tracked, hp] at h
      change s.wire = resp.take s.conn.bytesHaveSend
      rw [h.haveSend]
      exact h.wire

/-- **Every run keeps the invariant.** -/
theorem tracked_run {c : HttpConn} {evs : List WriteEvent} (h : c.Prepared)
    (hr : Run WriteStep (start c) evs s) : Tracked c.writeBuf (counts evs) s :=
  hr.invariant (P := fun evs s => Tracked c.writeBuf (counts evs) s) (tracked_start h)
    fun _ _ _ _ _ hi hs => tracked_step hi hs

/-- Where the first two counts are the whole response, it is on its way. -/
theorem delivers_of_firstTwo {ks : List ℕ} (h : Tracked resp ks s) (hk : FirstTwo resp.length ks) :
    s.Delivers resp := by
  rw [Tracked] at h
  cases hp : s.phase with
  | finished k =>
      rw [hp] at h
      refine ⟨fun hne => absurd hp (hne k), ?_, fun _ _ => h.1⟩
      intro hp'
      rw [hp] at hp'
      cases hp'
  | failed =>
      rw [hp] at h
      refine ⟨fun _ => h, ?_, ?_⟩
      · intro hp'
        rw [hp] at hp'
        cases hp'
      · intro k hp'
        rw [hp] at hp'
        cases hp'
  | waiting | sending =>
      rw [hp] at h
      have hrest := h.rest
      have hhave := h.haveSend
      refine ⟨?_, ?_, ?_⟩
      · intro _
        rw [hhave]
        exact h.wire
      · intro _
        -- after two counts that are the whole response there is no further call
        match ks, h.range, hhave, hrest with
        | [], ⟨h₁, h₂⟩, hhave, hrest =>
            simp only [List.sum_nil] at hhave hrest
            omega
        | [k], ⟨_, h₁, h₂⟩, hhave, hrest =>
            simp only [List.sum_cons, List.sum_nil] at hhave hrest
            omega
        | k₁ :: k₂ :: rest, ⟨hlt, _, _⟩, _, _ =>
            have := hk k₁ k₂ rest rfl
            omega
      · intro k hp'
        rw [hp] at hp'
        cases hp'

/-- A second count that does not complete the response leaves a range that is too short. -/
theorem not_delivers {k₁ k₂ : ℕ} {rest : List ℕ} (h : Tracked resp (k₁ :: k₂ :: rest) s)
    (hp : s.phase = .sending) : ¬ s.Delivers resp := by
  intro hd
  rw [Tracked, hp] at h
  obtain ⟨hlt, hshort, -⟩ := h.range
  obtain ⟨-, hbase, hlen⟩ := hd.covers hp
  omega

end Sending

/-! ### Main result -/

open Sending in
/-- **When a response arrives**: in every state of a run the kernel has got the bytes that were
counted and the next `writev` is asked for the rest, exactly when the first two calls of `writev`
that take something take all of it. -/
theorem partial_writes {c₀ c : HttpConn} {ret : HttpCode} {evs : List WriteEvent} {s : Sending}
    (h0 : c₀.bytesHaveSend = 0) (hprep : c₀.processWrite ret = (true, c))
    (hmode : c.iovCount = 1) (hr : Run WriteStep (start c) evs s) :
    (∀ pre t, pre <+: evs → Run WriteStep (start c) pre t → t.Delivers c.writeBuf) ↔
      FirstTwo c.writeBuf.length (counts evs) := by
  have hc := HttpConn.processWrite_prepared h0 hprep hmode
  constructor
  · intro hall
    -- the first two counts are those of the run so far, or the last step has added one
    induction hr with
    | nil =>
        intro k₁ k₂ rest hks
        cases hks
    | @snoc evs s s' e hr hs ih =>
        have hprev : FirstTwo c.writeBuf.length (counts evs) :=
          ih fun pre t hpre ht => hall pre t (hpre.trans (List.prefix_append _ _)) ht
        have hinv := tracked_run hc (hr.snoc hs)
        have hlast := hall _ s' (List.prefix_refl _) (hr.snoc hs)
        intro k₁ k₂ rest hks
        cases hp : s'.phase with
        | sending =>
            rw [hks] at hinv
            exact absurd hlast (not_delivers hinv hp)
        | finished k =>
            rw [Tracked, hp] at hinv
            exact hinv.2 k₁ k₂ rest hks
        | waiting | failed =>
            rw [counts_snoc] at hks
            cases hs with
            | call | callDone => cases hp
            | again | failed => exact hprev k₁ k₂ rest (by simpa [counts] using hks)
            | sent =>
                simp only [Sending.take] at hp
                split at hp
                · split at hp <;> cases hp
                · cases hp
  · intro hk pre t hpre ht
    refine delivers_of_firstTwo (tracked_run hc ht) ?_
    intro k₁ k₂ rest hks
    obtain ⟨post, rfl⟩ := hpre
    have happ : counts (pre ++ post) = counts pre ++ counts post := List.filterMap_append
    exact hk k₁ k₂ (rest ++ counts post) (by rw [happ, hks]; rfl)

/-- The response to a bad request, 133 bytes. -/
def badResponse : HttpConn := ((HttpConn.fresh 100).processWrite .badRequest).2

open Sending in
/-- A response that the kernel takes in one piece, at the second attempt. -/
theorem partial_writes_whole :
    ∃ s, Run WriteStep (start badResponse)
        [.call, .writev .again, .call, .writev (.sent 133)] s ∧
      s.Delivers badResponse.writeBuf := by
  have hr : Run WriteStep (start badResponse) [.call, .writev .again, .call, .writev (.sent 133)]
      (Sending.take { start badResponse with phase := .sending } 133) :=
    (((Run.nil.snoc (.call rfl (by decide))).snoc (.again rfl)).snoc (.call rfl (by decide))).snoc
      (.sent rfl rfl (by decide) nofun)
  have hprep : (HttpConn.fresh 100).processWrite .badRequest = (true, badResponse) := rfl
  refine ⟨_, hr, (partial_writes rfl hprep rfl hr).2 ?_ _ _ (List.prefix_refl _) hr⟩
  intro k₁ k₂ rest hks
  cases hks

/-- The same response after two counts, 100 and 10. -/
def stalled : Sending :=
  Sending.take (Sending.take { Sending.start badResponse with phase := .sending } 100) 10

open Sending in
/-- **A response that the kernel takes in three pieces never arrives**: after the second one the
range is empty, and `write` spins. -/
theorem partial_writes_spin :
    Run WriteStep (start badResponse) [.call, .writev (.sent 100), .writev (.sent 10)] stalled ∧
      ¬ stalled.Delivers badResponse.writeBuf ∧ WriteStep stalled (.writev (.sent 0)) stalled := by
  refine ⟨?_, ?_, ?_⟩
  · exact ((Run.nil.snoc (.call rfl (by decide))).snoc (.sent rfl rfl (by decide) nofun)).snoc
      (.sent rfl rfl (by decide) nofun)
  · intro hd
    have hlen : stalled.conn.iov0Base + stalled.conn.iov0Len ≠ badResponse.writeBuf.length := by
      decide
    exact hlen (hd.covers rfl).2.2
  · have hself : stalled.take 0 = stalled := by decide +kernel
    have hphase : stalled.phase = .sending := by decide
    have hcount : stalled.conn.iovCount = 1 := by decide
    have hlen : stalled.conn.iov0Len = 0 := by decide
    have hstep := WriteStep.sent (n := 0) hphase hcount (Nat.zero_le _) fun _ => hlen
    rwa [hself] at hstep

end Gateway
