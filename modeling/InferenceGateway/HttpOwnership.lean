/-
**Who owns the buffers of a connection slot.**

An `http_conn` keeps three raw pointers with the sizes of their buffers.  `init` releases two of the
three and allocates all of them, `set_response_body` releases its buffer before it allocates a
larger one, and `add_response` allocates first.  Every `new` may throw, which ends the function
where it stands: `process` catches the exception and closes the connection, and the slot lives on
with the pointers it has.

The contents of the buffers do not matter here, only where they are and how large.

Main definitions:

* `Gateway.HttpSlot` — the three pointers and the heap, with `init`, `setResponseBody`,
  `addResponse` and the destructor, `Gateway.HttpSlot.Step` — one of them;
* `Gateway.HttpSlot.Owned` — the allocated buffers are the ones the pointers lead to;
* `Gateway.HttpSlot.Safe` — `init` has nothing to overwrite, and what is released is replaced.

Main results:

* `Gateway.HttpSlot.owned_run` — safe steps keep the ownership;
* `Gateway.HttpSlot.init_leaks`, `Gateway.HttpSlot.init_dangles`,
  `Gateway.HttpSlot.setResponseBody_dangles` — what the others do;
* `Gateway.HttpSlot.safe_iff_owned` — **a slot owns its buffers throughout a run exactly when the
  steps are safe.**
-/

import InferenceGateway.EventSystem
import InferenceGateway.HeapLedger
import InferenceGateway.HttpInference

set_option relaxedAutoImplicit false
set_option autoImplicit false

namespace Gateway

open EventSystem (Run Guarded Along)
open HeapLedger (Heap Buffer Tally)

/-! ### The slot -/

/-- `m_read_buf`, `m_write_buf` and `m_response_body` with their sizes, `m_write_idx`, and the heap.
A slot that was destroyed is not `alive`. -/
structure HttpSlot where
  heap : Heap
  readBuf : Buffer
  writeBuf : Buffer
  responseBody : Buffer
  writeIdx : ℕ
  alive : Bool

namespace HttpSlot

/-- `http_conn()`. -/
def construct : HttpSlot where
  heap := .empty
  readBuf := .null
  writeBuf := .null
  responseBody := .null
  writeIdx := 0
  alive := true

/-- The inner `init()`, where `news` of its three allocations succeed and the next one throws. -/
def init (s : HttpSlot) (news : ℕ) : HttpSlot :=
  let s := { s with heap := (s.heap.free s.writeBuf.ptr).free s.responseBody.ptr, writeIdx := 0 }
  let s := { s with readBuf := ⟨s.readBuf.ptr, readBufferSize⟩ }
  if news = 0 then s
  else
    let s := { s with
      readBuf := ⟨some s.heap.next, readBufferSize⟩, heap := s.heap.alloc readBufferSize }
    let s := { s with writeBuf := ⟨s.writeBuf.ptr, initBufferSize⟩ }
    if news = 1 then s
    else
      let s := { s with
        writeBuf := ⟨some s.heap.next, initBufferSize⟩, heap := s.heap.alloc initBufferSize }
      let s := { s with responseBody := ⟨s.responseBody.ptr, initBufferSize⟩ }
      if news = 2 then s
      else
        { s with
          responseBody := ⟨some s.heap.next, initBufferSize⟩, heap := s.heap.alloc initBufferSize }

/-- The new size in `set_response_body`. -/
def grownBody (needed old : ℕ) : ℕ :=
  HttpConn.growBody needed needed (if old = 0 then initBufferSize else old)

/-- `set_response_body`, where `needed` is `body.size() + 1`; `ok` tells whether `new` succeeds. -/
def setResponseBody (s : HttpSlot) (needed : ℕ) (ok : Bool) : HttpSlot :=
  if s.responseBody.size < needed then
    let size := grownBody needed s.responseBody.size
    let s := { s with heap := s.heap.free s.responseBody.ptr }
    let s := { s with responseBody := ⟨s.responseBody.ptr, size⟩ }
    if ok then
      { s with responseBody := ⟨some s.heap.next, size⟩, heap := s.heap.alloc size }
    else s
  else s

/-- `add_response`, where `len` is the length of the text; `ok` tells whether `new` succeeds. -/
def addResponse (s : HttpSlot) (len : ℕ) (ok : Bool) : HttpSlot :=
  let space := max 1 (s.writeBuf.size - s.writeIdx)
  if len < space then { s with writeIdx := s.writeIdx + len }
  else
    let size := HttpConn.grow (s.writeIdx + len) (s.writeIdx + len + 1)
      (if s.writeBuf.size = 0 then initBufferSize else s.writeBuf.size)
    if ok then
      { s with
        heap := (s.heap.alloc size).free s.writeBuf.ptr
        writeBuf := ⟨some s.heap.next, size⟩
        writeIdx := s.writeIdx + len }
    else s

/-- `~http_conn()`. -/
def destroy (s : HttpSlot) : HttpSlot :=
  { s with
    heap := ((s.heap.free s.readBuf.ptr).free s.writeBuf.ptr).free s.responseBody.ptr
    readBuf := .null
    writeBuf := .null
    responseBody := .null
    alive := false }

/-- A call with what the allocations in it do.  `initConn` is the public `init`, which ends in the
inner one, and `exit` is an exception in `process` that comes from elsewhere. -/
inductive Call
  | initConn (news : ℕ)
  | init (news : ℕ)
  | setResponseBody (needed : ℕ) (ok : Bool)
  | addResponse (len : ℕ) (ok : Bool)
  | exit
  | destroy

/-- A call on a slot that is alive. -/
inductive Step (s : HttpSlot) : Call → HttpSlot → Prop
  | initConn (news : ℕ) (h : s.alive = true) : Step s (.initConn news) (s.init news)
  | init (news : ℕ) (h : s.alive = true) : Step s (.init news) (s.init news)
  | setResponseBody (needed : ℕ) (ok : Bool) (h : s.alive = true) :
      Step s (.setResponseBody needed ok) (s.setResponseBody needed ok)
  | addResponse (len : ℕ) (ok : Bool) (h : s.alive = true) :
      Step s (.addResponse len ok) (s.addResponse len ok)
  | exit (h : s.alive = true) : Step s .exit s
  | destroy (h : s.alive = true) : Step s .destroy s.destroy

/-- **The slot owns its buffers**: those that are allocated are those that its pointers lead to,
each by one pointer and with the recorded size, and none was freed twice. -/
def Owned (s : HttpSlot) : Prop := Tally s.heap [s.readBuf, s.writeBuf, s.responseBody]

/-- `init` finds `m_read_buf` null and none of its allocations throws; nor does the one of
`set_response_body`, if it is made. -/
def Safe (s : HttpSlot) : Call → Prop
  | .initConn news | .init news => s.readBuf.ptr = none ∧ 3 ≤ news
  | .setResponseBody needed ok => needed ≤ s.responseBody.size ∨ ok = true
  | _ => True

/-! ### Safe calls -/

variable {s s' : HttpSlot} {news needed len : ℕ} {ok : Bool}

theorem owned_construct : Owned construct := (Tally.empty.null).null.null

/-- `init` on a slot without a read buffer. -/
theorem Owned.init (h : Owned s) (hread : s.readBuf.ptr = none) (hnews : 3 ≤ news) :
    Owned (s.init news) := by
  have hfreed : Tally ((s.heap.free s.writeBuf.ptr).free s.responseBody.ptr) [] :=
    (h.of_null hread).free.free
  have hnew := ((hfreed.alloc readBufferSize).alloc initBufferSize).alloc initBufferSize
  rw [HttpSlot.init, if_neg (by omega), if_neg (by omega), if_neg (by omega)]
  exact hnew.perm (List.reverse_perm _).symm

/-- A growing `set_response_body`. -/
theorem Owned.setResponseBody (h : Owned s) (hok : needed ≤ s.responseBody.size ∨ ok = true) :
    Owned (s.setResponseBody needed ok) := by
  unfold HttpSlot.setResponseBody
  split
  · next hlt =>
      obtain rfl := hok.resolve_left (by omega)
      -- the body goes to the front of the ledger and back
      have hfront : Tally s.heap [s.responseBody, s.readBuf, s.writeBuf] :=
        h.perm (@List.perm_append_comm _ [s.readBuf, s.writeBuf] _)
      exact (hfront.free.alloc _).perm (@List.perm_append_comm _ [_] _)
  · exact h

/-- `add_response` allocates before it releases. -/
theorem Owned.addResponse (h : Owned s) : Owned (s.addResponse len ok) := by
  unfold HttpSlot.addResponse
  dsimp only
  split
  · exact h
  · split
    · have hnew := h.alloc (HttpConn.grow (s.writeIdx + len) (s.writeIdx + len + 1)
        (if s.writeBuf.size = 0 then initBufferSize else s.writeBuf.size))
      exact (hnew.perm ((List.reverse_perm [_, s.readBuf, s.writeBuf]).symm.append_right
        [s.responseBody])).free
    · exact h

/-- The destructor releases everything. -/
theorem Owned.destroy (h : Owned s) : Owned s.destroy :=
  (h.free.free.free).null.null.null

/-- The invariant: a slot with a read buffer has the other two. -/
structure Sound (s : HttpSlot) : Prop where
  owned : Owned s
  complete : s.readBuf.ptr ≠ none → s.writeBuf.ptr ≠ none

theorem sound_construct : Sound construct := ⟨owned_construct, nofun⟩

/-- **A safe call keeps the ownership.** -/
theorem Step.sound {c : Call} (hs : Step s c s') (h : Sound s) (hsafe : Safe s c) : Sound s' := by
  cases hs with
  | initConn news | init news =>
      obtain ⟨hread, hnews⟩ := hsafe
      refine ⟨h.owned.init hread hnews, fun _ => ?_⟩
      rw [HttpSlot.init, if_neg (by omega), if_neg (by omega), if_neg (by omega)]
      nofun
  | setResponseBody needed ok =>
      refine ⟨h.owned.setResponseBody hsafe, ?_⟩
      unfold HttpSlot.setResponseBody
      split
      · dsimp only
        split
        · exact h.complete
        · exact h.complete
      · exact h.complete
  | addResponse len ok =>
      refine ⟨h.owned.addResponse, ?_⟩
      unfold HttpSlot.addResponse
      dsimp only
      split
      · exact h.complete
      · split
        · exact fun _ => nofun
        · exact h.complete
  | exit => exact h
  | destroy => exact ⟨h.owned.destroy, fun hnull => absurd rfl hnull⟩

/-- **Every run of safe calls keeps the ownership.** -/
theorem owned_run {cs : List Call} (hr : Run (Guarded Step Safe) construct cs s) : Sound s :=
  hr.invariant_state sound_construct fun _ _ _ h hs => hs.1.sound h hs.2

/-! ### The other calls -/

theorem initBufferSize_ne : initBufferSize ≠ 0 := by decide

theorem readBufferSize_ne : readBufferSize ≠ 0 := by decide

/-- The members of a slot's ledger. -/
theorem mem_ledger : s.readBuf ∈ [s.readBuf, s.writeBuf, s.responseBody] ∧
    s.writeBuf ∈ [s.readBuf, s.writeBuf, s.responseBody] ∧
      s.responseBody ∈ [s.readBuf, s.writeBuf, s.responseBody] := by
  simp

/-- An old pointer is below the next one. -/
theorem Owned.lt_next (h : Owned s) {b : Buffer} (hb : b ∈ [s.readBuf, s.writeBuf, s.responseBody])
    {p : ℕ} (hp : b.ptr = some p) : p < s.heap.next :=
  Heap.lt_next (h.not_dangling hb hp)

/-- **`init` leaks the read buffer** when it replaces it. -/
theorem init_leaks (h : Owned s) {p : ℕ} (hread : s.readBuf.ptr = some p) (hnews : news ≠ 0) :
    ¬ Owned (s.init news) := by
  have hlive := h.not_dangling mem_ledger.1 hread
  have hp := h.lt_next mem_ledger.1 hread
  obtain ⟨hnot, -⟩ : p ∉ HeapLedger.pointers [s.writeBuf, s.responseBody] ∧ _ := by
    have hdistinct := h.distinct
    rw [HeapLedger.pointers, List.filterMap_cons_some hread] at hdistinct
    exact List.nodup_cons.1 hdistinct
  have hwrite : s.writeBuf.ptr ≠ some p := fun hw =>
    hnot (HeapLedger.mem_pointers.2 ⟨_, List.mem_cons_self, hw⟩)
  have hbody : s.responseBody.ptr ≠ some p := fun hb =>
    hnot (HeapLedger.mem_pointers.2 ⟨_, List.mem_cons_of_mem _ List.mem_cons_self, hb⟩)
  -- the releases leave the block, and so do the allocations
  have hfreed : (((s.heap.free s.writeBuf.ptr).free s.responseBody.ptr).block p).isSome := by
    rw [Heap.block_free hbody, Heap.block_free hwrite]
    exact hlive
  intro howned
  have hsome : ((s.init news).heap.block p).isSome := by
    unfold HttpSlot.init
    dsimp only
    split_ifs
    · exact hfreed
    · rw [Heap.block_alloc (by simp; omega)]
      exact hfreed
    · rw [Heap.block_alloc (by simp; omega), Heap.block_alloc (by simp; omega)]
      exact hfreed
    · rw [Heap.block_alloc (by simp; omega), Heap.block_alloc (by simp; omega),
        Heap.block_alloc (by simp; omega)]
      exact hfreed
  -- but its pointer is gone
  obtain ⟨b, hb, hptr⟩ := howned.not_leaked hsome
  have hnew : ∀ (h : Heap) (n : ℕ), s.heap.next ≤ h.next → b ≠ ⟨some h.next, n⟩ := by
    rintro h n hle rfl
    have := Option.some.inj hptr
    omega
  have hold : ∀ n, b ≠ ⟨s.writeBuf.ptr, n⟩ ∧ b ≠ ⟨s.responseBody.ptr, n⟩ := by
    intro n
    constructor
    · rintro rfl
      exact hwrite hptr
    · rintro rfl
      exact hbody hptr
  revert hb
  unfold HttpSlot.init
  dsimp only
  simp only [if_neg hnews]
  split_ifs
  · simp only [List.mem_cons, List.not_mem_nil, or_false]
    rintro (hb | hb | hb)
    · exact hnew _ _ (by simp) hb
    · exact (hold _).1 hb
    · exact (hold s.responseBody.size).2 hb
  · simp only [List.mem_cons, List.not_mem_nil, or_false]
    rintro (hb | hb | hb)
    · exact hnew _ _ (by simp) hb
    · exact hnew _ _ (by simp) hb
    · exact (hold _).2 hb
  · simp only [List.mem_cons, List.not_mem_nil, or_false]
    rintro (hb | hb | hb)
    · exact hnew _ _ (by simp) hb
    · exact hnew _ _ (by simp) hb
    · exact hnew _ _ (by simp; omega) hb

/-- **`init` leaves dangling pointers**, or a size without a buffer, when an allocation throws. -/
theorem init_dangles (h : Sound s) (hnews : news < 3) : ¬ Owned (s.init news) := by
  intro howned
  have hwrite := Heap.bind_free (Heap.bind_free_self (h := s.heap) s.writeBuf.ptr)
    s.responseBody.ptr
  have hbody := Heap.bind_free_self (h := s.heap.free s.writeBuf.ptr) s.responseBody.ptr
  have hlt : ∀ p ∈ s.writeBuf.ptr, p < s.heap.next := fun p hp =>
    h.owned.lt_next mem_ledger.2.1 hp
  have hlt' : ∀ p ∈ s.responseBody.ptr, p < s.heap.next := fun p hp =>
    h.owned.lt_next mem_ledger.2.2 hp
  obtain rfl | rfl | rfl : news = 0 ∨ news = 1 ∨ news = 2 := by omega
  · -- before the first allocation: the size of the read buffer, or the pointer to the write buffer
    cases hread : s.readBuf.ptr with
    | none =>
        exact readBufferSize_ne (howned.size_eq_zero (b := (s.init 0).readBuf) mem_ledger.1
          (show s.readBuf.ptr.bind _ = none by rw [hread]; rfl))
    | some p =>
        cases hw : s.writeBuf.ptr with
        | none => exact h.complete (by rw [hread]; nofun) hw
        | some q =>
            have hsome := howned.not_dangling (b := (s.init 0).writeBuf) mem_ledger.2.1 hw
            have hnone : (some q).bind (s.init 0).heap.block = none := hw ▸ hwrite
            rw [Option.bind_some] at hnone
            rw [hnone] at hsome
            cases hsome
  · exact initBufferSize_ne (howned.size_eq_zero (b := (s.init 1).writeBuf) mem_ledger.2.1
      (Heap.bind_alloc hwrite fun p hp => (hlt p hp).trans_le (by simp)))
  · exact initBufferSize_ne (howned.size_eq_zero (b := (s.init 2).responseBody) mem_ledger.2.2
      (Heap.bind_alloc (Heap.bind_alloc hbody fun p hp => (hlt' p hp).trans_le (by simp))
        fun p hp => (hlt' p hp).trans_le (by simp)))

theorem growBody_pos {needed n : ℕ} (fuel : ℕ) (hn : 0 < n) :
    0 < HttpConn.growBody needed fuel n := by
  induction fuel generalizing n with
  | zero => exact hn
  | succ fuel ih =>
      rw [HttpConn.growBody]
      split
      · exact ih (by omega)
      · exact hn

/-- **`set_response_body` leaves a dangling pointer**, or a size without a buffer, when its
allocation throws. -/
theorem setResponseBody_dangles (hlt : s.responseBody.size < needed) :
    ¬ Owned (s.setResponseBody needed false) := by
  intro howned
  have hsize : 0 < grownBody needed s.responseBody.size := by
    refine growBody_pos needed ?_
    split
    · exact Nat.pos_of_ne_zero initBufferSize_ne
    · omega
  unfold HttpSlot.setResponseBody at howned
  rw [if_pos hlt] at howned
  have := howned.size_eq_zero (List.mem_cons_of_mem _ (List.mem_cons_of_mem _ List.mem_cons_self))
    (Heap.bind_free_self s.responseBody.ptr)
  exact hsize.ne' this

/-- **A call that is not safe breaks the ownership.** -/
theorem safe_of_owned {c : Call} (h : Sound s) (hs : Step s c s') (howned : Owned s') :
    Safe s c := by
  cases hs with
  | initConn news | init news =>
      have hnews : 3 ≤ news := by
        by_contra hlt
        exact init_dangles h (by omega) howned
      refine ⟨?_, hnews⟩
      cases hread : s.readBuf.ptr with
      | none => rfl
      | some p => exact absurd howned (init_leaks h.owned hread (by omega))
  | setResponseBody needed ok =>
      by_cases hlt : s.responseBody.size < needed
      · cases ok with
        | true => exact .inr rfl
        | false => exact absurd howned (setResponseBody_dangles hlt)
      · exact .inl (by omega)
  | addResponse | exit | destroy => trivial

/-- **A slot owns its buffers throughout a run exactly when the calls are safe.** -/
theorem safe_iff_owned (cs : List Call) (s : HttpSlot) :
    Run (Guarded Step Safe) construct cs s ↔ Along Step (fun _ s => Owned s) construct cs s :=
  Run.iff_along (fun _ _ _ hs => hs.1) (fun _ _ hr => (owned_run hr).owned)
    fun _ _ _ _ hr hs howned => ⟨hs, safe_of_owned (owned_run hr) hs howned⟩

/-- A connection that is kept alive for a second request: the read buffer of the first one is
leaked. -/
theorem not_owned :
    ¬ ∀ (cs : List Call) (s : HttpSlot), Run Step construct cs s → Owned s := by
  intro hall
  have hr : Run Step construct _ _ := (Run.single (Step.initConn 3 rfl)).snoc (Step.init 3 rfl)
  have howned := hall _ _ (Run.single (Step.initConn 3 rfl))
  exact init_leaks howned rfl (by decide) (hall _ _ hr)

end HttpSlot

end Gateway
