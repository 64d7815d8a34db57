/-
**Who owns which block: a heap and its ledger.**

Code that manages its memory by hand keeps pointers with the sizes of the blocks behind them.  The
ledger of a heap is the list of these buffers; it is right when the blocks that are allocated are
exactly those that a pointer of the list leads to, no two pointers lead to the same block, and each
recorded size is that of the block.

A block is known by the number of its allocation, which is never used again, so a pointer to a freed
block stays recognisable.  Freeing such a pointer is recorded in the heap.

Main definitions:

* `HeapLedger.Heap`, `HeapLedger.Heap.alloc`, `HeapLedger.Heap.free` — the heap;
* `HeapLedger.Buffer` — a pointer with the size that is recorded for it;
* `HeapLedger.Tally` — the ledger is right.

Main results:

* `HeapLedger.Tally.alloc`, `HeapLedger.Tally.free`, `HeapLedger.Tally.null` — **what allocation,
  release and null pointers do to a ledger**;
* `HeapLedger.Tally.not_leaked`, `HeapLedger.Tally.not_dangling`,
  `HeapLedger.Tally.size_eq_zero` — three ways in which a ledger is wrong.
-/

import Mathlib.Data.List.Nodup
import Mathlib.Data.List.Perm.Basic
import Mathlib.Logic.Function.Basic

set_option relaxedAutoImplicit false
set_option autoImplicit false

namespace HeapLedger

/-! ### The heap -/

/-- The sizes of the allocated blocks.  `doubleFreed` records that a block was freed twice. -/
structure Heap where
  block : ℕ → Option ℕ
  next : ℕ
  doubleFreed : Bool
  fresh : ∀ p, next ≤ p → block p = none

/-- A pointer with the size that is recorded for it. -/
structure Buffer where
  ptr : Option ℕ
  size : ℕ
  deriving DecidableEq

/-- A null pointer. -/
def Buffer.null : Buffer := ⟨none, 0⟩

namespace Heap

def empty : Heap := ⟨fun _ => none, 0, false, fun _ _ => rfl⟩

/-- A new block, at `h.next`. -/
def alloc (h : Heap) (size : ℕ) : Heap where
  block := Function.update h.block h.next (some size)
  next := h.next + 1
  doubleFreed := h.doubleFreed
  fresh p hp := by
    rw [Function.update_of_ne (by omega)]
    exact h.fresh p (by omega)

/-- The release of what a pointer leads to; a null pointer is left alone. -/
def free (h : Heap) : Option ℕ → Heap
  | none => h
  | some p =>
      { h with
        block := Function.update h.block p none
        doubleFreed := h.doubleFreed || (h.block p).isNone
        fresh := by
          intro q hq
          by_cases hqp : q = p
          · rw [hqp, Function.update_self]
          · rw [Function.update_of_ne hqp]
            exact h.fresh q hq }

variable {h : Heap} {p n : ℕ}

theorem lt_next (hp : (h.block p).isSome) : p < h.next := by
  by_contra hge
  rw [h.fresh p (by omega)] at hp
  cases hp

@[simp] theorem block_alloc_next : (h.alloc n).block h.next = some n := Function.update_self ..

theorem block_alloc (hp : p ≠ h.next) : (h.alloc n).block p = h.block p :=
  Function.update_of_ne hp ..

@[simp] theorem next_alloc : (h.alloc n).next = h.next + 1 := rfl

@[simp] theorem next_free (ptr : Option ℕ) : (h.free ptr).next = h.next := by
  cases ptr <;> rfl

@[simp] theorem block_free_self : (h.free (some p)).block p = none := Function.update_self ..

theorem block_free {ptr : Option ℕ} (hp : ptr ≠ some p) : (h.free ptr).block p = h.block p := by
  cases ptr with
  | none => rfl
  | some q => exact Function.update_of_ne (fun hpq => hp (by rw [hpq])) ..

/-- Nothing is behind a pointer that was freed. -/
theorem bind_free_self (ptr : Option ℕ) : ptr.bind (h.free ptr).block = none := by
  cases ptr with
  | none => rfl
  | some p => exact block_free_self

/-- A release puts nothing behind a pointer. -/
theorem bind_free {ptr : Option ℕ} (hp : ptr.bind h.block = none) (ptr' : Option ℕ) :
    ptr.bind (h.free ptr').block = none := by
  cases ptr with
  | none => rfl
  | some p =>
      by_cases hpp : ptr' = some p
      · rw [hpp]
        exact block_free_self
      · exact (block_free hpp).trans hp

/-- A new block is not behind an old pointer. -/
theorem bind_alloc {ptr : Option ℕ} (hp : ptr.bind h.block = none) (hlt : ∀ p ∈ ptr, p < h.next) :
    ptr.bind (h.alloc n).block = none := by
  cases ptr with
  | none => rfl
  | some p =>
      have := hlt p rfl
      exact (block_alloc (by omega)).trans hp

end Heap

/-! ### The ledger -/

/-- The blocks that the pointers of a list lead to. -/
def pointers (bs : List Buffer) : List ℕ := bs.filterMap Buffer.ptr

theorem mem_pointers {bs : List Buffer} {p : ℕ} : p ∈ pointers bs ↔ ∃ b ∈ bs, b.ptr = some p :=
  List.mem_filterMap

/-- **The ledger is right.** -/
structure Tally (h : Heap) (bs : List Buffer) : Prop where
  live : ∀ p, (h.block p).isSome ↔ p ∈ pointers bs
  distinct : (pointers bs).Nodup
  once : h.doubleFreed = false
  sizes : ∀ b ∈ bs, b.size = (b.ptr.bind h.block).getD 0

namespace Tally

variable {h : Heap} {bs bs' : List Buffer} {b : Buffer} {p n : ℕ}

theorem empty : Tally .empty [] where
  live _ := ⟨nofun, nofun⟩
  distinct := List.nodup_nil
  once := rfl
  sizes := nofun

theorem perm (t : Tally h bs) (hp : bs.Perm bs') : Tally h bs' where
  live p := (t.live p).trans (hp.filterMap _).mem_iff
  distinct := (hp.filterMap _).nodup_iff.1 t.distinct
  once := t.once
  sizes b hb := t.sizes b (hp.mem_iff.2 hb)

/-- **Null pointers** own nothing. -/
theorem null (t : Tally h bs) : Tally h (.null :: bs) where
  live := t.live
  distinct := t.distinct
  once := t.once
  sizes b hb := by
    rcases List.mem_cons.1 hb with rfl | hb
    · rfl
    · exact t.sizes b hb

theorem of_null (t : Tally h (b :: bs)) (hb : b.ptr = none) : Tally h bs := by
  have hptr : pointers (b :: bs) = pointers bs := List.filterMap_cons_none hb
  exact ⟨fun p => hptr ▸ t.live p, hptr ▸ t.distinct, t.once,
    fun b hb => t.sizes b (List.mem_cons_of_mem _ hb)⟩

/-- **A new block** belongs to a new pointer. -/
theorem alloc (t : Tally h bs) (n : ℕ) : Tally (h.alloc n) (⟨some h.next, n⟩ :: bs) where
  live p := by
    show _ ↔ p ∈ h.next :: pointers bs
    by_cases hp : p = h.next
    · rw [hp, Heap.block_alloc_next]
      exact ⟨fun _ => List.mem_cons_self, fun _ => rfl⟩
    · rw [Heap.block_alloc hp, t.live, List.mem_cons]
      exact ⟨.inr, fun h => h.resolve_left hp⟩
  distinct := by
    refine List.nodup_cons.2 ⟨fun hmem => ?_, t.distinct⟩
    exact absurd (Heap.lt_next ((t.live _).2 hmem)) (Nat.lt_irrefl _)
  once := t.once
  sizes b hb := by
    rcases List.mem_cons.1 hb with rfl | hb
    · exact (congrArg (Option.getD · 0) Heap.block_alloc_next).symm
    · rw [t.sizes b hb]
      cases hptr : b.ptr with
      | none => rfl
      | some p =>
          have hlt := Heap.lt_next ((t.live p).2 (mem_pointers.2 ⟨b, hb, hptr⟩))
          exact (congrArg (Option.getD · 0) (Heap.block_alloc (by omega))).symm

/-- **The release of a buffer.** -/
theorem free (t : Tally h (b :: bs)) : Tally (h.free b.ptr) bs := by
  cases hptr : b.ptr with
  | none => exact t.of_null hptr
  | some p =>
      have hcons : pointers (b :: bs) = p :: pointers bs := List.filterMap_cons_some hptr
      have hlive := t.live
      have hdistinct := t.distinct
      rw [hcons] at hlive hdistinct
      obtain ⟨hnot, hnodup⟩ := List.nodup_cons.1 hdistinct
      have hne : ∀ q ∈ pointers bs, some p ≠ some q := by
        rintro q hq heq
        exact hnot (Option.some.inj heq ▸ hq)
      refine ⟨fun q => ?_, hnodup, ?_, fun c hc => ?_⟩
      · by_cases hq : q = p
        · rw [hq, Heap.block_free_self]
          exact ⟨nofun, fun h => absurd h hnot⟩
        · rw [Heap.block_free (fun h => hq (Option.some.inj h).symm), hlive, List.mem_cons]
          exact ⟨fun h => h.resolve_left hq, .inr⟩
      · show (h.doubleFreed || (h.block p).isNone) = false
        have hsome := (hlive p).2 List.mem_cons_self
        rw [t.once, Bool.false_or, Option.isNone_eq_false_iff]
        exact hsome
      · rw [t.sizes c (List.mem_cons_of_mem _ hc)]
        cases hcp : c.ptr with
        | none => rfl
        | some q =>
            have hq := hne q (mem_pointers.2 ⟨c, hc, hcp⟩)
            exact (congrArg (Option.getD · 0) (Heap.block_free hq)).symm

/-! ### Wrong ledgers -/

/-- A block that no pointer leads to is not allocated. -/
theorem not_leaked (t : Tally h bs) (hp : (h.block p).isSome) : ∃ b ∈ bs, b.ptr = some p :=
  mem_pointers.1 ((t.live p).1 hp)

/-- A pointer of the ledger does not dangle. -/
theorem not_dangling (t : Tally h bs) (hb : b ∈ bs) (hp : b.ptr = some p) : (h.block p).isSome :=
  (t.live p).2 (mem_pointers.2 ⟨b, hb, hp⟩)

/-- No size is recorded where there is no block. -/
theorem size_eq_zero (t : Tally h bs) (hb : b ∈ bs) (hnone : b.ptr.bind h.block = none) :
    b.size = 0 := by
  rw [t.sizes b hb, hnone]
  rfl

end Tally

end HeapLedger
