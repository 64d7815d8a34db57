/-
The front of the log queue.

`m_front` is the cell that was read last, and `front` reads that cell: not the oldest element of the
queue, which is in the cell behind it, but what `pop` took out before.

* `Gateway.BlockQueue.front` — the function;
* `Gateway.BlockQueue.front_run` — **what `front` returns after every run**.
-/

import InferenceGateway.BlockQueue

set_option relaxedAutoImplicit false
set_option autoImplicit false

namespace Gateway

open EventSystem (Run Guarded)

namespace BlockQueue

variable {α : Type*}

/-- `front(value)`: the value, or nothing when it returns false; nothing at all when it reads
`m_array[-1]`. -/
def front (q : BlockQueue α) : Option (Option α) :=
  if 0 = q.mSize then some none
  else if h : 0 ≤ q.mFront then some (some (q.cell q.mFront ⟨h, q.front_range.2⟩))
  else none

/-- The cell behind the contents is the one that was read last only if the queue is full. -/
theorem next_back_ne_front {q : BlockQueue α} (hf : 0 ≤ q.mFront)
    (h : q.mSize + 1 < q.mMaxSize) : (q.next q.mBack).toNat ≠ q.mFront.toNat := by
  have hlen := q.length_eq
  have hs := q.size_nonneg
  have hlt := q.front_range.2
  rw [q.next_back]
  have hmod : q.mFront.toNat = q.mFront.toNat % q.mArray.length :=
    (Nat.mod_eq_of_lt (by omega)).symm
  rw [hmod]
  exact (CircularArray.mod_ne (by omega) (by omega)).symm

/-- What the cell that was read last has to do with the run. -/
structure ReadLast (n : ℕ) (evs : List (Op α)) (q : BlockQueue α) : Prop where
  unread : Fifo.popped evs = [] → q.mFront = -1
  read : ∀ item, (Fifo.popped evs).getLast? = some item → 0 ≤ q.mFront ∧
    (q.mSize < n → q.mArray[q.mFront.toNat]? = some item)

theorem popped_snoc (evs : List (Op α)) (op : Op α) :
    Fifo.popped (evs ++ [op]) = match op with
      | .pop item => Fifo.popped evs ++ [item]
      | .clear => []
      | _ => Fifo.popped evs := by
  rw [Fifo.popped, List.foldl_append]
  rfl

theorem readLast_run [Inhabited α] {n : ℕ} {h : 0 < (n : ℤ)} {evs : List (Op α)}
    {q : BlockQueue α} (hr : Run (Guarded Step Room) (ofSize n h) evs q) : ReadLast n evs q := by
  refine hr.invariant (P := ReadLast n) ⟨fun _ => rfl, by simp [Fifo.popped]⟩ ?_
  rintro evs q op q' hr ⟨hunread, hread⟩ ⟨hs, hroom⟩
  have hmax := (isFifo_of_room hr).2
  cases hs with
  | push item =>
      have hlt : q.mSize < q.mMaxSize := hroom
      rw [push, if_neg (by omega)]
      refine ⟨fun hnil => ?_, fun last hlast => ?_⟩
      · rw [popped_snoc] at hnil
        exact hunread hnil
      · rw [popped_snoc] at hlast
        obtain ⟨hf, hcell⟩ := hread last hlast
        refine ⟨hf, fun hsize => ?_⟩
        -- the new element is not in the cell that was read last
        have hsize' : q.mSize + 1 < n := hsize
        change (q.mArray.set (q.next q.mBack).toNat item)[q.mFront.toNat]? = some last
        rw [List.getElem?_set_ne (next_back_ne_front hf (by omega))]
        exact hcell (by omega)
  | @pop item q' hpop =>
      unfold pop at hpop
      split at hpop
      · cases hpop
      · obtain ⟨rfl, rfl⟩ := Prod.mk.inj (Option.some.inj hpop)
        have hnext := q.next_range q.front_range.1
        refine ⟨fun hnil => ?_, fun last hlast => ⟨hnext.1, fun _ => ?_⟩⟩
        · rw [popped_snoc] at hnil
          exact absurd hnil (by simp)
        · rw [popped_snoc, List.getLast?_concat] at hlast
          have hlen := q.length_eq
          have hcell : (q.next q.mFront).toNat < q.mArray.length := by omega
          exact (List.getElem?_eq_getElem hcell).trans hlast
  | clear =>
      refine ⟨fun _ => rfl, fun last hlast => ?_⟩
      rw [popped_snoc] at hlast
      cases hlast
  | size | full | empty | back =>
      refine ⟨fun hnil => ?_, fun last hlast => ?_⟩
      · rw [popped_snoc] at hnil
        exact hunread hnil
      · rw [popped_snoc] at hlast
        exact hread last hlast

/-- In a full queue the cell that was read last is the one that was written last. -/
theorem front_eq_back {q : BlockQueue α} (hfull : q.mSize = q.mMaxSize) (hf : 0 ≤ q.mFront) :
    q.mFront = q.mBack := by
  have hpos := q.max_pos
  have hb := q.back_range
  have hlink := q.linked.sub_right 1
  rw [hfull, show q.mFront + 1 + q.mMaxSize - 1 = q.mFront + q.mMaxSize by omega,
    add_sub_cancel_right] at hlink
  have hmod : q.mFront % q.mMaxSize = q.mBack % q.mMaxSize := by
    rw [← Int.add_emod_right q.mFront q.mMaxSize]
    exact hlink
  rwa [Int.emod_eq_of_lt hf q.front_range.2,
    Int.emod_eq_of_lt (hb.2.2 (by omega)) hb.2.1] at hmod

/-- **What `front` returns**, in every run whose pushes find room, when the queue is not empty: as
long as nothing was popped since the queue was made or cleared, it reads outside of the array; then
it returns the element that was popped last, which is no longer in the queue, or the newest one, if
the queue is full. -/
theorem front_run [Inhabited α] (n : ℕ) (h : 0 < (n : ℤ)) {evs : List (Op α)} {q : BlockQueue α}
    (hr : Run (Guarded Step Room) (ofSize n h) evs q) (hne : q.contents ≠ []) :
    q.front = (Fifo.popped evs).getLast?.map fun last =>
      if q.contents.length = n then q.contents.getLast? else some last := by
  have hlen := q.length_contents
  have hmax := (isFifo_of_room hr).2
  have hread := readLast_run hr
  have hpos := List.length_pos_iff.2 hne
  rw [front, if_neg (by omega)]
  cases hlast : (Fifo.popped evs).getLast? with
  | none =>
      have hfront := hread.unread (List.getLast?_eq_none_iff.1 hlast)
      rw [dif_neg (by omega)]
      rfl
  | some last =>
      obtain ⟨hf, hcell⟩ := hread.read last hlast
      rw [dif_pos hf, Option.map_some]
      refine congrArg some ?_
      split
      · next hfull =>
          rw [← back_eq, back, dif_neg (by omega)]
          simp only [front_eq_back (q := q) (by omega) hf]
      · have hsize := (isFifo_of_room hr).1.size_le
        have hget := hcell (by omega)
        rw [← hget]
        exact (List.getElem?_eq_getElem _).symm

/-- One element was popped, and another one is in the queue. -/
theorem front_run_popped : ∃ (evs : List (Op ℕ)) (q : BlockQueue ℕ),
    Run (Guarded Step Room) (ofSize ((2 : ℕ) : ℤ) (by decide)) evs q ∧ q.contents = [8] ∧
      q.front = some (some 7) := by
  have hr : Run (Guarded Step Room) (ofSize ((2 : ℕ) : ℤ) (by decide) : BlockQueue ℕ) _ _ := .nil
  have hr := hr.snoc ⟨.push 7, (by decide : (0 : ℤ) < 2)⟩
  have hr := hr.snoc ⟨.push 8, (by decide : (1 : ℤ) < 2)⟩
  have hr := hr.snoc ⟨.pop rfl, trivial⟩
  exact ⟨_, _, hr, rfl, front_run 2 (by decide) hr (by decide)⟩

end BlockQueue

end Gateway
