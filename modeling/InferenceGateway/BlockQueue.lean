/-
**The ring buffer of the log, and the bounded FIFO it stands for.**

`block_queue` keeps its elements in an array of `m_max_size` cells: `m_back` is the cell written
last, `m_front` the cell read last, both `-1` at first, and `m_size` counts on its own.  Every
operation runs under the mutex from its first line to its last, so a run of any number of threads is
a sequence of operations; `pop` waits while the queue is empty, so it is a step of a queue that is
not.

The array holds what `T` is constructed with until it is written.

Main definitions:

* `Gateway.BlockQueue` — the class with what its indices keep to, `Gateway.BlockQueue.contents` —
  the elements that `m_front` and `m_size` span;
* `Gateway.BlockQueue.Step` — one operation of one thread;
* `Gateway.Fifo.Step` — what the operations do on a list of at most `n` elements.

Main results:

* `Gateway.BlockQueue.step_fifo` — while no `push` finds the queue full, the ring does what the list
  does;
* `Gateway.BlockQueue.push_overwrites` — a `push` on a full queue overwrites the oldest element;
* `Gateway.BlockQueue.fifo_iff_room` — **a run is one of a bounded FIFO exactly when none of its
  pushes found the queue full.**
-/

import Mathlib.Data.Int.ModEq
import InferenceGateway.CircularArray
import InferenceGateway.EventSystem

set_option relaxedAutoImplicit false
set_option autoImplicit false

namespace Gateway

open CircularArray (window)
open EventSystem (Run Guarded)

/-! ### The class -/

/-- `block_queue`.  The last six fields hold of every value that the constructor and the
operations make. -/
structure BlockQueue (α : Type*) where
  mArray : List α
  mSize : ℤ
  mMaxSize : ℤ
  mFront : ℤ
  mBack : ℤ
  max_pos : 0 < mMaxSize
  length_eq : (mArray.length : ℤ) = mMaxSize
  size_nonneg : 0 ≤ mSize
  front_range : -1 ≤ mFront ∧ mFront < mMaxSize
  back_range : -1 ≤ mBack ∧ mBack < mMaxSize ∧ (0 < mSize → 0 ≤ mBack)
  linked : mFront + 1 + mSize ≡ mBack + 1 [ZMOD mMaxSize]

namespace BlockQueue

variable {α : Type*}

/-- `(i + 1) % m_max_size`, with the remainder of the machine. -/
def next (q : BlockQueue α) (i : ℤ) : ℤ := (i + 1).tmod q.mMaxSize

theorem next_eq (q : BlockQueue α) {i : ℤ} (h : -1 ≤ i) : q.next i = (i + 1) % q.mMaxSize :=
  Int.tmod_eq_emod_of_nonneg (by omega)

theorem next_range (q : BlockQueue α) {i : ℤ} (h : -1 ≤ i) :
    0 ≤ q.next i ∧ q.next i < q.mMaxSize := by
  have hpos := q.max_pos
  rw [q.next_eq h]
  exact ⟨Int.emod_nonneg _ hpos.ne', Int.emod_lt_of_pos _ hpos⟩

theorem next_modEq (q : BlockQueue α) {i : ℤ} (h : -1 ≤ i) :
    q.next i ≡ i + 1 [ZMOD q.mMaxSize] := by
  rw [q.next_eq h]
  exact Int.mod_modEq _ _

/-- `m_array[i]`. -/
def cell (q : BlockQueue α) (i : ℤ) (h : 0 ≤ i ∧ i < q.mMaxSize) : α :=
  q.mArray.get ⟨i.toNat, by have := q.length_eq; omega⟩

/-- `block_queue(max_size)`, behind its test. -/
def ofSize [Inhabited α] (maxSize : ℤ) (h : 0 < maxSize) : BlockQueue α where
  mArray := List.replicate maxSize.toNat default
  mSize := 0
  mMaxSize := maxSize
  mFront := -1
  mBack := -1
  max_pos := h
  length_eq := by rw [List.length_replicate]; omega
  size_nonneg := le_rfl
  front_range := by omega
  back_range := by omega
  linked := .refl _

/-- `block_queue(max_size)`, which leaves the process when `max_size <= 0`. -/
def construct [Inhabited α] (maxSize : ℤ) : Option (BlockQueue α) :=
  if h : 0 < maxSize then some (ofSize maxSize h) else none

def clear (q : BlockQueue α) : BlockQueue α :=
  { q with
    mSize := 0
    mFront := -1
    mBack := -1
    size_nonneg := le_rfl
    front_range := by have := q.max_pos; omega
    back_range := by have := q.max_pos; omega
    linked := .refl _ }

def full (q : BlockQueue α) : Bool := decide (q.mMaxSize ≤ q.mSize)

def empty (q : BlockQueue α) : Bool := decide (0 = q.mSize)

def size (q : BlockQueue α) : ℤ := q.mSize

/-- `back(value)`: the value, or nothing when it returns false. -/
def back (q : BlockQueue α) : Option α :=
  if h : 0 = q.mSize then none
  else some (q.cell q.mBack (by have := q.back_range; have := q.size_nonneg; omega))

/-- The part of `push` behind the test. -/
def store (q : BlockQueue α) (item : α) : BlockQueue α :=
  { q with
    mBack := q.next q.mBack
    mArray := q.mArray.set (q.next q.mBack).toNat item
    mSize := q.mSize + 1
    length_eq := by rw [List.length_set, q.length_eq]
    size_nonneg := by have := q.size_nonneg; omega
    back_range := by have := q.next_range q.back_range.1; omega
    linked := by
      rw [← add_assoc]
      exact (q.linked.trans (q.next_modEq q.back_range.1).symm).add_right 1 }

/-- `push`.  The test is `m_size > m_max_size`. -/
def push (q : BlockQueue α) (item : α) : Bool × BlockQueue α :=
  if q.mSize > q.mMaxSize then (false, q) else (true, q.store item)

/-- `pop`, which waits while `m_size <= 0`. -/
def pop (q : BlockQueue α) : Option (α × BlockQueue α) :=
  if h : q.mSize ≤ 0 then none
  else some (q.cell (q.next q.mFront) (q.next_range q.front_range.1),
    { q with
      mFront := q.next q.mFront
      mSize := q.mSize - 1
      size_nonneg := by omega
      front_range := by have := q.next_range q.front_range.1; omega
      back_range := by have := q.back_range; omega
      linked := by
        rw [show q.next q.mFront + 1 + (q.mSize - 1) = q.next q.mFront + q.mSize by omega]
        exact ((q.next_modEq q.front_range.1).add_right _).trans q.linked })

/-- The elements in the queue, the oldest first. -/
def contents (q : BlockQueue α) : List α := window q.mArray (q.mFront + 1).toNat q.mSize.toNat

/-! ### One operation -/

/-- An operation with what it returned. -/
inductive Op (α : Type*)
  | push (item : α) (pushed : Bool)
  | pop (item : α)
  | clear
  | size (n : ℤ)
  | full (b : Bool)
  | empty (b : Bool)
  | back (value : Option α)

/-- One operation of one thread, under the mutex. -/
inductive Step (q : BlockQueue α) : Op α → BlockQueue α → Prop
  | push (item : α) : Step q (.push item (q.push item).1) (q.push item).2
  | pop {item : α} {q' : BlockQueue α} (h : q.pop = some (item, q')) : Step q (.pop item) q'
  | clear : Step q .clear q.clear
  | size : Step q (.size q.size) q
  | full : Step q (.full q.full) q
  | empty : Step q (.empty q.empty) q
  | back : Step q (.back q.back) q

/-- A `push` finds room. -/
def Room (q : BlockQueue α) : Op α → Prop
  | .push _ _ => q.mSize < q.mMaxSize
  | _ => True

end BlockQueue

/-! ### The bounded FIFO -/

namespace Fifo

open BlockQueue (Op)

variable {α : Type*} {n : ℕ}

/-- What an operation does on a list of at most `n` elements, and what it returns. -/
inductive Step (n : ℕ) : List α → Op α → List α → Prop
  | push {l : List α} (item : α) (h : l.length < n) : Step n l (.push item true) (l ++ [item])
  | reject {l : List α} (item : α) (h : l.length = n) : Step n l (.push item false) l
  | pop (item : α) (l : List α) : Step n (item :: l) (.pop item) l
  | clear (l : List α) : Step n l .clear []
  | size (l : List α) : Step n l (.size l.length) l
  | full (l : List α) : Step n l (.full (decide (l.length = n))) l
  | empty (l : List α) : Step n l (.empty l.isEmpty) l
  | back (l : List α) : Step n l (.back l.getLast?) l

/-- The elements accepted since the queue was last cleared. -/
def accepted (evs : List (Op α)) : List α :=
  evs.foldl (fun l op => match op with
    | .push item true => l ++ [item]
    | .clear => []
    | _ => l) []

/-- The elements popped since the queue was last cleared. -/
def popped (evs : List (Op α)) : List α :=
  evs.foldl (fun l op => match op with
    | .pop item => l ++ [item]
    | .clear => []
    | _ => l) []

theorem Step.length_le {l l' : List α} {op : Op α} (hs : Step n l op l') (h : l.length ≤ n) :
    l'.length ≤ n := by
  cases hs with
  | push item h => rw [List.length_append, List.length_singleton]; omega
  | pop item => exact Nat.le_of_succ_le h
  | clear => exact Nat.zero_le n
  | reject | size | full | empty | back => exact h

theorem Step.lt_of_push {l l' : List α} {item : α} (h : Step n l (.push item true) l') :
    l.length < n := by
  cases h with
  | push _ h => exact h

theorem Step.unique {l l₁ l₂ : List α} {op : Op α} (h₁ : Step n l op l₁) (h₂ : Step n l op l₂) :
    l₁ = l₂ := by
  cases h₁ <;> cases h₂ <;> rfl

theorem length_le {l : List α} {evs : List (Op α)} (hr : Run (Step n) [] evs l) :
    l.length ≤ n :=
  hr.invariant_state (P := fun l => l.length ≤ n) (Nat.zero_le n) fun _ _ _ h hs => hs.length_le h

/-- **Nothing is lost, duplicated or reordered**: what was accepted is what was popped and what is
still there, in this order. -/
theorem accepted_eq {l : List α} {evs : List (Op α)} (hr : Run (Step n) [] evs l) :
    accepted evs = popped evs ++ l := by
  refine hr.invariant (P := fun evs l => accepted evs = popped evs ++ l) rfl ?_
  intro evs l op l' _ ih hs
  rw [accepted, popped, List.foldl_append, List.foldl_append, ← accepted, ← popped, ih]
  cases hs with
  | push item h => exact List.append_assoc ..
  | pop item =>
      show popped evs ++ item :: l' = popped evs ++ [item] ++ l'
      rw [List.append_assoc, List.singleton_append]
  | clear | reject | size | full | empty | back => rfl

end Fifo

namespace BlockQueue

variable {α : Type*}

/-! ### The contents -/

theorem array_pos (q : BlockQueue α) : 0 < q.mArray.length := by
  have := q.length_eq
  have := q.max_pos
  omega

theorem length_contents (q : BlockQueue α) : (q.contents.length : ℤ) = q.mSize := by
  have := q.size_nonneg
  rw [contents, CircularArray.length_window q.array_pos]
  omega

/-- The cell that `push` stores into is the one behind the contents. -/
theorem next_back (q : BlockQueue α) :
    (q.next q.mBack).toNat = ((q.mFront + 1).toNat + q.mSize.toNat) % q.mArray.length := by
  have hf := q.front_range
  have hs := q.size_nonneg
  have hlt := q.next_range q.back_range.1
  have hmod : q.next q.mBack = (q.mFront + 1 + q.mSize) % q.mMaxSize := by
    rw [q.linked, q.next_eq q.back_range.1]
  zify
  rw [Int.toNat_of_nonneg hlt.1, Int.toNat_of_nonneg (by omega), Int.toNat_of_nonneg hs,
    q.length_eq, hmod]

/-- **`push` appends** while there is room. -/
theorem contents_store {q : BlockQueue α} (item : α) (h : q.mSize < q.mMaxSize) :
    (q.store item).contents = q.contents ++ [item] := by
  have hlen := q.length_eq
  have hs := q.size_nonneg
  show window (q.mArray.set (q.next q.mBack).toNat item) (q.mFront + 1).toNat
    (q.mSize + 1).toNat = _
  rw [q.next_back, Int.toNat_add hs (by omega)]
  exact CircularArray.window_snoc item (by omega)

/-- **`push` on a full queue** overwrites the oldest element, and the new one is there twice. -/
theorem push_overwrites {q : BlockQueue α} (item : α) (h : q.mSize = q.mMaxSize) :
    (q.push item).1 = true ∧ (q.push item).2.mSize = q.mMaxSize + 1 ∧
      (q.push item).2.contents = item :: q.contents.tail ++ [item] := by
  have hlen := q.length_eq
  have hpos := q.array_pos
  obtain ⟨k, hk⟩ : ∃ k, q.mArray.length = k + 1 := ⟨q.mArray.length - 1, by omega⟩
  have hsize : q.mSize.toNat = k + 1 := by omega
  rw [push, if_neg (by omega)]
  refine ⟨rfl, congrArg (· + 1) h, ?_⟩
  show window (q.mArray.set (q.next q.mBack).toNat item) (q.mFront + 1).toNat
    (q.mSize + 1).toNat = _
  rw [q.next_back, show (q.mSize + 1).toNat = k + 2 by omega, hsize,
    CircularArray.window_wrap hk, contents, hsize,
    CircularArray.window_cons (Nat.mod_lt _ hpos), List.tail_cons]

/-- **`pop` takes the oldest element.** -/
theorem contents_pop {q q' : BlockQueue α} {item : α} (h : q.pop = some (item, q')) :
    q.contents = item :: q'.contents ∧ q'.mMaxSize = q.mMaxSize ∧ q'.mSize = q.mSize - 1 := by
  unfold pop at h
  split at h
  · simp at h
  · next hpos =>
      obtain ⟨rfl, rfl⟩ := Prod.mk.inj (Option.some.inj h)
      refine ⟨?_, rfl, rfl⟩
      have hf := q.front_range
      have hnext : (q.next q.mFront).toNat = (q.mFront + 1).toNat % q.mArray.length := by
        have hlt := q.next_range hf.1
        zify
        rw [Int.toNat_of_nonneg hlt.1, Int.toNat_of_nonneg (by omega), q.length_eq,
          q.next_eq hf.1]
      obtain ⟨k, hk⟩ : ∃ k, q.mSize.toNat = k + 1 := ⟨q.mSize.toNat - 1, by omega⟩
      have hrest : window q.mArray (q.next q.mFront + 1).toNat (q.mSize - 1).toNat =
          window q.mArray ((q.mFront + 1).toNat + 1) k := by
        have hlt := q.next_range hf.1
        rw [Int.toNat_add hlt.1 (by omega), hnext, show (q.mSize - 1).toNat = k by omega,
          ← CircularArray.window_mod, show Int.toNat 1 = 1 from rfl, Nat.mod_add_mod,
          CircularArray.window_mod]
      rw [contents, hk, CircularArray.window_cons (Nat.mod_lt _ q.array_pos)]
      refine congrArg₂ _ ?_ hrest.symm
      exact congrArg q.mArray.get (Fin.ext hnext.symm)

/-- **`back` reads the newest element.** -/
theorem back_eq (q : BlockQueue α) : q.back = q.contents.getLast? := by
  have hs := q.size_nonneg
  by_cases h : 0 = q.mSize
  · have hnil : q.contents = [] := List.length_eq_zero_iff.1 (by have := q.length_contents; omega)
    rw [back, dif_pos h, hnil]
    rfl
  · have hf := q.front_range
    have hb := q.back_range
    have hb' : 0 ≤ q.mBack := hb.2.2 (by omega)
    obtain ⟨k, hk⟩ : ∃ k, q.mSize.toNat = k + 1 := ⟨q.mSize.toNat - 1, by omega⟩
    -- `m_back` is the last cell of the window, as both follow the cell before it
    have hlast : q.mBack.toNat = ((q.mFront + 1).toNat + k) % q.mArray.length := by
      have hmod : q.mFront + 1 + (q.mSize - 1) ≡ q.mBack [ZMOD q.mMaxSize] := by
        have := q.linked.sub_right 1
        rwa [show q.mFront + 1 + q.mSize - 1 = q.mFront + 1 + (q.mSize - 1) by omega,
          add_sub_cancel_right] at this
      zify
      rw [Int.toNat_of_nonneg hb', Int.toNat_of_nonneg (by omega), q.length_eq,
        show (k : ℤ) = q.mSize - 1 by omega, hmod, Int.emod_eq_of_lt hb' hb.2.1]
    rw [back, dif_neg h, contents, hk, CircularArray.window_succ, ← hlast,
      List.getElem?_eq_getElem (by have := q.length_eq; omega)]
    exact (List.getLast?_concat ..).symm

/-! ### The refinement -/

/-- **While a `push` finds room, the ring does what the list does.** -/
theorem step_fifo {n : ℕ} {q q' : BlockQueue α} {op : Op α} (hs : Step q op q')
    (hmax : q.mMaxSize = n) (hle : q.mSize ≤ n) (hroom : Room q op) :
    Fifo.Step n q.contents op q'.contents ∧ q'.mMaxSize = n ∧ q'.mSize ≤ n := by
  have hlen := q.length_contents
  cases hs with
  | push item =>
      have hlt : q.mSize < q.mMaxSize := hroom
      rw [push, if_neg (by omega)]
      refine ⟨?_, hmax, ?_⟩
      · rw [contents_store item hlt]
        exact .push item (by omega)
      · show q.mSize + 1 ≤ n
        omega
  | pop h =>
      obtain ⟨hc, hm, hsz⟩ := contents_pop h
      rw [hc]
      exact ⟨.pop _ _, by omega, by omega⟩
  | clear => exact ⟨.clear _, hmax, Int.natCast_nonneg n⟩
  | size =>
      refine ⟨?_, hmax, hle⟩
      rw [size, ← hlen]
      exact .size _
  | full =>
      have hfull : q.full = decide (q.contents.length = n) := by
        rw [full]
        exact decide_eq_decide.2 (by omega)
      rw [hfull]
      exact ⟨.full _, hmax, hle⟩
  | empty =>
      have hempty : q.empty = q.contents.isEmpty := by
        rw [empty, Bool.eq_iff_iff, decide_eq_true_iff, List.isEmpty_iff_length_eq_zero]
        omega
      rw [hempty]
      exact ⟨.empty _, hmax, hle⟩
  | back =>
      rw [back_eq]
      exact ⟨.back _, hmax, hle⟩

/-- What a bounded FIFO promises of a run: each operation returned what the list gives, the list is
what the ring holds, and there are never more than `n` elements. -/
structure IsFifo (n : ℕ) (evs : List (Op α)) (q : BlockQueue α) : Prop where
  trace : Run (Fifo.Step n) [] evs q.contents
  size_eq : q.mSize = q.contents.length
  size_le : q.mSize ≤ n
  kept : Fifo.accepted evs = Fifo.popped evs ++ q.contents

/-- A run whose pushes all find room. -/
theorem isFifo_of_room [Inhabited α] {n : ℕ} {h : 0 < (n : ℤ)} {evs : List (Op α)}
    {q : BlockQueue α} (hr : Run (Guarded Step Room) (ofSize n h) evs q) :
    IsFifo n evs q ∧ q.mMaxSize = n := by
  have hinv : Run (Fifo.Step n) [] evs q.contents ∧ q.mMaxSize = (n : ℤ) ∧ q.mSize ≤ (n : ℤ) := by
    refine hr.invariant (P := fun evs q =>
      Run (Fifo.Step n) [] evs q.contents ∧ q.mMaxSize = (n : ℤ) ∧ q.mSize ≤ (n : ℤ))
      ⟨.nil, rfl, h.le⟩ ?_
    rintro evs q op q' - ⟨htrace, hmax, hle⟩ ⟨hs, hroom⟩
    obtain ⟨hstep, hmax', hle'⟩ := step_fifo hs hmax hle hroom
    exact ⟨htrace.snoc hstep, hmax', hle'⟩
  obtain ⟨htrace, hmax, hle⟩ := hinv
  exact ⟨⟨htrace, q.length_contents.symm, hle, Fifo.accepted_eq htrace⟩, hmax⟩

/-- A run whose operations returned what a bounded FIFO returns. -/
theorem room_of_trace [Inhabited α] {n : ℕ} {h : 0 < (n : ℤ)} {evs : List (Op α)}
    {q : BlockQueue α} (hr : Run Step (ofSize n h) evs q) :
    ∀ {l : List α}, Run (Fifo.Step n) [] evs l → Run (Guarded Step Room) (ofSize n h) evs q := by
  induction hr with
  | nil => exact fun _ => .nil
  | @snoc evs q q' op hr hs ih =>
      intro l hl
      obtain ⟨l', hl', hop⟩ := hl.of_snoc
      have hg := ih hl'
      obtain ⟨hq, hmax⟩ := isFifo_of_room hg
      obtain rfl := hl'.unique (R := Fifo.Step n) (fun _ _ _ _ => Fifo.Step.unique) hq.trace
      refine hg.snoc ⟨hs, ?_⟩
      cases hs with
      | push item =>
          -- on a full queue the ring returns true and the list returns false
          by_contra hfull
          have hsize : q.mSize = q.mMaxSize := by
            have := hq.size_le
            simp only [Room] at hfull
            omega
          rw [(push_overwrites item hsize).1] at hop
          have := hop.lt_of_push
          have := hq.size_eq
          omega
      | pop | clear | size | full | empty | back => trivial

/-- **The ring buffer is a bounded FIFO exactly in the runs whose pushes all found room.** -/
theorem fifo_iff_room [Inhabited α] (n : ℕ) (h : 0 < (n : ℤ)) {evs : List (Op α)}
    {q : BlockQueue α} (hr : Run Step (ofSize n h) evs q) :
    IsFifo n evs q ↔ Run (Guarded Step Room) (ofSize n h) evs q :=
  ⟨fun hq => room_of_trace hr hq.trace, fun hg => (isFifo_of_room hg).1⟩

/-- In a queue of two cells the third element is stored where the first one was, and all three are
popped in their order. -/
theorem fifo_iff_room_wrap : ∃ q₁ q₂ : BlockQueue ℕ,
    IsFifo 2 [.push 7 true, .push 8 true, .full true, .pop 7, .push 9 true] q₁ ∧
      q₁.mArray = [9, 8] ∧ q₁.contents = [8, 9] ∧
      IsFifo 2 [.push 7 true, .push 8 true, .full true, .pop 7, .push 9 true, .pop 8, .pop 9,
        .empty true] q₂ ∧ q₂.contents = [] := by
  have hr : Run (Guarded Step Room) (ofSize ((2 : ℕ) : ℤ) zero_lt_two : BlockQueue ℕ) _ _ :=
    .single ⟨Step.push 7, (zero_lt_two : (0 : ℤ) < 2)⟩
  have hr := hr.snoc ⟨Step.push 8, (one_lt_two : (1 : ℤ) < 2)⟩
  have hr := hr.snoc ⟨Step.full, trivial⟩
  have hr := hr.snoc ⟨@Step.pop ℕ _ 7 _ rfl, trivial⟩
  have hr₁ := hr.snoc ⟨Step.push 9, (one_lt_two : (1 : ℤ) < 2)⟩
  have hr := hr₁.snoc ⟨@Step.pop ℕ _ 8 _ rfl, trivial⟩
  have hr := hr.snoc ⟨@Step.pop ℕ _ 9 _ rfl, trivial⟩
  have hr₂ := hr.snoc ⟨Step.empty, trivial⟩
  exact ⟨_, _, (fifo_iff_room 2 zero_lt_two hr₁.of_guarded).2 hr₁, by decide, by decide,
    (fifo_iff_room 2 zero_lt_two hr₂.of_guarded).2 hr₂, by decide⟩

/-- A second `push` into a queue of one cell returns true and makes the size two. -/
theorem not_fifo :
    ¬ ∀ (n : ℕ) (h : 0 < (n : ℤ)) (evs : List (Op ℕ)) (q : BlockQueue ℕ),
      Run Step (ofSize n h) evs q → IsFifo n evs q := by
  intro hall
  have hr : Run Step (ofSize ((1 : ℕ) : ℤ) Int.one_pos : BlockQueue ℕ) _ _ :=
    (Run.single (Step.push 7)).snoc (Step.push 8)
  exact absurd (hall 1 Int.one_pos _ _ hr).size_le (by decide)

end BlockQueue

end Gateway
