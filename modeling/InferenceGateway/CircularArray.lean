/-
**Windows of a circular array.**

A queue in an array of fixed length is a window on the array: a start, a number of cells, and
positions that go on at the front when they reach the end.  This module reads the window off as a
list and says what a store into the array and a move of the start do to it.

Main definitions:

* `CircularArray.window` — the cells of a window, in order.

Main results:

* `CircularArray.window_snoc` — a store behind a window that leaves a cell free appends to it;
* `CircularArray.window_wrap` — the same store into a window that covers the whole array: the first
  cell is lost, and the stored value stands at both ends;
* `CircularArray.window_cons` — the first cell of a window, and the window behind it.
-/

import Mathlib.Data.List.Basic
import Mathlib.Data.Nat.ModEq

set_option relaxedAutoImplicit false
set_option autoImplicit false

namespace CircularArray

variable {α : Type*}

/-- The `count` cells from position `start` on. -/
def window (cells : List α) : ℕ → ℕ → List α
  | _, 0 => []
  | start, count + 1 =>
      (cells[start % cells.length]?).toList ++ window cells (start + 1) count

@[simp] theorem window_zero (cells : List α) (start : ℕ) : window cells start 0 = [] := rfl

/-! ### Positions -/

/-- Positions less than one round apart are different cells. -/
theorem mod_ne {n a b : ℕ} (hab : a < b) (hb : b < a + n) : a % n ≠ b % n := by
  intro h
  have hdvd : n ∣ b - a := (Nat.modEq_iff_dvd' hab.le).1 h
  exact absurd (Nat.le_of_dvd (by omega) hdvd) (by omega)

/-! ### Reading -/

/-- **The first cell of a window** and the window behind it. -/
theorem window_cons {cells : List α} {start : ℕ} (h : start % cells.length < cells.length)
    (count : ℕ) :
    window cells start (count + 1) =
      cells.get ⟨start % cells.length, h⟩ :: window cells (start + 1) count := by
  rw [window, List.getElem?_eq_getElem h]
  rfl

/-- The last cell of a window. -/
theorem window_succ (cells : List α) (start count : ℕ) :
    window cells start (count + 1) =
      window cells start count ++ (cells[(start + count) % cells.length]?).toList := by
  induction count generalizing start with
  | zero => simp [window]
  | succ count ih =>
      rw [window, ih (start + 1), ← List.append_assoc, ← window,
        show start + 1 + count = start + (count + 1) by omega]

theorem length_window {cells : List α} (h : 0 < cells.length) (start count : ℕ) :
    (window cells start count).length = count := by
  induction count generalizing start with
  | zero => rfl
  | succ count ih =>
      rw [window_cons (Nat.mod_lt _ h), List.length_cons, ih]

/-- Only the remainder of the start matters. -/
theorem window_mod (cells : List α) (start count : ℕ) :
    window cells (start % cells.length) count = window cells start count := by
  induction count generalizing start with
  | zero => rfl
  | succ count ih =>
      have h : window cells (start % cells.length + 1) count = window cells (start + 1) count := by
        rw [← ih (start % cells.length + 1), ← ih (start + 1), Nat.mod_add_mod]
      rw [window, window, Nat.mod_mod, h]

/-! ### Storing -/

/-- A store outside a window. -/
theorem window_set_of_ne (cells : List α) (x : α) {j start count : ℕ}
    (h : ∀ i, i < count → (start + i) % cells.length ≠ j) :
    window (cells.set j x) start count = window cells start count := by
  induction count generalizing start with
  | zero => rfl
  | succ count ih =>
      have hhead : start % cells.length ≠ j := h 0 (by omega)
      have htail : ∀ i, i < count → (start + 1 + i) % cells.length ≠ j := fun i hi => by
        rw [show start + 1 + i = start + (i + 1) by omega]
        exact h (i + 1) (by omega)
      rw [window, window, List.length_set, List.getElem?_set_ne hhead.symm, ih htail]

/-- The store behind a window, as the last cell of a window that is one longer. -/
theorem getElem?_set_behind {cells : List α} (hc : 0 < cells.length) (x : α) (start count : ℕ) :
    (cells.set ((start + count) % cells.length) x)[(start + count) %
      (cells.set ((start + count) % cells.length) x).length]? = some x := by
  rw [List.length_set, List.getElem?_set_self (Nat.mod_lt _ hc)]

/-- **A store behind a window** appends to it, while a cell is free. -/
theorem window_snoc {cells : List α} (x : α) {start count : ℕ} (h : count < cells.length) :
    window (cells.set ((start + count) % cells.length) x) start (count + 1) =
      window cells start count ++ [x] := by
  have hfree : ∀ i, i < count → (start + i) % cells.length ≠ (start + count) % cells.length :=
    fun i hi => mod_ne (by omega) (by omega)
  rw [window_succ, window_set_of_ne cells x hfree, getElem?_set_behind (by omega)]
  rfl

/-- **A store behind a window that covers the array** hits its first cell. -/
theorem window_wrap {cells : List α} {count : ℕ} (hc : cells.length = count + 1) (x : α)
    (start : ℕ) :
    window (cells.set ((start + (count + 1)) % cells.length) x) start (count + 2) =
      x :: window cells (start + 1) count ++ [x] := by
  have hround : (start + (count + 1)) % cells.length = start % cells.length := by
    rw [hc, Nat.add_mod_right]
  -- the cells behind the first are not the one that is stored into
  have hrest : ∀ i, i < count →
      (start + 1 + i) % cells.length ≠ (start + (count + 1)) % cells.length := fun i hi =>
    mod_ne (by omega) (by omega)
  rw [window_succ, getElem?_set_behind (by omega), window, List.length_set,
    window_set_of_ne cells x hrest, hround, List.getElem?_set_self (Nat.mod_lt _ (by omega))]
  rfl

end CircularArray
