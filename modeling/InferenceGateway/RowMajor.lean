/-
**Rows of a flat array.**

A matrix stored row by row is a flat list and a row length; row `i` starts at `i * k`.  This module
relates that reading to the list of the rows: what is put together row after row is read back row
by row.  Nothing here fixes what the entries are.

* `RowMajor.row` — the row that starts at `i * k`;
* `RowMajor.row_flatten` — **the rows of a concatenation** of lists of length `k` are these lists;
* `RowMajor.MapsRows` — one flat array is the image of another, row by row;
* `RowMajor.mapsRows_flatten` — every function on rows has such an image.
-/

import Mathlib.Data.List.Basic
import Mathlib.Tactic.Ring

set_option relaxedAutoImplicit false
set_option autoImplicit false

namespace RowMajor

variable {α β : Type*}

/-- Row `i` of the flat array `l`, whose rows have length `k`. -/
def row (k i : ℕ) (l : List α) : List α := (l.drop (i * k)).take k

theorem row_zero (k : ℕ) (l : List α) : row k 0 l = l.take k := by simp [row]

/-- Behind the first row the numbering starts again. -/
theorem row_succ_append {k : ℕ} (i : ℕ) {r : List α} (l : List α) (h : r.length = k) :
    row k (i + 1) (r ++ l) = row k i l := by
  have hdrop : (i + 1) * k = r.length + i * k := by rw [h]; ring
  rw [row, row, hdrop, List.drop_length_add_append]

theorem length_row {k i n : ℕ} {l : List α} (hl : l.length = n * k) (hi : i < n) :
    (row k i l).length = k := by
  have h : (i + 1) * k ≤ n * k := Nat.mul_le_mul_right k hi
  have h' : (i + 1) * k = i * k + k := by ring
  rw [row, List.length_take, List.length_drop]
  omega

theorem length_flatten {k : ℕ} {rows : List (List α)} (h : ∀ r ∈ rows, r.length = k) :
    rows.flatten.length = rows.length * k := by
  induction rows with
  | nil => simp
  | cons r rows ih =>
      have hr := h r (List.mem_cons_self ..)
      have := ih fun r' hr' => h r' (List.mem_cons_of_mem _ hr')
      rw [List.flatten_cons, List.length_append, hr, this, List.length_cons]
      ring

/-- **The rows of a concatenation.** -/
theorem row_flatten {k : ℕ} {rows : List (List α)} (h : ∀ r ∈ rows, r.length = k) {i : ℕ}
    {r : List α} (hi : rows[i]? = some r) : row k i rows.flatten = r := by
  induction rows generalizing i with
  | nil => simp at hi
  | cons a rows ih =>
      have ha := h a (List.mem_cons_self ..)
      cases i with
      | zero =>
          obtain rfl : a = r := by simpa using hi
          rw [row_zero, List.flatten_cons, ← ha, List.take_left]
      | succ i =>
          rw [List.flatten_cons, row_succ_append i _ ha]
          exact ih (fun r' hr' => h r' (List.mem_cons_of_mem _ hr')) (by simpa using hi)

/-- Among the first `n` rows of `out`, each is the image under `f` of the same row of `data`; the
rows of `data` have length `m`, those of `out` have length `k`, and `out` has no further entry. -/
def MapsRows (f : List α → List β) (m k n : ℕ) (data : List α) (out : List β) : Prop :=
  out.length = n * k ∧ ∀ i < n, row k i out = f (row m i data)

/-- Every function from rows of length `m` to rows of length `k` has an image. -/
theorem mapsRows_flatten {f : List α → List β} {m k n : ℕ} {data : List α}
    (hf : ∀ r, r.length = m → (f r).length = k) (hd : data.length = n * m) :
    MapsRows f m k n data ((List.range n).map fun i => f (row m i data)).flatten := by
  have hrows : ∀ r ∈ (List.range n).map fun i => f (row m i data), r.length = k := by
    intro r hr
    obtain ⟨i, hi, rfl⟩ := List.mem_map.1 hr
    exact hf _ (length_row hd (List.mem_range.1 hi))
  constructor
  · rw [length_flatten hrows, List.length_map, List.length_range]
  · intro i hi
    exact row_flatten hrows (by simp [hi])

end RowMajor
