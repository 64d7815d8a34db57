/-
**Shapes with symbolic dimensions.**

A model reports the shape of a tensor before there is one, so some of its dimensions may be left
open; these are reported as numbers below zero.  The tensor has the dimensions that are fixed, and
any others where they are open.

* `SymbolicShape.Matches` — the dimensions of a tensor with a reported shape;
* `SymbolicShape.volume` — the product of the positive dimensions;
* `SymbolicShape.prod_eq_iff` — **when the number of entries is known** from the reported shape.
-/

import Mathlib.Algebra.BigOperators.Ring.List
import Mathlib.Algebra.Ring.Int.Defs
import Mathlib.Algebra.Ring.Nat
import Mathlib.Data.List.Forall2

set_option relaxedAutoImplicit false
set_option autoImplicit false

namespace SymbolicShape

/-! ### Definitions -/

/-- The tensor has the fixed dimensions, and any where the reported shape is open. -/
def Matches (shape : List ℤ) (dims : List ℕ) : Prop :=
  List.Forall₂ (fun (d : ℤ) (n : ℕ) => d < 0 ∨ d = n) shape dims

/-- A positive dimension; the others count for nothing. -/
def extent (d : ℤ) : ℕ := if 0 < d then d.toNat else 1

/-- The product of the positive dimensions. -/
def volume (shape : List ℤ) : ℕ := (shape.map extent).prod

/-- The dimensions with `k` where the reported shape is open. -/
def instantiate (k : ℕ) (shape : List ℤ) : List ℕ :=
  shape.map fun d => if d < 0 then k else d.toNat

variable {shape : List ℤ} {dims : List ℕ} {k n : ℕ}

@[simp] theorem volume_nil : volume [] = 1 := rfl

@[simp] theorem volume_cons (d : ℤ) (shape : List ℤ) :
    volume (d :: shape) = extent d * volume shape := by
  rw [volume, List.map_cons, List.prod_cons, volume]

theorem extent_pos (d : ℤ) : 0 < extent d := by
  unfold extent
  split
  · omega
  · omega

theorem extent_of_nonpos {d : ℤ} (h : d ≤ 0) : extent d = 1 := if_neg (by omega)

theorem volume_pos (shape : List ℤ) : 0 < volume shape := by
  induction shape with
  | nil => exact Nat.one_pos
  | cons d shape ih =>
      rw [volume_cons]
      exact Nat.mul_pos (extent_pos d) ih

/-! ### Tensors of a shape -/

theorem matches_instantiate (k : ℕ) (shape : List ℤ) : Matches shape (instantiate k shape) := by
  induction shape with
  | nil => exact .nil
  | cons d shape ih =>
      refine .cons ?_ ih
      dsimp only
      split
      · next h => exact .inl h
      · next h => exact .inr (by omega)

theorem prod_of_pos (hpos : ∀ d ∈ shape, 0 < d) (h : Matches shape dims) :
    dims.prod = volume shape := by
  induction h with
  | nil => rfl
  | @cons d n shape dims hd _ ih =>
      have hlt := hpos d List.mem_cons_self
      have hn : extent d = n := by
        rw [extent, if_pos hlt]
        omega
      rw [List.prod_cons, volume_cons, hn, ih fun x hx => hpos x (List.mem_cons_of_mem d hx)]

theorem prod_of_zero (hzero : 0 ∈ shape) (h : Matches shape dims) : dims.prod = 0 := by
  induction h with
  | nil => cases hzero
  | @cons d n shape dims hd _ ih =>
      rw [List.prod_cons]
      rcases List.mem_cons.1 hzero with rfl | hmem
      · have hn : n = 0 := by omega
        rw [hn, Nat.zero_mul]
      · rw [ih hmem, Nat.mul_zero]

theorem prod_instantiate_one (hzero : 0 ∉ shape) :
    (instantiate 1 shape).prod = volume shape := by
  induction shape with
  | nil => rfl
  | cons d shape ih =>
      have hd : (if d < 0 then 1 else d.toNat) = extent d := by
        have hne : d ≠ 0 := fun h => hzero (h ▸ List.mem_cons_self)
        unfold extent
        split
        · rw [if_neg (by omega)]
        · rw [if_pos (by omega)]
      rw [volume_cons, ← hd, ← ih fun h => hzero (List.mem_cons_of_mem d h)]
      exact List.prod_cons

theorem prod_instantiate_zero {d : ℤ} (hd : d ∈ shape) (hneg : d < 0) :
    (instantiate 0 shape).prod = 0 := by
  refine @List.prod_eq_zero ℕ _ _ ?_
  exact List.mem_map.2 ⟨d, hd, if_pos hneg⟩

/-- **When the number of entries is known**: the dimensions are positive, or one of them is zero. -/
theorem prod_eq_iff :
    (∀ dims, Matches shape dims → dims.prod = n) ↔
      (∀ d ∈ shape, 0 < d) ∧ volume shape = n ∨ 0 ∈ shape ∧ n = 0 := by
  constructor
  · intro h
    by_cases hzero : (0 : ℤ) ∈ shape
    · exact .inr ⟨hzero, (h _ (matches_instantiate 1 shape)).symm.trans
        (prod_of_zero hzero (matches_instantiate 1 shape))⟩
    · have hvolume : volume shape = n :=
        (prod_instantiate_one hzero).symm.trans (h _ (matches_instantiate 1 shape))
      refine .inl ⟨?_, hvolume⟩
      intro d hd
      by_contra hle
      -- an open dimension may be zero as well
      have hne : d ≠ 0 := fun h => hzero (h ▸ hd)
      have hn := h _ (matches_instantiate 0 shape)
      rw [prod_instantiate_zero hd (by omega)] at hn
      have hpos := volume_pos shape
      omega
  · rintro (⟨hpos, hvolume⟩ | ⟨hzero, rfl⟩) dims hdims
    · exact (prod_of_pos hpos hdims).trans hvolume
    · exact prod_of_zero hzero hdims

/-- The same for a shape without open dimensions. -/
theorem prod_int_eq_iff (hfixed : ∀ d ∈ shape, 0 ≤ d) :
    shape.prod = (n : ℤ) ↔ (∀ d ∈ shape, 0 < d) ∧ volume shape = n ∨ 0 ∈ shape ∧ n = 0 := by
  have hcast : ∀ dims, Matches shape dims → shape.prod = (dims.prod : ℤ) := by
    intro dims h
    induction h with
    | nil => rfl
    | @cons d n shape dims hd _ ih =>
        have hnonneg := hfixed d List.mem_cons_self
        rw [List.prod_cons, List.prod_cons, ih fun x hx => hfixed x (List.mem_cons_of_mem d hx),
          hd.resolve_left (by omega)]
        exact (Int.natCast_mul ..).symm
  rw [← prod_eq_iff]
  constructor
  · intro h dims hdims
    exact Int.ofNat.inj ((hcast dims hdims).symm.trans h)
  · intro h
    rw [hcast _ (matches_instantiate 0 shape), h _ (matches_instantiate 0 shape)]

end SymbolicShape
