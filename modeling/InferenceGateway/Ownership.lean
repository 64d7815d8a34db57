/-
**Things that are in one place: a pool and its owners.**

A pool hands things out and takes them back.  What is to hold is that a thing is in the pool or with
one owner, once.  This module states that for a pool and any number of owners and says which moves
keep it.

Main definitions:

* `Ownership.Apart` — no thing is in two places;
* `Ownership.Fresh` — a thing that is in no place.

Main results:

* `Ownership.Apart.move` — **what one owner and the pool exchange**, together with fresh things,
  keeps them apart;
* `Ownership.Apart.take`, `Ownership.Apart.gain`, `Ownership.Apart.grow`, `Ownership.Apart.give`,
  `Ownership.Apart.shrink` — the moves of one thing.
-/

import Mathlib.Data.List.Nodup
import Mathlib.Logic.Function.Basic

set_option relaxedAutoImplicit false
set_option autoImplicit false

namespace Ownership

variable {ι P : Type*}

/-- No thing is in two places, or twice in one. -/
structure Apart (pool : List P) (own : ι → List P) : Prop where
  pool_nodup : pool.Nodup
  own_nodup : ∀ i, (own i).Nodup
  pool_own : ∀ p ∈ pool, ∀ i, p ∉ own i
  unique : ∀ i j p, p ∈ own i → p ∈ own j → i = j

/-- A thing that is in no place. -/
def Fresh (pool : List P) (own : ι → List P) (p : P) : Prop := p ∉ pool ∧ ∀ i, p ∉ own i

theorem apart_nil : Apart ([] : List P) (fun _ : ι => []) :=
  ⟨List.nodup_nil, fun _ => List.nodup_nil, fun _ hp => absurd hp List.not_mem_nil,
    fun _ _ _ hp => absurd hp List.not_mem_nil⟩

namespace Apart

variable {pool pool' l : List P} {own : ι → List P} {i : ι} {p : P}

/-- A fresh thing put into the pool. -/
theorem grow (h : Apart pool own) (hp : Fresh pool own p) : Apart (pool ++ [p]) own where
  pool_nodup := by
    rw [← List.concat_eq_append]
    exact h.pool_nodup.concat hp.1
  own_nodup := h.own_nodup
  pool_own q hq j := by
    rcases List.mem_append.1 hq with hq | hq
    · exact h.pool_own q hq j
    · rw [List.mem_singleton.1 hq]
      exact hp.2 j
  unique := h.unique

variable [DecidableEq ι]

/-- **What one owner and the pool exchange**, with fresh things added and others dropped. -/
theorem move (h : Apart pool own) (hpool : pool'.Nodup) (hl : l.Nodup)
    (hdisj : ∀ p ∈ pool', p ∉ l)
    (hsrc : ∀ p, p ∈ pool' ∨ p ∈ l → p ∈ pool ∨ p ∈ own i ∨ Fresh pool own p) :
    Apart pool' (Function.update own i l) := by
  -- nothing that is moved is with another owner
  have hother : ∀ p, p ∈ pool' ∨ p ∈ l → ∀ j, j ≠ i → p ∉ own j := by
    intro p hp j hj hmem
    rcases hsrc p hp with hp | hp | hp
    · exact h.pool_own p hp j hmem
    · exact hj (h.unique j i p hmem hp)
    · exact hp.2 j hmem
  refine ⟨hpool, fun j => ?_, fun p hp j => ?_, fun j k p hj hk => ?_⟩
  · by_cases hj : j = i
    · subst hj
      rwa [Function.update_self]
    · rw [Function.update_of_ne hj]
      exact h.own_nodup j
  · by_cases hj : j = i
    · subst hj
      rw [Function.update_self]
      exact hdisj p hp
    · rw [Function.update_of_ne hj]
      exact hother p (.inl hp) j hj
  · by_cases hji : j = i
    · by_cases hki : k = i
      · rw [hji, hki]
      · rw [hji, Function.update_self] at hj
        rw [Function.update_of_ne hki] at hk
        exact absurd hk (hother p (.inr hj) k hki)
    · by_cases hki : k = i
      · rw [hki, Function.update_self] at hk
        rw [Function.update_of_ne hji] at hj
        exact absurd hj (hother p (.inr hk) j hji)
      · rw [Function.update_of_ne hji] at hj
        rw [Function.update_of_ne hki] at hk
        exact h.unique j k p hj hk

/-- The first thing of the pool goes to an owner. -/
theorem take (h : Apart (p :: pool) own) : Apart pool (Function.update own i (own i ++ [p])) := by
  have hp : ∀ j, p ∉ own j := h.pool_own p List.mem_cons_self
  obtain ⟨hnot, hnodup⟩ := List.nodup_cons.1 h.pool_nodup
  refine h.move hnodup ?_ (fun q hq hmem => ?_) fun q hq => ?_
  · rw [← List.concat_eq_append]
    exact (h.own_nodup i).concat (hp i)
  · rcases List.mem_append.1 hmem with hmem | hmem
    · exact h.pool_own q (List.mem_cons_of_mem _ hq) i hmem
    · exact hnot (List.mem_singleton.1 hmem ▸ hq)
  · rcases hq with hq | hq
    · exact .inl (List.mem_cons_of_mem _ hq)
    · rcases List.mem_append.1 hq with hq | hq
      · exact .inr (.inl hq)
      · exact .inl (List.mem_singleton.1 hq ▸ List.mem_cons_self)

/-- A fresh thing goes to an owner. -/
theorem gain (h : Apart pool own) (hp : Fresh pool own p) :
    Apart pool (Function.update own i (own i ++ [p])) := by
  refine h.move h.pool_nodup ?_ (fun q hq hmem => ?_) fun q hq => ?_
  · rw [← List.concat_eq_append]
    exact (h.own_nodup i).concat (hp.2 i)
  · rcases List.mem_append.1 hmem with hmem | hmem
    · exact h.pool_own q hq i hmem
    · exact hp.1 (List.mem_singleton.1 hmem ▸ hq)
  · rcases hq with hq | hq
    · exact .inl hq
    · rcases List.mem_append.1 hq with hq | hq
      · exact .inr (.inl hq)
      · exact .inr (.inr (List.mem_singleton.1 hq ▸ hp))

variable [DecidableEq P]

/-- A thing of an owner goes back to the pool. -/
theorem give (h : Apart pool own) (hp : p ∈ own i) :
    Apart (pool ++ [p]) (Function.update own i ((own i).erase p)) := by
  have hnot : p ∉ pool := fun hmem => h.pool_own p hmem i hp
  refine h.move ?_ ((h.own_nodup i).erase p) (fun q hq hmem => ?_) fun q hq => ?_
  · rw [← List.concat_eq_append]
    exact h.pool_nodup.concat hnot
  · rcases List.mem_append.1 hq with hq | hq
    · exact h.pool_own q hq i (List.mem_of_mem_erase hmem)
    · rw [List.mem_singleton.1 hq] at hmem
      exact (h.own_nodup i).not_mem_erase hmem
  · rcases hq with hq | hq
    · rcases List.mem_append.1 hq with hq | hq
      · exact .inl hq
      · exact .inr (.inl (List.mem_singleton.1 hq ▸ hp))
    · exact .inr (.inl (List.mem_of_mem_erase hq))

omit [DecidableEq P] in
/-- An owner keeps a part of what it has. -/
theorem shrink (h : Apart pool own) (hl : l.Nodup) (hsub : ∀ p ∈ l, p ∈ own i) :
    Apart pool (Function.update own i l) :=
  h.move h.pool_nodup hl (fun p hp hmem => h.pool_own p hp i (hsub p hmem))
    fun p hp => hp.imp id fun hp => .inl (hsub p hp)

end Apart

end Ownership
