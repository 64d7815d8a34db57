/-
**Codes that can be read off a stream.**

A sender writes values one after the other; a receiver gets the symbols in pieces of any size.  When
the decoder never looks behind the end of a value, the receiver can take each value out of the
stream as soon as its last symbol is there, and needs nothing else to find the boundaries.

Main definitions:

* `PrefixCode` — an encoder with a decoder that returns the first value of a stream and the rest;
* `PrefixCode.decodeAll` — the values of a stream;
* `PrefixCode.feed`, `PrefixCode.receive` — a receiver with a buffer, and what it makes of pieces.

Main results:

* `PrefixCode.decode_part` — no value is found before its last symbol;
* `PrefixCode.decodeAll_stream` — **a stream of values is read as it was written**;
* `PrefixCode.receive_eq` — **the pieces do not matter**.
-/

import Mathlib.Data.List.Induction

set_option relaxedAutoImplicit false
set_option autoImplicit false

/-- An encoder for the valid values, and a decoder that returns the first value of a stream and the
rest of it, does so whatever comes behind, and uses up a symbol at least. -/
structure PrefixCode (α β : Type*) where
  Valid : β → Prop
  encode : β → List α
  decode : List α → Option (β × List α)
  decode_encode : ∀ {x}, Valid x → ∀ rest, decode (encode x ++ rest) = some (x, rest)
  decode_append : ∀ {s x rest}, decode s = some (x, rest) →
    ∀ more, decode (s ++ more) = some (x, rest ++ more)
  decode_shorter : ∀ {s x rest}, decode s = some (x, rest) → rest.length < s.length

namespace PrefixCode

variable {α β : Type*} (C : PrefixCode α β) {x : β} {s t : List α}

/-! ### One value -/

/-- **No value is found before its last symbol.** -/
theorem decode_part (hx : C.Valid x) (h : C.encode x = s ++ t) (ht : t ≠ []) :
    C.decode s = none := by
  cases hs : C.decode s with
  | none => rfl
  | some y =>
      obtain ⟨y, rest⟩ := y
      have hlong := C.decode_append hs t
      have hwhole := C.decode_encode hx []
      rw [List.append_nil, h, hlong] at hwhole
      obtain ⟨-, hnil⟩ := Prod.mk.inj (Option.some.inj hwhole)
      exact absurd (List.append_eq_nil_iff.1 hnil).2 ht

theorem decode_nil : C.decode [] = none := by
  cases h : C.decode [] with
  | none => rfl
  | some y => exact absurd (C.decode_shorter h) (Nat.not_lt_zero _)

/-! ### A stream of values -/

/-- **The induction rule for streams**: a stream holds no value, or it is a value and a stream. -/
theorem induct {P : List α → Prop} (hnone : ∀ s, C.decode s = none → P s)
    (hsome : ∀ s x rest, C.decode s = some (x, rest) → P rest → P s) (s : List α) : P s := by
  induction h : s.length using Nat.strongRecOn generalizing s with
  | ind n ih =>
      cases hs : C.decode s with
      | none => exact hnone s hs
      | some y =>
          obtain ⟨x, rest⟩ := y
          exact hsome s x rest hs (ih rest.length (h ▸ C.decode_shorter hs) rest rfl)

/-- The values of a stream, and what is left; the number bounds the passes. -/
def decodeLoop : ℕ → List α → List β × List α
  | 0, s => ([], s)
  | k + 1, s =>
      match C.decode s with
      | none => ([], s)
      | some (x, rest) => (x :: (decodeLoop k rest).1, (decodeLoop k rest).2)

/-- The values of a stream, and what is left. -/
def decodeAll (s : List α) : List β × List α := C.decodeLoop s.length s

theorem decodeLoop_none (k : ℕ) (h : C.decode s = none) : C.decodeLoop k s = ([], s) := by
  cases k with
  | zero => rfl
  | succ k => simp only [decodeLoop, h]

theorem decodeLoop_some (k : ℕ) {rest : List α} (h : C.decode s = some (x, rest)) :
    C.decodeLoop (k + 1) s = (x :: (C.decodeLoop k rest).1, (C.decodeLoop k rest).2) := by
  simp only [decodeLoop, h]

/-- More passes than symbols are not needed. -/
theorem decodeLoop_enough (s : List α) {j k : ℕ} (hj : s.length ≤ j) (hk : s.length ≤ k) :
    C.decodeLoop j s = C.decodeLoop k s := by
  induction s using C.induct generalizing j k with
  | hnone s hs => rw [C.decodeLoop_none _ hs, C.decodeLoop_none _ hs]
  | hsome s x rest hs ih =>
      have hlt := C.decode_shorter hs
      obtain ⟨j, rfl⟩ : ∃ i, j = i + 1 := ⟨j - 1, by omega⟩
      obtain ⟨k, rfl⟩ : ∃ i, k = i + 1 := ⟨k - 1, by omega⟩
      have hjk : C.decodeLoop j rest = C.decodeLoop k rest := ih (by omega) (by omega)
      rw [C.decodeLoop_some j hs, C.decodeLoop_some k hs, hjk]

theorem decodeAll_none (h : C.decode s = none) : C.decodeAll s = ([], s) :=
  C.decodeLoop_none _ h

theorem decodeAll_some {rest : List α} (h : C.decode s = some (x, rest)) :
    C.decodeAll s = (x :: (C.decodeAll rest).1, (C.decodeAll rest).2) := by
  have hlt := C.decode_shorter h
  obtain ⟨k, hk⟩ : ∃ k, s.length = k + 1 := ⟨s.length - 1, by omega⟩
  have hrest : C.decodeLoop k rest = C.decodeAll rest :=
    C.decodeLoop_enough rest (by omega) (Nat.le_refl _)
  rw [decodeAll, hk, C.decodeLoop_some k h, hrest]

/-- **A stream of values is read as it was written**, up to a tail that holds no value. -/
theorem decodeAll_stream {xs : List β} (hxs : ∀ x ∈ xs, C.Valid x) (ht : C.decode t = none) :
    C.decodeAll (xs.flatMap C.encode ++ t) = (xs, t) := by
  induction xs with
  | nil => exact C.decodeAll_none ht
  | cons x xs ih =>
      have hx := C.decode_encode (hxs x List.mem_cons_self) (xs.flatMap C.encode ++ t)
      rw [List.flatMap_cons, List.append_assoc, C.decodeAll_some hx,
        ih fun y hy => hxs y (List.mem_cons_of_mem _ hy)]

/-! ### A receiver -/

/-- More symbols behind a stream. -/
theorem decodeAll_append (s t : List α) :
    C.decodeAll (s ++ t) = ((C.decodeAll s).1 ++ (C.decodeAll ((C.decodeAll s).2 ++ t)).1,
      (C.decodeAll ((C.decodeAll s).2 ++ t)).2) := by
  induction s using C.induct with
  | hnone s hs =>
      rw [C.decodeAll_none hs]
      rfl
  | hsome s x rest hs ih =>
      rw [C.decodeAll_some (C.decode_append hs t), C.decodeAll_some hs, ih]
      rfl

/-- A receiver that has the values so far and a buffer gets a piece. -/
def feed (r : List β × List α) (piece : List α) : List β × List α :=
  (r.1 ++ (C.decodeAll (r.2 ++ piece)).1, (C.decodeAll (r.2 ++ piece)).2)

/-- What a receiver makes of the pieces of a stream. -/
def receive (pieces : List (List α)) : List β × List α := pieces.foldl C.feed ([], [])

/-- **The pieces do not matter**: the receiver has the values of the whole stream. -/
theorem receive_eq (pieces : List (List α)) : C.receive pieces = C.decodeAll pieces.flatten := by
  induction pieces using List.reverseRecOn with
  | nil => exact (C.decodeAll_none C.decode_nil).symm
  | append_singleton pieces piece ih =>
      rw [receive, List.foldl_append, ← receive, ih, List.flatten_append, List.flatten_singleton,
        decodeAll_append]
      rfl

end PrefixCode
