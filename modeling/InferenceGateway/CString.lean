/-
**C strings in a byte memory.**

A memory is a list of bytes; a C string in it starts at an offset and ends before the first zero.
The functions of `<string.h>` and `<stdlib.h>` are given on the string itself, so that what they
return is an offset into it.  A byte past the end of the memory reads as zero.

Main definitions:

* `CString.strAt` — the string at an offset;
* `CString.strpbrk`, `CString.strspn`, `CString.strchr`, `CString.strstr`, `CString.strcasecmp`,
  `CString.strncasecmp`, `CString.atol`.

Main results:

* `CString.strAt_append`, `CString.strAt_append_zero` — what follows a string does not change it;
* `CString.strstr_append` — a search passes over a part in which the text does not begin;
* `CString.Terminated` — there is a zero at or after an offset and before a bound, with its rules
  for writing zeros and for appending.
-/

import Mathlib.Data.List.Basic
import Mathlib.Data.List.Infix
import Mathlib.Data.List.TakeWhile
import Mathlib.Tactic.Linarith

set_option relaxedAutoImplicit false
set_option autoImplicit false

namespace CString

/-! ### Strings in memory -/

/-- The part of a byte list before its first zero. -/
def cut (l : List UInt8) : List UInt8 := l.takeWhile (· ≠ 0)

/-- The C string that starts at offset `i` of a memory. -/
def strAt (mem : List UInt8) (i : ℕ) : List UInt8 := cut (mem.drop i)

/-- The string at `i` ends before `k`: a zero stands at some offset from `i` on and below `k`. -/
def Terminated (mem : List UInt8) (i k : ℕ) : Prop := ∃ j, i ≤ j ∧ j < k ∧ mem[j]? = some 0

/-! ### The library functions -/

/-- `strpbrk(s, accept)`, as an offset into `s`. -/
def strpbrk (s accept : List UInt8) : Option ℕ := s.findIdx? fun b => decide (b ∈ accept)

/-- `strspn(s, accept)`. -/
def strspn (s accept : List UInt8) : ℕ := (s.takeWhile fun b => decide (b ∈ accept)).length

/-- `strchr(s, c)` for a character other than zero, as an offset into `s`. -/
def strchr (s : List UInt8) (c : UInt8) : Option ℕ := s.findIdx? (· == c)

/-- `strstr(s, t)`, as an offset into `s`. -/
def strstr (s t : List UInt8) : Option ℕ := s.tails.findIdx? t.isPrefixOf

/-- `tolower` of the C locale. -/
def tolower (b : UInt8) : UInt8 := if 65 ≤ b ∧ b ≤ 90 then b + 32 else b

/-- `strcasecmp(s, t) == 0`. -/
def strcasecmp (s t : List UInt8) : Bool := s.map tolower == t.map tolower

/-- `strncasecmp(s, t, n) == 0`. -/
def strncasecmp (s t : List UInt8) (n : ℕ) : Bool := strcasecmp (s.take n) (t.take n)

/-- `isspace` of the C locale. -/
def isspace (b : UInt8) : Bool := b == 32 || (9 ≤ b && b ≤ 13)

def isdigit (b : UInt8) : Bool := 48 ≤ b && b ≤ 57

def LONG_MAX : ℤ := 2 ^ 63 - 1

def LONG_MIN : ℤ := -2 ^ 63

/-- The value of a string of digits. -/
def digits (s : List UInt8) : ℕ := s.foldl (fun n b => 10 * n + (b.toNat - 48)) 0

/-- `atol`: blanks, a sign, digits; a value out of range is cut to the nearest `long`. -/
def atol (s : List UInt8) : ℤ :=
  let s := s.dropWhile isspace
  let value : ℤ :=
    match s with
    | 45 :: s => -(digits (s.takeWhile isdigit) : ℤ)
    | 43 :: s => digits (s.takeWhile isdigit)
    | s => digits (s.takeWhile isdigit)
  max LONG_MIN (min LONG_MAX value)

/-- A property of the bytes of a string, checked one by one. -/
theorem forall_of_all {p : UInt8 → Prop} [DecidablePred p] {s : List UInt8}
    (h : s.all (fun b => decide (p b)) = true) : ∀ b ∈ s, p b :=
  fun b hb => of_decide_eq_true (List.all_eq_true.1 h b hb)

/-! ### Offsets stay in the string -/

theorem strpbrk_lt {s accept : List UInt8} {k : ℕ} (h : strpbrk s accept = some k) :
    k < s.length := by
  obtain ⟨hk, -⟩ := List.findIdx?_eq_some_iff_getElem.1 h
  exact hk

theorem strchr_lt {s : List UInt8} {c : UInt8} {k : ℕ} (h : strchr s c = some k) :
    k < s.length := by
  obtain ⟨hk, -⟩ := List.findIdx?_eq_some_iff_getElem.1 h
  exact hk

theorem strspn_le (s accept : List UInt8) : strspn s accept ≤ s.length :=
  (List.takeWhile_prefix _).length_le

/-- A string that begins with `n` given bytes is at least that long. -/
theorem length_of_strncasecmp {s t : List UInt8} {n : ℕ} (h : strncasecmp s t n = true)
    (ht : t.length = n) : n ≤ s.length := by
  have := congrArg List.length (beq_iff_eq.1 h)
  simp only [List.length_map, List.length_take] at this
  omega

/-! ### What the functions find -/

/-- `strpbrk` finds the first byte of the set, or there is none. -/
theorem strpbrk_cases (s accept : List UInt8) :
    (strpbrk s accept = none ∧ ∀ b ∈ s, b ∉ accept) ∨
      ∃ w b r, s = w ++ b :: r ∧ (∀ x ∈ w, x ∉ accept) ∧ b ∈ accept ∧
        strpbrk s accept = some w.length := by
  induction s with
  | nil => exact .inl ⟨rfl, nofun⟩
  | cons a s ih =>
      by_cases ha : a ∈ accept
      · exact .inr ⟨[], a, s, rfl, nofun, ha, by simp [strpbrk, List.findIdx?_cons, ha]⟩
      · unfold strpbrk at ih ⊢
        rcases ih with ⟨hnone, hall⟩ | ⟨w, b, r, rfl, hw, hb, hsome⟩
        · exact .inl ⟨by simp [List.findIdx?_cons, ha, hnone], by simpa [ha] using hall⟩
        · exact .inr ⟨a :: w, b, r, rfl, by simpa [ha] using hw, hb,
            by simp [List.findIdx?_cons, ha, hsome]⟩

theorem strpbrk_append {w accept : List UInt8} {b : UInt8} (hw : ∀ x ∈ w, x ∉ accept)
    (hb : b ∈ accept) (r : List UInt8) : strpbrk (w ++ b :: r) accept = some w.length := by
  induction w with
  | nil => simp [strpbrk, List.findIdx?_cons, hb]
  | cons a w ih =>
      obtain ⟨ha, hw⟩ := List.forall_mem_cons.1 hw
      have ih := ih hw
      unfold strpbrk at ih ⊢
      simp [List.findIdx?_cons, ha, ih]

/-- `strspn` counts a prefix that lies in the set, up to a byte that does not. -/
theorem strspn_append {w accept : List UInt8} (hw : ∀ x ∈ w, x ∈ accept) {r : List UInt8}
    (hr : ∀ b ∈ r.head?, b ∉ accept) : strspn (w ++ r) accept = w.length := by
  unfold strspn
  rw [List.takeWhile_append_of_pos fun x hx => decide_eq_true (hw x hx)]
  cases r with
  | nil => simp
  | cons b r => simp [hr b rfl]

theorem strspn_cases (s accept : List UInt8) :
    ∃ w r, s = w ++ r ∧ (∀ x ∈ w, x ∈ accept) ∧ (∀ b ∈ r.head?, b ∉ accept) ∧
      strspn s accept = w.length := by
  refine ⟨s.takeWhile fun b => decide (b ∈ accept), s.dropWhile fun b => decide (b ∈ accept),
    List.takeWhile_append_dropWhile.symm, fun x hx => ?_, fun b hb => ?_, rfl⟩
  · have := List.mem_takeWhile_imp hx
    simpa using this
  · have := List.head?_dropWhile_not (fun b => decide (b ∈ accept)) s
    rw [Option.mem_def.1 hb] at this
    simpa using this

theorem strchr_eq_strpbrk (s : List UInt8) (c : UInt8) : strchr s c = strpbrk s [c] := by
  simp only [strchr, strpbrk, List.mem_singleton, beq_eq_decide]

theorem strchr_append {w : List UInt8} {c : UInt8} (hw : c ∉ w) (r : List UInt8) :
    strchr (w ++ c :: r) c = some w.length := by
  rw [strchr_eq_strpbrk]
  refine strpbrk_append (fun x hx hc => hw ?_) (List.mem_singleton_self c) r
  rwa [List.mem_singleton.1 hc] at hx

theorem strchr_eq_none {s : List UInt8} {c : UInt8} (h : c ∉ s) : strchr s c = none := by
  refine List.findIdx?_eq_none_iff.2 fun x hx => beq_eq_false_iff_ne.2 ?_
  rintro rfl
  exact h hx

/-- A byte of a string has a first occurrence. -/
theorem split_of_mem {s : List UInt8} {c : UInt8} (h : c ∈ s) :
    ∃ w r, s = w ++ c :: r ∧ c ∉ w := by
  rcases strpbrk_cases s [c] with ⟨-, hall⟩ | ⟨w, b, r, rfl, hw, hb, -⟩
  · exact absurd (List.mem_singleton_self c) (hall c h)
  · obtain rfl := List.mem_singleton.1 hb
    exact ⟨w, r, rfl, fun hc => hw b hc hb⟩

/-- `strncasecmp` with the whole length of `p` asks for a prefix that spells `p`. -/
theorem strncasecmp_iff {s p : List UInt8} :
    strncasecmp s p p.length = true ↔ ∃ w r, s = w ++ r ∧ strcasecmp w p = true := by
  unfold strncasecmp
  rw [List.take_length]
  constructor
  · intro h
    exact ⟨s.take p.length, s.drop p.length, (List.take_append_drop ..).symm, h⟩
  · rintro ⟨w, r, rfl, h⟩
    have hlen : w.length = p.length := by
      simpa using congrArg List.length (beq_iff_eq.1 h)
    rwa [List.take_left' hlen]

theorem length_of_strcasecmp {s t : List UInt8} (h : strcasecmp s t = true) :
    s.length = t.length := by
  simpa using congrArg List.length (beq_iff_eq.1 h)

/-! ### Numbers -/

section Spans

variable {α : Type} {p : α → Bool} {s r : List α}

/-- A span of elements ends where one without the property stands. -/
theorem takeWhile_append_stop (hs : ∀ b ∈ s, p b = true) (hr : ∀ b ∈ r.head?, p b = false) :
    (s ++ r).takeWhile p = s := by
  rw [List.takeWhile_append_of_pos hs]
  cases r with
  | nil => rw [List.takeWhile_nil, List.append_nil]
  | cons b r => rw [List.takeWhile_cons_of_neg (by rw [hr b rfl]; decide), List.append_nil]

theorem dropWhile_append_stop (hs : ∀ b ∈ s, p b = true) (hr : ∀ b ∈ r.head?, p b = false) :
    (s ++ r).dropWhile p = r := by
  rw [List.dropWhile_append_of_pos hs]
  cases r with
  | nil => rfl
  | cons b r => rw [List.dropWhile_cons_of_neg (by rw [hr b rfl]; decide)]

end Spans

theorem not_isspace_of_isdigit {b : UInt8} (h : isdigit b = true) :
    isspace b = false ∧ b ≠ 43 ∧ b ≠ 45 := by
  simp only [isdigit, Bool.and_eq_true, decide_eq_true_eq] at h
  obtain ⟨hlo, hhi⟩ := h
  refine ⟨?_, ?_, ?_⟩
  · simp only [isspace, Bool.or_eq_false_iff, Bool.and_eq_false_iff, beq_eq_false_iff_ne,
      decide_eq_false_iff_not]
    grind
  · rintro rfl
    exact absurd hlo (by decide)
  · rintro rfl
    exact absurd hlo (by decide)

/-- Digits spell a number below the power of ten of their count. -/
theorem digits_lt {s : List UInt8} (hs : ∀ b ∈ s, isdigit b = true) :
    digits s < 10 ^ s.length := by
  have hfold : ∀ n, s.foldl (fun n b => 10 * n + (b.toNat - 48)) n < (n + 1) * 10 ^ s.length := by
    induction s with
    | nil => exact fun n => by simp
    | cons b s ih =>
        intro n
        obtain ⟨hb, hs⟩ := List.forall_mem_cons.1 hs
        have hlow : b.toNat - 48 ≤ 9 := by
          have hle := UInt8.le_iff_toNat_le.1 (of_decide_eq_true (Bool.and_eq_true_iff.1 hb).2)
          change b.toNat ≤ 57 at hle
          omega
        calc s.foldl (fun n b => 10 * n + (b.toNat - 48)) (10 * n + (b.toNat - 48))
            < (10 * n + (b.toNat - 48) + 1) * 10 ^ s.length := ih hs _
          _ ≤ (10 * (n + 1)) * 10 ^ s.length := Nat.mul_le_mul_right _ (by omega)
          _ = (n + 1) * 10 ^ (b :: s).length := by
              rw [List.length_cons, Nat.pow_succ, Nat.mul_comm 10, Nat.mul_assoc, Nat.mul_comm 10]
  have h := hfold 0
  rwa [Nat.zero_add, Nat.one_mul] at h

/-- **`atol` on digits** reads them up to the first other character. -/
theorem atol_digits {s r : List UInt8} (hs : ∀ b ∈ s, isdigit b = true) (hne : s ≠ [])
    (hr : ∀ b ∈ r.head?, isdigit b = false) : atol (s ++ r) = min LONG_MAX (digits s) := by
  cases s with
  | nil => exact absurd rfl hne
  | cons b s =>
      obtain ⟨hb, h43, h45⟩ := not_isspace_of_isdigit (hs b List.mem_cons_self)
      have hdrop : (b :: s ++ r).dropWhile isspace = b :: s ++ r := by
        rw [List.cons_append, List.dropWhile_cons_of_neg (by simp [hb])]
      have htake : (b :: s ++ r).takeWhile isdigit = b :: s := takeWhile_append_stop hs hr
      have hpos : LONG_MIN ≤ min LONG_MAX (digits (b :: s) : ℤ) :=
        le_min (by decide) (by unfold LONG_MIN; omega)
      rw [atol, hdrop]
      split
      · next heq =>
          rw [List.cons_append, List.cons.injEq] at heq
          exact absurd heq.1 h45
      · next heq =>
          rw [List.cons_append, List.cons.injEq] at heq
          exact absurd heq.1 h43
      · rw [htake]
        exact max_eq_right hpos

/-! ### Searching in parts -/

/-- `t` begins nowhere in `a` when `r` follows it. -/
def Avoids (t : List UInt8) : List UInt8 → List UInt8 → Prop
  | [], _ => True
  | b :: a, r => ¬ t <+: b :: (a ++ r) ∧ Avoids t a r

section Search

variable {t a b r : List UInt8}

theorem avoids_append (h₁ : Avoids t a (b ++ r)) (h₂ : Avoids t b r) : Avoids t (a ++ b) r := by
  induction a with
  | nil => exact h₂
  | cons x a ih =>
      obtain ⟨hhere, hrest⟩ := h₁
      rw [← List.append_assoc] at hhere
      exact ⟨hhere, ih hrest⟩

/-- A text begins nowhere among other bytes than its first. -/
theorem avoids_of_not_mem {x : UInt8} (h : x ∉ a) (r : List UInt8) : Avoids (x :: t) a r := by
  induction a with
  | nil => trivial
  | cons y a ih =>
      obtain ⟨hy, ha⟩ := not_or.1 (mt List.mem_cons.2 h)
      exact ⟨fun hpre => hy (List.cons_prefix_cons.1 hpre).1, ih ha⟩

theorem strstr_cons (s t : List UInt8) (x : UInt8) :
    strstr (x :: s) t =
      if t.isPrefixOf (x :: s) then some 0 else (strstr s t).map fun n => n + 1 := by
  rw [strstr, List.tails_cons, List.findIdx?_cons]
  rfl

/-- **The search passes over a part** in which the text does not begin. -/
theorem strstr_append (h : Avoids t a r) :
    strstr (a ++ r) t = (strstr r t).map fun n => a.length + n := by
  induction a with
  | nil => simp
  | cons x a ih =>
      have hpre : ¬ t.isPrefixOf (x :: (a ++ r)) = true := by
        rw [List.isPrefixOf_iff_prefix]
        exact h.1
      rw [List.cons_append, strstr_cons, if_neg hpre, ih h.2, Option.map_map]
      congr 1
      funext n
      simp only [Function.comp_apply, List.length_cons]
      omega

/-- The search stops at the text. -/
theorem strstr_self (t r : List UInt8) : strstr (t ++ r) t = some 0 := by
  have hpre : t.isPrefixOf (t ++ r) = true := List.isPrefixOf_iff_prefix.2 (List.prefix_append t r)
  cases h : t ++ r with
  | nil =>
      rw [h] at hpre
      rw [strstr, List.tails, List.findIdx?_cons, hpre]
      rfl
  | cons x s =>
      rw [h] at hpre
      rw [strstr_cons, if_pos hpre]

end Search

/-! ### Cutting at the first zero -/

theorem cut_append {l : List UInt8} (h : 0 ∈ l) (q : List UInt8) : cut (l ++ q) = cut l := by
  induction l with
  | nil => simp at h
  | cons b l ih =>
      by_cases hb : b = 0
      · simp [cut, hb]
      · have := ih ((List.mem_cons.1 h).resolve_left (Ne.symm hb))
        simp only [cut] at this
        simpa [cut, hb] using this

theorem not_mem_cut (l : List UInt8) : 0 ∉ cut l := by
  intro h
  have := List.mem_takeWhile_imp h
  simp at this

theorem cut_of_not_mem {l : List UInt8} (h : 0 ∉ l) : cut l = l :=
  List.takeWhile_eq_self_iff.2 fun _ hb => decide_eq_true fun h0 => h (h0 ▸ hb)

theorem getElem?_length_cut {l : List UInt8} (h : 0 ∈ l) : l[(cut l).length]? = some 0 := by
  induction l with
  | nil => simp at h
  | cons b l ih =>
      by_cases hb : b = 0
      · simp [cut, hb]
      · have := ih ((List.mem_cons.1 h).resolve_left (Ne.symm hb))
        simp only [cut] at this
        simpa [cut, hb] using this

theorem length_cut_le {l : List UInt8} {d : ℕ} (h : l[d]? = some 0) : (cut l).length ≤ d := by
  induction l generalizing d with
  | nil => simp at h
  | cons b l ih =>
      by_cases hb : b = 0
      · simp [cut, hb]
      · cases d with
        | zero => exact absurd (by simpa using h) hb
        | succ d =>
            have := ih (by simpa using h)
            simp only [cut] at this
            simpa [cut, hb] using this

/-! ### Terminated strings -/

section Terminated

variable {mem : List UInt8} {i j k : ℕ}

theorem Terminated.mono (h : Terminated mem i k) {k' : ℕ} (hk : k ≤ k') : Terminated mem i k' := by
  obtain ⟨j, h₁, h₂, h₃⟩ := h
  exact ⟨j, h₁, h₂.trans_le hk, h₃⟩

theorem Terminated.left (h : Terminated mem i k) {i' : ℕ} (hi : i' ≤ i) : Terminated mem i' k := by
  obtain ⟨j, h₁, h₂, h₃⟩ := h
  exact ⟨j, hi.trans h₁, h₂, h₃⟩

theorem Terminated.append (h : Terminated mem i k) (q : List UInt8) :
    Terminated (mem ++ q) i k := by
  obtain ⟨j, h₁, h₂, h₃⟩ := h
  refine ⟨j, h₁, h₂, ?_⟩
  rw [List.getElem?_append_left (List.getElem?_eq_some_iff.1 h₃).1]
  exact h₃

/-- Writing zeros ends no string later. -/
theorem Terminated.set (h : Terminated mem i k) (n : ℕ) : Terminated (mem.set n 0) i k := by
  obtain ⟨j, h₁, h₂, h₃⟩ := h
  refine ⟨j, h₁, h₂, ?_⟩
  rw [List.getElem?_set]
  split
  · next hn =>
      subst hn
      simp [(List.getElem?_eq_some_iff.1 h₃).1]
  · exact h₃

/-- The string at an offset reaches exactly to the first zero. -/
theorem Terminated.length_strAt (h : Terminated mem i k) :
    i + (strAt mem i).length < k ∧ mem[i + (strAt mem i).length]? = some 0 := by
  obtain ⟨j, hij, hjk, hj⟩ := h
  obtain ⟨d, rfl⟩ := Nat.exists_eq_add_of_le hij
  have hd : (mem.drop i)[d]? = some 0 := by rw [List.getElem?_drop]; exact hj
  refine ⟨lt_of_le_of_lt (Nat.add_le_add_left (length_cut_le hd) i) hjk, ?_⟩
  have := getElem?_length_cut (List.mem_of_getElem? hd)
  rwa [List.getElem?_drop] at this

/-- Inside a string its rest starts. -/
theorem strAt_add {d : ℕ} (hd : d ≤ (strAt mem i).length) :
    strAt mem (i + d) = (strAt mem i).drop d := by
  unfold strAt at hd ⊢
  rw [← List.drop_drop]
  induction d generalizing i with
  | zero => simp
  | succ d ih =>
      cases hm : mem.drop i with
      | nil => simp [hm, cut] at hd
      | cons b l =>
          have hb : b ≠ 0 := by
            rintro rfl
            simp [hm, cut] at hd
          have hl : mem.drop (i + 1) = l := by
            rw [← List.drop_drop, hm, List.drop_one, List.tail_cons]
          have hd' : d ≤ (cut (mem.drop (i + 1))).length := by
            rw [hm] at hd
            rw [hl]
            simpa [cut, hb] using hd
          have := ih hd'
          rw [hl] at this
          rw [List.drop_succ_cons, this]
          simp [cut, hb]

/-- A zero written into a string ends it there. -/
theorem strAt_set {d : ℕ} (hd : d < (strAt mem i).length) :
    strAt (mem.set (i + d) 0) i = (strAt mem i).take d := by
  have hset : ∀ (l : List UInt8) (d : ℕ), d < (cut l).length →
      cut (l.set d 0) = (cut l).take d := by
    intro l
    induction l with
    | nil => simp [cut]
    | cons b l ih =>
        intro d hd
        have hb : b ≠ 0 := by
          rintro rfl
          simp [cut] at hd
        cases d with
        | zero => simp [cut]
        | succ d =>
            have := ih d (by simpa [cut, hb] using hd)
            simp only [cut] at this
            simpa [cut, hb] using this
  unfold strAt at hd ⊢
  rw [List.drop_set, if_neg (by omega), Nat.add_sub_cancel_left]
  exact hset _ _ hd

/-- A zero written before a string leaves it. -/
theorem strAt_set_of_lt (h : j < i) : strAt (mem.set j 0) i = strAt mem i := by
  unfold strAt
  rw [List.drop_set_of_lt h]

/-- **What follows a terminated string does not change it.** -/
theorem strAt_append (h : Terminated mem i k) (q : List UInt8) :
    strAt (mem ++ q) i = strAt mem i := by
  obtain ⟨j, hij, -, hj⟩ := h
  have hlt := (List.getElem?_eq_some_iff.1 hj).1
  obtain ⟨d, rfl⟩ := Nat.exists_eq_add_of_le hij
  unfold strAt
  rw [List.drop_append_of_le_length (by omega),
    cut_append (List.mem_of_getElem? (List.getElem?_drop ▸ hj))]

/-- A zero behind the memory is where its last string ends anyway. -/
theorem strAt_append_zero (q : List UInt8) (hi : i ≤ mem.length) :
    strAt (mem ++ 0 :: q) i = strAt mem i := by
  unfold strAt
  rw [List.drop_append_of_le_length hi]
  induction mem.drop i with
  | nil => simp [cut]
  | cons b l ih =>
      by_cases hb : b = 0
      · simp [cut, hb]
      · simp only [cut] at ih
        simpa [cut, hb] using ih

end Terminated

end CString
