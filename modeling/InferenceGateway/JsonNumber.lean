/-
**Numbers that C prints, as JSON.**

`%f` prints a finite number as JSON spells numbers: a sign, digits without leading zeros, a point
and six digits.  For an infinity, and for what is not a number, it prints a word that JSON does not
have.

* `Json.numberLength_printFixed` — the spelling of a number with six places;
* `Json.parseValue_printF`, `Json.parseValue_printF_eq_none` — which numbers are values.
-/

import InferenceGateway.Json

set_option relaxedAutoImplicit false
set_option autoImplicit false

namespace Json

open CString (isdigit isdigit_lastDigits isdigit_decimalDigits decimalDigits lastDigits printFixed
  printSign printF Single millionths)

/-! ### Digits -/

/-- Only zero begins with a zero. -/
theorem decimalDigits_cases (n : ℕ) :
    decimalDigits n = [48] ∨ ∃ b s, decimalDigits n = b :: s ∧ b ≠ 48 := by
  unfold decimalDigits
  split
  · exact .inl rfl
  · next hn =>
      refine .inr ?_
      have hne : Nat.digits 10 n ≠ [] := Nat.digits_ne_nil_iff_ne_zero.2 hn
      have hlast := Nat.getLast_digit_ne_zero 10 hn
      have hlt : (Nat.digits 10 n).getLast hne < 10 :=
        Nat.digits_lt_base (by decide) (List.getLast_mem hne)
      rw [← List.dropLast_append_getLast hne, List.reverse_append, List.reverse_singleton,
        List.singleton_append, List.map_cons]
      generalize (Nat.digits 10 n).getLast hne = d at hlast hlt
      refine ⟨_, _, rfl, ?_⟩
      interval_cases d
      · exact absurd rfl hlast
      all_goals decide

theorem integerLength_decimalDigits (n : ℕ) (s : List UInt8) :
    integerLength (decimalDigits n ++ 46 :: s) = (decimalDigits n).length := by
  have hdigits := isdigit_decimalDigits n
  rcases decimalDigits_cases n with h | ⟨b, t, h, hb⟩
  · rw [h]
    rfl
  · have htake : ((decimalDigits n ++ 46 :: s).takeWhile isdigit) = decimalDigits n := by
      rw [List.takeWhile_append_of_pos hdigits]
      exact List.append_nil _
    rw [h, List.cons_append] at htake ⊢
    unfold integerLength
    split
    · next heq =>
        cases heq
        exact absurd rfl hb
    · rw [htake]

/-! ### The spelling -/

section Spelling

variable {b : UInt8} {s : List UInt8}

/-- What may follow a number. -/
def EndsNumber (b : UInt8) : Prop := isdigit b = false ∧ b ≠ 69 ∧ b ≠ 101

theorem fractionLength_lastDigits (n : ℕ) (hb : EndsNumber b) :
    fractionLength (46 :: (lastDigits 6 n ++ b :: s)) = 7 := by
  have htake : ((lastDigits 6 n ++ b :: s).takeWhile isdigit) = lastDigits 6 n := by
    rw [List.takeWhile_append_of_pos (isdigit_lastDigits 6 n), List.takeWhile_cons_of_neg]
    · exact List.append_nil _
    · rw [hb.1]
      decide
  have hlen := CString.length_lastDigits 6 n
  simp only [fractionLength, htake, hlen]
  rfl

theorem exponentLength_ends (hb : EndsNumber b) : exponentLength (b :: s) = 0 := by
  unfold exponentLength
  exact if_neg fun h => h.1.elim hb.2.1 hb.2.2

theorem head_printFixed (n : ℕ) (s : List UInt8) :
    ∃ d t, printFixed n ++ s = d :: t ∧ isdigit d = true := by
  have hdigits := isdigit_decimalDigits (n / 10 ^ 6)
  rcases decimalDigits_cases (n / 10 ^ 6) with h | ⟨b, t, h, -⟩
  · refine ⟨48, 46 :: (lastDigits 6 n ++ s), ?_, by decide⟩
    rw [printFixed, h]
    rfl
  · refine ⟨b, t ++ (46 :: lastDigits 6 n ++ s), ?_, ?_⟩
    · rw [printFixed, h, List.append_assoc, List.cons_append]
    · exact hdigits b (by rw [h]; exact List.mem_cons_self ..)

/-- A number without a sign. -/
theorem numberLength_unsigned (n : ℕ) (hb : EndsNumber b) :
    numberLength (printFixed n ++ b :: s) = (printFixed n).length := by
  have hint := integerLength_decimalDigits (n / 10 ^ 6) (lastDigits 6 n ++ b :: s)
  have hpos : (decimalDigits (n / 10 ^ 6)).length ≠ 0 := by
    rcases decimalDigits_cases (n / 10 ^ 6) with h | ⟨b, t, h, -⟩
    all_goals
      rw [h]
      exact nofun
  obtain ⟨d, t, hhead, hd⟩ := head_printFixed n (b :: s)
  have hsign : (printFixed n ++ b :: s).head? ≠ some 45 := by
    rw [hhead]
    intro h
    cases h
    cases hd
  have hlen : (lastDigits 6 n).length = 6 := CString.length_lastDigits 6 n
  have htext : printFixed n ++ b :: s =
      decimalDigits (n / 10 ^ 6) ++ 46 :: (lastDigits 6 n ++ b :: s) := by
    rw [printFixed, List.append_assoc, List.cons_append]
  have hrest : (46 :: (lastDigits 6 n ++ b :: s)).drop 7 = b :: s := by
    rw [List.drop_succ_cons]
    exact List.drop_left' hlen
  unfold numberLength
  dsimp only
  rw [if_neg hsign, List.drop_zero, htext, hint, if_neg hpos, Nat.zero_add, List.drop_left,
    fractionLength_lastDigits n hb, ← List.drop_drop, List.drop_left, hrest,
    exponentLength_ends hb, printFixed, List.length_append, List.length_cons, hlen]

theorem numberLength_minus {t : List UInt8} (h : t.head? ≠ some 45) (h0 : numberLength t ≠ 0) :
    numberLength (45 :: t) = numberLength t + 1 := by
  have hdrop : ∀ k, (45 :: t).drop (1 + k) = t.drop k := by
    intro k
    rw [Nat.add_comm, List.drop_succ_cons]
  unfold numberLength at h0 ⊢
  dsimp only at h0 ⊢
  rw [if_neg h, List.drop_zero] at h0 ⊢
  rw [List.head?_cons, if_pos rfl, List.drop_succ_cons, List.drop_zero]
  split at h0
  · exact absurd rfl h0
  · next hint =>
      rw [if_neg hint, if_neg hint, hdrop, Nat.zero_add, Nat.add_assoc 1, hdrop]
      omega

/-- **Six places and a sign** are a number. -/
theorem numberLength_printFixed (negative : Bool) (n : ℕ) (hb : EndsNumber b) :
    numberLength (printSign negative ++ printFixed n ++ b :: s) =
      (printSign negative ++ printFixed n).length := by
  have hlen := numberLength_unsigned (s := s) n hb
  cases negative with
  | false => exact hlen
  | true =>
      obtain ⟨d, t, hhead, hd⟩ := head_printFixed n (b :: s)
      obtain ⟨d', t', hhead', -⟩ := head_printFixed n []
      change numberLength (45 :: (printFixed n ++ b :: s)) = (45 :: printFixed n).length
      rw [numberLength_minus, hlen, List.length_cons]
      · rw [hhead]
        intro h
        cases h
        cases hd
      · rw [hlen, ← List.append_nil (printFixed n), hhead']
        exact nofun

end Spelling

/-! ### Values -/

/-- A digit or a minus begins a name or a number, and no name. -/
theorem parseValue_digit (k : ℕ) {d : UInt8} {t : List UInt8} (hd : isdigit d = true ∨ d = 45) :
    parseValue (k + 1) (d :: t) =
      if numberLength (d :: t) = 0 then none
      else some (.number ((d :: t).take (numberLength (d :: t))),
        (d :: t).drop (numberLength (d :: t))) := by
  have hne : ∀ c : UInt8, isdigit c = false → c ≠ 45 → d ≠ c := by
    rintro c hc hc' rfl
    rcases hd with hd | hd
    · rw [hd] at hc
      cases hc
    · exact hc' hd
  have hblank : skipBlanks (d :: t) = d :: t := by
    have h : isBlank d = false := by
      simp only [isBlank, Bool.or_eq_false_iff, beq_eq_false_iff_ne]
      exact ⟨⟨⟨hne 32 rfl (by decide), hne 9 rfl (by decide)⟩, hne 10 rfl (by decide)⟩,
        hne 13 rfl (by decide)⟩
    exact List.dropWhile_cons_of_neg (by rw [h]; decide)
  have hname : ∀ c u k, isdigit c = false → c ≠ 45 → (d :: t).take (k + 1) ≠ c :: u := by
    intro c u k hc hc' h
    rw [List.take_succ_cons] at h
    exact hne c hc hc' (List.cons.inj h).1
  rw [parseValue, hblank]
  split
  · next heq => exact absurd (List.cons.inj heq).1 (hne 34 rfl (by decide))
  · next heq => exact absurd (List.cons.inj heq).1 (hne 91 rfl (by decide))
  · next heq => exact absurd (List.cons.inj heq).1 (hne 123 rfl (by decide))
  · unfold parseScalar
    rw [if_neg (hname 110 _ 3 rfl (by decide)), if_neg (hname 116 _ 3 rfl (by decide)),
      if_neg (hname 102 _ 4 rfl (by decide))]

/-- **A finite number is a value.** -/
theorem parseValue_printF (k : ℕ) {x : Single} (hx : x.isFinite = true) {b : UInt8}
    (hb : EndsNumber b) (s : List UInt8) :
    parseValue (k + 1) (printF x ++ b :: s) = some (.number (printF x), b :: s) := by
  cases x with
  | infinity negative | nan negative => cases hx
  | finite negative m e bound =>
      rw [CString.printF_finite]
      have hlen := numberLength_printFixed (s := s) negative (millionths m e) hb
      generalize htext : printSign negative ++ printFixed (millionths m e) = text at hlen
      have hhead : ∃ d t, text ++ b :: s = d :: t ∧ (isdigit d = true ∨ d = 45) := by
        cases negative with
        | true => exact ⟨45, _, by rw [← htext]; rfl, .inr rfl⟩
        | false =>
            obtain ⟨d, t, hhead, hd⟩ := head_printFixed (millionths m e) (b :: s)
            exact ⟨d, t, by rw [← htext]; exact hhead, .inl hd⟩
      have hpos : text.length ≠ 0 := by
        obtain ⟨d, t, hhead, -⟩ := head_printFixed (millionths m e) []
        rw [← htext, ← List.append_nil (printFixed _), hhead, List.length_append, List.length_cons]
        omega
      obtain ⟨d, t, hs, hd⟩ := hhead
      rw [hs] at hlen ⊢
      rw [parseValue_digit k hd, hlen, if_neg hpos, ← hs, List.take_left, List.drop_left]

/-- **What is not finite is no value.** -/
theorem parseValue_printF_eq_none (k : ℕ) {x : Single} (hx : x.isFinite = false)
    (s : List UInt8) : parseValue k (printF x ++ s) = none := by
  cases k with
  | zero => rfl
  | succ k =>
      cases x with
      | finite negative m e bound => cases hx
      | infinity negative | nan negative => cases negative <;> rfl

end Json
