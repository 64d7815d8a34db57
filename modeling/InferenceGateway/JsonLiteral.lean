/-
**Number literals.**

A number of a JSON text is a sign, digits without a leading zero, a fraction and an exponent.  This
module has the literals as data, with their text and their value, and reads the text with `strtof`
and with `atol`.

Main definitions:

* `Json.Literal` — a literal, `Json.Literal.text` — its spelling, `Json.Literal.value` — its value;
* `Json.Stops` — a text that does not go on with a number.

Main results:

* `Json.Literal.strtofLength_text` — **`strtof` reads the literal**, and the blanks before it;
* `Json.Literal.atol_text` — **`atol` reads the digits before the point**.
-/

import InferenceGateway.Json
import Mathlib.Data.Rat.Defs
import Mathlib.Algebra.Order.Field.Power
import Mathlib.Algebra.Order.Field.Rat
import Mathlib.Tactic.FieldSimp
import Mathlib.Tactic.Linarith
import Mathlib.Tactic.Positivity
import Mathlib.Tactic.Ring

set_option relaxedAutoImplicit false
set_option autoImplicit false

namespace Json

open CString (isdigit isspace tolower signLength mantissaLength floatLength magnitudeLength
  strtofLength digits)

/-! ### Literals -/

/-- Digits, at least one. -/
def Digits (s : List UInt8) : Prop := s ≠ [] ∧ ∀ b ∈ s, isdigit b = true

instance (s : List UInt8) : Decidable (Digits s) :=
  @instDecidableAnd _ _ _ (List.decidableBAll _ s)

/-- The exponent of a literal. -/
structure Exponent where
  letter : UInt8
  sign : List UInt8
  digits : List UInt8
  letter_ok : letter = 69 ∨ letter = 101
  sign_ok : sign = [] ∨ sign = [43] ∨ sign = [45]
  digits_ok : Digits digits

/-- A literal: a sign, the digits before the point, those behind it, and an exponent. -/
structure Literal where
  negative : Bool
  whole : List UInt8
  fraction : Option (List UInt8)
  exponent : Option Exponent
  whole_ok : Digits whole
  whole_zero : whole.head? = some 48 → whole = [48]
  fraction_ok : ∀ s ∈ fraction, Digits s

/-- A literal without a fraction. -/
theorem digits_of_none : ∀ s ∈ (none : Option (List UInt8)), Digits s := nofun

/-- The spelling of an exponent. -/
def Exponent.text (e : Exponent) : List UInt8 := e.letter :: (e.sign ++ e.digits)

/-- The value of an exponent. -/
def Exponent.value (e : Exponent) : ℤ :=
  if e.sign = [45] then -(CString.digits e.digits : ℤ) else CString.digits e.digits

namespace Literal

def signText (l : Literal) : List UInt8 := if l.negative then [45] else []

def fractionText (l : Literal) : List UInt8 :=
  match l.fraction with
  | none => []
  | some s => 46 :: s

def exponentText (l : Literal) : List UInt8 :=
  match l.exponent with
  | none => []
  | some e => e.text

/-- The spelling of a literal. -/
def text (l : Literal) : List UInt8 :=
  l.signText ++ (l.whole ++ (l.fractionText ++ l.exponentText))

/-- The digits behind the point. -/
def fractionDigits (l : Literal) : List UInt8 := l.fraction.getD []

/-- The exponent as a number. -/
def power (l : Literal) : ℤ := l.exponent.elim 0 Exponent.value

/-- The value of a literal without its sign. -/
def magnitude (l : Literal) : ℚ :=
  (CString.digits l.whole +
    (CString.digits l.fractionDigits : ℚ) / 10 ^ l.fractionDigits.length) * 10 ^ l.power

/-- The value of a literal. -/
def value (l : Literal) : ℚ := if l.negative then -l.magnitude else l.magnitude

end Literal

/-- A text that does not go on with a number: it does not begin with a digit, a point, or the
letters `e` and `x`. -/
def Stops (r : List UInt8) : Prop :=
  ∀ b ∈ r.head?, isdigit b = false ∧ b ≠ 46 ∧ tolower b ≠ 101 ∧ tolower b ≠ 120

/-! ### Digits -/

/-- A digit is neither a sign nor a blank. -/
theorem signLength_digits {s : List UInt8} (hs : Digits s) (r : List UInt8) :
    signLength (s ++ r) = 0 := by
  obtain ⟨hne, hall⟩ := hs
  cases s with
  | nil => exact absurd rfl hne
  | cons b s =>
      obtain ⟨-, h43, h45⟩ := CString.not_isspace_of_isdigit (hall b List.mem_cons_self)
      rw [List.cons_append, signLength]
      · exact fun t h => h43 (List.cons.inj h).1
      · exact fun t h => h45 (List.cons.inj h).1

/-- A letter of a number is no digit. -/
theorem not_isdigit_of_letter {b : UInt8} (h : b = 69 ∨ b = 101) :
    isdigit b = false ∧ b ≠ 46 ∧ tolower b = 101 := by
  rcases h with rfl | rfl
  · decide
  · decide

namespace Literal

variable (l : Literal) {r : List UInt8}

/-- What follows the whole digits does not go on with a digit. -/
theorem head_tail (hr : Stops r) :
    ∀ b ∈ (l.fractionText ++ (l.exponentText ++ r)).head?, isdigit b = false := by
  intro b hb
  unfold fractionText at hb
  cases hf : l.fraction with
  | some s =>
      rw [hf] at hb
      obtain rfl : 46 = b := by simpa using hb
      rfl
  | none =>
      rw [hf, List.nil_append] at hb
      unfold exponentText at hb
      cases he : l.exponent with
      | some e =>
          rw [he] at hb
          obtain rfl : e.letter = b := by simpa [Exponent.text] using hb
          exact (not_isdigit_of_letter e.letter_ok).1
      | none =>
          rw [he, List.nil_append] at hb
          exact (hr b hb).1

/-- What follows the fraction is an exponent, or does not go on with a number. -/
theorem head_exponent (hr : Stops r) :
    ∀ b ∈ (l.exponentText ++ r).head?, isdigit b = false ∧ b ≠ 46 := by
  intro b hb
  unfold exponentText at hb
  cases he : l.exponent with
  | some e =>
      rw [he] at hb
      obtain rfl : e.letter = b := by simpa [Exponent.text] using hb
      obtain ⟨h₁, h₂, -⟩ := not_isdigit_of_letter e.letter_ok
      exact ⟨h₁, h₂⟩
  | none =>
      rw [he, List.nil_append] at hb
      exact ⟨(hr b hb).1, (hr b hb).2.1⟩

/-- The digits with the point among them. -/
theorem mantissaLength_text (hr : Stops r) :
    mantissaLength isdigit (l.whole ++ (l.fractionText ++ (l.exponentText ++ r))) =
      l.whole.length + l.fractionText.length := by
  have hwhole := CString.takeWhile_append_stop l.whole_ok.2 (l.head_tail hr)
  have hexp := l.head_exponent hr
  rw [mantissaLength, hwhole, List.drop_left]
  unfold fractionText
  cases hf : l.fraction with
  | some s =>
      have hs := l.fraction_ok s hf
      have hfrac := CString.takeWhile_append_stop hs.2 fun b hb => (hexp b hb).1
      have hpos := List.length_pos_iff.2 hs.1
      simp only [List.cons_append, hfrac, List.length_cons]
      rw [if_neg (by omega)]
      omega
  | none =>
      rw [List.nil_append, List.length_nil]
      split
      · next t heq =>
          exact absurd rfl (hexp 46 (by rw [heq]; rfl)).2
      · rfl

/-- The exponent. -/
theorem exponentLength_text (hr : Stops r) :
    CString.exponentLength 101 (l.exponentText ++ r) = l.exponentText.length := by
  unfold exponentText
  cases he : l.exponent with
  | none =>
      rw [List.nil_append, List.length_nil]
      cases r with
      | nil => rfl
      | cons b r =>
          rw [CString.exponentLength]
          exact if_neg fun h => (hr b rfl).2.2.1 h.1
  | some e =>
      obtain ⟨-, -, hletter⟩ := not_isdigit_of_letter e.letter_ok
      have hsign : signLength (e.sign ++ (e.digits ++ r)) = e.sign.length := by
        rcases e.sign_ok with h | h | h
        · rw [h, List.nil_append, signLength_digits e.digits_ok]
          rfl
        · rw [h]
          rfl
        · rw [h]
          rfl
      have htake := CString.takeWhile_append_stop e.digits_ok.2 fun b hb => (hr b hb).1
      have hpos := List.length_pos_iff.2 e.digits_ok.1
      simp only [Exponent.text, List.cons_append, List.append_assoc, CString.exponentLength, hsign,
        List.drop_left, htake]
      rw [if_pos ⟨hletter, by omega⟩, List.length_cons, List.length_append]
      omega

/-- A literal in base ten, without its sign. -/
theorem floatLength_text (hr : Stops r) :
    floatLength isdigit 101 (l.whole ++ (l.fractionText ++ (l.exponentText ++ r))) =
      l.whole.length + l.fractionText.length + l.exponentText.length := by
  have hpos := List.length_pos_iff.2 l.whole_ok.1
  have hdrop : (l.whole ++ (l.fractionText ++ (l.exponentText ++ r))).drop
      (l.whole.length + l.fractionText.length) = l.exponentText ++ r := by
    rw [← List.append_assoc, ← List.length_append, List.drop_left]
  rw [floatLength, l.mantissaLength_text hr, if_neg (by omega), hdrop, l.exponentLength_text hr]

/-- What follows the digits of a literal is no `x`. -/
theorem head_not_x (hr : Stops r) :
    ∀ b ∈ (l.fractionText ++ (l.exponentText ++ r)).head?, tolower b ≠ 120 := by
  intro b hb
  unfold fractionText at hb
  cases hf : l.fraction with
  | some s =>
      rw [hf] at hb
      obtain rfl : 46 = b := by simpa using hb
      decide
  | none =>
      rw [hf, List.nil_append] at hb
      unfold exponentText at hb
      cases he : l.exponent with
      | some e =>
          rw [he] at hb
          obtain rfl : e.letter = b := by simpa [Exponent.text] using hb
          rw [(not_isdigit_of_letter e.letter_ok).2.2]
          decide
      | none =>
          rw [he, List.nil_append] at hb
          exact (hr b hb).2.2.2

/-- A text begins with a word if it begins with its first letter and goes on with the rest. -/
theorem startsWith_cons {b c : UInt8} {s word : List UInt8} :
    CString.startsWith (b :: s) (c :: word) = true ↔
      tolower b = tolower c ∧ CString.startsWith s word = true := by
  simp [CString.startsWith, CString.strncasecmp, CString.strcasecmp]

theorem tolower_digit {b : UInt8} (h : isdigit b = true) : tolower b = b := by
  obtain ⟨-, hhi⟩ := Bool.and_eq_true_iff.1 h
  refine if_neg fun hb => ?_
  exact absurd (UInt8.le_trans hb.1 (of_decide_eq_true hhi)) (by decide)

/-- `strtof` takes a literal as a number in base ten. -/
theorem magnitudeLength_text (hr : Stops r) :
    magnitudeLength (l.whole ++ (l.fractionText ++ (l.exponentText ++ r))) =
      l.whole.length + l.fractionText.length + l.exponentText.length := by
  have hfloat := l.floatLength_text hr
  have hx := l.head_not_x hr
  obtain ⟨hne, hall⟩ := l.whole_ok
  have hzero := l.whole_zero
  generalize l.fractionText ++ (l.exponentText ++ r) = rest at hfloat hx ⊢
  cases hw : l.whole with
  | nil => exact absurd hw hne
  | cons b whole =>
      rw [hw] at hfloat hall hzero
      have hdigit := hall b List.mem_cons_self
      have hletter : ∀ (c : UInt8) (word : List UInt8), isdigit (tolower c) = false →
          CString.startsWith (b :: whole ++ rest) (c :: word) = false := by
        intro c word hc
        refine Bool.eq_false_iff.2 fun h => ?_
        have hb := (startsWith_cons.1 h).1
        rw [tolower_digit hdigit] at hb
        rw [← hb, hdigit] at hc
        cases hc
      -- a zero is the whole of the digits, and no `x` stands behind it
      have hhex : CString.startsWith (b :: whole ++ rest) [48, 120] = false := by
        refine Bool.eq_false_iff.2 fun h => ?_
        obtain ⟨hb, h⟩ := startsWith_cons.1 h
        rw [tolower_digit hdigit] at hb
        obtain rfl : whole = [] := by
          have := hzero (by rw [hb]; rfl)
          exact (List.cons.inj this).2
        cases rest with
        | nil => cases h
        | cons c rest => exact hx c rfl (startsWith_cons.1 h).1
      rw [magnitudeLength, hletter 105 _ rfl, hletter 110 _ rfl, hhex]
      simpa using hfloat

/-! ### `strtof` -/

/-- A literal begins with a sign or a digit. -/
theorem head_text (b : UInt8) (hb : b ∈ l.text.head?) : b = 45 ∨ isdigit b = true := by
  unfold text signText at hb
  split at hb
  · exact .inl (by simpa using hb.symm)
  · obtain ⟨hne, hall⟩ := l.whole_ok
    cases hw : l.whole with
    | nil => exact absurd hw hne
    | cons x whole =>
        rw [hw] at hb hall
        obtain rfl : x = b := by simpa using hb
        exact .inr (hall _ List.mem_cons_self)

/-- The bytes of a literal. -/
theorem mem_text {b : UInt8} (hb : b ∈ l.text) :
    isdigit b = true ∨ b = 43 ∨ b = 45 ∨ b = 46 ∨ b = 69 ∨ b = 101 := by
  simp only [text, List.mem_append] at hb
  rcases hb with hb | hb | hb | hb
  · rw [signText] at hb
    split at hb
    · exact .inr (.inr (.inl (List.mem_singleton.1 hb)))
    · cases hb
  · exact .inl (l.whole_ok.2 b hb)
  · rw [fractionText] at hb
    cases hf : l.fraction with
    | none =>
        rw [hf] at hb
        cases hb
    | some s =>
        rw [hf] at hb
        rcases List.mem_cons.1 hb with h | h
        · exact .inr (.inr (.inr (.inl h)))
        · exact .inl ((l.fraction_ok s hf).2 b h)
  · rw [exponentText] at hb
    cases he : l.exponent with
    | none =>
        rw [he] at hb
        cases hb
    | some e =>
        rw [he] at hb
        rcases List.mem_cons.1 hb with h | h
        · exact .inr (.inr (.inr (.inr (h ▸ e.letter_ok))))
        · rcases List.mem_append.1 h with h | h
          · rcases e.sign_ok with hs | hs | hs
            · rw [hs] at h
              cases h
            · rw [hs] at h
              exact .inr (.inl (List.mem_singleton.1 h))
            · rw [hs] at h
              exact .inr (.inr (.inl (List.mem_singleton.1 h)))
          · exact .inl (e.digits_ok.2 b h)

/-- A literal has no quote in it. -/
theorem quote_not_mem_text : 34 ∉ l.text := by
  intro h
  rcases l.mem_text h with h | h | h | h | h | h
  all_goals exact absurd h (by decide)

theorem text_ne_nil : l.text ≠ [] := by
  intro h
  have hwhole : l.whole = [] := by
    simp only [text, List.append_eq_nil_iff] at h
    exact h.2.1
  exact l.whole_ok.1 hwhole

theorem length_text :
    l.text.length =
      l.signText.length + (l.whole.length + l.fractionText.length + l.exponentText.length) := by
  simp only [text, List.length_append]
  omega

theorem head_text_append (r : List UInt8) :
    ∀ b ∈ (l.text ++ r).head?, b = 45 ∨ isdigit b = true := by
  intro b hb
  rw [List.head?_append_of_ne_nil _ l.text_ne_nil] at hb
  exact l.head_text b hb

/-- A text with another first byte does not begin with a literal. -/
theorem text_append_ne {b : UInt8} (hb : b ≠ 45) (hdigit : isdigit b = false)
    (r s : List UInt8) : l.text ++ r ≠ b :: s := by
  intro h
  rcases l.head_text_append r b (by rw [h]; rfl) with h | h
  · exact hb h
  · rw [hdigit] at h
    cases h

/-- A literal begins with no blank. -/
theorem head_not_isspace (r : List UInt8) : ∀ b ∈ (l.text ++ r).head?, isspace b = false := by
  intro b hb
  rcases l.head_text_append r b hb with rfl | h
  · rfl
  · exact (CString.not_isspace_of_isdigit h).1

theorem signLength_text (r : List UInt8) :
    signLength (l.text ++ r) = l.signText.length := by
  rw [text, List.append_assoc, signText]
  split
  · rfl
  · rw [List.nil_append, List.append_assoc, signLength_digits l.whole_ok]
    rfl

/-- **`strtof` reads a literal**, and the blanks before it. -/
theorem strtofLength_text {w : List UInt8} (hw : ∀ b ∈ w, isspace b = true) (hr : Stops r) :
    strtofLength (w ++ (l.text ++ r)) = w.length + l.text.length := by
  have htake := CString.takeWhile_append_stop hw (l.head_not_isspace r)
  have hmag := l.magnitudeLength_text hr
  have hpos := List.length_pos_iff.2 l.whole_ok.1
  have hdrop : (w ++ (l.text ++ r)).drop (w.length + l.signText.length) =
      l.whole ++ (l.fractionText ++ (l.exponentText ++ r)) := by
    rw [← List.drop_drop, List.drop_left, text]
    simp only [List.append_assoc, List.drop_left]
  rw [strtofLength]
  simp only [htake, List.drop_left, l.signLength_text, hdrop, hmag, l.length_text]
  rw [if_neg (by omega)]
  omega

/-! ### `atol` -/

/-- **`atol` reads the digits before the point**, up to the largest `long`. -/
theorem atol_text (hsign : l.negative = false) (hr : Stops r) :
    CString.atol (l.text ++ r) = min CString.LONG_MAX (digits l.whole) := by
  have hsigntext : l.signText = [] := by
    rw [signText, hsign]
    rfl
  rw [text, hsigntext, List.nil_append, List.append_assoc, List.append_assoc]
  exact CString.atol_digits l.whole_ok.2 l.whole_ok.1 (l.head_tail hr)

/-- A literal without a sign begins with a digit. -/
theorem head_unsigned (hsign : l.negative = false) (r : List UInt8) :
    ∃ b s, l.text ++ r = b :: s ∧ isdigit b = true := by
  have hsigntext : l.signText = [] := by
    rw [signText, hsign]
    rfl
  rw [text, hsigntext, List.nil_append, List.append_assoc]
  obtain ⟨hne, hall⟩ := l.whole_ok
  cases hw : l.whole with
  | nil => exact absurd hw hne
  | cons b whole =>
      rw [hw] at hall
      exact ⟨b, _, rfl, hall b List.mem_cons_self⟩

/-! ### Values -/

theorem fractionDigits_ok : ∀ b ∈ l.fractionDigits, isdigit b = true := by
  unfold fractionDigits
  cases hf : l.fraction with
  | none => exact nofun
  | some s => exact (l.fraction_ok s hf).2

/-- The fraction is less than one. -/
theorem fraction_lt : (digits l.fractionDigits : ℚ) / 10 ^ l.fractionDigits.length < 1 := by
  have hlt := CString.digits_lt l.fractionDigits_ok
  rw [div_lt_one (by positivity)]
  exact_mod_cast hlt

theorem magnitude_nonneg : 0 ≤ l.magnitude := by
  unfold magnitude
  positivity

/-- A literal is zero if all its digits are. -/
theorem magnitude_eq_zero_iff :
    l.magnitude = 0 ↔ digits l.whole = 0 ∧ digits l.fractionDigits = 0 := by
  have hscale : (10 : ℚ) ^ l.power ≠ 0 := by positivity
  have hfraction : 0 ≤ (digits l.fractionDigits : ℚ) / 10 ^ l.fractionDigits.length := by positivity
  rw [magnitude, mul_eq_zero, or_iff_left hscale,
    add_eq_zero_iff_of_nonneg (Nat.cast_nonneg _) hfraction, Nat.cast_eq_zero, div_eq_zero_iff,
    or_iff_left (by positivity), Nat.cast_eq_zero]

/-- **A literal with digits before the point is a digit** if they are the digit and as many zeros
as the exponent takes away. -/
theorem magnitude_eq_iff {m : ℕ} (hm : m < 10) (hwhole : digits l.whole ≠ 0) :
    l.magnitude = m ↔
      digits l.fractionDigits = 0 ∧ ∃ k : ℕ, digits l.whole = m * 10 ^ k ∧ l.power = -k := by
  have hlt := l.fraction_lt
  have hnonneg : 0 ≤ (digits l.fractionDigits : ℚ) / 10 ^ l.fractionDigits.length := by positivity
  have hone : (1 : ℚ) ≤ digits l.whole := by exact_mod_cast Nat.one_le_iff_ne_zero.2 hwhole
  have hten : (m : ℚ) < 10 := by exact_mod_cast hm
  constructor
  · intro h
    rw [magnitude] at h
    rcases le_or_gt l.power 0 with hp | hp
    · obtain ⟨k, hk⟩ := Int.eq_ofNat_of_zero_le (neg_nonneg.2 hp)
      have hpower : l.power = -(k : ℤ) := by omega
      rw [hpower, zpow_neg, zpow_natCast, ← div_eq_mul_inv, div_eq_iff (by positivity)] at h
      -- the fraction is a whole number, and less than one
      have hle : digits l.whole ≤ m * 10 ^ k := by
        have : (digits l.whole : ℚ) ≤ m * 10 ^ k := by linarith
        exact_mod_cast this
      have hge : m * 10 ^ k < digits l.whole + 1 := by
        have : (m * 10 ^ k : ℚ) < digits l.whole + 1 := by linarith
        exact_mod_cast this
      have hwhole' : digits l.whole = m * 10 ^ k := by omega
      have hcast : (digits l.whole : ℚ) = m * 10 ^ k := by exact_mod_cast hwhole'
      have hzero : (digits l.fractionDigits : ℚ) / 10 ^ l.fractionDigits.length = 0 := by linarith
      rw [div_eq_zero_iff, or_iff_left (by positivity), Nat.cast_eq_zero] at hzero
      exact ⟨hzero, k, hwhole', hpower⟩
    -- a power of ten is too large
    · have hpow : (10 : ℚ) ≤ 10 ^ l.power := by
        calc (10 : ℚ) = 10 ^ (1 : ℤ) := (zpow_one _).symm
          _ ≤ 10 ^ l.power := zpow_le_zpow_right₀ (by norm_num) (by omega)
      nlinarith
  · rintro ⟨hfraction, k, hk, hp⟩
    rw [magnitude, hfraction, hk, hp, zpow_neg, zpow_natCast]
    push_cast
    field_simp
    ring

/-! ### Whole numbers -/

/-- A literal that is written as a whole number: digits and nothing else. -/
def IsWhole (l : Literal) : Prop :=
  l.negative = false ∧ l.fraction = none ∧ l.exponent = none

theorem value_of_isWhole (h : l.IsWhole) : l.value = digits l.whole := by
  obtain ⟨hsign, hfraction, hexponent⟩ := h
  simp [value, magnitude, fractionDigits, power, hsign, hfraction, hexponent, digits]

end Literal

end Json
