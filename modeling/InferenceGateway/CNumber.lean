/-
**Numbers as text, as the C library reads and prints them.**

`strtof` is described by the number of bytes that it reads; which number they stand for is left to
its caller.  `%f` is described in full, for the numbers of the format `binary32`: it prints six
places behind the point, rounds half to even, and has words for the infinities and for the numbers
that are none.

Main definitions:

* `CString.strtofLength` — how far `strtof` moves its end pointer;
* `CString.Single` — the numbers of the type `float`;
* `CString.printF` — what `snprintf` makes of `%f` and a buffer of 64 bytes.

Main results:

* `CString.printF_finite` — a finite number is printed in full, and how.
-/

import InferenceGateway.CString
import Mathlib.Data.Nat.Digits.Defs
import Mathlib.Data.Nat.Digits.Lemmas

set_option relaxedAutoImplicit false
set_option autoImplicit false

namespace CString

/-! ### Reading -/

/-- `isxdigit` of the C locale. -/
def isxdigit (b : UInt8) : Bool := isdigit b || (65 ≤ b && b ≤ 70) || (97 ≤ b && b ≤ 102)

/-- `isalnum` of the C locale. -/
def isalnum (b : UInt8) : Bool := isdigit b || (65 ≤ b && b ≤ 90) || (97 ≤ b && b ≤ 122)

/-- `strncasecmp(s, word, strlen(word)) == 0`. -/
def startsWith (s word : List UInt8) : Bool := strncasecmp s word word.length

/-- An optional sign. -/
def signLength : List UInt8 → ℕ
  | 43 :: _ | 45 :: _ => 1
  | _ => 0

/-- Digits with an optional point among them.  A point alone is not a number. -/
def mantissaLength (digit : UInt8 → Bool) (s : List UInt8) : ℕ :=
  let whole := (s.takeWhile digit).length
  match s.drop whole with
  | 46 :: t =>
      let fraction := (t.takeWhile digit).length
      if whole + fraction = 0 then 0 else whole + 1 + fraction
  | _ => whole

/-- An optional exponent: its letter, a sign, and digits.  Without digits there is no exponent. -/
def exponentLength (letter : UInt8) : List UInt8 → ℕ
  | [] => 0
  | b :: s =>
      let sign := signLength s
      let digits := ((s.drop sign).takeWhile isdigit).length
      if tolower b = letter ∧ digits ≠ 0 then 1 + sign + digits else 0

/-- A number in base ten, or in base sixteen with the exponent letter `p`. -/
def floatLength (digit : UInt8 → Bool) (letter : UInt8) (s : List UInt8) : ℕ :=
  let mantissa := mantissaLength digit s
  if mantissa = 0 then 0 else mantissa + exponentLength letter (s.drop mantissa)

/-- The parenthesis that may follow `nan`. -/
def nanTailLength : List UInt8 → ℕ
  | 40 :: s =>
      let n := (s.takeWhile fun b => isalnum b || b == 95).length
      if s[n]? = some 41 then n + 2 else 0
  | _ => 0

/-- What `strtof` reads behind the blanks and the sign: `inf` or `infinity`, `nan`, a number in
base sixteen, or one in base ten. -/
def magnitudeLength (s : List UInt8) : ℕ :=
  if startsWith s [105, 110, 102] then
    if startsWith s [105, 110, 102, 105, 110, 105, 116, 121] then 8 else 3
  else if startsWith s [110, 97, 110] then 3 + nanTailLength (s.drop 3)
  else if startsWith s [48, 120] ∧ floatLength isxdigit 112 (s.drop 2) ≠ 0 then
    2 + floatLength isxdigit 112 (s.drop 2)
  else floatLength isdigit 101 s

/-- `strtof(s, &end)`, as the offset of `end`; zero when nothing was read. -/
def strtofLength (s : List UInt8) : ℕ :=
  let blanks := (s.takeWhile isspace).length
  let sign := signLength (s.drop blanks)
  let magnitude := magnitudeLength (s.drop (blanks + sign))
  if magnitude = 0 then 0 else blanks + sign + magnitude

/-! ### The type `float` -/

/-- A `float`: `± m * 2 ^ e`, an infinity, or not a number. -/
inductive Single
  | finite (negative : Bool) (m : ℕ) (e : ℤ) (bound : m < 2 ^ 24 ∧ -149 ≤ e ∧ e ≤ 104)
  | infinity (negative : Bool)
  | nan (negative : Bool)
  deriving DecidableEq

/-- `isfinite`. -/
def Single.isFinite : Single → Bool
  | .finite .. => true
  | _ => false

/-! ### Printing -/

/-- The quotient, rounded half to even. -/
def roundDiv (a b : ℕ) : ℕ :=
  if 2 * (a % b) < b ∨ (2 * (a % b) = b ∧ a / b % 2 = 0) then a / b else a / b + 1

/-- The digits of a number, without leading zeros. -/
def decimalDigits (n : ℕ) : List UInt8 :=
  if n = 0 then [48] else (Nat.digits 10 n).reverse.map fun d => 48 + d.toUInt8

/-- The last `k` digits of a number. -/
def lastDigits : ℕ → ℕ → List UInt8
  | 0, _ => []
  | k + 1, n => lastDigits k (n / 10) ++ [48 + (n % 10).toUInt8]

/-- `m * 2 ^ e` in millionths. -/
def millionths (m : ℕ) (e : ℤ) : ℕ :=
  if 0 ≤ e then m * 10 ^ 6 * 2 ^ e.toNat else roundDiv (m * 10 ^ 6) (2 ^ (-e).toNat)

def printSign (negative : Bool) : List UInt8 := if negative then [45] else []

/-- A number of millionths, with a point and six places behind it. -/
def printFixed (n : ℕ) : List UInt8 := decimalDigits (n / 10 ^ 6) ++ 46 :: lastDigits 6 n

/-- What `%f` makes of a number. -/
def formatF : Single → List UInt8
  | .finite negative m e _ => printSign negative ++ printFixed (millionths m e)
  | .infinity negative => printSign negative ++ [105, 110, 102]
  | .nan negative => printSign negative ++ [110, 97, 110]

/-- `snprintf(num, 64, "%f", x)`. -/
def printF (x : Single) : List UInt8 := (formatF x).take 63

/-! ### Nothing is cut off -/

theorem roundDiv_le (a b : ℕ) : roundDiv a b ≤ a / b + 1 := by
  unfold roundDiv
  split <;> omega

theorem length_lastDigits (k n : ℕ) : (lastDigits k n).length = k := by
  induction k generalizing n with
  | zero => rfl
  | succ k ih => rw [lastDigits, List.length_append, ih]; rfl

theorem length_decimalDigits_le {n k : ℕ} (hk : 0 < k) (h : n < 10 ^ k) :
    (decimalDigits n).length ≤ k := by
  unfold decimalDigits
  split
  · exact hk
  · rw [List.length_map, List.length_reverse]
    exact (Nat.digits_length_le_iff (by norm_num) n).2 h

theorem millionths_lt {m : ℕ} {e : ℤ} (h : m < 2 ^ 24 ∧ -149 ≤ e ∧ e ≤ 104) :
    millionths m e < 10 ^ 46 := by
  obtain ⟨hm, -, he⟩ := h
  unfold millionths
  split
  · next h0 =>
      have hpow : 2 ^ e.toNat ≤ 2 ^ 104 := Nat.pow_le_pow_right (by norm_num) (by omega)
      calc m * 10 ^ 6 * 2 ^ e.toNat ≤ 2 ^ 24 * 10 ^ 6 * 2 ^ 104 :=
            Nat.mul_le_mul (Nat.mul_le_mul_right _ hm.le) hpow
        _ < 10 ^ 46 := by norm_num
  · have hle := (roundDiv_le (m * 10 ^ 6) (2 ^ (-e).toNat)).trans
      (Nat.add_le_add_right (Nat.div_le_self _ _) 1)
    omega

/-- **A finite number is printed in full.** -/
theorem printF_finite (negative : Bool) {m : ℕ} {e : ℤ} (h : m < 2 ^ 24 ∧ -149 ≤ e ∧ e ≤ 104) :
    printF (.finite negative m e h) = printSign negative ++ printFixed (millionths m e) := by
  refine List.take_of_length_le ?_
  have hlt : millionths m e / 10 ^ 6 < 10 ^ 40 := by
    have := millionths_lt h
    omega
  have hwhole := length_decimalDigits_le (by norm_num) hlt
  have hsign : (printSign negative).length ≤ 1 := by cases negative <;> simp [printSign]
  rw [formatF, List.length_append, printFixed, List.length_append, List.length_cons,
    length_lastDigits]
  omega

/-! ### Digits and other characters -/

theorem isdigit_add {d : ℕ} (h : d < 10) : isdigit (48 + d.toUInt8) = true := by
  interval_cases d <;> decide

theorem isdigit_lastDigits (k n : ℕ) : ∀ b ∈ lastDigits k n, isdigit b = true := by
  induction k generalizing n with
  | zero => exact nofun
  | succ k ih =>
      intro b hb
      rcases List.mem_append.1 hb with hb | hb
      · exact ih (n / 10) b hb
      · rw [List.mem_singleton.1 hb]
        exact isdigit_add (Nat.mod_lt n (by decide))

theorem isdigit_decimalDigits (n : ℕ) : ∀ b ∈ decimalDigits n, isdigit b = true := by
  intro b hb
  unfold decimalDigits at hb
  split at hb
  · rw [List.mem_singleton.1 hb]
    decide
  · obtain ⟨d, hd, rfl⟩ := List.mem_map.1 hb
    exact isdigit_add (Nat.digits_lt_base (by decide) (List.mem_reverse.1 hd))

/-- A character of ASCII that is neither a control character nor a blank. -/
def isgraph (b : UInt8) : Bool := 33 ≤ b && b ≤ 126

theorem isgraph_of_isdigit {b : UInt8} (h : isdigit b = true) : isgraph b = true := by
  obtain ⟨hlo, hhi⟩ := Bool.and_eq_true_iff.1 h
  refine Bool.and_eq_true_iff.2 ⟨decide_eq_true ?_, decide_eq_true ?_⟩
  · exact UInt8.le_trans (by decide) (of_decide_eq_true hlo)
  · exact UInt8.le_trans (of_decide_eq_true hhi) (by decide)

theorem isgraph_printFixed (n : ℕ) : ∀ b ∈ printFixed n, isgraph b = true := by
  intro b hb
  rcases List.mem_append.1 hb with hb | hb
  · exact isgraph_of_isdigit (isdigit_decimalDigits _ b hb)
  · rcases List.mem_cons.1 hb with rfl | hb
    · decide
    · exact isgraph_of_isdigit (isdigit_lastDigits _ _ b hb)

/-- What is printed is ASCII without blanks. -/
theorem isgraph_printF (x : Single) : ∀ b ∈ printF x, isgraph b = true := by
  have hsign : ∀ negative, ∀ b ∈ printSign negative, isgraph b = true := by
    intro negative
    cases negative with
    | true => exact List.all_eq_true.1 (by decide)
    | false => exact nofun
  have hword : ∀ b ∈ ([105, 110, 102] : List UInt8) ++ [110, 97, 110], isgraph b = true :=
    List.all_eq_true.1 (by decide)
  intro b hb
  have hb := List.mem_of_mem_take hb
  cases x with
  | infinity negative =>
      rcases List.mem_append.1 hb with hb | hb
      · exact hsign negative b hb
      · exact hword b (List.mem_append_left _ hb)
  | nan negative =>
      rcases List.mem_append.1 hb with hb | hb
      · exact hsign negative b hb
      · exact hword b (List.mem_append_right _ hb)
  | finite negative m e bound =>
      rcases List.mem_append.1 hb with hb | hb
      · exact hsign negative b hb
      · exact isgraph_printFixed _ b hb

/-- Minus one and a half, and half a millionth, which is a tie. -/
example :
    (printF (.finite true 3 (-1) (by decide))).map (fun b => Char.ofNat b.toNat) =
      "-1.500000".toList ∧ roundDiv 1 2 = 0 ∧ roundDiv 3 2 = 2 := by
  decide

end CString
