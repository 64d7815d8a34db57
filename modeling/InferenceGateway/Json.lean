/-
**JSON texts.**

A JSON text is a list of bytes in UTF-8.  `Json.parse` reads it by the grammar: blanks between the
tokens, numbers without leading zeros, strings without control characters, with the escapes and
with surrogate pairs.  The value of a string is the UTF-8 of its characters.  Numbers keep their
spelling.

Main definitions:

* `Json.utf8` — well-formed UTF-8;
* `Json.parseChars`, `Json.Spelled` — the inside of a string, as a parser and as a grammar;
* `Json.numberLength` — numbers;
* `Json.parseValue`, `Json.parse` — values and texts.

Main results:

* `Json.parseChars_eq_some`, `Json.parseChars_append` — the parser of strings is the grammar;
* `Json.Spelled.plain` — only a string without escapes is spelled by its value;
* `Json.parse_of_parseValue` — the bound on the recursion refuses nothing.
-/

import InferenceGateway.CNumber

set_option relaxedAutoImplicit false
set_option autoImplicit false

/-- A JSON value. -/
inductive Json
  | null
  | bool (b : Bool)
  | number (text : List UInt8)
  | string (s : List UInt8)
  | array (xs : List Json)
  | object (members : List (List UInt8 × Json))

namespace Json

open CString (isdigit isxdigit)

/-! ### UTF-8 -/

/-- What a character still owes: how many bytes, and the bounds of the next one. -/
structure Owed where
  tails : ℕ
  lo : UInt8 := 0x80
  hi : UInt8 := 0xBF
  deriving DecidableEq

/-- One byte more.  The bounds leave out overlong forms, surrogates, and what is above the last
code point. -/
def utf8Step (o : Owed) (b : UInt8) : Option Owed :=
  if o.tails = 0 then
    if b < 0x80 then some { tails := 0 }
    else if 0xC2 ≤ b ∧ b ≤ 0xDF then some { tails := 1 }
    else if b = 0xE0 then some { tails := 2, lo := 0xA0 }
    else if b = 0xED then some { tails := 2, hi := 0x9F }
    else if 0xE1 ≤ b ∧ b ≤ 0xEF then some { tails := 2 }
    else if b = 0xF0 then some { tails := 3, lo := 0x90 }
    else if b = 0xF4 then some { tails := 3, hi := 0x8F }
    else if 0xF1 ≤ b ∧ b ≤ 0xF3 then some { tails := 3 }
    else none
  else if o.lo ≤ b ∧ b ≤ o.hi then some { tails := o.tails - 1 }
  else none

/-- Well-formed UTF-8: the last character owes nothing. -/
def utf8 (s : List UInt8) : Bool :=
  match s.foldlM utf8Step { tails := 0 } with
  | some o => o.tails == 0
  | none => false

/-- The UTF-8 of a number below `0x200000`. -/
def encode (n : ℕ) : List UInt8 :=
  if n < 0x80 then [n.toUInt8]
  else if n < 0x800 then [(0xC0 + n / 64).toUInt8, (0x80 + n % 64).toUInt8]
  else if n < 0x10000 then
    [(0xE0 + n / 4096).toUInt8, (0x80 + n / 64 % 64).toUInt8, (0x80 + n % 64).toUInt8]
  else
    [(0xF0 + n / 262144).toUInt8, (0x80 + n / 4096 % 64).toUInt8, (0x80 + n / 64 % 64).toUInt8,
      (0x80 + n % 64).toUInt8]

/-! ### Strings -/

/-- A piece of a string: a byte, or a code unit of an escape with four digits. -/
inductive Piece
  | byte (b : UInt8)
  | unit (u : ℕ)
  deriving DecidableEq

/-- The value of the pieces.  Two surrogates in the right order are one character; the grammar
also has single ones. -/
def decode : List Piece → List UInt8
  | [] => []
  | .byte b :: ps => b :: decode ps
  | .unit u :: .unit v :: ps =>
      if 0xD800 ≤ u ∧ u < 0xDC00 ∧ 0xDC00 ≤ v ∧ v < 0xE000 then
        encode (0x10000 + (u - 0xD800) * 0x400 + (v - 0xDC00)) ++ decode ps
      else encode u ++ decode (.unit v :: ps)
  | .unit u :: ps => encode u ++ decode ps

/-- The escapes with one letter. -/
def letterEscape (e : UInt8) : Option UInt8 :=
  if e = 34 ∨ e = 92 ∨ e = 47 then some e
  else if e = 98 then some 8
  else if e = 102 then some 12
  else if e = 110 then some 10
  else if e = 114 then some 13
  else if e = 116 then some 9
  else none

def hexDigit (b : UInt8) : ℕ := if isdigit b then b.toNat - 48 else (CString.tolower b).toNat - 87

/-- The code unit that four digits spell. -/
def hexUnit (h : List UInt8) : Option ℕ :=
  if h.all isxdigit then some (h.foldl (fun n b => 16 * n + hexDigit b) 0) else none

/-- One piece before those that were read. -/
def push (p : Piece) (x : List Piece × List UInt8) : List Piece × List UInt8 := (p :: x.1, x.2)

/-- The inside of a string, up to its closing quote; and what follows the quote. -/
def parseChars : List UInt8 → Option (List Piece × List UInt8)
  | [] => none
  | 34 :: s => some ([], s)
  | 92 :: 117 :: a :: b :: c :: d :: s => do
      let u ← hexUnit [a, b, c, d]
      (parseChars s).map (push (.unit u))
  | 92 :: e :: s => do
      let b ← letterEscape e
      (parseChars s).map (push (.byte b))
  | b :: s =>
      if b < 32 ∨ b = 92 then none else (parseChars s).map (push (.byte b))

/-- `Spelled p ps`: the bytes `p` between two quotes spell the pieces `ps`. -/
inductive Spelled : List UInt8 → List Piece → Prop
  | nil : Spelled [] []
  | plain {b : UInt8} {p : List UInt8} {ps : List Piece} :
      32 ≤ b → b ≠ 34 → b ≠ 92 → Spelled p ps → Spelled (b :: p) (.byte b :: ps)
  | letter {e b : UInt8} {p : List UInt8} {ps : List Piece} :
      letterEscape e = some b → Spelled p ps → Spelled (92 :: e :: p) (.byte b :: ps)
  | unit {h p : List UInt8} {u : ℕ} {ps : List Piece} :
      h.length = 4 → hexUnit h = some u → Spelled p ps →
      Spelled (92 :: 117 :: (h ++ p)) (.unit u :: ps)

/-! ### Numbers -/

/-- The digits before the point: a zero, or digits that do not begin with one. -/
def integerLength : List UInt8 → ℕ
  | 48 :: _ => 1
  | s => (s.takeWhile isdigit).length

/-- The point and at least one digit, or nothing. -/
def fractionLength : List UInt8 → ℕ
  | 46 :: s =>
      let n := (s.takeWhile isdigit).length
      if n = 0 then 0 else n + 1
  | _ => 0

/-- The exponent, or nothing. -/
def exponentLength : List UInt8 → ℕ
  | b :: s =>
      let sign := CString.signLength s
      let n := ((s.drop sign).takeWhile isdigit).length
      if (b = 69 ∨ b = 101) ∧ n ≠ 0 then 1 + sign + n else 0
  | [] => 0

/-- The length of the number that a text begins with; zero if there is none. -/
def numberLength (s : List UInt8) : ℕ :=
  let sign := if s.head? = some 45 then 1 else 0
  let integer := integerLength (s.drop sign)
  if integer = 0 then 0
  else
    let n := sign + integer
    let n := n + fractionLength (s.drop n)
    n + exponentLength (s.drop n)

/-! ### Values -/

def isBlank (b : UInt8) : Bool := b == 32 || b == 9 || b == 10 || b == 13

def skipBlanks (s : List UInt8) : List UInt8 := s.dropWhile isBlank

/-- A name or a number, and what follows it. -/
def parseScalar (s : List UInt8) : Option (Json × List UInt8) :=
  if s.take 4 = [110, 117, 108, 108] then some (.null, s.drop 4)
  else if s.take 4 = [116, 114, 117, 101] then some (.bool true, s.drop 4)
  else if s.take 5 = [102, 97, 108, 115, 101] then some (.bool false, s.drop 5)
  else
    let n := numberLength s
    if n = 0 then none else some (.number (s.take n), s.drop n)

/-- The name of a member and its colon, and what follows them. -/
def parseKey (s : List UInt8) : Option (List UInt8 × List UInt8) :=
  match skipBlanks s with
  | 34 :: s => do
      let (ps, s) ← parseChars s
      match skipBlanks s with
      | 58 :: s => some (decode ps, s)
      | _ => none
  | _ => none

/-- What stands between brackets: blanks, or what `f` finds. -/
def between {α : Type} (f : List UInt8 → Option (α × List UInt8)) (close : UInt8) (empty : Json)
    (wrap : α → Json) (s : List UInt8) : Option (Json × List UInt8) :=
  if (skipBlanks s).head? = some close then some (empty, (skipBlanks s).tail)
  else (f s).map fun x => (wrap x.1, x.2)

/-- What follows an element or a member: a comma and more of them, or the closing bracket. -/
def following {α : Type} (f : List UInt8 → Option (List α × List UInt8)) (close : UInt8) (x : α)
    (s : List UInt8) : Option (List α × List UInt8) :=
  match skipBlanks s with
  | [] => none
  | b :: s =>
      if b = 44 then (f s).map fun y => (x :: y.1, y.2)
      else if b = close then some ([x], s)
      else none

mutual

/-- A value, and what follows it.  The number bounds the recursion. -/
def parseValue : ℕ → List UInt8 → Option (Json × List UInt8)
  | 0, _ => none
  | n + 1, s =>
      match skipBlanks s with
      | 34 :: s => (parseChars s).map fun x => (.string (decode x.1), x.2)
      | 91 :: s => between (parseElements n) 93 (.array []) .array s
      | 123 :: s => between (parseMembers n) 125 (.object []) .object s
      | s => parseScalar s

/-- The elements of an array, up to its closing bracket. -/
def parseElements : ℕ → List UInt8 → Option (List Json × List UInt8)
  | 0, _ => none
  | n + 1, s => do
      let (v, s) ← parseValue n s
      following (parseElements n) 93 v s

/-- The members of an object, up to its closing brace. -/
def parseMembers : ℕ → List UInt8 → Option (List (List UInt8 × Json) × List UInt8)
  | 0, _ => none
  | n + 1, s => do
      let (k, s) ← parseKey s
      let (v, s) ← parseValue n s
      following (parseMembers n) 125 (k, v) s

end

/-- A text is one value, in UTF-8, with blanks around it. -/
def parse (text : List UInt8) : Option Json :=
  if utf8 text then
    match parseValue (2 * text.length + 1) text with
    | some (v, rest) => if skipBlanks rest = [] then some v else none
    | none => none
  else none

/-! ### UTF-8 and ASCII -/

section Utf8

variable {o o' : Owed} {b : UInt8} {s t : List UInt8}

/-- A character that owes bytes does not go on with an ASCII character. -/
theorem utf8Step_lo (h : utf8Step o b = some o') : 0x80 ≤ o'.lo := by
  unfold utf8Step at h
  split at h
  · repeat' split at h
    all_goals cases h
    all_goals decide
  · split at h
    · cases h
      exact UInt8.le_refl _
    · cases h

theorem foldlM_lo (h : s.foldlM utf8Step o = some o') (ho : 0x80 ≤ o.lo) : 0x80 ≤ o'.lo := by
  induction s generalizing o with
  | nil =>
      cases h
      exact ho
  | cons b s ih =>
      rw [List.foldlM_cons] at h
      obtain ⟨o₁, h₁, h₂⟩ := Option.bind_eq_some_iff.1 h
      exact ih h₂ (utf8Step_lo h₁)

theorem utf8Step_ascii (hb : b < 0x80) (ho : 0x80 ≤ o.lo) :
    utf8Step o b = if o.tails = 0 then some { tails := 0 } else none := by
  unfold utf8Step
  by_cases h0 : o.tails = 0
  · rw [if_pos h0, if_pos hb, if_pos h0]
  · rw [if_neg h0, if_neg h0, if_neg]
    intro h
    exact UInt8.not_lt.2 (UInt8.le_trans ho h.1) hb

/-- **An ASCII character ends the character before it.** -/
theorem utf8_append (hb : b < 0x80) : utf8 (s ++ b :: t) = (utf8 s && utf8 t) := by
  unfold utf8
  rw [List.foldlM_append]
  cases hs : s.foldlM utf8Step { tails := 0 } with
  | none => rfl
  | some o =>
      have ho := foldlM_lo hs (by decide)
      change (match utf8Step o b >>= fun o => t.foldlM utf8Step o with
        | some o => o.tails == 0 | none => false) = _
      rw [utf8Step_ascii hb ho]
      by_cases h0 : o.tails = 0
      · rw [if_pos h0]
        simp [h0]
      · rw [if_neg h0]
        simp [h0]

theorem utf8_ascii (h : ∀ b ∈ s, b < 0x80) : utf8 s = true := by
  induction s with
  | nil => rfl
  | cons b s ih =>
      have hb : b < 0x80 := h b (List.mem_cons_self ..)
      rw [← List.nil_append (b :: s), utf8_append hb,
        ih fun x hx => h x (List.mem_cons_of_mem _ hx)]
      rfl

end Utf8

/-! ### Strings -/

section Strings

variable {p r s : List UInt8} {ps : List Piece}

theorem map_push_eq_some {x : Piece} {y : Option (List Piece × List UInt8)}
    (h : y.map (push x) = some (ps, r)) : ∃ ps', y = some (ps', r) ∧ ps = x :: ps' := by
  obtain ⟨⟨ps', r'⟩, hy, hx⟩ := Option.map_eq_some_iff.1 h
  cases hx
  exact ⟨ps', hy, rfl⟩

/-- What the parser reads is spelled by the grammar. -/
theorem parseChars_eq_some (h : parseChars s = some (ps, r)) :
    ∃ p, s = p ++ 34 :: r ∧ Spelled p ps := by
  fun_induction parseChars s generalizing ps with
  | case1 => cases h
  | case2 s =>
      cases h
      exact ⟨[], rfl, .nil⟩
  | case3 a b c d s ih =>
      obtain ⟨u, hu, h⟩ := Option.bind_eq_some_iff.1 h
      obtain ⟨ps, hs, rfl⟩ := map_push_eq_some h
      obtain ⟨p, rfl, hp⟩ := ih hs
      exact ⟨92 :: 117 :: ([a, b, c, d] ++ p), rfl, .unit rfl hu hp⟩
  | case4 e s hne ih =>
      obtain ⟨b, hb, h⟩ := Option.bind_eq_some_iff.1 h
      obtain ⟨ps, hs, rfl⟩ := map_push_eq_some h
      obtain ⟨p, rfl, hp⟩ := ih hs
      exact ⟨92 :: e :: p, rfl, .letter hb hp⟩
  | case5 => cases h
  | case6 b s h34 h₁ h₂ hb ih =>
      obtain ⟨ps, hs, rfl⟩ := map_push_eq_some h
      obtain ⟨p, rfl, hp⟩ := ih hs
      obtain ⟨h32, h92⟩ := not_or.1 hb
      exact ⟨b :: p, rfl, .plain (UInt8.not_lt.1 h32) h34 h92 hp⟩

/-- What the grammar spells is read by the parser. -/
theorem parseChars_append (h : Spelled p ps) (r : List UInt8) :
    parseChars (p ++ 34 :: r) = some (ps, r) := by
  induction h with
  | nil => rfl
  | @plain b p ps h32 h34 h92 hp ih =>
      have hb : ¬ (b < 32 ∨ b = 92) := not_or.2 ⟨UInt8.not_lt.2 h32, h92⟩
      rw [List.cons_append, parseChars, if_neg hb, ih]
      · rfl
      · exact h34
      · exact fun _ _ _ _ _ h => absurd h h92
      · exact fun _ _ h => absurd h h92
  | @letter e b p ps he hp ih =>
      have hne : e ≠ 117 := by
        rintro rfl
        cases he
      rw [List.cons_append, List.cons_append, parseChars, he, ih]
      · rfl
      · exact fun _ _ _ _ _ h => absurd h hne
  | @unit h p u ps hlen hu hp ih =>
      obtain ⟨a, b, c, d, rfl⟩ : ∃ a b c d, h = [a, b, c, d] := by
        match h, hlen with
        | [a, b, c, d], _ => exact ⟨a, b, c, d, rfl⟩
      change parseChars (92 :: 117 :: a :: b :: c :: d :: (p ++ 34 :: r)) = _
      rw [parseChars, hu, ih]
      rfl

/-- A string without escapes and control characters spells itself. -/
theorem spelled_bytes (h : ∀ b ∈ p, 32 ≤ b ∧ b ≠ 34 ∧ b ≠ 92) : Spelled p (p.map .byte) := by
  induction p with
  | nil => exact .nil
  | cons b p ih =>
      obtain ⟨h32, h34, h92⟩ := h b (List.mem_cons_self ..)
      exact .plain h32 h34 h92 (ih fun x hx => h x (List.mem_cons_of_mem _ hx))

theorem decode_bytes (p : List UInt8) : decode (p.map .byte) = p := by
  induction p with
  | nil => rfl
  | cons b p ih => rw [List.map_cons, decode, ih]

/-- A bound for the bytes that a piece stands for. -/
def Piece.weight : Piece → ℕ
  | .byte _ => 1
  | .unit _ => 4

def weight (ps : List Piece) : ℕ := (ps.map Piece.weight).sum

theorem weight_cons (x : Piece) (ps : List Piece) : weight (x :: ps) = x.weight + weight ps := by
  simp [weight]

theorem length_encode_le (n : ℕ) : (encode n).length ≤ 4 := by
  unfold encode
  repeat' split
  all_goals simp

theorem length_decode_le (ps : List Piece) : (decode ps).length ≤ weight ps := by
  fun_induction decode ps with
  | case1 => exact Nat.zero_le _
  | case2 b ps ih =>
      rw [List.length_cons, weight_cons, Piece.weight]
      omega
  | case3 u v ps hpair ih =>
      have hlen := length_encode_le (0x10000 + (u - 0xD800) * 0x400 + (v - 0xDC00))
      rw [List.length_append, weight_cons, weight_cons, Piece.weight, Piece.weight]
      omega
  | case4 u v ps hpair ih =>
      have hlen := length_encode_le u
      rw [List.length_append, weight_cons, Piece.weight]
      omega
  | case5 u ps hne ih =>
      have hlen := length_encode_le u
      rw [List.length_append, weight_cons, Piece.weight]
      omega

/-- The bytes of a value are those of its pieces. -/
theorem byte_mem_decode {b : UInt8} (h : .byte b ∈ ps) : b ∈ decode ps := by
  fun_induction decode ps with
  | case1 => cases h
  | case2 x ps ih =>
      rcases List.mem_cons.1 h with heq | hmem
      · cases heq
        exact List.mem_cons_self ..
      · exact List.mem_cons_of_mem _ (ih hmem)
  | case3 u v ps hpair ih =>
      have hmem : .byte b ∈ ps := by simpa using h
      exact List.mem_append_right _ (ih hmem)
  | case4 u v ps hpair ih =>
      have hmem : .byte b ∈ Piece.unit v :: ps := by simpa using h
      exact List.mem_append_right _ (ih hmem)
  | case5 u ps hne ih =>
      have hmem : .byte b ∈ ps := by simpa using h
      exact List.mem_append_right _ (ih hmem)

/-- An escape is longer than what it stands for. -/
theorem Spelled.weight_le (h : Spelled p ps) :
    weight ps ≤ p.length ∧ (p.length ≤ weight ps → ∀ b ∈ p, 32 ≤ b ∧ b ≠ 92) := by
  induction h with
  | nil => exact ⟨le_refl _, fun _ _ hb => nomatch hb⟩
  | @plain b p ps h32 h34 h92 hp ih =>
      obtain ⟨hle, hplain⟩ := ih
      rw [weight_cons, List.length_cons, Piece.weight]
      refine ⟨by omega, ?_⟩
      intro hlen x hx
      rcases List.mem_cons.1 hx with rfl | hx
      · exact ⟨h32, h92⟩
      · exact hplain (by omega) x hx
  | @letter e b p ps he hp ih =>
      rw [weight_cons, List.length_cons, List.length_cons, Piece.weight]
      exact ⟨by omega, fun hlen => absurd hlen (by omega)⟩
  | @unit h p u ps hlen hu hp ih =>
      rw [weight_cons, List.length_cons, List.length_cons, List.length_append, Piece.weight]
      exact ⟨by omega, fun hlen => absurd hlen (by omega)⟩

/-- **Only a string without escapes is spelled by its value.** -/
theorem Spelled.plain_of_decode (h : Spelled p ps) (hd : decode ps = p) :
    ∀ b ∈ p, 32 ≤ b ∧ b ≠ 92 := by
  refine h.weight_le.2 ?_
  have hle := length_decode_le ps
  rwa [hd] at hle

/-- A quote inside a string is a quote of its value. -/
theorem Spelled.quote (h : Spelled p ps) (hq : 34 ∈ p) : .byte 34 ∈ ps := by
  induction h with
  | nil => cases hq
  | plain h32 h34 h92 hp ih =>
      rcases List.mem_cons.1 hq with heq | hmem
      · exact absurd heq.symm h34
      · exact List.mem_cons_of_mem _ (ih hmem)
  | @letter e b p ps he hp ih =>
      rcases List.mem_cons.1 hq with heq | hq
      · cases heq
      · rcases List.mem_cons.1 hq with rfl | hmem
        · cases he
          exact List.mem_cons_self ..
        · exact List.mem_cons_of_mem _ (ih hmem)
  | @unit h p u ps hlen hu hp ih =>
      have hmem : 34 ∈ h ∨ 34 ∈ p := by simpa using hq
      rcases hmem with hmem | hmem
      · have hall : h.all isxdigit = true := by
          unfold hexUnit at hu
          split at hu
          · next hall => exact hall
          · cases hu
        exact absurd (List.all_eq_true.1 hall _ hmem) (by decide)
      · exact List.mem_cons_of_mem _ (ih hmem)

/-- **A text without a quote is the value of the string it begins** only if it has no escapes, and
then the string ends with it. -/
theorem parseChars_value {name t : List UInt8} (hq : 34 ∉ name)
    (h : parseChars (name ++ 34 :: t) = some (ps, r)) (hd : decode ps = name) :
    (∀ b ∈ name, 32 ≤ b ∧ b ≠ 34 ∧ b ≠ 92) ∧ r = t := by
  obtain ⟨p, hp, hspell⟩ := parseChars_eq_some h
  have hpq : 34 ∉ p := by
    intro hmem
    exact hq (hd ▸ byte_mem_decode (hspell.quote hmem))
  have hidx := congrArg (List.idxOf 34) hp
  rw [List.idxOf_append_of_notMem hq, List.idxOf_append_of_notMem hpq, List.idxOf_cons_self,
    List.idxOf_cons_self, Nat.add_zero, Nat.add_zero] at hidx
  obtain ⟨rfl, hrest⟩ := List.append_inj hp hidx
  cases hrest
  refine ⟨?_, rfl⟩
  intro b hb
  obtain ⟨h32, h92⟩ := hspell.plain_of_decode hd b hb
  exact ⟨h32, fun h34 => hq (h34 ▸ hb), h92⟩

end Strings

/-! ### The bound on the recursion -/

section Bound

variable {s r : List UInt8}

theorem length_skipBlanks_le (s : List UInt8) : (skipBlanks s).length ≤ s.length :=
  (List.dropWhile_suffix _).length_le

theorem length_parseChars {ps : List Piece} (h : parseChars s = some (ps, r)) :
    r.length < s.length := by
  obtain ⟨p, rfl, -⟩ := parseChars_eq_some h
  rw [List.length_append, List.length_cons]
  omega

theorem length_parseScalar {v : Json} (h : parseScalar s = some (v, r)) : r.length < s.length := by
  have hdrop : ∀ k, 0 < k → s ≠ [] → (s.drop k).length < s.length := by
    intro k hk hs
    have := List.length_pos_iff.2 hs
    rw [List.length_drop]
    omega
  unfold parseScalar at h
  split at h
  · next htake =>
      cases h
      exact hdrop 4 (by decide) (by rintro rfl; cases htake)
  · split at h
    · next htake =>
        cases h
        exact hdrop 4 (by decide) (by rintro rfl; cases htake)
    · split at h
      · next htake =>
          cases h
          exact hdrop 5 (by decide) (by rintro rfl; cases htake)
      · dsimp only at h
        split at h
        · cases h
        · next hn =>
            cases h
            exact hdrop _ (Nat.pos_of_ne_zero hn) (by rintro rfl; exact hn rfl)

theorem length_parseKey {k : List UInt8} (h : parseKey s = some (k, r)) :
    r.length < s.length := by
  have hs := length_skipBlanks_le s
  unfold parseKey at h
  split at h
  · next t ht =>
      rw [ht, List.length_cons] at hs
      obtain ⟨⟨ps, u⟩, hchars, h⟩ := Option.bind_eq_some_iff.1 h
      have hu := length_parseChars hchars
      have hblank := length_skipBlanks_le u
      dsimp only at h
      split at h
      · next w hw =>
          cases h
          rw [hw, List.length_cons] at hblank
          omega
      · cases h
  · cases h

/-- `f` finds on `s` what `n` allowed, with any number that is large enough; and the rest is
shorter. -/
def Enough {α : Type} (f : ℕ → List UInt8 → Option (α × List UInt8)) (extra n : ℕ) : Prop :=
  ∀ s x r, f n s = some (x, r) →
    r.length < s.length ∧ ∀ m, 2 * s.length + extra ≤ m → f m s = some (x, r)

theorem between_enough {α : Type} {f : ℕ → List UInt8 → Option (α × List UInt8)} {n : ℕ}
    (hf : Enough f 2 n) {close : UInt8} {empty : Json} {wrap : α → Json} {x : Json}
    (h : between (f n) close empty wrap s = some (x, r)) :
    r.length ≤ s.length ∧
      ∀ m, 2 * s.length + 2 ≤ m → between (f m) close empty wrap s = some (x, r) := by
  unfold between at h ⊢
  split at h
  · next hhead =>
      cases h
      have hs := length_skipBlanks_le s
      refine ⟨?_, fun m _ => if_pos hhead⟩
      rw [List.length_tail]
      omega
  · next hhead =>
      obtain ⟨⟨y, w⟩, hy, hx⟩ := Option.map_eq_some_iff.1 h
      cases hx
      obtain ⟨hlen, hall⟩ := hf _ _ _ hy
      refine ⟨hlen.le, fun m hm => ?_⟩
      rw [if_neg hhead, hall m hm]
      rfl

theorem enough_value {n : ℕ} (he : Enough parseElements 2 n) (hm : Enough parseMembers 2 n) :
    Enough parseValue 1 (n + 1) := by
  intro s x r h
  have hs := length_skipBlanks_le s
  have hgoal : r.length < s.length ∧
      ∀ m, 2 * s.length ≤ m → parseValue (m + 1) s = some (x, r) := by
    simp only [parseValue] at h ⊢
    generalize skipBlanks s = t at h hs
    split at h
    · next u =>
        obtain ⟨⟨ps, w⟩, hchars, hx⟩ := Option.map_eq_some_iff.1 h
        cases hx
        have hlen := length_parseChars hchars
        rw [List.length_cons] at hs
        exact ⟨hlen.trans hs, fun m _ => h⟩
    · next u =>
        obtain ⟨hlen, hall⟩ := between_enough he h
        rw [List.length_cons] at hs
        exact ⟨by omega, fun m hm' => hall m (by omega)⟩
    · next u =>
        obtain ⟨hlen, hall⟩ := between_enough hm h
        rw [List.length_cons] at hs
        exact ⟨by omega, fun m hm' => hall m (by omega)⟩
    · exact ⟨(length_parseScalar h).trans_le hs, fun m _ => h⟩
  refine ⟨hgoal.1, fun m hm' => ?_⟩
  obtain ⟨k, rfl⟩ : ∃ k, m = k + 1 := ⟨m - 1, by omega⟩
  exact hgoal.2 k (by omega)

theorem following_enough {α : Type} {f : ℕ → List UInt8 → Option (List α × List UInt8)} {n : ℕ}
    (hf : Enough f 2 n) {close : UInt8} {x : α} {xs : List α}
    (h : following (f n) close x s = some (xs, r)) :
    r.length < s.length ∧
      ∀ m, 2 * s.length ≤ m → following (f m) close x s = some (xs, r) := by
  have hs := length_skipBlanks_le s
  unfold following at h ⊢
  generalize skipBlanks s = t at h hs
  cases t with
  | nil => cases h
  | cons b t =>
      rw [List.length_cons] at hs
      dsimp only at h ⊢
      split at h
      · next hb =>
          obtain ⟨⟨y, w⟩, hy, hx⟩ := Option.map_eq_some_iff.1 h
          cases hx
          obtain ⟨hlen, hall⟩ := hf _ _ _ hy
          refine ⟨(hlen.trans (Nat.lt_succ_self _)).trans_le hs, fun m hm => ?_⟩
          rw [if_pos hb, hall m (by omega)]
          rfl
      · next hb =>
          split at h
          · next hclose =>
              cases h
              exact ⟨hs, fun m _ => by rw [if_neg hb, if_pos hclose]⟩
          · cases h

theorem enough_elements {n : ℕ} (hv : Enough parseValue 1 n) (he : Enough parseElements 2 n) :
    Enough parseElements 2 (n + 1) := by
  intro s x r h
  simp only [parseElements] at h
  obtain ⟨⟨v, t⟩, hval, hfol⟩ := Option.bind_eq_some_iff.1 h
  obtain ⟨hlen, hall⟩ := hv _ _ _ hval
  obtain ⟨hlen', hall'⟩ := following_enough he hfol
  dsimp only at hlen' hall'
  refine ⟨hlen'.trans hlen, fun m hm => ?_⟩
  obtain ⟨k, rfl⟩ : ∃ k, m = k + 1 := ⟨m - 1, by omega⟩
  simp only [parseElements]
  rw [hall k (by omega)]
  exact hall' k (by omega)

theorem enough_members {n : ℕ} (hv : Enough parseValue 1 n) (hm : Enough parseMembers 2 n) :
    Enough parseMembers 2 (n + 1) := by
  intro s x r h
  simp only [parseMembers] at h
  obtain ⟨⟨key, u⟩, hkey, h⟩ := Option.bind_eq_some_iff.1 h
  obtain ⟨⟨v, t⟩, hval, hfol⟩ := Option.bind_eq_some_iff.1 h
  have hlenk := length_parseKey hkey
  obtain ⟨hlen, hall⟩ := hv _ _ _ hval
  obtain ⟨hlen', hall'⟩ := following_enough hm hfol
  dsimp only at hlen hall hlen' hall'
  refine ⟨hlen'.trans (hlen.trans hlenk), fun m hm => ?_⟩
  obtain ⟨k, rfl⟩ : ∃ k, m = k + 1 := ⟨m - 1, by omega⟩
  simp only [parseMembers]
  rw [hkey]
  change (parseValue k u >>= _) = _
  rw [hall k (by omega)]
  exact hall' k (by omega)

theorem enough_all (n : ℕ) :
    Enough parseValue 1 n ∧ Enough parseElements 2 n ∧ Enough parseMembers 2 n := by
  induction n with
  | zero => exact ⟨nofun, nofun, nofun⟩
  | succ n ih =>
      obtain ⟨hv, he, hm⟩ := ih
      exact ⟨enough_value he hm, enough_elements hv he, enough_members hv hm⟩

/-- **The bound on the recursion refuses nothing**: what is a value with any bound is a text. -/
theorem parse_of_parseValue {n : ℕ} {v : Json} (hu : utf8 s = true)
    (h : parseValue n s = some (v, r)) (hr : skipBlanks r = []) : parse s = some v := by
  have hall := ((enough_all n).1 _ _ _ h).2 (2 * s.length + 1) (le_refl _)
  unfold parse
  rw [if_pos hu, hall]
  exact if_pos hr

/-- What a text is. -/
theorem parse_eq_some {v : Json} (h : parse s = some v) :
    utf8 s = true ∧ ∃ r, parseValue (2 * s.length + 1) s = some (v, r) ∧ skipBlanks r = [] := by
  unfold parse at h
  split at h
  · next hu =>
      split at h
      · next w r hval =>
          split at h
          · next hr =>
              cases h
              exact ⟨hu, r, hval, hr⟩
          · cases h
      · cases h
  · cases h

end Bound

/-! ### Texts with known names -/

section Known

variable {s : List UInt8} {k : ℕ}

/-- Bytes that a string spells as they are. -/
def Plain (p : List UInt8) : Prop := ∀ b ∈ p, 32 ≤ b ∧ b ≠ 34 ∧ b ≠ 92

instance (p : List UInt8) : Decidable (Plain p) := List.decidableBAll _ p

theorem parseChars_plain {p : List UInt8} (h : Plain p) (s : List UInt8) :
    parseChars (p ++ 34 :: s) = some (p.map .byte, s) :=
  parseChars_append (spelled_bytes h) s

theorem parseKey_quote (s : List UInt8) :
    parseKey (34 :: s) = (parseChars s).bind fun x =>
      match skipBlanks x.2 with
      | 58 :: s => some (decode x.1, s)
      | _ => none := rfl

theorem parseKey_plain {p : List UInt8} (h : Plain p) (s : List UInt8) :
    parseKey (34 :: (p ++ 34 :: 58 :: s)) = some (p, s) := by
  rw [parseKey_quote, parseChars_plain h]
  change some (decode (p.map .byte), s) = _
  rw [decode_bytes]

theorem parseValue_string (k : ℕ) (s : List UInt8) :
    parseValue (k + 1) (34 :: s) =
      (parseChars s).map fun x => (.string (decode x.1), x.2) := rfl

theorem parseValue_plain {p : List UInt8} (h : Plain p) (k : ℕ) (s : List UInt8) :
    parseValue (k + 1) (34 :: (p ++ 34 :: s)) = some (.string p, s) := by
  rw [parseValue_string, parseChars_plain h, Option.map_some, decode_bytes]

theorem parseValue_array (k : ℕ) (s : List UInt8) :
    parseValue (k + 1) (91 :: s) = between (parseElements k) 93 (.array []) .array s := rfl

/-- An object that begins with a member. -/
theorem parseValue_object (k : ℕ) (s : List UInt8) :
    parseValue (k + 1) (123 :: 34 :: s) =
      (parseMembers k (34 :: s)).map fun x => (.object x.1, x.2) := rfl

/-- A member with a plain name. -/
theorem parseMembers_plain {p : List UInt8} (h : Plain p) (k : ℕ) (s : List UInt8) :
    parseMembers (k + 1) (34 :: (p ++ 34 :: 58 :: s)) =
      (parseValue k s).bind fun x => following (parseMembers k) 125 (p, x.1) x.2 := by
  rw [parseMembers, parseKey_plain h]
  rfl

theorem following_comma {α : Type} (f : List UInt8 → Option (List α × List UInt8)) (close : UInt8)
    (x : α) (s : List UInt8) :
    following f close x (44 :: s) = (f s).map fun y => (x :: y.1, y.2) := rfl

/-- A member with a plain name whose value is a plain string, and more members. -/
theorem parseMembers_string {p v : List UInt8} (hp : Plain p) (hv : Plain v) (k : ℕ)
    (s : List UInt8) :
    parseMembers (k + 2) (34 :: (p ++ 34 :: 58 :: 34 :: (v ++ 34 :: 44 :: s))) =
      (parseMembers (k + 1) s).map fun y => ((p, .string v) :: y.1, y.2) := by
  rw [parseMembers_plain hp, parseValue_plain hv, Option.bind_some, following_comma]

end Known

end Json
