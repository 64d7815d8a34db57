/-
The fields of a flat body.

`json_get_string`, `json_get_int` and `json_get_float_array` search for a key in quotes.  On an
object without nested objects that is a lookup: the members may stand in any order, and the bytes
of the other keys and strings do not matter.

Main definitions:

* `Gateway.floatsOf`, `Gateway.stringOf`, `Gateway.intOf` — what the functions make of a value.

Main results:

* `Gateway.afterKey_lookup` — **the search is a lookup**;
* `Gateway.jsonGetFloatArray_lookup`, `Gateway.jsonGetString_lookup`, `Gateway.jsonGetInt_lookup`
  — the functions, on a flat body;
* `Gateway.field_extraction` — **the fields of a request are what its members say**.
-/

import InferenceGateway.HttpArray
import InferenceGateway.JsonFlat

set_option relaxedAutoImplicit false
set_option autoImplicit false

namespace Gateway

open CString (isspace isdigit strchr strtofLength)
open Json (Literal FlatValue FlatObject Word Ends Stops isBlank quoted)

variable {F : Type}

/-! ### What the functions make of a value -/

/-- The numbers that the elements of an array begin with. -/
def leadingNumbers : List FlatValue → List Literal
  | .number l :: vs => l :: leadingNumbers vs
  | _ => []

def floatsOf (value : Bytes → F) : FlatValue → List F
  | .array items => (leadingNumbers items).map fun l => value l.text
  | _ => []

def stringOf : FlatValue → Bytes
  | .string p _ _ => p.takeWhile (· ≠ 34)
  | _ => []

def intOf (defaultVal : ℤ) : FlatValue → ℤ
  | .number l =>
      if l.negative then defaultVal
      else Int.bmod (min CString.LONG_MAX (CString.digits l.whole)) (2 ^ 32)
  | _ => defaultVal

/-! ### The search -/

/-- A key that fits into the search buffer. -/
structure Name (key : Bytes) : Prop where
  word : Word key
  short : key.length ≤ 124

theorem Name.searchText_eq {key : Bytes} (h : Name key) : searchText key = quoted key := by
  have hlen := h.short
  rw [searchText, List.take_of_length_le]
  · rw [List.append_assoc]
    rfl
  · simp only [List.length_append, ascii]
    change 1 + key.length + 2 ≤ 127
    omega

theorem name_input : Name (ascii "input") where
  word := ⟨by decide, by decide, by rintro b ⟨⟩; decide⟩
  short := by decide

theorem name_model : Name (ascii "model") where
  word := ⟨by decide, by decide, by rintro b ⟨⟩; decide⟩
  short := by decide

theorem name_priority : Name (ascii "priority") where
  word := ⟨by decide, by decide, by rintro b ⟨⟩; decide⟩
  short := by decide

theorem afterKey_eq_find {key : Bytes} (h : Name key) (body : Bytes) :
    afterKey body key = (Json.find body key).map skipWs := by
  rw [afterKey, h.searchText_eq, Json.find, Option.map_map]
  rfl

/-- The first byte of a value. -/
theorem first_byte (v : FlatValue) (r : Bytes) (b : UInt8) (hb : b ∈ (v.text ++ r).head?) :
    b ∈ ascii "\"[fnt" ∨ b = 45 ∨ isdigit b = true := by
  cases v with
  | null =>
      obtain rfl : 110 = b := by simpa [FlatValue.text] using hb
      exact .inl (by decide)
  | bool x =>
      cases x with
      | true =>
          obtain rfl : 116 = b := by simpa [FlatValue.text] using hb
          exact .inl (by decide)
      | false =>
          obtain rfl : 102 = b := by simpa [FlatValue.text] using hb
          exact .inl (by decide)
  | number l =>
      rw [FlatValue.text] at hb
      exact .inr (l.head_text_append r b hb)
  | string p ps h =>
      obtain rfl : 34 = b := by simpa [FlatValue.text] using hb
      exact .inl (by decide)
  | array items =>
      obtain rfl : 91 = b := by simpa [FlatValue.text] using hb
      exact .inl (by decide)

theorem length_value_pos (v : FlatValue) : 0 < v.text.length := by
  cases v with
  | number l =>
      rw [FlatValue.text]
      exact List.length_pos_iff.2 l.text_ne_nil
  | null => decide
  | bool b =>
      cases b with
      | true => decide
      | false => decide
  | string p ps h =>
      rw [FlatValue.text]
      exact Nat.succ_pos _
  | array items =>
      rw [FlatValue.text]
      exact Nat.succ_pos _

/-- A value begins neither with a blank nor with a comma. -/
theorem head_value (v : FlatValue) (r : Bytes) :
    ∀ b ∈ (v.text ++ r).head?, isBlank b = false ∧ isSeparator b = false := by
  intro b hb
  rcases first_byte v r b hb with h | h
  · have hall : ∀ x ∈ ascii "\"[fnt", isBlank x = false ∧ isSeparator x = false :=
      CString.forall_of_all rfl
    exact hall b h
  · refine ⟨Bool.eq_false_iff.2 fun hblank => ?_, (not_isSeparator_of_number h).1⟩
    have hspace := isspace_of_isBlank hblank
    rcases h with rfl | h
    · exact absurd hspace (by decide)
    · rw [(CString.not_isspace_of_isdigit h).1] at hspace
      cases hspace

/-- **The search is a lookup**: it stops at the value of the member, or finds nothing. -/
theorem afterKey_lookup (o : FlatObject) {key : Bytes} (h : Name key) :
    (∃ v r, o.lookup key = some v ∧ Ends r ∧ afterKey o.text key = some (v.text ++ r)) ∨
      o.lookup key = none ∧ afterKey o.text key = none := by
  rw [afterKey_eq_find h]
  rcases o.find_cases h.word with ⟨v, gap, r, hv, hgap, hr, hfound⟩ | ⟨hnone, hfound⟩
  · refine .inl ⟨v, r, hv, hr, ?_⟩
    rw [hfound, Option.map_some]
    exact congrArg some (CString.dropWhile_append_stop hgap fun b hb =>
      (head_value v r b hb).1)
  · exact .inr ⟨hnone, by rw [hfound]; rfl⟩

/-! ### Strings -/

/-- The bytes up to the first quote. -/
theorem take_strchr (p r : Bytes) :
    ∃ n, strchr (p ++ 34 :: r) 34 = some n ∧
      (p ++ 34 :: r).take n = p.takeWhile (· ≠ 34) := by
  by_cases h : 34 ∈ p
  · obtain ⟨w, s, rfl, hw⟩ := CString.split_of_mem h
    refine ⟨w.length, ?_, ?_⟩
    · rw [List.append_assoc]
      exact CString.strchr_append hw _
    · rw [List.append_assoc, List.take_left]
      refine (CString.takeWhile_append_stop (fun b hb => ?_) ?_).symm
      · exact decide_eq_true fun heq => hw (heq ▸ hb)
      · rintro b ⟨⟩
        rfl
  · refine ⟨p.length, CString.strchr_append h r, ?_⟩
    rw [List.take_left, List.takeWhile_eq_self_iff.2]
    intro b hb
    exact decide_eq_true fun heq => h (heq ▸ hb)

/-- `json_get_string` on a value. -/
theorem jsonGetString_of {body key r : Bytes} {v : FlatValue}
    (h : afterKey body key = some (v.text ++ r)) : jsonGetString body key = stringOf v := by
  rw [jsonGetString, h]
  cases v with
  | null => rfl
  | bool b =>
      cases b with
      | true => rfl
      | false => rfl
  | number l =>
      rw [FlatValue.text]
      split
      · next heq => exact absurd (Option.some.inj heq) (l.text_append_ne (by decide) rfl r _)
      · rfl
  | string p ps hp =>
      obtain ⟨n, hn, htake⟩ := take_strchr p r
      have htext : (FlatValue.string p ps hp).text ++ r = 34 :: (p ++ 34 :: r) := by
        rw [FlatValue.text, List.cons_append, List.append_assoc]
        rfl
      rw [htext]
      simp only [hn, htake]
      rfl
  | array items => rfl

/-! ### Integers -/

theorem stops_of_ends {r : Bytes} (h : Ends r) : Stops r := by
  intro b hb
  have hdelim := h b hb
  simp only [Json.delimits, isBlank, Bool.or_eq_true, beq_iff_eq] at hdelim
  rcases hdelim with (((((rfl | rfl) | rfl) | rfl) | rfl) | rfl) | rfl
  all_goals decide

/-- `json_get_int` on a literal, with anything behind it. -/
theorem jsonGetInt_literal {body key r : Bytes} {l : Literal} (hr : Stops r)
    (h : afterKey body key = some (l.text ++ r)) (d : ℤ) :
    jsonGetInt body key d = intOf d (.number l) := by
  rw [jsonGetInt, h]
  cases hsign : l.negative with
  | true =>
      have htext : l.text ++ r = 45 :: (l.text.tail ++ r) := by
        simp [Literal.text, Literal.signText, hsign]
      rw [htext, intOf, hsign]
      rfl
  | false =>
      obtain ⟨b, s, htext, hdigit⟩ := l.head_unsigned hsign r
      have hatol := l.atol_text hsign hr
      rw [intOf, hsign]
      rw [htext] at hatol ⊢
      simp only [hdigit, hatol, if_true]
      rfl

/-- `json_get_int` on a value. -/
theorem jsonGetInt_of {body key r : Bytes} {v : FlatValue} (hr : Ends r)
    (h : afterKey body key = some (v.text ++ r)) (d : ℤ) : jsonGetInt body key d = intOf d v := by
  cases v with
  | number l =>
      rw [FlatValue.text] at h
      exact jsonGetInt_literal (stops_of_ends hr) h d
  | null =>
      rw [jsonGetInt, h]
      rfl
  | bool b =>
      rw [jsonGetInt, h]
      cases b with
      | true => rfl
      | false => rfl
  | string p ps hp =>
      rw [jsonGetInt, h]
      rfl
  | array items =>
      rw [jsonGetInt, h]
      rfl

/-! ### Arrays -/

/-- `strtof` reads no value but a number. -/
theorem strtofLength_value {v : FlatValue} (h : ∀ l, v ≠ .number l) (r : Bytes) :
    strtofLength (v.text ++ r) = 0 := by
  cases v with
  | null => rfl
  | bool b =>
      cases b with
      | true => rfl
      | false => rfl
  | number l => exact absurd rfl (h l)
  | string p ps hp => rfl
  | array items => rfl

/-- The loop behind the last number of an array. -/
theorem floatLoop_stop (ofText : Bytes → F) (n : ℕ) {seps s : Bytes}
    (hseps : ∀ b ∈ seps, isSeparator b = true) (hs : ∀ b ∈ s.head?, isSeparator b = false)
    (h : strtofLength s = 0) : floatLoop ofText n (seps ++ s) = [] := by
  cases n with
  | zero => rfl
  | succ n =>
      refine (floatLoop_eq_nil_iff ofText n _).2 ?_
      rw [CString.dropWhile_append_stop hseps hs]
      exact h

/-- A pass on an element of an array. -/
theorem floatLoop_item (value : Bytes → F) (n : ℕ) {seps r : Bytes} (v : FlatValue)
    (hseps : ∀ b ∈ seps, isSeparator b = true) (hr : Stops r) :
    floatLoop (strtof value) (n + 1) (seps ++ (v.text ++ r)) =
      match v with
      | .number l => value l.text :: floatLoop (strtof value) n r
      | _ => [] := by
  have hstop : (∀ l, v ≠ .number l) →
      floatLoop (strtof value) (n + 1) (seps ++ (v.text ++ r)) = [] := fun hv =>
    floatLoop_stop _ _ hseps (fun b hb => (head_value v r b hb).2) (strtofLength_value hv r)
  cases v with
  | number l =>
      rw [FlatValue.text]
      exact floatLoop_number value n (w := []) l hseps (List.forall_mem_nil _) hr
  | null => exact hstop nofun
  | bool b => exact hstop nofun
  | string p ps h => exact hstop nofun
  | array items => exact hstop nofun

theorem leadingNumbers_cons (value : Bytes → F) (v : FlatValue) (vs : List FlatValue) :
    (leadingNumbers (v :: vs)).map (fun l => value l.text) =
      match v with
      | .number l => value l.text :: (leadingNumbers vs).map fun l => value l.text
      | _ => [] := by
  cases v with
  | number l => rfl
  | null => rfl
  | bool b => rfl
  | string p ps h => rfl
  | array items => rfl

/-- **The loop on an array without blanks** reads the numbers it begins with. -/
theorem floatLoop_items (value : Bytes → F) (items : List FlatValue) (r : Bytes) (n : ℕ)
    {seps : Bytes} (hseps : ∀ b ∈ seps, isSeparator b = true)
    (hn : (seps ++ (FlatValue.itemsText items ++ 93 :: r)).length ≤ n) :
    floatLoop (strtof value) n (seps ++ (FlatValue.itemsText items ++ 93 :: r)) =
      (leadingNumbers items).map fun l => value l.text := by
  induction items generalizing n seps with
  | nil =>
      rw [FlatValue.itemsText, List.nil_append]
      refine floatLoop_stop _ n hseps ?_ rfl
      rintro b ⟨⟩
      rfl
  | cons v vs ih =>
      obtain ⟨m, rfl⟩ : ∃ m, n = m + 1 := ⟨n - 1, by
        simp only [List.length_append, List.length_cons] at hn
        omega⟩
      cases vs with
      | nil =>
          have hstops : Stops (93 :: r) :=
            stops_of_after (w := []) (List.forall_mem_nil _) (.inr rfl) r
          have hend : floatLoop (strtof value) m (93 :: r) = [] :=
            floatLoop_end _ m (w := []) (List.forall_mem_nil _) r
          rw [FlatValue.itemsText, floatLoop_item value m v hseps hstops, hend,
            leadingNumbers_cons]
          rfl
      | cons w vs =>
          have htext : FlatValue.itemsText (v :: w :: vs) ++ 93 :: r =
              v.text ++ 44 :: (FlatValue.itemsText (w :: vs) ++ 93 :: r) := by
            rw [FlatValue.itemsText, List.append_assoc]
            · rfl
            · exact nofun
          have hstops : Stops (44 :: (FlatValue.itemsText (w :: vs) ++ 93 :: r)) :=
            stops_of_after (w := []) (List.forall_mem_nil _) (.inl rfl) _
          have hcomma : ∀ b ∈ ([44] : Bytes), isSeparator b = true :=
            List.forall_mem_singleton.2 rfl
          have hrest := ih m hcomma (by
            rw [htext] at hn
            have hpos := length_value_pos v
            simp only [List.length_append, List.length_cons, List.length_nil] at hn ⊢
            omega)
          rw [htext, floatLoop_item value m v hseps hstops, leadingNumbers_cons, ← hrest]
          rfl

/-- `json_get_float_array` on a value. -/
theorem jsonGetFloatArray_of (value : Bytes → F) {body key r : Bytes} {v : FlatValue}
    (h : afterKey body key = some (v.text ++ r)) :
    jsonGetFloatArray (strtof value) body key = floatsOf value v := by
  cases v with
  | array items =>
      have htext : (FlatValue.array items).text ++ r =
          91 :: (FlatValue.itemsText items ++ 93 :: r) := by
        rw [FlatValue.text, List.cons_append, List.append_assoc]
        rfl
      rw [htext] at h
      rw [jsonGetFloatArray_eq _ h]
      have hnone : ∀ b ∈ ([] : Bytes), isSeparator b = true := nofun
      exact floatLoop_items value items r _ hnone (le_refl _)
  | number l =>
      rw [jsonGetFloatArray, h, FlatValue.text]
      split
      · next heq => exact absurd (Option.some.inj heq) (l.text_append_ne (by decide) rfl r _)
      · rfl
  | null =>
      rw [jsonGetFloatArray, h]
      rfl
  | bool b =>
      rw [jsonGetFloatArray, h]
      cases b with
      | true => rfl
      | false => rfl
  | string p ps hp =>
      rw [jsonGetFloatArray, h]
      rfl

/-! ### Flat bodies -/

section Lookup

variable (o : FlatObject) {key : Bytes}

/-- **`json_get_string` on a flat body.** -/
theorem jsonGetString_lookup (h : Name key) :
    jsonGetString o.text key = (o.lookup key).elim [] stringOf := by
  rcases afterKey_lookup o h with ⟨v, r, hv, -, hfound⟩ | ⟨hnone, hfound⟩
  · rw [hv, jsonGetString_of hfound]
    rfl
  · rw [hnone, jsonGetString, hfound]
    rfl

/-- **`json_get_int` on a flat body.** -/
theorem jsonGetInt_lookup (h : Name key) (d : ℤ) :
    jsonGetInt o.text key d = (o.lookup key).elim d (intOf d) := by
  rcases afterKey_lookup o h with ⟨v, r, hv, hr, hfound⟩ | ⟨hnone, hfound⟩
  · rw [hv, jsonGetInt_of hr hfound]
    rfl
  · rw [hnone, jsonGetInt, hfound]
    rfl

/-- **`json_get_float_array` on a flat body.** -/
theorem jsonGetFloatArray_lookup (value : Bytes → F) (h : Name key) :
    jsonGetFloatArray (strtof value) o.text key = (o.lookup key).elim [] (floatsOf value) := by
  rcases afterKey_lookup o h with ⟨v, r, hv, -, hfound⟩ | ⟨hnone, hfound⟩
  · rw [hv, jsonGetFloatArray_of value hfound]
    rfl
  · rw [hnone, jsonGetFloatArray, hfound]
    rfl

end Lookup

/-! ### Main result -/

theorem leadingNumbers_numbers (ls : List Literal) : leadingNumbers (ls.map .number) = ls := by
  induction ls with
  | nil => rfl
  | cons l ls ih => rw [List.map_cons, leadingNumbers, ih]

/-- A string without escapes is its own value. -/
theorem decode_of_no_escape {p : Bytes} {ps : List Json.Piece} (h : Json.Spelled p ps)
    (hp : 92 ∉ p) : stringOf (.string p ps h) = Json.decode ps := by
  have hplain : p.takeWhile (· ≠ 34) = p ∧ ps = p.map .byte := by
    induction h with
    | nil => exact ⟨rfl, rfl⟩
    | @plain b p ps _ h34 _ _ ih =>
        obtain ⟨-, hp⟩ := not_or.1 (mt List.mem_cons.2 hp)
        obtain ⟨htake, hps⟩ := ih hp
        exact ⟨by simpa [h34] using htake, by rw [hps]; rfl⟩
    | letter _ _ => exact absurd List.mem_cons_self hp
    | unit _ _ _ => exact absurd List.mem_cons_self hp
  rw [stringOf, hplain.1, hplain.2, Json.decode_bytes]

/-- A whole number in the range of `int` is its own value. -/
theorem intOf_whole (d : ℤ) {l : Literal} (hl : l.IsWhole) (hmax : l.value < 2 ^ 31) :
    (intOf d (.number l) : ℚ) = l.value := by
  have hvalue := Literal.value_of_isWhole l hl
  rw [hvalue] at hmax ⊢
  have hdigits : CString.digits l.whole < 2 ^ 31 := by exact_mod_cast hmax
  have hlong : min CString.LONG_MAX (CString.digits l.whole) = (CString.digits l.whole : ℤ) :=
    min_eq_right (by unfold CString.LONG_MAX; omega)
  have hbmod : Int.bmod (CString.digits l.whole) (2 ^ 32) = CString.digits l.whole :=
    Int.bmod_eq_of_le (by omega) (by omega)
  rw [intOf, hl.1, hlong, if_neg (by decide), hbmod]
  rfl

/-- **The fields of a flat request** are the values of its members, or their defaults, whatever
the other keys and strings are and whatever order the members stand in. -/
theorem field_extraction (value : Bytes → F) (o : FlatObject) (defaultVal : ℤ) :
    (∀ ls : List Literal, o.lookup (ascii "input") = some (.array (ls.map .number)) →
        jsonGetFloatArray (strtof value) o.text (ascii "input") = ls.map fun l => value l.text) ∧
      (o.lookup (ascii "input") = none →
        jsonGetFloatArray (strtof value) o.text (ascii "input") = []) ∧
      (∀ p ps h, o.lookup (ascii "model") = some (.string p ps h) → 92 ∉ p →
        jsonGetString o.text (ascii "model") = Json.decode ps) ∧
      (o.lookup (ascii "model") = none → jsonGetString o.text (ascii "model") = []) ∧
      (∀ l : Literal, o.lookup (ascii "priority") = some (.number l) → l.IsWhole →
        l.value < 2 ^ 31 →
          (jsonGetInt o.text (ascii "priority") defaultVal : ℚ) = l.value) ∧
      (o.lookup (ascii "priority") = none →
        jsonGetInt o.text (ascii "priority") defaultVal = defaultVal) ∧
      ∀ o' : FlatObject, o.members.Perm o'.members →
        jsonGetFloatArray (strtof value) o.text (ascii "input") =
            jsonGetFloatArray (strtof value) o'.text (ascii "input") ∧
          jsonGetString o.text (ascii "model") = jsonGetString o'.text (ascii "model") ∧
          jsonGetInt o.text (ascii "priority") defaultVal =
            jsonGetInt o'.text (ascii "priority") defaultVal := by
  have hfloats := fun o : FlatObject => jsonGetFloatArray_lookup o value name_input
  have hstring := fun o : FlatObject => jsonGetString_lookup o name_model
  have hint := fun o : FlatObject => jsonGetInt_lookup o name_priority defaultVal
  refine ⟨fun ls h => ?_, fun h => ?_, fun p ps hp h hescape => ?_, fun h => ?_,
    fun l h hwhole hmax => ?_, fun h => ?_, fun o' h => ⟨?_, ?_, ?_⟩⟩
  · rw [hfloats, h]
    exact congrArg (List.map fun l => value l.text) (leadingNumbers_numbers ls)
  · rw [hfloats, h]
    rfl
  · rw [hstring, h]
    exact decode_of_no_escape hp hescape
  · rw [hstring, h]
    rfl
  · rw [hint, h]
    exact intOf_whole defaultVal hwhole hmax
  · rw [hint, h]
    rfl
  · rw [hfloats, hfloats, FlatObject.lookup_perm h]
  · rw [hstring, hstring, FlatObject.lookup_perm h]
  · rw [hint, hint, FlatObject.lookup_perm h]

/-- A member without blanks. -/
def bareMember (key : Bytes) (h : Json.Plain key) (v : FlatValue) : Json.Member :=
  ⟨[], key, [], v, [], nofun, h, nofun, nofun⟩

/-- The members of `{"note":"\"priority","priority":1,"model":"m","input":[1]}`. -/
def noteMembers : List Json.Member :=
  [bareMember (ascii "note") (by decide)
      (.string (92 :: 34 :: ascii "priority") (.byte 34 :: (ascii "priority").map .byte)
        (.letter rfl (Json.spelled_bytes (show Json.Plain (ascii "priority") by decide)))),
    bareMember (ascii "priority") (by decide) (.number literalOne),
    bareMember (ascii "model") (by decide)
      (.string (ascii "m") ((ascii "m").map .byte)
        (Json.spelled_bytes (show Json.Plain (ascii "m") by decide))),
    bareMember (ascii "input") (by decide) (.array [.number literalOne])]

/-- The object with these members, or with the same in another order. -/
def noteObject (ms : List Json.Member) (h : (ms.map Json.Member.key).Nodup) : FlatObject :=
  ⟨[], [], ms, [], nofun, nofun, nofun, h⟩

/-- The fields of that request, and of the request with its members in reverse. -/
theorem field_extraction_note :
    jsonGetFloatArray (strtof id) (noteObject noteMembers (by decide)).text (ascii "input") =
        [ascii "1"] ∧
      jsonGetString (noteObject noteMembers (by decide)).text (ascii "model") = ascii "m" ∧
      (jsonGetInt (noteObject noteMembers (by decide)).text (ascii "priority") 0 : ℚ) =
        literalOne.value ∧
      jsonGetString (noteObject noteMembers (by decide)).text (ascii "model") =
        jsonGetString (noteObject noteMembers.reverse (by decide)).text (ascii "model") := by
  obtain ⟨hinput, -, hmodel, -, hpriority, -, hperm⟩ :=
    field_extraction id (noteObject noteMembers (by decide)) 0
  have hwhole : literalOne.IsWhole := ⟨rfl, rfl, rfl⟩
  have hmax : literalOne.value < 2 ^ 31 := by
    rw [Literal.value_of_isWhole _ hwhole]
    change ((1 : ℕ) : ℚ) < 2 ^ 31
    norm_num
  exact ⟨hinput [literalOne] rfl, hmodel _ _ _ rfl (by decide),
    hpriority literalOne rfl hwhole hmax,
    (hperm (noteObject noteMembers.reverse (by decide)) (List.reverse_perm _).symm).2.1⟩

end Gateway
