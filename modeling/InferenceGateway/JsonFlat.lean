/-
**Objects without nested objects, and the search for their keys.**

A program that looks for a member of an object by searching for its key in quotes, with the colon
behind it, finds that member and nothing else: a quoted text that equals the key is the key, since
a quote inside a string is escaped, and no colon follows a string that is a value.  The bytes of
the other keys and strings do not matter.

Main definitions:

* `Json.FlatValue`, `Json.FlatObject` — values and objects, with their texts;
* `Json.quoted` — a key in quotes, with its colon;
* `Json.Word` — a key that no byte behind a string can begin.

Main results:

* `Json.Spelled.eq_of_quoted` — a string that goes on like a key in quotes is that key;
* `Json.Member.avoids_text` — **the key is in no other member**;
* `Json.FlatObject.find_cases` — **the search finds the member**, or there is none;
* `Json.FlatObject.lookup_perm` — the order of the members does not matter.
-/

import InferenceGateway.JsonLiteral

set_option relaxedAutoImplicit false
set_option autoImplicit false

namespace Json

open CString (Avoids strstr)

/-! ### Values and objects -/

/-- A value in which there is no object.  Arrays have no blanks in them. -/
inductive FlatValue
  | null
  | bool (b : Bool)
  | number (l : Literal)
  | string (p : List UInt8) (ps : List Piece) (spelled : Spelled p ps)
  | array (items : List FlatValue)

namespace FlatValue

mutual

/-- The text of a value. -/
def text : FlatValue → List UInt8
  | null => [110, 117, 108, 108]
  | bool true => [116, 114, 117, 101]
  | bool false => [102, 97, 108, 115, 101]
  | number l => l.text
  | string p _ _ => 34 :: (p ++ [34])
  | array items => 91 :: (itemsText items ++ [93])

/-- The text of the elements of an array. -/
def itemsText : List FlatValue → List UInt8
  | [] => []
  | [v] => v.text
  | v :: vs => v.text ++ 44 :: itemsText vs

end

end FlatValue

/-- A member of an object.  Its key has no escapes, and the colon stands directly behind it. -/
structure Member where
  before : List UInt8
  key : List UInt8
  gap : List UInt8
  value : FlatValue
  after : List UInt8
  before_ok : ∀ b ∈ before, isBlank b = true
  key_ok : Plain key
  gap_ok : ∀ b ∈ gap, isBlank b = true
  after_ok : ∀ b ∈ after, isBlank b = true

/-- A key in quotes, with its colon. -/
def quoted (key : List UInt8) : List UInt8 := 34 :: (key ++ [34, 58])

/-- What stands behind the colon of a member. -/
def Member.tail (m : Member) : List UInt8 := m.gap ++ (m.value.text ++ m.after)

def Member.text (m : Member) : List UInt8 := m.before ++ (quoted m.key ++ m.tail)

/-- The members of an object with commas between them. -/
def membersText : List Member → List UInt8
  | [] => []
  | [m] => m.text
  | m :: ms => m.text ++ 44 :: membersText ms

/-- An object whose members have distinct keys. -/
structure FlatObject where
  before : List UInt8
  inside : List UInt8
  members : List Member
  after : List UInt8
  before_ok : ∀ b ∈ before, isBlank b = true
  inside_ok : ∀ b ∈ inside, isBlank b = true
  after_ok : ∀ b ∈ after, isBlank b = true
  distinct : (members.map Member.key).Nodup

def FlatObject.text (o : FlatObject) : List UInt8 :=
  o.before ++ 123 :: (o.inside ++ (membersText o.members ++ 125 :: o.after))

/-- The value of the member with a key. -/
def FlatObject.lookup (o : FlatObject) (key : List UInt8) : Option FlatValue :=
  (o.members.find? fun m => m.key == key).map Member.value

/-! ### Keys -/

/-- What may stand behind a value: a blank, a comma, or a closing bracket or brace. -/
def delimits (b : UInt8) : Bool := isBlank b || b == 44 || b == 93 || b == 125

/-- A text that does not go on with a value. -/
def Ends (r : List UInt8) : Prop := ∀ b ∈ r.head?, delimits b = true

/-- A key without escapes whose first byte cannot stand behind a string. -/
structure Word (key : List UInt8) : Prop where
  plain : Plain key
  nonempty : key ≠ []
  first : ∀ b ∈ key.head?, delimits b = false ∧ b ≠ 58

theorem ends_cons {b : UInt8} (h : delimits b = true) (r : List UInt8) : Ends (b :: r) := by
  rintro x ⟨⟩
  exact h

theorem ends_blanks {w r : List UInt8} (hw : ∀ b ∈ w, isBlank b = true) (hr : Ends r) :
    Ends (w ++ r) := by
  cases w with
  | nil => exact hr
  | cons b w =>
      refine ends_cons ?_ _
      rw [delimits, hw b List.mem_cons_self]
      rfl

theorem quote_not_mem_blanks {w : List UInt8} (hw : ∀ b ∈ w, isBlank b = true) : 34 ∉ w :=
  fun h => absurd (hw 34 h) (by decide)

theorem Plain.quote_not_mem {p : List UInt8} (h : Plain p) : 34 ∉ p :=
  fun hmem => (h 34 hmem).2.1 rfl

/-- **A string that goes on like a key in quotes** is that key, and a colon stands behind it. -/
theorem Spelled.eq_of_quoted {p key rest : List UInt8} {ps : List Piece} (h : Spelled p ps)
    (hkey : Plain key) (hpre : key ++ [34, 58] <+: p ++ 34 :: rest) :
    p = key ∧ rest.head? = some 58 := by
  induction key generalizing p ps with
  | nil =>
      cases h with
      | nil =>
          obtain ⟨t, ht⟩ := hpre
          obtain rfl : 58 :: t = rest := by simpa using ht
          exact ⟨rfl, rfl⟩
      | plain _ h34 _ _ => exact absurd (List.cons_prefix_cons.1 hpre).1.symm h34
      | letter _ _ => exact absurd (List.cons_prefix_cons.1 hpre).1 (by decide)
      | unit _ _ _ => exact absurd (List.cons_prefix_cons.1 hpre).1 (by decide)
  | cons x key ih =>
      obtain ⟨hx, hkey⟩ := List.forall_mem_cons.1 hkey
      cases h with
      | nil => exact absurd (List.cons_prefix_cons.1 hpre).1 hx.2.1
      | plain _ _ _ hp =>
          obtain ⟨rfl, hpre'⟩ := List.cons_prefix_cons.1 hpre
          obtain ⟨rfl, hrest⟩ := ih hp hkey hpre'
          exact ⟨rfl, hrest⟩
      | letter _ _ => exact absurd (List.cons_prefix_cons.1 hpre).1 hx.2.2
      | unit _ _ _ => exact absurd (List.cons_prefix_cons.1 hpre).1 hx.2.2

/-! ### Where a key cannot stand -/

section Avoid

variable {key r : List UInt8}

/-- A key in quotes begins with a quote. -/
theorem not_prefix_of_ne {x : UInt8} (hx : x ≠ 34) (s : List UInt8) : ¬ quoted key <+: x :: s :=
  fun hpre => hx (List.cons_prefix_cons.1 hpre).1.symm

/-- A key in quotes does not begin at the opening quote of a string. -/
theorem not_prefix_open {p : List UInt8} {ps : List Piece} (hkey : Plain key) (h : Spelled p ps)
    (hr : Ends r) : ¬ quoted key <+: 34 :: (p ++ 34 :: r) := by
  intro hpre
  obtain ⟨-, hhead⟩ := h.eq_of_quoted hkey (List.cons_prefix_cons.1 hpre).2
  exact absurd (hr 58 hhead) (by decide)

/-- A key in quotes does not begin at the closing quote of a string. -/
theorem not_prefix_close (hkey : Word key) (hr : ∀ b ∈ r.head?, delimits b = true ∨ b = 58) :
    ¬ quoted key <+: 34 :: r := by
  intro hpre
  have hrest := (List.cons_prefix_cons.1 hpre).2
  obtain ⟨-, hne, hfirst⟩ := hkey
  cases key with
  | nil => exact hne rfl
  | cons x key =>
      cases r with
      | nil => cases List.prefix_nil.1 hrest
      | cons y r =>
          obtain rfl := (List.cons_prefix_cons.1 hrest).1
          obtain ⟨hno, h58⟩ := hfirst x rfl
          rcases hr x rfl with h | h
          · rw [hno] at h
            cases h
          · exact h58 h

/-- **A key in quotes does not begin inside a string.** -/
theorem Spelled.avoids {p : List UInt8} {ps : List Piece} (h : Spelled p ps) (hkey : Word key)
    (hr : Ends r) : Avoids (quoted key) p (34 :: r) := by
  induction h with
  | nil => trivial
  | plain _ h34 _ _ ih =>
      exact ⟨not_prefix_of_ne h34 _, ih⟩
  | @letter e b p ps he hp ih =>
      refine ⟨not_prefix_of_ne (by decide) _, fun hpre => ?_, ih⟩
      -- the quote of an escape
      obtain ⟨rfl, -⟩ := List.cons_prefix_cons.1 hpre
      exact not_prefix_open hkey.plain hp hr hpre
  | @unit d p u ps hlen hd hp ih =>
      have hquote : 34 ∉ [92, 117] ++ d := by
        intro hmem
        rcases List.mem_append.1 hmem with h | h
        · exact absurd h (by decide)
        · rw [hexUnit] at hd
          split at hd
          · next hall =>
              have hx := List.all_eq_true.1 hall 34 h
              exact absurd hx (by decide)
          · cases hd
      have hescape := CString.avoids_of_not_mem (t := key ++ [34, 58]) hquote (p ++ 34 :: r)
      exact CString.avoids_append hescape ih

mutual

/-- **A key in quotes does not begin in a value.** -/
theorem FlatValue.avoids_text (hkey : Word key) :
    ∀ (v : FlatValue) {r : List UInt8}, Ends r → Avoids (quoted key) v.text r
  | .null, r, _ => CString.avoids_of_not_mem (by rw [FlatValue.text]; decide) r
  | .bool true, r, _ => CString.avoids_of_not_mem (by rw [FlatValue.text]; decide) r
  | .bool false, r, _ => CString.avoids_of_not_mem (by rw [FlatValue.text]; decide) r
  | .number l, r, _ =>
      CString.avoids_of_not_mem (by rw [FlatValue.text]; exact l.quote_not_mem_text) r
  | .string p ps h, r, hr => by
      have hclose : Avoids (quoted key) [34] r :=
        ⟨not_prefix_close hkey fun b hb => .inl (hr b hb), trivial⟩
      have hopen := not_prefix_open hkey.plain h hr
      rw [FlatValue.text]
      refine ⟨?_, CString.avoids_append (h.avoids hkey hr) hclose⟩
      rwa [List.append_assoc]
  | .array items, r, hr => by
      have hclose : Avoids (quoted key) [93] r :=
        CString.avoids_of_not_mem (by decide) r
      rw [FlatValue.text]
      refine ⟨not_prefix_of_ne (by decide) _, ?_⟩
      exact CString.avoids_append (FlatValue.avoids_itemsText hkey items (ends_cons rfl r)) hclose

/-- It does not begin between the elements of an array either. -/
theorem FlatValue.avoids_itemsText (hkey : Word key) :
    ∀ (items : List FlatValue) {r : List UInt8}, Ends r →
      Avoids (quoted key) (FlatValue.itemsText items) r
  | [], _, _ => by
      rw [FlatValue.itemsText]
      trivial
  | [v], _, hr => by
      rw [FlatValue.itemsText]
      exact FlatValue.avoids_text hkey v hr
  | v :: w :: items, r, hr => by
      rw [FlatValue.itemsText]
      · have hrest := FlatValue.avoids_itemsText hkey (w :: items) hr
        exact CString.avoids_append (FlatValue.avoids_text hkey v (ends_cons rfl _))
          ⟨not_prefix_of_ne (by decide) _, hrest⟩
      · exact fun h => by cases h

end

/-- **A key in quotes does not begin in a member with another key.** -/
theorem Member.avoids_text (hkey : Word key) (m : Member) (hne : m.key ≠ key) (hr : Ends r) :
    Avoids (quoted key) m.text r := by
  have hblanks : ∀ {w : List UInt8} (s : List UInt8), (∀ b ∈ w, isBlank b = true) →
      Avoids (quoted key) w s := fun s hw => CString.avoids_of_not_mem (quote_not_mem_blanks hw) s
  have htail : Avoids (quoted key) m.tail r :=
    CString.avoids_append (hblanks _ m.gap_ok)
      (CString.avoids_append (m.value.avoids_text hkey (ends_blanks m.after_ok hr))
        (hblanks _ m.after_ok))
  -- the opening quote of the other key
  have hopen : ¬ quoted key <+: quoted m.key ++ (m.tail ++ r) := by
    intro hpre
    rw [quoted, quoted, List.cons_append, List.append_assoc] at hpre
    have hrest := (List.cons_prefix_cons.1 hpre).2
    exact hne ((spelled_bytes m.key_ok).eq_of_quoted hkey.plain hrest).1
  have hclose : Avoids (quoted key) [34, 58] (m.tail ++ r) :=
    ⟨not_prefix_close hkey fun b hb => .inr (by simpa using hb.symm),
      not_prefix_of_ne (by decide) _, trivial⟩
  have hinside : Avoids (quoted key) (m.key ++ [34, 58]) (m.tail ++ r) :=
    CString.avoids_append (CString.avoids_of_not_mem m.key_ok.quote_not_mem _) hclose
  have hquoted : Avoids (quoted key) (quoted m.key) (m.tail ++ r) := ⟨hopen, hinside⟩
  exact CString.avoids_append (hblanks _ m.before_ok) (CString.avoids_append hquoted htail)

end Avoid

/-! ### The search -/

/-- What the search for a key in quotes leaves: the text behind the colon. -/
def find (text key : List UInt8) : Option (List UInt8) :=
  (strstr text (quoted key)).map fun n => text.drop (n + (quoted key).length)

theorem find_append {key a r : List UInt8} (h : Avoids (quoted key) a r) :
    find (a ++ r) key = find r key := by
  rw [find, CString.strstr_append h, Option.map_map, find]
  congr 1
  funext n
  rw [Function.comp_apply, Nat.add_assoc, ← List.drop_drop, List.drop_left]

theorem find_self (key r : List UInt8) : find (quoted key ++ r) key = some r := by
  rw [find, CString.strstr_self, Option.map_some, Nat.zero_add, List.drop_left]

/-- The search in a member with that key. -/
theorem Member.find_text (m : Member) (r : List UInt8) :
    find (m.text ++ r) m.key = some (m.tail ++ r) := by
  have hbefore : Avoids (quoted m.key) m.before (quoted m.key ++ (m.tail ++ r)) :=
    CString.avoids_of_not_mem (quote_not_mem_blanks m.before_ok) _
  rw [Member.text, List.append_assoc, List.append_assoc, find_append hbefore, find_self]

/-- The first member, and what stands behind it. -/
theorem membersText_cons (m : Member) (ms : List Member) (r : List UInt8) :
    ∃ b s, (b = 44 ∨ b = 125) ∧
      membersText (m :: ms) ++ 125 :: r = m.text ++ b :: s ∧
      (ms = [] ∧ b :: s = 125 :: r ∨ ms ≠ [] ∧ b :: s = 44 :: (membersText ms ++ 125 :: r)) := by
  cases ms with
  | nil => exact ⟨125, r, .inr rfl, rfl, .inl ⟨rfl, rfl⟩⟩
  | cons m' ms =>
      refine ⟨44, membersText (m' :: ms) ++ 125 :: r, .inl rfl, ?_, .inr ⟨nofun, rfl⟩⟩
      rw [membersText, List.append_assoc, List.cons_append]
      exact nofun

/-- **The search among members** finds the one with the key, or there is none. -/
theorem find_members {key r : List UInt8} (hkey : Word key) (hr : 34 ∉ r) (ms : List Member) :
    (∃ m, ms.find? (fun m => m.key == key) = some m ∧ ∃ b s, (b = 44 ∨ b = 125) ∧
        find (membersText ms ++ 125 :: r) key = some (m.tail ++ b :: s)) ∨
      ms.find? (fun m => m.key == key) = none ∧ find (membersText ms ++ 125 :: r) key = none := by
  have hskip : ∀ (x : UInt8), x ≠ 34 → ∀ s, find (x :: s) key = find s key := by
    intro x hx s
    exact find_append (a := [x]) ⟨not_prefix_of_ne hx s, trivial⟩
  have hrest : find r key = none := by
    have hnone := find_append (r := []) (CString.avoids_of_not_mem (t := key ++ [34, 58]) hr [])
    rw [List.append_nil] at hnone
    exact hnone
  induction ms with
  | nil =>
      refine .inr ⟨rfl, ?_⟩
      rw [membersText, List.nil_append, hskip 125 (by decide), hrest]
  | cons m ms ih =>
      obtain ⟨b, s, hb, htext, hcases⟩ := membersText_cons m ms r
      have hends : Ends (b :: s) := by
        rcases hb with rfl | rfl
        all_goals exact ends_cons rfl s
      by_cases hm : m.key = key
      · refine .inl ⟨m, List.find?_cons_of_pos (beq_iff_eq.2 hm), b, s, hb, ?_⟩
        rw [htext, ← hm, m.find_text]
      -- the search goes on behind this member
      · rw [htext, find_append (m.avoids_text hkey hm hends),
          List.find?_cons_of_neg (by simpa using hm)]
        rcases hcases with ⟨rfl, hbs⟩ | ⟨-, hbs⟩
        · refine .inr ⟨rfl, ?_⟩
          rw [hbs, hskip 125 (by decide), hrest]
        · rw [hbs, hskip 44 (by decide)]
          exact ih

namespace FlatObject

/-- **The search in an object** finds the value of the member with the key, between blanks; or
there is none. -/
theorem find_cases (o : FlatObject) {key : List UInt8} (hkey : Word key) :
    (∃ v gap r, o.lookup key = some v ∧ (∀ b ∈ gap, isBlank b = true) ∧ Ends r ∧
        find o.text key = some (gap ++ (v.text ++ r))) ∨
      o.lookup key = none ∧ find o.text key = none := by
  have hopen : 34 ∉ o.before ++ 123 :: o.inside := by
    intro h
    rcases List.mem_append.1 h with h | h
    · exact quote_not_mem_blanks o.before_ok h
    · rcases List.mem_cons.1 h with h | h
      · exact absurd h (by decide)
      · exact quote_not_mem_blanks o.inside_ok h
  have htext : o.text =
      (o.before ++ 123 :: o.inside) ++ (membersText o.members ++ 125 :: o.after) := by
    rw [text, List.append_assoc, List.cons_append]
  rw [htext, find_append (CString.avoids_of_not_mem hopen _), lookup]
  rcases find_members hkey (quote_not_mem_blanks o.after_ok) o.members with
    ⟨m, hm, b, s, hb, hfound⟩ | ⟨hnone, hfound⟩
  · have hends : Ends (m.after ++ b :: s) := by
      refine ends_blanks m.after_ok ?_
      rcases hb with rfl | rfl
      all_goals exact ends_cons rfl s
    refine .inl ⟨m.value, m.gap, m.after ++ b :: s, by rw [hm]; rfl, m.gap_ok, hends, ?_⟩
    rw [hfound, Member.tail, List.append_assoc, List.append_assoc]
  · exact .inr ⟨by rw [hnone]; rfl, hfound⟩

/-- **The order of the members does not matter.** -/
theorem lookup_perm {o o' : FlatObject} (h : o.members.Perm o'.members) (key : List UInt8) :
    o.lookup key = o'.lookup key := by
  rw [lookup, lookup]
  congr 1
  cases hm : o.members.find? (fun m => m.key == key) with
  | none =>
      refine (List.find?_eq_none.2 fun m hmem => ?_).symm
      exact List.find?_eq_none.1 hm m (h.mem_iff.2 hmem)
  | some m =>
      have hmem := h.mem_iff.1 (List.mem_of_find?_eq_some hm)
      have hkey := List.find?_some hm
      cases hm' : o'.members.find? (fun m => m.key == key) with
      | none => exact absurd hkey (List.find?_eq_none.1 hm' m hmem)
      | some m' =>
          have hmem' := List.mem_of_find?_eq_some hm'
          have hkey' := List.find?_some hm'
          have heq : m.key = m'.key := (beq_iff_eq.1 hkey).trans (beq_iff_eq.1 hkey').symm
          rw [List.inj_on_of_nodup_map o'.distinct hmem hmem' heq]

end FlatObject

end Json
