/-
The answers as JSON.

`do_request` puts its answers together from pieces of text: the name of the model and the text of
an error go between two quotes as they are, and the numbers are printed with `%f`.

* `Gateway.GoodAnswer` — a JSON object that names the model and has the output;
* `Gateway.AnswerFits` — what has to hold of the model's name, of the output, and of the text of an
  error;
* `Gateway.answer_is_json` — when the answer is good.
-/

import InferenceGateway.HttpCodes
import InferenceGateway.HttpParse
import InferenceGateway.JsonNumber

set_option relaxedAutoImplicit false
set_option autoImplicit false

namespace Gateway

open Json (Plain following_comma utf8 parse parseValue parseElements parseMembers parseChars
  parseKey following between skipBlanks isBlank decode Piece Spelled EndsNumber)
open CString (Single printF)

/-! ### Good answers -/

/-- The members that speak of the model and of the output say what the task says. -/
structure MembersFit (name : Bytes) (count : ℕ) (members : List (Bytes × Json)) : Prop where
  model : ∀ v, (ascii "model", v) ∈ members → v = .string name
  output : ∀ v, (ascii "output", v) ∈ members →
    ∃ xs, v = .array xs ∧ xs.length = count ∧ ∀ x ∈ xs, ∃ text, x = .number text

/-- A JSON object that names the model, if it does, as the task does, and has one number for each
output, if it has an output. -/
def GoodAnswer (name : Bytes) (count : ℕ) (text : Bytes) : Prop :=
  ∃ members, parse text = some (.object members) ∧ MembersFit name count members

/-- What stands before the name of the model. -/
def okPrefix : Bytes := ascii "\x7b\"status\":\"ok\",\"model\":"

/-- What stands before the text of an error. -/
def errorPrefix : Bytes := ascii "\x7b\"status\":\"error\",\"msg\":"

/-- The inside of the output array. -/
def elements (out : List Single) : Bytes := (ascii ",").intercalate (out.map printF)

/-- What follows the name of the model and its quote. -/
def outputText (out : List Single) : Bytes :=
  ascii ",\"output\":[" ++ (elements out ++ ascii "]\x7d")

/-- A name that JSON spells as it is. -/
structure PlainName (name : Bytes) : Prop where
  utf8 : utf8 name = true
  plain : ∀ b ∈ name, 32 ≤ b ∧ b ≠ 34 ∧ b ≠ 92

/-- A text that may stand between two quotes: the inside of a string; or what closes the string and
goes on with members that, with the quote and the brace behind it, make an object that fits. -/
structure FitsString (name msg : Bytes) : Prop where
  utf8 : utf8 msg = true
  text : (∃ ps, Spelled msg ps) ∨
    ∃ p ps blanks more members, msg = p ++ 34 :: (blanks ++ 44 :: more) ∧ Spelled p ps ∧
      (∀ b ∈ blanks, isBlank b = true) ∧
      parse (123 :: (more ++ [34, 125])) = some (.object members) ∧ members ≠ [] ∧
      MembersFit name 0 members

/-! ### Elements -/

section Elements

variable {s : Bytes}

theorem elements_singleton (x : Single) (s : Bytes) : elements [x] ++ s = printF x ++ s := by
  simp [elements, List.intercalate]

theorem elements_cons (x y : Single) (out : List Single) (s : Bytes) :
    elements (x :: y :: out) ++ s = printF x ++ 44 :: (elements (y :: out) ++ s) := by
  simp [elements, List.intercalate, ascii]

/-- What may follow a number in an array. -/
theorem endsNumber_comma : EndsNumber 44 := ⟨rfl, by decide, by decide⟩

theorem endsNumber_bracket : EndsNumber 93 := ⟨rfl, by decide, by decide⟩

/-- One element, which is printed. -/
theorem parseElements_succ (k : ℕ) {x : Single} (hx : x.isFinite = true) {b : UInt8}
    (hb : EndsNumber b) (s : Bytes) :
    parseElements (k + 2) (printF x ++ b :: s) =
      following (parseElements (k + 1)) 93 (.number (printF x)) (b :: s) := by
  rw [parseElements, Json.parseValue_printF k hx hb]
  rfl

/-- **Finite numbers are the elements of an array.** -/
theorem parseElements_elements {out : List Single} (hne : out ≠ [])
    (hfin : ∀ x ∈ out, x.isFinite = true) (s : Bytes) :
    parseElements (out.length + 1) (elements out ++ 93 :: s) =
      some (out.map fun x => .number (printF x), s) := by
  induction out with
  | nil => exact absurd rfl hne
  | cons x out ih =>
      have hx := hfin x (List.mem_cons_self ..)
      cases out with
      | nil =>
          rw [elements_singleton]
          exact parseElements_succ 0 hx endsNumber_bracket s
      | cons y out =>
          have hrest := ih nofun fun z hz => hfin z (List.mem_cons_of_mem _ hz)
          rw [elements_cons]
          refine (parseElements_succ (out.length + 1) hx endsNumber_comma _).trans ?_
          rw [following_comma]
          change (parseElements ((y :: out).length + 1) _).map _ = _
          rw [hrest]
          rfl

/-- Elements that are printed are values only if they are finite. -/
theorem finite_of_parseElements {out : List Single} {k : ℕ} {y : List Json × Bytes}
    (h : parseElements k (elements out ++ 93 :: s) = some y) :
    ∀ x ∈ out, x.isFinite = true := by
  induction out generalizing k y with
  | nil =>
      intro x hx
      cases hx
  | cons x out ih =>
      cases k with
      | zero => cases h
      | succ k =>
          have hx : x.isFinite = true := by
            by_contra hx
            have hnone := Json.parseValue_printF_eq_none k (Bool.eq_false_of_not_eq_true hx)
            cases out with
            | nil =>
                rw [elements_singleton, parseElements, hnone] at h
                cases h
            | cons z out =>
                rw [elements_cons, parseElements, hnone] at h
                cases h
          intro z hz
          rcases List.mem_cons.1 hz with rfl | hz
          · exact hx
          · cases out with
            | nil => cases hz
            | cons w out =>
                cases k with
                | zero => cases h
                | succ k =>
                    rw [elements_cons, parseElements_succ k hx endsNumber_comma, following_comma]
                      at h
                    obtain ⟨y', hy', -⟩ := Option.map_eq_some_iff.1 h
                    exact ih hy' z hz

theorem not_blank_of_isdigit {d : UInt8} (h : CString.isdigit d = true) :
    isBlank d = false ∧ d ≠ 93 := by
  have hne : ∀ c : UInt8, CString.isdigit c = false → d ≠ c := by
    rintro c hc rfl
    rw [h] at hc
    cases hc
  simp only [isBlank, Bool.or_eq_false_iff, beq_eq_false_iff_ne]
  exact ⟨⟨⟨⟨hne 32 rfl, hne 9 rfl⟩, hne 10 rfl⟩, hne 13 rfl⟩, hne 93 rfl⟩

theorem head_printF (x : Single) (s : Bytes) :
    ∃ d t, printF x ++ s = d :: t ∧ isBlank d = false ∧ d ≠ 93 := by
  cases x with
  | infinity negative | nan negative =>
      cases negative <;> exact ⟨_, _, rfl, rfl, by decide⟩
  | finite negative m e bound =>
      rw [CString.printF_finite]
      cases negative with
      | true => exact ⟨45, _, rfl, rfl, by decide⟩
      | false =>
          obtain ⟨d, t, hhead, hd⟩ := Json.head_printFixed (CString.millionths m e) s
          exact ⟨d, t, hhead, not_blank_of_isdigit hd⟩

theorem between_elements (k : ℕ) {out : List Single} (hne : out ≠ []) (s : Bytes) :
    between (parseElements k) 93 (.array []) .array (elements out ++ s) =
      (parseElements k (elements out ++ s)).map fun x => (.array x.1, x.2) := by
  have hhead : ∃ d t, elements out ++ s = d :: t ∧ isBlank d = false ∧ d ≠ 93 := by
    match out, hne with
    | [x], _ =>
        rw [elements_singleton]
        exact head_printF x s
    | x :: y :: out, _ =>
        rw [elements_cons]
        exact head_printF x _
  obtain ⟨d, t, ht, hblank, hd⟩ := hhead
  rw [ht]
  have hskip : skipBlanks (d :: t) = d :: t :=
    List.dropWhile_cons_of_neg (by rw [hblank]; decide)
  unfold between
  rw [hskip, if_neg]
  intro h
  exact hd (Option.some.inj h)

/-- The array that is printed. -/
theorem between_printed {out : List Single} (hfin : ∀ x ∈ out, x.isFinite = true) (s : Bytes) :
    between (parseElements (out.length + 1)) 93 (.array []) .array (elements out ++ 93 :: s) =
      some (.array (out.map fun x => .number (printF x)), s) := by
  by_cases hne : out = []
  · subst hne
    rfl
  · rw [between_elements _ hne, parseElements_elements hne hfin]
    rfl

theorem finite_of_between {out : List Single} {k : ℕ} {y : Json × Bytes}
    (h : between (parseElements k) 93 (.array []) .array (elements out ++ 93 :: s) = some y) :
    ∀ x ∈ out, x.isFinite = true := by
  by_cases hne : out = []
  · subst hne
    intro x hx
    cases hx
  · rw [between_elements _ hne] at h
    obtain ⟨y', hy', -⟩ := Option.map_eq_some_iff.1 h
    exact finite_of_parseElements hy'

end Elements

/-! ### The success -/

section Success

variable {name : Bytes} {out : List Single}

theorem plain_status : Plain (ascii "status") := by decide

theorem plain_ok : Plain (ascii "ok") := by decide

theorem plain_model : Plain (ascii "model") := by decide

theorem plain_output : Plain (ascii "output") := by decide

theorem okPrefix_append (s : Bytes) :
    okPrefix ++ s =
      123 :: 34 :: (ascii "status" ++ 34 :: 58 :: 34 :: (ascii "ok" ++ 34 :: 44 ::
        34 :: (ascii "model" ++ 34 :: 58 :: s))) := rfl

theorem outputText_eq (out : List Single) :
    outputText out =
      44 :: 34 :: (ascii "output" ++ 34 :: 58 :: 91 :: (elements out ++ 93 :: [125])) := rfl

/-- The answer, up to the name of the model. -/
theorem parseValue_okPrefix (k : ℕ) (s : Bytes) :
    parseValue (k + 4) (okPrefix ++ 34 :: s) =
      ((parseChars s).bind fun x =>
        following (parseMembers (k + 1)) 125 (ascii "model", .string (decode x.1)) x.2).map
          fun y => (.object ((ascii "status", .string (ascii "ok")) :: y.1), y.2) := by
  rw [okPrefix_append, Json.parseValue_object, Json.parseMembers_string plain_status plain_ok,
    Json.parseMembers_plain plain_model, Json.parseValue_string]
  cases parseChars s with
  | none => rfl
  | some x =>
      simp only [Option.map_some, Option.bind_some, Option.map_map]
      rfl

/-- What follows the name of the model. -/
theorem following_outputText (k : ℕ) (m : Bytes × Json) :
    following (parseMembers (k + 2)) 125 m (outputText out) =
      ((between (parseElements k) 93 (.array []) .array (elements out ++ 93 :: [125])).bind
        fun x => following (parseMembers (k + 1)) 125 (ascii "output", x.1) x.2).map
          fun y => (m :: y.1, y.2) := by
  rw [outputText_eq, following_comma, Json.parseMembers_plain plain_output, Json.parseValue_array]

/-- What a fitting success says. -/
def okMembers (name : Bytes) (out : List Single) : List (Bytes × Json) :=
  [(ascii "status", .string (ascii "ok")), (ascii "model", .string name),
    (ascii "output", .array (out.map fun x => .number (printF x)))]

theorem mem_elements {out : List Single} {b : UInt8} (h : b ∈ elements out) :
    CString.isgraph b = true := by
  induction out with
  | nil => cases h
  | cons x out ih =>
      cases out with
      | nil =>
          rw [← List.append_nil (elements [x]), elements_singleton, List.append_nil] at h
          exact CString.isgraph_printF x b h
      | cons y out =>
          rw [← List.append_nil (elements (x :: y :: out)), elements_cons, List.append_nil] at h
          rcases List.mem_append.1 h with h | h
          · exact CString.isgraph_printF x b h
          · rcases List.mem_cons.1 h with rfl | h
            · decide
            · exact ih h

theorem mem_outputText {b : UInt8} (h : b ∈ outputText out) : CString.isgraph b = true := by
  have hrest : ∀ b ∈ ascii ",\"output\":[" ++ ascii "]\x7d", CString.isgraph b = true :=
    List.all_eq_true.1 (by decide)
  rcases List.mem_append.1 h with h | h
  · exact hrest b (List.mem_append_left _ h)
  · rcases List.mem_append.1 h with h | h
    · exact mem_elements h
    · exact hrest b (List.mem_append_right _ h)

theorem utf8_outputText (out : List Single) : utf8 (outputText out) = true := by
  refine Json.utf8_ascii fun b hb => ?_
  obtain ⟨-, hle⟩ := Bool.and_eq_true_iff.1 (mem_outputText hb)
  exact UInt8.lt_of_le_of_lt (of_decide_eq_true hle) (by decide)

theorem utf8_success (name : Bytes) (out : List Single) :
    utf8 (okPrefix ++ 34 :: (name ++ 34 :: outputText out)) = utf8 name := by
  have hstart : utf8 okPrefix = true := by decide
  rw [Json.utf8_append (by decide), Json.utf8_append (by decide), hstart, utf8_outputText,
    Bool.true_and, Bool.and_true]

/-- **A success that fits** is an object with the three members. -/
theorem parse_success (hname : PlainName name) (hfin : ∀ x ∈ out, x.isFinite = true) :
    parse (okPrefix ++ 34 :: (name ++ 34 :: outputText out)) =
      some (.object (okMembers name out)) := by
  have hutf := (utf8_success name out).trans hname.utf8
  refine Json.parse_of_parseValue (n := out.length + 6) (r := []) hutf ?_ rfl
  rw [parseValue_okPrefix, Json.parseChars_plain hname.plain, Option.bind_some,
    following_outputText, between_printed hfin, Option.bind_some, Json.decode_bytes]
  rfl

theorem mem_of_following {α : Type} {f : Bytes → Option (List α × Bytes)} {close : UInt8} {x : α}
    {s : Bytes} {y : List α × Bytes} (h : following f close x s = some y) : x ∈ y.1 := by
  unfold following at h
  split at h
  · cases h
  · split at h
    · obtain ⟨z, -, rfl⟩ := Option.map_eq_some_iff.1 h
      exact List.mem_cons_self ..
    · split at h
      · cases h
        exact List.mem_cons_self ..
      · cases h

/-- A member of another name says nothing. -/
theorem mem_of_key_ne {key key' : Bytes} {v v' : Json} {members : List (Bytes × Json)}
    (hne : key ≠ key') (h : (key, v) ∈ (key', v') :: members) : (key, v) ∈ members :=
  (List.mem_cons.1 h).resolve_left fun heq => hne (Prod.mk.inj heq).1

theorem model_ne_status : ascii "model" ≠ ascii "status" := by decide

theorem output_ne_status : ascii "output" ≠ ascii "status" := by decide

theorem output_ne_model : ascii "output" ≠ ascii "model" := by decide

theorem okMembers_fit (name : Bytes) (out : List Single) :
    MembersFit name out.length (okMembers name out) := by
  constructor
  · intro v hv
    rcases List.mem_cons.1 (mem_of_key_ne model_ne_status hv) with heq | hv
    · exact (Prod.mk.inj heq).2
    · cases mem_of_key_ne output_ne_model.symm hv
  · intro v hv
    have hv := mem_of_key_ne output_ne_model (mem_of_key_ne output_ne_status hv)
    obtain rfl := (Prod.mk.inj (List.mem_singleton.1 hv)).2
    refine ⟨_, rfl, List.length_map _, ?_⟩
    intro x hx
    obtain ⟨y, -, rfl⟩ := List.mem_map.1 hx
    exact ⟨_, rfl⟩

/-- **A success is good exactly if** the name is plain and the output is finite. -/
theorem success_good (hq : 34 ∉ name) :
    GoodAnswer name out.length (okPrefix ++ 34 :: (name ++ 34 :: outputText out)) ↔
      PlainName name ∧ ∀ x ∈ out, x.isFinite = true := by
  constructor
  · rintro ⟨members, hparse, hfit⟩
    obtain ⟨hutf, r, hval, -⟩ := Json.parse_eq_some hparse
    rw [utf8_success] at hutf
    obtain ⟨k, hk⟩ : ∃ k, 2 * (okPrefix ++ 34 :: (name ++ 34 :: outputText out)).length + 1 =
        k + 5 := by
      refine ⟨2 * (okPrefix ++ 34 :: (name ++ 34 :: outputText out)).length - 4, ?_⟩
      rw [List.length_append, List.length_cons, List.length_append, List.length_cons]
      omega
    rw [hk, parseValue_okPrefix] at hval
    obtain ⟨y, hy, hobj⟩ := Option.map_eq_some_iff.1 hval
    obtain ⟨⟨ps, t⟩, hchars, hfol⟩ := Option.bind_eq_some_iff.1 hy
    cases hobj
    -- the second member is the model, so its value is the name
    have hmodel := hfit.model _ (List.mem_cons_of_mem _ (mem_of_following hfol))
    obtain ⟨hplain, rfl⟩ := Json.parseChars_value hq hchars (Json.string.inj hmodel)
    refine ⟨⟨hutf, hplain⟩, ?_⟩
    dsimp only at hfol
    rw [following_outputText] at hfol
    obtain ⟨z, hz, -⟩ := Option.map_eq_some_iff.1 hfol
    obtain ⟨x, hx, -⟩ := Option.bind_eq_some_iff.1 hz
    exact finite_of_between hx
  · rintro ⟨hname, hfin⟩
    exact ⟨okMembers name out, parse_success hname hfin, okMembers_fit name out⟩

end Success

/-! ### The failure -/

section Failure

variable {name msg : Bytes}

theorem plain_error : Plain (ascii "error") := by decide

theorem plain_msg : Plain (ascii "msg") := by decide

theorem errorPrefix_append (s : Bytes) :
    errorPrefix ++ s =
      123 :: 34 :: (ascii "status" ++ 34 :: 58 :: 34 :: (ascii "error" ++ 34 :: 44 ::
        34 :: (ascii "msg" ++ 34 :: 58 :: s))) := rfl

/-- The answer, up to the text of the error. -/
theorem parseValue_errorPrefix (k : ℕ) (s : Bytes) :
    parseValue (k + 4) (errorPrefix ++ 34 :: s) =
      ((parseChars s).bind fun x =>
        following (parseMembers (k + 1)) 125 (ascii "msg", .string (decode x.1)) x.2).map
          fun y => (.object ((ascii "status", .string (ascii "error")) :: y.1), y.2) := by
  rw [errorPrefix_append, Json.parseValue_object, Json.parseMembers_string plain_status plain_error,
    Json.parseMembers_plain plain_msg, Json.parseValue_string]
  cases parseChars s with
  | none => rfl
  | some x =>
      simp only [Option.map_some, Option.bind_some, Option.map_map]
      rfl

theorem utf8_failure (msg : Bytes) :
    utf8 (errorPrefix ++ 34 :: (msg ++ [34, 125])) = utf8 msg := by
  have hstart : utf8 errorPrefix = true := by decide
  have hrest : utf8 [125] = true := by decide
  rw [Json.utf8_append (by decide), Json.utf8_append (by decide), hstart, hrest, Bool.true_and,
    Bool.and_true]

theorem fit_nil (name : Bytes) : MembersFit name 0 [] :=
  ⟨fun _ h => absurd h List.not_mem_nil, fun _ h => absurd h List.not_mem_nil⟩

theorem model_ne_msg : ascii "model" ≠ ascii "msg" := by decide

theorem output_ne_msg : ascii "output" ≠ ascii "msg" := by decide

/-- The members of an answer that says no more than its text. -/
theorem fit_cons {members : List (Bytes × Json)} (text : Bytes) :
    MembersFit name 0 ((ascii "status", .string (ascii "error")) ::
      (ascii "msg", .string text) :: members) ↔ MembersFit name 0 members := by
  constructor
  · intro h
    exact ⟨fun v hv => h.model v (List.mem_cons_of_mem _ (List.mem_cons_of_mem _ hv)),
      fun v hv => h.output v (List.mem_cons_of_mem _ (List.mem_cons_of_mem _ hv))⟩
  · intro h
    constructor
    · intro v hv
      exact h.model v (mem_of_key_ne model_ne_msg (mem_of_key_ne model_ne_status hv))
    · intro v hv
      exact h.output v (mem_of_key_ne output_ne_msg (mem_of_key_ne output_ne_status hv))

/-- Where a string that begins with `msg` ends: behind it, or in it. -/
theorem msg_cases {p r : Bytes} (h : msg ++ [34, 125] = p ++ 34 :: r) :
    (p = msg ∧ r = [125]) ∨ ∃ ext, msg = p ++ 34 :: ext ∧ r = ext ++ [34, 125] := by
  rcases List.append_eq_append_iff.1 h with ⟨a, rfl, ha⟩ | ⟨c, rfl, hc⟩
  · match a, ha with
    | [], ha =>
        cases ha
        exact .inl ⟨List.append_nil _, rfl⟩
    | [b], ha =>
        have hr : (125 : UInt8) = 34 := (List.cons.inj (List.cons.inj ha).2).1
        cases hr
    | b :: b' :: a, ha =>
        have hlen := congrArg List.length ha
        simp only [List.length_cons, List.length_nil, List.length_append] at hlen
        omega
  · match c, hc with
    | [], hc =>
        cases hc
        exact .inl ⟨(List.append_nil _).symm, rfl⟩
    | b :: ext, hc =>
        obtain ⟨rfl, hr⟩ := List.cons.inj hc
        exact .inr ⟨ext, rfl, hr⟩

theorem skipBlanks_append {blanks : Bytes} (h : ∀ b ∈ blanks, isBlank b = true) (s : Bytes) :
    skipBlanks (blanks ++ s) = skipBlanks s := by
  have hnil : blanks.dropWhile isBlank = [] := List.dropWhile_eq_nil_iff.2 h
  unfold skipBlanks
  rw [List.dropWhile_append, hnil]
  rfl

/-- The first byte behind the blanks, when it is not the last quote. -/
theorem skipBlanks_eq_cons {ext t : Bytes} {b : UInt8} (hb : b ≠ 34)
    (h : skipBlanks (ext ++ [34, 125]) = b :: t) :
    ∃ blanks more, ext = blanks ++ b :: more ∧ t = more ++ [34, 125] ∧
      ∀ x ∈ blanks, isBlank x = true := by
  have hsplit : ext.takeWhile isBlank ++ ext.dropWhile isBlank = ext :=
    List.takeWhile_append_dropWhile
  have hblank : ∀ x ∈ ext.takeWhile isBlank, isBlank x = true := fun x hx =>
    List.mem_takeWhile_imp hx
  rw [← hsplit, List.append_assoc, skipBlanks_append hblank] at h
  cases hrest : ext.dropWhile isBlank with
  | nil =>
      rw [hrest] at h
      have heq : (34 : UInt8) = b := (List.cons.inj h).1
      exact absurd heq.symm hb
  | cons c more =>
      have hc : isBlank c = false := by
        have hhead := List.head_dropWhile_not isBlank (l := ext) (by rw [hrest]; exact nofun)
        simpa [hrest] using hhead
      have hskip : skipBlanks (c :: (more ++ [34, 125])) = c :: (more ++ [34, 125]) :=
        List.dropWhile_cons_of_neg (by rw [hc]; decide)
      rw [hrest, List.cons_append, hskip] at h
      obtain ⟨rfl, rfl⟩ := List.cons.inj h
      exact ⟨_, more, by rw [← hrest, hsplit], rfl, hblank⟩

/-- An object is what its members are. -/
theorem parseValue_of_parseMembers {k : ℕ} {s : Bytes}
    {y : List (Bytes × Json) × Bytes} (h : parseMembers (k + 1) s = some y) :
    parseValue (k + 2) (123 :: s) = some (.object y.1, y.2) ∧ y.1 ≠ [] := by
  have hread := h
  rw [parseMembers] at h
  obtain ⟨x, hkey, hval⟩ := Option.bind_eq_some_iff.1 h
  obtain ⟨z, -, hfol⟩ := Option.bind_eq_some_iff.1 hval
  have hhead : (skipBlanks s).head? ≠ some 125 := by
    intro hhead
    unfold parseKey at hkey
    split at hkey
    · next hs =>
        rw [hs] at hhead
        cases hhead
    · cases hkey
  refine ⟨?_, List.ne_nil_of_mem (mem_of_following hfol)⟩
  change between (parseMembers (k + 1)) 125 (.object []) .object s = _
  unfold between
  rw [if_neg hhead, hread]
  rfl

/-- What is an object with members has them behind its brace. -/
theorem parseMembers_of_parseValue {k : ℕ} {s r : Bytes} {members : List (Bytes × Json)}
    (h : parseValue (k + 1) (123 :: s) = some (.object members, r)) (hne : members ≠ []) :
    parseMembers k s = some (members, r) := by
  change between (parseMembers k) 125 (.object []) .object s = _ at h
  unfold between at h
  split at h
  · cases h
    exact absurd rfl hne
  · obtain ⟨y, hy, hobj⟩ := Option.map_eq_some_iff.1 h
    cases hobj
    exact hy

/-- The text of a good failure fits. -/
theorem fits_of_good (h : GoodAnswer name 0 (errorPrefix ++ 34 :: (msg ++ [34, 125]))) :
    FitsString name msg := by
  obtain ⟨members, hparse, hfit⟩ := h
  obtain ⟨hutf, rest, hval, hblank⟩ := Json.parse_eq_some hparse
  rw [utf8_failure] at hutf
  obtain ⟨k, hk⟩ : ∃ k, 2 * (errorPrefix ++ 34 :: (msg ++ [34, 125])).length + 1 = k + 4 := by
    refine ⟨2 * (errorPrefix ++ 34 :: (msg ++ [34, 125])).length - 3, ?_⟩
    rw [List.length_append, List.length_cons, List.length_append, List.length_cons]
    omega
  rw [hk, parseValue_errorPrefix] at hval
  obtain ⟨y, hy, hobj⟩ := Option.map_eq_some_iff.1 hval
  obtain ⟨⟨ps, r⟩, hchars, hfol⟩ := Option.bind_eq_some_iff.1 hy
  cases hobj
  obtain ⟨p, hp, hspell⟩ := Json.parseChars_eq_some hchars
  refine ⟨hutf, ?_⟩
  rcases msg_cases hp with ⟨rfl, -⟩ | ⟨ext, rfl, rfl⟩
  · exact .inl ⟨ps, hspell⟩
  · -- the string ends inside the text, and its rest has to go on with members
    unfold following at hfol
    dsimp only at hfol
    split at hfol
    · cases hfol
    · next b t hskip =>
        split at hfol
        · next hb =>
            subst hb
            obtain ⟨z, hz, rfl⟩ := Option.map_eq_some_iff.1 hfol
            obtain ⟨blanks, more, rfl, rfl, hblanks⟩ := skipBlanks_eq_cons (by decide) hskip
            obtain ⟨hobj, hne⟩ := parseValue_of_parseMembers hz
            have hmore : utf8 (123 :: (more ++ [34, 125])) = true := by
              rw [Json.utf8_append (by decide), Json.utf8_append (by decide)] at hutf
              obtain ⟨-, hutf⟩ := Bool.and_eq_true_iff.1 hutf
              obtain ⟨-, hutf⟩ := Bool.and_eq_true_iff.1 hutf
              rw [← List.nil_append (123 :: _), Json.utf8_append (by decide),
                Json.utf8_append (by decide), hutf]
              rfl
            refine .inr ⟨p, ps, blanks, more, z.1, rfl, hspell, hblanks, ?_, hne, ?_⟩
            · exact Json.parse_of_parseValue hmore hobj hblank
            · exact (fit_cons _).1 hfit
        · split at hfol
          · -- a brace instead of the comma would leave the last quote behind it
            next hb =>
              subst hb
              cases hfol
              obtain ⟨blanks, more, -, rfl, -⟩ := skipBlanks_eq_cons (by decide) hskip
              have hquote := List.dropWhile_eq_nil_iff.1 hblank 34 (by simp)
              cases hquote
          · cases hfol

/-- A text that fits makes a good failure. -/
theorem good_of_fits (h : FitsString name msg) :
    GoodAnswer name 0 (errorPrefix ++ 34 :: (msg ++ [34, 125])) := by
  obtain ⟨hutf, htext⟩ := h
  have hutf' := (utf8_failure msg).trans hutf
  rcases htext with ⟨ps, hspell⟩ | ⟨p, ps, blanks, more, members, rfl, hspell, hblanks, hobj, hne,
    hfit⟩
  · refine ⟨_, Json.parse_of_parseValue (n := 4) (r := []) hutf' ?_ rfl,
      (fit_cons (decode ps)).2 (fit_nil name)⟩
    rw [parseValue_errorPrefix 0, Json.parseChars_append hspell, Option.bind_some]
    rfl
  · -- the members behind the text are those of the object that the text promises
    obtain ⟨-, r, hval, hr⟩ := Json.parse_eq_some hobj
    have hmems := parseMembers_of_parseValue hval hne
    obtain ⟨k, hk⟩ : ∃ k, 2 * (123 :: (more ++ [34, 125])).length = k + 1 :=
      ⟨2 * (more ++ [34, 125]).length + 1, by rw [List.length_cons]; omega⟩
    rw [hk] at hmems
    have hskip : skipBlanks (blanks ++ 44 :: (more ++ [34, 125])) =
        44 :: (more ++ [34, 125]) := skipBlanks_append hblanks _
    have htext : p ++ 34 :: (blanks ++ 44 :: more) ++ [34, 125] =
        p ++ 34 :: (blanks ++ 44 :: (more ++ [34, 125])) := by simp
    refine ⟨_, Json.parse_of_parseValue (n := k + 4) (r := r) hutf' ?_ hr,
      (fit_cons (decode ps)).2 hfit⟩
    rw [parseValue_errorPrefix, htext, Json.parseChars_append hspell, Option.bind_some]
    unfold following
    dsimp only
    rw [hskip]
    dsimp only
    rw [if_pos rfl, hmems]
    rfl

/-- **A failure is good exactly if** its text fits between the quotes. -/
theorem failure_good :
    GoodAnswer name 0 (errorPrefix ++ 34 :: (msg ++ [34, 125])) ↔ FitsString name msg :=
  ⟨fits_of_good, good_of_fits⟩

end Failure

/-! ### The answer of `do_request` -/

section Answer

variable {F : Type}

/-- What the task has for an output. -/
def outputOf : Option (Verdict F) → List F
  | some (.succeeded out) => out
  | _ => []

/-- The text of an error that `do_request` puts into its answer. -/
def errorText (errorMsg : Bytes) : Bytes :=
  if errorMsg.isEmpty then ascii "inference failed" else CString.cut errorMsg

/-- What has to hold of the name, of the output and of the text of an error. -/
def AnswerFits (name : Bytes) : Option (Verdict Single) → Prop
  | some (.succeeded out) => PlainName name ∧ ∀ x ∈ out, x.isFinite = true
  | some (.failed errorMsg) => FitsString name (errorText errorMsg)
  | _ => True

/-- What came of the task, if a scheduler was asked for one. -/
def HttpConn.ran (svc : Service F) (now : ℤ) (scheduler : Option (Verdict F)) (c : HttpConn) :
    Option (Verdict F) :=
  if !svc.initialized then none
  else if (c.requestTask svc now).inputData.isEmpty then none
  else scheduler

/-- A service with the numbers of the type `float`. -/
def Service.onFloats (svc : Service Single) : Service Single :=
  { svc with printF := CString.printF }

/-- A text of the program between the quotes. -/
theorem fixed_good (name msg : Bytes) (hutf : utf8 msg = true) (hp : Plain msg) :
    GoodAnswer name 0 (errorPrefix ++ 34 :: (msg ++ [34, 125])) :=
  failure_good.2 ⟨hutf, .inl ⟨_, Json.spelled_bytes hp⟩⟩

theorem reply_failed (name errorMsg : Bytes) :
    ((Verdict.failed errorMsg).reply CString.printF name).body =
      errorPrefix ++ 34 :: (errorText errorMsg ++ [34, 125]) := by
  have hstart : ascii "\x7b\"status\":\"error\",\"msg\":\"" = errorPrefix ++ [34] := rfl
  have hend : ascii "\"\x7d" = [34, 125] := rfl
  change ascii "\x7b\"status\":\"error\",\"msg\":\"" ++ errorText errorMsg ++ ascii "\"\x7d" = _
  rw [hstart, hend, List.append_assoc, List.append_assoc, List.singleton_append]

theorem reply_succeeded (name : Bytes) (out : List Single) :
    ((Verdict.succeeded out).reply CString.printF name).body =
      okPrefix ++ 34 :: (name ++ 34 :: outputText out) := by
  have hstart : ascii "\x7b\"status\":\"ok\",\"model\":\"" = okPrefix ++ [34] := rfl
  have hmiddle : ascii "\",\"output\":" ++ ascii "[" = 34 :: ascii ",\"output\":[" := rfl
  have hend : ascii "]" ++ ascii "\x7d" = ascii "]\x7d" := rfl
  change ascii "\x7b\"status\":\"ok\",\"model\":\"" ++ name ++ ascii "\",\"output\":" ++
    (ascii "[" ++ elements out ++ ascii "]") ++ ascii "\x7d" = _
  rw [outputText, ← hend, hstart]
  simp only [List.append_assoc, List.singleton_append]
  rw [← List.append_assoc (ascii "\",\"output\":"), hmiddle]
  rfl

theorem zero_not_mem_reply {name : Bytes} (h0 : 0 ∉ name) (verdict : Verdict Single) :
    0 ∉ (verdict.reply CString.printF name).body := by
  intro h
  cases verdict with
  | timedOut =>
      have hfixed : 0 ∉ ascii "\x7b\"status\":\"error\",\"msg\":\"inference timeout\"\x7d" := by
        decide
      exact hfixed h
  | failed errorMsg =>
      have htext : 0 ∉ errorText errorMsg := by
        unfold errorText
        split
        · decide
        · exact CString.not_mem_cut _
      have hrest : 0 ∉ errorPrefix ++ 34 :: [34, 125] := by decide
      rw [reply_failed] at h
      simp only [List.mem_append, List.mem_cons, not_or] at h hrest
      tauto
  | succeeded out =>
      have hrest : 0 ∉ okPrefix ++ [34] := by decide
      have hout : 0 ∉ outputText out := fun h => absurd (mem_outputText h) (by decide)
      rw [reply_succeeded] at h
      simp only [List.mem_append, List.mem_cons, not_or] at h hrest
      tauto

/-- **The verdicts of the scheduler.** -/
theorem reply_good {name : Bytes} (hq : 34 ∉ name) (verdict : Verdict Single) :
    GoodAnswer name (outputOf (some verdict)).length (verdict.reply CString.printF name).body ↔
      AnswerFits name (some verdict) := by
  cases verdict with
  | timedOut =>
      refine iff_of_true ?_ trivial
      exact fixed_good name (ascii "inference timeout") (by decide) (by decide)
  | failed errorMsg =>
      rw [reply_failed]
      exact failure_good
  | succeeded out =>
      rw [reply_succeeded]
      exact success_good hq

/-- The name of a task stands in the body, or it is `default`. -/
theorem modelName_requestTask (svc : Service F) (now : ℤ) (c : HttpConn) :
    34 ∉ (c.requestTask svc now).modelName ∧ 0 ∉ (c.requestTask svc now).modelName := by
  have hdefault : 34 ∉ ascii "default" ∧ 0 ∉ ascii "default" := by decide
  change 34 ∉ (if (jsonGetString c.body (ascii "model")).isEmpty then ascii "default"
    else jsonGetString c.body (ascii "model")) ∧ 0 ∉ (if
      (jsonGetString c.body (ascii "model")).isEmpty then ascii "default"
    else jsonGetString c.body (ascii "model"))
  split
  · exact hdefault
  · refine ⟨quote_not_mem_jsonGetString _ _, fun h => ?_⟩
    exact CString.not_mem_cut _ (mem_of_mem_jsonGetString h)

/-- A text of the program, in the answer. -/
theorem body_answer {c : HttpConn} {body : Bytes} (h : 0 ∉ body) :
    (c.answer body).2.responseBody = body :=
  CString.cut_of_not_mem h

/-- **An answer with a text of the program** is good. -/
theorem fixed_answer_good (c : HttpConn) (name : Bytes) {body : Bytes} (msg : Bytes)
    (hbody : body = errorPrefix ++ 34 :: (msg ++ [34, 125])) (hutf : utf8 msg = true)
    (hp : Plain msg) : GoodAnswer name 0 (c.answer body).2.responseBody := by
  have hstart : 0 ∉ errorPrefix := by decide
  have hmsg : 0 ∉ msg := fun h => absurd (hp 0 h).1 (by decide)
  have h0 : 0 ∉ body := by
    rw [hbody]
    simp [hstart, hmsg]
  rw [body_answer h0, hbody]
  exact fixed_good name msg hutf hp

/-- **The answers to a task.** -/
theorem answerTask_good (svc : Service Single) (scheduler : Option (Verdict Single)) (c : HttpConn)
    {task : InferenceTask Single} (hq : 34 ∉ task.modelName) (h0 : 0 ∉ task.modelName) :
    GoodAnswer task.modelName
        (outputOf (if task.inputData.isEmpty then none else scheduler)).length
        (c.answerTask svc.onFloats scheduler task).2.responseBody ↔
      AnswerFits task.modelName (if task.inputData.isEmpty then none else scheduler) := by
  unfold HttpConn.answerTask
  split
  · refine iff_of_true ?_ trivial
    exact fixed_answer_good c _ (ascii "missing or empty 'input' field") rfl (by decide)
      (by decide)
  · cases scheduler with
    | none =>
        refine iff_of_true ?_ trivial
        change GoodAnswer _ _ (c.answer overloadedReply.body).2.responseBody
        exact fixed_answer_good c _ (ascii "server overloaded, queue full") rfl (by decide)
          (by decide)
    | some verdict =>
        change GoodAnswer _ _
          (c.answer (verdict.reply CString.printF task.modelName).body).2.responseBody ↔ _
        rw [body_answer (zero_not_mem_reply h0 verdict)]
        exact reply_good hq verdict

/-- **When an answer is JSON.**  The answers of `do_request` are JSON objects that name the model
and have one number for each output, except when the name of the model is not plain, an output is
not finite, or the text of an error does not fit. -/
theorem answer_is_json (svc : Service Single) (now : ℤ) (scheduler : Option (Verdict Single))
    {c d : HttpConn} (h : c.doRequest svc.onFloats now scheduler = .ok (.jsonResponse, d)) :
    GoodAnswer (c.requestTask svc now).modelName (outputOf (c.ran svc now scheduler)).length
        d.responseBody ↔
      AnswerFits (c.requestTask svc now).modelName (c.ran svc now scheduler) := by
  obtain ⟨hq, h0⟩ := modelName_requestTask svc now c
  unfold HttpConn.doRequest at h
  split at h
  · cases h
  · cases hurl : c.url with
    | none =>
        rw [hurl] at h
        cases h
    | some url =>
        rw [hurl] at h
        dsimp only at h
        split at h
        · cases h
        · split at h
          · cases h
          · unfold HttpConn.ran
            split at h
            · next hinit =>
                have hd := congrArg Prod.snd (Except.ok.inj h)
                change (c.answer uninitializedReply.body).2 = d at hd
                change (!svc.initialized) = true at hinit
                rw [if_pos hinit, ← hd]
                refine iff_of_true ?_ trivial
                exact fixed_answer_good c _ (ascii "scheduler not initialized") rfl (by decide)
                  (by decide)
            · next hinit =>
                have hd := congrArg Prod.snd (Except.ok.inj h)
                change (c.answerTask svc.onFloats scheduler (c.requestTask svc now)).2 = d at hd
                change ¬ (!svc.initialized) = true at hinit
                rw [if_neg hinit, ← hd]
                exact answerTask_good svc scheduler c hq h0

/-- A service that reads the number one. -/
def oneService : Service Single where
  ofText _ := .finite false 1 0 (by decide)
  printF := CString.printF
  sockfd := 5

/-- The connection that has read a request with a body of 28 bytes. -/
def readConn (body : Bytes) : HttpConn :=
  match ((HttpConn.fresh readBufferSize).append
    (ascii "POST /infer HTTP/1.1\r\nContent-Length: 28\r\n\r\n" ++ body)).processRead with
  | .ok (_, c) => c
  | .error _ => HttpConn.fresh readBufferSize

/-- Connections that have read a plain name, and a name with an escaped quote. -/
def plainConn : HttpConn := readConn (ascii "\x7b\"model\":\"net1\",\"input\":[1]\x7d")

def escapedConn : HttpConn := readConn (ascii "\x7b\"model\":\"a\\\"b\",\"input\":[1]\x7d")

theorem plainConn_name : (plainConn.requestTask oneService 0).modelName = ascii "net1" := by decide

theorem escapedConn_name : (escapedConn.requestTask oneService 0).modelName = ascii "a\\" := by
  decide

/-- A request with an input whose task comes back. -/
theorem doRequest_served (svc : Service F) (now : ℤ) (verdict : Verdict F) {c : HttpConn} (url : ℕ)
    (hmethod : c.method = .post) (hurl : c.url = some url) (hinfer : c.str url = ascii "/infer")
    (hlen : 0 < c.contentLength) (hinit : svc.initialized = true)
    (hinput : (c.requestTask svc now).inputData.isEmpty = false) :
    c.doRequest svc now (some verdict) =
      .ok (c.answer (verdict.reply svc.printF (c.requestTask svc now).modelName).body) := by
  unfold HttpConn.doRequest HttpConn.answerTask
  rw [if_neg (by rw [hmethod]; decide), hurl]
  dsimp only
  rw [if_neg (by rw [hinfer]; decide), if_neg (not_le.2 hlen), if_neg (by rw [hinit]; decide),
    if_neg (by rw [hinput]; decide)]

/-- The number two. -/
def two : Single := .finite false 2 0 (by decide)

/-- Requests to `oneService` whose task comes back. -/
theorem plainConn_served (verdict : Verdict Single) :
    plainConn.doRequest oneService.onFloats 0 (some verdict) =
      .ok (plainConn.answer (verdict.reply CString.printF (ascii "net1")).body) := by
  rw [← plainConn_name]
  exact doRequest_served oneService.onFloats 0 verdict 5 (by decide) (by decide) (by decide)
    (by decide) rfl (by decide)

/-- A plain name and the number two. -/
theorem answer_is_json_plain :
    ∃ d, plainConn.doRequest oneService.onFloats 0 (some (.succeeded [two])) =
        .ok (.jsonResponse, d) ∧
      GoodAnswer (ascii "net1") 1 d.responseBody := by
  have hplain : PlainName (ascii "net1") := ⟨by decide, (by decide : Plain (ascii "net1"))⟩
  have hfinite : ∀ x ∈ [two], x.isFinite = true := by decide
  have hran : plainConn.ran oneService 0 (some (.succeeded [two])) =
      some (.succeeded [two]) := rfl
  have hdo := plainConn_served (.succeeded [two])
  refine ⟨_, hdo, ?_⟩
  have hgood := answer_is_json oneService 0 (some (.succeeded [two])) hdo
  rw [plainConn_name, hran] at hgood
  exact hgood.2 ⟨hplain, hfinite⟩

theorem escapedConn_served (verdict : Verdict Single) :
    escapedConn.doRequest oneService.onFloats 0 (some verdict) =
      .ok (escapedConn.answer (verdict.reply CString.printF (ascii "a\\")).body) := by
  rw [← escapedConn_name]
  exact doRequest_served oneService.onFloats 0 verdict 5 (by decide) (by decide) (by decide)
    (by decide) rfl (by decide)

/-- What the answer to a task that succeeded is not, when the name or the output does not fit. -/
theorem not_good_of_not_fit {name : Bytes} {out : List Single} (c : HttpConn) (hq : 34 ∉ name)
    (h0 : 0 ∉ name) (h : ¬ (PlainName name ∧ ∀ x ∈ out, x.isFinite = true)) :
    ¬ GoodAnswer name out.length
      (c.answer ((Verdict.succeeded out).reply CString.printF name).body).2.responseBody := by
  rw [body_answer (zero_not_mem_reply h0 _)]
  exact fun hgood => h ((reply_good hq (.succeeded out)).1 hgood)

/-- **Answers that are not JSON:** the name that was read of `a\"b` ends in a backslash, which
escapes the quote that should close it; and what is not a number is printed as `nan`. -/
theorem answer_not_json :
    (∃ d, escapedConn.doRequest oneService.onFloats 0 (some (.succeeded [two])) =
        .ok (.jsonResponse, d) ∧
      ¬ GoodAnswer (escapedConn.requestTask oneService 0).modelName 1 d.responseBody) ∧
    ∃ d, plainConn.doRequest oneService.onFloats 0 (some (.succeeded [.nan false])) =
        .ok (.jsonResponse, d) ∧
      ¬ GoodAnswer (plainConn.requestTask oneService 0).modelName 1 d.responseBody := by
  rw [escapedConn_name, plainConn_name]
  refine ⟨⟨_, escapedConn_served _, ?_⟩, ⟨_, plainConn_served _, ?_⟩⟩
  · refine not_good_of_not_fit _ (by decide) (by decide) ?_
    rintro ⟨hname, -⟩
    exact absurd rfl (hname.plain 92 (by decide)).2.2
  · refine not_good_of_not_fit _ (by decide) (by decide) ?_
    rintro ⟨-, hfin⟩
    exact absurd (hfin _ (List.mem_singleton_self _)) (by decide)

end Answer

end Gateway
