/-
The input array of a request, against the grammar of arrays.

`json_get_float_array` reads numbers with `strtof` until something is no number.  Between two
numbers it skips spaces and commas, and `strtof` skips any blank; whatever stops the loop, the
numbers before it are the result.  This module states which texts are arrays of numbers, and when
the result is what they say.

Main definitions:

* `Gateway.Element`, `Gateway.ArrayText` — the text of an array, behind its opening bracket;
* `Gateway.FaithfulArray` — what is promised: all the numbers, or none of them if the text is no
  array;
* `Gateway.SpacesBeforeCommas` — no other blank stands between a number and its comma.

Main results:

* `Gateway.floatLoop_number` — a pass of the loop that reads a number;
* `Gateway.floatLoop_eq_nil_iff` — when the loop reads nothing;
* `Gateway.floatLoop_elements` — **the loop on an array**;
* `Gateway.input_array_iff` — **when the promise is kept**.
-/

import InferenceGateway.HttpInference
import InferenceGateway.JsonLiteral

set_option relaxedAutoImplicit false
set_option autoImplicit false

namespace Gateway

open CString (isspace isdigit strtofLength)
open Json (Literal isBlank Stops)

variable {F : Type}

/-! ### Arrays -/

/-- A number between blanks. -/
structure Element where
  before : Bytes
  number : Literal
  after : Bytes
  before_ok : ∀ b ∈ before, isBlank b = true
  after_ok : ∀ b ∈ after, isBlank b = true

def Element.text (e : Element) : Bytes := e.before ++ (e.number.text ++ e.after)

/-- The elements of an array with commas between them, the closing bracket, and what follows it. -/
inductive Elements : Bytes → List Element → Prop
  | last (e : Element) (rest : Bytes) : Elements (e.text ++ 93 :: rest) [e]
  | more (e : Element) {s : Bytes} {es : List Element} :
      Elements s es → Elements (e.text ++ 44 :: s) (e :: es)

/-- The text of an array of numbers, behind its opening bracket. -/
def ArrayText (start : Bytes) (es : List Element) : Prop :=
  Elements start es ∨
    es = [] ∧ ∃ w rest, (∀ b ∈ w, isBlank b = true) ∧ start = w ++ 93 :: rest

/-- What `strtof` makes of the text that it reads: it skips blanks. -/
def strtof (value : Bytes → F) (t : Bytes) : F := value (t.dropWhile isspace)

/-- What is promised of the numbers that were read: all of them in order, and none if the text is
no array of numbers. -/
def FaithfulArray (value : Bytes → F) (start : Bytes) (result : List F) : Prop :=
  (∀ es, ArrayText start es → result = es.map fun e => value e.number.text) ∧
    ((¬ ∃ es, ArrayText start es) → result = [])

/-- No blank but spaces stands between a number and its comma. -/
def SpacesBeforeCommas (es : List Element) : Prop := ∀ e ∈ es.dropLast, ∀ b ∈ e.after, b = 32

/-- The bytes that the loop skips. -/
def isSeparator (b : UInt8) : Bool := b == 32 || b == 44

/-! ### Blanks -/

theorem isspace_of_isBlank {b : UInt8} (h : isBlank b = true) : isspace b = true := by
  simp only [isBlank, Bool.or_eq_true, beq_iff_eq] at h
  rcases h with ((rfl | rfl) | rfl) | rfl
  all_goals rfl

theorem not_isSeparator_of_isBlank {b : UInt8} (h : isBlank b = true) (h32 : b ≠ 32) :
    isSeparator b = false := by
  simp only [isBlank, Bool.or_eq_true, beq_iff_eq] at h
  rcases h with ((rfl | rfl) | rfl) | rfl
  · exact absurd rfl h32
  all_goals rfl

/-- The first byte of a number is not skipped, and does not end the array. -/
theorem not_isSeparator_of_number {b : UInt8} (h : b = 45 ∨ isdigit b = true) :
    isSeparator b = false ∧ b ≠ 93 := by
  rcases h with rfl | h
  · decide
  · obtain ⟨hlo, hhi⟩ := Bool.and_eq_true_iff.1 h
    refine ⟨Bool.eq_false_iff.2 fun hs => ?_, ?_⟩
    · rcases Bool.or_eq_true_iff.1 hs with h | h
      all_goals
        rw [beq_iff_eq.1 h] at hlo
        exact absurd hlo (by decide)
    · rintro rfl
      exact absurd hhi (by decide)

/-- Blanks are spaces, and then blanks that do not begin with one. -/
theorem blanks_split {w : Bytes} (hw : ∀ b ∈ w, isBlank b = true) :
    ∃ s t, w = s ++ t ∧ (∀ b ∈ s, b = 32) ∧ (∀ b ∈ t, isspace b = true) ∧
      ∀ b ∈ t.head?, isSeparator b = false := by
  have hsuf := (List.dropWhile_suffix (l := w) (· == 32))
  refine ⟨w.takeWhile (· == 32), w.dropWhile (· == 32), List.takeWhile_append_dropWhile.symm,
    ?_, ?_, ?_⟩
  · intro b hb
    have := List.mem_takeWhile_imp hb
    exact beq_iff_eq.1 this
  · intro b hb
    exact isspace_of_isBlank (hw b (hsuf.mem hb))
  · intro b hb
    have hmem := hsuf.mem (List.mem_of_mem_head? hb)
    refine not_isSeparator_of_isBlank (hw b hmem) ?_
    rintro rfl
    have := List.head?_dropWhile_not (· == 32) w
    rw [hb] at this
    simp at this

/-! ### Where the loop stops -/

/-- `strtof` reads no comma and no bracket. -/
theorem strtofLength_stop {w : Bytes} {b : UInt8} (hw : ∀ b ∈ w, isspace b = true)
    (hb : b = 44 ∨ b = 93) (s : Bytes) : strtofLength (w ++ b :: s) = 0 := by
  have hspace : ∀ x ∈ (b :: s).head?, isspace x = false := by
    rintro x ⟨⟩
    rcases hb with rfl | rfl
    all_goals rfl
  have htake := CString.takeWhile_append_stop hw hspace
  have hsign : CString.signLength (b :: s) = 0 := by
    rcases hb with rfl | rfl
    all_goals rfl
  have hmag : CString.magnitudeLength (b :: s) = 0 := by
    rcases hb with rfl | rfl
    all_goals rfl
  rw [strtofLength]
  simp only [htake, List.drop_left, hsign, Nat.add_zero, hmag, if_true]

/-- **When the loop reads nothing.** -/
theorem floatLoop_eq_nil_iff (ofText : Bytes → F) (n : ℕ) (start : Bytes) :
    floatLoop ofText (n + 1) start = [] ↔ strtofLength (start.dropWhile isSeparator) = 0 := by
  have hnil : ∀ s : Bytes, s.head? = none ∨ s.head? = some 93 → strtofLength s = 0 := by
    rintro s (h | h)
    · rw [List.head?_eq_none_iff.1 h]
      rfl
    · obtain ⟨s, rfl⟩ := List.head?_eq_some_iff.1 h
      exact strtofLength_stop (w := []) nofun (.inr rfl) s
  rw [floatLoop]
  split
  · next h =>
      have hdrop : start.dropWhile isSeparator = start := by
        rcases h with h | h
        · rw [List.head?_eq_none_iff.1 h]
          rfl
        · obtain ⟨s, rfl⟩ := List.head?_eq_some_iff.1 h
          rfl
      rw [hdrop]
      exact iff_of_true rfl (hnil start h)
  · change (if (start.dropWhile isSeparator).head? = none ∨
      (start.dropWhile isSeparator).head? = some 93 then [] else _) = [] ↔ _
    split
    · next h => exact iff_of_true rfl (hnil _ h)
    · change (if strtofLength (start.dropWhile isSeparator) = 0 then [] else _) = [] ↔ _
      split
      · next h => exact iff_of_true rfl h
      · next h => exact iff_of_false (List.cons_ne_nil _ _) h

/-- The loop behind the last number of an array. -/
theorem floatLoop_end (ofText : Bytes → F) (n : ℕ) {w : Bytes} (hw : ∀ b ∈ w, isBlank b = true)
    (rest : Bytes) : floatLoop ofText n (w ++ 93 :: rest) = [] := by
  cases n with
  | zero => rfl
  | succ n =>
      obtain ⟨s, t, rfl, hs, ht, hhead⟩ := blanks_split hw
      refine (floatLoop_eq_nil_iff ofText n _).2 ?_
      have hstop : ∀ b ∈ (t ++ 93 :: rest).head?, isSeparator b = false := by
        intro b hb
        cases t with
        | nil =>
            obtain rfl : 93 = b := by simpa using hb
            rfl
        | cons x t => exact hhead b hb
      rw [List.append_assoc, CString.dropWhile_append_stop (fun b hb => by rw [hs b hb]; rfl) hstop]
      exact strtofLength_stop ht (.inr rfl) rest

/-- **The loop before a comma that some other blank stands in front of**: it stops. -/
theorem floatLoop_stuck (ofText : Bytes → F) (n : ℕ) {w : Bytes}
    (hw : ∀ b ∈ w, isBlank b = true) (hne : ∃ b ∈ w, b ≠ 32) (rest : Bytes) :
    floatLoop ofText n (w ++ 44 :: rest) = [] := by
  cases n with
  | zero => rfl
  | succ n =>
      obtain ⟨s, t, rfl, hs, ht, hhead⟩ := blanks_split hw
      refine (floatLoop_eq_nil_iff ofText n _).2 ?_
      have hstop : ∀ b ∈ (t ++ 44 :: rest).head?, isSeparator b = false := by
        intro b hb
        cases t with
        | nil =>
            obtain ⟨x, hx, hx32⟩ := hne
            rw [List.append_nil] at hx
            exact absurd (hs x hx) hx32
        | cons x t => exact hhead b hb
      rw [List.append_assoc, CString.dropWhile_append_stop (fun b hb => by rw [hs b hb]; rfl) hstop]
      exact strtofLength_stop ht (.inl rfl) rest

/-! ### Where the loop goes on -/

/-- What may stand behind a number of an array. -/
theorem stops_of_after {w : Bytes} {b : UInt8} (hw : ∀ x ∈ w, isBlank x = true)
    (hb : b = 44 ∨ b = 93) (s : Bytes) : Stops (w ++ b :: s) := by
  intro x hx
  cases w with
  | nil =>
      obtain rfl : b = x := by simpa using hx
      rcases hb with rfl | rfl
      all_goals decide
  | cons y w =>
      obtain rfl : y = x := by simpa using hx
      have h := hw y List.mem_cons_self
      simp only [isBlank, Bool.or_eq_true, beq_iff_eq] at h
      rcases h with ((rfl | rfl) | rfl) | rfl
      all_goals decide

/-- Behind separators the text goes on, and does not end the array. -/
theorem head_of_separators {s t : Bytes} (hs : ∀ b ∈ s, isSeparator b = true) (hne : t ≠ [])
    (ht : ∀ b ∈ t.head?, b ≠ 93) :
    ¬ ((s ++ t).head? = none ∨ (s ++ t).head? = some 93) := by
  rintro (h | h)
  · exact hne (List.append_eq_nil_iff.1 (List.head?_eq_none_iff.1 h)).2
  · cases s with
    | nil => exact ht 93 h rfl
    | cons b s =>
        obtain rfl : b = 93 := by simpa using h
        exact absurd (hs 93 List.mem_cons_self) (by decide)

theorem strtof_text (value : Bytes → F) {w : Bytes} (hw : ∀ b ∈ w, isspace b = true)
    (l : Literal) : strtof value (w ++ l.text) = value l.text := by
  have hhead := l.head_not_isspace []
  rw [List.append_nil] at hhead
  rw [strtof, CString.dropWhile_append_stop hw hhead]

/-- **A pass that reads a number**, behind separators and blanks. -/
theorem floatLoop_number (value : Bytes → F) (n : ℕ) {seps w r : Bytes} (l : Literal)
    (hseps : ∀ b ∈ seps, isSeparator b = true) (hw : ∀ b ∈ w, isBlank b = true)
    (hr : Stops r) :
    floatLoop (strtof value) (n + 1) (seps ++ (w ++ (l.text ++ r))) =
      value l.text :: floatLoop (strtof value) n r := by
  obtain ⟨s, t, rfl, hs, ht, hhead⟩ := blanks_split hw
  have hseps' : ∀ b ∈ seps ++ s, isSeparator b = true := by
    intro b hb
    rcases List.mem_append.1 hb with hb | hb
    · exact hseps b hb
    · rw [hs b hb]
      rfl
  have hne : t ++ (l.text ++ r) ≠ [] := by
    simp only [ne_eq, List.append_eq_nil_iff, l.text_ne_nil, false_and, and_false,
      not_false_eq_true]
  have hfirst : ∀ b ∈ (t ++ (l.text ++ r)).head?, isSeparator b = false ∧ b ≠ 93 := by
    intro b hb
    cases t with
    | nil => exact not_isSeparator_of_number (l.head_text_append r b hb)
    | cons x t =>
        obtain rfl : x = b := by simpa using hb
        refine ⟨hhead x rfl, ?_⟩
        rintro rfl
        exact absurd (ht 93 List.mem_cons_self) (by decide)
  have hsplit : seps ++ (s ++ t ++ (l.text ++ r)) = seps ++ s ++ (t ++ (l.text ++ r)) := by
    simp only [List.append_assoc]
  have hlen := l.strtofLength_text ht hr
  have htake : (t ++ (l.text ++ r)).take (t.length + l.text.length) = t ++ l.text := by
    rw [← List.append_assoc, ← List.length_append, List.take_left]
  have hdrop : (t ++ (l.text ++ r)).drop (t.length + l.text.length) = r := by
    rw [← List.append_assoc, ← List.length_append, List.drop_left]
  have hpos := List.length_pos_iff.2 l.text_ne_nil
  have hgo : ¬ ((t ++ (l.text ++ r)).head? = none ∨ (t ++ (l.text ++ r)).head? = some 93) :=
    head_of_separators (s := []) nofun hne fun b hb => (hfirst b hb).2
  have hskip : (seps ++ s ++ (t ++ (l.text ++ r))).dropWhile (fun b => b == 32 || b == 44) =
      t ++ (l.text ++ r) :=
    CString.dropWhile_append_stop hseps' fun b hb => (hfirst b hb).1
  rw [hsplit, floatLoop, if_neg (head_of_separators hseps' hne fun b hb => (hfirst b hb).2)]
  simp only [hskip, hlen, htake, hdrop, strtof_text value ht]
  rw [if_neg hgo, if_neg (by omega)]

/-! ### The loop on an array -/

theorem Elements.ne_nil {start : Bytes} {es : List Element} (h : Elements start es) : es ≠ [] := by
  cases h with
  | last => exact List.cons_ne_nil _ _
  | more => exact List.cons_ne_nil _ _

theorem spacesBeforeCommas_cons {e : Element} {es : List Element} (hne : es ≠ []) :
    SpacesBeforeCommas (e :: es) ↔ (∀ b ∈ e.after, b = 32) ∧ SpacesBeforeCommas es := by
  rw [SpacesBeforeCommas, List.dropLast_cons_of_ne_nil hne, List.forall_mem_cons]
  rfl

/-- **The loop on an array** reads all its numbers, or stops before a comma. -/
theorem floatLoop_elements (value : Bytes → F) {start : Bytes} {es : List Element}
    (h : Elements start es) (n : ℕ) (seps : Bytes) (hseps : ∀ b ∈ seps, isSeparator b = true)
    (hn : (seps ++ start).length ≤ n) :
    (SpacesBeforeCommas es →
        floatLoop (strtof value) n (seps ++ start) = es.map fun e => value e.number.text) ∧
      (¬ SpacesBeforeCommas es →
        (floatLoop (strtof value) n (seps ++ start)).length < es.length) := by
  induction h generalizing n seps with
  | last e rest =>
      have hpos := List.length_pos_iff.2 e.number.text_ne_nil
      obtain ⟨m, rfl⟩ : ∃ m, n = m + 1 := ⟨n - 1, by
        simp only [Element.text, List.length_append] at hn
        omega⟩
      have hpass := floatLoop_number value m e.number hseps e.before_ok
        (stops_of_after e.after_ok (.inr rfl) rest)
      rw [floatLoop_end _ m e.after_ok] at hpass
      simp only [Element.text, List.append_assoc] at hpass ⊢
      rw [hpass]
      exact ⟨fun _ => rfl, fun hnot => absurd nofun hnot⟩
  | @more e s es hes ih =>
      have hpos := List.length_pos_iff.2 e.number.text_ne_nil
      obtain ⟨m, rfl⟩ : ∃ m, n = m + 1 := ⟨n - 1, by
        simp only [Element.text, List.length_append] at hn
        omega⟩
      have hpass := floatLoop_number value m e.number hseps e.before_ok
        (stops_of_after e.after_ok (.inl rfl) s)
      simp only [Element.text, List.append_assoc, List.length_append, List.length_cons]
        at hn hpass ⊢
      rw [hpass, spacesBeforeCommas_cons hes.ne_nil]
      by_cases hspaces : ∀ b ∈ e.after, b = 32
      -- the loop skips the comma and goes on with the next element
      · have hseps' : ∀ b ∈ e.after ++ [44], isSeparator b = true := by
          intro b hb
          rcases List.mem_append.1 hb with hb | hb
          · rw [hspaces b hb]
            rfl
          · rw [List.mem_singleton.1 hb]
            rfl
        have hsplit : e.after ++ 44 :: s = (e.after ++ [44]) ++ s := by simp
        obtain ⟨hall, hless⟩ := ih m _ hseps' (by simp; omega)
        rw [← hsplit] at hall hless
        refine ⟨fun h => ?_, fun hnot => ?_⟩
        · rw [hall h.2]
          rfl
        · have hlt := hless fun h => hnot ⟨hspaces, h⟩
          simp only [List.length_cons]
          omega
      -- the loop stops before the comma
      · have hother : ∃ b ∈ e.after, b ≠ 32 := by
          by_contra hnone
          exact hspaces fun b hb => by_contra fun h => hnone ⟨b, hb, h⟩
        refine ⟨fun h => absurd h.1 hspaces, fun _ => ?_⟩
        have hpos' := List.length_pos_iff.2 hes.ne_nil
        rw [floatLoop_stuck _ m e.after_ok hother, List.length_cons, List.length_nil]
        omega

/-- **The result on an array** is the array if and only if only spaces stand before its commas. -/
theorem floatLoop_arrayText (value : Bytes → F) {start : Bytes} {es : List Element}
    (h : ArrayText start es) :
    floatLoop (strtof value) start.length start = (es.map fun e => value e.number.text) ↔
      SpacesBeforeCommas es := by
  rcases h with h | ⟨rfl, w, rest, hw, rfl⟩
  · obtain ⟨hall, hless⟩ := floatLoop_elements value h start.length [] nofun (le_refl _)
    refine ⟨fun heq => ?_, hall⟩
    by_contra hnot
    have hlt := hless hnot
    rw [List.nil_append, heq, List.length_map] at hlt
    exact lt_irrefl _ hlt
  · rw [floatLoop_end _ _ hw]
    exact iff_of_true rfl nofun

/-! ### Main result -/

/-- A text on which the promise is kept. -/
def Tame (start : Bytes) : Prop :=
  (∀ es, ArrayText start es → SpacesBeforeCommas es) ∧
    ((¬ ∃ es, ArrayText start es) → strtofLength (start.dropWhile isSeparator) = 0)

theorem floatLoop_length_eq_nil_iff (ofText : Bytes → F) (start : Bytes) :
    floatLoop ofText start.length start = [] ↔
      strtofLength (start.dropWhile isSeparator) = 0 := by
  cases start with
  | nil => exact iff_of_true rfl rfl
  | cons b start => exact floatLoop_eq_nil_iff ofText start.length (b :: start)

theorem jsonGetFloatArray_eq (ofText : Bytes → F) {body key start : Bytes}
    (h : afterKey body key = some (91 :: start)) :
    jsonGetFloatArray ofText body key = floatLoop ofText start.length start := by
  rw [jsonGetFloatArray, h]
  rfl

/-- **`do_request` reports a missing input** when no number was read, whatever the scheduler
does. -/
theorem answerTask_missing (svc : Service F) (now : ℤ) {c : HttpConn}
    (h : jsonGetFloatArray svc.ofText c.body (ascii "input") = [])
    (scheduler : Option (Verdict F)) :
    c.answerTask svc scheduler (c.requestTask svc now) = c.answer missingInputReply.body := by
  have hempty : (c.requestTask svc now).inputData = [] := h
  simp only [HttpConn.answerTask, hempty]
  rfl

/-- With numbers, a full queue is reported as a full queue. -/
theorem answerTask_present (svc : Service F) (now : ℤ) {c : HttpConn}
    (h : jsonGetFloatArray svc.ofText c.body (ascii "input") ≠ []) :
    c.answerTask svc none (c.requestTask svc now) ≠ c.answer missingInputReply.body := by
  have hsome : (c.requestTask svc now).inputData.isEmpty = false := by
    rw [List.isEmpty_eq_false_iff]
    exact h
  intro heq
  simp only [HttpConn.answerTask, hsome] at heq
  have hbody : CString.cut overloadedReply.body = CString.cut missingInputReply.body :=
    congrArg (fun x => x.2.responseBody) heq
  exact absurd hbody (by decide)

/-- The number 1. -/
def literalOne : Literal where
  negative := false
  whole := [49]
  fraction := none
  exponent := none
  whole_ok := by decide
  whole_zero := by decide
  fraction_ok := nofun

/-- The text `1⇥,1]`. -/
theorem arrayText_tab : ArrayText (ascii "1\t,1]\x7d")
    [⟨[], literalOne, [9], nofun, List.forall_mem_singleton.2 rfl⟩,
      ⟨[], literalOne, [], nofun, nofun⟩] :=
  .inl (.more ⟨[], literalOne, [9], nofun, List.forall_mem_singleton.2 rfl⟩
    (.last ⟨[], literalOne, [], nofun, nofun⟩ [125]))

/-- **An array of which a part is read**: a tab before its comma. -/
theorem input_array_cut : ¬ ∀ (value : Bytes → Bytes) (body start : Bytes),
    afterKey body (ascii "input") = some (91 :: start) →
      FaithfulArray value start (jsonGetFloatArray (strtof value) body (ascii "input")) := by
  intro hall
  have hread := (hall id (ascii "\x7b\"input\":[1\t,1]\x7d") _ rfl).1 _ arrayText_tab
  exact absurd hread (by decide)

/-- **The input array is read faithfully if and only if** no tab or line break stands between a
number and its comma, and a text that is no array of numbers gives `strtof` nothing to read behind
its first spaces and commas.  A text that is no array is reported as a missing input exactly in
that case. -/
theorem input_array_iff (value : Bytes → F) {body start : Bytes}
    (h : afterKey body (ascii "input") = some (91 :: start)) :
    (FaithfulArray value start (jsonGetFloatArray (strtof value) body (ascii "input")) ↔
        Tame start) ∧
      ((¬ ∃ es, ArrayText start es) → ∀ (svc : Service F) (now : ℤ) (c : HttpConn),
        svc.ofText = strtof value → c.body = body →
          ((∀ scheduler, c.answerTask svc scheduler (c.requestTask svc now) =
              c.answer missingInputReply.body) ↔
            strtofLength (start.dropWhile isSeparator) = 0)) := by
  have hread := jsonGetFloatArray_eq (strtof value) h
  refine ⟨?_, fun _ svc now c hvalue hbody => ?_⟩
  · rw [hread]
    refine and_congr (forall_congr' fun es => ?_) (imp_congr_right fun _ => ?_)
    · exact ⟨fun hall hes => (floatLoop_arrayText value hes).1 (hall hes),
        fun hall hes => (floatLoop_arrayText value hes).2 (hall hes)⟩
    · exact floatLoop_length_eq_nil_iff _ _
  · rw [← floatLoop_length_eq_nil_iff (strtof value), ← hread, ← hvalue, ← hbody]
    refine ⟨fun hall => ?_, answerTask_missing svc now⟩
    by_contra hne
    exact answerTask_present svc now hne (hall none)

/-- The promise is not kept on that array. -/
theorem input_array_iff_tab : ¬ FaithfulArray (id : Bytes → Bytes) (ascii "1\t,1]\x7d")
    (jsonGetFloatArray (strtof id) (ascii "\x7b\"input\":[1\t,1]\x7d") (ascii "input")) := by
  have hkey : afterKey (ascii "\x7b\"input\":[1\t,1]\x7d") (ascii "input") =
      some (91 :: ascii "1\t,1]\x7d") := rfl
  obtain ⟨hiff, -⟩ := input_array_iff (id : Bytes → Bytes) hkey
  intro hfaithful
  have hspaces := (hiff.1 hfaithful).1 _ arrayText_tab
  exact absurd (hspaces _ List.mem_cons_self 9 List.mem_cons_self) (by decide)

end Gateway
