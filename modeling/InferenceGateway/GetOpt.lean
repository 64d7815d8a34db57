/-
**`getopt`: short options on a command line.**

`getopt` goes through the arguments of a program, skips the operands, and reads each other argument
as a cluster of option letters.  A letter that takes a value ends the cluster: the value is the rest
of the argument, or, if nothing is left of it, the whole next argument, whatever that looks like.
The argument `--` ends the options.

Main definitions:

* `GetOpt.ofString` — the options of an `optstring`;
* `GetOpt.getopt` — what a loop of calls finds, in order;
* `GetOpt.Word` — an operand, or an option with its value in one of the two spellings;
* `GetOpt.Ended` — nothing more, or `--` and anything.

Main results:

* `GetOpt.getopt_words` — **what was written is found**, in its order and in either spelling;
* `GetOpt.getopt_good_iff` — **and nothing else is accepted**: where every option takes a value, the
  command lines in which no letter is refused are the sequences of words.
-/

import Mathlib.Data.List.TakeWhile
import Mathlib.Tactic.ByContra

set_option relaxedAutoImplicit false
set_option autoImplicit false

namespace GetOpt

/-! ### The scan -/

/-- What one call of `getopt` returns: an option with its value, if it takes one, or `?`. -/
inductive Found
  | option (letter : UInt8) (optarg : Option (List UInt8))
  | bad
  deriving DecidableEq

/-- `-`. -/
def dash : UInt8 := 45

/-- `:`. -/
def colon : UInt8 := 58

/-- `;`. -/
def semicolon : UInt8 := 59

/-- What `optstring` says of a letter: no option, an option, or an option with a value, which has a
colon behind it. -/
def ofString (optstring : List UInt8) (c : UInt8) : Option Bool :=
  if c = colon ∨ c = semicolon then none
  else
    match optstring.dropWhile (· != c) with
    | [] => none
    | _ :: rest => some (rest.head? == some colon)

/-- What does not occur in `optstring` is no option, and neither is the colon. -/
theorem ofString_none {optstring : List UInt8} {c : UInt8} (h : c ∈ optstring → c = colon) :
    ofString optstring c = none := by
  rw [ofString]
  split
  · rfl
  · next hc =>
      have hnot : c ∉ optstring := fun hmem => hc (.inl (h hmem))
      have hdrop : optstring.dropWhile (· != c) = [] :=
        List.dropWhile_eq_nil_iff.2 fun b hb => bne_iff_ne.2 fun hbc => hnot (hbc ▸ hb)
      rw [hdrop]

/-- An argument that holds no options: one without a dash in front, or a dash alone. -/
def isOperand (arg : List UInt8) : Bool := arg.head? != some dash || arg == [dash]

/-- The letters of one argument: what is found in them, and the letter at the end that takes the
next argument as its value.  `takesValue` is `none` for a letter that is no option. -/
def cluster (takesValue : UInt8 → Option Bool) : List UInt8 → List Found × Option UInt8
  | [] => ([], none)
  | c :: rest =>
      match takesValue c with
      | none => (.bad :: (cluster takesValue rest).1, (cluster takesValue rest).2)
      | some false => (.option c none :: (cluster takesValue rest).1, (cluster takesValue rest).2)
      | some true => if rest = [] then ([], some c) else ([.option c (some rest)], none)

/-- The loop of calls of `getopt` up to its -1, behind the name of the program. -/
def getopt (takesValue : UInt8 → Option Bool) : List (List UInt8) → List Found
  | [] => []
  | arg :: rest =>
      if arg = [dash, dash] then []
      else if isOperand arg then getopt takesValue rest
      else
        match (cluster takesValue arg.tail).2 with
        | none => (cluster takesValue arg.tail).1 ++ getopt takesValue rest
        | some c =>
            (cluster takesValue arg.tail).1 ++
              match rest with
              | [] => [.bad]
              | value :: rest => .option c (some value) :: getopt takesValue rest

variable {takesValue : UInt8 → Option Bool}

@[simp] theorem getopt_nil : getopt takesValue [] = [] := rfl

theorem getopt_operand {arg : List UInt8} (rest : List (List UInt8)) (h : isOperand arg = true) :
    getopt takesValue (arg :: rest) = getopt takesValue rest := by
  have hne : arg ≠ [dash, dash] := by
    rintro rfl
    exact absurd h (by decide)
  rw [getopt, if_neg hne, if_pos h]

/-- An argument with a dash and a letter is no operand. -/
theorem not_isOperand (c : UInt8) (text : List UInt8) : isOperand (dash :: c :: text) = false := by
  simp [isOperand]

theorem exists_letter {arg : List UInt8} (h : ¬ isOperand arg = true) :
    ∃ c text, arg = dash :: c :: text := by
  cases arg with
  | nil => exact absurd rfl h
  | cons b text =>
      by_cases hb : b = dash
      · subst hb
        cases text with
        | nil => exact absurd rfl h
        | cons c text => exact ⟨c, text, rfl⟩
      · refine absurd ?_ h
        simp [isOperand, hb]

/-- An option with its value behind the letter. -/
theorem getopt_attached {c : UInt8} {value : List UInt8} (rest : List (List UInt8))
    (hc : takesValue c = some true) (hdash : c ≠ dash) (hv : value ≠ []) :
    getopt takesValue ((dash :: c :: value) :: rest) =
      .option c (some value) :: getopt takesValue rest := by
  have hcluster : cluster takesValue (c :: value) = ([.option c (some value)], none) := by
    rw [cluster, hc]
    simp only [if_neg hv]
  have hne : dash :: c :: value ≠ [dash, dash] := fun h => by
    rw [List.cons.injEq, List.cons.injEq] at h
    exact hdash h.2.1
  rw [getopt, if_neg hne, not_isOperand, if_neg Bool.false_ne_true, List.tail_cons, hcluster]
  rfl

/-- An option with its value in the next argument. -/
theorem getopt_separate {c : UInt8} {value : List UInt8} (rest : List (List UInt8))
    (hc : takesValue c = some true) (hdash : c ≠ dash) :
    getopt takesValue ([dash, c] :: value :: rest) =
      .option c (some value) :: getopt takesValue rest := by
  have hcluster : cluster takesValue [c] = ([], some c) := by
    rw [cluster, hc]
    rfl
  have hne : [dash, c] ≠ [dash, dash] := fun h => by
    rw [List.cons.injEq, List.cons.injEq] at h
    exact hdash h.2.1
  rw [getopt, if_neg hne, not_isOperand, if_neg Bool.false_ne_true, List.tail_cons, hcluster]
  rfl

/-! ### Words -/

/-- A part of a command line. -/
inductive Word
  | operand (text : List UInt8)
  | attached (letter : UInt8) (value : List UInt8)
  | separate (letter : UInt8) (value : List UInt8)
  deriving DecidableEq

namespace Word

/-- The arguments of a word. -/
def args : Word → List (List UInt8)
  | operand text => [text]
  | attached c value => [dash :: c :: value]
  | separate c value => [[dash, c], value]

/-- The option of a word. -/
def option : Word → List Found
  | operand _ => []
  | attached c value | separate c value => [.option c (some value)]

/-- A word that says what it looks like: an operand is none of the others, the letters are options
with a value, and a value behind its letter is not empty. -/
def Valid (takesValue : UInt8 → Option Bool) : Word → Prop
  | operand text => isOperand text = true
  | attached c value => takesValue c = some true ∧ c ≠ dash ∧ value ≠ []
  | separate c _ => takesValue c = some true ∧ c ≠ dash

end Word

/-- The end of the options: nothing more, or `--` and anything. -/
def Ended (rest : List (List UInt8)) : Prop :=
  rest = [] ∨ ∃ operands, rest = [dash, dash] :: operands

theorem getopt_ended {rest : List (List UInt8)} (h : Ended rest) : getopt takesValue rest = [] := by
  rcases h with rfl | ⟨operands, rfl⟩
  · rfl
  · rw [getopt, if_pos rfl]

/-- **What was written is found**, whatever the spelling and wherever the operands stand. -/
theorem getopt_words {words : List Word} {rest : List (List UInt8)}
    (hwords : ∀ w ∈ words, w.Valid takesValue) (hrest : Ended rest) :
    getopt takesValue (words.flatMap Word.args ++ rest) = words.flatMap Word.option := by
  induction words with
  | nil => exact getopt_ended hrest
  | cons w words ih =>
      have hw := hwords w List.mem_cons_self
      have ih := ih fun w hw => hwords w (List.mem_cons_of_mem _ hw)
      rw [List.flatMap_cons, List.flatMap_cons, List.append_assoc, ← ih]
      cases w with
      | operand text => exact getopt_operand _ hw
      | attached c value => exact getopt_attached _ hw.1 hw.2.1 hw.2.2
      | separate c value => exact getopt_separate _ hw.1 hw.2

/-- A command line that consists of words up to its end. -/
def WellFormed (takesValue : UInt8 → Option Bool) (argv : List (List UInt8)) : Prop :=
  ∃ (words : List Word) (rest : List (List UInt8)), (∀ w ∈ words, w.Valid takesValue) ∧
    Ended rest ∧ argv = words.flatMap Word.args ++ rest

/-- A cluster without a `?`, where every option takes a value, is one option. -/
theorem cluster_good {c : UInt8} {text : List UInt8} (hall : ∀ c, takesValue c ≠ some false)
    (h : .bad ∉ (cluster takesValue (c :: text)).1) :
    takesValue c = some true ∧
      cluster takesValue (c :: text) = if text = [] then ([], some c)
        else ([.option c (some text)], none) := by
  cases hc : takesValue c with
  | none =>
      rw [cluster, hc] at h
      exact absurd List.mem_cons_self h
  | some takes =>
      cases takes with
      | false => exact absurd hc (hall c)
      | true =>
          refine ⟨rfl, ?_⟩
          rw [cluster, hc]

/-- A command line that begins with a word is one if the rest is. -/
theorem WellFormed.cons {w : Word} {argv : List (List UInt8)} (hw : w.Valid takesValue)
    (h : WellFormed takesValue argv) : WellFormed takesValue (w.args ++ argv) := by
  obtain ⟨words, rest, hwords, hrest, rfl⟩ := h
  refine ⟨w :: words, rest, fun v hv => ?_, hrest, ?_⟩
  · rcases List.mem_cons.1 hv with rfl | hv
    · exact hw
    · exact hwords v hv
  · rw [List.flatMap_cons, List.append_assoc]

/-- **Nothing else is accepted**: where every option takes a value, a command line in which no
letter is refused is a sequence of words up to its end. -/
theorem wellFormed_of_getopt (hall : ∀ c, takesValue c ≠ some false)
    (hdash : takesValue dash = none) (argv : List (List UInt8))
    (h : .bad ∉ getopt takesValue argv) : WellFormed takesValue argv := by
  induction hlen : argv.length using Nat.strongRecOn generalizing argv with
  | ind n ih =>
      subst hlen
      cases argv with
      | nil => exact ⟨[], [], by simp, .inl rfl, rfl⟩
      | cons arg rest =>
          by_cases hend : arg = [dash, dash]
          · exact ⟨[], _, by simp, .inr ⟨rest, by rw [hend]⟩, rfl⟩
          by_cases hop : isOperand arg = true
          · rw [getopt_operand _ hop] at h
            have hrest := ih rest.length (Nat.lt_succ_self _) rest h rfl
            exact WellFormed.cons (w := .operand arg) hop hrest
          -- the argument is a dash and a letter
          obtain ⟨c, text, rfl⟩ := exists_letter hop
          have hfirst : .bad ∉ (cluster takesValue (c :: text)).1 := fun hbad => by
            rw [getopt, if_neg hend, if_neg hop, List.tail_cons] at h
            revert h
            split
            · exact fun h => h (List.mem_append_left _ hbad)
            · exact fun h => h (List.mem_append_left _ hbad)
          obtain ⟨hc, hcluster⟩ := cluster_good hall hfirst
          have hne : c ≠ dash := by
            rintro rfl
            rw [hdash] at hc
            cases hc
          by_cases ht : text = []
          · subst ht
            cases rest with
            | nil =>
                rw [getopt, if_neg hend, if_neg hop, List.tail_cons, hcluster] at h
                exact absurd List.mem_cons_self h
            | cons value rest =>
                rw [getopt_separate _ hc hne] at h
                have hrest := ih rest.length (by simp only [List.length_cons]; omega) rest
                  (fun hbad => h (List.mem_cons_of_mem _ hbad)) rfl
                exact WellFormed.cons (w := .separate c value) ⟨hc, hne⟩ hrest
          · rw [getopt_attached _ hc hne ht] at h
            have hrest := ih rest.length (Nat.lt_succ_self _) rest
              (fun hbad => h (List.mem_cons_of_mem _ hbad)) rfl
            exact WellFormed.cons (w := .attached c text) ⟨hc, hne, ht⟩ hrest

/-- **The command lines in which nothing is refused** are the sequences of words. -/
theorem getopt_good_iff (hall : ∀ c, takesValue c ≠ some false) (hdash : takesValue dash = none)
    (argv : List (List UInt8)) : .bad ∉ getopt takesValue argv ↔ WellFormed takesValue argv := by
  constructor
  · exact wellFormed_of_getopt hall hdash argv
  · rintro ⟨words, rest, hwords, hrest, rfl⟩ hbad
    rw [getopt_words hwords hrest] at hbad
    obtain ⟨w, -, hw⟩ := List.mem_flatMap.1 hbad
    cases w with
    | operand text => cases hw
    | attached c value => cases List.mem_singleton.1 hw
    | separate c value => cases List.mem_singleton.1 hw

end GetOpt
