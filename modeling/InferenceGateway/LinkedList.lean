/-
**Doubly linked lists in a heap.**

A heap maps addresses to nodes with a value and two pointers.  `LinkedList.Seg h p l n` says that
the nodes of the list `l` stand in the heap one behind the other, with `p` in front of the first and
`n` behind the last.  A segment splits where its list does, and a store to an address that is not in
it does not matter; with these two rules a change of the list is checked at the few nodes that it
touches.

Main definitions:

* `LinkedList.Cell`, `LinkedList.Heap` — nodes and heaps;
* `LinkedList.Seg` — a piece of a list in a heap;
* `LinkedList.insertBefore` — insertion in front of the first element with a property.

Main results:

* `LinkedList.seg_append` — **the splitting rule**;
* `LinkedList.Seg.update` — **the frame rule**;
* `LinkedList.seg_remove`, `LinkedList.seg_insert`, `LinkedList.seg_set` — **taking a node out,
  putting one in** and changing its value;
* `LinkedList.pairwise_insertBefore` — insertion keeps a list sorted;
* `LinkedList.takeWhile_eq_filter`, `LinkedList.dropWhile_eq_filter` — a sorted list is cut where a
  property ends.
-/

import Mathlib.Data.List.Basic
import Mathlib.Data.List.Nodup
import Mathlib.Data.List.Perm.Basic
import Mathlib.Logic.Function.Basic
import Mathlib.Tactic.Common

set_option relaxedAutoImplicit false
set_option autoImplicit false

namespace LinkedList

variable {α ν : Type*}

/-! ### Nodes and segments -/

/-- A node of a doubly linked list. -/
structure Cell (α ν : Type*) where
  val : ν
  prev : Option α := none
  next : Option α := none

/-- What the addresses hold. -/
abbrev Heap (α ν : Type*) := α → Option (Cell α ν)

/-- The address of the first node. -/
def first (l : List (α × ν)) : Option α := l.head?.map Prod.fst

/-- The address of the last node. -/
def last (l : List (α × ν)) : Option α := l.getLast?.map Prod.fst

@[simp] theorem first_nil : first ([] : List (α × ν)) = none := rfl

@[simp] theorem first_cons (a : α) (v : ν) (l : List (α × ν)) : first ((a, v) :: l) = some a := rfl

@[simp] theorem last_nil : last ([] : List (α × ν)) = none := rfl

@[simp] theorem last_append_cons (a : α) (v : ν) (l : List (α × ν)) :
    last (l ++ [(a, v)]) = some a := by simp [last]

theorem last_cons (a : α) (v : ν) (l : List (α × ν)) :
    last ((a, v) :: l) = (last l).or (some a) := by
  rw [last, last, List.getLast?_cons]
  cases l.getLast? <;> rfl

theorem last_append (l r : List (α × ν)) : last (l ++ r) = (last r).or (last l) := by
  rw [last, last, last, List.getLast?_append]
  cases r.getLast? <;> rfl

/-- The nodes of the list stand one behind the other, with `p` in front and `n` behind. -/
def Seg (h : Heap α ν) : Option α → List (α × ν) → Option α → Prop
  | _, [], _ => True
  | p, (a, v) :: l, n => h a = some ⟨v, p, (first l).or n⟩ ∧ Seg h (some a) l n

theorem first_append (l r : List (α × ν)) : first (l ++ r) = (first l).or (first r) := by
  cases l with
  | nil => rfl
  | cons x l => rfl

/-- **The splitting rule.** -/
theorem seg_append {h : Heap α ν} {p n : Option α} {l r : List (α × ν)} :
    Seg h p (l ++ r) n ↔ Seg h p l ((first r).or n) ∧ Seg h ((last l).or p) r n := by
  induction l generalizing p with
  | nil => simp [Seg]
  | cons x l ih =>
      obtain ⟨a, v⟩ := x
      rw [List.cons_append, Seg, Seg, ih, first_append, last_cons, Option.or_assoc, Option.or_assoc]
      simp [and_assoc]

/-- A segment depends on its own nodes only. -/
theorem Seg.congr {h h' : Heap α ν} {p n : Option α} {l : List (α × ν)} (hs : Seg h p l n)
    (hh : ∀ a ∈ l.map Prod.fst, h' a = h a) : Seg h' p l n := by
  induction l generalizing p with
  | nil => trivial
  | cons x l ih =>
      obtain ⟨a, v⟩ := x
      refine ⟨(hh a (by simp)).trans hs.1, ih hs.2 ?_⟩
      intro b hb
      exact hh b (List.mem_cons_of_mem _ hb)

/-- **The frame rule.** -/
theorem Seg.update [DecidableEq α] {h : Heap α ν} {p n : Option α} {l : List (α × ν)}
    (hs : Seg h p l n) {a : α} (ha : a ∉ l.map Prod.fst) (c : Option (Cell α ν)) :
    Seg (Function.update h a c) p l n := by
  refine hs.congr ?_
  intro b hb
  have hne : b ≠ a := by
    rintro rfl
    exact ha hb
  exact Function.update_of_ne hne _ _

/-- The node of an element. -/
theorem Seg.get {h : Heap α ν} {p n : Option α} {l r : List (α × ν)} {a : α} {v : ν}
    (hs : Seg h p (l ++ (a, v) :: r) n) :
    h a = some ⟨v, (last l).or p, (first r).or n⟩ :=
  (seg_append.1 hs).2.1

theorem mem_of_first {a : α} {l : List (α × ν)} (ha : a ∈ first l) : a ∈ l.map Prod.fst := by
  cases l with
  | nil => cases ha
  | cons x l =>
      cases ha
      simp

theorem mem_of_last {a : α} {l : List (α × ν)} (ha : a ∈ last l) : a ∈ l.map Prod.fst := by
  obtain ⟨x, hx, rfl⟩ := Option.map_eq_some_iff.1 ha
  exact List.mem_map_of_mem (List.mem_of_getLast? hx)

/-! ### Changing the pointers -/

section Pointers

variable [DecidableEq α] {h : Heap α ν} {p n : Option α} {l pre post : List (α × ν)} {a : α} {v : ν}

/-- `q->next = n`, if `q` points to a node. -/
def setNext (h : Heap α ν) (q n : Option α) : Heap α ν :=
  match q with
  | none => h
  | some a => Function.update h a ((h a).map fun c => { c with next := n })

/-- `q->prev = p`, if `q` points to a node. -/
def setPrev (h : Heap α ν) (q p : Option α) : Heap α ν :=
  match q with
  | none => h
  | some a => Function.update h a ((h a).map fun c => { c with prev := p })

theorem setNext_of_ne {q : Option α} (hq : q ≠ some a) (n : Option α) :
    setNext h q n a = h a := by
  cases q with
  | none => rfl
  | some b =>
      have hne : a ≠ b := by
        rintro rfl
        exact hq rfl
      exact Function.update_of_ne hne _ _

theorem setPrev_of_ne {q : Option α} (hq : q ≠ some a) (p : Option α) :
    setPrev h q p a = h a := by
  cases q with
  | none => rfl
  | some b =>
      have hne : a ≠ b := by
        rintro rfl
        exact hq rfl
      exact Function.update_of_ne hne _ _

theorem setNext_self {c : Cell α ν} (hc : h a = some c) (n : Option α) :
    setNext h (some a) n a = some { c with next := n } := by
  rw [setNext, Function.update_self, hc]
  rfl

/-- A store to another node. -/
theorem setPrev_update {q : Option α} (hq : q ≠ some a) (c : Option (Cell α ν)) :
    setPrev (Function.update h a c) q p = Function.update (setPrev h q p) a c := by
  cases q with
  | none => rfl
  | some b =>
      have hne : b ≠ a := by
        rintro rfl
        exact hq rfl
      rw [setPrev, setPrev, Function.update_of_ne hne, Function.update_comm hne]

/-- Both pointers of one node. -/
theorem setPrev_setNext {c : Cell α ν} (hc : h a = some c) :
    setPrev (setNext h (some a) n) (some a) p = Function.update h a (some ⟨c.val, p, n⟩) := by
  simp [setPrev, setNext, hc]

theorem Seg.setNext_frame {q : Option α} (hs : Seg h p l n)
    (hq : ∀ a ∈ q, a ∉ l.map Prod.fst) (n' : Option α) : Seg (setNext h q n') p l n := by
  cases q with
  | none => exact hs
  | some a => exact hs.update (hq a rfl) _

theorem Seg.setPrev_frame {q : Option α} (hs : Seg h p l n)
    (hq : ∀ a ∈ q, a ∉ l.map Prod.fst) (p' : Option α) : Seg (setPrev h q p') p l n := by
  cases q with
  | none => exact hs
  | some a => exact hs.update (hq a rfl) _

/-- A store to the pointer behind the last node. -/
theorem Seg.setNext (hs : Seg h p l n) (hl : (l.map Prod.fst).Nodup) (n' : Option α) :
    Seg (setNext h (last l) n') p l n' := by
  rcases List.eq_nil_or_concat l with rfl | ⟨l, ⟨a, v⟩, rfl⟩
  · trivial
  · rw [List.concat_eq_append] at hs hl ⊢
    have ha : a ∉ l.map Prod.fst := by
      intro ha
      rw [List.map_append, List.nodup_append] at hl
      exact hl.2.2 a ha a (by simp) rfl
    obtain ⟨hpre, -⟩ := seg_append.1 hs
    rw [last_append_cons, LinkedList.setNext, hs.get]
    refine seg_append.2 ⟨hpre.update ha _, ?_, trivial⟩
    simp

/-- A store to the pointer in front of the first node. -/
theorem Seg.setPrev (hs : Seg h p l n) (hl : (l.map Prod.fst).Nodup) (p' : Option α) :
    Seg (setPrev h (first l) p') p' l n := by
  cases l with
  | nil => trivial
  | cons x l =>
      obtain ⟨a, v⟩ := x
      have ha : a ∉ l.map Prod.fst := (List.nodup_cons.1 hl).1
      rw [first_cons, LinkedList.setPrev, hs.1]
      exact ⟨Function.update_self .., hs.2.update ha _⟩

/-- Two segments that share no address are linked with each other. -/
theorem seg_link {b c : Option α} (hpre : Seg h none pre b) (hpost : Seg h c post none)
    (hl : ((pre ++ post).map Prod.fst).Nodup) (b' c' : Option α) :
    Seg (setPrev (setNext h (last pre) b') (first post) c') none pre b' ∧
      Seg (setPrev (setNext h (last pre) b') (first post) c') c' post none := by
  rw [List.map_append, List.nodup_append] at hl
  obtain ⟨hlpre, hlpost, hdisj⟩ := hl
  constructor
  · refine (hpre.setNext hlpre b').setPrev_frame ?_ c'
    intro a ha ha'
    exact hdisj a ha' a (mem_of_first ha) rfl
  · refine (hpost.setNext_frame (q := last pre) ?_ b').setPrev hlpost c'
    intro a ha ha'
    exact hdisj a (mem_of_last ha) a ha' rfl

/-- **Taking a node out.** -/
theorem seg_remove (hs : Seg h none (pre ++ (a, v) :: post) none)
    (hl : ((pre ++ post).map Prod.fst).Nodup) :
    Seg (setPrev (setNext h (last pre) (first post)) (first post) (last pre)) none (pre ++ post)
      none := by
  obtain ⟨hpre, -, hpost⟩ := seg_append.1 hs
  obtain ⟨h₁, h₂⟩ := seg_link hpre hpost hl (first post) (last pre)
  exact seg_append.2 ⟨by rwa [Option.or_none], by rwa [Option.or_none]⟩

/-- **Putting a node in.** -/
theorem seg_insert (hs : Seg h none (pre ++ post) none) (hl : ((pre ++ post).map Prod.fst).Nodup)
    (ha : a ∉ (pre ++ post).map Prod.fst) :
    Seg (Function.update (setPrev (setNext h (last pre) (some a)) (first post) (some a)) a
      (some ⟨v, last pre, first post⟩)) none (pre ++ (a, v) :: post) none := by
  obtain ⟨hpre, hpost⟩ := seg_append.1 hs
  obtain ⟨h₁, h₂⟩ := seg_link hpre hpost hl (some a) (some a)
  rw [List.map_append, List.mem_append, not_or] at ha
  refine seg_append.2 ⟨h₁.update ha.1 _, ?_, h₂.update ha.2 _⟩
  simp

/-- Another value in a node. -/
theorem seg_set (hs : Seg h p (pre ++ (a, v) :: post) n)
    (hl : ((pre ++ (a, v) :: post).map Prod.fst).Nodup) (v' : ν) :
    Seg (Function.update h a (some ⟨v', (last pre).or p, (first post).or n⟩)) p
      (pre ++ (a, v') :: post) n := by
  obtain ⟨hpre, -, hpost⟩ := seg_append.1 hs
  rw [List.map_append, List.map_cons, List.nodup_append] at hl
  obtain ⟨-, hlpost, hdisj⟩ := hl
  have ha : a ∉ pre.map Prod.fst := by
    intro ha
    exact hdisj a ha a (by simp) rfl
  refine seg_append.2 ⟨hpre.update ha _, Function.update_self .., hpost.update ?_ _⟩
  exact (List.nodup_cons.1 hlpost).1

end Pointers

/-! ### Sorted insertion -/

/-- `x`, in front of the first element with the property `p`. -/
def insertBefore {β : Type*} (p : β → Bool) (x : β) : List β → List β
  | [] => [x]
  | y :: l => if p y then x :: y :: l else y :: insertBefore p x l

theorem perm_insertBefore {β : Type*} (p : β → Bool) (x : β) (l : List β) :
    (insertBefore p x l).Perm (x :: l) := by
  induction l with
  | nil => exact .refl _
  | cons y l ih =>
      rw [insertBefore]
      split
      · exact .refl _
      · exact (ih.cons y).trans (.swap x y l)

theorem insertBefore_append {β : Type*} {p : β → Bool} {x : β} {l r : List β}
    (hl : ∀ y ∈ l, p y = false) : insertBefore p x (l ++ r) = l ++ insertBefore p x r := by
  induction l with
  | nil => rfl
  | cons y l ih =>
      rw [List.cons_append, insertBefore, hl y (by simp), ih fun z hz => hl z (by simp [hz])]
      rfl

/-- **Insertion keeps a list sorted**: behind what is no greater, in front of what is no smaller. -/
theorem pairwise_insertBefore {β : Type*} {r : β → β → Prop} {p : β → Bool} {x : β} {l : List β}
    (hl : l.Pairwise r) (hfront : ∀ y ∈ l, p y = false → r y x)
    (hback : ∀ y ∈ l, p y = true → r x y) (htrans : ∀ y z, r x y → r y z → r x z) :
    (insertBefore p x l).Pairwise r := by
  induction l with
  | nil => exact List.pairwise_singleton r x
  | cons y l ih =>
      obtain ⟨hy, hl⟩ := List.pairwise_cons.1 hl
      rw [insertBefore]
      cases hp : p y with
      | true =>
          have hxy := hback y (by simp) hp
          refine List.pairwise_cons.2 ⟨?_, List.pairwise_cons.2 ⟨hy, hl⟩⟩
          intro z hz
          rcases List.mem_cons.1 hz with rfl | hz
          · exact hxy
          · exact htrans y z hxy (hy z hz)
      | false =>
          refine List.pairwise_cons.2 ⟨?_, ih hl (fun z hz => hfront z (by simp [hz]))
            fun z hz => hback z (by simp [hz])⟩
          intro z hz
          rcases List.mem_cons.1 ((perm_insertBefore p x l).mem_iff.1 hz) with rfl | hz
          · exact hfront y (by simp) hp
          · exact hy z hz

/-! ### Sorted lists and prefixes -/

section Prefix

variable {β : Type*} {p : β → Bool} {l : List β}

/-- In a list where nothing with the property comes behind something without it, the longest prefix
with the property has all that have it. -/
theorem takeWhile_eq_filter (hl : l.Pairwise fun x y => p y = true → p x = true) :
    l.takeWhile p = l.filter p := by
  induction l with
  | nil => rfl
  | cons x l ih =>
      obtain ⟨hx, hl⟩ := List.pairwise_cons.1 hl
      cases hp : p x with
      | true => rw [List.takeWhile_cons_of_pos hp, List.filter_cons_of_pos hp, ih hl]
      | false =>
          have hnone : l.filter p = [] := by
            refine List.filter_eq_nil_iff.2 ?_
            intro y hy hpy
            rw [hx y hy hpy] at hp
            cases hp
          rw [List.takeWhile_cons_of_neg (by simp [hp]), List.filter_cons_of_neg (by simp [hp]),
            hnone]

/-- The rest has all that do not. -/
theorem dropWhile_eq_filter (hl : l.Pairwise fun x y => p y = true → p x = true) :
    l.dropWhile p = l.filter fun x => !p x := by
  induction l with
  | nil => rfl
  | cons x l ih =>
      obtain ⟨hx, hl⟩ := List.pairwise_cons.1 hl
      cases hp : p x with
      | true =>
          rw [List.dropWhile_cons_of_pos hp, List.filter_cons_of_neg (by simp [hp]), ih hl]
      | false =>
          have hall : (x :: l).filter (fun x => !p x) = x :: l := by
            refine List.filter_eq_self.2 ?_
            intro y hy
            rcases List.mem_cons.1 hy with rfl | hy
            · rw [hp]
              rfl
            · cases hpy : p y with
              | false => rfl
              | true =>
                  rw [hx y hy hpy] at hp
                  cases hp
          rw [List.dropWhile_cons_of_neg (by simp [hp]), hall]

end Prefix

end LinkedList
