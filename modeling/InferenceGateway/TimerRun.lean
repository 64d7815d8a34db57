/-
Runs of the timer list.

`WebServer::timer` adds a new node, `WebServer::adjust_timer` raises the expiry of a node and moves
it, `deal_timer` deletes a node, and `timer_handler` calls `tick`.  A session is the list together
with the timers that were added and not yet deleted or called back; the list does not know them.

* `Gateway.TimerOp`, `Gateway.TimerOp.run` — the four uses of the list;
* `Gateway.Session`, `Gateway.Session.Step` — a session and its steps;
* `Gateway.Session.Agrees` — what the list has to do with the timers;
* `Gateway.Session.timer_list` — **it agrees with them in every run, and no operation follows a
  bad pointer or runs for ever**.
-/

import InferenceGateway.TimerList
import Mathlib.Data.List.Pairwise
import Mathlib.Logic.Relation

set_option relaxedAutoImplicit false
set_option autoImplicit false

namespace Gateway

open LinkedList (insertBefore first last)

/-! ### Operations -/

/-- A use of the list: a new timer at the address `t`, a later expiry, a deletion, and `tick` at the
time `cur`. -/
inductive TimerOp
  | add (t : ℕ) (timer : UtilTimer)
  | adjust (t : ℕ) (expire : ℤ)
  | del (t : ℕ)
  | tick (cur : ℤ)
  deriving DecidableEq

namespace TimerOp

/-- The operation on the list, with the timers that are called back. -/
def run (l : TimerList) : TimerOp → Option (List (ℕ × UtilTimer) × TimerList)
  | add t timer => do
      let l ← (l.newTimer t timer).addTimer (some t)
      return ([], l)
  | adjust t expire => do
      let l ← l.setExpire t expire
      let l ← l.adjustTimer (some t)
      return ([], l)
  | del t => do
      let l ← l.delTimer (some t)
      return ([], l)
  | tick cur => l.tick cur

/-- The timers behind the operation. -/
def apply (members : ℕ → Option UtilTimer) : TimerOp → ℕ → Option UtilTimer
  | add t timer => Function.update members t (some timer)
  | adjust t expire =>
      Function.update members t ((members t).map fun v => { v with expire := expire })
  | del t => Function.update members t none
  | tick cur => fun a => (members a).filter fun v => cur < v.expire

end TimerOp

/-- The list with the timers that were added and not yet deleted or called back. -/
structure Session where
  list : TimerList := {}
  members : ℕ → Option UtilTimer := fun _ => none

namespace Session

/-- The program adds a node that `new` has just returned, raises the expiry of a member and deletes
a member.  The clock may show anything. -/
def Allows (s : Session) : TimerOp → Prop
  | .add t _ => s.list.mem t = none
  | .adjust t expire => ∃ v, s.members t = some v ∧ v.expire ≤ expire
  | .del t => (s.members t).isSome
  | .tick _ => True

/-- One operation. -/
inductive Step (s : Session) : Session → Prop
  | op {o : TimerOp} {fired : List (ℕ × UtilTimer)} {l : TimerList} (allowed : s.Allows o)
      (run : o.run s.list = some (fired, l)) : Step s { list := l, members := o.apply s.members }

/-- The states of the runs that begin with an empty list. -/
def Reachable (s : Session) : Prop := Relation.ReflTransGen Step {} s

/-! ### The invariant -/

/-- The heap holds a sorted list of the members. -/
structure Inv (s : Session) (ts : List (ℕ × UtilTimer)) : Prop where
  holds : s.list.Holds ts
  members : ∀ a v, s.members a = some v ↔ (a, v) ∈ ts
  sorted : ts.Pairwise fun x y => x.2.expire ≤ y.2.expire

variable {s : Session} {ts : List (ℕ × UtilTimer)}

/-- A node of the list has one content. -/
theorem Inv.split (h : s.Inv ts) {t : ℕ} {v : UtilTimer} (ht : s.members t = some v) :
    ∃ pre post, ts = pre ++ (t, v) :: post :=
  List.append_of_mem ((h.members t v).1 ht)

/-- A node that is not used is not in the list. -/
theorem Inv.not_mem (h : s.Inv ts) {t : ℕ} (ht : s.list.mem t = none) : t ∉ ts.map Prod.fst := by
  intro hmem
  obtain ⟨⟨a, v⟩, hav, rfl⟩ := List.mem_map.1 hmem
  obtain ⟨pre, post, rfl⟩ := List.append_of_mem hav
  rw [h.holds.get] at ht
  cases ht

/-- Putting a timer where it belongs keeps the list sorted. -/
theorem sorted_insert (hts : ts.Pairwise fun x y => x.2.expire ≤ y.2.expire) (t : ℕ)
    (v : UtilTimer) :
    (insertBefore (TimerList.later v) (t, v) ts).Pairwise fun x y => x.2.expire ≤ y.2.expire := by
  refine LinkedList.pairwise_insertBefore hts ?_ ?_ ?_
  · intro y _ hy
    simpa [TimerList.later] using hy
  · intro y _ hy
    exact le_of_lt (by simpa [TimerList.later] using hy)
  · intro y z hxy hyz
    exact le_trans hxy hyz

/-- The members behind an insertion. -/
theorem members_insert {members : ℕ → Option UtilTimer} {t : ℕ} {w : UtilTimer}
    {rest : List (ℕ × UtilTimer)} (hrest : ∀ a v, (a, v) ∈ rest ↔ a ≠ t ∧ members a = some v)
    (p : ℕ × UtilTimer → Bool) (a : ℕ) (v : UtilTimer) :
    Function.update members t (some w) a = some v ↔ (a, v) ∈ insertBefore p (t, w) rest := by
  rw [(LinkedList.perm_insertBefore p (t, w) rest).mem_iff, List.mem_cons, hrest]
  by_cases ha : a = t
  · subst ha
    simp [eq_comm]
  · simp [ha]

/-- The members other than one. -/
theorem Inv.rest {pre post : List (ℕ × UtilTimer)} {t : ℕ} {v : UtilTimer}
    (h : s.Inv (pre ++ (t, v) :: post)) (a : ℕ) (u : UtilTimer) :
    (a, u) ∈ pre ++ post ↔ a ≠ t ∧ s.members a = some u := by
  rw [h.members, List.perm_middle.mem_iff, List.mem_cons]
  have hnot := h.holds.not_mem.1
  constructor
  · intro hau
    refine ⟨?_, .inr hau⟩
    rintro rfl
    exact hnot (List.mem_map_of_mem hau)
  · rintro ⟨hne, heq | hau⟩
    · exact (hne (congrArg Prod.fst heq)).elim
    · exact hau

/-- `add`. -/
theorem Inv.add (h : s.Inv ts) {t : ℕ} (timer : UtilTimer) (ht : s.list.mem t = none) :
    ∃ l ts', (TimerOp.add t timer).run s.list = some ([], l) ∧
      Inv { list := l, members := (TimerOp.add t timer).apply s.members } ts' := by
  have hnot := h.not_mem ht
  have hnew : (s.list.newTimer t timer).Holds ts :=
    ⟨h.holds.seg.update hnot _, h.holds.head, h.holds.tail, h.holds.nodup,
      h.holds.bound.trans (Nat.le_succ _)⟩
  have hcell : (s.list.newTimer t timer).mem t = some ⟨timer, none, none⟩ :=
    Function.update_self t _ s.list.mem
  obtain ⟨l, hrun, -, hl⟩ :=
    TimerList.addTimer_holds hnew hnot (Nat.lt_succ_of_le h.holds.bound) hcell
  refine ⟨l, _, by simp [TimerOp.run, hrun], hl, members_insert ?_ _,
    sorted_insert h.sorted t timer⟩
  intro a v
  rw [h.members]
  refine ⟨fun hav => ⟨?_, hav⟩, fun hav => hav.2⟩
  rintro rfl
  exact hnot (List.mem_map_of_mem hav)

/-- `adjust`. -/
theorem Inv.adjust (h : s.Inv ts) {t : ℕ} {v : UtilTimer} {expire : ℤ}
    (ht : s.members t = some v) (hle : v.expire ≤ expire) :
    ∃ l ts', (TimerOp.adjust t expire).run s.list = some ([], l) ∧
      Inv { list := l, members := (TimerOp.adjust t expire).apply s.members } ts' := by
  obtain ⟨pre, post, rfl⟩ := h.split ht
  obtain ⟨hpre, hpost, hmid⟩ := List.pairwise_append.1 h.sorted
  have hfront : ∀ x ∈ pre, TimerList.later { v with expire := expire } x = false := by
    intro x hx
    have hxv := hmid x hx (t, v) (by simp)
    simpa [TimerList.later] using hxv.trans hle
  obtain ⟨l₁, hrun₁, -, hl₁⟩ := TimerList.setExpire_holds h.holds expire
  obtain ⟨l, hrun, -, hl⟩ := TimerList.adjustTimer_holds hl₁ hfront
  rw [← LinkedList.insertBefore_append hfront] at hl
  have hsorted : (pre ++ post).Pairwise fun x y => x.2.expire ≤ y.2.expire := by
    refine List.pairwise_append.2 ⟨hpre, (List.pairwise_cons.1 hpost).2, ?_⟩
    intro x hx y hy
    exact hmid x hx y (List.mem_cons_of_mem _ hy)
  refine ⟨l, _, by simp [TimerOp.run, hrun₁, hrun], hl, ?_, sorted_insert hsorted t _⟩
  intro a u
  rw [← members_insert h.rest, TimerOp.apply, ht]
  rfl

/-- `del`. -/
theorem Inv.del (h : s.Inv ts) {t : ℕ} {v : UtilTimer} (ht : s.members t = some v) :
    ∃ l ts', (TimerOp.del t).run s.list = some ([], l) ∧
      Inv { list := l, members := (TimerOp.del t).apply s.members } ts' := by
  obtain ⟨pre, post, rfl⟩ := h.split ht
  obtain ⟨l, hrun, -, hl⟩ := TimerList.delTimer_holds h.holds
  refine ⟨l, _, by simp [TimerOp.run, hrun], hl, ?_, ?_⟩
  · intro a u
    rw [h.rest]
    by_cases ha : a = t
    · simp [TimerOp.apply, ha]
    · simp [TimerOp.apply, ha]
  · exact h.sorted.sublist (List.Sublist.append_left (List.sublist_cons_self _ _) _)

/-- The due timers come first. -/
theorem Inv.due_first (h : s.Inv ts) (cur : ℤ) :
    ts.Pairwise fun x y => decide (y.2.expire ≤ cur) = true → decide (x.2.expire ≤ cur) = true := by
  refine h.sorted.imp ?_
  intro x y hxy hy
  simp only [decide_eq_true_eq] at hy ⊢
  exact hxy.trans hy

/-- `tick` calls back the due timers and keeps the others. -/
theorem Inv.tick (h : s.Inv ts) (cur : ℤ) :
    ∃ l, (TimerOp.tick cur).run s.list
        = some (ts.filter fun x => decide (x.2.expire ≤ cur), l) ∧
      Inv { list := l, members := (TimerOp.tick cur).apply s.members }
        (ts.filter fun x => !decide (x.2.expire ≤ cur)) := by
  have hdue := h.due_first cur
  obtain ⟨l, hrun, -, hl⟩ := TimerList.tick_holds h.holds cur
  rw [LinkedList.takeWhile_eq_filter hdue] at hrun
  rw [LinkedList.dropWhile_eq_filter hdue] at hl
  refine ⟨l, hrun, hl, ?_, h.sorted.filter _⟩
  intro a v
  rw [List.mem_filter, ← h.members]
  simp [TimerOp.apply, Option.filter_eq_some_iff]

/-- **Every allowed operation returns**, and the list is as it should be afterwards. -/
theorem Inv.op (h : s.Inv ts) {o : TimerOp} (ho : s.Allows o) :
    ∃ fired l ts', o.run s.list = some (fired, l) ∧
      Inv { list := l, members := o.apply s.members } ts' := by
  cases o with
  | add t timer => exact ⟨[], h.add timer ho⟩
  | adjust t expire =>
      obtain ⟨v, hv, hle⟩ := ho
      exact ⟨[], h.adjust hv hle⟩
  | del t =>
      obtain ⟨v, hv⟩ := Option.isSome_iff_exists.1 ho
      exact ⟨[], h.del hv⟩
  | tick cur =>
      obtain ⟨l, hl⟩ := h.tick cur
      exact ⟨_, l, _, hl⟩

theorem Inv.empty : Inv {} [] where
  holds := ⟨trivial, rfl, fun hnil => (hnil rfl).elim, List.nodup_nil, Nat.zero_le _⟩
  members a v := by simp
  sorted := .nil

theorem Inv.step (h : s.Inv ts) {s' : Session} (hs : s.Step s') : ∃ ts', s'.Inv ts' := by
  cases hs with
  | op ho hrun =>
      obtain ⟨fired, l, ts', hrun', hl⟩ := h.op ho
      rw [hrun] at hrun'
      cases hrun'
      exact ⟨ts', hl⟩

theorem Reachable.inv (h : s.Reachable) : ∃ ts, s.Inv ts := by
  induction h with
  | refl => exact ⟨[], Inv.empty⟩
  | tail _ hs ih =>
      obtain ⟨ts, hts⟩ := ih
      exact hts.step hs

/-! ### What holds in every run -/

/-- The nodes reached from `head` are the members, each once and in the order of their expiry;
`prev` is the inverse of `next`, nothing comes in front of the head and behind the last node, and
`tail` is the last node. -/
structure Agrees (s : Session) (ids : List ℕ) : Prop where
  nodes : s.list.nodes = some ids
  nodup : ids.Nodup
  members : ∀ a, a ∈ ids ↔ (s.members a).isSome
  contents : ∀ a v, s.members a = some v → (s.list.mem a).map LinkedList.Cell.val = some v
  sorted : ids.Pairwise fun a b => ∀ v w, s.members a = some v → s.members b = some w →
    v.expire ≤ w.expire
  inverse : ∀ a ∈ ids, ∀ b, s.list.next a = some b ↔ b ∈ ids ∧ s.list.prev b = some a
  head : ∀ a, s.list.head = some a → s.list.prev a = none
  last : ∀ a, ids.getLast? = some a → s.list.next a = none ∧ s.list.tail = some a

theorem Inv.inverse (h : s.Inv ts) {a : ℕ} (ha : a ∈ ts.map Prod.fst) (b : ℕ) :
    s.list.next a = some b ↔ b ∈ ts.map Prod.fst ∧ s.list.prev b = some a := by
  constructor
  · intro hnext
    obtain ⟨⟨a, v⟩, hav, rfl⟩ := List.mem_map.1 ha
    obtain ⟨pre, post, rfl⟩ := List.append_of_mem hav
    rw [h.holds.next] at hnext
    obtain ⟨⟨b, w⟩, post, rfl⟩ : ∃ x r, post = x :: r := by
      cases post with
      | nil => cases hnext
      | cons x r => exact ⟨x, r, rfl⟩
    cases hnext
    have hb : s.list.Holds ((pre ++ [(a, v)]) ++ (b, w) :: post) := by simpa using h.holds
    exact ⟨by simp, by rw [hb.prev, LinkedList.last_append_cons]⟩
  · rintro ⟨hb, hprev⟩
    obtain ⟨⟨b, w⟩, hbw, rfl⟩ := List.mem_map.1 hb
    obtain ⟨pre, post, rfl⟩ := List.append_of_mem hbw
    rw [h.holds.prev] at hprev
    obtain ⟨r, ⟨c, v⟩, rfl⟩ : ∃ r x, pre = r ++ [x] := by
      rcases List.eq_nil_or_concat pre with rfl | ⟨r, x, rfl⟩
      · cases hprev
      · exact ⟨r, x, List.concat_eq_append⟩
    rw [LinkedList.last_append_cons] at hprev
    obtain rfl : c = a := Option.some.inj hprev
    have hc : s.list.Holds (r ++ (c, v) :: (b, w) :: post) := by simpa using h.holds
    rw [hc.next, LinkedList.first_cons]

theorem Inv.agrees (h : s.Inv ts) : s.Agrees (ts.map Prod.fst) where
  nodes := h.holds.nodes
  nodup := h.holds.nodup
  members a := by
    rw [Option.isSome_iff_exists]
    constructor
    · intro ha
      obtain ⟨⟨a, v⟩, hav, rfl⟩ := List.mem_map.1 ha
      exact ⟨v, (h.members a v).2 hav⟩
    · rintro ⟨v, hv⟩
      exact List.mem_map_of_mem ((h.members a v).1 hv)
  contents a v hv := by
    obtain ⟨pre, post, rfl⟩ := h.split hv
    rw [h.holds.get]
    rfl
  sorted := by
    refine List.pairwise_map.2 (h.sorted.imp_of_mem ?_)
    intro x y hx hy hxy v w hv hw
    rw [(h.members x.1 x.2).2 hx] at hv
    rw [(h.members y.1 y.2).2 hy] at hw
    cases hv
    cases hw
    exact hxy
  inverse a ha b := h.inverse ha b
  head a ha := by
    rw [h.holds.head] at ha
    cases ts with
    | nil => cases ha
    | cons x ts =>
        cases ha
        have hs : s.list.Holds ([] ++ (x.1, x.2) :: ts) := h.holds
        exact hs.prev
  last a ha := by
    rcases List.eq_nil_or_concat ts with rfl | ⟨r, ⟨b, v⟩, rfl⟩
    · cases ha
    · rw [List.concat_eq_append] at ha h
      have hb : b = a := by simpa using ha
      subst hb
      exact ⟨h.holds.next, (h.holds.tail (by simp)).trans (LinkedList.last_append_cons b v r)⟩

/-- **The timer list in every run.**  It agrees with the timers that were added and not yet deleted
or called back, every operation returns, and `tick` calls back exactly the timers that are due, each
once, and keeps the others. -/
theorem timer_list (h : s.Reachable) :
    (∃ ids, s.Agrees ids) ∧
    (∀ o, s.Allows o → ∃ fired l, o.run s.list = some (fired, l) ∧
      s.Step { list := l, members := o.apply s.members }) ∧
    ∀ cur, ∃ fired l rest, s.list.tick cur = some (fired, l) ∧ (fired.map Prod.fst).Nodup ∧
      (∀ a v, (a, v) ∈ fired ↔ s.members a = some v ∧ v.expire ≤ cur) ∧ l.nodes = some rest ∧
      ∀ a, a ∈ rest ↔ ∃ v, s.members a = some v ∧ cur < v.expire := by
  obtain ⟨ts, hts⟩ := h.inv
  refine ⟨⟨_, hts.agrees⟩, ?_, ?_⟩
  · intro o ho
    obtain ⟨fired, l, -, hrun, -⟩ := hts.op ho
    exact ⟨fired, l, hrun, .op ho hrun⟩
  · intro cur
    obtain ⟨l, hrun, hl⟩ := hts.tick cur
    refine ⟨_, l, _, hrun, ?_, ?_, hl.holds.nodes, ?_⟩
    · exact hts.holds.nodup.sublist (List.filter_sublist.map _)
    · intro a v
      rw [List.mem_filter, ← hts.members]
      simp
    · intro a
      rw [hl.agrees.members, Option.isSome_iff_exists]
      simp [TimerOp.apply, Option.filter_eq_some_iff]

/-- Three connections; the first one is active again, and the second one becomes idle. -/
theorem timer_list_three : ∃ s : Session, s.Reachable ∧
    s.members 7 = some ⟨25, 4⟩ ∧ s.members 9 = some ⟨18, 6⟩ ∧ s.members 8 = none ∧
    (∃ ids, s.Agrees ids) ∧
    (∀ o, s.Allows o → ∃ fired l, o.run s.list = some (fired, l) ∧
      s.Step { list := l, members := o.apply s.members }) ∧
    ∀ cur, ∃ fired l rest, s.list.tick cur = some (fired, l) ∧ (fired.map Prod.fst).Nodup ∧
      (∀ a v, (a, v) ∈ fired ↔ s.members a = some v ∧ v.expire ≤ cur) ∧ l.nodes = some rest ∧
      ∀ a, a ∈ rest ↔ ∃ v, s.members a = some v ∧ cur < v.expire := by
  have h₁ : Reachable _ := .single (.op (o := .add 7 ⟨15, 4⟩) rfl rfl)
  have h₂ : Reachable _ := h₁.tail (.op (o := .add 8 ⟨16, 5⟩) rfl rfl)
  have h₃ : Reachable _ := h₂.tail (.op (o := .add 9 ⟨18, 6⟩) rfl rfl)
  have h₄ : Reachable _ := h₃.tail (.op (o := .adjust 7 25) ⟨⟨15, 4⟩, rfl, by decide⟩ rfl)
  have h₅ : Reachable _ := h₄.tail (.op (o := .tick 17) trivial rfl)
  exact ⟨_, h₅, rfl, rfl, rfl, timer_list h₅⟩

end Session

end Gateway
