/-
The list of idle timers.

`sort_timer_lst` is a doubly linked list that is kept sorted by hand, with code of its own for the
head, the tail and the inside.  The model has the nodes in a heap and follows the pointers as the
code does; a pointer that is null or points to a deleted node makes an operation undefined, and so
does a loop that runs in circles.

* `Gateway.TimerList`, `Gateway.TimerList.addTimer`, `Gateway.TimerList.adjustTimer`,
  `Gateway.TimerList.delTimer`, `Gateway.TimerList.tick` — the class and its operations;
* `Gateway.TimerList.Holds` — the heap holds a given list;
* `Gateway.TimerList.addTimer_holds`, `Gateway.TimerList.adjustTimer_holds`,
  `Gateway.TimerList.delTimer_holds`, `Gateway.TimerList.tick_holds` — **what the operations do to
  that list**.
-/

import InferenceGateway.LinkedList
import Mathlib.Algebra.Order.Ring.Int

set_option relaxedAutoImplicit false
set_option autoImplicit false

namespace Gateway

open LinkedList (Cell Heap Seg first last insertBefore first_nil first_cons last_append_cons)

/-! ### The class -/

/-- The fields of a `util_timer` other than its two pointers.  `sockfd` is that of `user_data`, with
which `cb_func` is called. -/
structure UtilTimer where
  expire : ℤ
  sockfd : ℕ
  deriving DecidableEq

/-- `sort_timer_lst` with the nodes in the heap.  `made` counts the allocations: no list is
longer. -/
structure TimerList where
  mem : Heap ℕ UtilTimer := fun _ => none
  made : ℕ := 0
  head : Option ℕ := none
  tail : Option ℕ := none

namespace TimerList

/-- The node that a pointer points to. -/
def deref (l : TimerList) (p : Option ℕ) : Option (Cell ℕ UtilTimer) := p.bind l.mem

/-- `p->next = n`. -/
def setNext (l : TimerList) (p n : Option ℕ) : Option TimerList := do
  let _ ← l.deref p
  return { l with mem := LinkedList.setNext l.mem p n }

/-- `p->prev = q`. -/
def setPrev (l : TimerList) (p q : Option ℕ) : Option TimerList := do
  let _ ← l.deref p
  return { l with mem := LinkedList.setPrev l.mem p q }

/-- `timer->expire = e`. -/
def setExpire (l : TimerList) (timer : ℕ) (e : ℤ) : Option TimerList := do
  let c ← l.mem timer
  return { l with mem :=
    Function.update l.mem timer (some { c with val := { c.val with expire := e } }) }

/-- `new util_timer` at the address `t`, with the fields that `WebServer::timer` sets. -/
def newTimer (l : TimerList) (t : ℕ) (timer : UtilTimer) : TimerList :=
  { l with mem := Function.update l.mem t (some { val := timer }), made := l.made + 1 }

/-- `delete p`. -/
def free (l : TimerList) (p : ℕ) : TimerList := { l with mem := Function.update l.mem p none }

/-- The loop of the private `add_timer` and what follows it, cut off after `n` passes. -/
def insertLoop (timer : ℕ) : ℕ → ℕ → Option ℕ → TimerList → Option TimerList
  | _, prev, none, l => do
      let l ← l.setNext (some prev) (some timer)
      let l ← l.setNext (some timer) none
      let l ← l.setPrev (some timer) (some prev)
      return { l with tail := some timer }
  | 0, _, some _, _ => none
  | n + 1, prev, some tmp, l => do
      let t ← l.mem timer
      let c ← l.mem tmp
      if t.val.expire < c.val.expire then do
        let l ← l.setNext (some prev) (some timer)
        let l ← l.setPrev (some tmp) (some timer)
        let l ← l.setNext (some timer) (some tmp)
        l.setPrev (some timer) (some prev)
      else insertLoop timer n tmp c.next l

/-- The private `add_timer`.  Each pass goes to another node, so there are no more passes than
nodes unless the list is circular. -/
def insertFrom (l : TimerList) (timer : ℕ) (lstHead : Option ℕ) : Option TimerList := do
  let prev ← lstHead
  let c ← l.mem prev
  insertLoop timer l.made prev c.next l

/-- `add_timer`. -/
def addTimer (l : TimerList) (timer : Option ℕ) : Option TimerList :=
  match timer with
  | none => some l
  | some t =>
      match l.head with
      | none => some { l with head := some t, tail := some t }
      | some h => do
          let new ← l.mem t
          let old ← l.mem h
          if new.val.expire < old.val.expire then do
            let l ← l.setNext (some t) (some h)
            let l ← l.setPrev (some h) (some t)
            return { l with head := some t }
          else l.insertFrom t (some h)

/-- `adjust_timer`. -/
def adjustTimer (l : TimerList) (timer : Option ℕ) : Option TimerList :=
  match timer with
  | none => some l
  | some t => do
      let c ← l.mem t
      match c.next with
      | none => some l
      | some tmp => do
          let d ← l.mem tmp
          if c.val.expire < d.val.expire then some l
          else if l.head = some t then do
            let l := { l with head := c.next }
            let l ← l.setPrev l.head none
            let l ← l.setNext (some t) none
            l.insertFrom t l.head
          else do
            let l ← l.setNext c.prev c.next
            let l ← l.setPrev c.next c.prev
            l.insertFrom t l.head

/-- `del_timer`. -/
def delTimer (l : TimerList) (timer : Option ℕ) : Option TimerList :=
  match timer with
  | none => some l
  | some t => do
      let c ← l.mem t
      if l.head = some t ∧ l.tail = some t then
        some ({ l with head := none, tail := none }.free t)
      else if l.head = some t then do
        let l := { l with head := c.next }
        let l ← l.setPrev l.head none
        return l.free t
      else if l.tail = some t then do
        let l := { l with tail := c.prev }
        let l ← l.setNext l.tail none
        return l.free t
      else do
        let l ← l.setNext c.prev c.next
        let l ← l.setPrev c.next c.prev
        return l.free t

/-- `head = next; if (head) head->prev = NULL;`. -/
def setHead (l : TimerList) (next : Option ℕ) : Option TimerList :=
  match next with
  | none => some { l with head := none }
  | some h => TimerList.setPrev { l with head := some h } (some h) none

/-- The loop of `tick`, cut off after `n` passes, with the nodes whose callback was called. -/
def tickLoop (cur : ℤ) : ℕ → Option ℕ → TimerList → Option (List (ℕ × UtilTimer) × TimerList)
  | _, none, l => some ([], l)
  | 0, some _, _ => none
  | n + 1, some tmp, l => do
      let c ← l.mem tmp
      if cur < c.val.expire then some ([], l)
      else do
        let l ← l.setHead c.next
        let (fired, l) ← tickLoop cur n c.next (l.free tmp)
        return ((tmp, c.val) :: fired, l)

/-- `tick`, where `cur` is `time(NULL)`. -/
def tick (l : TimerList) (cur : ℤ) : Option (List (ℕ × UtilTimer) × TimerList) :=
  tickLoop cur l.made l.head l

/-- The addresses that are reached from a pointer by `next`, cut off after `n` nodes. -/
def nodesFrom (l : TimerList) : ℕ → Option ℕ → Option (List ℕ)
  | _, none => some []
  | 0, some _ => none
  | n + 1, some a => do
      let c ← l.mem a
      let rest ← l.nodesFrom n c.next
      return a :: rest

/-- The nodes that are reached from `head` by `next`, in order. -/
def nodes (l : TimerList) : Option (List ℕ) := l.nodesFrom l.made l.head

/-- `a->next`. -/
def next (l : TimerList) (a : ℕ) : Option ℕ := (l.mem a).bind Cell.next

/-- `a->prev`. -/
def prev (l : TimerList) (a : ℕ) : Option ℕ := (l.mem a).bind Cell.prev

/-! ### The list in the heap -/

/-- The heap holds the timers `ts`, in this order. -/
structure Holds (l : TimerList) (ts : List (ℕ × UtilTimer)) : Prop where
  seg : Seg l.mem none ts none
  head : l.head = first ts
  tail : ts ≠ [] → l.tail = last ts
  nodup : (ts.map Prod.fst).Nodup
  bound : ts.length ≤ l.made

section Operations

variable {l : TimerList} {ts pre post : List (ℕ × UtilTimer)} {t a : ℕ} {v : UtilTimer}
  {c : Cell ℕ UtilTimer} {p n : Option ℕ}

theorem setNext_some (h : l.mem a = some c) :
    l.setNext (some a) n = some { l with mem := LinkedList.setNext l.mem (some a) n } := by
  simp [setNext, deref, h]

theorem setPrev_some (h : l.mem a = some c) :
    l.setPrev (some a) p = some { l with mem := LinkedList.setPrev l.mem (some a) p } := by
  simp [setPrev, deref, h]

/-- The timers that expire later than `v`. -/
def later (v : UtilTimer) (x : ℕ × UtilTimer) : Bool := decide (v.expire < x.2.expire)

theorem Holds.get (h : l.Holds (pre ++ (t, v) :: post)) :
    l.mem t = some ⟨v, last pre, first post⟩ := by
  rw [h.seg.get, Option.or_none, Option.or_none]

/-- The heap after a node was put between `pre` and `post`. -/
theorem Holds.insert (h : l.Holds (pre ++ post)) (ht : t ∉ (pre ++ post).map Prod.fst)
    (hlt : (pre ++ post).length < l.made) (l' : TimerList)
    (hmem : l'.mem = Function.update
      (LinkedList.setPrev (LinkedList.setNext l.mem (last pre) (some t)) (first post) (some t)) t
      (some ⟨v, last pre, first post⟩))
    (hhead : l'.head = first (pre ++ (t, v) :: post))
    (htail : l'.tail = last (pre ++ (t, v) :: post)) (hmade : l'.made = l.made) :
    l'.Holds (pre ++ (t, v) :: post) where
  seg := by
    rw [hmem]
    exact LinkedList.seg_insert h.seg h.nodup ht
  head := hhead
  tail _ := htail
  nodup := by
    have hperm : (pre ++ (t, v) :: post).Perm ((t, v) :: (pre ++ post)) := List.perm_middle
    rw [(hperm.map Prod.fst).nodup_iff]
    exact List.nodup_cons.2 ⟨ht, h.nodup⟩
  bound := by
    have hperm : (pre ++ (t, v) :: post).Perm ((t, v) :: (pre ++ post)) := List.perm_middle
    rw [hmade, hperm.length_eq]
    exact hlt

/-- The heap after a node was put behind `prev`. -/
theorem Holds.insert_behind {prev : ℕ} {w : UtilTimer} (h : l.Holds (pre ++ (prev, w) :: post))
    (ht : t ∉ (pre ++ (prev, w) :: post).map Prod.fst)
    (hlt : (pre ++ (prev, w) :: post).length < l.made) (l' : TimerList)
    (hmem : l'.mem = Function.update
      (LinkedList.setPrev (LinkedList.setNext l.mem (some prev) (some t)) (first post) (some t)) t
      (some ⟨v, some prev, first post⟩))
    (hhead : l'.head = l.head) (htail : l'.tail = if post = [] then some t else l.tail)
    (hmade : l'.made = l.made) : l'.Holds (pre ++ (prev, w) :: (t, v) :: post) := by
  have hsplit : ∀ r, pre ++ (prev, w) :: r = (pre ++ [(prev, w)]) ++ r := by simp
  have htail' := h.tail (by simp)
  have hhead' := h.head
  rw [hsplit] at h ht hlt ⊢
  refine h.insert ht hlt l' ?_ ?_ ?_ hmade
  · rw [hmem, last_append_cons]
  · rw [hhead, hhead']
    cases pre <;> rfl
  · rw [htail, htail']
    split
    · next hnil => rw [hnil, last_append_cons]
    · next hne =>
        obtain ⟨r, ⟨b, u⟩, rfl⟩ : ∃ r x, post = r ++ [x] :=
          ⟨_, _, (List.dropLast_append_getLast hne).symm⟩
        simp [LinkedList.last_append, LinkedList.last_cons]

/-- The loop of the private `add_timer` puts the node in front of the first that expires later, and
behind `prev` in any case. -/
theorem insertLoop_holds {prev : ℕ} {w : UtilTimer} {passes : ℕ}
    (h : l.Holds (pre ++ (prev, w) :: post)) (ht : t ∉ (pre ++ (prev, w) :: post).map Prod.fst)
    (hlt : (pre ++ (prev, w) :: post).length < l.made) (hc : l.mem t = some c)
    (hpasses : post.length ≤ passes) :
    ∃ l', insertLoop t passes prev (first post) l = some l' ∧ l'.made = l.made ∧
      l'.Holds (pre ++ (prev, w) :: insertBefore (later c.val) (t, c.val) post) := by
  have hne : (some prev : Option ℕ) ≠ some t := by
    intro heq
    cases heq
    exact ht (by simp)
  have hct : LinkedList.setNext l.mem (some prev) (some t) t = some c :=
    (LinkedList.setNext_of_ne hne _).trans hc
  induction post generalizing pre prev w passes with
  | nil =>
      -- the node comes behind the last one
      have hrun : insertLoop t passes prev (first ([] : List (ℕ × UtilTimer))) l = some
          { l with
            mem := Function.update (LinkedList.setNext l.mem (some prev) (some t)) t
              (some ⟨c.val, some prev, none⟩)
            tail := some t } := by
        rw [first_nil, insertLoop, setNext_some h.get]
        simp only [Option.bind_eq_bind, Option.bind_some]
        rw [setNext_some hct]
        simp only [Option.bind_some]
        rw [setPrev_some (LinkedList.setNext_self hct none), LinkedList.setPrev_setNext hct]
        rfl
      exact ⟨_, hrun, rfl, h.insert_behind ht hlt _ rfl rfl rfl rfl⟩
  | cons x post ih =>
      obtain ⟨tmp, u⟩ := x
      obtain ⟨n, rfl⟩ : ∃ n, passes = n + 1 := ⟨passes - 1, by simp at hpasses; omega⟩
      have htmp : (some tmp : Option ℕ) ≠ some t := by
        intro heq
        cases heq
        exact ht (by simp)
      have hsplit : ∀ r, pre ++ (prev, w) :: r = (pre ++ [(prev, w)]) ++ r := by simp
      have hs : l.Holds ((pre ++ [(prev, w)]) ++ (tmp, u) :: post) := by rwa [← hsplit]
      rw [first_cons, insertLoop, hc, hs.get]
      simp only [Option.bind_eq_bind, Option.bind_some]
      rw [insertBefore]
      by_cases hlater : c.val.expire < u.expire
      · -- the node comes in front of `tmp`
        have hne' : (some prev : Option ℕ) ≠ some tmp := by
          intro heq
          cases heq
          have hnodup := h.nodup
          simp [List.nodup_append] at hnodup
        have hmtmp := (LinkedList.setNext_of_ne hne' (some t)).trans hs.get
        have hmt := (LinkedList.setPrev_of_ne htmp (some t)).trans hct
        have hrun := LinkedList.setPrev_setNext (n := some tmp) (p := some prev) hmt
        rw [if_pos hlater, if_pos (by simpa [later] using hlater), setNext_some h.get]
        simp only [Option.bind_some]
        rw [setPrev_some hmtmp]
        simp only [Option.bind_some]
        rw [setNext_some hmt]
        simp only [Option.bind_some]
        rw [setPrev_some (LinkedList.setNext_self hmt _), hrun]
        exact ⟨_, rfl, rfl, h.insert_behind ht hlt _ rfl rfl rfl rfl⟩
      · -- the loop goes on behind `tmp`
        rw [if_neg hlater, if_neg (by simpa [later] using hlater), hsplit]
        exact ih hs (by rwa [← hsplit]) (by rwa [← hsplit]) (by simpa using hpasses) htmp
          ((LinkedList.setNext_of_ne htmp _).trans hc)

/-- The private `add_timer` puts the node behind the first one. -/
theorem insertFrom_holds {w : UtilTimer} (h : l.Holds ((a, w) :: ts))
    (ht : t ∉ ((a, w) :: ts).map Prod.fst) (hlt : ((a, w) :: ts).length < l.made)
    (hc : l.mem t = some c) :
    ∃ l', l.insertFrom t (some a) = some l' ∧ l'.made = l.made ∧
      l'.Holds ((a, w) :: insertBefore (later c.val) (t, c.val) ts) := by
  have hs : l.Holds ([] ++ (a, w) :: ts) := h
  have hpasses : ts.length ≤ l.made := (Nat.le_succ _).trans h.bound
  simp only [insertFrom, hs.get, Option.bind_eq_bind, Option.bind_some]
  exact insertLoop_holds hs ht hlt hc hpasses

/-- **`add_timer`** puts a node that is not in the list in front of the first that expires later. -/
theorem addTimer_holds (h : l.Holds ts) (ht : t ∉ ts.map Prod.fst) (hlt : ts.length < l.made)
    (hc : l.mem t = some ⟨v, none, none⟩) :
    ∃ l', l.addTimer (some t) = some l' ∧ l'.made = l.made ∧
      l'.Holds (insertBefore (later v) (t, v) ts) := by
  cases ts with
  | nil =>
      have hrun : l.addTimer (some t) = some { l with head := some t, tail := some t } := by
        rw [addTimer, h.head]
        rfl
      refine ⟨_, hrun, rfl, ⟨?_, trivial⟩, rfl, fun _ => rfl, List.nodup_singleton _, ?_⟩
      · simpa using hc
      · exact hlt
  | cons x ts =>
      obtain ⟨a, w⟩ := x
      have hs : l.Holds ([] ++ (a, w) :: ts) := h
      have hat : (some a : Option ℕ) ≠ some t := by
        intro heq
        cases heq
        exact ht (by simp)
      rw [addTimer, h.head, first_cons]
      simp only [hc, hs.get, Option.bind_eq_bind, Option.bind_some]
      rw [insertBefore]
      by_cases hlater : v.expire < w.expire
      · -- the node becomes the head
        have hma := (LinkedList.setNext_of_ne hat.symm (some a)).trans hs.get
        have hmem :
            LinkedList.setPrev (LinkedList.setNext l.mem (some t) (some a)) (some a) (some t) =
              Function.update (LinkedList.setPrev l.mem (some a) (some t)) t
                (some ⟨v, none, some a⟩) := by
          rw [LinkedList.setNext, hc]
          exact LinkedList.setPrev_update hat _
        rw [if_pos hlater, if_pos (by simpa [later] using hlater), setNext_some hc]
        simp only [Option.bind_some]
        rw [setPrev_some hma]
        refine ⟨_, rfl, rfl, hs.insert ht hlt _ hmem rfl ?_ rfl⟩
        · change l.tail = _
          rw [h.tail (by simp)]
          simp [LinkedList.last_cons]
      · rw [if_neg hlater, if_neg (by simpa [later] using hlater)]
        exact insertFrom_holds h ht hlt hc

/-- Another expiry in a node of the list. -/
theorem setExpire_holds (h : l.Holds (pre ++ (t, v) :: post)) (e : ℤ) :
    ∃ l', l.setExpire t e = some l' ∧ l'.made = l.made ∧
      l'.Holds (pre ++ (t, { v with expire := e }) :: post) := by
  have hrun : l.setExpire t e = some
      { l with
        mem := Function.update l.mem t
          (some ⟨{ v with expire := e }, last pre, first post⟩) } := by
    simp [setExpire, h.get]
  refine ⟨_, hrun, rfl, ?_, ?_, ?_, ?_, ?_⟩
  · simpa using LinkedList.seg_set h.seg h.nodup { v with expire := e }
  · exact h.head.trans (by cases pre <;> rfl)
  · intro _
    exact (h.tail (by simp)).trans (by simp [LinkedList.last_append, LinkedList.last_cons])
  · simpa using h.nodup
  · simpa using h.bound

theorem Holds.lt_made (h : l.Holds (pre ++ (t, v) :: post)) : (pre ++ post).length < l.made := by
  have hlen := h.bound
  rw [List.perm_middle.length_eq] at hlen
  exact hlen

/-- No node is in the list twice. -/
theorem Holds.not_mem (h : l.Holds (pre ++ (t, v) :: post)) :
    t ∉ (pre ++ post).map Prod.fst ∧ ((pre ++ post).map Prod.fst).Nodup := by
  have hperm : (pre ++ (t, v) :: post).Perm ((t, v) :: (pre ++ post)) := List.perm_middle
  exact List.nodup_cons.1 ((hperm.map Prod.fst).nodup_iff.1 h.nodup)

/-- The heap after a node was taken out. -/
theorem Holds.remove (h : l.Holds (pre ++ (t, v) :: post)) (l' : TimerList)
    (hmem : ∀ b ≠ t, l'.mem b = LinkedList.setPrev
      (LinkedList.setNext l.mem (last pre) (first post)) (first post) (last pre) b)
    (hhead : l'.head = first (pre ++ post))
    (htail : pre ++ post ≠ [] → l'.tail = last (pre ++ post))
    (hmade : l'.made = l.made) : l'.Holds (pre ++ post) := by
  obtain ⟨hnot, hrest⟩ := h.not_mem
  refine ⟨?_, hhead, htail, hrest, ?_⟩
  · refine (LinkedList.seg_remove h.seg hrest).congr ?_
    intro b hb
    refine hmem b ?_
    rintro rfl
    exact hnot hb
  · rw [hmade]
    exact h.lt_made.le

theorem last_middle (pre post : List (ℕ × UtilTimer)) (x y : ℕ × UtilTimer) :
    last (pre ++ x :: y :: post) = last (pre ++ y :: post) := by
  obtain ⟨a, w⟩ := x
  obtain ⟨b, u⟩ := y
  simp [LinkedList.last_append, LinkedList.last_cons]

/-- The neighbours of a node inside the list. -/
theorem Holds.unlink (h : l.Holds (pre ++ (t, v) :: post)) (hpre : pre ≠ []) (hpost : post ≠ []) :
    l.setNext (last pre) (first post)
        = some { l with mem := LinkedList.setNext l.mem (last pre) (first post) } ∧
      TimerList.setPrev { l with mem := LinkedList.setNext l.mem (last pre) (first post) }
          (first post) (last pre)
        = some { l with
          mem := LinkedList.setPrev (LinkedList.setNext l.mem (last pre) (first post)) (first post)
            (last pre) } := by
  obtain ⟨r, ⟨p, pv⟩, rfl⟩ : ∃ r x, pre = r ++ [x] :=
    ⟨_, _, (List.dropLast_append_getLast hpre).symm⟩
  obtain ⟨⟨q, qv⟩, post, rfl⟩ := List.exists_cons_of_ne_nil hpost
  have hp : l.Holds (r ++ (p, pv) :: (t, v) :: (q, qv) :: post) := by simpa using h
  have hq : l.Holds ((r ++ [(p, pv), (t, v)]) ++ (q, qv) :: post) := by simpa using h
  have hne : (some p : Option ℕ) ≠ some q := by
    intro heq
    cases heq
    have hnodup := hp.nodup
    simp [List.nodup_append] at hnodup
  rw [last_append_cons, first_cons]
  exact ⟨setNext_some hp.get, setPrev_some ((LinkedList.setNext_of_ne hne _).trans hq.get)⟩

/-- The node behind the head becomes the head. -/
theorem Holds.behead {u : UtilTimer} (h : l.Holds ((t, v) :: (a, u) :: post)) :
    TimerList.setPrev { l with head := some a } (some a) none
      = some { l with head := some a, mem := LinkedList.setPrev l.mem (some a) none } := by
  have hs : l.Holds ([(t, v)] ++ (a, u) :: post) := h
  exact setPrev_some hs.get

/-- **`adjust_timer`** for a node whose expiry is no less than before takes it out and puts it in
front of the first that expires later. -/
theorem adjustTimer_holds (h : l.Holds (pre ++ (t, v) :: post))
    (hpre : ∀ x ∈ pre, later v x = false) :
    ∃ l', l.adjustTimer (some t) = some l' ∧ l'.made = l.made ∧
      l'.Holds (pre ++ insertBefore (later v) (t, v) post) := by
  rw [adjustTimer, h.get]
  simp only [Option.bind_eq_bind, Option.bind_some]
  cases post with
  | nil => exact ⟨l, rfl, rfl, h⟩
  | cons x post =>
      obtain ⟨tmp, u⟩ := x
      obtain ⟨hnot, hnodup⟩ := h.not_mem
      have hlt := h.lt_made
      have hmt : l.mem tmp = some ⟨u, some t, first post⟩ := by
        have hs : l.Holds ((pre ++ [(t, v)]) ++ (tmp, u) :: post) := by simpa using h
        simpa using hs.get
      have htmp : (some tmp : Option ℕ) ≠ some t := by
        intro heq
        cases heq
        exact hnot (by simp)
      have hlaterEq : later v (tmp, u) = decide (v.expire < u.expire) := rfl
      simp only [first_cons, hmt, Option.bind_some]
      by_cases hlater : v.expire < u.expire
      · -- it stays where it is
        rw [if_pos hlater, insertBefore, hlaterEq, decide_eq_true hlater]
        exact ⟨l, rfl, rfl, h⟩
      rw [if_neg hlater]
      cases pre with
      | nil =>
          -- it is the head, and `tmp` becomes the head
          have hhead : l.head = some t := h.head
          have hct := (LinkedList.setPrev_of_ne htmp none).trans h.get
          rw [if_pos hhead, Holds.behead h]
          simp only [Option.bind_some]
          rw [setNext_some hct]
          simp only [Option.bind_some]
          have hrest := h.remove
            { l with
              head := some tmp
              mem := LinkedList.setNext (LinkedList.setPrev l.mem (some tmp) none) (some t) none }
            (fun b hb => LinkedList.setNext_of_ne (fun heq => hb (Option.some.inj heq).symm) _)
            rfl (fun _ => (h.tail (by simp)).trans (last_middle [] _ _ _)) rfl
          rw [List.nil_append, insertBefore, hlaterEq, decide_eq_false hlater]
          exact insertFrom_holds hrest hnot hlt (LinkedList.setNext_self hct none)
      | cons y pre =>
          -- its neighbours are linked, and the search starts at the head
          obtain ⟨a, w⟩ := y
          obtain ⟨hrun₁, hrun₂⟩ := h.unlink (by simp) (by simp)
          have hhead : l.head = some a := h.head
          have hne : (some a : Option ℕ) ≠ some t := by
            intro heq
            cases heq
            exact hnot (by simp)
          rw [hhead, if_neg hne]
          rw [first_cons] at hrun₁ hrun₂
          rw [hrun₁]
          simp only [Option.bind_some]
          rw [hrun₂]
          simp only [Option.bind_some]
          have hrest := h.remove
            { l with
              mem := LinkedList.setPrev (LinkedList.setNext l.mem (last ((a, w) :: pre)) (some tmp))
                (some tmp) (last ((a, w) :: pre)) }
            (fun b _ => rfl) h.head (fun _ => (h.tail (by simp)).trans (last_middle _ _ _ _)) rfl
          have hlast : last ((a, w) :: pre) ≠ some t := by
            intro heq
            rw [List.map_append, List.mem_append] at hnot
            exact hnot (.inl (LinkedList.mem_of_last heq))
          have hct := (LinkedList.setPrev_of_ne htmp (last ((a, w) :: pre))).trans
            ((LinkedList.setNext_of_ne hlast (some tmp)).trans h.get)
          have hsame : insertBefore (later v) (t, v) (pre ++ (tmp, u) :: post)
              = pre ++ insertBefore (later v) (t, v) ((tmp, u) :: post) :=
            LinkedList.insertBefore_append fun x hx => hpre x (List.mem_cons_of_mem _ hx)
          obtain ⟨l', hgo, hmade, hl'⟩ := insertFrom_holds hrest hnot hlt hct
          change l'.Holds ((a, w) :: insertBefore (later v) (t, v) (pre ++ (tmp, u) :: post)) at hl'
          rw [hsame] at hl'
          exact ⟨l', (congrArg (insertFrom _ t) hhead).trans hgo, hmade, hl'⟩

/-- The node is not in the heap any more. -/
theorem Holds.free (h : l.Holds ts) (ht : t ∉ ts.map Prod.fst) : (l.free t).Holds ts where
  seg := h.seg.update ht _
  head := h.head
  tail := h.tail
  nodup := h.nodup
  bound := h.bound

/-- A node with another one behind it is not the tail. -/
theorem Holds.tail_ne (h : l.Holds (pre ++ (t, v) :: post)) (hpost : post ≠ []) :
    l.tail ≠ some t := by
  intro heq
  obtain ⟨r, ⟨b, u⟩, rfl⟩ : ∃ r x, post = r ++ [x] :=
    ⟨_, _, (List.dropLast_append_getLast hpost).symm⟩
  have hsplit : pre ++ (t, v) :: (r ++ [(b, u)]) = (pre ++ (t, v) :: r) ++ [(b, u)] := by simp
  rw [h.tail (by simp), hsplit, last_append_cons] at heq
  cases heq
  exact h.not_mem.1 (by simp)

/-- The node in front of the tail becomes the tail. -/
theorem Holds.curtail {w : UtilTimer} (h : l.Holds ((a, w) :: pre ++ [(t, v)])) :
    TimerList.setNext { l with tail := last ((a, w) :: pre) } (last ((a, w) :: pre)) none
      = some { l with
        tail := last ((a, w) :: pre)
        mem := LinkedList.setNext l.mem (last ((a, w) :: pre)) none } := by
  obtain ⟨r, ⟨p, pv⟩, hr⟩ : ∃ r x, (a, w) :: pre = r ++ [x] :=
    ⟨_, _, (List.dropLast_append_getLast (List.cons_ne_nil _ _)).symm⟩
  have hp : l.Holds (r ++ (p, pv) :: [(t, v)]) := by simpa [hr] using h
  rw [hr, last_append_cons]
  exact setNext_some hp.get

/-- **`del_timer`** takes the node out. -/
theorem delTimer_holds (h : l.Holds (pre ++ (t, v) :: post)) :
    ∃ l', l.delTimer (some t) = some l' ∧ l'.made = l.made ∧ l'.Holds (pre ++ post) := by
  obtain ⟨hnot, hnodup⟩ := h.not_mem
  have hfree : ∀ l' : TimerList, l'.made = l.made → l'.Holds (pre ++ post) →
      ∃ l'', some (l'.free t) = some l'' ∧ l''.made = l.made ∧ l''.Holds (pre ++ post) := by
    intro l' hmade h'
    exact ⟨_, rfl, hmade, h'.free hnot⟩
  have hne : ∀ b ∈ (pre ++ post).map Prod.fst, (some b : Option ℕ) ≠ some t := by
    intro b hb heq
    cases heq
    exact hnot hb
  have hhead := h.head
  have htail := h.tail (by simp)
  rw [delTimer, h.get]
  simp only [Option.bind_eq_bind, Option.bind_some]
  cases pre with
  | nil =>
      rw [List.nil_append, first_cons] at hhead
      cases post with
      | nil =>
          -- it is alone
          have hl' : TimerList.Holds { l with head := none, tail := none } [] :=
            ⟨trivial, rfl, fun hnil => (hnil rfl).elim, List.nodup_nil, Nat.zero_le _⟩
          rw [if_pos ⟨hhead, htail⟩]
          exact hfree _ rfl hl'
      | cons x post =>
          -- it is the head
          obtain ⟨b, u⟩ := x
          rw [if_neg fun hand => h.tail_ne (by simp) hand.2, if_pos hhead]
          simp only [first_cons, Holds.behead h, Option.bind_some]
          exact hfree _ rfl (h.remove _ (fun _ _ => rfl) rfl
            (fun _ => htail.trans (last_middle [] _ _ _)) rfl)
  | cons y pre =>
      obtain ⟨a, w⟩ := y
      have hhead' : l.head ≠ some t := by
        rw [hhead]
        exact hne a (by simp)
      cases post with
      | nil =>
          -- it is the tail
          rw [last_append_cons] at htail
          rw [if_neg fun hand => hhead' hand.1, if_neg hhead', if_pos htail]
          simp only [Holds.curtail h, Option.bind_some]
          exact hfree _ rfl (h.remove _ (fun _ _ => rfl) hhead
            (fun _ => by rw [List.append_nil]) rfl)
      | cons x post =>
          -- it is inside
          obtain ⟨b, u⟩ := x
          obtain ⟨hrun₁, hrun₂⟩ := h.unlink (by simp) (by simp)
          rw [if_neg fun hand => hhead' hand.1, if_neg hhead', if_neg (h.tail_ne (by simp)),
            hrun₁]
          simp only [Option.bind_some]
          rw [hrun₂]
          simp only [Option.bind_some]
          exact hfree _ rfl (h.remove _ (fun _ _ => rfl) hhead
            (fun _ => htail.trans (last_middle _ _ _ _)) rfl)

/-- The head is taken out. -/
theorem Holds.popHead (h : l.Holds ((a, v) :: ts)) :
    ∃ l₁, l.setHead (first ts) = some l₁ ∧ l₁.made = l.made ∧ (l₁.free a).Holds ts := by
  have hs : l.Holds ([] ++ (a, v) :: ts) := h
  cases ts with
  | nil => exact ⟨_, rfl, rfl, trivial, rfl, fun hnil => (hnil rfl).elim, List.nodup_nil,
      Nat.zero_le _⟩
  | cons x ts =>
      obtain ⟨b, u⟩ := x
      have hrest : TimerList.Holds
          { l with head := some b, mem := LinkedList.setPrev l.mem (some b) none }
          ((b, u) :: ts) := by
        refine hs.remove _ (fun _ _ => rfl) rfl ?_ rfl
        intro _
        exact (h.tail (by simp)).trans (last_middle [] _ _ _)
      exact ⟨_, h.behead, rfl, hrest.free hs.not_mem.1⟩

/-- The loop of `tick` calls back the timers in front of the first that is not due, and takes them
out. -/
theorem tickLoop_holds {cur : ℤ} {passes : ℕ} (h : l.Holds ts) (hpasses : ts.length ≤ passes) :
    ∃ l', tickLoop cur passes l.head l
        = some (ts.takeWhile fun x => decide (x.2.expire ≤ cur), l') ∧
      l'.made = l.made ∧ l'.Holds (ts.dropWhile fun x => decide (x.2.expire ≤ cur)) := by
  induction ts generalizing l passes with
  | nil =>
      rw [h.head, first_nil, tickLoop]
      exact ⟨l, rfl, rfl, h⟩
  | cons x ts ih =>
      obtain ⟨a, v⟩ := x
      obtain ⟨n, rfl⟩ : ∃ n, passes = n + 1 := ⟨passes - 1, by simp at hpasses; omega⟩
      have hs : l.Holds ([] ++ (a, v) :: ts) := h
      have hhead : l.head = some a := h.head
      rw [hhead, tickLoop, hs.get]
      simp only [Option.bind_eq_bind, Option.bind_some]
      by_cases hdue : v.expire ≤ cur
      · obtain ⟨l₁, hrun, hmade, hpop⟩ := h.popHead
        obtain ⟨l', hrest, hmade', hl'⟩ := ih hpop (by simpa using hpasses)
        rw [hpop.head] at hrest
        rw [if_neg (by omega), List.takeWhile_cons_of_pos (by simpa using hdue),
          List.dropWhile_cons_of_pos (by simpa using hdue), hrun]
        simp only [Option.bind_some]
        rw [hrest]
        exact ⟨l', rfl, hmade'.trans hmade, hl'⟩
      · rw [if_pos (by omega), List.takeWhile_cons_of_neg (by simpa using hdue),
          List.dropWhile_cons_of_neg (by simpa using hdue)]
        exact ⟨l, rfl, rfl, h⟩

/-- **`tick`** calls back the timers in front of the first that is not due, and takes them out. -/
theorem tick_holds (h : l.Holds ts) (cur : ℤ) :
    ∃ l', l.tick cur = some (ts.takeWhile fun x => decide (x.2.expire ≤ cur), l') ∧
      l'.made = l.made ∧ l'.Holds (ts.dropWhile fun x => decide (x.2.expire ≤ cur)) :=
  tickLoop_holds h h.bound

theorem nodesFrom_holds {passes : ℕ} (hs : Seg l.mem p ts none) (hpasses : ts.length ≤ passes) :
    l.nodesFrom passes (first ts) = some (ts.map Prod.fst) := by
  induction ts generalizing p passes with
  | nil => rw [first_nil, nodesFrom, List.map_nil]
  | cons x ts ih =>
      obtain ⟨a, v⟩ := x
      obtain ⟨n, rfl⟩ : ∃ n, passes = n + 1 := ⟨passes - 1, by simp at hpasses; omega⟩
      have hnext := ih hs.2 (by simpa using hpasses)
      rw [first_cons, nodesFrom, hs.1, Option.or_none]
      simp only [Option.bind_eq_bind, Option.bind_some]
      rw [hnext]
      rfl

/-- What is reached from the head. -/
theorem Holds.nodes (h : l.Holds ts) : l.nodes = some (ts.map Prod.fst) := by
  rw [TimerList.nodes, h.head]
  exact nodesFrom_holds h.seg h.bound

theorem Holds.next (h : l.Holds (pre ++ (t, v) :: post)) : l.next t = first post := by
  rw [TimerList.next, h.get]
  rfl

theorem Holds.prev (h : l.Holds (pre ++ (t, v) :: post)) : l.prev t = last pre := by
  rw [TimerList.prev, h.get]
  rfl

end Operations

end TimerList

end Gateway
