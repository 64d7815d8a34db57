/-
**Bounded overtaking: how long an accepted request stays in line.**

`collect_batch` serves the three queues from the front and `enqueue` appends at the end of one of
them, so the queues together are one line, ordered by urgency and then by the ids: a new request
enters it behind every request that is at least as urgent.  What stands before a request is
therefore only ever lengthened by requests that are more urgent than it, one place each, while every
collection takes `max_batch_size` places off, and whoever times out in line another one.

Main definitions:

* `Gateway.Sched.State.Before` — the order of the line;
* `Gateway.Sched.State.ahead` — how many pending tasks `collect_batch` takes before a given one;
* `Gateway.Sched.collections` — how often a run collects;
* `Gateway.Sched.State.overtaking` — the accepted tasks of a run that are more urgent than a task;
* `Gateway.Sched.lapsed` — the tasks that a run has taken out of line without collecting them.

Main results:

* `Gateway.Sched.Runs.pending_ordered` — the line is in its order;
* `Gateway.Sched.Runs.ahead_run` — the law of a whole run;
* `Gateway.Sched.bounded_overtaking` — **who still waits has been overtaken**: a task that is in
  line after enough collections is one that enough urgent tasks were accepted against, and whoever
  is out of line was collected or timed out.
-/

import InferenceGateway.SchedulerQueues

set_option relaxedAutoImplicit false
set_option autoImplicit false

namespace Gateway.Sched

open EventSystem

variable {F : Type} {cfg : Config} {w : World F} {s s' s₀ : State F} {e : Event}
  {evs evs₀ : List Event} {t u : TaskRef}

/-! ### Places in a line -/

section Line

variable {α : Type*} [DecidableEq α]

/-- In a line that is in the order `R`, those before someone are those who stand before it. -/
theorem countP_eq_idxOf {R : α → α → Prop} [DecidableRel R] (hasymm : ∀ a b, R a b → ¬ R b a)
    {l : List α} {a : α} (hl : l.Pairwise R) (ha : a ∈ l) :
    l.countP (fun b => R b a) = l.idxOf a := by
  induction l with
  | nil => exact absurd ha List.not_mem_nil
  | cons b l ih =>
      obtain ⟨hb, hl⟩ := List.pairwise_cons.1 hl
      by_cases hba : b = a
      · subst hba
        have hself : ¬ R b b := fun h => hasymm b b h h
        have hnone : l.countP (fun x => R x b) = 0 :=
          List.countP_eq_zero.2 fun x hx => by simpa using hasymm b x (hb x hx)
        rw [List.countP_cons_of_neg (by simpa using hself), hnone, List.idxOf_cons_self]
      · have hmem : a ∈ l := (List.mem_cons.1 ha).resolve_left (Ne.symm hba)
        rw [List.countP_cons_of_pos (by simpa using hb a hmem), ih hl hmem,
          List.idxOf_cons_ne _ hba]

/-- Counting over a line by what has become of its members. -/
theorem countP_split {l a b : List α} (hl : l.Nodup) (ha : a.Nodup) (hb : b.Nodup)
    (hal : ∀ x ∈ a, x ∈ l) (hbl : ∀ x ∈ b, x ∈ l) (hab : ∀ x ∈ a, x ∉ b) (p : α → Bool) :
    l.countP p = a.countP p + b.countP p + (l.filter fun x => x ∉ a ∧ x ∉ b).countP p := by
  have hperm : l.Perm (a ++ b ++ l.filter fun x => x ∉ a ∧ x ∉ b) := by
    have hnodup : (a ++ b ++ l.filter fun x => x ∉ a ∧ x ∉ b).Nodup := by
      refine List.nodup_append.2 ⟨List.nodup_append.2 ⟨ha, hb, ?_⟩, hl.filter _, ?_⟩
      · rintro x hx y hy rfl
        exact hab x hx hy
      · rintro x hx y hy rfl
        obtain ⟨-, hnot⟩ := List.mem_filter.1 hy
        obtain ⟨hxa, hxb⟩ := of_decide_eq_true hnot
        exact (List.mem_append.1 hx).elim hxa hxb
    refine (List.perm_ext_iff_of_nodup hl hnodup).2 fun x => ?_
    simp only [List.mem_append, List.mem_filter, decide_eq_true_eq]
    constructor
    · intro hx
      by_cases hxa : x ∈ a
      · exact .inl (.inl hxa)
      · by_cases hxb : x ∈ b
        · exact .inl (.inr hxb)
        · exact .inr ⟨hx, hxa, hxb⟩
    · rintro ((hx | hx) | hx)
      · exact hal x hx
      · exact hbl x hx
      · exact hx.1
  rw [hperm.countP_eq, List.countP_append, List.countP_append]

end Line

/-! ### The line of the pending tasks -/

/-- The order of the line: the more urgent first, and the earlier first among equally urgent
ones. -/
def State.Before (s : State F) (u t : TaskRef) : Prop :=
  MoreUrgent (s.tasks u).priority (s.tasks t).priority ∨
    EquallyUrgent (s.tasks u).priority (s.tasks t).priority ∧
      (s.tasks u).taskId < (s.tasks t).taskId

instance (s : State F) : DecidableRel s.Before := fun _ _ => inferInstanceAs (Decidable (_ ∨ _))

theorem before_asymm (s : State F) (u t : TaskRef) (h : s.Before u t) : ¬ s.Before t u := by
  unfold State.Before EquallyUrgent MoreUrgent at *
  omega

/-- How many pending tasks `collect_batch` takes before `t`. -/
def State.ahead (s : State F) (t : TaskRef) : ℕ := s.pending.idxOf t

/-- How many collections an event is. -/
def Event.collections : Event → ℕ
  | .collect _ => 1
  | _ => 0

/-- How often a run collects. -/
abbrev collections (evs : List Event) : ℕ := total Event.collections evs

/-- The tasks of a list that are more urgent than `t`. -/
def State.overtaking (s : State F) (t : TaskRef) (accepted : List TaskRef) : ℕ :=
  accepted.countP fun u => MoreUrgent (s.tasks u).priority (s.tasks t).priority

/-- The tasks that were in line at the beginning of a run, or came into it, and have left it without
being collected. -/
def lapsed (s₀ : State F) (evs : List Event) (s : State F) : List TaskRef :=
  (s₀.pending ++ acceptedTasks evs).filter fun u => u ∉ s.pending ∧ u ∉ collectedTasks evs

/-- **The line is in its order.** -/
theorem Runs.pending_ordered (h : Runs cfg w evs s) : s.pending.Pairwise s.Before := by
  obtain ⟨hord, -⟩ := Runs.idsOrdered h
  have hfifo := Runs.fifo h
  have hclass := hfifo.classed
  have hwithin : ∀ c, (s.queue c).Pairwise s.Before := by
    intro c
    have hearlier : (s.queue c).Pairwise s.Earlier :=
      hord.sublist (((List.sublist_append_right _ _).trans (hfifo c)).trans List.filter_sublist)
    refine hearlier.imp_of_mem fun {t u} ht hu htu => .inr ⟨?_, htu⟩
    exact (ofPriority_eq_iff _ _).1 ((hclass c t ht).trans (hclass c u hu).symm)
  have hbetween : ∀ c d : QueueClass, c.rank < d.rank → ∀ t ∈ s.queue c, ∀ u ∈ s.queue d,
      s.Before t u := by
    intro c d hcd t ht u hu
    refine .inl ((rank_lt_iff _ _).1 ?_)
    rwa [← hclass c t ht, ← hclass d u hu] at hcd
  refine List.pairwise_append.2 ⟨List.pairwise_append.2
    ⟨hwithin .high, hwithin .mid, hbetween .high .mid (by decide)⟩, hwithin .low, ?_⟩
  intro t ht u hu
  rcases List.mem_append.1 ht with ht | ht
  · exact hbetween .high .low (by decide) t ht u hu
  · exact hbetween .mid .low (by decide) t ht u hu

theorem Runs.pending_nodup (h : Runs cfg w evs s) : s.pending.Nodup := by
  have hnodup := Runs.placed_nodup h
  rw [State.placed, State.holding, List.append_assoc] at hnodup
  exact (List.nodup_append.1 hnodup).1

/-- A task in line has been accepted. -/
theorem Runs.accepted_of_pending (h : Runs cfg w evs s) (ht : t ∈ s.pending) :
    t ∈ acceptedTasks evs :=
  mem_acceptedTasks.2 (Runs.accepted_of_mem_placed h
    (List.mem_append_left _ (List.mem_append_left _ ht)))

theorem Runs.accepted_nodup (h : Runs cfg w evs s) : (acceptedTasks evs).Nodup := by
  refine (Runs.idsOrdered h).1.imp fun {t u} (htu : s.Earlier t u) => ?_
  rintro rfl
  exact lt_irrefl _ htu

/-- What was collected is in line no more, and was collected once. -/
theorem Runs.collected_nodup (h : Runs cfg w evs s) :
    (collectedTasks evs).Nodup ∧ ∀ t ∈ s.pending, t ∉ collectedTasks evs := by
  have hfifo := Runs.fifo h
  have haccepted := Runs.accepted_nodup h
  have hclass : ∀ c, ((collectedTasks evs).filter (fun t => s.classOf t = c) ++ s.queue c).Nodup :=
    fun c => (haccepted.filter _).sublist (hfifo c)
  constructor
  · refine List.nodup_iff_count_le_one.2 fun t => ?_
    have hone := List.nodup_iff_count_le_one.1 (List.nodup_append.1 (hclass (s.classOf t))).1 t
    rwa [List.count_filter (by simp)] at hone
  · intro t ht hcol
    obtain ⟨c, hc⟩ := State.mem_pending.1 ht
    refine (List.nodup_append.1 (hclass c)).2.2 t (List.mem_filter.2 ⟨hcol, ?_⟩) t hc rfl
    exact decide_eq_true (hfifo.classed c t hc)

/-- **The ways out of the line**: the task is collected, or it has timed out and gets its signal. -/
theorem Step.leaves_line (hs : Step cfg w s e s') (hi : s.IteratorOk) (ht : t ∈ s.pending)
    (ht' : t ∉ s'.pending) : t ∈ e.collects ∨ e = .signal t := by
  cases hs with
  | call u hs =>
      cases hs with
      | accept now _ _ he =>
          refine absurd ?_ ht'
          obtain ⟨-, rfl⟩ := enqueue_eq_true he
          obtain ⟨c, hc⟩ := State.mem_pending.1 ht
          refine State.mem_pending.2 ⟨c, ?_⟩
          cases QueueClass.ofPriority (s.tasks u).priority <;> cases c <;>
            first | exact hc | exact List.mem_append_left _ hc
      | reject now _ _ he =>
          obtain ⟨-, rfl⟩ := enqueue_eq_false he
          exact absurd ht ht'
      | _ => exact absurd ht ht'
  | run hs =>
      cases hs with
      | collect batch _ _ hb =>
          obtain ⟨rfl, rfl⟩ := eq_of_collectBatch hb
          refine .inl (Or.resolve_right ?_ ht')
          rw [← take_append_pending_collected cfg s] at ht
          exact List.mem_append.1 ht
      | cleanSignal u second now c i hm hpc =>
          have hu := hi _ _ _ _ _ _ hpc hm
          refine .inr (by_contra fun hne => ht' (List.count_pos_iff.1 ?_))
          have hne : [u].count t = 0 := List.count_singleton.trans (if_neg (by grind))
          have hq := count_eraseIdx hu t
          have hset := s.count_pending_setQueue ((s.queue c).eraseIdx i) c t
          have hpos := List.count_pos_iff.2 ht
          change 0 < (s.setQueue ((s.queue c).eraseIdx i) c).pending.count t
          omega
      | _ => exact absurd ht ht'
  | exec n hx hs => exact absurd (hs.pending ▸ ht) ht'
  | start _ => exact absurd ht ht'
  | stop => exact absurd ht ht'
  | stopPost _ => exact absurd ht ht'

/-- An accepted task is in line. -/
theorem Step.accepted_pending (hs : Step cfg w s (.accept t) s') : t ∈ s'.pending := by
  cases hs.queueMove with
  | accept u now he _ _ _ _ hq =>
      cases he
      exact State.mem_pending.2 ⟨_, hq ▸ List.mem_append_right _ (List.mem_singleton_self _)⟩
  | collect he => cases he
  | erase c i ha => cases ha
  | keep ha => cases ha

/-- The ways into the line. -/
theorem Step.pending_from (hs : Step cfg w s e s') (ht : t ∈ s'.pending) :
    t ∈ s.pending ∨ e = .accept t := by
  obtain ⟨c, hc⟩ := State.mem_pending.1 ht
  have hold : t ∈ s.queue c → t ∈ s.pending := fun h => State.mem_pending.2 ⟨c, h⟩
  cases hs.queueMove with
  | accept u now he _ _ _ _ hq hq' =>
      by_cases hcu : c = s.classOf u
      · subst hcu
        rw [hq] at hc
        refine (List.mem_append.1 hc).imp hold fun htu => ?_
        rw [he, List.mem_singleton.1 htu]
      · rw [hq' c hcu] at hc
        exact .inl (hold hc)
  | collect _ _ _ hq =>
      rw [hq] at hc
      exact .inl (hold ((State.queue_collected_suffix cfg s c).subset hc))
  | erase d i _ _ _ hq hq' =>
      by_cases hcd : c = d
      · subst hcd
        rw [hq] at hc
        exact .inl (hold ((List.eraseIdx_sublist _ _).subset hc))
      · rw [hq' c hcd] at hc
        exact .inl (hold hc)
  | keep _ _ _ hq =>
      rw [hq] at hc
      exact .inl (hold hc)

/-- A task that was accepted before is not accepted again. -/
theorem Runs.accepted_once (h : Runs cfg w evs s) (hs : Step cfg w s e s')
    (ht : t ∈ acceptedTasks evs) : e ≠ .accept t := by
  rintro rfl
  have hlaw := Runs.accept_law (h.snoc hs) t
  have hpos := List.count_pos_iff.2 (mem_acceptedTasks.1 ht)
  rw [List.count_append, List.count_singleton_self] at hlaw
  omega

/-! ### The run -/

theorem acceptedTasks_append (evs evs' : List Event) :
    acceptedTasks (evs ++ evs') = acceptedTasks evs ++ acceptedTasks evs' := List.flatMap_append

section

variable (h₀ : Runs cfg w evs₀ s₀) (hr : Run (Step cfg w) s₀ evs s)
include h₀ hr

/-- An accepted task keeps its priority and its id. -/
theorem Runs.kept_run (ht : t ∈ acceptedTasks evs₀) :
    (s.tasks t).priority = (s₀.tasks t).priority ∧ (s.tasks t).taskId = (s₀.tasks t).taskId := by
  induction hr with
  | nil => exact ⟨rfl, rfl⟩
  | @snoc evs s s' e hr hs ih =>
      have hacc : .accept t ∈ evs₀ ++ evs := List.mem_append_left _ (mem_acceptedTasks.1 ht)
      have hreq := hs.request (Runs.acceptable_of_accepted (h₀.trans hr) hacc)
      simp only [InferenceTask.request, Prod.mk.injEq] at hreq
      exact ⟨hreq.2.2.2.2.trans ih.1, hreq.1.trans ih.2⟩

theorem Runs.before_run (ht : t ∈ acceptedTasks evs₀) (hu : u ∈ acceptedTasks evs₀) :
    s.Before u t ↔ s₀.Before u t := by
  obtain ⟨htp, hti⟩ := Runs.kept_run h₀ hr ht
  obtain ⟨hup, hui⟩ := Runs.kept_run h₀ hr hu
  rw [State.Before, State.Before, htp, hti, hup, hui]

/-- Whoever is in line in a run, or is collected in it, was in line before or came into it. -/
theorem Runs.line_run :
    (∀ u ∈ s.pending, u ∈ s₀.pending ++ acceptedTasks evs) ∧
      ∀ u ∈ collectedTasks evs, u ∈ s₀.pending ++ acceptedTasks evs := by
  induction hr with
  | nil => exact ⟨fun u hu => List.mem_append_left _ hu, fun u hu => absurd hu List.not_mem_nil⟩
  | @snoc evs s s' e hr hs ih =>
      have hmono : ∀ u ∈ s₀.pending ++ acceptedTasks evs,
          u ∈ s₀.pending ++ acceptedTasks (evs ++ [e]) := by
        intro u hu
        rw [acceptedTasks_snoc, ← List.append_assoc]
        exact List.mem_append_left _ hu
      constructor
      · intro u hu
        rcases hs.pending_from hu with hu | rfl
        · exact hmono u (ih.1 u hu)
        · rw [acceptedTasks_snoc, ← List.append_assoc]
          exact List.mem_append_right _ (List.mem_singleton_self _)
      · intro u hu
        rw [collectedTasks_snoc] at hu
        rcases List.mem_append.1 hu with hu | hu
        · exact hmono u (ih.2 u hu)
        · cases e with
          | collect batch =>
              obtain ⟨rfl, -⟩ := Runs.collect_step (h₀.trans hr) hs
              exact hmono u (ih.1 u (List.mem_of_mem_take hu))
          | _ => exact absurd hu List.not_mem_nil

/-- **Every collection is full of tasks that stand before one that it leaves in line.** -/
theorem Runs.collected_run (ht : t ∈ s₀.pending) (ht' : t ∈ s.pending) :
    (collectedTasks evs).length = cfg.batchLimit * collections evs ∧
      ∀ u ∈ collectedTasks evs, s.Before u t := by
  induction hr with
  | nil => exact ⟨rfl, fun u hu => absurd hu List.not_mem_nil⟩
  | @snoc evs s s' e hr hs ih =>
      have h := h₀.trans hr
      have hacc : t ∈ acceptedTasks (evs₀ ++ evs) := by
        rw [acceptedTasks_append]
        exact List.mem_append_left _ (Runs.accepted_of_pending h₀ ht)
      have hin : t ∈ s.pending := (hs.pending_from ht').resolve_right (Runs.accepted_once h hs hacc)
      obtain ⟨hlen, hbefore⟩ := ih hin
      have hkept : ∀ u ∈ collectedTasks (evs₀ ++ evs) ++ s.pending,
          s.Before u t → s'.Before u t := by
        intro u hu hut
        have huacc : u ∈ acceptedTasks (evs₀ ++ evs) :=
          (List.mem_append.1 hu).elim (Runs.fifo h).mem_accepted (Runs.accepted_of_pending h)
        exact (Runs.before_run h (.single hs) hacc huacc).2 hut
      have hold : ∀ u ∈ collectedTasks evs, s'.Before u t := by
        intro u hu
        refine hkept u (List.mem_append_left _ ?_) (hbefore u hu)
        rw [collectedTasks, List.flatMap_append]
        exact List.mem_append_right _ hu
      rw [collectedTasks_snoc, collections, total_snoc, ← collections, List.length_append, hlen,
        Nat.mul_add]
      by_cases hcol : ∃ batch, e = .collect batch
      · obtain ⟨batch, rfl⟩ := hcol
        obtain ⟨rfl, hrest, -⟩ := Runs.collect_step h hs
        rw [hrest] at ht'
        have hfull : cfg.batchLimit ≤ s.pending.length := by
          by_contra hno
          rw [List.drop_eq_nil_of_le (by omega)] at ht'
          exact absurd ht' List.not_mem_nil
        have hsorted := Runs.pending_ordered h
        rw [← List.take_append_drop cfg.batchLimit s.pending] at hsorted
        constructor
        · simp only [Event.collects, Event.collections, List.length_take]
          omega
        · intro u hu
          rcases List.mem_append.1 hu with hu | hu
          · exact hold u hu
          · refine hkept u (List.mem_append_right _ (List.mem_of_mem_take hu)) ?_
            exact (List.pairwise_append.1 hsorted).2.2 u hu t ht'
      · have hnone : e.collects = [] ∧ e.collections = 0 := by
          cases e with
          | collect batch => exact absurd ⟨batch, rfl⟩ hcol
          | _ => exact ⟨rfl, rfl⟩
        rw [hnone.1, hnone.2, List.append_nil]
        exact ⟨rfl, hold⟩

/-- Whoever is out of line was collected, or timed out and got its signal. -/
theorem Runs.left_line (hu : u ∈ s₀.pending ++ acceptedTasks evs) (hu' : u ∉ s.pending) :
    u ∈ collectedTasks evs ∨ .signal u ∈ evs := by
  induction hr with
  | nil => exact absurd (by simpa [acceptedTasks] using hu) hu'
  | @snoc evs s s' e hr hs ih =>
      rw [collectedTasks_snoc]
      by_cases hmem : u ∈ s.pending
      · rcases hs.leaves_line (Runs.iteratorOk (h₀.trans hr)) hmem hu' with h | rfl
        · exact .inl (List.mem_append_right _ h)
        · exact .inr (List.mem_append_right _ (List.mem_singleton_self _))
      · rw [acceptedTasks_snoc, ← List.append_assoc] at hu
        rcases List.mem_append.1 hu with hu | hu
        · exact (ih hu hmem).imp (List.mem_append_left _) (List.mem_append_left _)
        · cases e with
          | accept v =>
              obtain rfl := List.mem_singleton.1 hu
              exact absurd hs.accepted_pending hu'
          | _ => exact absurd hu List.not_mem_nil

/-- Before a task in line there were those ahead of it, and there came the more urgent ones. -/
theorem Runs.countP_line (ht : t ∈ s₀.pending) :
    (s₀.pending ++ acceptedTasks evs).countP (fun u => s.Before u t) =
      s₀.ahead t + s.overtaking t (acceptedTasks evs) := by
  have hacc := Runs.accepted_of_pending h₀ ht
  obtain ⟨hord, -⟩ := Runs.idsOrdered (h₀.trans hr)
  rw [acceptedTasks_append] at hord
  have hlater := (List.pairwise_append.1 hord).2.2
  rw [List.countP_append]
  congr 1
  · rw [State.ahead, ← countP_eq_idxOf (before_asymm s₀) (Runs.pending_ordered h₀) ht]
    refine List.countP_congr fun u hu => ?_
    simp only [decide_eq_true_eq]
    exact Runs.before_run h₀ hr hacc (Runs.accepted_of_pending h₀ hu)
  · refine List.countP_congr fun u hu => ?_
    rw [decide_eq_true_eq, decide_eq_true_eq]
    refine or_iff_left ?_
    rintro ⟨-, hlt⟩
    exact lt_asymm hlt (hlater t hacc u hu)

/-- **The law of a run**: a task that stays in line ends where its first place, the more urgent
newcomers, the collections and those that timed out before it put it. -/
theorem Runs.ahead_run (ht : t ∈ s₀.pending) (ht' : t ∈ s.pending) :
    s.ahead t + cfg.batchLimit * collections evs +
        (lapsed s₀ evs s).countP (fun u => s.Before u t) =
      s₀.ahead t + s.overtaking t (acceptedTasks evs) := by
  have h := h₀.trans hr
  obtain ⟨hpendingIn, hcollectedIn⟩ := Runs.line_run h₀ hr
  obtain ⟨hlen, hbefore⟩ := Runs.collected_run h₀ hr ht ht'
  obtain ⟨hnodup, hdisjoint⟩ := Runs.collected_nodup h
  rw [collectedTasks, List.flatMap_append] at hnodup hdisjoint
  have hline : (s₀.pending ++ acceptedTasks evs).Nodup := by
    have haccepted := Runs.accepted_nodup h
    rw [acceptedTasks_append] at haccepted
    obtain ⟨-, hnew, hdisj⟩ := List.nodup_append.1 haccepted
    exact List.nodup_append.2 ⟨Runs.pending_nodup h₀, hnew,
      fun u hu v hv => hdisj u (Runs.accepted_of_pending h₀ hu) v hv⟩
  have hsplit := countP_split hline (Runs.pending_nodup h) (List.nodup_append.1 hnodup).2.1
    hpendingIn hcollectedIn (fun u hu hc => hdisjoint u hu (List.mem_append_right _ hc))
    (fun u => s.Before u t)
  have hall : (collectedTasks evs).countP (fun u => s.Before u t) = (collectedTasks evs).length :=
    List.countP_eq_length.2 fun u hu => decide_eq_true (hbefore u hu)
  rw [Runs.countP_line h₀ hr ht, countP_eq_idxOf (before_asymm s) (Runs.pending_ordered h) ht',
    ← State.ahead] at hsplit
  change (collectedTasks evs).countP _ = _ at hall
  rw [show List.flatMap Event.collects evs = collectedTasks evs from rfl, hall, hlen] at hsplit
  exact hsplit.symm

end

/-- A task in line has fewer than `max_queue_size_` before it. -/
theorem Runs.ahead_lt (hmax : 0 < cfg.maxQueueSize) (h : Runs cfg w evs s) (ht : t ∈ s.pending) :
    (s.ahead t : ℤ) < cfg.maxQueueSize := by
  have hlt : s.ahead t < s.pending.length := List.idxOf_lt_length_of_mem ht
  have hle := Runs.pendingCount_le hmax h
  rw [s.length_pending] at hlt
  omega

/-- Nothing is more urgent than priority 0. -/
theorem overtaking_zero (h : (s.tasks t).priority = 0) (l : List TaskRef) :
    s.overtaking t l = 0 := by
  refine List.countP_eq_zero.2 fun u _ => ?_
  rw [decide_eq_true_eq, h, MoreUrgent]
  omega

/-- **Bounded overtaking.**  Take a task in line in any reachable state and any run from there.  As
long as it is in line, its place is its first one, one further back for each accepted request of a
more urgent class, and to the front by `max_batch_size` for each collection and by one for each
request that timed out in line before it; requests of its own class or of a less urgent one do not
count.  Once it is out of line it was collected, or it timed out and got its signal, like all that
timed out.  So it is out of line as soon as the collections outnumber the places, for a request of
priority 0 after `max_queue_size / max_batch_size` collections, whatever arrives. -/
theorem bounded_overtaking (h₀ : Runs cfg w evs₀ s₀) (ht : t ∈ s₀.pending)
    (hr : Run (Step cfg w) s₀ evs s) :
    (t ∈ s.pending →
      s.ahead t + cfg.batchLimit * collections evs +
          (lapsed s₀ evs s).countP (fun u => s.Before u t) =
        s₀.ahead t + s.overtaking t (acceptedTasks evs)) ∧
      (∀ u ∈ lapsed s₀ evs s, .signal u ∈ evs) ∧
      (t ∉ s.pending → t ∈ collectedTasks evs ∨ .signal t ∈ evs) ∧
      (s₀.ahead t + s.overtaking t (acceptedTasks evs) < cfg.batchLimit * collections evs →
        t ∈ collectedTasks evs ∨ .signal t ∈ evs) ∧
      ((s₀.tasks t).priority = 0 → 0 < cfg.maxQueueSize →
        cfg.maxQueueSize ≤ cfg.batchLimit * collections evs →
        t ∈ collectedTasks evs ∨ .signal t ∈ evs) := by
  have hlaw := Runs.ahead_run h₀ hr ht
  have hleft : t ∉ s.pending → t ∈ collectedTasks evs ∨ .signal t ∈ evs :=
    Runs.left_line h₀ hr (List.mem_append_left _ ht)
  refine ⟨hlaw, fun u hu => ?_, hleft, fun hmany => ?_, fun hzero hmax hmany => ?_⟩
  · obtain ⟨hline, hgone⟩ := List.mem_filter.1 hu
    obtain ⟨hout, hnot⟩ := of_decide_eq_true hgone
    exact (Runs.left_line h₀ hr hline hout).resolve_left hnot
  · refine hleft fun hin => ?_
    have := hlaw hin
    omega
  · refine hleft fun hin => ?_
    have hkept := (Runs.kept_run h₀ hr (Runs.accepted_of_pending h₀ ht)).1
    have hsum := hlaw hin
    rw [overtaking_zero (hkept.trans hzero)] at hsum
    have hlt := Runs.ahead_lt hmax h₀ ht
    omega

/-- Three requests are in line. -/
def threeInLine : List (Action ℤ) :=
  [.start, .construct 0 [] [3] 1 99 7, .enqueue 0 98, .construct 1 [] [4] 1 200 8, .enqueue 1 98,
    .construct 2 [] [5] 2 200 9, .enqueue 2 98]

/-- Then a more urgent one is accepted, the first one times out, and one is collected. -/
def oneLapses : List (Action ℤ) :=
  [.construct 3 [] [6] 0 200 10, .enqueue 3 99] ++ List.replicate 30 (.run 100)

/-- The third request was overtaken by one, one timed out before it, and one was collected: it has
moved on by one place. -/
theorem bounded_overtaking_third : ∃ (evs₀ evs : List Event) (s₀ s : State ℤ),
    Runs { maxBatchSize := 1 } (mockWorld {} fun _ => []) evs₀ s₀ ∧
      Run (Step { maxBatchSize := 1 } (mockWorld {} fun _ => [])) s₀ evs s ∧
      s₀.pending = [0, 1, 2] ∧ acceptedTasks evs = [3] ∧ collectedTasks evs = [3] ∧
      s.pending = [1, 2] ∧ s.ahead 2 + 1 * 1 + 1 = s₀.ahead 2 + 1 ∧ .signal 0 ∈ evs := by
  obtain ⟨evs₀, s₀, evs, s, h₀, hr, hshown⟩ := Run.of_scripts { maxBatchSize := 1 }
    (mockWorld {} fun _ => []) (fun _ _ _ => true) (fun _ _ _ hs _ => hs) threeInLine oneLapses
    (fun _ s₀ evs s => [s₀.pending, acceptedTasks evs, collectedTasks evs, s.pending,
      lapsed s₀ evs s, [collections evs, (lapsed s₀ evs s).countP fun u => s.Before u 2,
        s.overtaking 2 (acceptedTasks evs)]])
    (b := [[0, 1, 2], [3], [3], [1, 2], [0], [1, 1, 1]]) (by decide +kernel)
  simp only [List.cons.injEq, and_true] at hshown
  obtain ⟨hpending₀, hacc, hcol, hpending, hlapsed, hcount, hone, hover⟩ := hshown
  obtain ⟨hlaw, hsignal, -⟩ := bounded_overtaking (t := 2) h₀ (by simp [hpending₀]) hr
  have hlaw := hlaw (by simp [hpending])
  rw [hcount, hone, hover] at hlaw
  exact ⟨evs₀, evs, s₀, s, h₀, hr, hpending₀, hacc, hcol, hpending, hlaw,
    hsignal 0 (by simp [hlapsed])⟩

end Gateway.Sched
