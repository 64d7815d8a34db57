/-
**Order and admission: the three queues over whole runs.**

The queues are touched by `enqueue` at their ends, by `collect_batch` at their fronts and by
`cleanup_expired` anywhere.  None of the three reorders, so the tasks of one class pass through
their queue in the order of their acceptance, which is the order of their ids; and none of the three
adds beyond the bound that `enqueue` tests.

Main definitions:

* `Gateway.Sched.State.classOf` — the class of a task;
* `Gateway.Sched.acceptedTasks`, `Gateway.Sched.collectedTasks` — the tasks accepted and collected
  by a run, in order;
* `Gateway.Sched.MoreUrgent`, `Gateway.Sched.EquallyUrgent` — the order of the priorities;
* `Gateway.Sched.CallPc.History` — what a run has decided about a call.

Main results:

* `Gateway.Sched.Step.queueMove` — all that a step can do to the queues;
* `Gateway.Sched.Runs.fifo` — the collected tasks of a class, followed by its queue, are a
  subsequence of its accepted tasks;
* `Gateway.Sched.priority_fifo` — **priority and first-in-first-out order**;
* `Gateway.Sched.admission_control` — **the bound on the queues and the exits of `enqueue`**.
-/

import InferenceGateway.SchedulerPlace
import InferenceGateway.SchedulerReplay

set_option relaxedAutoImplicit false
set_option autoImplicit false

namespace Gateway.Sched

variable {F : Type} {cfg : Config} {w : World F} {s s' s₁ : State F} {e : Event}

/-! ### What a step can do to the queues -/

/-- The class of a task. -/
def State.classOf (s : State F) (t : TaskRef) : QueueClass := .ofPriority (s.tasks t).priority

/-- The task that an event accepts. -/
def Event.accepts : Event → List TaskRef
  | .accept t => [t]
  | _ => []

/-- The tasks that an event collects. -/
def Event.collects : Event → List TaskRef
  | .collect batch => batch
  | _ => []

/-- **All that a step can do to the queues**: append an accepted task to the queue of its class,
take the collected prefix, erase one task, or nothing. -/
inductive QueueMove (cfg : Config) (s : State F) (e : Event) (s' : State F) : Prop
  | accept (t : TaskRef) (now : ℤ) :
      e = .accept t → s.calls t = .built → ¬ s.full cfg → s'.nextTaskId = s.nextTaskId + 1 →
      s'.tasks = Function.update s.tasks t
        { s.tasks t with taskId := s.nextTaskId, arrivalTime := now } →
      s'.queue (s.classOf t) = s.queue (s.classOf t) ++ [t] →
      (∀ c, c ≠ s.classOf t → s'.queue c = s.queue c) → QueueMove cfg s e s'
  | collect :
      e = .collect (s.pending.take cfg.batchLimit) → s'.nextTaskId = s.nextTaskId →
      s'.tasks = s.tasks → (∀ c, s'.queue c = (s.collected cfg).queue c) → QueueMove cfg s e s'
  | erase (c : QueueClass) (i : ℕ) :
      e.accepts = [] → e.collects = [] → s'.nextTaskId = s.nextTaskId →
      s'.queue c = (s.queue c).eraseIdx i → (∀ d, d ≠ c → s'.queue d = s.queue d) →
      QueueMove cfg s e s'
  | keep :
      e.accepts = [] → e.collects = [] → s'.nextTaskId = s.nextTaskId →
      (∀ c, s'.queue c = s.queue c) → QueueMove cfg s e s'

theorem CallStep.queueMove {t : TaskRef} (hs : CallStep cfg w t s e s') : QueueMove cfg s e s' := by
  cases hs with
  | accept now hc hl he =>
      obtain ⟨hfull, rfl⟩ := enqueue_eq_true he
      refine .accept t now rfl hc hfull (by simp) (by simp) ?_ fun c hne => ?_
      · unfold State.classOf
        cases QueueClass.ofPriority (s.tasks t).priority <;> rfl
      · revert hne
        unfold State.classOf
        cases QueueClass.ofPriority (s.tasks t).priority <;> cases c <;>
          first | exact fun _ => rfl | exact fun h => absurd rfl h
  | reject now hc hl he =>
      obtain ⟨-, rfl⟩ := enqueue_eq_false he
      exact .keep rfl rfl rfl fun c => by cases c <;> rfl
  | _ => exact .keep rfl rfl rfl fun c => by cases c <;> rfl

theorem RunStep.queueMove (hs : RunStep cfg w s e s') : QueueMove cfg s e s' := by
  cases hs with
  | collect batch hm hpc hb =>
      obtain ⟨rfl, rfl⟩ := eq_of_collectBatch hb
      exact .collect rfl rfl rfl fun c => by cases c <;> rfl
  | cleanSignal t second now c i hm hpc =>
      refine .erase c i rfl rfl (by simp) ?_ fun d hne => ?_
      · cases c <;> rfl
      · cases c <;> cases d <;> first | rfl | exact absurd rfl hne
  | _ => exact .keep rfl rfl rfl fun c => by cases c <;> rfl

theorem Step.queueMove (hs : Step cfg w s e s') : QueueMove cfg s e s' := by
  cases hs with
  | call t hs => exact hs.queueMove
  | run hs => exact hs.queueMove
  | exec n hx hs =>
      obtain ⟨h₁, h₂, h₃, -, hid, -⟩ := hs.frame
      refine .keep ?_ ?_ (by simpa using hid) fun c => ?_
      · cases hs <;> rfl
      · cases hs <;> rfl
      · cases c
        · exact h₁
        · exact h₂
        · exact h₃
  | start _ => exact .keep rfl rfl rfl fun c => by cases c <;> rfl
  | stop => exact .keep rfl rfl rfl fun c => by cases c <;> rfl
  | stopPost _ => exact .keep rfl rfl rfl fun c => by cases c <;> rfl

/-! ### Ids in the order of acceptance -/

/-- The tasks accepted by a run, in order. -/
def acceptedTasks (evs : List Event) : List TaskRef := evs.flatMap Event.accepts

/-- The tasks collected by a run, in order. -/
def collectedTasks (evs : List Event) : List TaskRef := evs.flatMap Event.collects

@[simp] theorem acceptedTasks_snoc (evs : List Event) (e : Event) :
    acceptedTasks (evs ++ [e]) = acceptedTasks evs ++ e.accepts := by simp [acceptedTasks]

@[simp] theorem collectedTasks_snoc (evs : List Event) (e : Event) :
    collectedTasks (evs ++ [e]) = collectedTasks evs ++ e.collects := by simp [collectedTasks]

theorem mem_acceptedTasks {evs : List Event} {t : TaskRef} :
    t ∈ acceptedTasks evs ↔ .accept t ∈ evs := by
  simp only [acceptedTasks, List.mem_flatMap]
  constructor
  · rintro ⟨e, he, ht⟩
    cases e with
    | accept u =>
        obtain rfl := List.mem_singleton.1 ht
        exact he
    | _ => exact absurd ht List.not_mem_nil
  · exact fun h => ⟨_, h, List.mem_singleton_self t⟩

/-- The order in which tasks got their ids. -/
def State.Earlier (s : State F) (t u : TaskRef) : Prop := (s.tasks t).taskId < (s.tasks u).taskId

/-- The accepted tasks in order, with ids that increase towards the next free one. -/
def State.IdsOrdered (s : State F) (accepted : List TaskRef) : Prop :=
  accepted.Pairwise s.Earlier ∧ ∀ t ∈ accepted, (s.tasks t).taskId < s.nextTaskId

theorem taskId_congr {x y : InferenceTask F} (h : x.request = y.request) : x.taskId = y.taskId := by
  simp only [InferenceTask.request, Prod.mk.injEq] at h
  exact h.1

/-- A step changes neither the id nor the class of a task that was accepted before. -/
theorem Runs.step_kept {evs : List Event} (h : Runs cfg w evs s) (hs : Step cfg w s e s')
    {t : TaskRef} (ht : t ∈ acceptedTasks evs) :
    (s'.tasks t).taskId = (s.tasks t).taskId ∧ s'.classOf t = s.classOf t := by
  have hreq := hs.request (Runs.acceptable_of_accepted h (mem_acceptedTasks.1 ht))
  refine ⟨taskId_congr hreq, ?_⟩
  simp only [InferenceTask.request, Prod.mk.injEq] at hreq
  simp only [State.classOf, hreq]

/-- **Ids increase in the order of acceptance.** -/
theorem Runs.idsOrdered {evs : List Event} (h : Runs cfg w evs s) :
    s.IdsOrdered (acceptedTasks evs) := by
  refine h.invariant (P := fun evs s => s.IdsOrdered (acceptedTasks evs))
    ⟨List.Pairwise.nil, by simp [acceptedTasks]⟩ ?_
  rintro evs s e s' hr ⟨hord, hlt⟩ hs
  -- the tasks accepted so far keep their order, whatever the step does
  have hord' : (acceptedTasks evs).Pairwise s'.Earlier := by
    refine hord.imp_of_mem fun {t u} ht hu htu => ?_
    simpa only [State.Earlier, (Runs.step_kept hr hs ht).1, (Runs.step_kept hr hs hu).1] using htu
  have hlt' : ∀ t ∈ acceptedTasks evs, (s'.tasks t).taskId < s.nextTaskId := fun t ht => by
    rw [(Runs.step_kept hr hs ht).1]
    exact hlt t ht
  have hold : s'.nextTaskId = s.nextTaskId → e.accepts = [] →
      s'.IdsOrdered (acceptedTasks (evs ++ [e])) := fun hid hacc => by
    rw [acceptedTasks_snoc, hacc, List.append_nil]
    exact ⟨hord', fun t ht => hid ▸ hlt' t ht⟩
  cases hs.queueMove with
  | accept t now he hcall hfull hid htasks hq hq' =>
      have hnew : (s'.tasks t).taskId = s.nextTaskId := by simp [htasks]
      subst he
      rw [acceptedTasks_snoc]
      refine ⟨List.pairwise_append.2 ⟨hord', List.pairwise_singleton _ _, ?_⟩, ?_⟩
      · rintro u hu v hv
        obtain rfl := List.mem_singleton.1 hv
        rw [State.Earlier, hnew]
        exact hlt' u hu
      · intro u hu
        rcases List.mem_append.1 hu with hu | hu
        · exact hid ▸ Nat.lt_succ_of_lt (hlt' u hu)
        · obtain rfl := List.mem_singleton.1 hu
          rw [hnew, hid]
          exact Nat.lt_succ_self _
  | collect he hid htasks hq => exact hold hid (by rw [he]; rfl)
  | erase c i hacc _ hid _ _ => exact hold hid hacc
  | keep hacc _ hid _ => exact hold hid hacc

/-! ### First in, first out -/

/-- Every queue holds tasks of its own class. -/
def State.Classed (s : State F) : Prop := ∀ c, ∀ t ∈ s.queue c, s.classOf t = c

/-- The pending tasks stand in the order of their urgency. -/
theorem State.Classed.pending_sorted (h : s.Classed) :
    s.pending.Pairwise fun t u => (s.classOf t).rank ≤ (s.classOf u).rank := by
  have hwithin : ∀ c, (s.queue c).Pairwise fun t u => (s.classOf t).rank ≤ (s.classOf u).rank :=
    fun c => List.pairwise_of_forall_mem_list fun t ht u hu => by rw [h c t ht, h c u hu]
  have hbetween : ∀ c d : QueueClass, c.rank ≤ d.rank → ∀ t ∈ s.queue c, ∀ u ∈ s.queue d,
      (s.classOf t).rank ≤ (s.classOf u).rank := fun c d hcd t ht u hu => by
    rw [h c t ht, h d u hu]
    exact hcd
  refine List.pairwise_append.2 ⟨List.pairwise_append.2
    ⟨hwithin .high, hwithin .mid, hbetween .high .mid (by decide)⟩, hwithin .low, ?_⟩
  intro t ht u hu
  rcases List.mem_append.1 ht with ht | ht
  · exact hbetween .high .low (by decide) t ht u hu
  · exact hbetween .mid .low (by decide) t ht u hu

/-- Of each class, a collection takes the front of its queue. -/
theorem State.Classed.filter_collected (h : s.Classed) (c : QueueClass) :
    (s.pending.take cfg.batchLimit).filter (fun t => s.classOf t = c) ++ (s.collected cfg).queue c =
      s.queue c := by
  have hself : ∀ n, ((s.queue c).take n).filter (fun t => s.classOf t = c) = (s.queue c).take n :=
    fun n => List.filter_eq_self.2 fun t ht => by simpa using h c t (List.mem_of_mem_take ht)
  have hother : ∀ d n, d ≠ c → ((s.queue d).take n).filter (fun t => s.classOf t = c) = [] :=
    fun d n hd => List.filter_eq_nil_iff.2 fun t ht => by
      simpa [h d t (List.mem_of_mem_take ht)] using hd
  simp only [State.pending, List.take_append, List.filter_append, ← State.queue_high,
    ← State.queue_mid, ← State.queue_low]
  cases c with
  | high =>
      rw [hself, hother .mid _ (by decide), hother .low _ (by decide)]
      simp [State.collected]
  | mid =>
      rw [hself, hother .high _ (by decide), hother .low _ (by decide)]
      simp [State.collected]
  | low =>
      rw [hself, hother .high _ (by decide), hother .mid _ (by decide)]
      simp [State.collected, Nat.sub_sub]

theorem filter_classOf_congr {l : List TaskRef} (h : ∀ t ∈ l, s'.classOf t = s.classOf t)
    (c : QueueClass) :
    l.filter (fun t => s'.classOf t = c) = l.filter (fun t => s.classOf t = c) :=
  List.filter_congr fun t ht => by rw [h t ht]

/-- The collected tasks of a class and then its queue are among its accepted tasks, in order. -/
def State.Fifo (s : State F) (accepted collected : List TaskRef) : Prop :=
  ∀ c, (collected.filter (fun t => s.classOf t = c) ++ s.queue c).Sublist
    (accepted.filter fun t => s.classOf t = c)

theorem State.Fifo.classed {accepted collected : List TaskRef} (h : s.Fifo accepted collected) :
    s.Classed := fun c t ht => by
  have := (h c).subset (List.mem_append_right _ ht)
  simpa using (List.mem_filter.1 this).2

theorem State.Fifo.mem_accepted {accepted collected : List TaskRef} (h : s.Fifo accepted collected)
    {t : TaskRef} (ht : t ∈ collected) : t ∈ accepted := by
  have := (h (s.classOf t)).subset (List.mem_append_left _ (List.mem_filter.2 ⟨ht, by simp⟩))
  exact (List.mem_filter.1 this).1

/-- **First in, first out**: the tasks of a class enter batches in the order in which they were
accepted, and those still queued come after all that were collected. -/
theorem Runs.fifo {evs : List Event} (h : Runs cfg w evs s) :
    s.Fifo (acceptedTasks evs) (collectedTasks evs) := by
  refine h.invariant (P := fun evs s => s.Fifo (acceptedTasks evs) (collectedTasks evs)) ?_ ?_
  · intro c
    cases c <;> exact List.Sublist.refl _
  intro evs s e s' hr ih hs c
  have hkept : ∀ t ∈ acceptedTasks evs, s'.classOf t = s.classOf t :=
    fun t ht => (Runs.step_kept hr hs ht).2
  have hacc := filter_classOf_congr hkept c
  have hcol := filter_classOf_congr (fun t ht => hkept t (ih.mem_accepted ht)) c
  rw [acceptedTasks_snoc, collectedTasks_snoc, List.filter_append, List.filter_append, hacc, hcol]
  cases hs.queueMove with
  | accept t now he hcall hfull hid htasks hq hq' =>
      have hclass : s'.classOf t = s.classOf t := by simp [State.classOf, htasks]
      subst he
      simp only [Event.collects, Event.accepts, List.filter_nil, List.append_nil]
      by_cases hc : c = s.classOf t
      · subst hc
        rw [hq, ← List.append_assoc, List.filter_cons_of_pos (by simpa using hclass),
          List.filter_nil]
        exact (ih _).append (List.Sublist.refl _)
      · rw [hq' c hc, List.filter_cons_of_neg (by simpa [hclass] using Ne.symm hc), List.filter_nil,
          List.append_nil]
        exact ih c
  | collect he hid htasks hq =>
      subst he
      have hclass : ∀ t, s'.classOf t = s.classOf t := fun t => by simp [State.classOf, htasks]
      simp only [Event.collects, Event.accepts, List.filter_nil, List.append_nil, hclass]
      rw [hq, List.append_assoc, ih.classed.filter_collected c]
      exact ih c
  | erase d i ha hb _ hq hq' =>
      rw [ha, hb, List.filter_nil, List.append_nil, List.append_nil]
      by_cases hd : c = d
      · subst hd
        rw [hq]
        exact ((List.Sublist.refl _).append (List.eraseIdx_sublist _ _)).trans (ih c)
      · rw [hq' c hd]
        exact ih c
  | keep ha hb _ hq =>
      rw [ha, hb, hq, List.filter_nil, List.append_nil, List.append_nil]
      exact ih c

/-- The tasks that a collection leaves behind are the rest of the pending ones. -/
theorem State.pending_collected (cfg : Config) (s : State F) :
    (s.collected cfg).pending = s.pending.drop cfg.batchLimit :=
  List.append_cancel_left
    ((take_append_pending_collected cfg s).trans (List.take_append_drop _ _).symm)

/-- What a collection does in a reached state: it takes the prefix, keeps the rest, and leaves
nothing behind that is more urgent than what it takes. -/
theorem Runs.collect_step {evs : List Event} (h : Runs cfg w evs s) {batch : List TaskRef}
    (hs : Step cfg w s (.collect batch) s') :
    batch = s.pending.take cfg.batchLimit ∧ s'.pending = s.pending.drop cfg.batchLimit ∧
      ∀ t ∈ batch, ∀ u ∈ s'.pending, ¬ (s.classOf u).rank < (s.classOf t).rank := by
  cases hs with
  | call t hs => cases hs
  | exec n hx hs => cases hs
  | run hs =>
      cases hs with
      | collect _ hm hpc hb =>
          obtain ⟨rfl, rfl⟩ := eq_of_collectBatch hb
          have hrest := s.pending_collected cfg
          refine ⟨rfl, hrest, fun t ht u hu => not_lt.2 ?_⟩
          have hsorted := (Runs.fifo h).classed.pending_sorted
          rw [← List.take_append_drop cfg.batchLimit s.pending] at hsorted
          exact (List.pairwise_append.1 hsorted).2.2 t ht u (hrest ▸ hu)

theorem State.queue_collected_suffix (cfg : Config) (s : State F) (c : QueueClass) :
    ((s.collected cfg).queue c).IsSuffix (s.queue c) := by
  cases c <;> exact List.drop_suffix _ _

/-- Tasks in the order of their ids are determined by them. -/
theorem eq_of_taskId_eq {l : List TaskRef} (h : l.Pairwise s.Earlier) {t u : TaskRef} (ht : t ∈ l)
    (hu : u ∈ l) (heq : (s.tasks t).taskId = (s.tasks u).taskId) : t = u := by
  obtain ⟨i, hi, rfl⟩ := List.getElem_of_mem ht
  obtain ⟨j, hj, rfl⟩ := List.getElem_of_mem hu
  rw [List.pairwise_iff_getElem] at h
  rcases Nat.lt_trichotomy i j with hij | rfl | hij
  · exact absurd heq (h i j hi hj hij).ne
  · rfl
  · exact absurd heq (h j i hj hi hij).ne'

/-! ### Priorities -/

/-- A request of priority `p` is served before one of priority `q`: 0 is served first and 2 last. -/
def MoreUrgent (p q : ℤ) : Prop := p = 0 ∧ q ≠ 0 ∨ p ≠ 2 ∧ q = 2

instance (p q : ℤ) : Decidable (MoreUrgent p q) := inferInstanceAs (Decidable (_ ∨ _))

/-- Neither of two priorities is served before the other. -/
def EquallyUrgent (p q : ℤ) : Prop := ¬ MoreUrgent p q ∧ ¬ MoreUrgent q p

instance (p q : ℤ) : Decidable (EquallyUrgent p q) := inferInstanceAs (Decidable (_ ∧ _))

/-- The three cases of `switch (task->priority)`. -/
theorem ofPriority_cases (p : ℤ) :
    p = 0 ∧ QueueClass.ofPriority p = .high ∨ p = 2 ∧ QueueClass.ofPriority p = .low ∨
      (p ≠ 0 ∧ p ≠ 2) ∧ QueueClass.ofPriority p = .mid := by
  unfold QueueClass.ofPriority
  by_cases h₀ : p = 0
  · exact .inl ⟨h₀, if_pos h₀⟩
  · rw [if_neg h₀]
    by_cases h₂ : p = 2
    · exact .inr (.inl ⟨h₂, if_pos h₂⟩)
    · exact .inr (.inr ⟨⟨h₀, h₂⟩, if_neg h₂⟩)

/-- The three queues are served in the order of the priorities. -/
theorem rank_lt_iff (p q : ℤ) :
    (QueueClass.ofPriority p).rank < (QueueClass.ofPriority q).rank ↔ MoreUrgent p q := by
  unfold MoreUrgent
  rcases ofPriority_cases p with ⟨hp, hp'⟩ | ⟨hp, hp'⟩ | ⟨hp, hp'⟩ <;>
    rcases ofPriority_cases q with ⟨hq, hq'⟩ | ⟨hq, hq'⟩ | ⟨hq, hq'⟩ <;>
      simp only [hp', hq', QueueClass.rank] <;> omega

theorem rank_injective {c d : QueueClass} (h : c.rank = d.rank) : c = d := by
  cases c <;> cases d <;> first | rfl | cases h

theorem ofPriority_eq_iff (p q : ℤ) :
    QueueClass.ofPriority p = .ofPriority q ↔ EquallyUrgent p q := by
  rw [EquallyUrgent, ← rank_lt_iff, ← rank_lt_iff, not_lt, not_lt]
  exact ⟨fun h => ⟨h ▸ le_rfl, h ▸ le_rfl⟩, fun h => rank_injective (le_antisymm h.2 h.1)⟩

/-- The tasks that are as urgent as `p` are those of one class. -/
theorem filter_equallyUrgent (s : State F) (p : ℤ) (l : List TaskRef) :
    l.filter (fun t => EquallyUrgent (s.tasks t).priority p) =
      l.filter fun t => s.classOf t = .ofPriority p :=
  List.filter_congr fun _ _ => decide_eq_decide.2 (ofPriority_eq_iff _ _).symm

/-- Each queue holds its priorities only. -/
theorem State.Classed.priorities (h : s.Classed) :
    (∀ t ∈ s.queueHigh, (s.tasks t).priority = 0) ∧
      (∀ t ∈ s.queueMid, (s.tasks t).priority ≠ 0 ∧ (s.tasks t).priority ≠ 2) ∧
      ∀ t ∈ s.queueLow, (s.tasks t).priority = 2 := by
  refine ⟨fun t ht => ?_, fun t ht => ?_, fun t ht => ?_⟩
  · have hclass := h .high t ht
    rcases ofPriority_cases (s.tasks t).priority with ⟨hp, -⟩ | ⟨-, hp⟩ | ⟨-, hp⟩
    · exact hp
    · cases hp.symm.trans hclass
    · cases hp.symm.trans hclass
  · have hclass := h .mid t ht
    rcases ofPriority_cases (s.tasks t).priority with ⟨-, hp⟩ | ⟨-, hp⟩ | ⟨hp, -⟩
    · cases hp.symm.trans hclass
    · cases hp.symm.trans hclass
    · exact hp
  · have hclass := h .low t ht
    rcases ofPriority_cases (s.tasks t).priority with ⟨-, hp⟩ | ⟨hp, -⟩ | ⟨-, hp⟩
    · cases hp.symm.trans hclass
    · exact hp
    · cases hp.symm.trans hclass

/-- **Priority and first-in-first-out order.**  In every reachable state the ids of accepted tasks
are distinct and grow in the order of acceptance, each queue is strictly increasing in them, and
tasks of priority 0 are in `queue_high_` only, those of priority 2 in `queue_low_` only and all
others in `queue_mid_` only.  From every such state, under every setting, `collect_batch` takes the
first `min (max (max_batch_size, 0), pending)` tasks of `queue_high_ ++ queue_mid_ ++ queue_low_`
and keeps the rest in order.  Over the whole run the tasks that are equally urgent enter batches in
the order in which they were accepted, and no collection leaves a pending task behind that is more
urgent than one it takes. -/
theorem priority_fifo {evs : List Event} (h : Runs cfg w evs s) :
    (∀ c, (s.queue c).Pairwise fun t u => (s.tasks t).taskId < (s.tasks u).taskId) ∧
      (acceptedTasks evs).Pairwise (fun t u => (s.tasks t).taskId < (s.tasks u).taskId) ∧
      (∀ t u, .accept t ∈ evs → .accept u ∈ evs →
        (s.tasks t).taskId = (s.tasks u).taskId → t = u) ∧
      ((∀ t ∈ s.queueHigh, (s.tasks t).priority = 0) ∧
        (∀ t ∈ s.queueMid, (s.tasks t).priority ≠ 0 ∧ (s.tasks t).priority ≠ 2) ∧
        ∀ t ∈ s.queueLow, (s.tasks t).priority = 2) ∧
      (∀ cfg' : Config, (collectBatch cfg' s).1 =
            (s.queueHigh ++ s.queueMid ++ s.queueLow).take
              (min (max cfg'.maxBatchSize 0).toNat s.pendingCount) ∧
          (collectBatch cfg' s).2.pending =
            (s.queueHigh ++ s.queueMid ++ s.queueLow).drop
              (min (max cfg'.maxBatchSize 0).toNat s.pendingCount) ∧
          ∀ c, ((collectBatch cfg' s).2.queue c).IsSuffix (s.queue c)) ∧
      (∀ p, ((collectedTasks evs).filter fun t => EquallyUrgent (s.tasks t).priority p).Sublist
        ((acceptedTasks evs).filter fun t => EquallyUrgent (s.tasks t).priority p)) ∧
      ∀ batch s', Step cfg w s (.collect batch) s' → ∀ t ∈ batch, ∀ u ∈ s'.pending,
        u ∈ s.pending ∧ ¬ MoreUrgent (s.tasks u).priority (s.tasks t).priority := by
  obtain ⟨hord, -⟩ := Runs.idsOrdered h
  have hfifo := Runs.fifo h
  refine ⟨fun c => ?_, hord, ?_, hfifo.classed.priorities, ?_, ?_, ?_⟩
  · exact hord.sublist (((List.sublist_append_right _ _).trans (hfifo c)).trans List.filter_sublist)
  · intro t u ht hu heq
    exact eq_of_taskId_eq hord (mem_acceptedTasks.2 ht) (mem_acceptedTasks.2 hu) heq
  · intro cfg'
    change _ = s.pending.take _ ∧ _ = s.pending.drop _ ∧ _
    rw [collectBatch_eq, ← s.length_pending, ← List.take_eq_take_min, ← List.drop_eq_drop_min]
    exact ⟨rfl, s.pending_collected cfg', s.queue_collected_suffix cfg'⟩
  · intro p
    rw [filter_equallyUrgent, filter_equallyUrgent]
    exact (List.sublist_append_left _ _).trans (hfifo _)
  · intro batch s' hs t ht u hu
    obtain ⟨-, hrest, hurgent⟩ := Runs.collect_step h hs
    refine ⟨List.mem_of_mem_drop (hrest ▸ hu), fun hmore => hurgent t ht u hu ?_⟩
    exact (rank_lt_iff _ _).2 hmore

/-- Four requests of priorities 2, 1, 0 and 5 are accepted, the first two in the order of service
are collected and submitted, and then a request of priority 0 comes and goes before the fourth. -/
def twoBatches : List (Action ℤ) :=
  [.start, .construct 0 [] [3] 2 101 7, .enqueue 0 100, .construct 1 [] [4] 1 101 8,
    .enqueue 1 100, .construct 2 [] [5] 0 101 9, .enqueue 2 100, .construct 3 [] [6] 5 101 10,
    .enqueue 3 100] ++ List.replicate 33 (.run 100) ++
  [.construct 4 [] [7] 0 101 11, .enqueue 4 100] ++ List.replicate 13 (.run 100)

/-- Tasks 1 and 3 are equally urgent and were collected in the order of their acceptance, and task 0
still waits in `queue_low_`. -/
theorem priority_fifo_batches : ∃ (evs : List Event) (s : State ℤ),
    Runs { maxBatchSize := 2 } (mockWorld {} fun _ => []) evs s ∧
      acceptedTasks evs = [0, 1, 2, 3, 4] ∧ collectedTasks evs = [2, 1, 4, 3] ∧
      s.pending = [0] ∧ (s.tasks 0).priority = 2 ∧
      ((collectedTasks evs).filter fun t => EquallyUrgent (s.tasks t).priority 1).Sublist
        ((acceptedTasks evs).filter fun t => EquallyUrgent (s.tasks t).priority 1) := by
  obtain ⟨evs, s, h, hshown⟩ := Runs.of_script { maxBatchSize := 2 }
    (mockWorld {} fun _ => []) twoBatches
    (fun evs s => (acceptedTasks evs, collectedTasks evs, s.pending, s.queueLow))
    (b := ([0, 1, 2, 3, 4], [2, 1, 4, 3], [0], [0])) (by decide +kernel)
  simp only [Prod.mk.injEq] at hshown
  obtain ⟨hacc, hcol, hpending, hlow⟩ := hshown
  obtain ⟨-, -, -, ⟨-, -, hlow'⟩, -, hfifo, -⟩ := priority_fifo h
  exact ⟨evs, s, h, hacc, hcol, hpending, hlow' 0 (by simp [hlow]), hfifo 1⟩

/-! ### Admission -/

/-- The bound of `enqueue` holds after every step that keeps it. -/
theorem QueueMove.pendingCount_le (hmax : 0 < cfg.maxQueueSize) (hm : QueueMove cfg s e s')
    (h : (s.pendingCount : ℤ) ≤ cfg.maxQueueSize) : (s'.pendingCount : ℤ) ≤ cfg.maxQueueSize := by
  have hlen : ∀ s : State F, s.pendingCount =
      (s.queue .high).length + (s.queue .mid).length + (s.queue .low).length := fun _ => rfl
  cases hm with
  | accept t now he hcall hfull hid htasks hq hq' =>
      have hroom : (s.pendingCount : ℤ) < cfg.maxQueueSize := by
        by_contra hno
        exact hfull ⟨hmax, not_lt.1 hno⟩
      have hadd : ∀ c, (s'.queue c).length =
          (s.queue c).length + if c = s.classOf t then 1 else 0 := fun c => by
        by_cases hc : c = s.classOf t
        · subst hc
          simp [hq]
        · simp [hq' c hc, hc]
      have hone : s'.pendingCount = s.pendingCount + 1 := by
        rw [hlen, hlen, hadd, hadd, hadd]
        cases s.classOf t <;> simp <;> omega
      omega
  | collect he hid htasks hq =>
      have : ∀ c, (s'.queue c).length ≤ (s.queue c).length := fun c => by
        rw [hq]
        exact (s.queue_collected_suffix cfg c).length_le
      have h₁ := this .high
      have h₂ := this .mid
      have h₃ := this .low
      rw [hlen] at h ⊢
      omega
  | erase c i _ _ _ hq hq' =>
      have : ∀ d, (s'.queue d).length ≤ (s.queue d).length := fun d => by
        by_cases hd : d = c
        · subst hd
          rw [hq]
          exact (List.eraseIdx_sublist _ _).length_le
        · rw [hq' d hd]
      have h₁ := this .high
      have h₂ := this .mid
      have h₃ := this .low
      rw [hlen] at h ⊢
      omega
  | keep _ _ _ hq =>
      rw [hlen] at h ⊢
      simpa only [hq] using h

/-- **The queues never hold more than `max_queue_size_` tasks.** -/
theorem Runs.pendingCount_le {evs : List Event} (hmax : 0 < cfg.maxQueueSize)
    (h : Runs cfg w evs s) : (s.pendingCount : ℤ) ≤ cfg.maxQueueSize :=
  h.invariant_state (P := fun s => (s.pendingCount : ℤ) ≤ cfg.maxQueueSize) hmax.le
    fun _ _ _ hi hs => hs.queueMove.pendingCount_le hmax hi

/-- The events that decide about the call of `u`. -/
def Event.decides (u : TaskRef) : Event → Bool
  | .accept t | .reject t | .reply t _ => decide (t = u)
  | _ => false

/-- What has been decided about the call of `u` when its worker stands at a position: the call is
accepted and later answered, or it is rejected and answered with 503. -/
def CallPc.History (u : TaskRef) (decided : List Event) : CallPc → Prop
  | .absent | .built => decided = []
  | .posting | .checking | .blocked | .replying => decided = [.accept u]
  | .rejected => decided = [.reject u]
  | .returned reply => decided = [.accept u, .reply u reply] ∨
      reply = overloadedReply ∧ decided = [.reject u, .reply u reply]

theorem Step.history (hs : Step cfg w s e s') {u : TaskRef} {decided : List Event}
    (h : (s.calls u).History u decided) :
    (s'.calls u).History u (decided ++ [e].filter (Event.decides u)) := by
  cases hs with
  | call t hs =>
      by_cases hu : u = t
      · subst hu
        cases hs with
        | construct addr modelName inputData priority deadline clientFd hc hfree =>
            simpa [hc, CallPc.History, Event.decides] using h
        | accept now hc hl he => simpa [hc, CallPc.History, Event.decides] using h
        | reject now hc hl he => simpa [hc, CallPc.History, Event.decides] using h
        | post hc => simpa [hc, CallPc.History, Event.decides] using h
        | checkDone hc _ => simpa [hc, CallPc.History, Event.decides] using h
        | checkBlock hc _ => simpa [hc, CallPc.History, Event.decides] using h
        | wake hc => simpa [hc, CallPc.History, Event.decides] using h
        | etimedout hc => simpa [hc, CallPc.History, Event.decides] using h
        | reply hc =>
            simp only [hc, CallPc.History] at h
            simp [CallPc.History, Event.decides, h]
        | replyRejected hc =>
            simp only [hc, CallPc.History] at h
            simp [CallPc.History, Event.decides, h]
      · have hnot : [e].filter (Event.decides u) = [] := by
          cases hs <;> simp [Event.decides, Ne.symm hu]
        have hcall : s'.calls u = s.calls u := hs.calls_of_ne hu
        rw [hnot, hcall, List.append_nil]
        exact h
  | run hs =>
      have hnot : [e].filter (Event.decides u) = [] := by cases hs <;> rfl
      rw [hnot, hs.calls, List.append_nil]
      exact h
  | exec n hx hs =>
      obtain ⟨-, -, -, -, -, -, -, -, hcalls, -⟩ := hs.frame
      have hnot : [e].filter (Event.decides u) = [] := by cases hs <;> rfl
      rw [hnot, State.setExec_calls, hcalls, List.append_nil]
      exact h
  | start _ => simpa [Event.decides] using h
  | stop => simpa [Event.decides] using h
  | stopPost _ => simpa [Event.decides] using h

/-- **What a run decides about a call** is at each position of its worker one list of events. -/
theorem Runs.history {evs : List Event} (h : Runs cfg w evs s) (u : TaskRef) :
    (s.calls u).History u (evs.filter (Event.decides u)) := by
  refine h.invariant (P := fun evs s => (s.calls u).History u (evs.filter (Event.decides u)))
    rfl ?_
  intro evs s e s' _ ih hs
  rw [List.filter_append]
  exact hs.history ih

/-- How often `enqueue` has been called when a worker stands at a position. -/
def CallPc.attempts : CallPc → ℕ
  | .absent | .built => 0
  | _ => 1

theorem Runs.count_decides {evs : List Event} (u : TaskRef) {e : Event}
    (he : e.decides u = true) : evs.count e = (evs.filter (Event.decides u)).count e := by
  rw [List.count_filter he]

/-- **Every call of `enqueue` is decided once**, by an acceptance or by a rejection. -/
theorem Runs.attempts_eq {evs : List Event} (h : Runs cfg w evs s) (t : TaskRef) :
    evs.count (.accept t) + evs.count (.reject t) = (s.calls t).attempts := by
  have hist := Runs.history h t
  rw [Runs.count_decides t (e := .accept t) (by simp [Event.decides]),
    Runs.count_decides t (e := .reject t) (by simp [Event.decides])]
  cases hc : s.calls t with
  | returned reply =>
      simp only [hc, CallPc.History] at hist
      rcases hist with hist | ⟨-, hist⟩ <;> simp [hist, CallPc.attempts]
  | _ =>
      simp only [hc, CallPc.History] at hist
      simp [hist, CallPc.attempts]

/-- A rejected task is nowhere on the scheduler side, and its answer is the 503. -/
theorem Runs.rejected {evs : List Event} (h : Runs cfg w evs s) {t : TaskRef}
    (ht : .reject t ∈ evs) :
    t ∉ s.placed ∧ ∀ reply, .reply t reply ∈ evs → reply = overloadedReply := by
  have hattempts := Runs.attempts_eq h t
  have hle : (s.calls t).attempts ≤ 1 := by
    cases s.calls t <;> simp [CallPc.attempts]
  have hreject : 0 < evs.count (.reject t) := List.count_pos_iff.2 ht
  refine ⟨fun hmem => ?_, fun reply hreply => ?_⟩
  · have : 0 < evs.count (.accept t) :=
      List.count_pos_iff.2 (Runs.accepted_of_mem_placed h hmem)
    omega
  · have hist := Runs.history h t
    have hr : .reject t ∈ evs.filter (Event.decides t) :=
      List.mem_filter.2 ⟨ht, by simp [Event.decides]⟩
    have ha : .reply t reply ∈ evs.filter (Event.decides t) :=
      List.mem_filter.2 ⟨hreply, by simp [Event.decides]⟩
    cases hc : s.calls t with
    | returned r =>
        simp only [hc, CallPc.History] at hist
        rcases hist with hist | ⟨rfl, hist⟩
        · simp [hist] at hr
        · simpa [hist] using ha
    | _ =>
        simp only [hc, CallPc.History] at hist
        simp [hist] at ha

/-- A task that is only built is not pending. -/
theorem Runs.not_pending_of_built {evs : List Event} (h : Runs cfg w evs s) {t : TaskRef}
    (hc : s.calls t = .built) : t ∉ s.pending := by
  intro ht
  have hplaced : t ∈ s.placed := List.mem_append_left _ (List.mem_append_left _ ht)
  have hattempts := Runs.attempts_eq h t
  rw [hc] at hattempts
  have hpos := List.count_pos_iff.2 (Runs.accepted_of_mem_placed h hplaced)
  have hzero : CallPc.attempts .built = 0 := rfl
  omega

/-- **Admission control.**  With a bound on the queue, no reachable state holds more than
`max_queue_size_` pending tasks.  `enqueue` refuses exactly when the queues are full to the bound,
and then changes nothing but the position of its worker; the refused task never enters a queue, a
batch in hand or an executing batch, and its worker answers 503.  Every call of `enqueue` is refused
in this way or accepted, once; an accepted task gets an id beyond all ids given before, and it is
appended to one queue, where it has not been, and to no other. -/
theorem admission_control (hmax : 0 < cfg.maxQueueSize) {evs : List Event}
    (h : Runs cfg w evs s) :
    (s.pendingCount : ℤ) ≤ cfg.maxQueueSize ∧
      (∀ t now, (enqueue cfg s t now).1 = false ↔ (s.pendingCount : ℤ) = cfg.maxQueueSize) ∧
      (∀ t now, (enqueue cfg s t now).1 = false → (enqueue cfg s t now).2 = s) ∧
      (∀ t s', Step cfg w s (.reject t) s' →
        (s.pendingCount : ℤ) = cfg.maxQueueSize ∧ s' = s.setCall t .rejected) ∧
      (∀ t, .reject t ∈ evs → t ∉ s.placed ∧
        ∀ reply, .reply t reply ∈ evs → reply = overloadedReply ∧ reply.status = 503) ∧
      (∀ t, evs.count (.accept t) + evs.count (.reject t) = (s.calls t).attempts) ∧
      ∀ t s', Step cfg w s (.accept t) s' → (s'.tasks t).taskId = s.nextTaskId ∧
        (∀ u, .accept u ∈ evs → (s'.tasks u).taskId < (s'.tasks t).taskId) ∧
        ∃ c, s'.queue c = s.queue c ++ [t] ∧ t ∉ s.pending ∧
          ∀ d, d ≠ c → s'.queue d = s.queue d := by
  have hle := Runs.pendingCount_le hmax h
  have hfull : s.full cfg ↔ (s.pendingCount : ℤ) = cfg.maxQueueSize :=
    ⟨fun hf => le_antisymm hle hf.2, fun heq => ⟨hmax, heq.ge⟩⟩
  refine ⟨hle, fun t now => ?_, fun t now hf => ?_, fun t s' hs => ?_, fun t ht => ?_,
    Runs.attempts_eq h, fun t s' hs => ?_⟩
  · rw [← hfull]
    constructor
    · exact fun hf => (enqueue_eq_false (Prod.ext hf rfl : enqueue cfg s t now = (false, _))).1
    · intro hf
      by_contra hne
      exact (enqueue_eq_true (Prod.ext (Bool.eq_true_of_not_eq_false hne) rfl :
        enqueue cfg s t now = (true, _))).1 hf
  · exact (enqueue_eq_false (Prod.ext hf rfl : enqueue cfg s t now = (false, _))).2
  · cases hs with
    | run hs => cases hs
    | exec n hx hs => cases hs
    | call u hs =>
        cases hs with
        | reject now hc hl he =>
            obtain ⟨hf, rfl⟩ := enqueue_eq_false he
            exact ⟨hfull.1 hf, rfl⟩
  · obtain ⟨hplaced, hreply⟩ := Runs.rejected h ht
    exact ⟨hplaced, fun reply hr => ⟨hreply reply hr, by rw [hreply reply hr]; rfl⟩⟩
  · have hlt := (Runs.idsOrdered h).2
    cases hs.queueMove with
    | accept u now he hcall hf hid htasks hq hq' =>
        cases he
        have hnew : (s'.tasks t).taskId = s.nextTaskId := by simp [htasks]
        refine ⟨hnew, fun v hv => ?_, s.classOf t, hq, Runs.not_pending_of_built h hcall, hq'⟩
        have hmem := mem_acceptedTasks.2 hv
        rw [hnew, (Runs.step_kept h hs hmem).1]
        exact hlt v hmem
    | collect he _ _ _ => cases he
    | erase c i ha _ _ _ _ => cases ha
    | keep ha _ _ _ => cases ha

/-- With room for a single task, the second request is refused while the first is pending, and the
third is accepted when the first has been collected. -/
def oneRefused : List (Action ℤ) :=
  [.start, .construct 0 [] [3] 1 101 7, .enqueue 0 100, .construct 1 [] [4] 1 101 8,
    .enqueue 1 100, .worker 1] ++ List.replicate 20 (.run 100) ++
  [.construct 2 [] [5] 0 101 9, .enqueue 2 100]

theorem admission_control_refused : ∃ (evs : List Event) (s : State ℤ),
    Runs { maxQueueSize := 1 } (mockWorld {} fun _ => []) evs s ∧
      acceptedTasks evs = [0, 2] ∧ .reject 1 ∈ evs ∧ .reply 1 overloadedReply ∈ evs ∧
      s.pending = [2] ∧ 1 ∉ s.placed ∧ overloadedReply.status = 503 ∧
      evs.count (.accept 2) + evs.count (.reject 2) = 1 ∧ (s.pendingCount : ℤ) ≤ 1 := by
  obtain ⟨evs, s, h, hshown⟩ := Runs.of_script { maxQueueSize := 1 }
    (mockWorld {} fun _ => []) oneRefused
    (fun evs s => (acceptedTasks evs, decide (.reject 1 ∈ evs),
      decide (.reply 1 overloadedReply ∈ evs), s.pending, s.calls 2))
    (b := ([0, 2], true, true, [2], .posting)) (by decide +kernel)
  simp only [Prod.mk.injEq, decide_eq_true_eq] at hshown
  obtain ⟨hacc, hrej, hreply, hpending, hcall⟩ := hshown
  obtain ⟨hle, -, -, -, hrejected, hattempts, -⟩ := admission_control (by decide) h
  obtain ⟨hplaced, hreplies⟩ := hrejected 1 hrej
  exact ⟨evs, s, h, hacc, hrej, hreply, hpending, hplaced, (hreplies _ hreply).2,
    (hattempts 2).trans (by rw [hcall]; rfl), hle⟩

end Gateway.Sched
