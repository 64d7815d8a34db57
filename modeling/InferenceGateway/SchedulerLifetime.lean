/-
**The lifetime of a task.**

An `InferenceTask` lives on the stack of the worker that built it, while the scheduler side holds
raw pointers to it.  Nothing makes the worker wait for the scheduler side: it leaves with its own
timeout wherever its task is, and it may return between the unlock of `mark_done` and the
`pthread_cond_signal` that follows it.  Both exits leave pointers to a dead object, which
`execute_batch` later writes through.

These two exits are the only ones.  A run in which no worker times out before the scheduler side has
marked its task done, and none returns while that signal is outstanding, keeps every pointer alive;
and a step that takes one of the exits leads to a dangling pointer at once or with the worker's next
step.

Main definitions:

* `Gateway.Sched.State.Lifetimes` — what the lifetime of tasks promises;
* `Gateway.Sched.State.Waits` — the guard: the worker waits for the scheduler side.

Main results:

* `Gateway.Sched.Runs.storage_ok` — two live tasks never share storage;
* `Gateway.Sched.lifetimes_broken` — a worker that times out leaves `execute_batch` a pointer into
  the task of the next request;
* `Gateway.Sched.task_lifetime` — **the lifetimes hold in every run whose workers do not leave
  early**, and the guard cannot be weakened step by step.
-/

import InferenceGateway.SchedulerQueues

set_option relaxedAutoImplicit false
set_option autoImplicit false

namespace Gateway.Sched

variable {F : Type} {cfg : Config} {w : World F} {s s' : State F} {e : Event} {evs : List Event}

/-! ### What is promised -/

/-- **The lifetimes of tasks**: the scheduler side holds pointers to live tasks only, its next step
touches a live task only, and what it touches is not the storage of another live task. -/
structure State.Lifetimes (cfg : Config) (w : World F) (s : State F) : Prop where
  held : ∀ t ∈ s.placed, s.alive t
  touched : ∀ e s' t, Step cfg w s e s' → e.touched = some t → s.alive t
  own : ∀ e s' t u, Step cfg w s e s' → e.touched = some t → s.alive u →
    s.storage u = s.storage t → u = t

/-- The worker does not leave early: it does not time out before its task is marked done by the
scheduler side, and does not return before `mark_done` has issued its signal. -/
def State.Waits (s : State F) : Event → Prop
  | .etimedout t => t ∈ s.placed → t ∈ s.owing
  | .reply t _ => t ∉ s.owing
  | _ => True

/-! ### Steps and tasks -/

/-- The scheduler side touches only tasks it has not finished with. -/
theorem Step.mem_placed_of_touched (hi : s.IteratorOk) (hs : Step cfg w s e s') {t : TaskRef}
    (he : e.touched = some t) : t ∈ s.placed := by
  have hmark : ∀ {u ph}, s.mark = some (u, ph) → u ∈ s.placed := fun hm =>
    List.mem_append_left _ (mem_of_mark hi hm)
  cases hs with
  | call u hs => cases hs <;> cases he
  | run hs =>
      cases hs with
      | cleanKeep second now c i u hm hpc hu _ | cleanExpired second now c i u hm hpc hu _ =>
          cases he
          exact List.mem_append_left _ (List.mem_append_left _
            (State.mem_pending.2 ⟨c, List.mem_of_getElem? hu⟩))
      | filterKeep now u batch validBatch hm hpc _
      | filterExpired now u batch validBatch hm hpc _ =>
          cases he
          refine List.mem_append_left _ (List.mem_append_right _ (List.mem_append_left _ ?_))
          simp [hpc, handOf]
      | markTimeout u hm | markComplete u hm | markSignal u hm hl
      | cleanSignal u second now c i hm hpc =>
          cases he
          exact hmark hm
      | _ => cases he
  | exec n hx hs =>
      have hexec : ∀ u, u ∈ Exec.held _ → u ∈ s.placed := fun u hu =>
        List.mem_append_right _ (List.mem_flatMap.2 ⟨_, List.mem_of_getElem? hx, hu⟩)
      cases hs with
      | convert u hpc hu =>
          cases he
          refine hexec _ ?_
          simpa only [Exec.held, hpc] using List.mem_of_getElem? hu
      | write u hpc hu | complete u hpc hu | signal u hpc hu =>
          cases he
          refine hexec _ ?_
          obtain ⟨hlt, rfl⟩ := List.getElem?_eq_some_iff.1 hu
          simp only [Exec.held, hpc, List.drop_eq_getElem_cons hlt]
          exact List.mem_cons_self
      | _ => cases he
  | start _ => cases he
  | stop => cases he
  | stopPost _ => cases he

/-- What a step does to `completed`: it is set by `mark_done` and by the worker's timeout, and
cleared by the construction of a new task. -/
theorem Step.completed (hs : Step cfg w s e s') (u : TaskRef) :
    (s'.tasks u).completed = (s.tasks u).completed ∨
      ((e = .markDone u ∨ e = .etimedout u) ∧ (s'.tasks u).completed = true) ∨
      (e = .construct u ∧ (s'.tasks u).completed = false) := by
  have hmove := hs.taskMove u
  generalize s'.tasks u = y at hmove ⊢
  cases hmove with
  | construct => exact .inr (.inr ⟨rfl, rfl⟩)
  | etimedout _ => exact .inr (.inl ⟨.inr rfl, rfl⟩)
  | markDone => exact .inr (.inl ⟨.inl rfl, rfl⟩)
  | writeResult r => exact .inl (InferenceTask.writeBack_completed _ r)
  | _ => exact .inl rfl

/-- A worker is about to reply only after it has found its task completed. -/
theorem Step.replying (hs : Step cfg w s e s') {u : TaskRef} (h : s'.calls u = .replying) :
    s.calls u = .replying ∨ (s'.tasks u).completed = true := by
  rcases hs.calls u with hcalls | hs
  · exact .inl (hcalls ▸ h)
  · right
    cases hs with
    | checkDone hc hdone => exact hdone
    | etimedout hc => simp
    | _ => simp at h

/-- A task dies only when its call of `do_request` returns. -/
theorem Step.alive (hs : Step cfg w s e s') {u : TaskRef} (h : s.alive u) :
    s'.alive u ∨ ∃ reply, e = .reply u reply := by
  rcases hs.calls u with hcalls | hs
  · exact .inl (by simpa only [State.alive, hcalls] using h)
  · cases hs with
    | reply hc => exact .inr ⟨_, rfl⟩
    | replyRejected hc => exact .inr ⟨_, rfl⟩
    | _ => exact .inl (by simp [State.alive])

/-- **Two live tasks never share storage**: the stack frame of a call of `do_request` is its own
until the call returns. -/
theorem Runs.storage_ok (h : Runs cfg w evs s) {u v : TaskRef} (hu : s.alive u) (hv : s.alive v)
    (huv : s.storage u = s.storage v) : u = v := by
  refine h.invariant_state (P := fun s => ∀ u v, s.alive u → s.alive v →
    s.storage u = s.storage v → u = v) (fun u v hu => hu.elim) ?_ u v hu hv huv
  intro s e s' ih hs u v hu hv huv
  rcases hs.alive_new hu with ⟨hu, hu'⟩ | ⟨rfl, hfree⟩
  · rcases hs.alive_new hv with ⟨hv, hv'⟩ | ⟨rfl, hfree⟩
    · exact ih u v hu hv (hu' ▸ hv' ▸ huv)
    · exact absurd (hu' ▸ huv) (hfree u hu)
  · rcases hs.alive_new hv with ⟨hv, hv'⟩ | ⟨he, -⟩
    · exact absurd (hv' ▸ huv.symm) (hfree v hv)
    · simpa using he

/-! ### Workers that do not leave early -/

/-- The runs whose workers do not leave early. -/
abbrev PatientRuns (cfg : Config) (w : World F) (evs : List Event) (s : State F) : Prop :=
  EventSystem.Run (EventSystem.Guarded (Step cfg w) State.Waits) State.init evs s

/-- The invariant of the patient runs: a completed task that the scheduler side still holds is owed
its signal, a worker replies only to a completed task, and what is held is alive. -/
structure State.Patient (s : State F) : Prop where
  built : ∀ t, s.calls t = .built → (s.tasks t).completed = false
  owed : ∀ t ∈ s.placed, (s.tasks t).completed = true → t ∈ s.owing
  replying : ∀ t, s.calls t = .replying → (s.tasks t).completed = true
  held : ∀ t ∈ s.placed, s.alive t

theorem mem_owing_of_count {u : TaskRef} (hs : Step cfg w s e s')
    (h : 0 < s.owing.count u + e.done u) (he : e ≠ .signal u) : u ∈ s'.owing := by
  have := hs.count_owing u
  rw [signalled_eq, if_neg he] at this
  exact List.count_pos_iff.1 (by omega)

/-- The positions of a worker before and after the events of its own call. -/
theorem Step.own (hs : Step cfg w s e s') {u : TaskRef} :
    (e = .construct u → s.calls u = .absent) ∧
      (e = .accept u → s.calls u = .built ∧ s'.calls u = .posting) ∧
      (e = .etimedout u → s.calls u = .blocked) ∧
      (∀ reply, e = .reply u reply → s.calls u = .replying ∨ s.calls u = .rejected) := by
  cases hs with
  | call t hs =>
      cases hs with
      | construct addr modelName inputData priority deadline clientFd hc hfree =>
          exact ⟨by rintro ⟨⟩; exact hc, by rintro ⟨⟩, by rintro ⟨⟩, by rintro _ ⟨⟩⟩
      | accept now hc hl he =>
          exact ⟨by rintro ⟨⟩, by rintro ⟨⟩; exact ⟨hc, by simp⟩, by rintro ⟨⟩, by rintro _ ⟨⟩⟩
      | etimedout hc => exact ⟨by rintro ⟨⟩, by rintro ⟨⟩, by rintro ⟨⟩; exact hc, by rintro _ ⟨⟩⟩
      | reply hc => exact ⟨by rintro ⟨⟩, by rintro ⟨⟩, by rintro ⟨⟩, by rintro _ ⟨⟩; exact .inl hc⟩
      | replyRejected hc =>
          exact ⟨by rintro ⟨⟩, by rintro ⟨⟩, by rintro ⟨⟩, by rintro _ ⟨⟩; exact .inr hc⟩
      | _ => exact ⟨by rintro ⟨⟩, by rintro ⟨⟩, by rintro ⟨⟩, by rintro _ ⟨⟩⟩
  | run hs => cases hs <;> exact ⟨by rintro ⟨⟩, by rintro ⟨⟩, by rintro ⟨⟩, by rintro _ ⟨⟩⟩
  | exec n hx hs => cases hs <;> exact ⟨by rintro ⟨⟩, by rintro ⟨⟩, by rintro ⟨⟩, by rintro _ ⟨⟩⟩
  | _ => exact ⟨by rintro ⟨⟩, by rintro ⟨⟩, by rintro ⟨⟩, by rintro _ ⟨⟩⟩

/-- What is still placed after a step was just accepted, or was placed before and not released. -/
theorem Runs.mem_placed_step (hr : Runs cfg w evs s) (hs : Step cfg w s e s') {u : TaskRef}
    (hu : u ∈ s'.placed) : e = .accept u ∨ u ∈ s.placed ∧ e ≠ .signal u := by
  have hcount := hs.count_placed (Runs.iteratorOk hr) u
  have hpos : 0 < s'.placed.count u := List.count_pos_iff.2 hu
  by_cases he : e = .accept u
  · exact .inl he
  · rw [gain_eq, if_neg he] at hcount
    refine .inr ⟨List.count_pos_iff.1 (by omega), ?_⟩
    rintro rfl
    have hone := List.nodup_iff_count_le_one.1 (Runs.placed_nodup hr) u
    simp only [Event.loss, List.count_singleton_self] at hcount
    omega

/-- A placed task belongs to a call that `enqueue` has accepted. -/
theorem Runs.calls_of_mem_placed (hr : Runs cfg w evs s) {u : TaskRef} (hu : u ∈ s.placed) :
    s.calls u ≠ .absent ∧ s.calls u ≠ .built ∧ s.calls u ≠ .rejected := by
  have hacc := Runs.acceptable_of_accepted hr (Runs.accepted_of_mem_placed hr hu)
  refine ⟨fun h => by simp [State.acceptable, h] at hacc,
    fun h => by simp [State.acceptable, h] at hacc, fun h => ?_⟩
  have hist := Runs.history hr u
  simp only [h, CallPc.History] at hist
  have : .reject u ∈ evs.filter (Event.decides u) := by simp [hist]
  exact (Runs.rejected hr (List.mem_filter.1 this).1).1 hu

/-- **A step that the worker does not leave early with keeps the invariant.** -/
theorem Step.patient (hr : Runs cfg w evs s) (hs : Step cfg w s e s') (hg : s.Waits e)
    (h : s.Patient) : s'.Patient := by
  have hcalls := fun {u} (hu : u ∈ s.placed) => Runs.calls_of_mem_placed hr hu
  constructor
  · intro u hu
    rcases hs.calls u with heq | hcall
    · have hbuilt : s.calls u = .built := heq ▸ hu
      rcases hs.completed u with hc | ⟨he | he, -⟩ | ⟨-, hc⟩
      · rw [hc]
        exact h.built u hbuilt
      · have hmem := hs.mem_placed_of_touched (Runs.iteratorOk hr) (t := u) (by rw [he]; rfl)
        exact absurd hbuilt (hcalls hmem).2.1
      · exact absurd (hs.own.2.2.1 he) (by simp [hbuilt])
      · exact hc
    · cases hcall with
      | construct => simp [InferenceTask.make]
      | _ => simp at hu
  · intro u hu hdone
    rcases Runs.mem_placed_step hr hs hu with he | ⟨hmem, hsig⟩
    · have hbuilt := h.built u (hs.own.2.1 he).1
      rcases hs.completed u with hc | ⟨he' | he', -⟩ | ⟨he', -⟩
      · rw [hc, hbuilt] at hdone
        cases hdone
      · cases he.symm.trans he'
      · cases he.symm.trans he'
      · cases he.symm.trans he'
    · rcases hs.completed u with hc | ⟨rfl | rfl, -⟩ | ⟨he, -⟩
      · have := List.count_pos_iff.2 (h.owed u hmem (hc ▸ hdone))
        exact mem_owing_of_count hs (by omega) hsig
      · exact mem_owing_of_count hs (by simp [Event.done]) hsig
      · have := List.count_pos_iff.2 (hg hmem)
        exact mem_owing_of_count hs (by omega) hsig
      · exact absurd (hs.own.1 he) (hcalls hmem).1
  · intro u hu
    rcases hs.replying hu with hu' | hdone
    · rcases hs.completed u with hc | ⟨-, hc⟩ | ⟨he, -⟩
      · rw [hc]
        exact h.replying u hu'
      · exact hc
      · exact absurd (hs.own.1 he) (by simp [hu'])
    · exact hdone
  · intro u hu
    rcases Runs.mem_placed_step hr hs hu with he | ⟨hmem, -⟩
    · simp [State.alive, (hs.own.2.1 he).2]
    · rcases hs.alive (h.held u hmem) with halive | ⟨reply, rfl⟩
      · exact halive
      · rcases hs.own.2.2.2 reply rfl with hc | hc
        · exact absurd (h.owed u hmem (h.replying u hc)) hg
        · exact absurd hc (hcalls hmem).2.2

theorem PatientRuns.patient (h : PatientRuns cfg w evs s) : s.Patient := by
  refine h.invariant (P := fun _ s => s.Patient) ?_ fun evs s e s' hr ih hs =>
    hs.1.patient hr.of_guarded hs.2 ih
  exact ⟨fun t h => by simp [State.init] at h, fun t h => by simp at h,
    fun t h => by simp [State.init] at h, fun t h => by simp at h⟩

/-- What the scheduler side touches in a patient run is alive. -/
theorem PatientRuns.alive (h : PatientRuns cfg w evs s) (hs : Step cfg w s e s') {t : TaskRef}
    (ht : e.touched = some t) : s.alive t :=
  h.patient.held t (hs.mem_placed_of_touched (Runs.iteratorOk h.of_guarded) ht)

/-- What is held is alive, so what is touched is. -/
theorem Runs.lifetimes (hr : Runs cfg w evs s) (h : ∀ t ∈ s.placed, s.alive t) :
    s.Lifetimes cfg w where
  held := h
  touched _ _ t hs he := h t (hs.mem_placed_of_touched (Runs.iteratorOk hr) he)
  own _ _ t _ hs he hu huv :=
    Runs.storage_ok hr hu (h t (hs.mem_placed_of_touched (Runs.iteratorOk hr) he)) huv

/-! ### The early exits -/

/-- **Each early exit leaves a dangling pointer**: a worker that returns before its signal does so
at once, and one that times out while the scheduler side holds its task does so with its reply. -/
theorem Step.dangling (hr : Runs cfg w evs s) (hs : Step cfg w s e s') (hg : ¬ s.Waits e) :
    (∃ t ∈ s'.placed, ¬ s'.alive t) ∨
      ∃ t reply s'', Step cfg w s' (.reply t reply) s'' ∧ t ∈ s''.placed ∧ ¬ s''.alive t := by
  have hi := Runs.iteratorOk hr
  cases hs with
  | run hs => cases hs <;> exact absurd trivial hg
  | exec n hx hs => cases hs <;> exact absurd trivial hg
  | start _ => exact absurd trivial hg
  | stop => exact absurd trivial hg
  | stopPost _ => exact absurd trivial hg
  | call t hs =>
      cases hs with
      | etimedout hc =>
          obtain ⟨hmem, -⟩ := Classical.not_imp.1 hg
          refine .inr ⟨t, _, _, .call t (.reply (by simp)), ?_, by simp [State.alive]⟩
          exact hmem
      | reply hc =>
          refine .inl ⟨t, ?_, by simp [State.alive]⟩
          have howed : 0 < s.owing.count t := List.count_pos_iff.2 (not_not.1 hg)
          exact List.count_pos_iff.1 (lt_of_lt_of_le howed (count_owing_le hi t))
      | replyRejected hc =>
          refine .inl ⟨t, ?_, by simp [State.alive]⟩
          have howed : 0 < s.owing.count t := List.count_pos_iff.2 (not_not.1 hg)
          exact List.count_pos_iff.1 (lt_of_lt_of_le howed (count_owing_le hi t))
      | _ => exact absurd trivial hg

/-- **The lifetimes are broken**: with a timeout of one second and an engine that takes two, the
worker of the first request answers `inference timeout` and returns while the engine runs; the next
request builds its task on the same stack storage, and `execute_batch` then writes the result of the
first request into it. -/
theorem lifetimes_broken : ¬ ∀ (evs : List Event) (s : State ℤ),
    Runs {} (mockWorld {} fun _ => []) evs s → s.Lifetimes {} (mockWorld {} fun _ => []) := by
  intro hall
  obtain ⟨evs, h, -⟩ := run_inferring {} (mockWorld {} fun _ : ℤ => []) (by decide) [] [3] 1 101
    7 0 100 (by decide)
  -- the worker waits, times out and returns
  have h := h.snoc (.call 0 (.post rfl))
  have h := h.snoc (.call 0 (.checkBlock rfl rfl))
  have h := h.snoc (.call 0 (.etimedout rfl))
  have h := h.snoc (.call 0 (.reply rfl))
  -- the next request lives on the same storage, and only then the engine returns
  have h := h.snoc (.call 1 (.construct 0 [] [4] 1 102 8 rfl fun u hu => by
    by_cases h0 : u = 0
    · subst h0
      exact hu.elim
    · simp [State.alive, inferring, Function.update_of_ne h0] at hu))
  have h := h.snoc (.exec 0 rfl (.returns _ rfl rfl))
  exact absurd ((hall _ _ h).own _ _ 0 1 (.exec 0 rfl (.write 0 rfl rfl)) rfl trivial rfl)
    (by decide)

/-- **The lifetimes of tasks** hold after every run whose workers wait for the scheduler side, for
every configuration, engine and interleaving: no step of the scheduler or of an executor touches a
dead task, every pointer held refers to a live one, and no result goes into another task on the same
storage.  And a step with which a worker does not wait leads to a dangling pointer, at once or with
the reply of that worker. -/
theorem task_lifetime (h : PatientRuns cfg w evs s) :
    s.Lifetimes cfg w ∧ ∀ e s', Step cfg w s e s' → ¬ s.Waits e →
      (∃ t ∈ s'.placed, ¬ s'.alive t) ∨
        ∃ t reply s'', Step cfg w s' (.reply t reply) s'' ∧ t ∈ s''.placed ∧ ¬ s''.alive t :=
  ⟨Runs.lifetimes h.of_guarded (PatientRuns.patient h).held,
    fun _ _ hs hg => hs.dangling h.of_guarded hg⟩

/-- The first accepted task is held and alive. -/
theorem task_lifetime_first : ∃ (evs : List Event) (s : State ℤ),
    PatientRuns {} (mockWorld {} fun _ => []) evs s ∧ 0 ∈ s.placed ∧ s.alive 0 := by
  have h : PatientRuns {} (mockWorld {} fun _ : ℤ => []) _ _ :=
    EventSystem.Run.nil.snoc ⟨.start rfl, trivial⟩
  have h := h.snoc ⟨.call 0 (.construct 0 [] [3] 1 101 7 rfl fun u hu => hu.elim), trivial⟩
  have h := h.snoc ⟨.call 0 (.accept 100 rfl trivial rfl), trivial⟩
  exact ⟨_, _, h, List.mem_cons_self, (task_lifetime h).1.held 0 List.mem_cons_self⟩

end Gateway.Sched
