/-
The wait for a task.

A worker waits for its task in `wait` or in `wait_with_timeout_ms`, and whoever finishes the task
calls `mark_done`, which signals the condition variable after it has released the mutex.  This
module has the three functions line by line, for one worker and any number of threads that call
`mark_done`; a wait may end for no reason, and the timed one may time out.

`completed` is used under the mutex only.  `timeout` is not: the scheduler sets it before it calls
`mark_done` on a task that is over time, and `wait_with_timeout_ms` reads it behind its `unlock` to
know what to return.  These two are steps of their own.

* `Gateway.TaskWait.Pc`, `Gateway.TaskWait.worker`, `Gateway.TaskWait.marker` — the functions line
  by line;
* `Gateway.TaskWait.Step` — the steps of all threads, with the field `timeout`;
* `Gateway.TaskWait.wait_ends` — **a worker is not left asleep, and what its wait returns is what
  happened**.
-/

import InferenceGateway.Monitor

set_option relaxedAutoImplicit false
set_option autoImplicit false

namespace Gateway.TaskWait

open EventSystem (Run)
open Monitor (Program)

/-! ### The functions line by line -/

/-- Where a thread is.  `waiting` is the test of `completed`, which is also where the function is
called and where it sleeps, with a timeout or without; `late` comes behind a wait that returned
`ETIMEDOUT`, and `found` and `gaveUp` are before the two `unlock`s; `reading` is before the read of
`timeout`, and `returned` is the end, with what the function returns if it returns something.
`expiring` is before the write of `timeout` in the scheduler, `marking` before the write of
`mark_done`, `marked` before its `unlock`, and `signalling` behind it. -/
inductive Pc
  | idle
  | waiting (timed : Bool)
  | late
  | found (timed : Bool)
  | gaveUp
  | reading
  | returned (inTime : Option Bool)
  | expiring
  | marking
  | marked
  | signalling
  | finished
  deriving DecidableEq

/-- What the threads do to `completed`: `mark_done` sets it, the worker finds it set, and the worker
sets it when its wait timed out. -/
inductive Op
  | markDone
  | found
  | timedOut
  deriving DecidableEq

/-- The lines of the worker between `lock` and `unlock`; the data are `completed`. -/
inductive WorkerAct : Pc → Bool → Option Op → Pc → Bool → Prop
  | found {timed : Bool} : WorkerAct (.waiting timed) true (some .found) (.found timed) true
  | timedOut {completed : Bool} : WorkerAct .late completed (some .timedOut) .gaveUp true

/-- What the worker does without the mutex. -/
inductive WorkerCall : Pc → Pc → Prop
  | wait {timed : Bool} : WorkerCall .idle (.waiting timed)
  | read {inTime : Bool} : WorkerCall .reading (.returned (some inTime))

/-- What the `unlock`s of the worker are followed by. -/
inductive WorkerLeave : Pc → Pc → Prop
  | wait : WorkerLeave (.found false) (.returned none)
  | waitWithTimeout : WorkerLeave (.found true) .reading
  | gaveUp : WorkerLeave .gaveUp (.returned (some false))

/-- What the wait of the worker is followed by. -/
inductive Resume : Pc → Pc → Prop
  | again {timed : Bool} : Resume (.waiting timed) (.waiting timed)
  | etimedout : Resume (.waiting true) .late

/-- `wait` and `wait_with_timeout_ms`. -/
def worker : Program Bool Pc Op where
  call := WorkerCall
  enter p := ∃ timed, p = .waiting timed
  act := WorkerAct
  leave := WorkerLeave
  wait p completed := (∃ timed, p = .waiting timed) ∧ completed = false
  resume := Resume
  broadcast _ _ := False
  signal _ _ := False

/-- What those who finish the task do before `mark_done`: an executor calls it at once, and the
scheduler thread sets `timeout` first. -/
inductive MarkerCall : Pc → Pc → Prop
  | finish : MarkerCall .idle .marking
  | expire : MarkerCall .idle .expiring
  | store : MarkerCall .expiring .marking

/-- `mark_done`. -/
def marker : Program Bool Pc Op where
  call := MarkerCall
  enter p := p = .marking
  act p _ e p' completed' := p = .marking ∧ e = some .markDone ∧ p' = .marked ∧ completed' = true
  leave p p' := p = .marked ∧ p' = .signalling
  wait _ _ := False
  resume _ _ := False
  broadcast _ _ := False
  signal p p' := p = .signalling ∧ p' = .finished

variable {μ : Type*}

/-- The worker of a task, and the threads that finish it. -/
def program : Option μ → Program Bool Pc Op
  | none => worker
  | some _ => marker

/-! ### The steps -/

/-- The threads with `completed`, and the field `timeout`. -/
structure State (μ : Type*) where
  lines : Monitor.State (Option μ) Bool Pc
  timeout : Bool

/-- Nobody has called anything yet. -/
def start : State μ where
  lines := .start false fun _ => .idle
  timeout := false

/-- What a step shows: a line of a thread, the write of `timeout` in the scheduler, or its read in
the worker. -/
inductive Event (μ : Type*)
  | line (e : Option (Option μ × Op))
  | stored (m : μ)
  | read (inTime : Bool)
  deriving DecidableEq

/-- The places where the next line is a write or a read of `timeout` without the mutex. -/
def Pc.unlocked (p : Pc) : Prop := p = .expiring ∨ p = .reading

instance (p : Pc) : Decidable p.unlocked := inferInstanceAs (Decidable (_ ∨ _))

section Steps

variable [DecidableEq μ]

/-- One step of one thread. -/
inductive Step (s : State μ) : Event μ → State μ → Prop
  -- behind `ETIMEDOUT` both fields are set in one critical section
  | line {e : Option (Option μ × Op)} {lines : Monitor.State (Option μ) Bool Pc}
      (h : Monitor.Step program s.lines e lines)
      (unlocked : ∀ i, (s.lines.threads i).place.unlocked → lines.threads i = s.lines.threads i) :
      Step s (.line e)
        { lines := lines, timeout := s.timeout || decide (e = some (none, .timedOut)) }
  | stored {m : μ} (at_ : s.lines.threads (some m) = .outside .expiring) :
      Step s (.stored m) { lines := s.lines.move (some m) (.outside .marking), timeout := true }
  | read (at_ : s.lines.threads none = .outside .reading) :
      Step s (.read !s.timeout)
        { s with lines := s.lines.move none (.outside (.returned (some !s.timeout))) }

/-- The line of a thread that an event shows. -/
def Event.toLine : Event μ → Option (Option μ × Op)
  | .line e => e
  | _ => none

/-- What the worker did, in order. -/
def byWorker (evs : List (Event μ)) : List Op := Monitor.shownBy none (evs.map Event.toLine)

/-- What all threads did, in order. -/
def done (evs : List (Event μ)) : List Op := Monitor.shown (evs.map Event.toLine)

variable {s s' : State μ} {evs : List (Event μ)} {e : Event μ}

theorem Step.toLine (hs : Step s e s') : Monitor.Step program s.lines e.toLine s'.lines := by
  cases hs with
  | line h _ => exact h
  | stored hat => exact .call hat .store
  | read hat => exact .call hat .read

/-- The lines of the threads make a run of their own. -/
theorem lines_run (hr : Run Step (start (μ := μ)) evs s) :
    Run (Monitor.Step program) (.start false fun _ => .idle) (evs.map Event.toLine) s.lines := by
  induction hr with
  | nil => exact .nil
  | snoc _ hs ih =>
      rw [List.map_append]
      exact ih.snoc hs.toLine

end Steps

/-! ### What the threads rely on -/

/-- Behind its write, `mark_done` knows that the task is completed. -/
def Knows (p : Pc) (completed : Bool) : Prop := p = .marked → completed = true

theorem sound : Monitor.Sound (program (μ := μ)) (fun _ => True) (fun _ => Knows) where
  enter {i _ _} h _ := by
    cases i with
    | none =>
        obtain ⟨timed, rfl⟩ := h
        exact nofun
    | some m =>
        obtain rfl := h
        exact nofun
  act {i _ _ _ _ _} h _ := by
    cases i with
    | none =>
        cases h with
        | found | timedOut => exact nofun
    | some m => exact fun _ => h.2.2.2
  leave _ _ := trivial
  wait _ _ := trivial
  resume {i _ _ _} h _ := by
    cases i with
    | none =>
        cases h with
        | again | etimedout => exact nofun
    | some m => exact h.elim
  broadcast {i _ _ _} h _ := by cases i <;> exact h.elim
  signal {i _ _ _} h _ := by
    cases i with
    | none => exact h.elim
    | some m =>
        obtain ⟨-, rfl⟩ := h
        exact nofun

/-- The worker waits for `completed`; `mark_done` owes a signal from its write on. -/
theorem wakes : Monitor.Wakes (program (μ := μ)) (fun _ => Knows)
    (fun i _ completed => i = none ∧ completed = true)
    (fun _ p => p = .marked ∨ p = .signalling) where
  call {i _ _} h howes := by
    cases i with
    | none => cases h <;> rcases howes with h | h <;> cases h
    | some m => cases h <;> rcases howes with h | h <;> cases h
  act {i _ _ _ _ _} h _ howes := by
    cases i with
    | none =>
        cases h with
        | found | timedOut => rcases howes with h | h <;> cases h
    | some m => exact .inl h.2.2.1
  raise {i _ _ _ _ _ j _} h _ hji hnot hpos := by
    cases i with
    | none => exact absurd hpos.1 hji
    | some m => exact .inl h.2.2.1
  leave {i _ _} h howes := by
    cases i with
    | none => cases h <;> rcases howes with h | h <;> cases h
    | some m => exact .inr h.2
  wait {i _ _} h _ := by
    cases i with
    | none =>
        obtain ⟨⟨timed, rfl⟩, rfl⟩ := h
        exact ⟨fun hc => Bool.false_ne_true hc.2, by simp⟩
    | some m => exact h.elim
  sole {i _ _} h {j k _ _ _ _} hj hk := by
    cases j with
    | none =>
        cases k with
        | none => rfl
        | some m => exact hk.elim
    | some m => exact hj.elim

/-! ### What the wait returns -/

/-- What a thread did, by its place. -/
def Did : Pc → List Op → Prop
  | .idle | .waiting _ | .late => fun es => es = []
  | .found _ | .reading | .returned none => fun es => es = [.found]
  | .gaveUp => fun es => es = [.timedOut]
  | .returned (some inTime) => fun es => es = [.found] ∨ inTime = false ∧ es = [.timedOut]
  | .expiring | .marking | .marked | .signalling | .finished => fun _ => False

theorem did_worker {p : Pc} {e : Option Op} {p' : Pc} {es : List Op}
    (h : Monitor.Local worker p e p') (hdid : Did p es) : Did p' (es ++ e.toList) := by
  cases h with
  | stutter => rwa [Option.toList_none, List.append_nil]
  | call h =>
      rw [Option.toList_none, List.append_nil]
      cases h with
      | wait => exact hdid
      | read => exact .inl hdid
  | act h =>
      cases h with
      | found | timedOut =>
          obtain rfl : es = [] := hdid
          rfl
  | leave h =>
      rw [Option.toList_none, List.append_nil]
      cases h with
      | wait | waitWithTimeout => exact hdid
      | gaveUp => exact .inr ⟨rfl, hdid⟩
  | resume h =>
      cases h with
      | again | etimedout => rwa [Option.toList_none, List.append_nil]
  | broadcast h | signal h => exact h.elim

/-- The others only mark the task. -/
theorem marks {m : μ} {p : Pc} {e : Option Op} {p' : Pc} {es : List Op}
    (h : Monitor.Local (program (some m)) p e p') (hdid : ∀ op ∈ es, op = .markDone) :
    ∀ op ∈ es ++ e.toList, op = .markDone := by
  intro op hop
  rcases List.mem_append.1 hop with hop | hop
  · exact hdid op hop
  · cases h with
    | act h =>
        obtain rfl := h.2.1
        exact List.mem_singleton.1 hop
    | stutter | call | leave | resume | broadcast | signal => cases hop

/-- What the operations do to `completed`. -/
inductive Completes : Bool → Op → Bool → Prop
  | markDone {completed : Bool} : Completes completed .markDone true
  | found : Completes true .found true
  | timedOut {completed : Bool} : Completes completed .timedOut true

/-- A task that is completed was completed by one of the two. -/
theorem completed_run {evs : List Op} {completed : Bool} (hr : Run Completes false evs completed)
    (h : completed = true ∨ Op.found ∈ evs) : Op.markDone ∈ evs ∨ Op.timedOut ∈ evs := by
  induction hr with
  | nil => simp at h
  | snoc _ hs ih =>
      cases hs with
      | markDone | timedOut => simp
      | found =>
          have hold := ih (.inl rfl)
          rw [List.mem_append, List.mem_append]
          exact hold.imp .inl .inl

section Runs

variable [DecidableEq μ] {s s' : State μ} {evs : List (Event μ)} {e : Event μ}

theorem worker_did (hr : Run Step (start (μ := μ)) evs s) :
    Did (s.lines.threads none).place (byWorker evs) :=
  Monitor.thread (i := none) did_worker rfl (lines_run hr)

/-- Only the worker times out. -/
theorem timedOut_own (hr : Run Step (start (μ := μ)) evs s) (h : Op.timedOut ∈ done evs) :
    Op.timedOut ∈ byWorker evs := by
  obtain ⟨i, hi⟩ := Monitor.mem_shown h
  cases i with
  | none => exact hi
  | some m =>
      have hmarks : ∀ op ∈ Monitor.shownBy (some m) (evs.map Event.toLine), op = .markDone :=
        Monitor.thread (i := some m) (L := fun _ es => ∀ op ∈ es, op = .markDone) marks nofun
          (lines_run hr)
      cases hmarks _ hi

/-- A worker that found its task completed, and did nothing else, found it marked. -/
theorem marked_of_found (hr : Run Step (start (μ := μ)) evs s) (h : byWorker evs = [.found]) :
    Op.markDone ∈ done evs := by
  have hrun : Run Completes false (done evs) s.lines.data := by
    refine sound.refines ?_ ?_ trivial (lines_run hr)
    · intro i p d p' d' h
      cases i with
      | none => cases h
      | some m => cases h.2.1
    · intro i p d e p' d' h _
      cases i with
      | none =>
          cases h with
          | found => exact .found
          | timedOut => exact .timedOut
      | some m =>
          obtain ⟨-, he, -, rfl⟩ := h
          cases he
          exact .markDone
  have hfound : Op.found ∈ done evs := by
    refine Monitor.mem_shown_of_own (i := none) ?_
    change Op.found ∈ byWorker evs
    rw [h]
    exact List.mem_singleton_self _
  refine (completed_run hrun (.inr hfound)).resolve_right fun htimed => ?_
  have hown := timedOut_own hr htimed
  rw [h] at hown
  cases List.mem_singleton.1 hown

/-- `timeout` is set by the scheduler and by a worker whose wait timed out. -/
theorem timeout_iff (hr : Run Step (start (μ := μ)) evs s) :
    s.timeout = true ↔ (∃ m, .stored m ∈ evs) ∨ .line (some (none, .timedOut)) ∈ evs := by
  induction hr with
  | nil => simp [start]
  | snoc _ hs ih =>
      cases hs with
      | line h _ =>
          simp only [Bool.or_eq_true, ih, decide_eq_true_eq, List.mem_append, List.mem_singleton,
            reduceCtorEq, or_false, Event.line.injEq]
          tauto
      | @stored m hat =>
          refine iff_of_true rfl (.inl ⟨m, ?_⟩)
          exact List.mem_append_right _ (List.mem_singleton_self _)
      | read hat =>
          simpa only [List.mem_append, List.mem_singleton, reduceCtorEq, or_false] using ih

theorem mem_byWorker (h : .line (some (none, .timedOut)) ∈ evs) :
    Op.timedOut ∈ byWorker (μ := μ) evs :=
  List.mem_filterMap.2 ⟨_, List.mem_map.2 ⟨_, h, rfl⟩, Monitor.own_self none (some Op.timedOut)⟩

/-- What `wait_with_timeout_ms` has returned is false because its own wait timed out, or is what it
has read: whether the scheduler had set `timeout` by then. -/
def Read (evs : List (Event μ)) (inTime : Bool) : Prop :=
  inTime = false ∧ byWorker evs = [.timedOut] ∨
    ∃ pre post, evs = pre ++ .read inTime :: post ∧ (inTime = false ↔ ∃ m, .stored m ∈ pre)

theorem byWorker_snoc (evs : List (Event μ)) (e : Event μ) :
    byWorker (evs ++ [e]) = byWorker evs ++ (Monitor.own none e.toLine).toList := by
  simp only [byWorker, Monitor.shownBy, List.map_append, List.map_cons, List.map_nil,
    List.filterMap_append, List.append_cancel_left_eq]
  cases h : Monitor.own none e.toLine with
  | none => simp [h]
  | some x => simp [h]

/-- Where the worker has returned already, the step changes nothing of what it has returned. -/
theorem Read.snoc {inTime : Bool} (h : Read evs inTime) (hown : Monitor.own none e.toLine = none) :
    Read (evs ++ [e]) inTime := by
  rcases h with ⟨hfalse, hby⟩ | ⟨pre, post, rfl, hiff⟩
  · refine .inl ⟨hfalse, ?_⟩
    rw [byWorker_snoc, hown, hby]
    rfl
  · exact .inr ⟨pre, post ++ [e], by simp, hiff⟩

/-- A line with which the worker returns, or comes to where it has returned before. -/
theorem returns_line {p : Pc} {op : Option Op} {inTime : Bool}
    (h : Monitor.Local worker p op (.returned (some inTime))) (hp : ¬ p.unlocked) :
    op = none ∧ (p = .returned (some inTime) ∨ p = .gaveUp ∧ inTime = false) := by
  cases h with
  | stutter => exact ⟨rfl, .inl rfl⟩
  | call h =>
      cases h with
      | read => exact absurd (.inr rfl) hp
  | act h => cases h
  | leave h =>
      cases h with
      | gaveUp => exact ⟨rfl, .inr ⟨rfl, rfl⟩⟩
  | resume h => cases h
  | broadcast h | signal h => exact h.elim

/-- **What the worker returns.** -/
theorem read_run (hr : Run Step (start (μ := μ)) evs s) {inTime : Bool}
    (hplace : (s.lines.threads none).place = .returned (some inTime)) : Read evs inTime := by
  refine hr.invariant (P := fun evs s => ∀ inTime,
    (s.lines.threads none).place = .returned (some inTime) → Read evs inTime) ?_ ?_ inTime hplace
  · intro inTime hplace
    cases hplace
  intro evs s e s' hr ih hs inTime hplace
  cases hs with
  | @line e lines h hunlocked =>
      have hlocal := h.local none
      by_cases hp : (s.lines.threads none).place.unlocked
      · rw [hunlocked none hp] at hplace
        rcases hp with hp | hp <;> cases hp.symm.trans hplace
      · rw [show (lines.threads none).place = .returned (some inTime) from hplace] at hlocal
        obtain ⟨hown, hbefore | ⟨hbefore, rfl⟩⟩ := returns_line hlocal hp
        · exact (ih _ hbefore).snoc hown
        · have hdid := worker_did hr
          rw [hbefore] at hdid
          refine .inl ⟨rfl, ?_⟩
          rw [byWorker_snoc]
          exact (congrArg (byWorker evs ++ Option.toList ·) hown).trans
            ((List.append_nil _).trans hdid)
  | @stored m hat =>
      refine (ih _ ?_).snoc rfl
      have hsame : (s.lines.move (some m) (.outside .marking)).threads none =
          s.lines.threads none := Monitor.move_of_ne (Option.some_ne_none m).symm _ _
      exact (congrArg Monitor.Phase.place hsame).symm.trans hplace
  | read hat =>
      have hreturned := (congrArg Monitor.Phase.place (Monitor.move_self s.lines none
        (.outside (.returned (some !s.timeout))))).symm.trans hplace
      obtain rfl : (!s.timeout) = inTime := by
        cases hreturned
        rfl
      refine .inr ⟨evs, [], rfl, ?_⟩
      have hdid := worker_did hr
      rw [hat] at hdid
      rw [Bool.not_eq_false', timeout_iff hr]
      refine or_iff_left fun htimed => ?_
      have hown := mem_byWorker htimed
      rw [show byWorker evs = [.found] from hdid] at hown
      cases List.mem_singleton.1 hown

/-- **The wait for a task**, for any number of threads that finish it.  While the worker sleeps and
the task is completed, a thread in `mark_done` has the signal before it; so the worker does not
sleep once they are done.  `wait` returns only if `mark_done` was called.  `wait_with_timeout_ms`
returns false if its own wait timed out; otherwise `mark_done` was called, and what it returns is
whether nobody had set `timeout` before it came to read it. -/
theorem wait_ends (hr : Run Step (start (μ := μ)) evs s) :
    (∀ p, s.lines.threads none = .asleep p → s.lines.data = true →
      ∃ m, (s.lines.threads (some m)).place = .marked ∨
        (s.lines.threads (some m)).place = .signalling) ∧
    ((s.lines.threads none).place = .returned none →
      byWorker evs = [.found] ∧ Op.markDone ∈ done evs) ∧
    ∀ inTime, (s.lines.threads none).place = .returned (some inTime) →
      (inTime = false ∧ byWorker evs = [.timedOut]) ∨
        byWorker evs = [.found] ∧ Op.markDone ∈ done evs ∧
          ∃ pre post, evs = pre ++ .read inTime :: post ∧
            (inTime = false ↔ ∃ m, .stored m ∈ pre) := by
  have hcovered := wakes.run sound trivial (lines_run hr)
  have hworker := worker_did hr
  refine ⟨fun p hp hdone => ?_, fun hplace => ?_, fun inTime hplace => ?_⟩
  · obtain ⟨j, q, hj, hq⟩ := hcovered.woken none p hp ⟨rfl, hdone⟩
    have hplace : (s.lines.threads j).place = q := by
      cases hph : s.lines.threads j <;> rw [hph] at hj <;> cases hj <;> rfl
    cases j with
    | none =>
        rw [hplace] at hworker
        rcases hq with rfl | rfl <;> exact hworker.elim
    | some m => exact ⟨m, hq.imp hplace.trans hplace.trans⟩
  · rw [hplace] at hworker
    exact ⟨hworker, marked_of_found hr hworker⟩
  · rw [hplace] at hworker
    rcases hworker with hfound | ⟨rfl, htimed⟩
    · rcases read_run hr hplace with ⟨-, htimed⟩ | hread
      · rw [hfound] at htimed
        cases htimed
      · exact .inr ⟨hfound, marked_of_found hr hfound, hread⟩
    · exact .inl ⟨rfl, htimed⟩

/-- A line that moves one thread, which has the mutex or is about to take it. -/
theorem Step.move {o : Option (Option μ × Op)} {lines : Monitor.State (Option μ) Bool Pc}
    (i : Option μ) (h : Monitor.Step program s.lines o lines)
    (hi : ¬ (s.lines.threads i).place.unlocked)
    (hsame : ∀ j, j ≠ i → lines.threads j = s.lines.threads j) :
    Step s (.line o)
      { lines := lines, timeout := s.timeout || decide (o = some (none, .timedOut)) } := by
  refine .line h fun j hj => hsame j ?_
  rintro rfl
  exact hi hj

/-- The worker falls asleep; the scheduler finds the task over time, sets `timeout` and calls
`mark_done`; and the worker wakes up and returns false without having timed out. -/
theorem wait_ends_expired :
    ∃ (evs : List (Event Unit)) (s : State Unit), Run Step start evs s ∧
      (s.lines.threads none).place = .returned (some false) ∧ byWorker evs = [.found] ∧
      Op.markDone ∈ done evs ∧ .stored () ∈ evs := by
  have hcall : (program (μ := Unit) none).call .idle (.waiting true) := WorkerCall.wait
  have henter : (program (μ := Unit) none).enter (.waiting true) := ⟨true, rfl⟩
  have hwait : (program (μ := Unit) none).wait (.waiting true) false := ⟨⟨true, rfl⟩, rfl⟩
  have hagain : (program (μ := Unit) none).resume (.waiting true) (.waiting true) := Resume.again
  have hfound : (program (μ := Unit) none).act (.waiting true) true (some .found) (.found true)
      true := WorkerAct.found
  have hleave : (program (μ := Unit) none).leave (.found true) .reading :=
    WorkerLeave.waitWithTimeout
  have hexpire : (program (some ())).call .idle .expiring := MarkerCall.expire
  have hlock : (program (some ())).enter .marking := rfl
  have hunlock : (program (some ())).leave .marked .signalling := ⟨rfl, rfl⟩
  have hmark : (program (some ())).act .marking false (some .markDone) .marked true :=
    ⟨rfl, rfl, rfl, rfl⟩
  have hr : Run Step (start (μ := Unit)) _ _ := .nil
  have hr := hr.snoc (.move none (.call rfl hcall) (by decide)
    fun _ hj => Monitor.move_of_ne hj _ _)
  have hr := hr.snoc (.move none (.lock rfl henter rfl) (by decide)
    fun _ hj => Monitor.move_of_ne hj _ _)
  have hr := hr.snoc (.move none (.wait rfl hwait) (by decide)
    fun _ hj => Monitor.move_of_ne hj _ _)
  have hr := hr.snoc (.move (some ()) (.call rfl hexpire) (by decide)
    fun _ hj => Monitor.move_of_ne hj _ _)
  have hr := hr.snoc (.stored (m := ()) rfl)
  have hr := hr.snoc (.move (some ()) (.lock rfl hlock rfl) (by decide)
    fun _ hj => Monitor.move_of_ne hj _ _)
  have hr := hr.snoc (.move (some ()) (.act rfl hmark) (by decide)
    fun _ hj => Monitor.move_of_ne hj _ _)
  have hr := hr.snoc (.move (some ()) (.unlock rfl hunlock) (by decide)
    fun _ hj => Monitor.move_of_ne hj _ _)
  have hr := hr.snoc (.move none (.wake rfl) (by decide) fun _ hj => Monitor.move_of_ne hj _ _)
  have hr := hr.snoc (.move none (.relock rfl hagain rfl) (by decide)
    fun _ hj => Monitor.move_of_ne hj _ _)
  have hr := hr.snoc (.move none (.act rfl hfound) (by decide)
    fun _ hj => Monitor.move_of_ne hj _ _)
  have hr := hr.snoc (.move none (.unlock rfl hleave) (by decide)
    fun _ hj => Monitor.move_of_ne hj _ _)
  have hr := hr.snoc (.read rfl)
  refine ⟨_, _, hr, rfl, ?_⟩
  rcases (wait_ends hr).2.2 false rfl with ⟨-, htimed⟩ | ⟨hby, hdone, -⟩
  · cases htimed
  · exact ⟨hby, hdone, by simp⟩

end Runs

end Gateway.TaskWait
