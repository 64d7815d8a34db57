/-
Runs of the scheduler from scripts.

`Gateway.Sched.Step` is a relation, since the threads take turns in any order and the clock, the
engine and the wake-ups are not theirs to decide.  Once all of that is written down, the rest is a
computation: a `Gateway.Sched.Action` names the thread that moves and what it finds, and
`Gateway.Sched.act` makes the move.  A script of actions is then replayed and gives a run.

* `Gateway.Sched.runAct` — the scheduler thread moves on;
* `Gateway.Sched.execAct` — an executor moves on;
* `Gateway.Sched.act` — any of the threads;
* `Gateway.Sched.act_step` — **every action is a step**.
-/

import InferenceGateway.SchedulerMoves

set_option relaxedAutoImplicit false
set_option autoImplicit false

namespace Gateway.Sched

open EventSystem (Run replay)

variable {F : Type} {cfg : Config} {w : World F} {s s' : State F} {e : Event}

/-- What the mock engine returns can be looked up. -/
instance [Zero F] [Mul F] [OfNat F 2] [DecidableEq F] (m : MockEngine) (printF : F → Bytes) :
    DecidableRel (mockWorld m printF).inferBatch :=
  fun inputs results => inferInstanceAs (Decidable (results = m.inferBatch inputs))

/-! ### Actions -/

/-- The thread that moves, with what the environment gives it. -/
inductive Action (F : Type)
  | start
  | stop
  | stopPost
  | construct (t : TaskRef) (modelName : Bytes) (inputData : List F)
      (priority deadline clientFd : ℤ)
  | enqueue (t : TaskRef) (now : ℤ)
  | worker (t : TaskRef)
  | wake (t : TaskRef)
  | etimedout (t : TaskRef)
  | run (now : ℤ)
  | token
  | exec (n : ℕ) (results : List (InferenceResult F))

/-- The worker of `t` moves on, from wherever its next move is decided. -/
def workerAct (w : World F) (s : State F) (t : TaskRef) : Option (Event × State F) :=
  match s.calls t with
  | .posting => some (.tau, { s.setCall t .checking with queueSem := s.queueSem + 1 })
  | .checking =>
      some (.tau, s.setCall t (if (s.tasks t).completed = true then .replying else .blocked))
  | .replying =>
      some (.reply t (inferenceReply w.printF (s.tasks t)),
        s.setCall t (.returned (inferenceReply w.printF (s.tasks t))))
  | .rejected => some (.reply t overloadedReply, s.setCall t (.returned overloadedReply))
  | _ => none

/-- Whether `cleanup_expired` holds `queue_lock_`. -/
def State.locked (s : State F) : Bool :=
  match s.pc with
  | .clean .. | .cleanMark .. => true
  | _ => false

theorem State.lockFree_of_locked (h : s.locked = false) : s.lockFree := by
  unfold State.locked at h
  unfold State.lockFree
  split
  · simp_all
  · simp_all
  · trivial

/-- The worker of `t` calls `enqueue`. -/
def enqueueAct (cfg : Config) (s : State F) (t : TaskRef) (now : ℤ) : Option (Event × State F) :=
  match s.calls t, s.locked with
  | .built, false =>
      match enqueue cfg s t now with
      | (true, s₁) => some (.accept t, s₁.setCall t .posting)
      | (false, s₁) => some (.reject t, s₁.setCall t .rejected)
  | _, _ => none

/-- The rest of a `mark_done` of the scheduler thread. -/
def markAct (s : State F) (t : TaskRef) : MarkPhase → Option (Event × State F)
  | .setTimeout =>
      some (.setTimeout t,
        { s.modify t fun x => { x with timeout := true } with mark := some (t, .complete) })
  | .complete =>
      some (.markDone t,
        { s.modify t fun x => { x with completed := true } with mark := some (t, .signal) })
  | .signal =>
      match s.pc with
      | .cleanMark second now c i =>
          some (.signal t, { s.setQueue ((s.queue c).eraseIdx i) c with
            pc := .clean second now c i, mark := none })
      | _ => if s.locked then none else some (.signal t, { s with mark := none })

/-- `run()` takes the branch that is open to it. -/
def branchAct (cfg : Config) (s : State F) : Option (Event × State F) :=
  (s.pc.branch cfg s.running s.activeBatchCount s.queue s.pendingCount).map fun pc' =>
    (.tau, { s with pc := pc' })

/-- `run()` moves on; `clock` is what `time(nullptr)` returns. -/
def runAct (cfg : Config) (s : State F) (clock : ℤ) : Option (Event × State F) :=
  match s.pc with
  | .cleanup second => some (.tau, { s with pc := .clean second clock .high 0 })
  | .clean second now c i =>
      match (s.queue c)[i]? with
      | some t =>
          if (s.tasks t).expired now = true then
            some (.readDeadline t,
              { s with pc := .cleanMark second now c i, mark := some (t, .setTimeout) })
          else some (.readDeadline t, { s with pc := .clean second now c (i + 1) })
      | none => branchAct cfg s
  | .collect =>
      some (.collect (collectBatch cfg s).1, { (collectBatch cfg s).2 with
        pc := if (collectBatch cfg s).1.isEmpty then .loopTest
          else .throttleRunning (collectBatch cfg s).1 })
  | .release (t :: batch) =>
      some (.tau, { s with pc := .release batch, mark := some (t, .setTimeout) })
  | .filterClock batch => some (.tau, { s with pc := .filter clock batch [] })
  | .filter now (t :: batch) validBatch =>
      if (s.tasks t).expired now = true then
        some (.readDeadline t,
          { s with pc := .filter now batch validBatch, mark := some (t, .setTimeout) })
      else some (.readDeadline t, { s with pc := .filter now batch (validBatch ++ [t]) })
  | .submit validBatch =>
      some (.tau, { s with activeBatchCount := s.activeBatchCount + 1, pc := .spawn validBatch })
  | .spawn validBatch =>
      some (.tau, { s with execs := s.execs ++ [{ batch := validBatch }], pc := .loopTest })
  | _ => branchAct cfg s

/-- `run()` takes a token of `queue_sem_` and then its branch. -/
def tokenAct (cfg : Config) (s : State F) : Option (Event × State F) :=
  match s.pc with
  | .semWait _ | .throttleWait _ =>
      if 0 < s.queueSem then
        (s.pc.branch cfg s.running s.activeBatchCount s.queue s.pendingCount).map fun pc' =>
          (.tau, { s with queueSem := s.queueSem - 1, pc := pc' })
      else none
  | _ => none

/-- An executor moves on; `results` is what the engine returns. -/
def execAct (w : World F) [DecidableRel w.inferBatch] (s : State F) (x : Exec F)
    (results : List (InferenceResult F)) : Option (Event × State F × Exec F) :=
  match x.pc with
  | .enter =>
      some (.tau, s, { x with pc := if x.batch.isEmpty then .release false else .convert })
  | .convert =>
      match x.batch[x.inputs.length]? with
      | some t => some (.readInput t, s, { x with inputs := x.inputs ++ [(s.tasks t).toInput] })
      | none => some (.infer x.batch, s, { x with pc := .infer })
  | .infer =>
      if w.inferBatch x.inputs results then
        some (.tau, s, { x with pc := .write, results := results, i := 0 })
      else none
  | .write =>
      match x.batch[x.i]? with
      | some t =>
          some (.writeResult t, s.modify t fun y => y.writeBack x.results[x.i]?,
            { x with pc := .complete })
      | none => some (.tau, s, { x with pc := .release true })
  | .complete =>
      x.batch[x.i]?.map fun t =>
        (.markDone t, s.modify t fun y => { y with completed := true }, { x with pc := .signal })
  | .signal => x.batch[x.i]?.map fun t => (.signal t, s, { x with pc := .write, i := x.i + 1 })
  | .release notify =>
      if s.locked then none
      else
        some (.tau, { s with activeBatchCount := s.activeBatchCount - 1 },
          { x with pc := if notify then .post else .finished })
  | .post => some (.tau, { s with queueSem := s.queueSem + 1 }, { x with pc := .finished })
  | _ => none

/-- An action.  Task `t` is built on storage of its own, number `t`. -/
def act (cfg : Config) (w : World F) [DecidableRel w.inferBatch] (s : State F) :
    Action F → Option (Event × State F)
  | .start =>
      match s.pc with
      | .notStarted => some (.tau, { s with running := true, pc := .loopTest })
      | _ => none
  | .stop => some (.tau, { s with running := false, stopPosts := s.stopPosts + 1 })
  | .stopPost =>
      if 0 < s.stopPosts then
        some (.tau, { s with queueSem := s.queueSem + 1, stopPosts := s.stopPosts - 1 })
      else none
  | .construct t modelName inputData priority deadline clientFd =>
      match s.calls t with
      | .absent =>
          some (.construct t,
            { s.modify t fun _ => .make modelName inputData priority deadline clientFd with
              storage := Function.update s.storage t t
              calls := Function.update s.calls t .built })
      | _ => none
  | .enqueue t now => enqueueAct cfg s t now
  | .worker t => workerAct w s t
  | .wake t =>
      match s.calls t with
      | .blocked => some (.tau, s.setCall t .checking)
      | _ => none
  | .etimedout t =>
      match s.calls t with
      | .blocked =>
          some (.etimedout t,
            (s.modify t fun x => { x with timeout := true, completed := true }).setCall t .replying)
      | _ => none
  | .run now =>
      match s.mark with
      | some (t, phase) => markAct s t phase
      | none => runAct cfg s now
  | .token => if s.mark = none then tokenAct cfg s else none
  | .exec n results =>
      match s.execs[n]? with
      | some x => (execAct w s x results).map fun r => (r.1, r.2.1.setExec n r.2.2)
      | none => none

/-! ### Actions are steps -/

theorem workerAct_step {t : TaskRef} (h : workerAct w s t = some (e, s')) :
    CallStep cfg w t s e s' := by
  unfold workerAct at h
  split at h
  · next hc =>
      cases h
      exact .post hc
  · next hc =>
      cases h
      split
      · next hdone => exact .checkDone hc hdone
      · next hdone => exact .checkBlock hc (Bool.eq_false_of_not_eq_true hdone)
  · next hc =>
      cases h
      exact .reply hc
  · next hc =>
      cases h
      exact .replyRejected hc
  · cases h

theorem enqueueAct_step {t : TaskRef} {now : ℤ} (h : enqueueAct cfg s t now = some (e, s')) :
    CallStep cfg w t s e s' := by
  unfold enqueueAct at h
  split at h
  · next hc hl =>
      split at h
      · next s₁ he =>
          cases h
          exact .accept now hc (State.lockFree_of_locked hl) he
      · next s₁ he =>
          cases h
          exact .reject now hc (State.lockFree_of_locked hl) he
  · cases h

theorem markAct_step {t : TaskRef} {phase : MarkPhase} (hm : s.mark = some (t, phase))
    (h : markAct s t phase = some (e, s')) : RunStep cfg w s e s' := by
  cases phase with
  | setTimeout =>
      cases h
      exact .markTimeout t hm
  | complete =>
      cases h
      exact .markComplete t hm
  | signal =>
      simp only [markAct] at h
      split at h
      · next hpc =>
          cases h
          exact .cleanSignal t _ _ _ _ hm hpc
      · split at h
        · cases h
        · next hl =>
            cases h
            exact .markSignal t hm (State.lockFree_of_locked (Bool.eq_false_of_not_eq_true hl))

theorem branchAct_step (hm : s.mark = none) (h : branchAct cfg s = some (e, s')) :
    RunStep cfg w s e s' := by
  obtain ⟨pc', hb, heq⟩ := Option.map_eq_some_iff.1 h
  cases heq
  exact .branch pc' hm hb

theorem runAct_step {clock : ℤ} (hm : s.mark = none) (h : runAct cfg s clock = some (e, s')) :
    RunStep cfg w s e s' := by
  unfold runAct at h
  split at h
  · next hpc =>
      cases h
      exact .cleanBegin _ clock hm hpc
  · next second now c i hpc =>
      split at h
      · next t ht =>
          split at h
          · next hex =>
              cases h
              exact .cleanExpired second now c i t hm hpc ht hex
          · next hex =>
              cases h
              exact .cleanKeep second now c i t hm hpc ht (Bool.eq_false_of_not_eq_true hex)
      · exact branchAct_step hm h
  · next hpc =>
      cases h
      exact .collect _ hm hpc rfl
  · next t batch hpc =>
      cases h
      exact .releaseNext t batch hm hpc
  · next batch hpc =>
      cases h
      exact .filterBegin clock batch hm hpc
  · next now t batch validBatch hpc =>
      split at h
      · next hex =>
          cases h
          exact .filterExpired now t batch validBatch hm hpc hex
      · next hex =>
          cases h
          exact .filterKeep now t batch validBatch hm hpc (Bool.eq_false_of_not_eq_true hex)
  · next validBatch hpc =>
      cases h
      exact .submit validBatch hm hpc
  · next validBatch hpc =>
      cases h
      exact .spawn validBatch hm hpc
  · exact branchAct_step hm h

theorem tokenAct_step (hm : s.mark = none) (h : tokenAct cfg s = some (e, s')) :
    RunStep cfg w s e s' := by
  have htake : s.pc.waits → 0 < s.queueSem →
      (s.pc.branch cfg s.running s.activeBatchCount s.queue s.pendingCount).map (fun pc' =>
        ((.tau : Event), { s with queueSem := s.queueSem - 1, pc := pc' })) = some (e, s') →
      RunStep cfg w s e s' := by
    intro hw hsem hmap
    obtain ⟨pc', hb, heq⟩ := Option.map_eq_some_iff.1 hmap
    cases heq
    exact .takeToken pc' hm hw hsem hb
  unfold tokenAct at h
  split at h
  · next hpc =>
      split at h
      · next hsem => exact htake (hpc ▸ trivial) hsem (hpc ▸ h)
      · cases h
  · next hpc =>
      split at h
      · next hsem => exact htake (hpc ▸ trivial) hsem (hpc ▸ h)
      · cases h
  · cases h

theorem execAct_step [DecidableRel w.inferBatch] {x x' : Exec F}
    {results : List (InferenceResult F)} (h : execAct w s x results = some (e, s', x')) :
    ExecStep w s x e s' x' := by
  unfold execAct at h
  split at h
  · next hpc =>
      cases h
      split
      · next hempty => exact .empty hpc (List.isEmpty_iff.1 hempty)
      · next hempty => exact .enter hpc fun hb => hempty (List.isEmpty_iff.2 hb)
  · next hpc =>
      split at h
      · next t ht =>
          cases h
          exact .convert t hpc ht
      · next ht =>
          cases h
          exact .converted hpc (List.getElem?_eq_none_iff.1 ht)
  · next hpc =>
      split at h
      · next hr =>
          cases h
          exact .returns results hpc hr
      · cases h
  · next hpc =>
      split at h
      · next t ht =>
          cases h
          exact .write t hpc ht
      · next ht =>
          cases h
          exact .written hpc (List.getElem?_eq_none_iff.1 ht)
  · next hpc =>
      obtain ⟨t, ht, heq⟩ := Option.map_eq_some_iff.1 h
      cases heq
      exact .complete t hpc ht
  · next hpc =>
      obtain ⟨t, ht, heq⟩ := Option.map_eq_some_iff.1 h
      cases heq
      exact .signal t hpc ht
  · next notify hpc =>
      split at h
      · cases h
      · next hl =>
          cases h
          exact .release notify hpc (State.lockFree_of_locked (Bool.eq_false_of_not_eq_true hl))
  · next hpc =>
      cases h
      exact .post hpc
  · cases h

/-- Every live task is on the storage of its own number. -/
def State.OwnStorage (s : State F) : Prop := ∀ u, s.alive u → s.storage u = u

/-- **Every action is a step.** -/
theorem act_step [DecidableRel w.inferBatch] {a : Action F} (hown : s.OwnStorage)
    (h : act cfg w s a = some (e, s')) : Step cfg w s e s' := by
  cases a with
  | start =>
      simp only [act] at h
      split at h
      · next hpc =>
          cases h
          exact .start hpc
      · cases h
  | stop =>
      cases h
      exact .stop
  | stopPost =>
      simp only [act] at h
      split at h
      · next hposts =>
          cases h
          exact .stopPost hposts
      · cases h
  | construct t modelName inputData priority deadline clientFd =>
      simp only [act] at h
      split at h
      · next hc =>
          cases h
          refine .call t (.construct t modelName inputData priority deadline clientFd hc ?_)
          intro u hu heq
          rw [hown u hu] at heq
          subst heq
          simp [State.alive, hc] at hu
      · cases h
  | enqueue t now => exact .call t (enqueueAct_step h)
  | worker t => exact .call t (workerAct_step h)
  | wake t =>
      simp only [act] at h
      split at h
      · next hc =>
          cases h
          exact .call t (.wake hc)
      · cases h
  | etimedout t =>
      simp only [act] at h
      split at h
      · next hc =>
          cases h
          exact .call t (.etimedout hc)
      · cases h
  | run now =>
      simp only [act] at h
      split at h
      · next hm => exact .run (markAct_step hm h)
      · next hm => exact .run (runAct_step hm h)
  | token =>
      simp only [act] at h
      split at h
      · next hm => exact .run (tokenAct_step hm h)
      · cases h
  | exec n results =>
      simp only [act] at h
      split at h
      · next x hx =>
          obtain ⟨⟨e, s₁, x'⟩, hr, heq⟩ := Option.map_eq_some_iff.1 h
          cases heq
          exact .exec n hx (execAct_step hr)
      · cases h

/-- Only the construction of a task shows one. -/
theorem act_constructed [DecidableRel w.inferBatch] {a : Action F} {u : TaskRef}
    (h : act cfg w s a = some (.construct u, s')) : s'.storage u = u := by
  cases a with
  | construct t modelName inputData priority deadline clientFd =>
      simp only [act] at h
      split at h
      · cases h
        simp
      · cases h
  | enqueue t now =>
      simp only [act, enqueueAct] at h
      split at h
      · split at h <;> cases h
      · cases h
  | worker t =>
      simp only [act, workerAct] at h
      split at h <;> cases h
  | run now =>
      simp only [act] at h
      split at h
      · next hm => cases (markAct_step hm h : RunStep cfg w _ _ _)
      · next hm => cases (runAct_step hm h : RunStep cfg w _ _ _)
  | token =>
      simp only [act] at h
      split at h
      · next hm => cases (tokenAct_step hm h : RunStep cfg w _ _ _)
      · cases h
  | exec n results =>
      simp only [act] at h
      split at h
      · obtain ⟨⟨e, s₁, x'⟩, hr, heq⟩ := Option.map_eq_some_iff.1 h
        cases heq
        cases execAct_step hr
      · cases h
  | stop => cases h
  | start | stopPost | wake | etimedout =>
      simp only [act] at h
      split at h <;> cases h

theorem act_ownStorage [DecidableRel w.inferBatch] {a : Action F} (hown : s.OwnStorage)
    (h : act cfg w s a = some (e, s')) : s'.OwnStorage := by
  intro u hu
  rcases (act_step hown h).alive_new hu with ⟨hu', hsame⟩ | ⟨rfl, -⟩
  · exact hsame.trans (hown u hu')
  · exact act_constructed h

/-- Replaying an action that passes a test. -/
def actIf (cfg : Config) (w : World F) [DecidableRel w.inferBatch]
    (ok : State F → Event → State F → Bool) (s : State F) (a : Action F) :
    Option (Event × State F) :=
  (act cfg w s a).filter fun r => ok s r.1 r.2

/-- A script that passes a test does what it does without. -/
theorem replay_act_of_actIf [DecidableRel w.inferBatch] {ok : State F → Event → State F → Bool}
    {script : List (Action F)} {r : List Event × State F}
    (h : replay (actIf cfg w ok) s script = some r) : replay (act cfg w) s script = some r := by
  induction script generalizing s r with
  | nil => exact h
  | cons a script ih =>
      unfold replay at h ⊢
      split at h
      · next e s' ha =>
          rw [(Option.filter_eq_some_iff.1 ha).1]
          obtain ⟨r', hr, rfl⟩ := Option.map_eq_some_iff.1 h
          exact congrArg (Option.map fun r => (e :: r.1, r.2)) (ih hr)
      · cases h

theorem ownStorage_init : (State.init : State F).OwnStorage := fun _ hu => False.elim hu

section Scripts

variable (cfg : Config) (w : World F) [DecidableRel w.inferBatch] {β : Type*}

theorem Run.of_actIf {R : State F → Event → State F → Prop}
    (ok : State F → Event → State F → Bool)
    (hR : ∀ s e s', Step cfg w s e s' → ok s e s' = true → R s e s') {s₀ : State F}
    (hown : s₀.OwnStorage) {script : List (Action F)} {evs : List Event}
    (h : replay (actIf cfg w ok) s₀ script = some (evs, s)) : Run R s₀ evs s ∧ s.OwnStorage := by
  refine Run.of_replay State.OwnStorage ?_ hown h
  intro s a e s' hown ha
  obtain ⟨ha, hok⟩ := Option.filter_eq_some_iff.1 ha
  exact ⟨hR s e s' (act_step hown ha) hok, act_ownStorage hown ha⟩

/-- **A script gives a run**, of the steps that pass a test as it goes. -/
theorem Run.of_script {R : State F → Event → State F → Prop}
    (ok : State F → Event → State F → Bool)
    (hR : ∀ s e s', Step cfg w s e s' → ok s e s' = true → R s e s') (script : List (Action F))
    (f : List Event → State F → β) {b : β}
    (h : (replay (actIf cfg w ok) State.init script).map (fun r => f r.1 r.2) = some b) :
    ∃ evs s, Run R State.init evs s ∧ f evs s = b := by
  obtain ⟨⟨evs, s⟩, hr, rfl⟩ := Option.map_eq_some_iff.1 h
  exact ⟨evs, s, (Run.of_actIf cfg w ok hR ownStorage_init hr).1, rfl⟩

/-- A script with a second one behind it. -/
theorem Run.of_scripts {R : State F → Event → State F → Prop}
    (ok : State F → Event → State F → Bool)
    (hR : ∀ s e s', Step cfg w s e s' → ok s e s' = true → R s e s')
    (script script' : List (Action F)) (f : List Event → State F → List Event → State F → β) {b : β}
    (h : ((replay (actIf cfg w ok) State.init script).bind fun r =>
      (replay (actIf cfg w ok) r.2 script').map fun r' => f r.1 r.2 r'.1 r'.2) = some b) :
    ∃ evs₀ s₀ evs s, Run R State.init evs₀ s₀ ∧ Run R s₀ evs s ∧ f evs₀ s₀ evs s = b := by
  obtain ⟨⟨evs₀, s₀⟩, hr₀, h⟩ := Option.bind_eq_some_iff.1 h
  obtain ⟨⟨evs, s⟩, hr, rfl⟩ := Option.map_eq_some_iff.1 h
  obtain ⟨hr₀, hown⟩ := Run.of_actIf cfg w ok hR ownStorage_init hr₀
  exact ⟨evs₀, s₀, evs, s, hr₀, (Run.of_actIf cfg w ok hR hown hr).1, rfl⟩

/-- A script gives a run of the scheduler. -/
theorem Runs.of_script (script : List (Action F)) (f : List Event → State F → β) {b : β}
    (h : (replay (act cfg w) State.init script).map (fun r => f r.1 r.2) = some b) :
    ∃ evs s, Runs cfg w evs s ∧ f evs s = b := by
  obtain ⟨⟨evs, s⟩, hr, rfl⟩ := Option.map_eq_some_iff.1 h
  have hrun := Run.of_replay State.OwnStorage
    (fun _ _ _ _ hown ha => ⟨act_step hown ha, act_ownStorage hown ha⟩) ownStorage_init hr
  exact ⟨evs, s, hrun.1, rfl⟩

end Scripts

end Gateway.Sched
