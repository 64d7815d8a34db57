/-
What the scheduler can do: the way of a request to the engine.

Invariants say what no run does; this module builds runs.  A round of the loop of `run()` with
nothing to do goes straight to `collect_batch`, a batch whose tasks are not expired is submitted
whole, and an executor hands the inputs of its whole batch to the engine.  Put together, every
request with an open deadline can be accepted, collected, submitted and shown to the engine.

* `Gateway.Sched.run_branch`, `Gateway.Sched.run_idle`, `Gateway.Sched.run_submit`,
  `Gateway.Sched.run_convert` — the pieces;
* `Gateway.Sched.inferring`, `Gateway.Sched.run_inferring` — **the first request reaches the
  engine**.
-/

import InferenceGateway.SchedulerMoves

set_option relaxedAutoImplicit false
set_option autoImplicit false

namespace Gateway.Sched

open EventSystem

variable {F : Type} {cfg : Config} {w : World F} {s s₀ : State F} {evs : List Event}

/-! ### The pieces -/

/-- `run()` takes one of its branches. -/
theorem run_branch {a b : RunPc} (h : Run (Step cfg w) s₀ evs { s with pc := a })
    (hm : s.mark = none)
    (hb : a.branch cfg s.running s.activeBatchCount s.queue s.pendingCount = some b) :
    Run (Step cfg w) s₀ (evs ++ [.tau]) { s with pc := b } :=
  h.snoc (.run (.branch (s := { s with pc := a }) b hm hb))

/-- With the queues empty and no batch executing, a round of the loop of `run()` goes straight to
`collect_batch`. -/
theorem run_idle (now : ℤ) (h : Run (Step cfg w) s₀ evs { s with pc := .loopTest })
    (hm : s.mark = none) (hr : s.running = true) (ha : s.activeBatchCount = 0)
    (h₁ : s.queueHigh = []) (h₂ : s.queueMid = []) (h₃ : s.queueLow = []) :
    ∃ evs', Run (Step cfg w) s₀ (evs ++ evs') { s with pc := .collect } := by
  have h := run_branch (b := .semWait 500) h hm (by simp [RunPc.branch, hr, ha])
  have h := run_branch (b := .testRunning) h hm rfl
  have h := run_branch (b := .cleanup false) h hm (by simp [RunPc.branch, hr])
  have h := h.snoc (.run (.cleanBegin (s := { s with pc := .cleanup false }) false now hm rfl))
  have h := run_branch (s := s) (b := .clean false now .mid 0) h hm
    (by simp [RunPc.branch, h₁, QueueClass.next])
  have h := run_branch (b := .clean false now .low 0) h hm
    (by simp [RunPc.branch, h₂, QueueClass.next])
  have h := run_branch (b := .testIdle) h hm (by simp [RunPc.branch, h₃, QueueClass.next])
  have h := run_branch (b := .testPending) h hm (by simp [RunPc.branch, ha])
  have h := run_branch (b := .collect) h hm
    (by simp [RunPc.branch, State.pendingCount, h₁, h₂, h₃])
  exact ⟨_, by simpa only [List.append_assoc] using h⟩

/-- The submit filter keeps every task that has not expired. -/
theorem run_filter (now : ℤ) {batch : List TaskRef} (valid : List TaskRef)
    (h : Run (Step cfg w) s₀ evs { s with pc := .filter now batch valid }) (hm : s.mark = none)
    (hex : ∀ t ∈ batch, (s.tasks t).expired now = false) :
    ∃ evs', Run (Step cfg w) s₀ (evs ++ evs') { s with pc := .filter now [] (valid ++ batch) } := by
  induction batch generalizing valid evs with
  | nil => exact ⟨[], by simpa using h⟩
  | cons t batch ih =>
      have h := h.snoc (.run (.filterKeep (s := { s with pc := .filter now (t :: batch) valid })
        now t batch valid hm rfl (hex t List.mem_cons_self)))
      obtain ⟨evs', h⟩ := ih (valid ++ [t]) h fun u hu => hex u (List.mem_cons_of_mem _ hu)
      exact ⟨.readDeadline t :: evs', by simpa using h⟩

/-- A batch in hand in which nothing has expired is submitted whole when there is room. -/
theorem run_submit (now : ℤ) {batch : List TaskRef}
    (h : Run (Step cfg w) s₀ evs { s with pc := .throttleRunning batch }) (hm : s.mark = none)
    (hr : s.running = true) (ha : s.activeBatchCount < cfg.maxConcurrentBatches) (hne : batch ≠ [])
    (hex : ∀ t ∈ batch, (s.tasks t).expired now = false) :
    ∃ evs', Run (Step cfg w) s₀ (evs ++ evs')
      { s with
        activeBatchCount := s.activeBatchCount + 1
        execs := s.execs ++ [{ batch := batch }]
        pc := .loopTest } := by
  have h := run_branch (b := .throttleActive batch) h hm (by simp [RunPc.branch, hr])
  have h := run_branch (b := .testStop batch) h hm (by simp [RunPc.branch]; omega)
  have h := run_branch (b := .filterClock batch) h hm (by simp [RunPc.branch, hr])
  have h := h.snoc (.run (.filterBegin (s := { s with pc := .filterClock batch }) now batch hm rfl))
  obtain ⟨evs', h⟩ := run_filter (s := s) now [] h hm hex
  have h := run_branch (s := s) (b := .submit batch) h hm (by simp [RunPc.branch, hne])
  have h := h.snoc (.run (.submit (s := { s with pc := .submit batch }) batch hm rfl))
  have h := h.snoc (.run (.spawn (s := { s with
    activeBatchCount := s.activeBatchCount + 1
    pc := .spawn batch }) batch hm rfl))
  exact ⟨_, by simpa only [List.append_assoc] using h⟩

/-- The inputs that an executor builds from its batch. -/
def State.inputsOf (s : State F) (batch : List TaskRef) : List (InferenceInput F) :=
  batch.map fun t => (s.tasks t).toInput

/-- The conversion loop of `execute_batch` runs through its batch. -/
theorem run_convert {n : ℕ} {b d rest : List TaskRef}
    (h : Run (Step cfg w) s₀ evs (s.setExec n
      { batch := b, pc := .convert, inputs := s.inputsOf d }))
    (hn : n < s.execs.length) (hb : b = d ++ rest) :
    ∃ evs', Run (Step cfg w) s₀ (evs ++ evs') (s.setExec n
      { batch := b, pc := .infer, inputs := s.inputsOf b }) ∧ .infer b ∈ evs' := by
  have hset : ∀ x y : Exec F, (s.setExec n x).setExec n y = s.setExec n y := fun x y => by
    simp [State.setExec]
  have hget : ∀ x : Exec F, (s.setExec n x).execs[n]? = some x := fun x => by
    simp [State.setExec, hn]
  induction rest generalizing d evs with
  | nil =>
      obtain rfl : b = d := by simpa using hb
      have h := h.snoc (.exec n (hget _) (.converted rfl (by simp [State.inputsOf])))
      rw [hset] at h
      exact ⟨_, h, List.mem_singleton_self _⟩
  | cons t rest ih =>
      have ht : b[(s.inputsOf d).length]? = some t := by
        simp [hb, State.inputsOf]
      have h := h.snoc (.exec n (hget _) (.convert t rfl ht))
      rw [hset] at h
      have hd : s.inputsOf d ++ [(s.tasks t).toInput] = s.inputsOf (d ++ [t]) := by
        simp [State.inputsOf]
      obtain ⟨evs', h, hmem⟩ := ih (d := d ++ [t])
        (by simpa only [State.setExec_tasks, hd] using h) (by simpa using hb)
      exact ⟨.readInput t :: evs', by simpa using h, List.mem_cons_of_mem _ hmem⟩

/-! ### The way of a request -/

/-- The state after a worker has built a task and `enqueue` has accepted it. -/
def State.accepted (s : State F) (t : TaskRef) (task : InferenceTask F) (addr : ℕ) (now : ℤ) :
    State F :=
  { s.setQueue (s.queue (.ofPriority task.priority) ++ [t]) (.ofPriority task.priority) with
    nextTaskId := s.nextTaskId + 1
    tasks := Function.update s.tasks t { task with taskId := s.nextTaskId, arrivalTime := now }
    calls := Function.update s.calls t .posting
    storage := Function.update s.storage t addr }

/-- `enqueue` on a task that was just built. -/
theorem enqueue_built {t : TaskRef} (task : InferenceTask F) (addr : ℕ) (now : ℤ)
    (hroom : ¬ s.full cfg) :
    ∃ s₁, enqueue cfg { s with
        tasks := Function.update s.tasks t task
        calls := Function.update s.calls t .built
        storage := Function.update s.storage t addr } t now = (true, s₁) ∧
      s₁.setCall t .posting = s.accepted t task addr now := by
  refine ⟨_, enqueue_of_not_full now hroom, ?_⟩
  simp only [Function.update_self]
  cases hc : QueueClass.ofPriority task.priority <;>
    simp [State.accepted, State.setCall, State.setQueue, State.modify, State.queue, hc]

/-- A new request is accepted unless the queues are full. -/
theorem run_request {t : TaskRef} (modelName : Bytes) (inputData : List F)
    (priority deadline clientFd : ℤ) (addr : ℕ) (now : ℤ) (h : Run (Step cfg w) s₀ evs s)
    (ht : s.calls t = .absent) (hfree : ∀ u, s.alive u → s.storage u ≠ addr) (hl : s.lockFree)
    (hroom : ¬ s.full cfg) :
    Run (Step cfg w) s₀ (evs ++ [.construct t, .accept t])
      (s.accepted t (.make modelName inputData priority deadline clientFd) addr now) := by
  have h := h.snoc (.call t (.construct addr modelName inputData priority deadline clientFd ht
    hfree))
  obtain ⟨s₁, henq, hs₁⟩ := enqueue_built (t := t)
    (.make modelName inputData priority deadline clientFd) addr now hroom
  have h := h.snoc (.call t (.accept now (by simp) hl henq))
  rwa [List.append_assoc, hs₁] at h

/-- A new request is accepted, and its worker posts. -/
theorem run_posted {t : TaskRef} (modelName : Bytes) (inputData : List F)
    (priority deadline clientFd : ℤ) (addr : ℕ) (now : ℤ) (h : Run (Step cfg w) s₀ evs s)
    (ht : s.calls t = .absent) (hfree : ∀ u, s.alive u → s.storage u ≠ addr) (hl : s.lockFree)
    (hroom : ¬ s.full cfg) :
    Run (Step cfg w) s₀ (evs ++ [.construct t, .accept t, .tau])
      { s.accepted t (.make modelName inputData priority deadline clientFd) addr now with
        calls := Function.update s.calls t .checking
        queueSem := s.queueSem + 1 } := by
  have h := run_request modelName inputData priority deadline clientFd addr now h ht hfree hl hroom
  have h := h.snoc (.call t (.post (by simp [State.accepted])))
  have hsem : ∀ q c, (s.setQueue q c).queueSem = s.queueSem := fun q c => by cases c <;> rfl
  simpa [State.accepted, State.setCall, hsem, Function.update_idem] using h

/-- The scheduler has shown the engine the batch that consists of its first task alone; the worker
is about to post `queue_sem_`. -/
def inferring (task : InferenceTask F) (addr : ℕ) : State F where
  activeBatchCount := 1
  running := true
  nextTaskId := 2
  tasks := Function.update (fun _ => {}) 0 task
  pc := .loopTest
  execs := [{ batch := [0], pc := .infer, inputs := [task.toInput] }]
  calls := Function.update (fun _ => .absent) 0 .posting
  storage := Function.update (fun _ => 0) 0 addr

/-- **The first request reaches the engine**, whatever it asks for, unless its deadline has passed
already when it is submitted. -/
theorem run_inferring (cfg : Config) (w : World F) (hsize : 1 ≤ cfg.maxBatchSize)
    (modelName : Bytes) (inputData : List F) (priority deadline clientFd : ℤ) (addr : ℕ) (now : ℤ)
    (hdeadline : ¬ (0 < deadline ∧ deadline < now)) :
    ∃ evs, Runs cfg w evs (inferring
      { InferenceTask.make modelName inputData priority deadline clientFd with
        taskId := 1
        arrivalTime := now } addr) ∧ .infer [0] ∈ evs := by
  set task : InferenceTask F := .make modelName inputData priority deadline clientFd with htask
  -- the scheduler thread starts, finds nothing to do and stands before `collect_batch`
  have h : Runs cfg w _ { (State.init : State F) with running := true, pc := .loopTest } :=
    Run.single (.start rfl)
  obtain ⟨evs₁, h⟩ := run_idle (s := { (State.init : State F) with running := true }) now h rfl rfl
    rfl rfl rfl rfl
  -- the worker builds its task, is accepted and collected
  have h := run_request (t := 0) modelName inputData priority deadline clientFd addr now h rfl
    (fun _ h => h.elim) trivial (by rintro ⟨h₁, h₂⟩; exact absurd h₂ (not_le.2 h₁))
  rw [← htask] at h
  set s₁ : State F :=
    { running := true
      nextTaskId := 2
      tasks := Function.update (fun _ => {}) 0 { task with taskId := 1, arrivalTime := now }
      calls := Function.update (fun _ => .absent) 0 .posting
      storage := Function.update (fun _ => 0) 0 addr } with hs₁
  have hcollect : collectBatch cfg (State.accepted
      { (State.init : State F) with running := true, pc := .collect } 0 task addr now) =
      ([0], { s₁ with pc := .collect }) := by
    obtain ⟨n, hn⟩ : ∃ n, cfg.batchLimit = n + 1 :=
      ⟨cfg.batchLimit - 1, by unfold Config.batchLimit; omega⟩
    rw [collectBatch_eq]
    cases hc : QueueClass.ofPriority task.priority <;>
      simp [State.accepted, hc, State.pending, State.collected, State.setQueue, State.queue,
        State.init, hn, hs₁]
  have h := h.snoc (.run (.collect [0] (by simp [State.accepted, State.init])
    (by simp [State.accepted]) hcollect))
  -- it has not expired, so it is submitted and converted
  obtain ⟨evs₂, h⟩ := run_submit (s := s₁) now h rfl rfl
    (lt_of_lt_of_le Int.zero_lt_one cfg.maxConcurrentBatches_pos) (by simp) (by
      intro t ht
      obtain rfl := List.mem_singleton.1 ht
      simpa [hs₁, htask, InferenceTask.expired, InferenceTask.make] using hdeadline)
  have h := h.snoc (.exec 0 rfl (.enter rfl (List.cons_ne_nil _ _)))
  set s₂ : State F :=
    { s₁ with
      activeBatchCount := s₁.activeBatchCount + 1
      execs := [{ batch := [0] }]
      pc := .loopTest } with hs₂
  obtain ⟨evs₃, h, hmem⟩ := run_convert (s := s₂) (n := 0) (b := [0]) (d := []) h
    (by simp [hs₂]) rfl
  have hend : s₂.setExec 0 { batch := [0], pc := .infer, inputs := s₂.inputsOf [0] } =
      inferring { task with taskId := 1, arrivalTime := now } addr := by
    simp [inferring, hs₂, hs₁, State.setExec, State.inputsOf]
  rw [hend] at h
  exact ⟨_, h, List.mem_append_right _ hmem⟩

end Gateway.Sched
