/-
**The command line and what runs after it.**

`Config` takes its settings from the command line, and `main` hands them to the server, the
scheduler and the engine.  Here the command line is followed through `getopt`, `parse_arg` and the
start-up to what is running in the end: the settings of the scheduler, the engine that was chosen,
the trigger modes, the log and the threads.

Main definitions:

* `Gateway.Main.Config`, `Gateway.Main.Config.parseArg` — the settings and how they are read;
* `Gateway.Main.lastOf` — the last value that a command line gives to a letter;
* `Gateway.Main.Running`, `Gateway.Main.main` — what runs after the start-up.

Main results:

* `Gateway.Main.parse_eq` — each setting is the last value of its letter, or its default;
* `Gateway.Main.parse_settings` — settings that are given are read back;
* `Gateway.Main.start_up` — **what a command line starts.**
-/

import InferenceGateway.GetOpt
import InferenceGateway.HttpFraming
import InferenceGateway.OnnxReload
import InferenceGateway.SchedulerDrain

set_option relaxedAutoImplicit false
set_option autoImplicit false

namespace Gateway.Main

open GetOpt EventSystem

/-! ### Settings -/

/-- `atoi`: the `int` of a `long`. -/
def atoi (s : Bytes) : ℤ := Int.bmod (CString.atol s) (2 ^ 32)

/-- The settings, with their defaults. -/
structure Config where
  port : ℤ := 9006
  logWrite : ℤ := 0
  trigMode : ℤ := 0
  optLinger : ℤ := 0
  engineType : Bytes := ascii "mock"
  modelPath : Bytes := []
  batchWindowMs : ℤ := 10
  maxBatchSize : ℤ := 8
  maxConcurrentBatches : ℤ := 2
  maxQueueSize : ℤ := 0
  engineLatencyMs : ℤ := 50
  taskTimeoutSec : ℤ := 30
  threadNum : ℤ := 8
  closeLog : ℤ := 0
  actorModel : ℤ := 0
  deriving DecidableEq

/-- A character of the source text. -/
def letter (c : Char) : UInt8 := c.toNat.toUInt8

/-- The options that `parse_arg` hands to `getopt`. -/
def optstring : Bytes := ascii "p:l:m:o:s:t:c:a:b:n:T:C:Q:E:M:"

/-- The letters with a setting. -/
def letters : List UInt8 :=
  [letter 'p', letter 'l', letter 'm', letter 'o', letter 's', letter 't', letter 'c', letter 'a',
    letter 'b', letter 'n', letter 'C', letter 'Q', letter 'E', letter 'M', letter 'T']

/-- The `switch (opt)` of `parse_arg`. -/
def Config.set (config : Config) (opt : UInt8) (optarg : Bytes) : Config :=
  if opt = letter 'p' then { config with port := atoi optarg }
  else if opt = letter 'l' then { config with logWrite := atoi optarg }
  else if opt = letter 'm' then { config with trigMode := atoi optarg }
  else if opt = letter 'o' then { config with optLinger := atoi optarg }
  else if opt = letter 's' then { config with engineLatencyMs := atoi optarg }
  else if opt = letter 't' then { config with threadNum := atoi optarg }
  else if opt = letter 'c' then { config with closeLog := atoi optarg }
  else if opt = letter 'a' then { config with actorModel := atoi optarg }
  else if opt = letter 'b' then { config with batchWindowMs := atoi optarg }
  else if opt = letter 'n' then { config with maxBatchSize := atoi optarg }
  else if opt = letter 'C' then { config with maxConcurrentBatches := atoi optarg }
  else if opt = letter 'Q' then { config with maxQueueSize := atoi optarg }
  else if opt = letter 'E' then { config with engineType := optarg }
  else if opt = letter 'M' then { config with modelPath := optarg }
  else if opt = letter 'T' then { config with taskTimeoutSec := atoi optarg }
  else config

/-- One round of the loop of `parse_arg`. -/
def Config.next (config : Config) : Found → Config
  | .option opt (some optarg) => config.set opt optarg
  | _ => config

/-- `parse_arg`; `argv` is the command line behind the name of the program. -/
def Config.parseArg (config : Config) (argv : List Bytes) : Config :=
  (getopt (ofString optstring) argv).foldl Config.next config

/-! ### The last value counts -/

/-- The value that a finding gives to a letter. -/
def valueOf (c : Char) : Found → Option Bytes
  | .option opt (some optarg) => if opt = letter c then some optarg else none
  | _ => none

/-- The last value that is given to a letter. -/
def lastOf (c : Char) (found : List Found) : Option Bytes := (found.filterMap (valueOf c)).getLast?

/-- The last number that is given to a letter. -/
def numberOf (c : Char) (found : List Found) (default : ℤ) : ℤ :=
  ((lastOf c found).map atoi).getD default

/-- The last text that is given to a letter. -/
def textOf (c : Char) (found : List Found) (default : Bytes) : Bytes :=
  (lastOf c found).getD default

theorem lastOf_snoc (c : Char) (found : List Found) (x : Found) :
    lastOf c (found ++ [x]) = (valueOf c x).or (lastOf c found) := by
  rw [lastOf, List.filterMap_append, List.filterMap_cons, List.filterMap_nil]
  cases valueOf c x with
  | none => simp [lastOf]
  | some v => simp

@[simp] theorem numberOf_snoc (c : Char) (found : List Found) (opt : UInt8) (optarg : Bytes)
    (default : ℤ) :
    numberOf c (found ++ [.option opt (some optarg)]) default =
      if opt = letter c then atoi optarg else numberOf c found default := by
  rw [numberOf, lastOf_snoc, valueOf]
  split
  · rfl
  · rfl

@[simp] theorem textOf_snoc (c : Char) (found : List Found) (opt : UInt8) (optarg : Bytes)
    (default : Bytes) :
    textOf c (found ++ [.option opt (some optarg)]) default =
      if opt = letter c then optarg else textOf c found default := by
  rw [textOf, lastOf_snoc, valueOf]
  split
  · rfl
  · rfl

/-- An option changes the setting of its letter, and no other. -/
theorem Config.set_eq (config : Config) (opt : UInt8) (optarg : Bytes) :
    config.set opt optarg =
      { port := if opt = letter 'p' then atoi optarg else config.port
        logWrite := if opt = letter 'l' then atoi optarg else config.logWrite
        trigMode := if opt = letter 'm' then atoi optarg else config.trigMode
        optLinger := if opt = letter 'o' then atoi optarg else config.optLinger
        engineType := if opt = letter 'E' then optarg else config.engineType
        modelPath := if opt = letter 'M' then optarg else config.modelPath
        batchWindowMs := if opt = letter 'b' then atoi optarg else config.batchWindowMs
        maxBatchSize := if opt = letter 'n' then atoi optarg else config.maxBatchSize
        maxConcurrentBatches :=
          if opt = letter 'C' then atoi optarg else config.maxConcurrentBatches
        maxQueueSize := if opt = letter 'Q' then atoi optarg else config.maxQueueSize
        engineLatencyMs := if opt = letter 's' then atoi optarg else config.engineLatencyMs
        taskTimeoutSec := if opt = letter 'T' then atoi optarg else config.taskTimeoutSec
        threadNum := if opt = letter 't' then atoi optarg else config.threadNum
        closeLog := if opt = letter 'c' then atoi optarg else config.closeLog
        actorModel := if opt = letter 'a' then atoi optarg else config.actorModel } := by
  by_cases h : opt ∈ letters
  · simp only [letters, List.mem_cons, List.not_mem_nil, or_false] at h
    rcases h with rfl | rfl | rfl | rfl | rfl | rfl | rfl | rfl | rfl | rfl | rfl | rfl | rfl |
      rfl | rfl
    all_goals rfl
  · simp only [letters, List.mem_cons, List.not_mem_nil, or_false, not_or] at h
    simp only [Config.set, h, if_false]

/-- Each setting is the last value of its letter, or what it was. -/
def Config.settle (config : Config) (found : List Found) : Config :=
  { port := numberOf 'p' found config.port
    logWrite := numberOf 'l' found config.logWrite
    trigMode := numberOf 'm' found config.trigMode
    optLinger := numberOf 'o' found config.optLinger
    engineType := textOf 'E' found config.engineType
    modelPath := textOf 'M' found config.modelPath
    batchWindowMs := numberOf 'b' found config.batchWindowMs
    maxBatchSize := numberOf 'n' found config.maxBatchSize
    maxConcurrentBatches := numberOf 'C' found config.maxConcurrentBatches
    maxQueueSize := numberOf 'Q' found config.maxQueueSize
    engineLatencyMs := numberOf 's' found config.engineLatencyMs
    taskTimeoutSec := numberOf 'T' found config.taskTimeoutSec
    threadNum := numberOf 't' found config.threadNum
    closeLog := numberOf 'c' found config.closeLog
    actorModel := numberOf 'a' found config.actorModel }

/-- **The loop settles each setting.** -/
theorem parse_eq (found : List Found) (config : Config) :
    found.foldl Config.next config = config.settle found := by
  induction found using List.reverseRecOn with
  | nil => rfl
  | append_singleton found x ih =>
      rw [List.foldl_append, List.foldl_cons, List.foldl_nil, ih]
      cases x with
      | bad =>
          simp only [Config.settle, numberOf, textOf, lastOf_snoc, valueOf, Option.none_or,
            Config.next]
      | option opt optarg =>
          cases optarg with
          | none =>
              simp only [Config.settle, numberOf, textOf, lastOf_snoc, valueOf, Option.none_or,
                Config.next]
          | some optarg =>
              simp only [Config.settle, Config.next, Config.set_eq, numberOf_snoc, textOf_snoc]

/-! ### Writing settings down -/

/-- A number as `%d` prints it. -/
def printInt (n : ℤ) : Bytes :=
  if n < 0 then 45 :: HttpConn.decimal n.natAbs else HttpConn.decimal n.natAbs

/-- A minus sign in front of digits. -/
theorem atol_minus {s : Bytes} (hs : ∀ b ∈ s, CString.isdigit b = true)
    (hlong : (CString.digits s : ℤ) ≤ CString.LONG_MAX) :
    CString.atol (45 :: s) = -(CString.digits s : ℤ) := by
  have hdrop : (45 :: s).dropWhile CString.isspace = 45 :: s :=
    List.dropWhile_cons_of_neg (by decide)
  have htake : s.takeWhile CString.isdigit = s := List.takeWhile_eq_self_iff.2 hs
  rw [CString.atol, hdrop]
  simp only [htake]
  unfold CString.LONG_MAX at *
  unfold CString.LONG_MIN
  omega

/-- **A printed `int` is read back.** -/
theorem atoi_printInt {n : ℤ} (hlow : -2 ^ 31 ≤ n) (hhigh : n < 2 ^ 31) :
    atoi (printInt n) = n := by
  have hlong : ((n.natAbs : ℕ) : ℤ) ≤ CString.LONG_MAX := by
    unfold CString.LONG_MAX
    omega
  have hread : CString.atol (printInt n) = n := by
    unfold printInt
    split
    · obtain ⟨hall, hvalue⟩ := digits_decimal n.natAbs
      rw [atol_minus hall (by rwa [hvalue]), hvalue]
      omega
    · rw [atol_decimal hlong]
      omega
  rw [atoi, hread]
  exact Int.bmod_eq_of_le_mul_two (by omega) (by omega)

/-- The settings that are numbers. -/
def Config.numbers (config : Config) : List ℤ :=
  [config.port, config.logWrite, config.trigMode, config.optLinger, config.batchWindowMs,
    config.maxBatchSize, config.maxConcurrentBatches, config.maxQueueSize, config.engineLatencyMs,
    config.taskTimeoutSec, config.threadNum, config.closeLog, config.actorModel]

/-- Every number fits into an `int`. -/
def Config.InRange (config : Config) : Prop := ∀ n ∈ config.numbers, -2 ^ 31 ≤ n ∧ n < 2 ^ 31

/-- The options that give every setting. -/
def Config.settings (config : Config) : List Found :=
  [.option (letter 'p') (printInt config.port), .option (letter 'l') (printInt config.logWrite),
    .option (letter 'm') (printInt config.trigMode),
    .option (letter 'o') (printInt config.optLinger),
    .option (letter 's') (printInt config.engineLatencyMs),
    .option (letter 't') (printInt config.threadNum),
    .option (letter 'c') (printInt config.closeLog),
    .option (letter 'a') (printInt config.actorModel),
    .option (letter 'b') (printInt config.batchWindowMs),
    .option (letter 'n') (printInt config.maxBatchSize),
    .option (letter 'C') (printInt config.maxConcurrentBatches),
    .option (letter 'Q') (printInt config.maxQueueSize), .option (letter 'E') config.engineType,
    .option (letter 'M') config.modelPath, .option (letter 'T') (printInt config.taskTimeoutSec)]

/-- What one option among the settings says is the last that is said. -/
theorem lastOf_settings {config : Config} {found : List Found} (hperm : found.Perm config.settings)
    (c : Char) {v : Bytes} (h : config.settings.filterMap (valueOf c) = [v]) :
    lastOf c found = some v := by
  have hone : (found.filterMap (valueOf c)).Perm [v] := h ▸ hperm.filterMap _
  rw [lastOf, List.perm_singleton.1 hone]
  rfl

/-- **Settings that are given are read back**, in whatever order. -/
theorem parse_settings {config : Config} {found : List Found} (start : Config)
    (hrange : config.InRange) (hperm : found.Perm config.settings) :
    found.foldl Config.next start = config := by
  have hlast := @lastOf_settings config found hperm
  have hread : ∀ n ∈ config.numbers, atoi (printInt n) = n := fun n hn =>
    atoi_printInt (hrange n hn).1 (hrange n hn).2
  simp only [Config.numbers, List.forall_mem_cons] at hread
  rw [parse_eq]
  simp only [Config.settle, numberOf, textOf, hlast 'p' rfl, hlast 'l' rfl, hlast 'm' rfl,
    hlast 'o' rfl, hlast 's' rfl, hlast 't' rfl, hlast 'c' rfl, hlast 'a' rfl, hlast 'b' rfl,
    hlast 'n' rfl, hlast 'C' rfl, hlast 'Q' rfl, hlast 'E' rfl, hlast 'M' rfl, hlast 'T' rfl,
    Option.map_some, Option.getD_some]
  simp only [hread]

/-! ### What runs -/

/-- The engine that was chosen. -/
inductive Engine
  | mock (engine : MockEngine) (latencyMs : ℤ)
  | onnx (engine : OnnxEngine)

/-- What runs after the start-up.  `log` is the length of the queue of `Log::init`, if that is
called, and a trigger mode is `none` where its field is never set. -/
structure Running where
  taskTimeoutSec : ℤ
  log : Option ℕ
  threads : ℤ
  actorModel : ℤ
  engine : Engine
  scheduler : Sched.Config
  listenTrigMode : Option ℤ
  connTrigMode : Option ℤ
  lingers : Bool
  port : ℕ

/-- `log_write`: the queue of the log. -/
def logWrite (config : Config) : Option ℕ :=
  if config.closeLog = 0 then
    if config.logWrite = 1 then some 800 else some 0
  else none

/-- The engine that `thread_pool` chooses. -/
def chooseEngine {F : Type} (sdk : Bool) (ort : Ort F) (config : Config) : Engine :=
  if config.engineType = ascii "onnx" then
    if (OnnxEngine.init sdk ort {} config.modelPath).1 then
      .onnx (OnnxEngine.init sdk ort {} config.modelPath).2
    else .mock (MockEngine.setIoSize 4) config.engineLatencyMs
  else .mock (MockEngine.setIoSize 4) config.engineLatencyMs

/-- The settings that `thread_pool` hands to the scheduler. -/
def schedulerConfig (config : Config) : Sched.Config :=
  let cfg : Sched.Config := { batchWindowMs := config.batchWindowMs }
  let cfg := { cfg with maxBatchSize := config.maxBatchSize }
  let cfg := cfg.setMaxConcurrentBatches config.maxConcurrentBatches
  { cfg with maxQueueSize := config.maxQueueSize }

/-- `trig_mode`: the modes of the listening socket and of the connections. -/
def trigMode (mode : ℤ) : Option ℤ × Option ℤ :=
  if mode = 0 then (some 0, some 0)
  else if mode = 1 then (some 0, some 1)
  else if mode = 2 then (some 1, some 0)
  else if mode = 3 then (some 1, some 1)
  else (none, none)

/-- `main` up to the event loop.  Without a thread the pool throws, and the process ends. -/
def main {F : Type} (sdk : Bool) (ort : Ort F) (argv : List Bytes) : Option Running :=
  let config := Config.parseArg {} argv
  if config.threadNum ≤ 0 then none
  else some
    { taskTimeoutSec := config.taskTimeoutSec
      log := logWrite config
      threads := config.threadNum
      actorModel := config.actorModel
      engine := chooseEngine sdk ort config
      scheduler := schedulerConfig config
      listenTrigMode := (trigMode config.trigMode).1
      connTrigMode := (trigMode config.trigMode).2
      lingers := config.optLinger ≠ 0
      port := (config.port % 2 ^ 16).toNat }

/-- The options of `parse_arg` are the letters with a setting, and each takes a value. -/
theorem ofString_optstring (c : UInt8) :
    ofString optstring c = if c ∈ letters then some true else none := by
  split
  · next h =>
      simp only [letters, List.mem_cons, List.not_mem_nil, or_false] at h
      rcases h with rfl | rfl | rfl | rfl | rfl | rfl | rfl | rfl | rfl | rfl | rfl | rfl | rfl |
        rfl | rfl
      all_goals rfl
  · next h =>
      have hall : ∀ b ∈ optstring, b ∈ letters ∨ b = colon := CString.forall_of_all rfl
      exact ofString_none fun hc => (hall c hc).resolve_left h

/-- An engine that is ready for batches. -/
def Engine.Ready : Engine → Prop
  | .mock _ _ => True
  | .onnx engine => engine.initialized = true ∧ engine.session.isSome = true

theorem chooseEngine_ready {F : Type} (sdk : Bool) (ort : Ort F) (config : Config) :
    (chooseEngine sdk ort config).Ready := by
  unfold chooseEngine
  split
  · split
    · next h =>
        obtain ⟨session, -, hload⟩ := OnnxEngine.init_ok h
        rw [hload {}]
        exact ⟨rfl, rfl⟩
    · trivial
  · trivial

/-- What the scheduler is started with. -/
theorem main_scheduler {F : Type} {sdk : Bool} {ort : Ort F} {argv : List Bytes}
    {running : Running} (h : main sdk ort argv = some running) :
    0 < numberOf 't' (getopt (ofString optstring) argv) 8 ∧ running.engine.Ready ∧
      running.scheduler.maxBatchSize = numberOf 'n' (getopt (ofString optstring) argv) 8 := by
  rw [main, Config.parseArg, parse_eq] at h
  split at h
  · cases h
  · next hpos =>
      cases h
      exact ⟨not_le.1 hpos, chooseEngine_ready sdk ort _, rfl⟩

/-- **What a command line starts.**  The command lines in which `getopt` refuses nothing are those
that consist of words.  Whatever their order and spelling, each setting is the last value of its
letter, or its default, and every setting can be given.  What runs has threads and an engine that
is ready.  With a batch size of zero or less the engine never gets a batch; with every other one
nothing needs to be left behind in the scheduler, whatever the other settings are. -/
theorem start_up {F : Type} (sdk : Bool) (ort : Ort F) :
    (∀ argv, .bad ∉ getopt (ofString optstring) argv ↔ WellFormed (ofString optstring) argv) ∧
    (∀ (words : List Word) (rest : List Bytes),
      (∀ w ∈ words, w.Valid (ofString optstring)) → Ended rest →
        Config.parseArg {} (words.flatMap Word.args ++ rest) =
            Config.settle {} (words.flatMap Word.option) ∧
          ∀ config : Config, config.InRange →
            (words.flatMap Word.option).Perm config.settings →
              Config.parseArg {} (words.flatMap Word.args ++ rest) = config) ∧
    ∀ argv running, main sdk ort argv = some running →
      0 < numberOf 't' (getopt (ofString optstring) argv) 8 ∧ running.engine.Ready ∧
        ∀ (w : Sched.World F) evs s, w.Reliable → w.Answers →
          Sched.Runs running.scheduler w evs s →
            (numberOf 'n' (getopt (ofString optstring) argv) 8 ≤ 0 →
              ∀ batch, .infer batch ∉ evs) ∧
            (1 ≤ numberOf 'n' (getopt (ofString optstring) argv) 8 → s.running = true →
              ∃ evs' s', Run (Sched.Serve running.scheduler w) s evs' s' ∧ s'.placed = []) := by
  refine ⟨?_, ?_, ?_⟩
  · refine getopt_good_iff (fun c => ?_) ?_
    · rw [ofString_optstring]
      split <;> simp
    · rw [ofString_optstring]
      rfl
  · intro words rest hwords hrest
    rw [Config.parseArg, getopt_words hwords hrest]
    exact ⟨parse_eq _ _, fun config hrange hperm => parse_settings {} hrange hperm⟩
  · intro argv running hmain
    obtain ⟨hthreads, hready, hsize⟩ := main_scheduler hmain
    refine ⟨hthreads, hready, fun w evs s hw ha h => ?_⟩
    refine ⟨fun hzero batch hb => ?_, fun hone hrun => ?_⟩
    · obtain ⟨hne, hle⟩ := Sched.Runs.infer_sized h hb
      have hpos := List.length_pos_iff.2 hne
      omega
    · obtain ⟨evs', s', hr, -, hnil, -⟩ :=
        Sched.Serving.drain hw ha (by rwa [hsize]) ⟨⟨evs, h⟩, hrun⟩
      exact ⟨evs', s', hr, hnil⟩

/-- Two settings in the two spellings, an operand between them, and what follows `--`. -/
theorem start_up_batch_size : ∃ running,
    main false OnnxEngine.sumOrt [ascii "-n4", ascii "x", ascii "-t", ascii "2", ascii "--",
      ascii "-n0"] = some running ∧
    running.engine.Ready ∧ running.scheduler.maxBatchSize = 4 := by
  have hmain : ∃ running, main false OnnxEngine.sumOrt [ascii "-n4", ascii "x", ascii "-t",
      ascii "2", ascii "--", ascii "-n0"] = some running ∧ running.scheduler.maxBatchSize = 4 :=
    ⟨_, rfl, rfl⟩
  obtain ⟨running, hmain, hsize⟩ := hmain
  obtain ⟨-, -, hrun⟩ := start_up false OnnxEngine.sumOrt
  exact ⟨running, hmain, (hrun _ _ hmain).2.1, hsize⟩

end Gateway.Main
