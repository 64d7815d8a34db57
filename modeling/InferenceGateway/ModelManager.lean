/-
The model manager.

`ModelManager` maps names to engines, which it does not own.  Each method holds the lock from its
first line to its last, and those that visit all models do so one by one.  This module has the
methods line by line, for any number of threads.

* `Gateway.ModelManager.Pc`, `Gateway.ModelManager.program` — the methods line by line;
* `Gateway.ModelManager.registered` — the engine that the calls so far have left under a name;
* `Gateway.ModelManager.calls_answered` — **every call answers as the calls before it have left the
  names, and `shutdown_all` meets every engine that is registered**.
-/

import InferenceGateway.Monitor
import InferenceGateway.Task

set_option relaxedAutoImplicit false
set_option autoImplicit false

namespace Gateway

open EventSystem (Run)
open Monitor (Program State)

/-- `models_`.  An engine is a pointer, which may be null. -/
abbrev ModelManager := Std.TreeMap Bytes (Option ℕ)

namespace ModelManager

variable {ι : Type*}

/-- A call with what it returned; for `shutdown_all` the engines that it shut down. -/
inductive Op
  | registerModel (name : Bytes) (engine : Option ℕ)
  | unregisterModel (name : Bytes)
  | getEngine (name : Bytes) (engine : Option ℕ)
  | hasModel (name : Bytes) (found : Bool)
  | listModels (names : List Bytes)
  | shutdownAll (engines : List ℕ)
  | modelCount (count : ℕ)

/-! ### The methods line by line -/

/-- `get_engine` between `lock` and `unlock`. -/
def getEngine (models : ModelManager) (name : Bytes) : Option ℕ :=
  match models[name]? with
  | some engine => engine
  | none => none

/-- Where a thread is: outside of all methods, before the first line of one, in the loop of
`list_models` or `shutdown_all`, before the `unlock`. -/
inductive Pc
  | idle
  | registerModel (name : Bytes) (engine : Option ℕ)
  | unregisterModel (name : Bytes)
  | getEngine (name : Bytes)
  | hasModel (name : Bytes)
  | listModels
  | listing (todo : List (Bytes × Option ℕ)) (names : List Bytes)
  | shutdownAll
  | shutting (todo : List (Bytes × Option ℕ)) (engines : List ℕ)
  | modelCount
  | leaving

/-- The places at which a method begins. -/
def Pc.first : Pc → Bool
  | .registerModel _ _ | .unregisterModel _ | .getEngine _ | .hasModel _ | .listModels
  | .shutdownAll | .modelCount => true
  | .idle | .listing _ _ | .shutting _ _ | .leaving => false

/-- The lines between `lock` and `unlock`. -/
inductive Act : Pc → ModelManager → Option Op → Pc → ModelManager → Prop
  | registerModel {name : Bytes} {engine : Option ℕ} {m : ModelManager} :
      Act (.registerModel name engine) m (some (.registerModel name engine)) .leaving
        (m.insert name engine)
  | unregisterModel {name : Bytes} {m : ModelManager} :
      Act (.unregisterModel name) m (some (.unregisterModel name)) .leaving (m.erase name)
  | getEngine {name : Bytes} {m : ModelManager} :
      Act (.getEngine name) m (some (.getEngine name (m.getEngine name))) .leaving m
  | hasModel {name : Bytes} {m : ModelManager} :
      Act (.hasModel name) m (some (.hasModel name (m.contains name))) .leaving m
  | listBegin {m : ModelManager} : Act .listModels m none (.listing m.toList []) m
  | listNext {kv : Bytes × Option ℕ} {todo : List (Bytes × Option ℕ)} {names : List Bytes}
      {m : ModelManager} :
      Act (.listing (kv :: todo) names) m none (.listing todo (names ++ [kv.1])) m
  | listEnd {names : List Bytes} {m : ModelManager} :
      Act (.listing [] names) m (some (.listModels names)) .leaving m
  | shutBegin {m : ModelManager} : Act .shutdownAll m none (.shutting m.toList []) m
  | shutNext {name : Bytes} {engine : ℕ} {todo : List (Bytes × Option ℕ)} {engines : List ℕ}
      {m : ModelManager} :
      Act (.shutting ((name, some engine) :: todo) engines) m none
        (.shutting todo (engines ++ [engine])) m
  | shutNull {name : Bytes} {todo : List (Bytes × Option ℕ)} {engines : List ℕ}
      {m : ModelManager} :
      Act (.shutting ((name, none) :: todo) engines) m none (.shutting todo engines) m
  | shutEnd {engines : List ℕ} {m : ModelManager} :
      Act (.shutting [] engines) m (some (.shutdownAll engines)) .leaving m
  | modelCount {m : ModelManager} :
      Act .modelCount m (some (.modelCount m.size)) .leaving m

/-- The threads, all of which may call all methods. -/
def program : Program ModelManager Pc Op where
  call p p' := p = .idle ∧ p'.first = true
  enter p := p.first = true
  act := Act
  leave p p' := p = .leaving ∧ p' = .idle
  wait _ _ := False
  resume _ _ := False
  broadcast _ _ := False
  signal _ _ := False

/-- A loop has met the models before its iterator. -/
def Knows (p : Pc) (m : ModelManager) : Prop :=
  match p with
  | .listing todo names => names ++ todo.map Prod.fst = m.toList.map Prod.fst
  | .shutting todo engines => engines ++ todo.filterMap Prod.snd = m.toList.filterMap Prod.snd
  | _ => True

theorem knows_of_first {p : Pc} (h : p.first = true) (m : ModelManager) : Knows p m := by
  cases p with
  | listing | shutting => cases h
  | _ => trivial

theorem sound : Monitor.Sound (fun _ : ι => program) (fun _ => True) (fun _ => Knows) where
  enter h _ := knows_of_first h _
  act h hk := by
    cases h with
    | listBegin | shutBegin => exact List.nil_append _
    | listNext => simpa [Knows] using hk
    | shutNext => simpa [Knows] using hk
    | shutNull => simpa [Knows] using hk
    | registerModel | unregisterModel | getEngine | hasModel | listEnd | shutEnd | modelCount =>
        trivial
  leave _ _ := trivial
  wait h _ := h.elim
  resume h _ := h.elim
  broadcast h _ := h.elim
  signal h _ := h.elim

/-! ### Whole calls -/

/-- A call as a whole. -/
inductive Step (m : ModelManager) : Op → ModelManager → Prop
  | registerModel (name : Bytes) (engine : Option ℕ) :
      Step m (.registerModel name engine) (m.insert name engine)
  | unregisterModel (name : Bytes) : Step m (.unregisterModel name) (m.erase name)
  | getEngine (name : Bytes) : Step m (.getEngine name (m.getEngine name)) m
  | hasModel (name : Bytes) : Step m (.hasModel name (m.contains name)) m
  | listModels : Step m (.listModels (m.toList.map Prod.fst)) m
  | shutdownAll : Step m (.shutdownAll (m.toList.filterMap Prod.snd)) m
  | modelCount : Step m (.modelCount m.size) m

/-- An action is the whole call. -/
theorem Act.step {p p' : Pc} {m m' : ModelManager} {op : Op} (h : Act p m (some op) p' m')
    (hk : Knows p m) : Step m op m' := by
  cases h with
  | registerModel => exact .registerModel _ _
  | unregisterModel => exact .unregisterModel _
  | getEngine => exact .getEngine _
  | hasModel => exact .hasModel _
  | listEnd =>
      have hnames := (List.append_nil _).symm.trans hk
      rw [hnames]
      exact .listModels
  | shutEnd =>
      have hengines := (List.append_nil _).symm.trans hk
      rw [hengines]
      exact .shutdownAll
  | modelCount => exact .modelCount

/-! ### What the calls have left -/

/-- What a call does to the engine under a name. -/
def Op.apply (name : Bytes) (engine : Option (Option ℕ)) : Op → Option (Option ℕ)
  | .registerModel name' engine' => if name' = name then some engine' else engine
  | .unregisterModel name' => if name' = name then none else engine
  | .getEngine _ _ | .hasModel _ _ | .listModels _ | .shutdownAll _ | .modelCount _ => engine

/-- The engine under a name after some calls: that of the last registration, unless the name was
taken back since. -/
def registered (name : Bytes) (ops : List Op) : Option (Option ℕ) :=
  ops.foldl (Op.apply name) none

/-- The registered names, each once and in order. -/
def Names (before : List Op) (names : List Bytes) : Prop :=
  names.Pairwise (fun a b => compare a b = .lt) ∧
    ∀ name, name ∈ names ↔ (registered name before).isSome = true

/-- What a call is to answer, after the calls before it. -/
def Answers (before : List Op) : Op → Prop
  | .registerModel _ _ | .unregisterModel _ => True
  | .getEngine name engine => engine = (registered name before).join
  | .hasModel name found => found = (registered name before).isSome
  | .listModels names => Names before names
  | .shutdownAll engines => ∃ names, Names before names ∧
      engines = names.filterMap fun name => (registered name before).join
  | .modelCount count => ∃ names, Names before names ∧ count = names.length

@[simp] theorem registered_snoc (name : Bytes) (ops : List Op) (op : Op) :
    registered name (ops ++ [op]) = op.apply name (registered name ops) := by
  rw [registered, List.foldl_append]
  rfl

/-- The map holds what the calls have left. -/
def Holds (ops : List Op) (m : ModelManager) : Prop := ∀ name, m[name]? = registered name ops

/-- The keys of the map are the registered names. -/
theorem Holds.names {ops : List Op} {m : ModelManager} (h : Holds ops m) :
    Names ops (m.toList.map Prod.fst) := by
  rw [Std.TreeMap.map_fst_toList_eq_keys]
  refine ⟨Std.TreeMap.ordered_keys, fun name => ?_⟩
  rw [Std.TreeMap.mem_keys, Std.TreeMap.mem_iff_isSome_getElem?, h name]

/-- **One call** answers what it is to answer, and the map holds what it has left. -/
theorem Step.answers {ops : List Op} {m m' : ModelManager} {op : Op} (hs : Step m op m')
    (h : Holds ops m) : Answers ops op ∧ Holds (ops ++ [op]) m' := by
  cases hs with
  | registerModel name engine =>
      refine ⟨trivial, fun name' => ?_⟩
      simp only [registered_snoc, Op.apply, Std.TreeMap.getElem?_insert, h name',
        Std.LawfulEqOrd.compare_eq_iff_eq]
  | unregisterModel name =>
      refine ⟨trivial, fun name' => ?_⟩
      simp only [registered_snoc, Op.apply, Std.TreeMap.getElem?_erase, h name',
        Std.LawfulEqOrd.compare_eq_iff_eq]
  | getEngine name =>
      refine ⟨?_, fun name' => by rw [registered_snoc]; exact h name'⟩
      show m.getEngine name = _
      rw [ModelManager.getEngine, h name]
      cases registered name ops with
      | none => rfl
      | some engine => rfl
  | hasModel name =>
      refine ⟨?_, fun name' => by rw [registered_snoc]; exact h name'⟩
      show m.contains name = _
      rw [Std.TreeMap.contains_eq_isSome_getElem?, h name]
  | listModels => exact ⟨h.names, fun name' => by rw [registered_snoc]; exact h name'⟩
  | shutdownAll =>
      refine ⟨⟨_, h.names, ?_⟩, fun name' => by rw [registered_snoc]; exact h name'⟩
      rw [List.filterMap_map]
      refine List.filterMap_congr fun kv hkv => ?_
      have hkv := Std.TreeMap.mem_toList_iff_getElem?_eq_some.1 hkv
      rw [h kv.1] at hkv
      show kv.2 = (registered kv.1 ops).join
      rw [hkv]
      rfl
  | modelCount =>
      refine ⟨⟨_, h.names, ?_⟩, fun name' => by rw [registered_snoc]; exact h name'⟩
      rw [List.length_map, Std.TreeMap.length_toList]

/-- **A run of whole calls.** -/
theorem answers_run {ops : List Op} {m : ModelManager} (hr : Run Step {} ops m) :
    Holds ops m ∧ ∀ before op after, ops = before ++ op :: after → Answers before op := by
  refine hr.invariant (P := fun ops m =>
    Holds ops m ∧ ∀ before op after, ops = before ++ op :: after → Answers before op) ?_ ?_
  · refine ⟨fun name => Std.TreeMap.getElem?_emptyc, fun before op after h => ?_⟩
    cases before <;> cases h
  · rintro ops m op m' - ⟨hholds, hanswers⟩ hs
    obtain ⟨hanswer, hholds'⟩ := hs.answers hholds
    refine ⟨hholds', fun before op' after h => ?_⟩
    rcases List.eq_nil_or_concat after with rfl | ⟨after, last, rfl⟩
    · obtain ⟨rfl, hop⟩ := List.append_inj' h rfl
      cases hop
      exact hanswer
    · rw [List.concat_eq_append, ← List.cons_append, ← List.append_assoc] at h
      exact hanswers before op' after (List.append_inj' h rfl).1

/-- **The model manager.**  However the lines of the threads are interleaved, one of them at most is
between `lock` and `unlock`, and each call answers what the calls before it have left: the engine
that was registered last under the name, the registered names in order, and for `shutdown_all` all
the engines that are registered, as often as they are. -/
theorem calls_answered [DecidableEq ι] {evs : List (Option (ι × Op))} {s : State ι ModelManager Pc}
    (hr : Run (Monitor.Step fun _ => program) (State.start {} fun _ => .idle) evs s) :
    (∀ i j p q, s.threads i = .inside p → s.threads j = .inside q → i = j) ∧
    (∀ name, s.data[name]? = registered name (Monitor.shown evs)) ∧
    ∀ before op after, Monitor.shown evs = before ++ op :: after → Answers before op := by
  have hkeeps := sound.run trivial hr
  have hrun : Run Step {} (Monitor.shown evs) s.data := by
    refine sound.refines ?_ (fun hact hk => hact.step hk) trivial hr
    rintro i p m p' m' h
    cases h <;> rfl
  exact ⟨fun i j p q => Monitor.exclusive hkeeps.owned, answers_run hrun⟩

/-- One thread registers an engine, and another one shuts all engines down. -/
theorem calls_answered_shutdown :
    ∃ (evs : List (Option (Bool × Op))) (s : State Bool ModelManager Pc),
      Run (Monitor.Step fun _ => program) (State.start {} fun _ => .idle) evs s ∧
      Monitor.shown evs = [.registerModel (ascii "b") (some 3), .shutdownAll [3]] ∧
      s.data[ascii "b"]? = some (some 3) ∧
      Answers [.registerModel (ascii "b") (some 3)] (.shutdownAll [3]) := by
  have hr : Run (Monitor.Step fun _ : Bool => program) (State.start {} fun _ => .idle) _ _ := .nil
  have hregister : program.call .idle (.registerModel (ascii "b") (some 3)) ∧
      program.enter (.registerModel (ascii "b") (some 3)) := ⟨⟨rfl, rfl⟩, rfl⟩
  have hshut : program.call .idle .shutdownAll ∧ program.enter .shutdownAll := ⟨⟨rfl, rfl⟩, rfl⟩
  have hleave : program.leave .leaving .idle := ⟨rfl, rfl⟩
  have hact : ∀ {p p' : Pc} {m m' : ModelManager} {op : Option Op}, Act p m op p' m' →
      program.act p m op p' m' := id
  have hr := hr.snoc (.call (i := true) (p := .idle) rfl hregister.1)
  have hr := hr.snoc (.lock (i := true) (p := .registerModel (ascii "b") (some 3)) rfl
    hregister.2 rfl)
  have hr := hr.snoc (.act (i := true) rfl (hact .registerModel))
  have hr := hr.snoc (.unlock (i := true) (p := .leaving) rfl hleave)
  have hr := hr.snoc (.call (i := false) (p := .idle) rfl hshut.1)
  have hr := hr.snoc (.lock (i := false) (p := .shutdownAll) rfl hshut.2 rfl)
  have hr := hr.snoc (.act (i := false) rfl (hact .shutBegin))
  have hr := hr.snoc (.act (i := false) (p := .shutting [(ascii "b", some 3)] []) rfl
    (hact .shutNext))
  have hr := hr.snoc (.act (i := false) rfl (hact .shutEnd))
  obtain ⟨-, hholds, hanswers⟩ := calls_answered hr
  exact ⟨_, _, hr, rfl, hholds _, hanswers [_] _ [] rfl⟩

end ModelManager

end Gateway
