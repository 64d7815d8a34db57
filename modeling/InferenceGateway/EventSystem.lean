/-
**Event systems: runs, guarded runs and counting laws.**

A transition relation whose steps are observed as *events* is enough to say what a concurrent
program does over every interleaving: a state of the relation is the joint state of all parties,
one step is one atomic action of one of them, and the event names the action.  Nothing here fixes
what the states or the events are.

Main definitions:

* `EventSystem.Run` — the runs of a relation, with the events they show in order;
* `EventSystem.Guarded` — the relation cut down to the steps that satisfy a condition on the state
  *before* the step;
* `EventSystem.Along` — the runs that keep to a property throughout;
* `EventSystem.replay` — what a script of actions does.

Main results:

* `EventSystem.Run.invariant` — the induction rule: what holds initially and is kept by every step
  holds after every run, where the step may use that its first state was reached;
* `EventSystem.Run.iff_along` — when a condition on the steps is exact for a property of the runs;
* `EventSystem.Run.exists_of_decreasing` — the rule of progress: what can always go down arrives;
* `EventSystem.Run.of_replay` — scripts give runs;
* `EventSystem.Run.split_of_mem` — every event of a run was shown by a step out of a reached state;
* `EventSystem.Run.balance` — **the conservation law**: when each step moves as much out of a
  measure as its event accounts for, the measure and the accounts agree after every run;
* `EventSystem.Run.exhaust` — the same law with an inequality, for resources that may be dropped.
-/

import Mathlib.Data.List.Basic
import Mathlib.Data.List.Count
import Mathlib.Algebra.BigOperators.Group.List.Basic
import Mathlib.Tactic.Linarith

set_option relaxedAutoImplicit false
set_option autoImplicit false

namespace EventSystem

variable {σ ε : Type*}

/-! ### Runs -/

/-- `Run R s₀ evs s`: the relation leads from `s₀` to `s` and shows the events `evs`, in order. -/
inductive Run (R : σ → ε → σ → Prop) (s₀ : σ) : List ε → σ → Prop
  | nil : Run R s₀ [] s₀
  | snoc {evs : List ε} {s s' : σ} {e : ε} :
      Run R s₀ evs s → R s e s' → Run R s₀ (evs ++ [e]) s'

/-- The steps of `R` that satisfy `ok` in the state they start from. -/
def Guarded (R : σ → ε → σ → Prop) (ok : σ → ε → Prop) (s : σ) (e : ε) (s' : σ) : Prop :=
  R s e s' ∧ ok s e

/-- A run that keeps to `P`, a property of a state and of the events before it, throughout. -/
inductive Along (R : σ → ε → σ → Prop) (P : List ε → σ → Prop) (s₀ : σ) : List ε → σ → Prop
  | nil : P [] s₀ → Along R P s₀ [] s₀
  | snoc {evs : List ε} {s s' : σ} {e : ε} :
      Along R P s₀ evs s → R s e s' → P (evs ++ [e]) s' → Along R P s₀ (evs ++ [e]) s'

namespace Run

variable {R R' : σ → ε → σ → Prop} {s₀ s s' : σ} {evs : List ε}

theorem mono (h : ∀ s e s', R s e s' → R' s e s') (hr : Run R s₀ evs s) : Run R' s₀ evs s := by
  induction hr with
  | nil => exact .nil
  | snoc _ hs ih => exact ih.snoc (h _ _ _ hs)

/-- A guarded run is a run. -/
theorem of_guarded {ok : σ → ε → Prop} (hr : Run (Guarded R ok) s₀ evs s) : Run R s₀ evs s :=
  hr.mono fun _ _ _ h => h.1

theorem single {e : ε} (h : R s₀ e s) : Run R s₀ [e] s := by
  simpa using Run.snoc Run.nil h

theorem trans {evs' : List ε} (h : Run R s₀ evs s) (h' : Run R s evs' s') :
    Run R s₀ (evs ++ evs') s' := by
  induction h' with
  | nil => simpa using h
  | snoc _ hs ih => rw [← List.append_assoc]; exact ih.snoc hs

/-- The last step of a run. -/
theorem of_snoc {e : ε} (hr : Run R s₀ (evs ++ [e]) s') : ∃ s, Run R s₀ evs s ∧ R s e s' := by
  generalize h : evs ++ [e] = evs' at hr
  cases hr with
  | nil => simp at h
  | snoc hr hs =>
      obtain ⟨rfl, he⟩ := List.append_inj' h rfl
      obtain ⟨rfl, -⟩ := List.cons.inj he
      exact ⟨_, hr, hs⟩

/-- Where an event decides what a step does, the events of a run decide where it ends. -/
theorem unique (hdet : ∀ s e s₁ s₂, R s e s₁ → R s e s₂ → s₁ = s₂) {s₁ s₂ : σ}
    (h₁ : Run R s₀ evs s₁) (h₂ : Run R s₀ evs s₂) : s₁ = s₂ := by
  induction h₁ generalizing s₂ with
  | nil =>
      generalize h : ([] : List ε) = evs at h₂
      cases h₂ with
      | nil => rfl
      | snoc => simp at h
  | snoc _ hs ih =>
      obtain ⟨t, ht, hs'⟩ := h₂.of_snoc
      obtain rfl := ih ht
      exact hdet _ _ _ _ hs hs'

/-- **The induction rule.**  The step may use that the state it starts from was reached. -/
theorem invariant {P : List ε → σ → Prop} (h0 : P [] s₀)
    (hstep : ∀ evs s e s', Run R s₀ evs s → P evs s → R s e s' → P (evs ++ [e]) s')
    (hr : Run R s₀ evs s) : P evs s := by
  induction hr with
  | nil => exact h0
  | snoc hr hs ih => exact hstep _ _ _ _ hr ih hs

/-- The induction rule for a property of the states alone. -/
theorem invariant_state {P : σ → Prop} (h0 : P s₀) (hstep : ∀ s e s', P s → R s e s' → P s')
    (hr : Run R s₀ evs s) : P s :=
  hr.invariant (P := fun _ s => P s) h0 fun _ _ _ _ _ hp hs => hstep _ _ _ hp hs

/-- **A condition on the steps that is exact for a property of the run.**  If the runs of the steps
`R'` of `R` keep to `P`, and a step of `R` out of such a run that keeps to `P` is one of `R'`, then
a run is one of `R'` exactly when it keeps to `P` throughout. -/
theorem iff_along {P : List ε → σ → Prop} (hR : ∀ s e s', R' s e s' → R s e s')
    (hP : ∀ evs s, Run R' s₀ evs s → P evs s)
    (hok : ∀ evs s e s', Run R' s₀ evs s → R s e s' → P (evs ++ [e]) s' → R' s e s') :
    Run R' s₀ evs s ↔ Along R P s₀ evs s := by
  constructor
  · intro hr
    induction hr with
    | nil => exact .nil (hP _ _ .nil)
    | snoc hr hs ih => exact ih.snoc (hR _ _ _ hs) (hP _ _ (hr.snoc hs))
  · intro hr
    induction hr with
    | nil => exact .nil
    | snoc _ hs hp ih => exact ih.snoc (hok _ _ _ _ ih hs hp)

/-- Every event of a run was shown by a step out of a reached state, and the run went on from
there. -/
theorem split_of_mem {e : ε} (hr : Run R s₀ evs s) (he : e ∈ evs) :
    ∃ pre post s₁ s₂, evs = pre ++ e :: post ∧ Run R s₀ pre s₁ ∧ R s₁ e s₂ ∧ Run R s₂ post s := by
  induction hr with
  | nil => simp at he
  | @snoc evs s s' e' hr hs ih =>
      rcases List.mem_append.1 he with h | h
      · obtain ⟨pre, post, s₁, s₂, rfl, h₁, h₂, h₃⟩ := ih h
        exact ⟨pre, post ++ [e'], s₁, s₂, by simp, h₁, h₂, h₃.snoc hs⟩
      · obtain rfl := List.mem_singleton.1 h
        exact ⟨evs, [], s, s', rfl, hr, hs, .nil⟩

/-- **The rule of progress**: where, as long as the goal is not reached, some step lowers `load`, or
keeps it and lowers `turn`, some run reaches the goal. -/
theorem exists_of_decreasing {Inv : σ → Prop} (Goal : σ → Prop) (load turn : σ → ℕ)
    (hstep : ∀ s, Inv s → ¬ Goal s → ∃ e s', R s e s' ∧ Inv s' ∧
      (load s' < load s ∨ load s' = load s ∧ turn s' < turn s)) :
    ∀ s, Inv s → ∃ evs s', Run R s evs s' ∧ Inv s' ∧ Goal s' := by
  intro s
  induction h : load s using Nat.strong_induction_on generalizing s with
  | _ m ihload =>
      induction h' : turn s using Nat.strong_induction_on generalizing s with
      | _ n ihturn =>
          intro hinv
          by_cases hgoal : Goal s
          · exact ⟨[], s, .nil, hinv, hgoal⟩
          · obtain ⟨e, s', hs, hinv', hlt⟩ := hstep s hinv hgoal
            have hnext : ∃ evs t, Run R s' evs t ∧ Inv t ∧ Goal t := by
              rcases hlt with hlt | ⟨heq, hlt⟩
              · exact ihload (load s') (h ▸ hlt) s' rfl hinv'
              · exact ihturn (turn s') (h' ▸ hlt) s' (heq.trans h) rfl hinv'
            obtain ⟨evs, t, hr, ht⟩ := hnext
            exact ⟨[e] ++ evs, t, (single hs).trans hr, ht⟩

end Run

/-! ### Scripts -/

/-- What a script does to a state when `act` says what each of its actions does, with the events. -/
def replay {α : Type*} (act : σ → α → Option (ε × σ)) : σ → List α → Option (List ε × σ)
  | s, [] => some ([], s)
  | s, a :: as =>
      match act s a with
      | some (e, s') => (replay act s' as).map fun r => (e :: r.1, r.2)
      | none => none

/-- **Scripts give runs** when every action is a step, as long as an invariant holds. -/
theorem Run.of_replay {α : Type*} {R : σ → ε → σ → Prop} (Inv : σ → Prop)
    {act : σ → α → Option (ε × σ)}
    (hact : ∀ s a e s', Inv s → act s a = some (e, s') → R s e s' ∧ Inv s') {s s' : σ}
    {as : List α} {evs : List ε} (h0 : Inv s) (h : replay act s as = some (evs, s')) :
    Run R s evs s' ∧ Inv s' := by
  induction as generalizing s evs with
  | nil =>
      cases h
      exact ⟨.nil, h0⟩
  | cons a as ih =>
      unfold replay at h
      split at h
      · next e s₁ ha =>
          obtain ⟨⟨evs', s₂⟩, hr, heq⟩ := Option.map_eq_some_iff.1 h
          cases heq
          obtain ⟨hs, h1⟩ := hact s a e s₁ h0 ha
          obtain ⟨hr, h2⟩ := ih h1 hr
          exact ⟨(Run.single hs).trans hr, h2⟩
      · cases h

/-! ### Counting laws -/

/-- What the events of a run account for, in all. -/
def total (f : ε → ℕ) (evs : List ε) : ℕ := (evs.map f).sum

@[simp] theorem total_nil (f : ε → ℕ) : total f [] = 0 := rfl

@[simp] theorem total_zero (evs : List ε) : total (fun _ => 0) evs = 0 := by simp [total]

@[simp] theorem total_snoc (f : ε → ℕ) (evs : List ε) (e : ε) :
    total f (evs ++ [e]) = total f evs + f e := by simp [total]

theorem total_add (f g : ε → ℕ) (evs : List ε) :
    total (fun e => f e + g e) evs = total f evs + total g evs := by
  induction evs with
  | nil => rfl
  | cons e evs ih =>
      simp only [total, List.map_cons, List.sum_cons] at ih ⊢
      omega

theorem total_pos {f : ε → ℕ} {evs : List ε} {e : ε} (he : e ∈ evs) (h : 0 < f e) :
    0 < total f evs :=
  List.sum_pos_iff_exists_pos_nat.2 ⟨f e, List.mem_map_of_mem he, h⟩

theorem total_mono {f g : ε → ℕ} (h : ∀ e, f e ≤ g e) (evs : List ε) :
    total f evs ≤ total g evs := by
  induction evs with
  | nil => exact Nat.le_refl _
  | cons e evs ih => exact Nat.add_le_add (h e) ih

/-- An account of one single event is the number of its occurrences. -/
theorem total_eq_count [DecidableEq ε] {f : ε → ℕ} {a : ε}
    (hf : ∀ e, f e = if e = a then 1 else 0) (evs : List ε) : total f evs = evs.count a := by
  induction evs with
  | nil => rfl
  | cons e evs ih =>
      rw [total, List.map_cons, List.sum_cons, List.count_cons, ← ih, hf]
      by_cases h : e = a <;> simp [h, total, Nat.add_comm]

namespace Run

variable {R : σ → ε → σ → Prop} {s₀ s : σ} {evs : List ε}

/-- **The conservation law.**  `m` measures what the state holds, `gain` and `loss` what an event
adds to it and takes from it.  If every step out of a reached state is in balance, so is every
run. -/
theorem balance (m : σ → ℕ) (gain loss : ε → ℕ)
    (hstep : ∀ evs s e s', Run R s₀ evs s → R s e s' → m s' + loss e = m s + gain e)
    (hr : Run R s₀ evs s) :
    m s + total loss evs = m s₀ + total gain evs := by
  refine hr.invariant (P := fun evs s => m s + total loss evs = m s₀ + total gain evs) (by simp) ?_
  intro evs s e s' hr ih hs
  have := hstep evs s e s' hr hs
  simp only [total_snoc]
  omega

/-- The conservation law for a resource that a step may also drop. -/
theorem exhaust (m : σ → ℕ) (gain loss : ε → ℕ)
    (hstep : ∀ evs s e s', Run R s₀ evs s → R s e s' → m s' + loss e ≤ m s + gain e)
    (hr : Run R s₀ evs s) :
    m s + total loss evs ≤ m s₀ + total gain evs := by
  refine hr.invariant (P := fun evs s => m s + total loss evs ≤ m s₀ + total gain evs) (by simp) ?_
  intro evs s e s' hr ih hs
  have := hstep evs s e s' hr hs
  simp only [total_snoc]
  omega

end Run

/-! ### Counting over a list of components -/

section Components

variable {α β : Type*} [DecidableEq β]

/-- Replacing one component changes the count of the whole by the change of that component. -/
theorem count_flatMap_set (f : α → List β) (b : β) {l : List α} {i : ℕ} {x : α} (y : α)
    (h : l[i]? = some x) :
    ((l.set i y).flatMap f).count b + (f x).count b = (l.flatMap f).count b + (f y).count b := by
  induction l generalizing i with
  | nil => simp at h
  | cons a l ih =>
      cases i with
      | zero =>
          obtain rfl : a = x := by simpa using h
          simp only [List.set_cons_zero, List.flatMap_cons, List.count_append]
          omega
      | succ i =>
          have := ih (i := i) (by simpa using h)
          simp only [List.set_cons_succ, List.flatMap_cons, List.count_append]
          omega

omit [DecidableEq β] in
/-- The same for the number of components with a property. -/
theorem countP_set (p : α → Bool) {l : List α} {i : ℕ} {x : α} (y : α) (h : l[i]? = some x) :
    (l.set i y).countP p + (p x).toNat = l.countP p + (p y).toNat := by
  induction l generalizing i with
  | nil => simp at h
  | cons a l ih =>
      cases i with
      | zero =>
          obtain rfl : a = x := by simpa using h
          cases hx : p a <;> cases hy : p y <;> simp [hx, hy]
      | succ i =>
          have := ih (i := i) (by simpa using h)
          simp only [List.set_cons_succ, List.countP_cons]
          omega

/-- What occurs once in all occurs in one component only. -/
theorem eq_of_count_flatMap_le_one (f : α → List β) {b : β} {l : List α} {i j : ℕ} {x y : α}
    (h : (l.flatMap f).count b ≤ 1) (hi : l[i]? = some x) (hj : l[j]? = some y) (hx : b ∈ f x)
    (hy : b ∈ f y) : i = j := by
  induction l generalizing i j with
  | nil => simp at hi
  | cons a l ih =>
      have hpos : ∀ {k : ℕ} {z : α}, l[k]? = some z → b ∈ f z → 0 < (l.flatMap f).count b :=
        fun hk hz => List.count_pos_iff.2 (List.mem_flatMap.2 ⟨_, List.mem_of_getElem? hk, hz⟩)
      rw [List.flatMap_cons, List.count_append] at h
      cases i with
      | zero =>
          obtain rfl : a = x := by simpa using hi
          have := List.count_pos_iff.2 hx
          cases j with
          | zero => rfl
          | succ j =>
              have := hpos (by simpa using hj) hy
              omega
      | succ i =>
          cases j with
          | zero =>
              obtain rfl : a = y := by simpa using hj
              have := List.count_pos_iff.2 hy
              have := hpos (by simpa using hi) hx
              omega
          | succ j => exact congrArg (· + 1) (ih (by omega) (by simpa using hi) (by simpa using hj))

theorem count_flatMap_le {f g : α → List β} {b : β} (h : ∀ x, (f x).count b ≤ (g x).count b)
    (l : List α) : (l.flatMap f).count b ≤ (l.flatMap g).count b := by
  induction l with
  | nil => exact Nat.le_refl _
  | cons a l ih =>
      simp only [List.flatMap_cons, List.count_append]
      exact Nat.add_le_add (h a) ih

omit [DecidableEq β] in
/-- The same for a sum of weights. -/
theorem sum_map_set (f : α → ℕ) {l : List α} {i : ℕ} {x : α} (y : α) (h : l[i]? = some x) :
    ((l.set i y).map f).sum + f x = (l.map f).sum + f y := by
  induction l generalizing i with
  | nil => simp at h
  | cons a l ih =>
      cases i with
      | zero =>
          obtain rfl : a = x := by simpa using h
          simp only [List.set_cons_zero, List.map_cons, List.sum_cons]
          omega
      | succ i =>
          have := ih (i := i) (by simpa using h)
          simp only [List.set_cons_succ, List.map_cons, List.sum_cons]
          omega

end Components

end EventSystem
