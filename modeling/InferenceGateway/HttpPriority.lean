/-
The priority of a request and the queue of its task.

The number of the `priority` member is read by `json_get_int`: a first digit is asked for, `strtol`
takes the digits before the point, and the `long` is cut to an `int`.  `enqueue` then chooses one
of three queues.  This module compares the queue with the number that the member spells.

Main definitions:

* `Gateway.Sched.Placed` — a task was appended to a queue;
* `Gateway.PlacedByNumber` — what is promised: a queue for 0, one for 2, and one for all others;
* `Gateway.KeepsPriority` — the literals whose digits survive the way.

Main results:

* `Gateway.Sched.placed_iff` — **the queue of an accepted task**;
* `Gateway.intOf_eq_iff` — when the `int` is a given small number;
* `Gateway.priority_queue_iff` — **when the promise is kept**.
-/

import InferenceGateway.HttpFields
import InferenceGateway.SchedulerMoves

set_option relaxedAutoImplicit false
set_option autoImplicit false

namespace Gateway

open CString (digits LONG_MAX)
open Json (Literal Stops)

variable {F : Type}

/-! ### The queue of a task -/

namespace Sched

/-- `push_back` of a task on a queue. -/
def Placed (s s₁ : State F) (t : TaskRef) (q : QueueClass) : Prop := s₁.queue q = s.queue q ++ [t]

/-- **An accepted task is in the queue of its priority**, and in no other. -/
theorem placed_iff {cfg : Config} {s s₁ : State F} {t : TaskRef} {now : ℤ}
    (h : enqueue cfg s t now = (true, s₁)) (q : QueueClass) :
    Placed s s₁ t q ↔ q = .ofPriority (s.tasks t).priority := by
  obtain ⟨-, rfl⟩ := enqueue_eq_true h
  have hother : ∀ l : List TaskRef, l ≠ l ++ [t] := fun l heq => by
    simpa using congrArg List.length heq
  unfold Placed
  cases QueueClass.ofPriority (s.tasks t).priority
  all_goals
    cases q
    all_goals simp [State.setQueue, State.queue, hother]

/-- The queue that a number asks for. -/
def QueueClass.ofNumber (v : ℚ) : QueueClass :=
  if v = 0 then .high else if v = 2 then .low else .mid

end Sched

open Sched

/-- What is promised: the task is in `queue_high_` exactly when the number is 0, in `queue_low_`
exactly when it is 2, and in `queue_mid_` otherwise. -/
def PlacedByNumber (s s₁ : State F) (t : TaskRef) (v : ℚ) : Prop :=
  (Placed s s₁ t .high ↔ v = 0) ∧ (Placed s s₁ t .low ↔ v = 2) ∧
    (Placed s s₁ t .mid ↔ v ≠ 0 ∧ v ≠ 2)

/-- The promise is that the two queues are the same. -/
theorem placedByNumber_iff {cfg : Config} {s s₁ : State F} {t : TaskRef} {now : ℤ}
    (h : enqueue cfg s t now = (true, s₁)) (v : ℚ) :
    PlacedByNumber s s₁ t v ↔
      QueueClass.ofPriority (s.tasks t).priority = QueueClass.ofNumber v := by
  unfold PlacedByNumber QueueClass.ofNumber
  rw [placed_iff h, placed_iff h, placed_iff h]
  cases QueueClass.ofPriority (s.tasks t).priority
  all_goals
    split_ifs
    all_goals simp_all

/-! ### The `int` of a literal -/

/-- A number that is cut to 32 bits is a given small number if its low bits are. -/
theorem bmod_eq_iff {n m : ℕ} (hm : m < 2 ^ 31) :
    Int.bmod n (2 ^ 32) = m ↔ n % 2 ^ 32 = m := by
  rw [Int.bmod_def]
  split_ifs
  all_goals omega

/-- **When the `int` is a given small number**: its digits fit into a `long`, and it is what the
low 32 bits say. -/
theorem intOf_eq_iff {l : Literal} (hl : l.negative = false) {m : ℕ} (hm : m < 2 ^ 31) (d : ℤ) :
    intOf d (.number l) = m ↔ digits l.whole < 2 ^ 63 ∧ digits l.whole % 2 ^ 32 = m := by
  rw [intOf, hl, if_neg (by decide)]
  rcases lt_or_ge (digits l.whole) (2 ^ 63) with hfit | hlarge
  · have hmin : min LONG_MAX (digits l.whole) = (digits l.whole : ℤ) :=
      min_eq_right (by unfold LONG_MAX; omega)
    rw [hmin, bmod_eq_iff hm, and_iff_right hfit]
  -- the largest `long` becomes -1
  · have hmin : min LONG_MAX (digits l.whole : ℤ) = LONG_MAX :=
      min_eq_left (by unfold LONG_MAX; omega)
    have hcut : Int.bmod LONG_MAX (2 ^ 32) = -1 := by decide
    rw [hmin, hcut]
    exact iff_of_false (by omega) fun h => absurd h.1 (by omega)

/-! ### The literals that keep their queue -/

/-- The literals that get the queue of their number.  With a sign: not a zero.  Otherwise the
digits before the point decide: when they come out as 0 or 2, they are that digit and nothing
follows them that changes the number; and when they come out as something else, no exponent makes
a 2 of them. -/
def KeepsPriority (l : Literal) : Prop :=
  if l.negative then digits l.whole ≠ 0 ∨ digits l.fractionDigits ≠ 0
  else if digits l.whole < 2 ^ 63 ∧ digits l.whole % 2 ^ 32 = 0 then
    digits l.whole = 0 ∧ digits l.fractionDigits = 0
  else if digits l.whole < 2 ^ 63 ∧ digits l.whole % 2 ^ 32 = 2 then
    digits l.whole = 2 ∧ digits l.fractionDigits = 0 ∧ l.power = 0
  else ¬ (digits l.fractionDigits = 0 ∧ ∃ k : ℕ, digits l.whole = 2 * 10 ^ k ∧ l.power = -k)

theorem value_eq_zero_iff (l : Literal) :
    l.value = 0 ↔ digits l.whole = 0 ∧ digits l.fractionDigits = 0 := by
  rw [← l.magnitude_eq_zero_iff, Literal.value]
  split
  · exact neg_eq_zero
  · exact Iff.rfl

theorem value_eq_two_iff {l : Literal} (hl : l.negative = false) (hwhole : digits l.whole ≠ 0) :
    l.value = 2 ↔
      digits l.fractionDigits = 0 ∧ ∃ k : ℕ, digits l.whole = 2 * 10 ^ k ∧ l.power = -k := by
  rw [Literal.value, hl, if_neg (by decide)]
  exact_mod_cast l.magnitude_eq_iff (by decide : 2 < 10) hwhole

/-- A number with a sign is not 2. -/
theorem value_ne_two {l : Literal} (hl : l.negative = true) : l.value ≠ 2 := by
  have hnonneg := l.magnitude_nonneg
  rw [Literal.value, hl, if_pos rfl]
  intro h
  linarith

/-- Of the multiples of 2 by powers of ten, only 2 ends in the two bits of 2. -/
theorem two_of_mod {n k : ℕ} (hn : n = 2 * 10 ^ k) (hmod : n % 2 ^ 32 = 2) : k = 0 := by
  cases k with
  | zero => rfl
  | succ k =>
      rw [pow_succ] at hn
      omega

/-- **The queue of the `int` is the queue of the number** for these literals, and for no others. -/
theorem ofPriority_intOf (l : Literal) :
    QueueClass.ofPriority (intOf 1 (.number l)) = QueueClass.ofNumber l.value ↔
      KeepsPriority l := by
  have hzero := value_eq_zero_iff l
  unfold KeepsPriority QueueClass.ofPriority QueueClass.ofNumber
  cases hsign : l.negative with
  | true =>
      have hone : intOf 1 (.number l) = 1 := by
        rw [intOf, hsign]
        rfl
      rw [hone, if_pos rfl, if_neg (value_ne_two hsign), ← not_and_or, ← hzero]
      by_cases hv : l.value = 0
      · simp [hv]
      · simp [hv]
  | false =>
      have h0 : intOf 1 (.number l) = 0 ↔ _ := intOf_eq_iff hsign (m := 0) (by decide) 1
      have h2 : intOf 1 (.number l) = 2 ↔ _ := intOf_eq_iff hsign (m := 2) (by decide) 1
      rw [if_neg (by decide : ¬ false = true)]
      by_cases hc0 : digits l.whole < 2 ^ 63 ∧ digits l.whole % 2 ^ 32 = 0
      -- the digits come out as 0
      · rw [if_pos (h0.2 hc0), if_pos hc0, ← hzero]
        by_cases hv : l.value = 0
        · simp [hv]
        · rw [if_neg hv]
          exact iff_of_false (by split_ifs <;> decide) hv
      · have hwhole : digits l.whole ≠ 0 := fun h => hc0 (by rw [h]; decide)
        have hv : l.value ≠ 0 := fun h => hwhole (hzero.1 h).1
        have htwo := value_eq_two_iff hsign hwhole
        rw [if_neg (mt h0.1 hc0), if_neg hc0, if_neg hv]
        by_cases hc2 : digits l.whole < 2 ^ 63 ∧ digits l.whole % 2 ^ 32 = 2
        -- the digits come out as 2
        · rw [if_pos (h2.2 hc2), if_pos hc2]
          have hkept : l.value = 2 ↔
              digits l.whole = 2 ∧ digits l.fractionDigits = 0 ∧ l.power = 0 := by
            rw [htwo]
            constructor
            · rintro ⟨hf, k, hk, hp⟩
              obtain rfl := two_of_mod hk hc2.2
              exact ⟨by simpa using hk, hf, by simpa using hp⟩
            · rintro ⟨hw, hf, hp⟩
              exact ⟨hf, 0, by rw [hw]; rfl, by rw [hp]; rfl⟩
          rw [← hkept]
          by_cases h : l.value = 2
          · simp [h]
          · simp [h]
        -- the digits come out as something else
        · rw [if_neg (mt h2.1 hc2), if_neg hc2, ← htwo]
          by_cases h : l.value = 2
          · simp [h]
          · simp [h]

/-! ### Main result -/

/-- A literal above the range of `int`. -/
def literalWrap : Literal where
  negative := false
  whole := ascii "4294967298"
  fraction := none
  exponent := none
  whole_ok := by decide
  whole_zero := by decide
  fraction_ok := Json.digits_of_none

/-- A connection with that priority in its request. -/
def wrapConn : HttpConn := { readBuf := ascii "\x7b\"priority\":4294967298\x7d" }

theorem afterKey_wrapConn :
    afterKey wrapConn.body (ascii "priority") = some (literalWrap.text ++ [125]) := rfl

def wrapService : Service Bytes := { ofText := id, printF := id, sockfd := 5 }

/-- A scheduler without tasks, before the request enqueues its own. -/
def wrapState : State Bytes :=
  State.init.modify 0 fun _ => wrapConn.requestTask wrapService 0

/-- The scheduler takes the task. -/
theorem enqueue_wrapState :
    enqueue {} wrapState 0 0 = (true, (enqueue {} wrapState 0 0).2) := rfl

theorem digits_literalWrap : digits literalWrap.whole = 4294967298 := rfl

theorem value_literalWrap : literalWrap.value = 4294967298 := by
  rw [Literal.value_of_isWhole _ ⟨rfl, rfl, rfl⟩, digits_literalWrap]
  norm_num

theorem stops_brace : Stops [125] := by
  rintro b ⟨⟩
  decide

/-- **A number beyond the range of `int` that comes out as a low priority.** -/
theorem priority_wraps : ¬ ∀ (svc : Service Bytes) (now : ℤ) (c : HttpConn) (l : Literal)
    (r : Bytes), afterKey c.body (ascii "priority") = some (l.text ++ r) → Stops r →
      ∀ (cfg : Config) (s s₁ : State Bytes) (t : TaskRef) (now' : ℤ),
        s.tasks t = c.requestTask svc now → enqueue cfg s t now' = (true, s₁) →
          PlacedByNumber s s₁ t l.value := by
  intro hall
  obtain ⟨-, hlow, -⟩ := hall wrapService 0 wrapConn literalWrap [125] afterKey_wrapConn
    stops_brace {} wrapState _ 0 0 rfl enqueue_wrapState
  have hplaced : Placed wrapState (enqueue {} wrapState 0 0).2 0 .low := rfl
  have htwo := hlow.1 hplaced
  rw [value_literalWrap] at htwo
  norm_num at htwo

/-- **The task is in the queue of its number if and only if** the literal keeps it. -/
theorem priority_queue_iff (svc : Service F) (now : ℤ) {c : HttpConn} {l : Literal} {r : Bytes}
    (h : afterKey c.body (ascii "priority") = some (l.text ++ r)) (hr : Stops r)
    (cfg : Config) {s s₁ : State F} {t : TaskRef} (now' : ℤ)
    (htask : s.tasks t = c.requestTask svc now) (hacc : enqueue cfg s t now' = (true, s₁)) :
    PlacedByNumber s s₁ t l.value ↔ KeepsPriority l := by
  have hpriority : (s.tasks t).priority = intOf 1 (.number l) := by
    rw [htask]
    exact jsonGetInt_literal hr h 1
  rw [placedByNumber_iff hacc, hpriority]
  exact ofPriority_intOf l

/-- That literal does not. -/
theorem priority_queue_iff_wrap :
    ¬ PlacedByNumber wrapState (enqueue {} wrapState 0 0).2 0 literalWrap.value := by
  have hiff := priority_queue_iff (s := wrapState) (t := 0) wrapService 0 afterKey_wrapConn
    stops_brace {} 0 rfl enqueue_wrapState
  intro hplaced
  have hkeeps := hiff.1 hplaced
  rw [KeepsPriority, digits_literalWrap, if_neg (show ¬ literalWrap.negative = true by decide),
    if_neg (by decide), if_pos (by decide)] at hkeeps
  exact absurd hkeeps.1 (by decide)

end Gateway
