/-
The threads of the log queue.

Every operation of `block_queue` locks the mutex, and `pop` waits on the condition variable that
`push` broadcasts on.  This module has the operations line by line, for any number of threads, where
a wait may end for no reason and the timed `pop` may time out.

* `Gateway.BlockQueue.Pc`, `Gateway.BlockQueue.program` — the operations line by line;
* `Gateway.BlockQueue.sound`, `Gateway.BlockQueue.wakes` — what the threads rely on;
* `Gateway.BlockQueue.threads` — **what the threads do is a sequence of whole operations, and no
  consumer sleeps while there is something in the queue**.
-/

import InferenceGateway.BlockQueue
import InferenceGateway.Monitor

set_option relaxedAutoImplicit false
set_option autoImplicit false

namespace Gateway

open EventSystem (Run)
open Monitor (Program Phase State)

namespace BlockQueue

variable {α ι : Type*}

/-! ### The operations line by line -/

/-- Where a thread is: outside of all operations; before the test of an operation that has one,
which is also where it calls and where `pop` sleeps; behind the test of `push`, before its
`broadcast` with either result; behind the wait of the timed `pop`, where it returned in time or
not; before the last `unlock`. -/
inductive Pc (α : Type*)
  | idle
  | push (item : α)
  | store (item : α)
  | stored
  | refused
  | pop
  | popTimed
  | popAgain
  | popLate
  | clear
  | size
  | full
  | empty
  | back
  | leaving

/-- The places at which an operation begins. -/
def Pc.first : Pc α → Bool
  | .push _ | .pop | .popTimed | .clear | .size | .full | .empty | .back => true
  | .idle | .store _ | .stored | .refused | .popAgain | .popLate | .leaving => false

/-- The lines between `lock` and `unlock`, but for the waits and the broadcasts. -/
inductive Act : Pc α → BlockQueue α → Option (Op α) → Pc α → BlockQueue α → Prop
  | refuse {item : α} {q : BlockQueue α} (h : q.mSize > q.mMaxSize) :
      Act (.push item) q (some (.push item false)) .refused q
  | room {item : α} {q : BlockQueue α} (h : ¬ q.mSize > q.mMaxSize) :
      Act (.push item) q none (.store item) q
  | store {item : α} {q : BlockQueue α} :
      Act (.store item) q (some (.push item true)) .stored (q.store item)
  | pop {item : α} {q q' : BlockQueue α} (h : q.pop = some (item, q')) :
      Act .pop q (some (.pop item)) .leaving q'
  | popTimed {item : α} {q q' : BlockQueue α} (h : q.pop = some (item, q')) :
      Act .popTimed q (some (.pop item)) .leaving q'
  | popAgain {item : α} {q q' : BlockQueue α} (h : q.pop = some (item, q')) :
      Act .popAgain q (some (.pop item)) .leaving q'
  | popAgainEmpty {q : BlockQueue α} (h : q.mSize ≤ 0) : Act .popAgain q none .leaving q
  | clear {q : BlockQueue α} : Act .clear q (some .clear) .leaving q.clear
  | size {q : BlockQueue α} : Act .size q (some (.size q.size)) .leaving q
  | full {q : BlockQueue α} : Act .full q (some (.full q.full)) .leaving q
  | empty {q : BlockQueue α} : Act .empty q (some (.empty q.empty)) .leaving q
  | back {q : BlockQueue α} : Act .back q (some (.back q.back)) .leaving q

/-- What the wait of an operation is followed by.  The wait of the timed `pop` returns in time or
not; that of `pop` cannot fail. -/
inductive Resume : Pc α → Pc α → Prop
  | pop : Resume .pop .pop
  | again : Resume .popTimed .popAgain
  | late : Resume .popTimed .popLate

/-- The threads, all of which may call all operations. -/
def program : Program (BlockQueue α) (Pc α) (Op α) where
  call p p' := p = .idle ∧ p'.first = true
  enter p := p.first = true
  act := Act
  leave p p' := (p = .leaving ∨ p = .popLate) ∧ p' = .idle
  wait p q := (p = .pop ∨ p = .popTimed) ∧ q.mSize ≤ 0
  resume := Resume
  broadcast p p' := (p = .stored ∨ p = .refused) ∧ p' = .leaving
  signal _ _ := False

/-! ### What the threads rely on -/

/-- Behind its test, `push` knows that the test failed. -/
def Knows (p : Pc α) (q : BlockQueue α) : Prop :=
  match p with
  | .store _ => ¬ q.mSize > q.mMaxSize
  | _ => True

theorem knows_of_first {p : Pc α} (h : p.first = true) (q : BlockQueue α) : Knows p q := by
  cases p with
  | store => cases h
  | _ => trivial

theorem sound : Monitor.Sound (fun _ : ι => program (α := α)) (fun _ => True)
    (fun _ => Knows) where
  enter h _ := knows_of_first h _
  act h _ := by
    cases h with
    | room h => exact h
    | refuse | store | pop | popTimed | popAgain | popAgainEmpty | clear | size | full | empty
    | back => trivial
  leave _ _ := trivial
  wait _ _ := trivial
  resume h _ := by cases h <;> trivial
  broadcast h _ := by
    obtain ⟨-, rfl⟩ := h
    trivial
  signal h _ := h.elim

/-- `push` is the only operation that makes the queue longer. -/
theorem Act.grows {p p' : Pc α} {q q' : BlockQueue α} {e : Option (Op α)} (h : Act p q e p' q')
    (hlt : q.mSize < q'.mSize) : p' = .stored := by
  have hpop : ∀ {item : α}, q.pop = some (item, q') → False := by
    intro item hq
    have := (contents_pop hq).2.2
    omega
  cases h with
  | store => rfl
  | pop h | popTimed h | popAgain h => exact (hpop h).elim
  | clear => exact absurd hlt (not_lt.2 q.size_nonneg)
  | refuse | room | popAgainEmpty | size | full | empty | back => exact absurd hlt (lt_irrefl _)

theorem wakes : Monitor.Wakes (fun _ : ι => program (α := α)) (fun _ => Knows)
    (fun _ _ q => 0 < q.mSize) (fun _ p => p = .stored) where
  call h howes := by
    obtain ⟨rfl, -⟩ := h
    cases howes
  act h _ howes := by
    subst howes
    cases h
  raise h _ _ hnot hpos := Act.grows h (lt_of_le_of_lt (not_lt.1 hnot) hpos)
  leave h howes := by
    subst howes
    rcases h.1 with h | h <;> cases h
  wait h _ := by
    refine ⟨not_lt.2 h.2, ?_⟩
    rintro rfl
    rcases h.1 with h | h <;> cases h
  sole h := h.elim

/-! ### Main result -/

/-- An action is the whole operation. -/
theorem Act.step {p p' : Pc α} {q q' : BlockQueue α} {op : Op α} (h : Act p q (some op) p' q')
    (hk : Knows p q) : Step q op q' := by
  cases h with
  | @refuse item _ h =>
      have hs := Step.push (q := q) item
      rwa [push, if_pos h] at hs
  | @store item _ =>
      have hs := Step.push (q := q) item
      rwa [push, if_neg hk] at hs
  | pop h | popTimed h | popAgain h => exact .pop h
  | clear => exact .clear
  | size => exact .size
  | full => exact .full
  | empty => exact .empty
  | back => exact .back

/-- A thread without the mutex is in no operation, or at the beginning of one. -/
theorem outside_run [DecidableEq ι] [Inhabited α] {n : ℕ} {h : 0 < (n : ℤ)}
    {evs : List (Option (ι × Op α))} {s : State ι (BlockQueue α) (Pc α)}
    (hr : Run (Monitor.Step fun _ => program) (State.start (ofSize n h) fun _ => .idle) evs s) :
    ∀ i p, s.threads i = .outside p → p = .idle ∨ p.first = true := by
  refine Monitor.outside (O := fun _ p => p = .idle ∨ p.first = true) ?_ ?_ ?_ ?_
    (fun _ => .inl rfl) hr
  · exact fun h _ => .inr h.2
  · exact fun h => .inl h.2
  · rintro i p p' ⟨hp, -⟩ hout
    rcases hp with rfl | rfl <;> rcases hout with h | h <;> cases h
  · exact fun h => h.elim

/-- **The threads of the queue.**  However their lines are interleaved, one thread at most is
between `lock` and `unlock`; what they do to the queue is a sequence of whole operations, which is
one of a bounded FIFO as long as each `push` finds room; and while a consumer sleeps, the queue is
empty or a producer is about to wake it and has the mutex. -/
theorem threads [DecidableEq ι] [Inhabited α] (n : ℕ) (h : 0 < (n : ℤ))
    {evs : List (Option (ι × Op α))} {s : State ι (BlockQueue α) (Pc α)}
    (hr : Run (Monitor.Step fun _ => program) (State.start (ofSize n h) fun _ => .idle) evs s) :
    (∀ i j p q, s.threads i = .inside p → s.threads j = .inside q → i = j) ∧
    Run Step (ofSize n h) (Monitor.shown evs) s.data ∧
    (Run (EventSystem.Guarded Step Room) (ofSize n h) (Monitor.shown evs) s.data →
      IsFifo n (Monitor.shown evs) s.data) ∧
    (∀ i p, s.threads i = .asleep p →
      s.data.contents = [] ∨ ∃ j, s.owner = some j ∧ s.threads j = .inside .stored) := by
  have hkeeps := sound.run trivial hr
  have hcovered := wakes.run sound trivial hr
  refine ⟨fun i j p q => Monitor.exclusive hkeeps.owned, ?_, fun hroom => (isFifo_of_room hroom).1,
    fun i p hi => ?_⟩
  · refine sound.refines ?_ (fun hact hk => hact.step hk) trivial hr
    rintro i p q p' q' h
    cases h <;> rfl
  · by_cases hpos : 0 < s.data.mSize
    · obtain ⟨j, q, hj, rfl⟩ := hcovered.woken i p hi hpos
      have hinside : s.threads j = .inside .stored := by
        cases hph : s.threads j with
        | outside r =>
            rw [hph] at hj
            cases hj
            rcases outside_run hr j _ hph with h | h <;> cases h
        | inside r =>
            rw [hph] at hj
            cases hj
            rfl
        | asleep r | notified r =>
            rw [hph] at hj
            cases hj
      exact .inr ⟨j, (hkeeps.owned j).2 ⟨_, hinside⟩, hinside⟩
    · refine .inl (List.length_eq_zero_iff.1 ?_)
      have := s.data.length_contents
      have := s.data.size_nonneg
      omega

/-- A consumer falls asleep on an empty queue; a producer stores an element and has not yet told
it. -/
theorem threads_asleep :
    ∃ (evs : List (Option (Bool × Op ℕ))) (s : State Bool (BlockQueue ℕ) (Pc ℕ)),
      Run (Monitor.Step fun _ => program) (State.start (ofSize 1 Int.one_pos) fun _ => .idle)
        evs s ∧
      Monitor.shown evs = [.push 7 true] ∧ s.threads true = .asleep .pop ∧
      Run Step (ofSize 1 Int.one_pos) [.push 7 true] s.data ∧
      (s.data.contents = [] ∨ ∃ j, s.owner = some j ∧ s.threads j = .inside .stored) := by
  have hr : Run (Monitor.Step fun _ : Bool => program)
      (State.start (ofSize ((1 : ℕ) : ℤ) Int.one_pos : BlockQueue ℕ) fun _ => .idle) _ _ := .nil
  have hpop : (program (α := ℕ)).call .idle .pop ∧ (program (α := ℕ)).enter .pop :=
    ⟨⟨rfl, rfl⟩, rfl⟩
  have hpush : (program (α := ℕ)).call .idle (.push 7) ∧ (program (α := ℕ)).enter (.push 7) :=
    ⟨⟨rfl, rfl⟩, rfl⟩
  have hroom : ∀ q : BlockQueue ℕ, ¬ q.mSize > q.mMaxSize →
      program.act (.push 7) q none (.store 7) q := fun _ => .room
  have hstore : ∀ q : BlockQueue ℕ,
      program.act (.store 7) q (some (.push 7 true)) .stored (q.store 7) := fun _ => .store
  have hr := hr.snoc (.call (i := true) (p := .idle) rfl hpop.1)
  have hr := hr.snoc (.lock (i := true) (p := .pop) rfl hpop.2 rfl)
  have hr := hr.snoc (.wait (i := true) (p := .pop) rfl ⟨.inl rfl, le_rfl⟩)
  have hr := hr.snoc (.call (i := false) (p := .idle) rfl hpush.1)
  have hr := hr.snoc (.lock (i := false) (p := .push 7) rfl hpush.2 rfl)
  have hr := hr.snoc (.act (i := false) (p := .push 7) rfl (hroom _ (by decide)))
  have hr := hr.snoc (.act (i := false) (p := .store 7) rfl (hstore _))
  obtain ⟨-, hrun, -, hasleep⟩ := threads 1 Int.one_pos hr
  exact ⟨_, _, hr, rfl, rfl, hrun, hasleep true .pop rfl⟩

end BlockQueue

end Gateway
