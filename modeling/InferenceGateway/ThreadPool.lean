/-
The thread pool.

`threadpool.h` has a bounded queue under a mutex and a semaphore that is posted after the mutex was
released.  A worker ignores what `sem_wait` returns, so a signal lets it look at the queue without
having taken a token.  Any number of threads call `append` and `append_p`, which differ only in the
field `m_state` of the request, and any number of workers run `run`.

The queue is only touched under the mutex.  A worker's look at it, with `front` and `pop_front`, is
one step; the test of its size and `push_back` are two.

* `Gateway.Pool.ProducerStep`, `Gateway.Pool.WorkerStep`, `Gateway.Pool.Step` — the steps;
* `Gateway.Pool.Inv` — the invariant: who holds the mutex, the room in the queue, and **the
  tokens**, which cover the queue;
* `Gateway.Pool.delivery` — **bounded, in order, exactly once and without a lost wakeup**.
-/

import InferenceGateway.EventSystem

set_option relaxedAutoImplicit false
set_option autoImplicit false

namespace Gateway.Pool

variable {ρ : Type*}

/-! ### State -/

/-- `SEM_VALUE_MAX`, which is also the greatest `int`. -/
def SEM_VALUE_MAX : ℕ := 2147483647

/-- What the constructor accepts: a positive `int`. -/
structure Config where
  maxRequests : ℕ
  positive : 0 < maxRequests
  le_max : maxRequests ≤ SEM_VALUE_MAX

/-- Where a producer is: outside of `append`; in it before `lock`; with the mutex, before the test
of the size, before `push_back`, and before `unlock` with or without the request in the queue;
before `post`.  A request is a pointer, where `none` is null. -/
inductive ProducerPc (ρ : Type*)
  | outside
  | calling (r : Option ρ)
  | testing (r : Option ρ)
  | pushing (r : Option ρ)
  | refused
  | pushed
  | posting
  deriving DecidableEq

/-- Where a worker is: in `wait`; behind it, before `lock`; with the mutex, before it looks at the
queue, and before `unlock` with what it found; with a request. -/
inductive WorkerPc (ρ : Type*)
  | waiting
  | woken
  | looking
  | looked (found : Option (Option ρ))
  | working (r : ρ)
  deriving DecidableEq

/-- What the threads share. -/
structure Shared (ρ : Type*) where
  queue : List (Option ρ) := []
  sem : ℕ := 0
  locked : Bool := false

/-- The joint state. -/
structure State (ρ : Type*) extends Shared ρ where
  producers : List (ProducerPc ρ)
  workers : List (WorkerPc ρ)

/-- What a step shows: a request was put into the queue, it was refused, or worker `j` has taken
it. -/
inductive Event (ρ : Type*)
  | accept (r : Option ρ)
  | refuse (r : Option ρ)
  | take (j : ℕ) (r : Option ρ)
  | silent
  deriving DecidableEq

/-! ### Steps -/

/-- The steps of `append` and `append_p`.  `sem_post` fails when the semaphore is at its maximum. -/
inductive ProducerStep (c : Config) (s : Shared ρ) :
    ProducerPc ρ → Event ρ → ProducerPc ρ → Shared ρ → Prop
  | call (r : Option ρ) : ProducerStep c s .outside .silent (.calling r) s
  | lock {r : Option ρ} (free : s.locked = false) :
      ProducerStep c s (.calling r) .silent (.testing r) { s with locked := true }
  | full {r : Option ρ} (full : c.maxRequests ≤ s.queue.length) :
      ProducerStep c s (.testing r) (.refuse r) .refused s
  | room {r : Option ρ} (room : s.queue.length < c.maxRequests) :
      ProducerStep c s (.testing r) .silent (.pushing r) s
  | push {r : Option ρ} :
      ProducerStep c s (.pushing r) (.accept r) .pushed { s with queue := s.queue ++ [r] }
  | unlockRefused : ProducerStep c s .refused .silent .outside { s with locked := false }
  | unlockPushed : ProducerStep c s .pushed .silent .posting { s with locked := false }
  | post :
      ProducerStep c s .posting .silent .outside { s with sem := min (s.sem + 1) SEM_VALUE_MAX }

/-- The steps of `run` of worker `j`.  `interrupted` is `sem_wait` with `EINTR`. -/
inductive WorkerStep (j : ℕ) (s : Shared ρ) :
    WorkerPc ρ → Event ρ → WorkerPc ρ → Shared ρ → Prop
  | wait (token : 0 < s.sem) : WorkerStep j s .waiting .silent .woken { s with sem := s.sem - 1 }
  | interrupted : WorkerStep j s .waiting .silent .woken s
  | lock (free : s.locked = false) :
      WorkerStep j s .woken .silent .looking { s with locked := true }
  | empty (empty : s.queue = []) : WorkerStep j s .looking .silent (.looked none) s
  | pop {r : Option ρ} {queue : List (Option ρ)} (front : s.queue = r :: queue) :
      WorkerStep j s .looking (.take j r) (.looked (some r)) { s with queue := queue }
  | unlockEmpty : WorkerStep j s (.looked none) .silent .waiting { s with locked := false }
  | unlockNull : WorkerStep j s (.looked (some none)) .silent .waiting { s with locked := false }
  | unlock {r : ρ} :
      WorkerStep j s (.looked (some (some r))) .silent (.working r) { s with locked := false }
  | done {r : ρ} : WorkerStep j s (.working r) .silent .waiting s

/-- One thread makes a step. -/
inductive Step (c : Config) (s : State ρ) : Event ρ → State ρ → Prop
  | producer {i : ℕ} {pc pc' : ProducerPc ρ} {e : Event ρ} {sh : Shared ρ}
      (at_ : s.producers[i]? = some pc) (step : ProducerStep c s.toShared pc e pc' sh) :
      Step c s e { s with toShared := sh, producers := s.producers.set i pc' }
  | worker {j : ℕ} {pc pc' : WorkerPc ρ} {e : Event ρ} {sh : Shared ρ}
      (at_ : s.workers[j]? = some pc) (step : WorkerStep j s.toShared pc e pc' sh) :
      Step c s e { s with toShared := sh, workers := s.workers.set j pc' }

/-- `m` threads that may call `append` and `n` workers, at the beginning. -/
def State.start (m n : ℕ) : State ρ where
  producers := .replicate m .outside
  workers := .replicate n .waiting

/-- The runs of the pool. -/
abbrev Run (c : Config) (m n : ℕ) : List (Event ρ) → State ρ → Prop :=
  EventSystem.Run (Step c) (State.start m n)

/-- The requests that were accepted, in order. -/
def accepted (evs : List (Event ρ)) : List (Option ρ) :=
  evs.filterMap fun | .accept r => some r | _ => none

/-- The requests that were taken, in order, each with the worker that took it. -/
def taken (evs : List (Event ρ)) : List (ℕ × Option ρ) :=
  evs.filterMap fun | .take j r => some (j, r) | _ => none

/-! ### The invariant -/

/-- The producer has the mutex. -/
def ProducerPc.holds : ProducerPc ρ → Bool
  | .testing _ | .pushing _ | .refused | .pushed => true
  | .outside | .calling _ | .posting => false

/-- The producer has found room in the queue and will put a request there. -/
def ProducerPc.reserves : ProducerPc ρ → Bool
  | .pushing _ => true
  | _ => false

/-- The producer is between `push_back` and `post`. -/
def ProducerPc.owes : ProducerPc ρ → Bool
  | .pushed | .posting => true
  | _ => false

/-- The worker has the mutex. -/
def WorkerPc.holds : WorkerPc ρ → Bool
  | .looking | .looked _ => true
  | .waiting | .woken | .working _ => false

/-- The worker has passed `wait` and has not yet looked at the queue. -/
def WorkerPc.unseen : WorkerPc ρ → Bool
  | .woken | .looking => true
  | _ => false

/-- The invariant. -/
structure Inv (c : Config) (s : State ρ) : Prop where
  mutex : s.producers.countP ProducerPc.holds + s.workers.countP WorkerPc.holds = s.locked.toNat
  room : s.queue.length + s.producers.countP ProducerPc.reserves ≤ c.maxRequests
  tokens : s.queue.length ≤
    s.sem + s.producers.countP ProducerPc.owes + s.workers.countP WorkerPc.unseen

variable {c : Config} {s s' : State ρ} {e : Event ρ} {m n : ℕ} {evs : List (Event ρ)}

theorem Inv.start : Inv c (State.start m n : State ρ) where
  mutex := by simp [State.start, List.countP_replicate, ProducerPc.holds, WorkerPc.holds]
  room := by simp [State.start, List.countP_replicate, ProducerPc.reserves]
  tokens := by simp [State.start]

/-- Who will put a request into the queue has the mutex. -/
theorem reserves_le_holds (l : List (ProducerPc ρ)) :
    l.countP ProducerPc.reserves ≤ l.countP ProducerPc.holds := by
  refine List.countP_mono_left ?_
  intro x _ hx
  cases x with
  | pushing _ => rfl
  | _ => cases hx

/-- A step of a producer keeps the invariant. -/
theorem Inv.producer (h : Inv c s) {i : ℕ} {pc pc' : ProducerPc ρ} {sh : Shared ρ}
    (hpc : s.producers[i]? = some pc) (hs : ProducerStep c s.toShared pc e pc' sh) :
    Inv c { s with toShared := sh, producers := s.producers.set i pc' } := by
  obtain ⟨hmutex, hroom, htokens⟩ := h
  have hholds := EventSystem.countP_set ProducerPc.holds pc' hpc
  have hreserves := EventSystem.countP_set ProducerPc.reserves pc' hpc
  have howes := EventSystem.countP_set ProducerPc.owes pc' hpc
  have hle := reserves_le_holds (s.producers.set i pc')
  have hlocked := Bool.toNat_le s.locked
  cases hs with
  | call r =>
      simp only [ProducerPc.holds, ProducerPc.reserves, ProducerPc.owes, Bool.toNat_false]
        at hholds hreserves howes
      constructor <;> dsimp only <;> omega
  | lock hfree =>
      simp only [ProducerPc.holds, ProducerPc.reserves, ProducerPc.owes, Bool.toNat_true,
        Bool.toNat_false] at hholds hreserves howes
      rw [hfree, Bool.toNat_false] at hmutex
      constructor <;> dsimp only [Bool.toNat_true] <;> omega
  | full hfull =>
      simp only [ProducerPc.holds, ProducerPc.reserves, ProducerPc.owes, Bool.toNat_true,
        Bool.toNat_false] at hholds hreserves howes
      constructor <;> dsimp only <;> omega
  | room hlt =>
      -- the others have no reservation, since they do not have the mutex
      simp only [ProducerPc.holds, ProducerPc.reserves, ProducerPc.owes, Bool.toNat_true,
        Bool.toNat_false] at hholds hreserves howes
      constructor <;> dsimp only <;> omega
  | push =>
      simp only [ProducerPc.holds, ProducerPc.reserves, ProducerPc.owes, Bool.toNat_true,
        Bool.toNat_false] at hholds hreserves howes
      constructor <;> dsimp only <;> (try rw [List.length_append, List.length_singleton]) <;> omega
  | unlockRefused =>
      simp only [ProducerPc.holds, ProducerPc.reserves, ProducerPc.owes, Bool.toNat_true,
        Bool.toNat_false] at hholds hreserves howes
      constructor <;> dsimp only [Bool.toNat_false] <;> omega
  | unlockPushed =>
      simp only [ProducerPc.holds, ProducerPc.reserves, ProducerPc.owes, Bool.toNat_true,
        Bool.toNat_false] at hholds hreserves howes
      constructor <;> dsimp only [Bool.toNat_false] <;> omega
  | post =>
      simp only [ProducerPc.holds, ProducerPc.reserves, ProducerPc.owes, Bool.toNat_true,
        Bool.toNat_false] at hholds hreserves howes
      -- a full semaphore covers every queue
      have hmax := c.le_max
      generalize SEM_VALUE_MAX = max at hmax ⊢
      constructor <;> dsimp only <;> omega

/-- A step of a worker keeps the invariant. -/
theorem Inv.worker (h : Inv c s) {j : ℕ} {pc pc' : WorkerPc ρ} {sh : Shared ρ}
    (hpc : s.workers[j]? = some pc) (hs : WorkerStep j s.toShared pc e pc' sh) :
    Inv c { s with toShared := sh, workers := s.workers.set j pc' } := by
  obtain ⟨hmutex, hroom, htokens⟩ := h
  have hholds := EventSystem.countP_set WorkerPc.holds pc' hpc
  have hunseen := EventSystem.countP_set WorkerPc.unseen pc' hpc
  have hlocked := Bool.toNat_le s.locked
  cases hs with
  | wait htoken =>
      simp only [WorkerPc.holds, WorkerPc.unseen, Bool.toNat_true, Bool.toNat_false]
        at hholds hunseen
      constructor <;> dsimp only <;> omega
  | interrupted =>
      -- no token is taken, and the worker counts as one
      simp only [WorkerPc.holds, WorkerPc.unseen, Bool.toNat_true, Bool.toNat_false]
        at hholds hunseen
      constructor <;> dsimp only <;> omega
  | lock hfree =>
      simp only [WorkerPc.holds, WorkerPc.unseen, Bool.toNat_true, Bool.toNat_false]
        at hholds hunseen
      rw [hfree, Bool.toNat_false] at hmutex
      constructor <;> dsimp only [Bool.toNat_true] <;> omega
  | empty hempty =>
      simp only [WorkerPc.holds, WorkerPc.unseen, Bool.toNat_true, Bool.toNat_false]
        at hholds hunseen
      have hlength := congrArg List.length hempty
      rw [List.length_nil] at hlength
      constructor <;> dsimp only <;> omega
  | pop hfront =>
      simp only [WorkerPc.holds, WorkerPc.unseen, Bool.toNat_true, Bool.toNat_false]
        at hholds hunseen
      have hlength := congrArg List.length hfront
      rw [List.length_cons] at hlength
      constructor <;> dsimp only <;> omega
  | unlockEmpty =>
      simp only [WorkerPc.holds, WorkerPc.unseen, Bool.toNat_true, Bool.toNat_false]
        at hholds hunseen
      constructor <;> dsimp only [Bool.toNat_false] <;> omega
  | unlockNull =>
      simp only [WorkerPc.holds, WorkerPc.unseen, Bool.toNat_true, Bool.toNat_false]
        at hholds hunseen
      constructor <;> dsimp only [Bool.toNat_false] <;> omega
  | unlock =>
      simp only [WorkerPc.holds, WorkerPc.unseen, Bool.toNat_true, Bool.toNat_false]
        at hholds hunseen
      constructor <;> dsimp only [Bool.toNat_false] <;> omega
  | done =>
      simp only [WorkerPc.holds, WorkerPc.unseen, Bool.toNat_false] at hholds hunseen
      constructor <;> dsimp only <;> omega

theorem Inv.step (h : Inv c s) (hs : Step c s e s') : Inv c s' := by
  cases hs with
  | producer hpc hs => exact h.producer hpc hs
  | worker hpc hs => exact h.worker hpc hs

theorem Inv.run (hr : Run c m n evs s) : Inv c s :=
  hr.invariant_state Inv.start fun _ _ _ h hs => h.step hs

/-! ### Order -/

/-- What a step shows is what it does to the queue. -/
theorem Step.queue (hs : Step c s e s') :
    (taken [e]).map Prod.snd ++ s'.queue = s.queue ++ accepted [e] := by
  cases hs with
  | producer _ hs =>
      cases hs with
      | push => rfl
      | _ => exact (List.append_nil _).symm
  | worker _ hs =>
      cases hs with
      | pop hfront => exact hfront.symm.trans (List.append_nil _).symm
      | _ => exact (List.append_nil _).symm

theorem accepted_append (evs evs' : List (Event ρ)) :
    accepted (evs ++ evs') = accepted evs ++ accepted evs' := List.filterMap_append

theorem taken_append (evs evs' : List (Event ρ)) :
    taken (evs ++ evs') = taken evs ++ taken evs' := List.filterMap_append

/-- The accepted requests are the taken ones and behind them the queue, in order. -/
theorem accepted_eq (hr : Run c m n evs s) :
    accepted evs = (taken evs).map Prod.snd ++ s.queue := by
  induction hr with
  | nil => rfl
  | snoc _ hs ih =>
      rw [accepted_append, ih, List.append_assoc, ← hs.queue, taken_append, List.map_append,
        List.append_assoc]

/-- **Delivery.**  In every run of any number of producers and workers the queue stays within its
bound, each accepted request is taken once, by one worker and in the order of acceptance, and the
tokens cover the queue, so that nothing is left there when all workers sleep. -/
theorem delivery (hr : Run c m n evs s) :
    s.queue.length ≤ c.maxRequests ∧
    accepted evs = (taken evs).map Prod.snd ++ s.queue ∧
    s.queue.length ≤
      s.sem + s.producers.countP ProducerPc.owes + s.workers.countP WorkerPc.unseen ∧
    (s.sem = 0 → (∀ w ∈ s.workers, w = .waiting) → (∀ p ∈ s.producers, p.owes = false) →
      s.queue = []) := by
  have h := Inv.run hr
  refine ⟨(Nat.le_add_right _ _).trans h.room, accepted_eq hr, h.tokens, ?_⟩
  intro hsem hworkers hproducers
  have hunseen : s.workers.countP WorkerPc.unseen = 0 := by
    refine List.countP_eq_zero.2 ?_
    intro w hw
    rw [hworkers w hw]
    exact Bool.false_ne_true
  have howes : s.producers.countP ProducerPc.owes = 0 := by
    refine List.countP_eq_zero.2 ?_
    intro p hp
    rw [hproducers p hp]
    exact Bool.false_ne_true
  have htokens := h.tokens
  rw [hsem, howes, hunseen] at htokens
  exact List.eq_nil_of_length_eq_zero (Nat.le_zero.1 htokens)

/-- One worker, one producer and room for one request; a signal wakes the worker before the token is
there, and it takes the request. -/
theorem delivery_signal : ∃ (evs : List (Event ℕ)) (s : State ℕ),
    taken evs = [(0, some 7)] ∧ s.sem = 1 ∧ s.queue.length ≤ 1 ∧
    accepted evs = (taken evs).map Prod.snd ++ s.queue ∧
    s.queue.length ≤
      s.sem + s.producers.countP ProducerPc.owes + s.workers.countP WorkerPc.unseen ∧
    (s.sem = 0 → (∀ w ∈ s.workers, w = .waiting) → (∀ p ∈ s.producers, p.owes = false) →
      s.queue = []) := by
  have h : Run ⟨1, by decide, by decide⟩ 1 1 [] (State.start 1 1 : State ℕ) := .nil
  have h := h.snoc (.producer (i := 0) rfl (.call (some 7)))
  have h := h.snoc (.producer (i := 0) rfl (.lock rfl))
  have h := h.snoc (.producer (i := 0) rfl (.room (by decide)))
  have h := h.snoc (.producer (i := 0) rfl .push)
  have h := h.snoc (.producer (i := 0) rfl .unlockPushed)
  have h := h.snoc (.worker (j := 0) rfl .interrupted)
  have h := h.snoc (.worker (j := 0) rfl (.lock rfl))
  have h := h.snoc (.worker (j := 0) rfl (.pop rfl))
  have h := h.snoc (.producer (i := 0) rfl .post)
  exact ⟨_, _, rfl, rfl, delivery h⟩

end Gateway.Pool
