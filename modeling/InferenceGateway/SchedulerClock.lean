/-
**The scheduler with a clock.**

`Gateway.Sched.Step` leaves open when anything happens: the clock readings of the scheduler thread
and the wake-ups of a timed wait are chosen by the environment.  The timeouts of a request compare
two clock readings, and between the expiry of `pthread_cond_timedwait` and its return lies the
moment at which the worker gets the mutex back.  This module puts both on top of the same steps.

An instant is a value of `CLOCK_REALTIME` in nanoseconds; `time(nullptr)` shows its whole seconds.
The clock does not go back.  `cleanup_expired` reads it before it locks the queues, so the reading
it uses may be an old one; the submit filter reads it where it uses it.

Main definitions:

* `Gateway.Sched.Timespec.after` — the absolute time of the wait, as `wait_with_timeout_ms`
  computes it;
* `Gateway.Sched.Timed`, `Gateway.Sched.TimedStep` — the state with its clock, and its steps.

Main results:

* `Gateway.Sched.waitUntil_eq` — what the computation amounts to;
* `Gateway.Sched.TimedRuns.runs` — **a timed run is a run** of the scheduler.
-/

import InferenceGateway.SchedulerQueues

set_option relaxedAutoImplicit false
set_option autoImplicit false

namespace Gateway.Sched

variable {F : Type} {cfg : Config} {w : World F} {T : ℤ}

/-! ### Clock readings -/

/-- The whole seconds of an instant: `time(nullptr)`. -/
def seconds (t : ℤ) : ℤ := t / 1000000000

/-- `struct timespec`. -/
structure Timespec where
  sec : ℤ
  nsec : ℤ

/-- `clock_gettime(CLOCK_REALTIME, &ts)` at an instant. -/
def Timespec.now (t : ℤ) : Timespec := ⟨seconds t, t % 1000000000⟩

/-- The instant that a `timespec` stands for. -/
def Timespec.instant (ts : Timespec) : ℤ := ts.sec * 1000000000 + ts.nsec

/-- The arithmetic of `wait_with_timeout_ms` on `ts`. -/
def Timespec.after (ts : Timespec) (timeoutMs : ℤ) : Timespec :=
  let sec := ts.sec + timeoutMs.tdiv 1000
  let nsec := ts.nsec + timeoutMs.tmod 1000 * 1000000
  if 1000000000 ≤ nsec then ⟨sec + 1, nsec - 1000000000⟩ else ⟨sec, nsec⟩

/-- `task_timeout_sec * 1000`, computed as an `int`. -/
def timeoutMs (taskTimeoutSec : ℤ) : ℤ := (taskTimeoutSec * 1000).bmod (2 ^ 32)

/-- The instant from which `pthread_cond_timedwait` may report `ETIMEDOUT`, when
`wait_with_timeout_ms` was entered at `t`. -/
def waitUntil (taskTimeoutSec t : ℤ) : ℤ :=
  ((Timespec.now t).after (timeoutMs taskTimeoutSec)).instant

theorem Timespec.instant_after (t ms : ℤ) :
    ((Timespec.now t).after ms).instant = t + ms * 1000000 := by
  have hms := Int.tmod_add_tdiv_mul ms 1000
  have ht := Int.emod_add_mul_ediv t 1000000000
  unfold Timespec.after Timespec.now Timespec.instant seconds
  simp only
  split
  · simp only
    omega
  · simp only
    omega

/-- **The wait lasts `task_timeout_sec` seconds** unless the product overflows. -/
theorem waitUntil_eq (h₀ : 0 ≤ T) (h : T ≤ 2147483) (t : ℤ) :
    waitUntil T t = t + T * 1000000000 := by
  rw [waitUntil, Timespec.instant_after, timeoutMs]
  have hmod : (T * 1000).bmod (2 ^ 32) = T * 1000 := by
    rw [Int.bmod_eq_of_le] <;> omega
  rw [hmod]
  omega

/-! ### The state -/

/-- The scheduler with its clock.  `waitFrom` and `expired` belong to the workers inside
`wait_with_timeout_ms`: the instant of its clock reading, and whether the timed wait has expired, so
that the worker only waits for the mutex.  `builtAt` and `filteredAt` are the instants at which
`do_request` and the submit filter have read the clock. -/
structure Timed (F : Type) where
  sched : State F := .init
  clock : ℤ
  builtAt : TaskRef → ℤ := fun _ => 0
  waitFrom : TaskRef → Option ℤ := fun _ => none
  expired : TaskRef → Bool := fun _ => false
  filteredAt : ℤ := 0

namespace Timed

/-- The constructed scheduler at an instant. -/
def start (clock : ℤ) : Timed F where
  clock := clock

/-- A step of the scheduler, with the instants it leaves behind. -/
@[simps]
def next (p : Timed F) (e : Event) (s' : State F) : Timed F where
  sched := s'
  clock := p.clock
  builtAt := match e with
    | .construct t => Function.update p.builtAt t p.clock
    | _ => p.builtAt
  waitFrom := p.waitFrom
  expired := p.expired
  filteredAt := match p.sched.pc with
    | .filterClock _ => p.clock
    | _ => p.filteredAt

/-- The worker of `t` has been woken by the expiry of its wait and waits for the mutex. -/
def AtMutex (p : Timed F) (t : TaskRef) : Prop :=
  p.sched.calls t = .blocked ∧ p.expired t = true

/-- **A step that agrees with the clock**: its clock readings are right, a worker enters the loop
of `wait_with_timeout_ms` only after its clock reading, and returns from the timed wait with
`ETIMEDOUT` exactly if the wait has expired. -/
structure Timely (T : ℤ) (p : Timed F) (e : Event) (s' : State F) : Prop where
  deadline : ∀ t, e = .construct t → (s'.tasks t).deadline = seconds p.clock + T
  arrival : ∀ t, e = .accept t → (s'.tasks t).arrivalTime = seconds p.clock
  cleanup : ∀ second, p.sched.pc = .cleanup second → s'.pc = p.sched.pc ∨
    ∃ t ≤ p.clock, s'.pc.checkTime = some (seconds t)
  filter : ∀ batch, p.sched.pc = .filterClock batch → s'.pc = p.sched.pc ∨
    s'.pc.checkTime = some (seconds p.clock)
  enters : ∀ t, p.sched.calls t = .checking → s'.calls t = .checking ∨ (p.waitFrom t).isSome
  wakes : ∀ t, p.sched.calls t = .blocked → s'.calls t = .checking → p.expired t = false
  expires : ∀ t, e = .etimedout t → p.expired t = true

end Timed

/-! ### Steps -/

/-- What a timed step does. -/
inductive TimedEvent
  | sched (e : Event)
  | pass
  | startWait (t : TaskRef)
  | expire (t : TaskRef)
  deriving DecidableEq

/-- One step of the scheduler with its clock: an action of a thread, the passing of time, the clock
reading at the begin of a wait, and the expiry of a wait. -/
inductive TimedStep (cfg : Config) (w : World F) (T : ℤ) : Timed F → TimedEvent → Timed F → Prop
  | sched {p : Timed F} {e : Event} {s' : State F} :
      Step cfg w p.sched e s' → p.Timely T e s' → TimedStep cfg w T p (.sched e) (p.next e s')
  | pass {p : Timed F} (d : ℕ) :
      TimedStep cfg w T p .pass { p with clock := p.clock + d }
  | startWait {p : Timed F} (t : TaskRef) :
      p.sched.calls t = .checking → p.waitFrom t = none →
      TimedStep cfg w T p (.startWait t)
        { p with waitFrom := Function.update p.waitFrom t (some p.clock) }
  | expire {p : Timed F} (t : TaskRef) (t₁ : ℤ) :
      p.sched.calls t = .blocked → p.waitFrom t = some t₁ → waitUntil T t₁ ≤ p.clock →
      TimedStep cfg w T p (.expire t) { p with expired := Function.update p.expired t true }

section Agree

variable {s' : State F} {e : Event} {p : Timed F}

/-- A step of the scheduler thread agrees with the clock if its reading does. -/
theorem TimedStep.run (hs : RunStep cfg w p.sched e s')
    (hcleanup : ∀ second, p.sched.pc = .cleanup second →
      ∃ t ≤ p.clock, s'.pc.checkTime = some (seconds t))
    (hfilter : ∀ batch, p.sched.pc = .filterClock batch →
      s'.pc.checkTime = some (seconds p.clock)) :
    TimedStep cfg w T p (.sched e) (p.next e s') := by
  refine .sched (.run hs) ⟨?_, ?_, fun second h => .inr (hcleanup second h),
    fun batch h => .inr (hfilter batch h), fun t h => .inl (by rw [hs.calls, h]), ?_, ?_⟩
  · rintro t rfl
    cases hs
  · rintro t rfl
    cases hs
  · intro t h h'
    rw [hs.calls, h] at h'
    cases h'
  · rintro t rfl
    cases hs

/-- The steps of an executor agree with every clock. -/
theorem TimedStep.exec {n : ℕ} {x x' : Exec F} (hx : p.sched.execs[n]? = some x)
    (hs : ExecStep w p.sched x e s' x') :
    TimedStep cfg w T p (.sched e) (p.next e (s'.setExec n x')) := by
  obtain ⟨-, -, -, -, -, hpc, -, -, hcalls, -⟩ := hs.frame
  refine .sched (.exec n hx hs) ⟨?_, ?_, fun second h => .inl hpc,
    fun batch h => .inl hpc, fun t h => .inl ((congrFun hcalls t).trans h), ?_, ?_⟩
  · rintro t rfl
    cases hs
  · rintro t rfl
    cases hs
  · intro t h h'
    have := (congrFun hcalls t).symm.trans h'
    rw [h] at this
    cases this
  · rintro t rfl
    cases hs

/-- A step of a worker agrees with the clock if it does so for its own task. -/
theorem TimedStep.call {u : TaskRef} (hs : CallStep cfg w u p.sched e s')
    (hdeadline : e = .construct u → (s'.tasks u).deadline = seconds p.clock + T)
    (harrival : e = .accept u → (s'.tasks u).arrivalTime = seconds p.clock)
    (henter : p.sched.calls u = .checking → (p.waitFrom u).isSome)
    (hwake : p.sched.calls u = .blocked → s'.calls u = .checking → p.expired u = false)
    (hexpire : e = .etimedout u → p.expired u = true) :
    TimedStep cfg w T p (.sched e) (p.next e s') := by
  have hpc : s'.pc = p.sched.pc := hs.frame.2.2.1
  refine .sched (.call u hs) ⟨?_, ?_, fun _ _ => .inl hpc, fun _ _ => .inl hpc, ?_, ?_, ?_⟩
  · rintro t rfl
    cases hs with
    | construct => exact hdeadline rfl
  · rintro t rfl
    cases hs with
    | accept => exact harrival rfl
  · intro t h
    by_cases htu : t = u
    · subst htu
      exact .inr (henter h)
    · exact .inl ((hs.calls_of_ne htu).trans h)
  · intro t h h'
    by_cases htu : t = u
    · subst htu
      exact hwake h h'
    · exact absurd (h.symm.trans ((hs.calls_of_ne htu).symm.trans h')) (by simp)
  · rintro t rfl
    cases hs with
    | etimedout => exact hexpire rfl

end Agree

/-- The runs of the scheduler from an instant. -/
abbrev TimedRuns (cfg : Config) (w : World F) (T clock : ℤ) (evs : List TimedEvent)
    (p : Timed F) : Prop :=
  EventSystem.Run (TimedStep cfg w T) (.start clock) evs p

/-- The events of the scheduler itself. -/
def schedEvents (evs : List TimedEvent) : List Event :=
  evs.filterMap fun
    | .sched e => some e
    | _ => none

@[simp] theorem schedEvents_nil : schedEvents [] = [] := rfl

@[simp] theorem schedEvents_snoc_sched (evs : List TimedEvent) (e : Event) :
    schedEvents (evs ++ [.sched e]) = schedEvents evs ++ [e] := by
  simp [schedEvents]

@[simp] theorem schedEvents_snoc_pass (evs : List TimedEvent) :
    schedEvents (evs ++ [.pass]) = schedEvents evs := by
  simp [schedEvents]

@[simp] theorem schedEvents_snoc_startWait (evs : List TimedEvent) (t : TaskRef) :
    schedEvents (evs ++ [.startWait t]) = schedEvents evs := by
  simp [schedEvents]

@[simp] theorem schedEvents_snoc_expire (evs : List TimedEvent) (t : TaskRef) :
    schedEvents (evs ++ [.expire t]) = schedEvents evs := by
  simp [schedEvents]

/-- **A timed run is a run**: the clock only restricts what the threads do. -/
theorem TimedRuns.runs {clock : ℤ} {evs : List TimedEvent} {p : Timed F}
    (h : TimedRuns cfg w T clock evs p) : Runs cfg w (schedEvents evs) p.sched := by
  refine h.invariant (P := fun evs p => Runs cfg w (schedEvents evs) p.sched) .nil ?_
  intro evs p e p' _ ih hs
  cases hs with
  | sched hs _ =>
      rw [schedEvents_snoc_sched]
      exact ih.snoc hs
  | pass d => simpa using ih
  | startWait t _ _ => simpa using ih
  | expire t t₁ _ _ _ => simpa using ih

end Gateway.Sched
