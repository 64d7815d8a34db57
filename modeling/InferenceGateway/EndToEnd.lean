/-
The gateway as a whole.

Any number of connections share one scheduler.  A worker that has read a request hands a task to the
scheduler in the middle of `do_request` and is back in `do_request` when the task has its verdict;
in between the scheduler thread, the executors and the workers of all other connections move.
Connections come and go: `accept` gives a new one the slot of an old one, and a new task may live
where an old one was.  This module puts the connections and the scheduler together and follows a
request through both.

Two things go wrong in the parts and then here too.  The timer closes a connection whose worker
waits for the scheduler, and a worker leaves the scheduler behind with a pointer to a dead task.
What comes after either is left open: any state.

Main definitions:

* `Gateway.EndToEnd.Stage`, `Gateway.EndToEnd.System` — where the worker of each connection is, and
  the state of the scheduler;
* `Gateway.EndToEnd.Step` — one step of a connection, or of the scheduler;
* `Gateway.EndToEnd.Careful` — the steps that lead to neither of the two;
* `Gateway.EndToEnd.System.Ok` — the invariant: each connection has a run of its own, and each of
  its answers tells the fate of what it has asked.

Main results:

* `Gateway.EndToEnd.Step.ok` — every careful step keeps it;
* `Gateway.EndToEnd.own_answers` — **each client reads the fate of its own numbers**, whatever the
  other clients ask and however the batches are made.
-/

import InferenceGateway.HttpTask
import InferenceGateway.SchedulerFate
import InferenceGateway.SchedulerLifetime
import InferenceGateway.SchedulerReplay

set_option relaxedAutoImplicit false
set_option autoImplicit false

namespace Gateway

open EventSystem (Guarded Run replay)

variable {F : Type}

namespace EndToEnd

open CString (Single)
open HttpConn
open Sched (Config World TaskRef Fate)

variable {ι : Type*}

/-! ### The system -/

/-- Where the connection of a slot is: it does not exist, waits for bytes, is in the queue of the
pool or with a worker, is between `enqueue` and the end of the wait, or in `write`; a worker has
closed it in `close_conn` and still has the slot, or it was closed behind its response. -/
inductive Stage (F : Type)
  | gone
  | reading (c : HttpConn)
  | holding (c : HttpConn)
  | asking (c : HttpConn) (now : ℤ) (t : TaskRef)
  | sending (scheduler : Option (Verdict F)) (p : Processed) (s : Sending)
  | closing
  | closed

/-- Nobody has the connection in hand. -/
def Stage.Free : Stage F → Prop
  | .reading _ => True
  | .sending _ _ x => x.phase = .waiting
  | _ => False

/-- The slots and the scheduler, with the chunks that have arrived on the connection in a slot and
what was served there. -/
structure System (ι : Type*) (F : Type) where
  sched : Sched.State F := .init
  stage : ι → Stage F := fun _ => .gone
  chunks : ι → List Bytes := fun _ => []
  log : ι → List (Served F) := fun _ => []

/-- What a step does. -/
inductive Event (ι : Type*)
  | accept (i : ι)
  | read (i : ι) (q : Bytes)
  | process (i : ι)
  | ask (i : ι) (t : TaskRef)
  | sched (e : Sched.Event)
  | answer (i : ι) (t : TaskRef)
  | write (i : ι) (e : WriteEvent)
  | forget (i : ι)
  | drop (i : ι)
  | cross (i : ι)
  | dangle (e : Sched.Event)

/-- The end of `process`: `modfd` for the response or for more, or `close_conn`. -/
def Stage.processed (scheduler : Option (Verdict F)) (p : Processed) : Stage F :=
  if p.written then .sending scheduler p (.start p.conn)
  else if p.code = .noRequest then .reading p.conn
  else .closing

namespace System

variable [DecidableEq ι] (s : System ι F) (i : ι)

/-- The connection in a slot moves on. -/
@[simps -fullyApplied]
def move (stage : Stage F) : System ι F :=
  { s with stage := Function.update s.stage i stage }

/-- `read_once` gets a chunk. -/
@[simps -fullyApplied]
def hear (q : Bytes) : System ι F :=
  { s with chunks := Function.update s.chunks i (s.chunks i ++ [q]) }

/-- A response has been sent. -/
@[simps -fullyApplied]
def serve (e : Served F) : System ι F :=
  { s with log := Function.update s.log i (s.log i ++ [e]) }

/-- `accept` and `init`: a new connection in the slot. -/
@[simps -fullyApplied]
def accept : System ι F :=
  { s with
    stage := Function.update s.stage i (.reading (fresh readBufferSize))
    chunks := Function.update s.chunks i []
    log := Function.update s.log i [] }

/-- A step of `write`. -/
def wrote (scheduler : Option (Verdict F)) (p : Processed) (x : Sending) : System ι F :=
  match x.phase with
  | .waiting | .sending => s.move i (.sending scheduler p x)
  | .finished true => (s.serve i (p.served scheduler x.wire)).move i (.reading x.conn)
  | .finished false => (s.serve i (p.served scheduler x.wire)).move i .closed
  | .failed => s.move i .gone

end System

/-- One step of a connection or of the scheduler.  What a worker does between two points at which
it meets the scheduler, the timer or the client is one step, as nobody else sees it. -/
inductive Step [DecidableEq ι] (cfg : Config) (w : World F) (svc : ι → Service F) :
    System ι F → Event ι → System ι F → Prop
  | accept {s : System ι F} {i : ι} :
      s.stage i = .gone ∨ s.stage i = .closed → Step cfg w svc s (.accept i) (s.accept i)
  | read {s : System ι F} {i : ι} {c : HttpConn} (q : Bytes) :
      s.stage i = .reading c → (c.append q).Fits →
      Step cfg w svc s (.read i q) ((s.hear i q).move i (.holding (c.append q)))
  -- the request is not complete, or `do_request` does not come to its task
  | process {s : System ι F} {i : ι} {c : HttpConn} (now : ℤ) (p : Processed) :
      s.stage i = .holding c → c.taskOf (svc i) now = none →
      c.process (svc i) now none = .ok p →
      Step cfg w svc s (.process i) (s.move i (.processed none p))
  -- `do_request` as far as the construction of its task
  | ask {s : System ι F} {i : ι} {c : HttpConn} {sched : Sched.State F} (now : ℤ) (t : TaskRef) :
      s.stage i = .holding c → Sched.Step cfg w s.sched (.construct t) sched →
      c.taskOf (svc i) now = some (sched.tasks t) →
      Step cfg w svc s (.ask i t) ({ s with sched := sched }.move i (.asking c now t))
  -- `enqueue`, the wait, the scheduler thread and the executors
  | sched {s : System ι F} {e : Sched.Event} {sched : Sched.State F} :
      (∀ t, e ≠ .construct t) → (∀ t r, e ≠ .reply t r) → Sched.Step cfg w s.sched e sched →
      (∀ t, e.touched = some t → s.sched.alive t) →
      Step cfg w svc s (.sched e) { s with sched := sched }
  -- `do_request` from the end of the wait
  | answer {s : System ι F} {i : ι} {c : HttpConn} {sched : Sched.State F} {now : ℤ} {t : TaskRef}
      (r : Reply) (p : Processed) :
      s.stage i = .asking c now t → Sched.Step cfg w s.sched (.reply t r) sched →
      c.process (svc i) now (s.sched.found t) = .ok p →
      Step cfg w svc s (.answer i t)
        ({ s with sched := sched }.move i (.processed (s.sched.found t) p))
  | write {s : System ι F} {i : ι} {v : Option (Verdict F)} {p : Processed} {x x' : Sending}
      {e : WriteEvent} :
      s.stage i = .sending v p x → WriteStep x e x' →
      Step cfg w svc s (.write i e) (s.wrote i v p x')
  -- the end of `close_conn`
  | forget {s : System ι F} {i : ι} :
      s.stage i = .closing → Step cfg w svc s (.forget i) (s.move i .gone)
  -- the timer, an error or the end of the client
  | drop {s : System ι F} {i : ι} :
      (s.stage i).Free → Step cfg w svc s (.drop i) (s.move i .gone)
  -- `cb_func` closes a connection in the queue or with a worker, or `accept` returns a descriptor
  -- that `close_conn` has closed and not yet forgotten: the slot has two owners
  | cross {s s' : System ι F} {i : ι} :
      s.stage i ≠ .gone → s.stage i ≠ .closed → Step cfg w svc s (.cross i) s'
  -- the scheduler side reads or writes through a dangling pointer
  | dangle {s s' : System ι F} {e : Sched.Event} {sched : Sched.State F} {t : TaskRef} :
      Sched.Step cfg w s.sched e sched → e.touched = some t → ¬ s.sched.alive t →
      Step cfg w svc s (.dangle e) s'

/-- Steps that may not happen if every answer is to come home: a slot gets two owners, or a worker
leaves the scheduler behind. -/
def Careful (s : System ι F) : Event ι → Prop
  | .sched e => s.sched.Waits e
  | .answer _ t => t ∉ s.sched.owing
  | .cross _ => False
  | _ => True

/-- The steps that may happen. -/
abbrev CarefulStep [DecidableEq ι] (cfg : Config) (w : World F) (svc : ι → Service F) :=
  Guarded (Step cfg w svc) Careful

/-! ### What each connection has done -/

/-- The connection has come to `c` with the chunks and what was served, and waits for more: whatever
it does from there ends a run from the beginning. -/
structure Leads (svc : Service F) (chunks : List Bytes) (log : List (Served F)) (c : HttpConn) :
    Prop where
  waiting : ∃ b, Waiting b c
  run : ∀ qs log' d, KeepAlive svc c qs log' d →
    KeepAlive svc (fresh readBufferSize) (chunks ++ qs) (log ++ log') d

/-- The last chunk has arrived and is not answered. -/
inductive Heard (svc : Service F) : List Bytes → List (Served F) → HttpConn → Prop
  | mk {before : List Bytes} {log : List (Served F)} {c : HttpConn} {q : Bytes} :
      Leads svc before log c → (c.append q).Fits → Heard svc (before ++ [q]) log (c.append q)

/-- An answer tells the fate of what the request asks for. -/
def Tells (cfg : Config) (w : World F) (svc : Service F) (e : Served F) : Prop :=
  e.code = .jsonResponse → ∀ (d : HttpConn) (now : ℤ) (task : InferenceTask F),
    d.request = e.request → d.asks svc now = some task →
    Fate cfg w task.toInput e.scheduler

section Connection

variable {cfg : Config} {w : World F} {svc : Service F} {chunks : List Bytes}
  {log : List (Served F)} {c : HttpConn} {now : ℤ} {v : Option (Verdict F)} {p : Processed}

theorem Leads.refl : Leads svc [] [] (fresh readBufferSize) :=
  ⟨⟨_, waiting_init rfl⟩, fun _ _ _ h => h⟩

/-- A response is ready if there is one. -/
theorem Heard.ready (h : Heard svc chunks log c) (hp : c.process svc now v = .ok p)
    (hwritten : p.written = true) : Ready p := by
  obtain ⟨⟨⟨b, hwaiting⟩, -⟩, hfits⟩ := h
  rcases hwaiting.process hfits hp with ⟨hno, -⟩ | hready
  · rw [hno] at hwritten
    cases hwritten
  · exact hready

/-- A chunk that is not the end of a request. -/
theorem Heard.more (h : Heard svc chunks log c) (hp : c.process svc now v = .ok p)
    (hcode : p.code = .noRequest) : Leads svc chunks log p.conn := by
  obtain ⟨⟨⟨b, hwaiting⟩, hleads⟩, hfits⟩ := h
  constructor
  · rcases hwaiting.process hfits hp with ⟨-, hnext⟩ | hready
    · exact ⟨_, hnext⟩
    · rcases hready.code with h | h | h | h | h <;> cases hcode.symm.trans h
  · intro qs log' d hrest
    rw [List.append_assoc]
    exact hleads _ _ _ (.more hfits hp hcode hrest)

/-- A response that keeps the connection. -/
theorem Heard.kept {evs : List WriteEvent} {x : Sending} (h : Heard svc chunks log c)
    (hp : c.process svc now v = .ok p) (hwritten : p.written = true)
    (hsend : Run WriteStep (.start p.conn) evs x) (hphase : x.phase = .finished true) :
    Leads svc chunks (log ++ [p.served v x.wire]) x.conn := by
  obtain ⟨⟨-, hleads⟩, hfits⟩ := h
  constructor
  · have hfresh := writeEnd_run hsend
    rw [WriteEnd, hphase] at hfresh
    exact ⟨[], waiting_init hfresh⟩
  · intro qs log' d hrest
    rw [List.append_assoc, List.append_assoc]
    exact hleads _ _ _ (.kept hfits hp hwritten hsend hphase hrest)

/-- A response that ends it. -/
theorem Heard.closed {evs : List WriteEvent} {x : Sending} (h : Heard svc chunks log c)
    (hp : c.process svc now v = .ok p) (hwritten : p.written = true)
    (hsend : Run WriteStep (.start p.conn) evs x) (hphase : x.phase = .finished false) :
    KeepAlive svc (fresh readBufferSize) chunks (log ++ [p.served v x.wire]) x.conn := by
  obtain ⟨⟨-, hleads⟩, hfits⟩ := h
  exact hleads _ _ _ (.closed hfits hp hwritten hsend hphase)

/-- What `process` answers with the fate of its task tells the fate of all that ask for the same. -/
theorem tells_served (hp : c.process svc now v = .ok p)
    (hfate : ∀ task, c.taskOf svc now = some task → Fate cfg w task.toInput v) (wire : Bytes) :
    Tells cfg w svc (p.served v wire) := by
  intro hcode d now' task hreq hasks
  obtain ⟨d', hread, hreq'⟩ := process_request hp hcode
  have hsame : (d.asks svc now').map InferenceTask.toInput =
      (d'.asks svc now).map InferenceTask.toInput := asks_congr (hreq.trans hreq') now' now
  rw [hasks, Option.map_some] at hsame
  obtain ⟨task', htask', hinput⟩ := Option.map_eq_some_iff.1 hsame.symm
  rw [← hinput]
  refine hfate task' ?_
  unfold taskOf
  rw [hread]
  exact htask'

end Connection

/-- What is known of a connection at each stage. -/
def Stage.Ok (cfg : Config) (w : World F) (svc : Service F) (sched : Sched.State F)
    (chunks : List Bytes) (log : List (Served F)) : Stage F → Prop
  | .gone | .closing => True
  | .reading c => Leads svc chunks log c
  | .holding c => Heard svc chunks log c
  | .asking c now t => Heard svc chunks log c ∧ sched.calls t ≠ .absent ∧
      ∃ task, c.taskOf svc now = some task ∧ task.toInput = (sched.tasks t).toInput
  | .sending v p x => Tells cfg w svc (p.served v x.wire) ∧ ∃ c now evs,
      Heard svc chunks log c ∧ c.process svc now v = .ok p ∧ p.written = true ∧
        Run WriteStep (.start p.conn) evs x
  | .closed => ∃ d, KeepAlive svc (fresh readBufferSize) chunks log d

/-- **The invariant**: the scheduler has a run of its own in which no worker leaves early, each
connection has a run, and each answer tells the fate of what was asked for. -/
structure System.Ok (cfg : Config) (w : World F) (svc : ι → Service F) (s : System ι F) : Prop where
  runs : ∃ evs, Sched.PatientRuns cfg w evs s.sched
  stage : ∀ i, (s.stage i).Ok cfg w (svc i) s.sched (s.chunks i) (s.log i)
  tells : ∀ i, ∀ e ∈ s.log i, Tells cfg w (svc i) e

section Steps

variable {cfg : Config} {w : World F} {svc : Service F} {sched sched' : Sched.State F}
  {chunks : List Bytes} {log : List (Served F)} {c : HttpConn} {now : ℤ} {v : Option (Verdict F)}
  {p : Processed}

/-- The scheduler does not disturb a connection. -/
theorem Stage.Ok.frame {e : Sched.Event} {stage : Stage F}
    (h : stage.Ok cfg w svc sched chunks log) (hs : Sched.Step cfg w sched e sched') :
    stage.Ok cfg w svc sched' chunks log := by
  cases stage with
  | asking c now t =>
      obtain ⟨hheard, hthere, task, htask, hinput⟩ := h
      obtain ⟨hthere', hinput'⟩ := hs.toInput hthere
      exact ⟨hheard, hthere', task, htask, hinput.trans hinput'.symm⟩
  | _ => exact h

/-- The end of `process`. -/
theorem Stage.ok_processed (h : Heard svc chunks log c) (hp : c.process svc now v = .ok p)
    (hfate : ∀ task, c.taskOf svc now = some task → Fate cfg w task.toInput v) :
    (Stage.processed v p).Ok cfg w svc sched chunks log := by
  unfold Stage.processed
  split
  · next hwritten =>
      exact ⟨tells_served hp hfate _, c, now, [], h, hp, hwritten, .nil⟩
  · next hwritten =>
      have hcode := (process_written hp).resolve_left hwritten
      rw [if_pos hcode]
      exact h.more hp hcode

end Steps

section Runs

variable {cfg : Config} {w : World F} {svc : ι → Service F} {s s' : System ι F}
  {e : Event ι}

theorem System.ok_init : System.Ok cfg w svc {} where
  runs := ⟨[], .nil⟩
  stage _ := trivial
  tells _ e he := (by cases he)

variable [DecidableEq ι]

/-- A step of one connection, or of one and the scheduler. -/
theorem System.Ok.step {i : ι} {sched : Sched.State F} {stage : Stage F} {chunks : List Bytes}
    {log : List (Served F)} (h : s.Ok cfg w svc) (hruns : ∃ evs, Sched.PatientRuns cfg w evs sched)
    (hframe : ∀ j, (s.stage j).Ok cfg w (svc j) sched (s.chunks j) (s.log j))
    (hstage : stage.Ok cfg w (svc i) sched chunks log)
    (htells : ∀ e ∈ log, Tells cfg w (svc i) e) :
    System.Ok cfg w svc
      { sched := sched, stage := Function.update s.stage i stage,
        chunks := Function.update s.chunks i chunks, log := Function.update s.log i log } where
  runs := hruns
  stage j := by
    rcases eq_or_ne j i with rfl | hj
    · simpa using hstage
    · simpa [Function.update_of_ne hj] using hframe j
  tells j e he := by
    rcases eq_or_ne j i with rfl | hj
    · exact htells e (by simpa using he)
    · exact h.tells j e (by simpa [Function.update_of_ne hj] using he)

/-- A step of `write`. -/
theorem System.Ok.wrote {i : ι} {v : Option (Verdict F)} {p : Processed} {x x' : Sending}
    {e : WriteEvent} (h : s.Ok cfg w svc) (hi : s.stage i = .sending v p x)
    (hs : WriteStep x e x') : (s.wrote i v p x').Ok cfg w svc := by
  have hstage := h.stage i
  rw [hi] at hstage
  obtain ⟨htells, c, now, evs, hheard, hp, hwritten, hrun⟩ := hstage
  have hrun' := hrun.snoc hs
  have hlog : ∀ e ∈ s.log i ++ [p.served v x'.wire], Tells cfg w (svc i) e := by
    intro e he
    rcases List.mem_append.1 he with he | he
    · exact h.tells i e he
    · rw [List.mem_singleton.1 he]
      exact htells
  have hmoved : ∀ stage : Stage F,
      stage.Ok cfg w (svc i) s.sched (s.chunks i) (s.log i) → (s.move i stage).Ok cfg w svc := by
    intro stage hok
    have := h.step h.runs h.stage hok (h.tells i)
    rwa [Function.update_eq_self, Function.update_eq_self] at this
  have hserved : ∀ stage : Stage F,
      stage.Ok cfg w (svc i) s.sched (s.chunks i) (s.log i ++ [p.served v x'.wire]) →
      ((s.serve i (p.served v x'.wire)).move i stage).Ok cfg w svc := by
    intro stage hok
    have := h.step h.runs h.stage hok hlog
    rwa [Function.update_eq_self] at this
  unfold System.wrote
  split
  · exact hmoved _ ⟨htells, c, now, _, hheard, hp, hwritten, hrun'⟩
  · exact hmoved _ ⟨htells, c, now, _, hheard, hp, hwritten, hrun'⟩
  · next hphase => exact hserved _ (hheard.kept hp hwritten hrun' hphase)
  · next hphase => exact hserved _ ⟨_, hheard.closed hp hwritten hrun' hphase⟩
  · exact hmoved _ trivial

/-- A new connection has a run without chunks. -/
theorem System.Ok.accept (h : s.Ok cfg w svc) (i : ι) : (s.accept i).Ok cfg w svc := by
  have hnew : (Stage.reading (fresh readBufferSize) : Stage F).Ok cfg w (svc i) s.sched [] [] :=
    .refl
  exact h.step h.runs h.stage hnew fun _ he => by cases he

/-- What a connection does without bytes and answers. -/
theorem System.Ok.move {i : ι} {stage : Stage F} (h : s.Ok cfg w svc)
    (hstage : stage.Ok cfg w (svc i) s.sched (s.chunks i) (s.log i)) :
    (s.move i stage).Ok cfg w svc := by
  have := h.step h.runs h.stage hstage (h.tells i)
  rwa [Function.update_eq_self, Function.update_eq_self] at this

/-- **Every careful step keeps the invariant.** -/
theorem Step.ok (hs : Step cfg w svc s e s') (hg : Careful s e) (h : s.Ok cfg w svc) :
    s'.Ok cfg w svc := by
  cases hs with
  | accept _ => exact h.accept _
  | @read i c q hi hfits =>
      have hstage := h.stage i
      rw [hi] at hstage
      have hok : (Stage.holding (c.append q) : Stage F).Ok cfg w (svc i) s.sched
          (s.chunks i ++ [q]) (s.log i) := Heard.mk hstage hfits
      have := h.step h.runs h.stage hok (h.tells i)
      rwa [Function.update_eq_self] at this
  | @process i c now p hi htask hp =>
      have hstage := h.stage i
      rw [hi] at hstage
      refine h.move (Stage.ok_processed hstage hp fun task htask' => ?_)
      rw [htask] at htask'
      cases htask'
  | @ask i c sched now t hi hs htask =>
      obtain ⟨evs, hr⟩ := h.runs
      have hstage := h.stage i
      rw [hi] at hstage
      have hok : (Stage.asking c now t).Ok cfg w (svc i) sched (s.chunks i) (s.log i) :=
        ⟨hstage, by simp [hs.construct.2], _, htask, rfl⟩
      have := h.step ⟨_, hr.snoc ⟨hs, trivial⟩⟩ (fun j => (h.stage j).frame hs) hok (h.tells i)
      rwa [Function.update_eq_self, Function.update_eq_self] at this
  | sched _ _ hs _ =>
      obtain ⟨evs, hr⟩ := h.runs
      exact ⟨⟨_, hr.snoc ⟨hs, hg⟩⟩, fun j => (h.stage j).frame hs, h.tells⟩
  | @answer i c sched now t r p hi hs hp =>
      obtain ⟨evs, hr⟩ := h.runs
      have hstage := h.stage i
      rw [hi] at hstage
      obtain ⟨hheard, -, task, htask, hinput⟩ := hstage
      have hfate : ∀ task', c.taskOf (svc i) now = some task' →
          Fate cfg w task'.toInput (s.sched.found t) := by
        intro task' htask'
        obtain rfl := Option.some.inj (htask.symm.trans htask')
        rw [hinput]
        exact Sched.Runs.fate hr.of_guarded hs
      have hok : (Stage.processed (s.sched.found t) p).Ok cfg w (svc i) sched (s.chunks i)
          (s.log i) := Stage.ok_processed hheard hp hfate
      have := h.step ⟨_, hr.snoc ⟨hs, hg⟩⟩ (fun j => (h.stage j).frame hs) hok (h.tells i)
      rwa [Function.update_eq_self, Function.update_eq_self] at this
  | write hi hs => exact h.wrote hi hs
  | forget _ | drop _ => exact h.move trivial
  | cross => exact hg.elim
  | dangle hs ht hdead =>
      obtain ⟨evs, hr⟩ := h.runs
      exact absurd (hr.alive hs ht) hdead

theorem System.ok_run {evs : List (Event ι)} (hr : Run (CarefulStep cfg w svc) {} evs s) :
    s.Ok cfg w svc :=
  hr.invariant_state (P := fun s => s.Ok cfg w svc) System.ok_init
    fun _ _ _ h hs => hs.1.ok hs.2 h

/-- The connection waits for a request, or has been closed behind a response. -/
def System.Idle (s : System ι F) (i : ι) : Prop :=
  match s.stage i with
  | .reading _ | .closed => True
  | _ => False

omit [DecidableEq ι] in
theorem System.idle_of_stage {i : ι} {c : HttpConn} {k : Bool}
    (h : s.stage i = if k then .reading c else .closed) : s.Idle i := by
  unfold System.Idle
  rw [h]
  cases k <;> trivial

omit [DecidableEq ι] in
/-- **An idle connection has a run of its own.** -/
theorem System.Ok.keepAlive (h : s.Ok cfg w svc) {i : ι} (hidle : s.Idle i) :
    ∃ d, KeepAlive (svc i) (fresh readBufferSize) (s.chunks i) (s.log i) d := by
  have hstage := h.stage i
  unfold System.Idle at hidle
  cases hi : s.stage i with
  | reading c =>
      rw [hi] at hstage
      have hrun := hstage.run [] [] c .done
      rw [List.append_nil, List.append_nil] at hrun
      exact ⟨c, hrun⟩
  | closed =>
      rw [hi] at hstage
      exact hstage
  | gone | holding | asking | sending | closing =>
      rw [hi] at hidle
      cases hidle

/-! ### Runs of the parts -/

/-- The careful steps of the scheduler that are not those of `do_request` itself. -/
def Apart (s : Sched.State F) (e : Sched.Event) : Prop :=
  (∀ t, e ≠ .construct t) ∧ (∀ t r, e ≠ .reply t r) ∧ s.Waits e

/-- A run of the scheduler is a run of the system. -/
theorem run_sched {before evs : List Sched.Event} {sched : Sched.State F}
    (hr : Sched.PatientRuns cfg w before s.sched)
    (h : Run (Guarded (Sched.Step cfg w) Apart) s.sched evs sched) :
    Run (CarefulStep cfg w svc) s (evs.map .sched) { s with sched := sched } := by
  induction h with
  | nil => exact .nil
  | @snoc evs sched sched' e hrun hs ih =>
      have hpatient : Sched.PatientRuns cfg w (before ++ evs) sched :=
        hr.trans (hrun.mono fun _ _ _ hs => ⟨hs.1, hs.2.2.2⟩)
      have halive : ∀ t, e.touched = some t → sched.alive t := fun _ ht =>
        hpatient.alive hs.1 ht
      rw [List.map_append]
      exact ih.snoc ⟨.sched hs.2.1 hs.2.2.1 hs.1 halive, hs.2.2.2⟩

/-- A run of `write` is a run of the system. -/
theorem run_write {i : ι} {v : Option (Verdict F)} {p : Processed} {x : Sending}
    {evs : List WriteEvent} (hi : s.stage i = .sending v p (.start p.conn))
    (h : Run WriteStep (.start p.conn) evs x) :
    Run (CarefulStep cfg w svc) s (evs.map (.write i)) (s.wrote i v p x) := by
  induction h with
  | nil =>
      have hsame : s.wrote i v p (.start p.conn) = s := by
        change s.move i (.sending v p (.start p.conn)) = s
        rw [← hi, System.move, Function.update_eq_self]
      rw [hsame]
      exact .nil
  | @snoc evs x x' e _ hs ih =>
      rw [List.map_append]
      have hphase : x.phase = .waiting ∨ x.phase = .sending := by
        cases hs with
        | call h | callDone h => exact .inl h
        | sent h | again h | failed h => exact .inr h
      have hwrote : s.wrote i v p x = s.move i (.sending v p x) := by
        unfold System.wrote
        rcases hphase with h | h <;> rw [h]
      rw [hwrote] at ih
      have hat : (s.move i (.sending v p x)).stage i = .sending v p x := by simp
      have hstep : Step cfg w svc _ _ _ := .write hat hs
      have hend : (s.move i (.sending v p x)).wrote i v p x' = s.wrote i v p x' := by
        unfold System.wrote
        split <;> simp [System.move, System.serve]
      rw [hend] at hstep
      exact ih.snoc ⟨hstep, trivial⟩

/-- A part of a request that is not its end. -/
theorem run_more {i : ι} {c : HttpConn} {b q : Bytes} (r : InferRequest) {rest : Bytes}
    (hi : s.stage i = .reading c) (hw : Waiting b c) (hsplit : b ++ q ++ rest = r.text)
    (hrest : rest ≠ []) : ∃ d, Waiting (b ++ q) d ∧ Run (CarefulStep cfg w svc) s
      [.read i q, .process i] ((s.hear i q).move i (.reading d)) := by
  obtain ⟨e₀, he₀⟩ := r.part r.fits hsplit hrest
  have hlen : b.length + q.length ≤ readBufferSize := by
    have hall := congrArg List.length hsplit
    rw [List.length_append, List.length_append] at hall
    have := r.fits
    omega
  obtain ⟨hf, d, hread, -⟩ := hw.read hlen he₀
  have hkeep : Step cfg w svc s (.read i q) _ := .read q hi hf
  have hnone : (c.append q).taskOf (svc i) 0 = none := by
    unfold taskOf
    rw [hread]
  have hprocess : Step cfg w svc _ (.process i) _ :=
    .process (s := (s.hear i q).move i (.holding (c.append q))) 0 _ (Function.update_self i _ _)
      hnone (process_noRequest hread)
  have hrun : Run (CarefulStep cfg w svc) s _ _ :=
    (Run.nil.snoc ⟨hkeep, trivial⟩).snoc ⟨hprocess, trivial⟩
  refine ⟨d, (hw.step hf hread).2.2.2 rfl, ?_⟩
  have hend : ((s.hear i q).move i (.holding (c.append q))).move i
      (Stage.processed none { code := .noRequest, written := false, conn := d }) =
        (s.hear i q).move i (.reading d) := by
    simp [System.move, Stage.processed]
  rwa [hend] at hrun

/-- The request has been read and nothing has been answered to it. -/
def HasRead (r : InferRequest) (c : HttpConn) : Prop :=
  ∃ d, c.processRead = .ok (.getRequest, d) ∧ d.request = r.request ∧
    d.core.output = (fresh readBufferSize).output

/-- **A request asks for its task** in the end of a run, in whatever parts it comes. -/
theorem run_ask {s₀ : System ι F} {evs : List (Event ι)} (r : InferRequest) {value : Bytes → F}
    {i : ι} {c : HttpConn} {b : Bytes} {parts : List Bytes} {now : ℤ} {t : TaskRef}
    {sched : Sched.State F} (hr : Run (CarefulStep cfg w svc) s₀ evs s)
    (hi : s.stage i = .reading c) (hw : Waiting b c) (hinit : (svc i).initialized = true)
    (hvalue : (svc i).ofText = strtof value) (hsplit : b ++ parts.flatten = r.text)
    (hsome : parts ≠ []) (hne : ∀ q ∈ parts, q ≠ [])
    (hs : Sched.Step cfg w s.sched (.construct t) sched)
    (htask : sched.tasks t = r.task value (svc i) now) :
    ∃ evs' c', HasRead r c' ∧ Run (CarefulStep cfg w svc) s₀ evs'
      { sched := sched
        stage := Function.update s.stage i (.asking c' now t)
        chunks := Function.update s.chunks i (s.chunks i ++ parts)
        log := s.log } := by
  induction parts generalizing s c b evs with
  | nil => exact absurd rfl hsome
  | cons q qs ih =>
      rw [List.flatten_cons, ← List.append_assoc] at hsplit
      by_cases hrest : qs.flatten = []
      · -- the last part
        have hqs : qs = [] := List.eq_nil_iff_forall_not_mem.2 fun x hx =>
          hne x (List.mem_cons_of_mem _ hx) (List.flatten_eq_nil_iff.1 hrest x hx)
        subst hqs
        rw [List.flatten_nil, List.append_nil] at hsplit
        obtain ⟨d₀, hread₀, hreq₀, -⟩ := r.read r.fits (by decide)
        have hlen : b.length + q.length ≤ readBufferSize := by
          rw [← List.length_append, hsplit]
          exact r.fits.le
        obtain ⟨hf, d, hread, hcore⟩ := hw.read hlen (by rw [hsplit]; exact hread₀)
        have hreq : d.request = r.request := (congrArg HttpConn.request hcore).trans hreq₀
        have htaskOf : (c.append q).taskOf (svc i) now = some (sched.tasks t) := by
          unfold taskOf
          rw [hread, htask]
          exact r.asks hinit hvalue now hreq
        have hkeep : Step cfg w svc s (.read i q) _ := .read q hi hf
        have hask : Step cfg w svc _ (.ask i t) _ :=
          .ask (s := (s.hear i q).move i (.holding (c.append q))) now t
            (Function.update_self i _ _) hs htaskOf
        have hrun := (hr.snoc ⟨hkeep, trivial⟩).snoc ⟨hask, trivial⟩
        simp only [System.move, System.hear, Function.update_idem] at hrun
        exact ⟨_, c.append q, ⟨d, hread, hreq, (hw.step hf hread).2.2.1⟩, hrun⟩
      · obtain ⟨d, hw', hrun⟩ := run_more r hi hw hsplit hrest
        obtain ⟨evs', c', hread, hrun'⟩ := ih (hr.trans hrun) (Function.update_self i _ _) hw'
          hsplit (fun hnil => hrest (by rw [hnil]; rfl))
          (fun x hx => hne x (List.mem_cons_of_mem _ hx)) hs
        simp only [System.move, System.hear, Function.update_idem, Function.update_self,
          List.append_assoc, List.singleton_append] at hrun'
        exact ⟨evs', c', hread, hrun'⟩

variable (svc) in
/-- **A task that comes back is answered**, if the client takes the response. -/
theorem run_answer {i : ι} {c : HttpConn} {now : ℤ} {t : TaskRef} {sched : Sched.State F}
    {r : Reply} {p : Processed} {evs : List WriteEvent} {x : Sending} {k : Bool}
    (hi : s.stage i = .asking c now t) (hs : Sched.Step cfg w s.sched (.reply t r) sched)
    (howing : t ∉ s.sched.owing) (hp : c.process (svc i) now (s.sched.found t) = .ok p)
    (hwritten : p.written = true) (hsend : Run WriteStep (.start p.conn) evs x)
    (hphase : x.phase = .finished k) :
    Run (CarefulStep cfg w svc) s (.answer i t :: evs.map (.write i))
      { sched := sched
        stage := Function.update s.stage i (if k then .reading x.conn else .closed)
        chunks := s.chunks
        log := Function.update s.log i (s.log i ++ [p.served (s.sched.found t) x.wire]) } := by
  have hanswer : Run (CarefulStep cfg w svc) s [.answer i t]
      ({ s with sched := sched }.move i (.processed (s.sched.found t) p)) :=
    .single ⟨.answer r p hi hs hp, howing⟩
  have hat : ({ s with sched := sched }.move i (.processed (s.sched.found t) p)).stage i =
      .sending (s.sched.found t) p (.start p.conn) := by
    simp [Stage.processed, hwritten]
  have hwrite := hanswer.trans (run_write hat hsend)
  have hend : ({ s with sched := sched }.move i (.processed (s.sched.found t) p)).wrote i
      (s.sched.found t) p x =
        { sched := sched
          stage := Function.update s.stage i (if k then .reading x.conn else .closed)
          chunks := s.chunks
          log := Function.update s.log i (s.log i ++ [p.served (s.sched.found t) x.wire]) } := by
    unfold System.wrote
    rw [hphase]
    cases k <;> simp [System.move, System.serve]
  rwa [hend] at hwrite

/-- **A request whose task comes back is answered**, and its connection waits for the next one. -/
theorem run_reply {cfg : Config} {w : World Single} (svc : ι → Service Single)
    {s₀ s : System ι Single} {evs : List (Event ι)} (r : InferRequest) {value : Bytes → Single}
    {i : ι} {c : HttpConn} {now : ℤ} {t : TaskRef} {reply : Reply} {sched : Sched.State Single}
    (hr : Run (CarefulStep cfg w fun i => (svc i).onFloats) s₀ evs s)
    (hi : s.stage i = .asking c now t) (hread : HasRead r c) (hinit : (svc i).initialized = true)
    (hvalue : (svc i).ofText = strtof value)
    (hs : Sched.Step cfg w s.sched (.reply t reply) sched) (howing : t ∉ s.sched.owing) :
    ∃ evs' x e, x.core = fresh readBufferSize ∧ e.scheduler = s.sched.found t ∧
      e.response = (Message.answer true (replyTo r.name (s.sched.found t)).status
        (replyTo r.name (s.sched.found t)).body).text ∧
      Run (CarefulStep cfg w fun i => (svc i).onFloats) s₀ evs'
        { sched := sched
          stage := Function.update s.stage i (.reading x)
          chunks := s.chunks
          log := Function.update s.log i (s.log i ++ [e]) } := by
  obtain ⟨d, hread, hreq, hout⟩ := hread
  obtain ⟨p, hp, hwritten, hprep, hlinger, htext⟩ :=
    r.replies hinit hvalue now (s.sched.found t) hread hreq hout
  obtain ⟨wevs, x, hsend, hphase⟩ := sent_whole hprep hlinger
  have hfresh := writeEnd_run hsend
  rw [WriteEnd, hphase] at hfresh
  have htrack := Sending.tracked_run hprep hsend
  rw [Sending.Tracked, hphase] at htrack
  exact ⟨_, x.conn, p.served (s.sched.found t) x.wire, hfresh, rfl, htrack.1.trans htext,
    hr.trans (run_answer (fun i => (svc i).onFloats) hi hs howing hp hwritten hsend hphase)⟩

end Runs

/-! ### Main result -/

/-- **Each client reads the fate of its own numbers.**  Any number of connections share the
scheduler, and the lines of all threads are interleaved in any way.  When a connection is idle and
requests for inferences have arrived on it in chunks that keep them apart, its client has one
message for each of them, in their order, and the message tells that the queue was full, that the
time was over, or what the engine has given for the model and the numbers of this request.  If the
engine works on the inputs one by one, an output is what it makes of these numbers. -/
theorem own_answers [DecidableEq ι] {cfg : Config} {w : World Single}
    (svc : ι → Service Single) {i : ι} {value : Bytes → Single} (hinit : (svc i).initialized = true)
    (hvalue : (svc i).ofText = strtof value) {evs : List (Event ι)} {s : System ι Single}
    (hr : Run (CarefulStep cfg w fun i => (svc i).onFloats) {} evs s) (hidle : s.Idle i)
    {requests : List InferRequest}
    (hsent : (s.chunks i).flatten = (requests.map fun r => r.text).flatten)
    (haligned : Aligned (requests.map fun r => r.text) (s.chunks i))
    (hlen : ∀ e ∈ s.log i, (e.response.length : ℤ) ≤ CString.LONG_MAX) {pieces : List Bytes}
    (hpieces : pieces.flatten = (s.log i).flatMap Served.response) :
    ∃ ms, Message.code.receive pieces = (ms, []) ∧ requests.length = (s.log i).length ∧
      List.Forall₂ (fun x m => RoundTrip value (svc i) x.1 x.2 m ∧
        Fate cfg w (x.1.toInput value) x.2.scheduler ∧
        ∀ g, w.RowWise g → ∀ output, x.2.scheduler = some (.succeeded output) →
          output = (g (x.1.toInput value)).data) (requests.zip (s.log i)) ms := by
  have hinit' : (svc i).onFloats.initialized = true := hinit
  have hvalue' : (svc i).onFloats.ofText = strtof value := hvalue
  have hok := System.ok_run hr
  obtain ⟨d, hrun⟩ := hok.keepAlive hidle
  obtain ⟨ms, hms, hlength, hall⟩ := hrun.answers hinit hvalue hsent haligned hlen hpieces
  refine ⟨ms, hms, hlength, ?_⟩
  rw [List.forall₂_iff_zip] at hall ⊢
  refine ⟨hall.1, fun {x m} hmem => ?_⟩
  obtain ⟨r, e⟩ := x
  obtain ⟨halone, htrip⟩ := hall.2 hmem
  have he : e ∈ s.log i := (List.of_mem_zip (List.of_mem_zip hmem).1).2
  obtain ⟨hcode, hreq⟩ := r.served hinit' hvalue' halone
  obtain ⟨c, -, hread, -⟩ := r.read r.fits (by decide)
  have hfate : Fate cfg w (r.toInput value) e.scheduler :=
    hok.tells i e he hcode c 0 _ (hread.trans hreq.symm) (r.asks hinit' hvalue' 0 hread)
  refine ⟨htrip, hfate, fun g hg output hout => ?_⟩
  dsimp only at hout
  rw [hout] at hfate
  cases hfate with
  | succeeded hgave => exact hg.gave hgave

/-! ### Two connections -/

/-- An engine that gives back what it gets. -/
def echoWorld : World Single where
  inferBatch inputs results :=
    results = inputs.map fun input => { data := input.data, success := true }
  throws _ := False
  createFails := False
  printF := CString.printF

instance : DecidableRel echoWorld.inferBatch := fun inputs results =>
  inferInstanceAs (Decidable (results = inputs.map fun input =>
    { data := input.data, success := true }))

/-- Where a script leads from a state of the scheduler. -/
def onward (s : Sched.State Single) (script : List (Sched.Action Single)) : Sched.State Single :=
  ((replay (Sched.act { maxConcurrentBatches_pos := one_le_two } echoWorld) s script).map
    Prod.snd).getD s

/-- The actions that are neither a construction nor a reply, and no timeout. -/
def apart (_ : Sched.State Single) : Sched.Event → Sched.State Single → Bool
  | .construct _, _ | .reply .., _ | .etimedout _, _ => false
  | _, _ => true

/-- One action. -/
theorem onward_step {s : Sched.State Single} {a : Sched.Action Single} {e : Sched.Event}
    (hown : s.OwnStorage) (h : (Sched.act {} echoWorld s a).map Prod.fst = some e) :
    Sched.Step {} echoWorld s e (onward s [a]) ∧ (onward s [a]).OwnStorage := by
  obtain ⟨⟨e', s'⟩, ha, rfl⟩ := Option.map_eq_some_iff.1 h
  have hend : onward s [a] = s' := by
    unfold onward replay
    rw [ha]
    rfl
  rw [hend]
  exact ⟨Sched.act_step hown ha, Sched.act_ownStorage hown ha⟩

/-- A script that passes the test. -/
theorem onward_run {s : Sched.State Single} {script : List (Sched.Action Single)}
    (hown : s.OwnStorage)
    (h : (replay (Sched.actIf {} echoWorld apart) s script).isSome = true) :
    (∃ evs, Run (Guarded (Sched.Step {} echoWorld) Apart) s evs (onward s script)) ∧
      (onward s script).OwnStorage := by
  obtain ⟨⟨evs, s'⟩, hr⟩ := Option.isSome_iff_exists.1 h
  have hend : onward s script = s' := by
    unfold onward
    rw [Sched.replay_act_of_actIf hr]
    rfl
  rw [hend]
  have hapart : ∀ s e s', Sched.Step {} echoWorld s e s' → apart s e s' = true →
      Guarded (Sched.Step {} echoWorld) Apart s e s' := by
    intro s e s' hs hok
    refine ⟨hs, ?_, ?_, ?_⟩
    · rintro t rfl
      cases hok
    · rintro t r rfl
      cases hok
    · cases e with
      | etimedout | reply => cases hok
      | _ => trivial
  obtain ⟨hrun, hown'⟩ := Sched.Run.of_actIf {} echoWorld apart hapart hown hr
  exact ⟨⟨evs, hrun⟩, hown'⟩

/-- The numbers one and two. -/
def one : Single := smallValue []

/-- The task of `noteRequest` or of `pairRequest` is built. -/
def buildNote (t : TaskRef) : Sched.Action Single := .construct t (ascii "m") [one] 1 30 5

def buildPair (t : TaskRef) : Sched.Action Single := .construct t (ascii "n") [two, one] 1 30 5

/-- Tasks 0 and 1 are accepted, collected together and given to the engine. -/
def serveBoth : List (Sched.Action Single) :=
  [.enqueue 0 0, .worker 0, .worker 0, .enqueue 1 0, .worker 1] ++
    List.replicate 29 (.run 0) ++ List.replicate 4 (.exec 0 []) ++
    [.exec 0 [{ data := [one], success := true }, { data := [two, one], success := true }]] ++
    List.replicate 9 (.exec 0 []) ++ [.wake 0, .worker 0, .worker 1]

/-- Task 2 is served alone. -/
def serveThird : List (Sched.Action Single) :=
  [.enqueue 2 0, .worker 2] ++ List.replicate 26 (.run 0) ++ List.replicate 3 (.exec 1 []) ++
    [.exec 1 [{ data := [two, one], success := true }]] ++ List.replicate 6 (.exec 1 []) ++
    [.worker 2]

/-- The scheduler behind its start and each of its meetings with a connection, and before the
next. -/
def sched₀ := onward .init [.start]

def sched₁ := onward sched₀ [buildNote 0]

def sched₂ := onward sched₁ [buildPair 1]

def sched₃ := onward sched₂ serveBoth

def sched₄ := onward sched₃ [.worker 0]

def sched₅ := onward sched₄ [.worker 1]

def sched₆ := onward sched₅ [buildPair 2]

def sched₇ := onward sched₆ serveThird

def sched₈ := onward sched₇ [.worker 2]

theorem sched₀_run : (∃ evs, Run (Guarded (Sched.Step {} echoWorld) Apart) .init evs sched₀) ∧
    sched₀.OwnStorage :=
  onward_run Sched.ownStorage_init (by decide +kernel)

theorem sched₁_step : Sched.Step {} echoWorld sched₀ (.construct 0) sched₁ ∧ sched₁.OwnStorage :=
  onward_step sched₀_run.2 (by decide +kernel)

theorem sched₂_step : Sched.Step {} echoWorld sched₁ (.construct 1) sched₂ ∧ sched₂.OwnStorage :=
  onward_step sched₁_step.2 (by decide +kernel)

theorem sched₃_run : (∃ evs, Run (Guarded (Sched.Step {} echoWorld) Apart) sched₂ evs sched₃) ∧
    sched₃.OwnStorage :=
  onward_run sched₂_step.2 (by decide +kernel)

theorem sched₄_step : Sched.Step {} echoWorld sched₃
    (.reply 0 (replyTo (ascii "m") (some (.succeeded [one])))) sched₄ ∧ sched₄.OwnStorage :=
  onward_step sched₃_run.2 (by decide +kernel)

theorem sched₅_step : Sched.Step {} echoWorld sched₄
    (.reply 1 (replyTo (ascii "n") (some (.succeeded [two, one])))) sched₅ ∧ sched₅.OwnStorage :=
  onward_step sched₄_step.2 (by decide +kernel)

theorem sched₆_step : Sched.Step {} echoWorld sched₅ (.construct 2) sched₆ ∧ sched₆.OwnStorage :=
  onward_step sched₅_step.2 (by decide +kernel)

theorem sched₇_run : (∃ evs, Run (Guarded (Sched.Step {} echoWorld) Apart) sched₆ evs sched₇) ∧
    sched₇.OwnStorage :=
  onward_run sched₆_step.2 (by decide +kernel)

theorem sched₈_step : Sched.Step {} echoWorld sched₇
    (.reply 2 (replyTo (ascii "n") (some (.succeeded [two, one])))) sched₈ ∧ sched₈.OwnStorage :=
  onward_step sched₇_run.2 (by decide +kernel)

set_option maxRecDepth 8000 in
/-- What the workers find. -/
theorem scheds_found : sched₃.found 0 = some (.succeeded [one]) ∧
    sched₄.found 1 = some (.succeeded [two, one]) ∧ sched₇.found 2 = some (.succeeded [two, one]) :=
  ⟨rfl, rfl, rfl⟩

theorem scheds_owing : 0 ∉ sched₃.owing ∧ 1 ∉ sched₄.owing ∧ 2 ∉ sched₇.owing := by decide +kernel

/-- The answer to a request whose numbers come back as they are. -/
def echoed (r : InferRequest) : Message :=
  .answer true (replyTo r.name (some (.succeeded (r.toInput smallValue).data))).status
    (replyTo r.name (some (.succeeded (r.toInput smallValue).data))).body

/-- A connection has been answered with the numbers of its request. -/
def Echoes (r : InferRequest) (e : Served Single) : Prop :=
  e.scheduler = some (.succeeded (r.toInput smallValue).data) ∧ e.response = (echoed r).text

/-- The first connection has sent `noteRequest` in three parts and the second `pairRequest` in two,
and the workers of both have built their tasks. -/
def bothAsk (c₁ c₂ : HttpConn) : System Bool Single where
  sched := sched₂
  stage b := if b then .asking c₂ 0 1 else .asking c₁ 0 0
  chunks b := if b then pairParts else noteParts

theorem both_asked : ∃ evs c₁ c₂, HasRead noteRequest c₁ ∧ HasRead pairRequest c₂ ∧
    Run (CarefulStep {} echoWorld fun _ => noteService.onFloats) {} evs (bothAsk c₁ c₂) := by
  have hvalue : noteService.onFloats.ofText = strtof smallValue := rfl
  obtain ⟨hnote, hnote'⟩ := noteParts_ok
  obtain ⟨hpair, hpair'⟩ := pairParts_ok
  have haccept : Run (CarefulStep {} echoWorld fun _ : Bool => noteService.onFloats) {} _ _ :=
    (Run.nil.snoc ⟨.accept (i := false) (.inl rfl), trivial⟩).snoc
      ⟨.accept (i := true) (.inl rfl), trivial⟩
  obtain ⟨sevs, hstart⟩ := sched₀_run.1
  have hrun := haccept.trans (run_sched .nil hstart)
  have htask₁ : sched₁.tasks 0 = noteRequest.task smallValue noteService.onFloats 0 := rfl
  have htask₂ : sched₂.tasks 1 = pairRequest.task smallValue noteService.onFloats 0 := rfl
  obtain ⟨evs₁, c₁, hread₁, hrun₁⟩ := run_ask noteRequest (i := false) hrun rfl (waiting_init rfl)
    rfl hvalue ((List.nil_append _).trans hnote) (List.cons_ne_nil _ _) hnote' sched₁_step.1 htask₁
  obtain ⟨evs₂, c₂, hread₂, hrun₂⟩ := run_ask pairRequest (i := true) hrun₁ rfl (waiting_init rfl)
    rfl hvalue ((List.nil_append _).trans hpair) (List.cons_ne_nil _ _) hpair' sched₂_step.1 htask₂
  refine ⟨evs₂, c₁, c₂, hread₁, hread₂, ?_⟩
  convert hrun₂ using 1
  unfold bothAsk
  congr 1 <;> funext b <;> cases b <;> rfl

/-- **Two connections.**  The tasks of both are served in one batch, and then the first connection
sends `pairRequest`, too. -/
theorem talk : ∃ (evs : List (Event Bool)) (s : System Bool Single) (e₁ e₂ e₃ : Served Single),
    Run (CarefulStep {} echoWorld fun _ => noteService.onFloats) {} evs s ∧
      s.Idle false ∧ s.Idle true ∧
      s.chunks false = noteParts ++ pairParts ∧ s.chunks true = pairParts ∧
      s.log false = [e₁, e₂] ∧ s.log true = [e₃] ∧
      Echoes noteRequest e₁ ∧ Echoes pairRequest e₂ ∧ Echoes pairRequest e₃ := by
  have hvalue : noteService.onFloats.ofText = strtof smallValue := rfl
  obtain ⟨hpair, hpair'⟩ := pairParts_ok
  obtain ⟨hfound₁, hfound₂, hfound₃⟩ := scheds_found
  obtain ⟨howing₁, howing₂, howing₃⟩ := scheds_owing
  obtain ⟨evs₂, c₁, c₂, hread₁, hread₂, hrun₂⟩ := both_asked
  obtain ⟨sevs₂, hpatient₂⟩ := (System.ok_run hrun₂).runs
  obtain ⟨sevs₃, hserve₃⟩ := sched₃_run.1
  have hrun₃ := hrun₂.trans (run_sched hpatient₂ hserve₃)
  obtain ⟨evs₄, x₁, e₁, hx₁, hv₁, htext₁, hrun₄⟩ := run_reply (fun _ => noteService)
    noteRequest (i := false) hrun₃ rfl hread₁ rfl hvalue sched₄_step.1 howing₁
  obtain ⟨evs₅, x₂, e₂, hx₂, hv₂, htext₂, hrun₅⟩ := run_reply (fun _ => noteService)
    pairRequest (i := true) hrun₄ rfl hread₂ rfl hvalue sched₅_step.1 howing₂
  -- the first connection asks again
  have htask₃ : sched₆.tasks 2 = pairRequest.task smallValue noteService.onFloats 0 := rfl
  obtain ⟨evs₆, c₃, hread₃, hrun₆⟩ := run_ask pairRequest (i := false) hrun₅ rfl (waiting_init hx₁)
    rfl hvalue ((List.nil_append _).trans hpair) (List.cons_ne_nil _ _) hpair' sched₆_step.1 htask₃
  obtain ⟨sevs₆, hpatient₆⟩ := (System.ok_run hrun₆).runs
  obtain ⟨sevs₇, hserve₇⟩ := sched₇_run.1
  have hrun₇ := hrun₆.trans (run_sched hpatient₆ hserve₇)
  obtain ⟨evs₈, x₃, e₃, hx₃, hv₃, htext₃, hrun₈⟩ := run_reply (fun _ => noteService)
    pairRequest (i := false) hrun₇ rfl hread₃ rfl hvalue sched₈_step.1 howing₃
  dsimp only at hv₁ hv₂ hv₃ htext₁ htext₂ htext₃
  rw [hfound₁] at hv₁ htext₁
  rw [hfound₂] at hv₂ htext₂
  rw [hfound₃] at hv₃ htext₃
  exact ⟨evs₈, _, e₁, e₃, e₂, hrun₈, trivial, trivial, rfl, rfl, rfl, rfl, ⟨hv₁, htext₁⟩,
    ⟨hv₃, htext₃⟩, ⟨hv₂, htext₂⟩⟩

set_option maxRecDepth 4000 in
/-- Each of the two clients reads its own numbers, whatever pieces it gets. -/
theorem own_answers_two : ∃ (evs : List (Event Bool)) (s : System Bool Single),
    Run (CarefulStep {} echoWorld fun _ => noteService.onFloats) {} evs s ∧
      s.chunks false = noteParts ++ pairParts ∧ s.chunks true = pairParts ∧
      ∀ pieces pieces' : List Bytes, pieces.flatten = (s.log false).flatMap Served.response →
        pieces'.flatten = (s.log true).flatMap Served.response → ∃ m₁ m₂ m₃,
          Message.code.receive pieces = ([m₁, m₂], []) ∧
          Message.code.receive pieces' = ([m₃], []) ∧
          Json.parse m₁.body = some (.object (okMembers (ascii "m") [one])) ∧
          Json.parse m₂.body = some (.object (okMembers (ascii "n") [two, one])) ∧
          Json.parse m₃.body = some (.object (okMembers (ascii "n") [two, one])) := by
  obtain ⟨evs, s, e₁, e₂, e₃, hrun, hidle, hidle', hchunks, hchunks', hlog, hlog', ⟨hv₁, htext₁⟩,
    ⟨hv₂, htext₂⟩, hv₃, htext₃⟩ := talk
  refine ⟨evs, s, hrun, hchunks, hchunks', fun pieces pieces' hpieces hpieces' => ?_⟩
  have hvalue : noteService.ofText = strtof smallValue := rfl
  have haligned' := aligned_nil.parts pairParts
  have haligned := haligned'.parts noteParts
  rw [List.append_nil, noteParts_ok.1, pairParts_ok.1, ← hchunks] at haligned
  rw [List.append_nil, pairParts_ok.1, ← hchunks'] at haligned'
  have hsent : (s.chunks false).flatten =
      ([noteRequest, pairRequest].map fun r => r.text).flatten := by
    rw [hchunks, List.flatten_append, noteParts_ok.1, pairParts_ok.1]
    simp
  have hsent' : (s.chunks true).flatten = ([pairRequest].map fun r => r.text).flatten := by
    rw [hchunks', pairParts_ok.1]
    simp
  have hlen : ∀ e ∈ s.log false, (e.response.length : ℤ) ≤ CString.LONG_MAX := by
    rw [hlog]
    simp only [List.forall_mem_cons, htext₁, htext₂]
    decide
  have hlen' : ∀ e ∈ s.log true, (e.response.length : ℤ) ≤ CString.LONG_MAX := by
    rw [hlog']
    simp only [List.forall_mem_cons, htext₃]
    decide
  obtain ⟨ms, hms, -, hall⟩ := own_answers (fun _ => noteService) rfl hvalue hrun hidle hsent
    haligned hlen hpieces
  obtain ⟨ms', hms', -, hall'⟩ := own_answers (fun _ => noteService) rfl hvalue hrun hidle' hsent'
    haligned' hlen' hpieces'
  rw [hlog] at hall
  rw [hlog'] at hall'
  cases hall' with
  | @cons _ m₃ _ _ hm₃ hnil =>
      cases hnil
      cases hall with
      | @cons _ m₁ _ _ hm₁ hrest =>
          cases hrest with
          | @cons _ m₂ _ _ hm₂ hnil =>
              cases hnil
              have htold₁ := hm₁.1.told
              have htold₂ := hm₂.1.told
              have htold₃ := hm₃.1.told
              dsimp only at htold₁ htold₂ htold₃
              rw [hv₁] at htold₁
              rw [hv₂] at htold₂
              rw [hv₃] at htold₃
              have hone : one.isFinite = true := rfl
              have htwo : two.isFinite = true := rfl
              exact ⟨m₁, m₂, m₃, hms, hms', htold₁ (List.forall_mem_singleton.2 hone),
                htold₂ (List.forall_mem_cons.2 ⟨htwo, List.forall_mem_singleton.2 hone⟩),
                htold₃ (List.forall_mem_cons.2 ⟨htwo, List.forall_mem_singleton.2 hone⟩)⟩

end EndToEnd

end Gateway
