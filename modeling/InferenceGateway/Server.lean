/-
**The web server as an event system.**

`webserver.cpp` is run by one main thread, which polls `epoll`, accepts connections, reads and
writes in the proactor model and closes idle connections, and by the workers of `threadpool.h`,
which run `http_conn::process` and, in the reactor model, read and write.  They share the array
`users`, whose slots are indexed by file descriptors, and the kernel reuses a descriptor as soon as
it was closed.  This module gives the joint state and one step relation, `Gateway.Web.Step`.

Every accepted connection has a number of its own, which the program never sees.  `fds` is the
kernel's table of open client descriptors, and the slots remember for which connection they were
initialised and on which connections the bytes in their buffers were read: `received` has one entry
for each successful `read_once`, and a response has the entries of the request it answers.  What
`process_read` makes of the bytes is left open, except that it finds no request where none were
received; so are the results of the scheduler and the outcomes of the system calls.

An access of `improv` or `timer_flag` is one step, and so is a system call together with the local
work around it.

Main definitions:

* `Gateway.Web.Slot`, `Gateway.Web.Server` — `http_conn` as far as threads share it, and the joint
  state;
* `Gateway.Web.ReadOnce`, `Gateway.Web.Write` — `read_once` and the pieces of `write`;
* `Gateway.Web.MainStep`, `Gateway.Web.WorkerStep`, `Gateway.Web.Step` — the steps.
-/

import InferenceGateway.EventSystem
import Mathlib.Logic.Function.Basic
import Mathlib.Tactic.Simps.Basic

set_option relaxedAutoImplicit false
set_option autoImplicit false

namespace Gateway.Web

/-! ### State -/

/-- `TIMESLOT`. -/
def TIMESLOT : ℕ := 5

/-- `MAX_FD`. -/
def MAX_FD : ℤ := 65536

/-- The settings.  `reserved` are the descriptors that the process holds itself: the listening
socket, `epoll`, the signal pipe and the log. -/
structure Config where
  reactor : Bool
  edgeListen : Bool
  maxRequests : ℕ := 10000
  reserved : List ℕ := []

/-- What `epoll` reports for a client descriptor.  After one report the descriptor is disabled. -/
inductive Interest
  | disabled | input | output
  deriving DecidableEq

/-- `m_state`. -/
inductive IoState
  | read | write
  deriving DecidableEq

/-- The part of an `http_conn` that matters between threads.  `sockfd` is `m_sockfd`, where `none`
is -1; `response` is `none` as long as `bytes_to_send` is 0. -/
structure Slot where
  sockfd : Option ℕ := none
  state : IoState := .read
  improv : Bool := false
  timerFlag : Bool := false
  owner : Option ℕ := none
  received : List ℕ := []
  response : Option (List ℕ) := none
  deriving DecidableEq

/-- A node of the timer list. -/
structure Timer where
  id : ℕ
  fd : ℕ
  expire : ℕ
  deriving DecidableEq

/-- An entry of the array that `epoll_wait` fills, in the order in which `eventLoop` tests it. -/
inductive Ready
  | listen
  | hangup (fd : ℕ)
  | signal
  | input (fd : ℕ)
  | output (fd : ℕ)
  deriving DecidableEq

/-- The client descriptor of an entry. -/
def Ready.fd : Ready → Option ℕ
  | .listen | .signal => none
  | .hangup fd | .input fd | .output fd => some fd

/-- Where the main thread is: in `epoll_wait`, between two entries, before an `accept`, in
`dealwithread` and `dealwithwrite` before `read_once`, before `append`, before `write`, polling
`improv`, before the test of `timer_flag`, before the two assignments that follow, or in `tick` with
the time it has read. -/
inductive MainPc
  | wait
  | loop
  | accept
  | read (fd : ℕ)
  | append (fd : ℕ) (state : IoState)
  | write (fd : ℕ)
  | poll (fd : ℕ)
  | flagged (fd : ℕ)
  | clear (fd : ℕ)
  | release (fd : ℕ)
  | tick (cur : ℕ)
  deriving DecidableEq

/-- Where a worker is: waiting for work; with a slot it has taken from the queue; in `read_once`;
before `improv = 1` and `process`; in `process`; in `do_request` with a request; with a response
written; with a request that is not complete; in `close_conn` behind `close`; in `write`; behind
`write`; with a read or a write that failed; before `timer_flag = 1`. -/
inductive WorkerPc
  | idle
  | taken (fd : ℕ)
  | reading (fd : ℕ)
  | received (fd : ℕ)
  | process (fd : ℕ)
  | request (fd : ℕ) (chunks : List ℕ)
  | answered (fd : ℕ)
  | unfinished (fd : ℕ)
  | closing (fd : ℕ)
  | writing (fd : ℕ)
  | written (fd : ℕ)
  | failed (fd : ℕ)
  | flagging (fd : ℕ)
  deriving DecidableEq

/-- The joint state. -/
structure Server where
  now : ℕ := 0
  fds : ℕ → Option ℕ := fun _ => none
  epoll : ℕ → Option Interest := fun _ => none
  nextConn : ℕ := 0
  slots : ℕ → Slot := fun _ => {}
  timers : List Timer := []
  timerOf : ℕ → Option ℕ := fun _ => none
  nextTimer : ℕ := 0
  userCount : ℤ := 0
  events : List Ready := []
  timeout : Bool := false
  main : MainPc := .wait
  queue : List ℕ := []
  workers : List WorkerPc := []

namespace Server

/-! ### Shared operations -/

/-- An assignment to the slot of a descriptor. -/
@[simps]
def setSlot (s : Server) (fd : ℕ) (slot : Slot) : Server :=
  { s with slots := Function.update s.slots fd slot }

/-- The inner `init()`. -/
@[simps!]
def initSlot (s : Server) (fd : ℕ) : Server :=
  s.setSlot fd { sockfd := (s.slots fd).sockfd, owner := (s.slots fd).owner }

/-- `epoll_ctl(EPOLL_CTL_MOD)`, which fails on a descriptor that is not registered. -/
@[simps]
def rearm (s : Server) (fd : ℕ) (interest : Interest) : Server :=
  { s with epoll := Function.update s.epoll fd ((s.epoll fd).map fun _ => interest) }

/-- `modfd(m_epollfd, m_sockfd, ev, m_TRIGMode)` of a slot. -/
def modfd (s : Server) (fd : ℕ) (interest : Interest) : Server :=
  match (s.slots fd).sockfd with
  | none => s
  | some sock => s.rearm sock interest

/-- `close`, which ends the registration as well. -/
@[simps]
def close (s : Server) (fd : ℕ) : Server :=
  { s with fds := Function.update s.fds fd none, epoll := Function.update s.epoll fd none }

/-- `cb_func`. -/
@[simps!]
def cbFunc (s : Server) (fd : ℕ) : Server := { s.close fd with userCount := s.userCount - 1 }

/-! ### Timers -/

/-- `add_timer`: behind the nodes that expire no later. -/
def insertTimer (t : Timer) : List Timer → List Timer
  | [] => [t]
  | u :: l => if t.expire < u.expire then t :: u :: l else u :: insertTimer t l

/-- `del_timer`. -/
def delTimer (s : Server) (id : ℕ) : Server :=
  { s with timers := s.timers.filter (·.id ≠ id) }

/-- `adjust_timer` for the timer of a descriptor. -/
def adjustTimer (s : Server) (fd : ℕ) : Server :=
  match s.timerOf fd with
  | none => s
  | some id =>
      match s.timers.find? (·.id = id) with
      | none => s
      | some t =>
          { s with
            timers := insertTimer { t with expire := s.now + 3 * TIMESLOT }
              (s.timers.filter (·.id ≠ id)) }

/-- `deal_timer`. -/
def dealTimer (s : Server) (fd : ℕ) : Server :=
  match s.timerOf fd with
  | none => s.cbFunc fd
  | some id => (s.cbFunc fd).delTimer id

/-- `accept` and `WebServer::timer`: the slot is initialised, the descriptor is registered and gets
a timer. -/
def timer (s : Server) (fd : ℕ) : Server :=
  { s with
    fds := Function.update s.fds fd (some s.nextConn)
    epoll := Function.update s.epoll fd (some .input)
    nextConn := s.nextConn + 1
    slots := Function.update s.slots fd { sockfd := some fd, owner := some s.nextConn }
    userCount := s.userCount + 1
    timers := insertTimer ⟨s.nextTimer, fd, s.now + 3 * TIMESLOT⟩ s.timers
    timerOf := Function.update s.timerOf fd (some s.nextTimer)
    nextTimer := s.nextTimer + 1 }

end Server

/-! ### Events -/

/-- What a step shows.  `dealTimer` and `tick` are the two calls of `cb_func`, `closeConn` is the
`close` in `close_conn`, and `ioDone` is the return of `read_once` or `write` in a worker. -/
inductive Event
  | accept (fd : ℕ)
  | dealTimer (fd : ℕ)
  | tick (fd : ℕ)
  | closeConn (fd : ℕ)
  | append (fd : ℕ) (accepted : Bool)
  | ioDone (fd : ℕ) (ok : Bool)
  | respond (fd : ℕ) (chunks : List ℕ)
  | send (conn : ℕ) (chunks : List ℕ)
  | quiet
  deriving DecidableEq

/-! ### Reading and writing -/

/-- A successful `read_once`: the bytes are those of the connection that is open at `m_sockfd`. -/
inductive ReadOnce (s : Server) (fd : ℕ) : Server → Prop
  | intro {sock conn : ℕ} :
      (s.slots fd).sockfd = some sock → s.fds sock = some conn →
      ReadOnce s fd (s.setSlot fd { s.slots fd with received := (s.slots fd).received ++ [conn] })

/-- A piece of `write`: a `writev` that takes bytes, which goes on, or one that ends the call with
the result it returns.  `modfd` and the `init()` behind it are one step: the main thread calls
`write` itself, or it waits for `improv` meanwhile. -/
inductive Write (s : Server) (fd : ℕ) : Event → Option Bool → Server → Prop
  | empty :
      (s.slots fd).response = none →
      Write s fd .quiet (some true) ((s.modfd fd .input).initSlot fd)
  | sent {sock conn : ℕ} {chunks : List ℕ} :
      (s.slots fd).response = some chunks → (s.slots fd).sockfd = some sock →
      s.fds sock = some conn → Write s fd (.send conn chunks) none s
  | again : (s.slots fd).response ≠ none → Write s fd .quiet (some true) (s.modfd fd .output)
  | keepAlive :
      (s.slots fd).response ≠ none →
      Write s fd .quiet (some true) ((s.modfd fd .input).initSlot fd)
  | finished : (s.slots fd).response ≠ none → Write s fd .quiet (some false) (s.modfd fd .input)
  | fail : (s.slots fd).response ≠ none → Write s fd .quiet (some false) s

/-! ### The main thread -/

/-- An entry that `epoll_wait` may report. -/
def Deliverable (s : Server) : Ready → Prop
  | .listen | .signal => True
  | .hangup fd => ∃ interest, s.epoll fd = some interest ∧ interest ≠ .disabled
  | .input fd => s.epoll fd = some .input
  | .output fd => s.epoll fd = some .output

/-- `epoll_wait` returns `evs`. -/
def Server.deliver (s : Server) (evs : List Ready) : Server :=
  { s with
    events := evs
    main := .loop
    epoll := fun fd => if fd ∈ evs.filterMap Ready.fd then some .disabled else s.epoll fd }

/-- The steps of the main thread. -/
inductive MainStep (cfg : Config) (s : Server) : Event → Server → Prop
  | epollWait {evs : List Ready} :
      s.main = .wait → (evs.filterMap Ready.fd).Nodup → (∀ e ∈ evs, Deliverable s e) →
      MainStep cfg s .quiet (s.deliver evs)
  | listen {evs : List Ready} :
      s.main = .loop → s.events = .listen :: evs →
      MainStep cfg s .quiet { s with events := evs, main := .accept }
  /-- `accept` fails. -/
  | acceptFail : s.main = .accept → MainStep cfg s .quiet { s with main := .loop }
  /-- `m_user_count >= MAX_FD`. -/
  | acceptBusy :
      s.main = .accept → MAX_FD ≤ s.userCount →
      MainStep cfg s .quiet { s with main := .loop, nextConn := s.nextConn + 1 }
  | accept {fd : ℕ} :
      s.main = .accept → s.fds fd = none → fd ∉ cfg.reserved → s.userCount < MAX_FD →
      MainStep cfg s (.accept fd)
        { s.timer fd with main := if cfg.edgeListen then .accept else .loop }
  | hangup {fd : ℕ} {evs : List Ready} :
      s.main = .loop → s.events = .hangup fd :: evs →
      MainStep cfg s (.dealTimer fd) { s.dealTimer fd with events := evs }
  | signal {evs : List Ready} :
      s.main = .loop → s.events = .signal :: evs →
      MainStep cfg s .quiet { s with events := evs, timeout := true }
  /-- `dealwithread` and `dealwithwrite` in the reactor model. -/
  | dispatch {fd : ℕ} {evs : List Ready} {state : IoState} :
      cfg.reactor = true → s.main = .loop →
      (s.events = .input fd :: evs ∧ state = .read ∨
        s.events = .output fd :: evs ∧ state = .write) →
      MainStep cfg s .quiet { s.adjustTimer fd with events := evs, main := .append fd state }
  | handOver {fd : ℕ} {state : IoState} :
      cfg.reactor = true → s.main = .append fd state → s.queue.length < cfg.maxRequests →
      MainStep cfg s (.append fd true)
        { s.setSlot fd { s.slots fd with state := state } with
          queue := s.queue ++ [fd], main := .poll fd }
  | handOverFull {fd : ℕ} {state : IoState} :
      cfg.reactor = true → s.main = .append fd state → cfg.maxRequests ≤ s.queue.length →
      MainStep cfg s (.append fd false) { s with main := .poll fd }
  | poll {fd : ℕ} :
      s.main = .poll fd → (s.slots fd).improv = true →
      MainStep cfg s .quiet { s with main := .flagged fd }
  | flagged {fd : ℕ} :
      s.main = .flagged fd → (s.slots fd).timerFlag = true →
      MainStep cfg s (.dealTimer fd) { s.dealTimer fd with main := .clear fd }
  | notFlagged {fd : ℕ} :
      s.main = .flagged fd → (s.slots fd).timerFlag = false →
      MainStep cfg s .quiet { s with main := .release fd }
  | clear {fd : ℕ} :
      s.main = .clear fd →
      MainStep cfg s .quiet
        { s.setSlot fd { s.slots fd with timerFlag := false } with main := .release fd }
  | release {fd : ℕ} :
      s.main = .release fd →
      MainStep cfg s .quiet
        { s.setSlot fd { s.slots fd with improv := false } with main := .loop }
  /-- `dealwithread` in the proactor model. -/
  | input {fd : ℕ} {evs : List Ready} :
      cfg.reactor = false → s.main = .loop → s.events = .input fd :: evs →
      MainStep cfg s .quiet { s with events := evs, main := .read fd }
  | readOk {fd : ℕ} {s' : Server} :
      s.main = .read fd → ReadOnce s fd s' →
      MainStep cfg s .quiet { s' with main := .append fd .read }
  | readFail {fd : ℕ} :
      s.main = .read fd → MainStep cfg s (.dealTimer fd) { s.dealTimer fd with main := .loop }
  | append {fd : ℕ} :
      cfg.reactor = false → s.main = .append fd .read → s.queue.length < cfg.maxRequests →
      MainStep cfg s (.append fd true)
        { s.adjustTimer fd with queue := s.queue ++ [fd], main := .loop }
  | appendFull {fd : ℕ} :
      cfg.reactor = false → s.main = .append fd .read → cfg.maxRequests ≤ s.queue.length →
      MainStep cfg s (.append fd false) { s.adjustTimer fd with main := .loop }
  /-- `dealwithwrite` in the proactor model. -/
  | output {fd : ℕ} {evs : List Ready} :
      cfg.reactor = false → s.main = .loop → s.events = .output fd :: evs →
      MainStep cfg s .quiet { s with events := evs, main := .write fd }
  | writeMore {fd : ℕ} {e : Event} {s' : Server} :
      s.main = .write fd → Write s fd e none s' → MainStep cfg s e s'
  | writeOk {fd : ℕ} {e : Event} {s' : Server} :
      s.main = .write fd → Write s fd e (some true) s' →
      MainStep cfg s e { s'.adjustTimer fd with main := .loop }
  | writeFail {fd : ℕ} {e : Event} {s' : Server} :
      s.main = .write fd → Write s fd e (some false) s' →
      MainStep cfg s (.dealTimer fd) { s'.dealTimer fd with main := .loop }
  /-- The end of the `for` loop, and the test of `timeout`. -/
  | loopEnd :
      s.main = .loop → s.events = [] →
      MainStep cfg s .quiet { s with main := if s.timeout then .tick s.now else .wait }
  | tick {cur : ℕ} {t : Timer} {ts : List Timer} :
      s.main = .tick cur → s.timers = t :: ts → t.expire ≤ cur →
      MainStep cfg s (.tick t.fd) { s.cbFunc t.fd with timers := ts }
  | tickEnd {cur : ℕ} :
      s.main = .tick cur → (∀ t, s.timers.head? = some t → cur < t.expire) →
      MainStep cfg s .quiet { s with main := .wait, timeout := false }

/-! ### The workers -/

/-- The steps of a worker, with the position it goes to. -/
inductive WorkerStep (cfg : Config) (s : Server) : WorkerPc → Event → Server → WorkerPc → Prop
  | take {fd : ℕ} {rest : List ℕ} :
      s.queue = fd :: rest →
      WorkerStep cfg s .idle .quiet { s with queue := rest } (.taken fd)
  | proactor {fd : ℕ} :
      cfg.reactor = false → WorkerStep cfg s (.taken fd) .quiet s (.process fd)
  | reactorRead {fd : ℕ} :
      cfg.reactor = true → (s.slots fd).state = .read →
      WorkerStep cfg s (.taken fd) .quiet s (.reading fd)
  | reactorWrite {fd : ℕ} :
      cfg.reactor = true → (s.slots fd).state = .write →
      WorkerStep cfg s (.taken fd) .quiet s (.writing fd)
  | readOk {fd : ℕ} {s' : Server} :
      ReadOnce s fd s' → WorkerStep cfg s (.reading fd) (.ioDone fd true) s' (.received fd)
  | readFail {fd : ℕ} :
      WorkerStep cfg s (.reading fd) (.ioDone fd false) s (.failed fd)
  | received {fd : ℕ} :
      WorkerStep cfg s (.received fd) .quiet
        (s.setSlot fd { s.slots fd with improv := true }) (.process fd)
  /-- `process_read` returns `NO_REQUEST`. -/
  | noRequest {fd : ℕ} : WorkerStep cfg s (.process fd) .quiet s (.unfinished fd)
  /-- `process_read` finds a request; in `do_request` the worker waits for the scheduler. -/
  | request {fd : ℕ} :
      (s.slots fd).received ≠ [] →
      WorkerStep cfg s (.process fd) .quiet s (.request fd (s.slots fd).received)
  /-- `process_write`. -/
  | respond {fd : ℕ} {chunks : List ℕ} :
      WorkerStep cfg s (.request fd chunks) (.respond fd chunks)
        (s.setSlot fd { s.slots fd with response := some chunks }) (.answered fd)
  | rearmInput {fd : ℕ} :
      WorkerStep cfg s (.unfinished fd) .quiet (s.modfd fd .input) .idle
  | rearmOutput {fd : ℕ} :
      WorkerStep cfg s (.answered fd) .quiet (s.modfd fd .output) .idle
  /-- `process` ends in an exception handler, or `process_write` fails: `close_conn`. -/
  | closeConn {pc : WorkerPc} {fd sock : ℕ} :
      (pc = .process fd ∨ ∃ chunks, pc = .request fd chunks) → (s.slots fd).sockfd = some sock →
      WorkerStep cfg s pc (.closeConn sock) (s.close sock) (.closing fd)
  | closeNothing {pc : WorkerPc} {fd : ℕ} :
      (pc = .process fd ∨ ∃ chunks, pc = .request fd chunks) → (s.slots fd).sockfd = none →
      WorkerStep cfg s pc .quiet s .idle
  | closed {fd : ℕ} :
      WorkerStep cfg s (.closing fd) .quiet
        { s.setSlot fd { s.slots fd with sockfd := none } with userCount := s.userCount - 1 } .idle
  | writeMore {fd : ℕ} {e : Event} {s' : Server} :
      Write s fd e none s' → WorkerStep cfg s (.writing fd) e s' (.writing fd)
  | writeOk {fd : ℕ} {e : Event} {s' : Server} :
      Write s fd e (some true) s' →
      WorkerStep cfg s (.writing fd) (.ioDone fd true) s' (.written fd)
  | writeFail {fd : ℕ} {e : Event} {s' : Server} :
      Write s fd e (some false) s' →
      WorkerStep cfg s (.writing fd) (.ioDone fd false) s' (.failed fd)
  | written {fd : ℕ} :
      WorkerStep cfg s (.written fd) .quiet
        (s.setSlot fd { s.slots fd with improv := true }) .idle
  | failed {fd : ℕ} :
      WorkerStep cfg s (.failed fd) .quiet
        (s.setSlot fd { s.slots fd with improv := true }) (.flagging fd)
  | flagging {fd : ℕ} :
      WorkerStep cfg s (.flagging fd) .quiet
        (s.setSlot fd { s.slots fd with timerFlag := true }) .idle

/-! ### Runs -/

/-- The steps of the server, and the passing of time. -/
inductive Step (cfg : Config) : Server → Event → Server → Prop
  | main {s s' : Server} {e : Event} : MainStep cfg s e s' → Step cfg s e s'
  | worker {s s' : Server} {e : Event} {i : ℕ} {pc pc' : WorkerPc} :
      s.workers[i]? = some pc → WorkerStep cfg s pc e s' pc' →
      Step cfg s e { s' with workers := s'.workers.set i pc' }
  | elapse {s : Server} (d : ℕ) : Step cfg s .quiet { s with now := s.now + d }

/-- The server before its first step, with `m_thread_num` workers. -/
def start (threads : ℕ) : Server := { workers := List.replicate threads .idle }

end Gateway.Web
