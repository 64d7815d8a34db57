/-
A request and its answer.

`do_request` checks the route, takes the fields out of the body, hands a task to the scheduler and
waits for it, and leaves the answer in `m_response_body` for `process_write`.  What the scheduler
makes of the task is an argument: nothing if the queue was full, else how the task ended.

* `Gateway.Service` — what a connection gets from its surroundings;
* `Gateway.HttpConn.requestTask`, `Gateway.HttpConn.doRequest` — the task and the answer;
* `Gateway.HttpConn.process` — `process_read`, `do_request` and `process_write`, and
  `Gateway.HttpConn.exchange` — a request that arrives in chunks.
-/

import InferenceGateway.HttpJson
import InferenceGateway.HttpResponse

set_option relaxedAutoImplicit false
set_option autoImplicit false

namespace Gateway

/-- What `do_request` gets from its surroundings: how numbers are read and printed, whether there
is a scheduler, how long a task may take, and the descriptor of the connection. -/
structure Service (F : Type) where
  ofText : Bytes → F
  printF : F → Bytes
  initialized : Bool := true
  taskTimeoutSec : ℤ := 30
  sockfd : ℤ

/-- The answer when there is no scheduler. -/
def uninitializedReply : Reply where
  body := ascii "\x7b\"status\":\"error\",\"msg\":\"scheduler not initialized\"\x7d"

/-- The answer to a body without an input. -/
def missingInputReply : Reply where
  body := ascii "\x7b\"status\":\"error\",\"msg\":\"missing or empty 'input' field\"\x7d"

namespace HttpConn

variable {F : Type}

/-! ### `do_request` -/

/-- `while (new_size < needed) new_size *= 2`; the first number bounds the passes. -/
def growBody (needed : ℕ) : ℕ → ℕ → ℕ
  | 0, n => n
  | fuel + 1, n => if n < needed then growBody needed fuel (2 * n) else n

/-- `set_response_body`.  `strcpy` copies up to the first zero. -/
def setResponseBody (c : HttpConn) (body : Bytes) : HttpConn :=
  let needed := body.length + 1
  let size :=
    if c.responseBodySize < needed then
      growBody needed needed (if c.responseBodySize = 0 then initBufferSize else c.responseBodySize)
    else c.responseBodySize
  { c with responseBody := CString.cut body, responseBodySize := size }

/-- `set_response_body(body); return JSON_RESPONSE;` -/
def answer (c : HttpConn) (body : Bytes) : HttpCode × HttpConn :=
  (.jsonResponse, c.setResponseBody body)

/-- `m_response_status = status;` -/
def setStatus (c : HttpConn) (status : ℕ) : HttpConn := { c with responseStatus := status }

/-- The task that `do_request` builds from the body at the time `now`. -/
def requestTask (svc : Service F) (now : ℤ) (c : HttpConn) : InferenceTask F :=
  .make (jsonGetString c.body (ascii "model"))
    (jsonGetFloatArray svc.ofText c.body (ascii "input"))
    (jsonGetInt c.body (ascii "priority") 1) (now + svc.taskTimeoutSec) svc.sockfd

/-- `do_request` once it has a task.  The scheduler refuses the task, or the task comes back with a
verdict. -/
def answerTask (svc : Service F) (scheduler : Option (Verdict F)) (task : InferenceTask F)
    (c : HttpConn) : HttpCode × HttpConn :=
  if task.inputData.isEmpty then c.answer missingInputReply.body
  else match scheduler with
    | none =>
        let (ret, c) := c.answer overloadedReply.body
        (ret, c.setStatus overloadedReply.status)
    | some verdict => c.answer (verdict.reply svc.printF task.modelName).body

/-- `do_request`. -/
def doRequest (svc : Service F) (now : ℤ) (scheduler : Option (Verdict F)) (c : HttpConn) :
    Except Fault (HttpCode × HttpConn) :=
  if c.method ≠ .post then .ok (.noResource, c)
  else match c.url with
    | none => .error .nullPointer
    | some url =>
        if c.str url ≠ ascii "/infer" then .ok (.noResource, c)
        else if c.contentLength ≤ 0 then .ok (.badRequest, c)
        else if !svc.initialized then .ok (c.answer uninitializedReply.body)
        else .ok (c.answerTask svc scheduler (c.requestTask svc now))

/-! ### `process` -/

/-- `process_read` with the call of `do_request` at its end. -/
def readRequest (svc : Service F) (now : ℤ) (scheduler : Option (Verdict F)) (c : HttpConn) :
    Except Fault (HttpCode × HttpConn) := do
  match ← c.processRead with
  | (.getRequest, c) => c.doRequest svc now scheduler
  | r => return r

/-- What `process` leaves: the code, whether `process_write` made a response, and the
connection. -/
structure Processed where
  code : HttpCode
  written : Bool
  conn : HttpConn

/-- `process`, up to its calls of `modfd` and `close_conn`. -/
def process (svc : Service F) (now : ℤ) (scheduler : Option (Verdict F)) (c : HttpConn) :
    Except Fault Processed := do
  let (code, c) ← c.readRequest svc now scheduler
  if code = .noRequest then return { code := code, written := false, conn := c }
  else
    let (written, c) := c.processWrite code
    return { code := code, written := written, conn := c }

/-- The chunks of a request arrive one by one, and `process` runs after each, until there is an
answer. -/
def exchange (svc : Service F) (now : ℤ) (scheduler : Option (Verdict F)) :
    HttpConn → List Bytes → Except Fault Processed
  | c, [] => .ok { code := .noRequest, written := false, conn := c }
  | c, q :: qs => do
      let p ← (c.append q).process svc now scheduler
      if p.code = .noRequest then exchange svc now scheduler p.conn qs else return p

end HttpConn

end Gateway
