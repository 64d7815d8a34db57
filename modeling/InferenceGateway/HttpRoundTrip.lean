/-
A request and its answer, from the client and back.

A client that wants an inference sends the name of a model, the numbers and perhaps a priority, as
the members of an object, in any order and with others between them.  This module follows them: to
the task that the scheduler gets, and from the verdict of the scheduler to what the client reads.

Main definitions:

* `Gateway.HttpConn.InferRequest` — a request for an inference,
  `Gateway.HttpConn.InferRequest.task` — the task it asks for;
* `Gateway.HttpConn.replyTo`, `Gateway.HttpConn.told` — the answer for a verdict, as bytes and as
  the members of an object;
* `Gateway.HttpConn.RoundTrip` — a message answers a request.

Main results:

* `Gateway.HttpConn.parse_replyTo` — the answer is the object;
* `Gateway.HttpConn.InferRequest.answered` — the task, and the answer to it;
* `Gateway.HttpConn.inference_round_trip` — **every request of a connection comes back answered**.
-/

import InferenceGateway.HttpAnswer
import InferenceGateway.HttpClient
import InferenceGateway.HttpFields
import InferenceGateway.HttpGrammar

set_option relaxedAutoImplicit false
set_option autoImplicit false

namespace Gateway

open CString (Single)
open Json (Plain FlatObject Literal utf8 parse)

/-! ### The answer for a verdict -/

/-- The members of a failure. -/
def failMembers (msg : Bytes) : List (Bytes × Json) :=
  [(ascii "status", .string (ascii "error")), (ascii "msg", .string msg)]

/-- A text without quotes and escapes makes a failure with that text. -/
theorem parse_failure (msg : Bytes) (hutf : utf8 msg = true) (hp : Plain msg) :
    parse (errorPrefix ++ 34 :: (msg ++ [34, 125])) = some (.object (failMembers msg)) := by
  refine Json.parse_of_parseValue (n := 4) (r := []) ((utf8_failure msg).trans hutf) ?_ rfl
  rw [parseValue_errorPrefix 0, Json.parseChars_plain hp, Option.bind_some, Json.decode_bytes]
  rfl

namespace HttpConn

open EventSystem

/-- What `do_request` answers: the scheduler has refused the task, or has come to a verdict. -/
def replyTo (name : Bytes) : Option (Verdict Single) → Reply
  | none => overloadedReply
  | some verdict => verdict.reply CString.printF name

/-- The members of that answer. -/
def told (name : Bytes) : Option (Verdict Single) → List (Bytes × Json)
  | none => failMembers (ascii "server overloaded, queue full")
  | some .timedOut => failMembers (ascii "inference timeout")
  | some (.failed errorMsg) => failMembers (errorText errorMsg)
  | some (.succeeded out) => okMembers name out

/-- What can be told: finite numbers, and errors without quotes and escapes. -/
def Tellable : Option (Verdict Single) → Prop
  | some (.failed errorMsg) => utf8 (errorText errorMsg) = true ∧ Plain (errorText errorMsg)
  | some (.succeeded out) => ∀ x ∈ out, x.isFinite = true
  | _ => True

/-- **The answer for a verdict is an object** with the members that tell it. -/
theorem parse_replyTo {name : Bytes} (hname : PlainName name) {scheduler : Option (Verdict Single)}
    (h : Tellable scheduler) :
    parse (replyTo name scheduler).body = some (.object (told name scheduler)) := by
  cases scheduler with
  | none =>
      exact parse_failure (ascii "server overloaded, queue full") (by decide) (by decide)
  | some verdict =>
      cases verdict with
      | timedOut => exact parse_failure (ascii "inference timeout") (by decide) (by decide)
      | failed errorMsg =>
          rw [replyTo, reply_failed]
          exact parse_failure _ h.1 h.2
      | succeeded out =>
          rw [replyTo, reply_succeeded]
          exact parse_success hname h

theorem zero_not_mem_replyTo {name : Bytes} (h0 : 0 ∉ name) (scheduler : Option (Verdict Single)) :
    0 ∉ (replyTo name scheduler).body := by
  cases scheduler with
  | none =>
      change 0 ∉ overloadedReply.body
      decide
  | some verdict => exact zero_not_mem_reply h0 verdict

/-! ### A request for an inference -/

/-- A request for an inference: a `POST` to the route with the body of an object that has the name
of a model and some numbers. -/
structure InferRequest extends RequestText where
  object : FlatObject
  name : Bytes
  numbers : List Literal
  post : method = .post
  route : path = ascii "/infer"
  keeps : keepsAlive headers = true
  fits : toRequestText.text.length < readBufferSize
  content : body = object.text
  noZeros : 0 ∉ body
  plainName : PlainName name
  named : name ≠ []
  model : ∃ ps h, object.lookup (ascii "model") = some (.string name ps h)
  some_numbers : numbers ≠ []
  input : object.lookup (ascii "input") = some (.array (numbers.map .number))

namespace InferRequest

variable (r : InferRequest) {F : Type} (value : Bytes → F) (svc : Service F) (now : ℤ)

/-- The priority that a request asks for. -/
def priority : ℤ := (r.object.lookup (ascii "priority")).elim 1 (intOf 1)

/-- The task that a request asks for. -/
def task : InferenceTask F where
  modelName := r.name
  inputData := r.numbers.map fun l => value l.text
  priority := r.priority
  deadline := now + svc.taskTimeoutSec
  clientFd := svc.sockfd

theorem stringOf_model : (r.object.lookup (ascii "model")).elim [] stringOf = r.name := by
  obtain ⟨ps, h, hlookup⟩ := r.model
  rw [hlookup]
  refine List.takeWhile_eq_self_iff.2 fun b hb => ?_
  exact decide_eq_true (r.plainName.plain b hb).2.1

/-- The body of a request is not empty: it has its braces. -/
theorem body_ne_nil : r.body ≠ [] := by
  rw [r.content, FlatObject.text]
  simp

/-- What is read of a request. -/
theorem read_request {c : HttpConn} (hreq : c.request = r.request) :
    c.method = .post ∧ (∃ u, c.url = some u ∧ c.str u = ascii "/infer") ∧
      0 < c.contentLength ∧ c.body = r.object.text := by
  have hmethod : c.method = .post := (congrArg Request.method hreq).trans r.post
  have hurl : c.url.map c.str = some (ascii "/infer") :=
    (congrArg Request.url hreq).trans (congrArg some r.route)
  have hlen : c.contentLength = r.body.length := congrArg Request.contentLength hreq
  have hpos : 0 < c.contentLength := by
    rw [hlen]
    exact Int.natCast_pos.2 (List.length_pos_iff.2 r.body_ne_nil)
  have hbody : (if c.contentLength ≤ 0 then none else some c.body) =
      if r.body = [] then none else some (CString.cut r.body) := congrArg Request.body hreq
  rw [if_neg hpos.not_ge, if_neg r.body_ne_nil, CString.cut_of_not_mem r.noZeros,
    r.content] at hbody
  exact ⟨hmethod, Option.map_eq_some_iff.1 hurl, hpos, Option.some.inj hbody⟩

/-- **The task is what the request asks for.** -/
theorem requestTask_eq (hvalue : svc.ofText = strtof value) {c : HttpConn}
    (hreq : c.request = r.request) : c.requestTask svc now = r.task value svc now := by
  obtain ⟨-, -, -, hbody⟩ := r.read_request hreq
  have hname : (r.name.isEmpty = true) = False := by simp [r.named]
  rw [requestTask, hbody, hvalue, jsonGetString_lookup _ name_model, r.stringOf_model,
    jsonGetFloatArray_lookup _ _ name_input, r.input, jsonGetInt_lookup _ name_priority,
    InferenceTask.make, task, priority]
  simp only [hname, if_false, Option.elim_some, floatsOf, leadingNumbers_numbers]

/-- **`do_request` hands the task to the scheduler.** -/
theorem doRequest_eq (hinit : svc.initialized = true) (hvalue : svc.ofText = strtof value)
    (scheduler : Option (Verdict F)) {c : HttpConn} (hreq : c.request = r.request) :
    c.doRequest svc now scheduler =
      .ok (c.answerTask svc scheduler (r.task value svc now)) := by
  obtain ⟨hmethod, ⟨u, hu, hroute⟩, hpos, -⟩ := r.read_request hreq
  rw [doRequest, if_neg (not_not.2 hmethod), hu]
  dsimp only
  rw [if_neg (not_not.2 hroute), if_neg hpos.not_ge, hinit,
    r.requestTask_eq value svc now hvalue hreq]
  rfl

end InferRequest

/-! ### The answer -/

/-- What the scheduler makes of the task is what the client is told. -/
theorem answerTask_replyTo (svc : Service Single) (scheduler : Option (Verdict Single))
    (task : InferenceTask Single) {c : HttpConn} (hsome : task.inputData ≠ [])
    (h0 : 0 ∉ task.modelName) (hstatus : c.responseStatus = 200) :
    (c.answerTask svc.onFloats scheduler task).1 = .jsonResponse ∧
      (c.answerTask svc.onFloats scheduler task).2.responseStatus =
        (replyTo task.modelName scheduler).status ∧
      (c.answerTask svc.onFloats scheduler task).2.responseBody =
        (replyTo task.modelName scheduler).body := by
  have hcut := CString.cut_of_not_mem (zero_not_mem_replyTo h0 scheduler)
  have hinput : ¬ task.inputData.isEmpty = true := by simpa using hsome
  unfold answerTask
  rw [if_neg hinput]
  cases scheduler with
  | none => exact ⟨rfl, rfl, hcut⟩
  | some verdict =>
      have hreply : (replyTo task.modelName (some verdict)).status = 200 := by cases verdict <;> rfl
      exact ⟨rfl, hstatus.trans hreply.symm, hcut⟩

/-- A message answers a request: the parser leaves the task of the request for the scheduler, and
what comes of it is told, with the status that belongs to it. -/
structure RoundTrip (value : Bytes → Single) (svc : Service Single) (r : InferRequest)
    (e : Served Single) (m : Message) : Prop where
  task : ∃ now c, ((fresh readBufferSize).append r.text).processRead = .ok (.getRequest, c) ∧
    c.doRequest svc.onFloats now e.scheduler =
      .ok (c.answerTask svc.onFloats e.scheduler (r.task value svc.onFloats now))
  start : m.start = Message.answerStart (replyTo r.name e.scheduler).status
  reply : m.body = (replyTo r.name e.scheduler).body
  told : Tellable e.scheduler → parse m.body = some (.object (told r.name e.scheduler))

namespace InferRequest

variable (r : InferRequest) {value : Bytes → Single} {svc : Service Single}

/-- What `process` makes of a request for an inference, wherever it was read. -/
theorem replies (hinit : svc.initialized = true) (hvalue : svc.ofText = strtof value) (now : ℤ)
    (scheduler : Option (Verdict Single)) {c d : HttpConn}
    (hread : c.processRead = .ok (.getRequest, d)) (hreq : d.request = r.request)
    (hout : d.core.output = (fresh readBufferSize).output) :
    ∃ p, c.process svc.onFloats now scheduler = .ok p ∧ p.written = true ∧ p.conn.Prepared ∧
      p.conn.linger = true ∧ p.conn.writeBuf =
        (Message.answer true (replyTo r.name scheduler).status
          (replyTo r.name scheduler).body).text := by
  have hdo := r.doRequest_eq value svc.onFloats now hinit hvalue scheduler hreq
  have hstatus : d.responseStatus = 200 := congrArg (fun x => x.responseStatus) hout
  have hlinger : d.linger = true := (congrArg Request.linger hreq).trans r.keeps
  obtain ⟨hjson, hcode, hbody⟩ := answerTask_replyTo svc scheduler
    (r.task value svc.onFloats now) (by simp [task, r.some_numbers])
    (fun h0 => absurd (r.plainName.plain 0 h0).1 (by decide)) hstatus
  generalize d.answerTask _ _ _ = x at hdo hjson hcode hbody
  obtain ⟨ret, e⟩ := x
  subst hjson
  have hans := doRequest_answered _ _ _ _ _ _ hdo
  obtain ⟨hok, hrep⟩ := processWrite_replied hans.code hans hout
  refine ⟨_, process_eq hread hdo hans.code, hok, hrep.prepared, hrep.linger.trans hlinger, ?_⟩
  rw [← Message.text_answer, hrep.text, hlinger, hcode, hbody]
  rfl

/-- What is sent for a request that is alone on its connection, and the task behind it. -/
theorem sent (hinit : svc.initialized = true) (hvalue : svc.ofText = strtof value)
    {e : Served Single} (h : Alone svc.onFloats r.text e) :
    (∃ now c, ((fresh readBufferSize).append r.text).processRead = .ok (.getRequest, c) ∧
      c.doRequest svc.onFloats now e.scheduler =
        .ok (c.answerTask svc.onFloats e.scheduler (r.task value svc.onFloats now))) ∧
      e.response = (Message.answer true (replyTo r.name e.scheduler).status
        (replyTo r.name e.scheduler).body).text := by
  obtain ⟨now, p, evs, s, k, hp, hsend, hk, he⟩ := h.exchange
  obtain ⟨c, hread, hreq, -⟩ := r.read r.fits (by decide)
  have hout : c.output = (fresh readBufferSize).output := (processRead_parsed _ _ _ hread).output
  have hdo := r.doRequest_eq value svc.onFloats now hinit hvalue e.scheduler hreq
  obtain ⟨p', hp', -, hprep, -, htext⟩ := r.replies hinit hvalue now e.scheduler hread hreq hout
  obtain rfl := Except.ok.inj (hp'.symm.trans hp)
  have htrack := Sending.tracked_run hprep hsend
  rw [Sending.Tracked, hk] at htrack
  refine ⟨⟨now, c, hread, hdo⟩, ?_⟩
  rw [he]
  exact htrack.1.trans htext

/-- **The answer to a request** that is alone on its connection. -/
theorem answered (hinit : svc.initialized = true) (hvalue : svc.ofText = strtof value)
    {e : Served Single} (h : Alone svc.onFloats r.text e) {m : Message} (hm : Answers e m)
    (hlen : (e.response.length : ℤ) ≤ CString.LONG_MAX) : RoundTrip value svc r e m := by
  obtain ⟨htask, hsent⟩ := r.sent hinit hvalue h
  have htext := hm.text.trans hsent
  -- the message is the only one with this text
  have hframed : (Message.answer true (replyTo r.name e.scheduler).status
      (replyTo r.name e.scheduler).body).Framed := by
    rw [hsent] at hlen
    exact Message.framed_of_text (.inl rfl : HttpOut.Answered .jsonResponse) hlen
  have hread := Message.read_text hm.framed []
  rw [htext, Message.read_text hframed] at hread
  obtain ⟨rfl, -⟩ := Prod.mk.inj (Option.some.inj hread)
  exact ⟨htask, rfl, rfl, fun htell => parse_replyTo r.plainName htell⟩

/-- **A request is served**, in whatever parts it comes. -/
theorem serve (hinit : svc.initialized = true) (hvalue : svc.ofText = strtof value)
    (scheduler : Option (Verdict Single)) {c : HttpConn} (hc : c.core = fresh readBufferSize)
    {parts : List Bytes} (hparts : parts.flatten = r.text) (hne : ∀ q ∈ parts, q ≠ []) :
    ∃ e d, d.core = fresh readBufferSize ∧ Alone svc.onFloats r.text e ∧
      e.scheduler = scheduler ∧ ∀ qs' log d', KeepAlive svc.onFloats d qs' log d' →
        KeepAlive svc.onFloats c (parts ++ qs') (e :: log) d' := by
  obtain ⟨d, hread, hreq, -⟩ := r.read r.fits (by decide)
  have hdo := r.doRequest_eq value svc.onFloats 0 hinit hvalue scheduler hreq
  have hproc := process_eq hread hdo (doRequest_answered _ _ _ _ _ _ hdo).code
  have hcomplete := r.complete r.fits r.keeps
  exact hcomplete.serve hproc (waiting_init hc) hparts hne hcomplete.pos

end InferRequest

/-! ### Main result -/

/-- What is in order with the same list is in order with each other. -/
theorem forall₂_zip_left {α β γ : Type*} {R : α → β → Prop} {S : β → γ → Prop}
    {P : α × β → γ → Prop} (h : ∀ a b c, R a b → S b c → P (a, b) c) {l₁ : List α} {l₂ : List β}
    {l₃ : List γ} (h₁ : List.Forall₂ R l₁ l₂) (h₂ : List.Forall₂ S l₂ l₃) :
    List.Forall₂ P (l₁.zip l₂) l₃ := by
  induction h₁ generalizing l₃ with
  | nil =>
      cases h₂
      exact .nil
  | cons hr _ ih =>
      cases h₂ with
      | cons hs hrest => exact .cons (h _ _ _ hr hs) (ih hrest)

/-- The requests that a run has answered, and the messages for them. -/
theorem KeepAlive.answers {value : Bytes → Single} {svc : Service Single}
    (hinit : svc.initialized = true) (hvalue : svc.ofText = strtof value)
    {requests : List InferRequest} {chunks : List Bytes}
    (hsent : chunks.flatten = (requests.map fun r => r.text).flatten)
    (haligned : Aligned (requests.map fun r => r.text) chunks) {log : List (Served Single)}
    {d : HttpConn} (hrun : KeepAlive svc.onFloats (fresh readBufferSize) chunks log d)
    (hlen : ∀ e ∈ log, (e.response.length : ℤ) ≤ CString.LONG_MAX) {pieces : List Bytes}
    (hpieces : pieces.flatten = log.flatMap Served.response) :
    ∃ ms, Message.code.receive pieces = (ms, []) ∧ requests.length = log.length ∧
      List.Forall₂ (fun x m => Alone svc.onFloats x.1.text x.2 ∧ RoundTrip value svc x.1 x.2 m)
        (requests.zip log) ms := by
  have hcomplete : ∀ t ∈ requests.map fun r => r.text, CompleteRequest t := by
    intro t ht
    obtain ⟨r, -, rfl⟩ := List.mem_map.1 ht
    exact r.complete r.fits r.keeps
  obtain ⟨ms, hms⟩ := answers_run hrun (waiting_init rfl) hlen
  obtain ⟨halone, -⟩ := (keepAlive_iff hcomplete hsent rfl hrun).2 haligned
  have hlength := halone.length_eq
  rw [List.length_map] at hlength
  refine ⟨ms, ?_, hlength, ?_⟩
  · refine receive_answers hms Message.code.decode_nil ?_
    rw [List.append_nil, hpieces]
  · rw [List.forall₂_map_left_iff] at halone
    refine forall₂_zip_left (fun r e m hr hm => ?_) halone
      ((List.forall₂_and_left _ _).2 ⟨hlen, hms⟩)
    exact ⟨hr, r.answered hinit hvalue hr hm.2 hm.1⟩

/-- **Every request of a connection comes back answered.**  When requests for inferences arrive in
chunks that keep them apart, the client reads one message for each of them, in their order and
whatever pieces it gets, and the message tells what the scheduler made of the task that the request
asks for. -/
theorem inference_round_trip {value : Bytes → Single} {svc : Service Single}
    (hinit : svc.initialized = true) (hvalue : svc.ofText = strtof value)
    {requests : List InferRequest} {chunks : List Bytes}
    (hsent : chunks.flatten = (requests.map fun r => r.text).flatten)
    (haligned : Aligned (requests.map fun r => r.text) chunks) {log : List (Served Single)}
    {d : HttpConn} (hrun : KeepAlive svc.onFloats (fresh readBufferSize) chunks log d)
    (hlen : ∀ e ∈ log, (e.response.length : ℤ) ≤ CString.LONG_MAX) {pieces : List Bytes}
    (hpieces : pieces.flatten = log.flatMap Served.response) :
    ∃ ms, Message.code.receive pieces = (ms, []) ∧ requests.length = log.length ∧
      List.Forall₂ (fun x m => RoundTrip value svc x.1 x.2 m) (requests.zip log) ms := by
  obtain ⟨ms, hms, hlength, hall⟩ :=
    hrun.answers hinit hvalue hsent haligned hlen hpieces
  exact ⟨ms, hms, hlength, hall.imp fun _ _ h => h.2⟩

/-- A request whose body is the object of `noteMembers`. -/
def noteRequest : InferRequest where
  line := ascii "POST /infer HTTP/1.1"
  method := .post
  path := ascii "/infer"
  headers := [ascii "Connection: keep-alive", ascii "Content-Length: 58"]
  body := (noteObject noteMembers (by decide)).text
  unbroken := by decide
  noZero := by decide
  grammar := ⟨ascii "/infer", 5,
    .mk (ascii "POST") (ascii " ") (ascii "/infer") (ascii " ") (ascii "HTTP/1.1") rfl
      ⟨by decide, CString.forall_of_all rfl⟩ (by decide) (CString.forall_of_all rfl)
      ⟨by decide, CString.forall_of_all rfl⟩ rfl,
    .origin (ascii "infer")⟩
  headerLines := by
    intro l hl
    simp only [List.mem_cons, List.not_mem_nil, or_false] at hl
    rcases hl with rfl | rfl
    · exact ⟨by decide, by decide, by decide⟩
    · exact ⟨by decide, by decide, by decide⟩
  length := by decide
  object := noteObject noteMembers (by decide)
  name := ascii "m"
  numbers := [literalOne]
  post := rfl
  route := rfl
  keeps := by decide
  fits := by decide
  content := rfl
  noZeros := by decide
  plainName := ⟨by decide, CString.forall_of_all rfl⟩
  named := by decide
  model := ⟨_, _, rfl⟩
  some_numbers := by simp
  input := rfl

/-- The number 2. -/
def literalTwo : Literal where
  negative := false
  whole := [50]
  fraction := none
  exponent := none
  whole_ok := by decide
  whole_zero := by decide
  fraction_ok := Json.digits_of_none

theorem plain_input : Json.Plain (ascii "input") := by decide

theorem plain_model : Json.Plain (ascii "model") := by decide

theorem plain_n : Json.Plain (ascii "n") := by decide

/-- The members of `{"input":[2,1],"model":"n"}`. -/
def pairMembers : List Json.Member :=
  [bareMember (ascii "input") plain_input (.array [.number literalTwo, .number literalOne]),
    bareMember (ascii "model") plain_model
      (.string (ascii "n") ((ascii "n").map .byte) (Json.spelled_bytes plain_n))]

/-- A request whose body is the object of `pairMembers`. -/
def pairRequest : InferRequest where
  line := ascii "POST /infer HTTP/1.1"
  method := .post
  path := ascii "/infer"
  headers := [ascii "Connection: keep-alive", ascii "Content-Length: 27"]
  body := (noteObject pairMembers (by decide)).text
  unbroken := by decide
  noZero := by decide
  grammar := ⟨ascii "/infer", 5,
    .mk (ascii "POST") (ascii " ") (ascii "/infer") (ascii " ") (ascii "HTTP/1.1") rfl
      ⟨by decide, CString.forall_of_all rfl⟩ (by decide) (CString.forall_of_all rfl)
      ⟨by decide, CString.forall_of_all rfl⟩ rfl,
    .origin (ascii "infer")⟩
  headerLines := by
    intro l hl
    simp only [List.mem_cons, List.not_mem_nil, or_false] at hl
    rcases hl with rfl | rfl
    · exact ⟨by decide, by decide, by decide⟩
    · exact ⟨by decide, by decide, by decide⟩
  length := by decide
  object := noteObject pairMembers (by decide)
  name := ascii "n"
  numbers := [literalTwo, literalOne]
  post := rfl
  route := rfl
  keeps := by decide
  fits := by decide
  content := rfl
  noZeros := by decide
  plainName := ⟨by decide, CString.forall_of_all rfl⟩
  named := by decide
  model := ⟨_, _, rfl⟩
  some_numbers := by simp
  input := rfl

/-- The numbers one and two, as far as they are needed. -/
def smallValue (t : Bytes) : Single := if t = ascii "2" then two else oneService.ofText t

/-- A service that reads them, behind blanks. -/
def noteService : Service Single := { oneService with ofText := strtof smallValue }

/-- The requests in three parts and in two, cut inside a line, the headers and the body. -/
def noteParts : List Bytes :=
  [noteRequest.text.take 9, (noteRequest.text.take 50).drop 9, noteRequest.text.drop 50]

def pairParts : List Bytes := [pairRequest.text.take 85, pairRequest.text.drop 85]

set_option maxRecDepth 4000 in
theorem noteParts_ok : noteParts.flatten = noteRequest.text ∧ ∀ q ∈ noteParts, q ≠ [] := by
  decide

set_option maxRecDepth 4000 in
theorem pairParts_ok : pairParts.flatten = pairRequest.text ∧ ∀ q ∈ pairParts, q ≠ [] := by
  decide

set_option maxRecDepth 4000 in
/-- Those requests on one connection: the first has an output and the second comes too late.  The
client gets the answers in three pieces that end inside of them. -/
theorem inference_round_trip_pair :
    ∃ e₁ e₂ d m₁ m₂,
      KeepAlive noteService.onFloats (fresh readBufferSize) (noteParts ++ pairParts) [e₁, e₂] d ∧
      Message.code.receive [e₁.response.take 9, e₁.response.drop 9 ++ e₂.response.take 40,
        e₂.response.drop 40] = ([m₁, m₂], []) ∧
      parse m₁.body = some (.object (told (ascii "m") (some (.succeeded [two])))) ∧
      parse m₂.body = some (.object (told (ascii "n") (some .timedOut))) := by
  have hvalue : noteService.ofText = strtof smallValue := rfl
  obtain ⟨hnote, hnote'⟩ := noteParts_ok
  obtain ⟨hpair, hpair'⟩ := pairParts_ok
  obtain ⟨e₁, d₁, hfresh, halone₁, hv₁, hrun₁⟩ := noteRequest.serve rfl hvalue
    (some (.succeeded [two])) (c := fresh readBufferSize) rfl hnote hnote'
  obtain ⟨e₂, d₂, -, halone₂, hv₂, hrun₂⟩ := pairRequest.serve rfl hvalue (some .timedOut)
    hfresh hpair hpair'
  have hrun := hrun₁ _ _ _ (hrun₂ _ _ _ .done)
  rw [List.append_nil] at hrun
  have hsent : (noteParts ++ pairParts).flatten =
      ([noteRequest, pairRequest].map fun r => r.text).flatten := by
    rw [List.flatten_append, hnote, hpair]
    simp
  have haligned := (aligned_nil.parts pairParts).parts noteParts
  rw [hnote, hpair, List.append_nil] at haligned
  have hlen : ∀ e ∈ [e₁, e₂], (e.response.length : ℤ) ≤ CString.LONG_MAX := by
    simp only [List.forall_mem_cons, (noteRequest.sent rfl hvalue halone₁).2,
      (pairRequest.sent rfl hvalue halone₂).2, hv₁, hv₂]
    decide
  have hpieces : [e₁.response.take 9, e₁.response.drop 9 ++ e₂.response.take 40,
      e₂.response.drop 40].flatten = [e₁, e₂].flatMap Served.response := by
    have hfirst : ∀ s : Bytes, e₁.response.take 9 ++ (e₁.response.drop 9 ++ s) = e₁.response ++ s :=
      fun s => by rw [← List.append_assoc, List.take_append_drop]
    simpa using hfirst e₂.response
  obtain ⟨ms, hms, -, hall⟩ := inference_round_trip rfl hvalue hsent haligned hrun hlen hpieces
  cases hall with
  | @cons _ m₁ _ _ hm₁ hrest =>
      cases hrest with
      | @cons _ m₂ _ _ hm₂ hnil =>
          cases hnil
          have htold₁ := hm₁.told
          have htold₂ := hm₂.told
          rw [hv₁] at htold₁
          rw [hv₂] at htold₂
          exact ⟨e₁, e₂, d₂, m₁, m₂, hrun, hms, htold₁ (List.forall_mem_singleton.2 rfl),
            htold₂ trivial⟩

end HttpConn

end Gateway
