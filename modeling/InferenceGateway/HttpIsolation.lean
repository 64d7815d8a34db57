/-
A connection that is used again.

`init` leaves the file of the last response and the two `iovec`s as they are.  Nothing reads them
before they are written again: the parser, `do_request` and `process_write` do the same, whatever
stands there, and `process_write` points `m_iv[0]` at the new response before `write` looks at it.
The only exception would be a response of the kind `FILE_REQUEST`, which reads the size of the last
file, and no request leads to one.

* `Gateway.HttpConn.core` — a connection without what `init` leaves;
* `Gateway.HttpConn.processRead_core`, `Gateway.HttpConn.doRequest_core`,
  `Gateway.HttpConn.processWrite_core` — nothing reads the rest;
* `Gateway.HttpConn.reuse_isolated` — two histories cannot be told apart.
-/

import InferenceGateway.HttpCodes
import InferenceGateway.HttpFragment
import InferenceGateway.HttpWrite

set_option relaxedAutoImplicit false
set_option autoImplicit false

namespace Gateway.HttpConn

open EventSystem
open CString (strpbrk strspn strncasecmp strcasecmp atol LONG_MAX LONG_MIN)

variable {F : Type} {α β : Type}

/-! ### What `init` leaves -/

/-- A connection without the file and the `iovec`s. -/
@[simps]
def core (c : HttpConn) : HttpConn :=
  { c with fileSize := 0, iov0Base := 0, iov0Len := 0, iov1Base := 0, iov1Len := 0, iovCount := 0 }

theorem core_init (c : HttpConn) : c.init.core = fresh readBufferSize := rfl

/-- What a part of the parser returns, without the file and the `iovec`s. -/
def coreOf (r : Except Fault (α × HttpConn)) : Except Fault (α × HttpConn) :=
  r.map (Prod.map id core)

/-- The connection that a part leaves goes into the next one. -/
theorem map_core_bind (r : Except Fault HttpConn) (g : HttpConn → Except Fault β) :
    r.map core >>= g = r >>= fun c => g c.core := by
  cases r <;> rfl

theorem coreOf_bind (r : Except Fault (α × HttpConn)) (g : α × HttpConn → Except Fault β) :
    coreOf r >>= g = r >>= fun x => g (x.1, x.2.core) := by
  cases r <;> rfl

theorem bind_coreOf (r : Except Fault α) (g : α → Except Fault (β × HttpConn)) :
    coreOf (r >>= g) = r >>= fun x => coreOf (g x) := by
  cases r <;> rfl

/-! ### The parser -/

section Parser

variable (c : HttpConn)

theorem str_core (i : ℕ) : c.core.str i = c.str i := rfl

theorem byteAt_core (i : ℕ) : c.core.byteAt i = c.byteAt i := rfl

theorem readIdx_core : c.core.readIdx = c.readIdx := rfl

theorem skipScheme_core (scheme : Bytes) (url : Option ℕ) :
    c.core.skipScheme scheme url = c.skipScheme scheme url := rfl

theorem append_core (q : Bytes) : c.core.append q = (c.append q).core := rfl

theorem nextLine_core : c.core.nextLine = c.nextLine.core := rfl

theorem store_core (i : ℤ) : c.core.store i = (c.store i).map core := by
  unfold store
  rw [core_readBufSize]
  split <;> rfl

theorem endLine_core (i : ℕ) : c.core.endLine i = (c.endLine i).map core := by
  unfold endLine
  rw [store_core, map_core_bind]
  cases c.store i with
  | error f => rfl
  | ok d =>
      change d.core.store _ >>= _ = (d.store _ >>= _ : Except Fault HttpConn).map core
      rw [store_core]
      cases d.store (i + 1 : ℕ) <;> rfl

theorem parseLineLoop_core (n : ℕ) : parseLineLoop n c.core = coreOf (parseLineLoop n c) := by
  induction n generalizing c with
  | zero => rfl
  | succ n ih =>
      have hnext := ih { c with checkedIdx := c.checkedIdx + 1 }
      unfold parseLineLoop
      simp only [core_checkedIdx, byteAt_core, readIdx_core, endLine_core, map_core_bind]
      split
      · split
        · rfl
        · split
          · rw [bind_coreOf]
            rfl
          · rfl
      · split
        · split
          · rw [bind_coreOf]
            rfl
          · rfl
        · exact hnext

theorem parseLine_core : c.core.parseLine = coreOf c.parseLine := parseLineLoop_core c _

theorem requestTarget_core (url : ℕ) :
    c.core.requestTarget url = coreOf (c.requestTarget url) := by
  unfold requestTarget
  simp only [skipScheme_core, bind_coreOf]
  refine bind_congr fun u => bind_congr fun v => ?_
  cases v with
  | none => rfl
  | some k =>
      change (if c.byteAt k = 47 then _ else _) = coreOf (if c.byteAt k = 47 then _ else _)
      split <;> rfl

theorem parseRequestLine_core (text : ℕ) :
    c.core.parseRequestLine text = coreOf (c.parseRequestLine text) := by
  unfold parseRequestLine
  rw [str_core]
  cases strpbrk (c.str text) blanks with
  | none => rfl
  | some k =>
      simp only [store_core, map_core_bind, bind_coreOf, str_core]
      refine bind_congr fun d => ?_
      cases methodOf (d.str text) with
      | none => rfl
      | some method =>
          let url := text + k + 1 + strspn (d.str (text + k + 1)) blanks
          dsimp only
          cases strpbrk (d.str url) blanks with
          | none => rfl
          | some j =>
              simp only [bind_coreOf]
              refine bind_congr fun e => ?_
              let version := url + j + 1 + strspn (e.str (url + j + 1)) blanks
              change (if strcasecmp (e.str version) _ then _ else _) =
                coreOf (if strcasecmp (e.str version) _ then _ else _)
              split
              · exact requestTarget_core
                  { e with method := method, url := some url, version := some version } url
              · rfl

theorem parseHeaders_core (text : ℕ) :
    c.core.parseHeaders text = Prod.map id core (c.parseHeaders text) := by
  unfold parseHeaders
  simp only [str_core, core_contentLength]
  split
  · split <;> rfl
  · split
    · split <;> rfl
    · split
      · rfl
      · split <;> rfl

theorem parseContent_core (text : ℕ) :
    c.core.parseContent text = coreOf (c.parseContent text) := by
  unfold parseContent
  simp only [store_core, map_core_bind, core_contentLength, core_checkedIdx, readIdx_core]
  split
  · rfl
  · split
    · rw [bind_coreOf]
      rfl
    · rfl

theorem takeLine_core : c.core.takeLine = coreOf c.takeLine := by
  unfold takeLine
  simp only [nextLine_core, parseRequestLine_core, parseHeaders_core, core_checkState,
    core_startLine]
  split
  · simp only [coreOf_bind, bind_coreOf]
    rfl
  · rfl

theorem takeContent_core : c.core.takeContent = coreOf c.takeContent := by
  unfold takeContent
  simp only [nextLine_core, parseContent_core, core_startLine, coreOf_bind, bind_coreOf]
  rfl

theorem pass_core : c.core.pass = coreOf c.pass := by
  unfold pass
  simp only [core_checkState]
  split
  · exact takeContent_core c
  · rw [parseLine_core, coreOf_bind, bind_coreOf]
    refine bind_congr fun x => ?_
    obtain ⟨status, d⟩ := x
    cases status with
    | lineOk => exact takeLine_core d
    | lineBad | lineOpen => rfl

theorem processLoop_core (n : ℕ) : processLoop n c.core = coreOf (processLoop n c) := by
  induction n generalizing c with
  | zero => rfl
  | succ n ih =>
      unfold processLoop
      rw [pass_core, coreOf_bind, bind_coreOf]
      refine bind_congr fun x => ?_
      obtain ⟨next, d⟩ := x
      cases next with
      | again => exact ih d
      | stop ret => rfl

/-- **The parser does not read what `init` leaves.** -/
theorem processRead_core : c.core.processRead = coreOf c.processRead := processLoop_core c _

end Parser

/-! ### The answer -/

section Answer

variable (svc : Service F) (now : ℤ) (scheduler : Option (Verdict F)) (c : HttpConn)

theorem requestTask_core : c.core.requestTask svc now = c.requestTask svc now := rfl

theorem answerTask_core (task : InferenceTask F) :
    c.core.answerTask svc scheduler task = Prod.map id core (c.answerTask svc scheduler task) := by
  unfold answerTask
  split
  · rfl
  · cases scheduler <;> rfl

/-- **`do_request` does not read what `init` leaves.** -/
theorem doRequest_core :
    c.core.doRequest svc now scheduler = coreOf (c.doRequest svc now scheduler) := by
  unfold doRequest
  simp only [core_method, core_url, str_core, core_contentLength, requestTask_core,
    answerTask_core]
  split
  · rfl
  · cases c.url with
    | none => rfl
    | some url =>
        dsimp only
        split
        · rfl
        · split
          · rfl
          · split <;> rfl

theorem readRequest_core :
    c.core.readRequest svc now scheduler = coreOf (c.readRequest svc now scheduler) := by
  unfold readRequest
  rw [processRead_core, coreOf_bind, bind_coreOf]
  refine bind_congr fun x => ?_
  obtain ⟨ret, d⟩ := x
  cases ret with
  | getRequest => exact doRequest_core svc now scheduler d
  | _ => rfl

end Answer

/-! ### The response -/

section Response

variable (c : HttpConn)

theorem addResponse_core (text : Bytes) : c.core.addResponse text = (c.addResponse text).core := by
  unfold addResponse
  change (if text.length < max 1 (c.writeBufSize - c.writeIdx) then _ else _) = _
  dsimp only
  split <;> rfl

theorem addStatusLine_core (status : ℕ) (title : Bytes) :
    c.core.addStatusLine status title = (c.addStatusLine status title).core :=
  addResponse_core c _

theorem addContentLength_core (n : ℕ) :
    c.core.addContentLength n = (c.addContentLength n).core :=
  addResponse_core c _

theorem addLinger_core : c.core.addLinger = c.addLinger.core := addResponse_core c _

theorem addBlankLine_core : c.core.addBlankLine = c.addBlankLine.core := addResponse_core c _

theorem addContent_core (content : Bytes) :
    c.core.addContent content = (c.addContent content).core :=
  addResponse_core c content

theorem addErrorPage_core (status : ℕ) (title form : Bytes) :
    c.core.addErrorPage status title form = (c.addErrorPage status title form).core := by
  simp only [addErrorPage, addHeaders, addStatusLine_core, addContentLength_core, addLinger_core,
    addBlankLine_core, addContent_core]

theorem addJson_core : c.core.addJson = c.addJson.core := by
  unfold addJson
  simp only [core_responseStatus, addStatusLine_core]
  split <;>
    simp only [addResponse_core, addContentLength_core, addLinger_core, addBlankLine_core,
      addContent_core, core_responseBody]

/-- A connection without the file and the second `iovec`: what `write` reads of it when the
response is in `m_write_buf`. -/
@[simps]
def sendCore (c : HttpConn) : HttpConn := { c with fileSize := 0, iov1Base := 0, iov1Len := 0 }

theorem pointAtResponse_core : c.core.pointAtResponse.sendCore = c.pointAtResponse.sendCore := rfl

/-- **`process_write` does not read what `init` leaves**, and points `m_iv[0]` at the response. -/
theorem processWrite_core {ret : HttpCode} (h : ret ≠ .fileRequest) :
    (c.core.processWrite ret).1 = (c.processWrite ret).1 ∧
      ((c.processWrite ret).1 = true →
        (c.core.processWrite ret).2.sendCore = (c.processWrite ret).2.sendCore) := by
  unfold processWrite
  cases ret with
  | internalError | noResource | badRequest | forbiddenRequest =>
      simp only [addErrorPage_core, pointAtResponse_core, true_and, implies_true]
  | jsonResponse => simp only [addJson_core, pointAtResponse_core, true_and, implies_true]
  | fileRequest => exact absurd rfl h
  | noRequest | getRequest | closedConnection => exact ⟨rfl, nofun⟩

end Response

/-- Where `process_write` makes no response it leaves the connection. -/
theorem processWrite_refused {c : HttpConn} {ret : HttpCode} (h : (c.processWrite ret).1 = false) :
    (c.processWrite ret).2 = c := by
  unfold processWrite at h ⊢
  cases ret with
  | noRequest | getRequest | closedConnection => rfl
  | internalError | noResource | badRequest | forbiddenRequest | jsonResponse => cases h
  | fileRequest =>
      dsimp only at h
      split at h <;> cases h

/-! ### Exchanges -/

/-- Two runs with the same fault, or with results that are related. -/
inductive Agree (R : α → α → Prop) : Except Fault α → Except Fault α → Prop
  | error (f : Fault) : Agree R (.error f) (.error f)
  | ok {a b : α} : R a b → Agree R (.ok a) (.ok b)

theorem Agree.mono {R S : α → α → Prop} (h : ∀ a b, R a b → S a b) {r r' : Except Fault α}
    (hr : Agree R r r') : Agree S r r' := by
  cases hr with
  | error f => exact .error f
  | ok hab => exact .ok (h _ _ hab)

/-- Results that differ only in what `init` leaves. -/
structure Alike (p p' : Processed) : Prop where
  code : p.code = p'.code
  written : p.written = p'.written
  core : p.conn.core = p'.conn.core
  send : p.written = true → p.conn.sendCore = p'.conn.sendCore

theorem core_sendCore (c : HttpConn) : c.sendCore.core = c.core := rfl

section Exchange

variable (svc : Service F) (now now' : ℤ) (scheduler : Option (Verdict F)) {c d : HttpConn}

/-- The time only counts for the deadline of the task, and the answer does not show it. -/
theorem readRequest_now (c : HttpConn) :
    c.readRequest svc now scheduler = c.readRequest svc now' scheduler := rfl

theorem process_alike (h : c.core = d.core) :
    Agree Alike (c.process svc now scheduler) (d.process svc now' scheduler) := by
  have hread : coreOf (c.readRequest svc now scheduler) =
      coreOf (d.readRequest svc now' scheduler) := by
    rw [← readRequest_core, ← readRequest_core, h, readRequest_now svc now now']
  have hcode := readRequest_code c svc now scheduler
  unfold process
  generalize c.readRequest svc now scheduler = r at hread hcode
  generalize d.readRequest svc now' scheduler = r' at hread
  cases r with
  | error f =>
      cases r' with
      | error f' =>
          cases hread
          exact .error f
      | ok x' => cases hread
  | ok x =>
      cases r' with
      | error f' => cases hread
      | ok x' =>
          obtain ⟨ret, e⟩ := x
          obtain ⟨ret', e'⟩ := x'
          obtain ⟨hret, hcore⟩ := Prod.mk.inj (Except.ok.inj hread)
          change ret = ret' at hret
          subst hret
          have hne := hcode ret e rfl
          obtain ⟨hw, hs⟩ := processWrite_core e hne
          obtain ⟨hw', hs'⟩ := processWrite_core e' hne
          -- both responses are formatted from the same core
          rw [← hcore] at hw' hs'
          change Agree Alike (if ret = .noRequest then _ else _) (if ret = .noRequest then _ else _)
          split
          · exact .ok ⟨rfl, rfl, hcore, nofun⟩
          · have hwritten := hw.symm.trans hw'
            have hsend : (e.processWrite ret).1 = true →
                (e.processWrite ret).2.sendCore = (e'.processWrite ret).2.sendCore := by
              intro hok
              exact (hs hok).symm.trans (hs' (hwritten ▸ hok))
            refine .ok ⟨rfl, hwritten, ?_, hsend⟩
            change (e.processWrite ret).2.core = (e'.processWrite ret).2.core
            cases hok : (e.processWrite ret).1 with
            | true => rw [← core_sendCore, hsend hok, core_sendCore]
            | false =>
                rw [processWrite_refused hok, processWrite_refused (hwritten ▸ hok)]
                exact hcore

theorem exchange_alike (chunks : List Bytes) (h : c.core = d.core) :
    Agree Alike (exchange svc now scheduler c chunks) (exchange svc now' scheduler d chunks) := by
  induction chunks generalizing c d with
  | nil => exact .ok ⟨rfl, rfl, h, nofun⟩
  | cons q qs ih =>
      have happ : (c.append q).core = (d.append q).core := by rw [← append_core, h, append_core]
      have hproc := process_alike svc now now' scheduler happ
      unfold exchange
      generalize (c.append q).process svc now scheduler = r at hproc
      generalize (d.append q).process svc now' scheduler = r' at hproc
      cases hproc with
      | error f => exact .error f
      | @ok p p' hp =>
          change Agree Alike (if p.code = .noRequest then _ else _)
            (if p'.code = .noRequest then _ else _)
          rw [← hp.code]
          split
          · exact ih hp.core
          · exact .ok hp

end Exchange

/-! ### Sending -/

/-- What `write` reads of a connection is the same, and so is what was sent. -/
structure SameSending (s t : Sending) : Prop where
  conn : s.conn.sendCore = t.conn.sendCore
  wire : s.wire = t.wire
  phase : s.phase = t.phase

theorem advance_sendCore (c : HttpConn) (n : ℕ) :
    (c.sendCore.advance n).sendCore = (c.advance n).sendCore := by
  unfold advance
  dsimp only
  simp only [sendCore_iov0Len, sendCore_bytesHaveSend]
  split <;> rfl

theorem take_same {s t : Sending} (h : SameSending s t) (n : ℕ) :
    SameSending (s.take n) (t.take n) := by
  obtain ⟨hconn, hwire, -⟩ := h
  have hadv : (s.conn.advance n).sendCore = (t.conn.advance n).sendCore := by
    rw [← advance_sendCore, hconn, advance_sendCore]
  have hbuf := congrArg HttpConn.writeBuf hconn
  have hbase := congrArg HttpConn.iov0Base hconn
  have hsend := congrArg HttpConn.bytesToSend hadv
  have hlinger := congrArg HttpConn.linger hadv
  simp only [sendCore_writeBuf, sendCore_iov0Base, sendCore_bytesToSend, sendCore_linger]
    at hbuf hbase hsend hlinger
  unfold Sending.take
  dsimp only
  rw [hsend, hlinger, hbuf, hbase, hwire]
  split
  · split
    · refine ⟨?_, rfl, rfl⟩
      have hinit := congrArg (fun c => c.init.sendCore) hadv
      exact hinit
    · exact ⟨hadv, rfl, rfl⟩
  · exact ⟨hadv, rfl, rfl⟩

/-- **A step of `write` is the same step** on the other connection. -/
theorem write_same {s s' t : Sending} {e : WriteEvent} (h : SameSending s t)
    (hs : WriteStep s e s') : ∃ t', WriteStep t e t' ∧ SameSending s' t' := by
  have hsend := congrArg HttpConn.bytesToSend h.conn
  have hcount := congrArg HttpConn.iovCount h.conn
  have hlen := congrArg HttpConn.iov0Len h.conn
  simp only [sendCore_bytesToSend, sendCore_iovCount, sendCore_iov0Len] at hsend hcount hlen
  cases hs with
  | call hp hne => exact ⟨_, .call (h.phase ▸ hp) (hsend ▸ hne), h.conn, h.wire, rfl⟩
  | callDone hp h0 =>
      refine ⟨_, .callDone (h.phase ▸ hp) (hsend ▸ h0), ?_, h.wire, rfl⟩
      exact congrArg (fun c => c.init.sendCore) h.conn
  | sent hp hmode hle hzero =>
      refine ⟨_, .sent (h.phase ▸ hp) (hcount ▸ hmode) (hlen ▸ hle) ?_, take_same h _⟩
      exact fun hn => hlen ▸ hzero hn
  | again hp => exact ⟨_, .again (h.phase ▸ hp), h.conn, h.wire, rfl⟩
  | failed hp => exact ⟨_, .failed (h.phase ▸ hp), h.conn, h.wire, rfl⟩

theorem writes_same {s s' t : Sending} {evs : List WriteEvent} (h : SameSending s t)
    (hr : Run WriteStep s evs s') : ∃ t', Run WriteStep t evs t' ∧ SameSending s' t' := by
  induction hr with
  | nil => exact ⟨t, .nil, h⟩
  | snoc _ hs ih =>
      obtain ⟨t', ht, hsame⟩ := ih
      obtain ⟨t'', hs', hsame'⟩ := write_same hsame hs
      exact ⟨t'', ht.snoc hs', hsame'⟩

/-! ### Main result -/

/-- What an exchange shows: the code, the fields that the parser has found, the answer, and the
bytes that any run of `write` sends. -/
structure SameExchange (p p' : Processed) : Prop where
  code : p.code = p'.code
  written : p.written = p'.written
  request : p.conn.request = p'.conn.request
  version : p.conn.version.map p.conn.str = p'.conn.version.map p'.conn.str
  host : p.conn.host.map p.conn.str = p'.conn.host.map p'.conn.str
  status : p.conn.responseStatus = p'.conn.responseStatus
  body : p.conn.responseBody = p'.conn.responseBody
  response : p.conn.writeBuf = p'.conn.writeBuf
  sent : p.written = true → ∀ evs s, Run WriteStep (Sending.start p.conn) evs s →
    ∃ s', Run WriteStep (Sending.start p'.conn) evs s' ∧ s.wire = s'.wire ∧ s.phase = s'.phase

theorem Alike.sameExchange {p p' : Processed} (h : Alike p p') : SameExchange p p' where
  code := h.code
  written := h.written
  request := congrArg (fun c => c.request) h.core
  version := congrArg (fun c => c.version.map c.str) h.core
  host := congrArg (fun c => c.host.map c.str) h.core
  status := congrArg (fun c => c.responseStatus) h.core
  body := congrArg (fun c => c.responseBody) h.core
  response := congrArg (fun c => c.writeBuf) h.core
  sent hw evs s hr := by
    have hstart : SameSending (Sending.start p.conn) (Sending.start p'.conn) :=
      ⟨h.send hw, rfl, rfl⟩
    obtain ⟨s', hr', hsame⟩ := writes_same hstart hr
    exact ⟨s', hr', hsame.wire, hsame.phase⟩

/-- **A connection that is used again leaks nothing.**  Whatever two connections were before
`init`, the same chunks with the same outcome of the scheduler lead both to the same code, the same
fields and the same response, at whatever times. -/
theorem reuse_isolated (svc : Service F) (now now' : ℤ) (scheduler : Option (Verdict F))
    (c c' : HttpConn) (chunks : List Bytes) :
    Agree SameExchange (exchange svc now scheduler c.init chunks)
      (exchange svc now' scheduler c'.init chunks) :=
  (exchange_alike svc now now' scheduler chunks ((core_init c).trans (core_init c').symm)).mono
    fun _ _ h => h.sameExchange

end Gateway.HttpConn
