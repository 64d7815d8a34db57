/-
The response of a connection.

`process_write` formats a response into `m_write_buf`, which grows when it has to, and points
`m_iv[0]` at it.

* `Gateway.HttpConn.addResponse` — one formatted piece, `Gateway.HttpConn.processWrite` — a whole
  response;
* `Gateway.HttpConn.Prepared` — a response before its first byte was sent, and
  `Gateway.HttpConn.processWrite_prepared`;
* `Gateway.HttpConn.responseText`, `Gateway.HttpConn.writeBuf_processWrite` — the bytes of a
  response.
-/

import InferenceGateway.HttpConn

set_option relaxedAutoImplicit false
set_option autoImplicit false

namespace Gateway

namespace HttpConn

/-! ### The response -/

def ok200Title : Bytes := ascii "OK"

def error400Title : Bytes := ascii "Bad Request"

def error400Form : Bytes :=
  ascii "Your request has bad syntax or is inherently impossible to staisfy.\n"

def error403Title : Bytes := ascii "Forbidden"

def error403Form : Bytes := ascii "You do not have permission to get file form this server.\n"

def error404Title : Bytes := ascii "Not Found"

def error404Form : Bytes := ascii "The requested file was not found on this server.\n"

def error500Title : Bytes := ascii "Internal Error"

def error500Form : Bytes := ascii "There was an unusual problem serving the request file.\n"

/-- `m_write_idx`. -/
def writeIdx (c : HttpConn) : ℕ := c.writeBuf.length

/-- `while (new_size - m_write_idx <= len) new_size *= 2`, where `need` is `m_write_idx + len`; the
first number bounds the passes. -/
def grow (need : ℕ) : ℕ → ℕ → ℕ
  | 0, n => n
  | fuel + 1, n => if n ≤ need then grow need fuel (2 * n) else n

/-- `add_response`, where `text` is what `vsnprintf` makes of its arguments. -/
def addResponse (c : HttpConn) (text : Bytes) : HttpConn :=
  let space := max 1 (c.writeBufSize - c.writeIdx)
  if text.length < space then { c with writeBuf := c.writeBuf ++ text }
  else
    let size := if c.writeBufSize = 0 then initBufferSize else c.writeBufSize
    let need := c.writeIdx + text.length
    { c with writeBuf := c.writeBuf ++ text, writeBufSize := grow need (need + 1) size }

/-- What `%d` makes of a number that is not negative. -/
def decimal (n : ℕ) : Bytes := ascii (toString n)

def addStatusLine (c : HttpConn) (status : ℕ) (title : Bytes) : HttpConn :=
  c.addResponse (ascii "HTTP/1.1 " ++ decimal status ++ ascii " " ++ title ++ ascii "\r\n")

def addContentLength (c : HttpConn) (n : ℕ) : HttpConn :=
  c.addResponse (ascii "Content-Length:" ++ decimal n ++ ascii "\r\n")

def addLinger (c : HttpConn) : HttpConn :=
  c.addResponse
    (ascii "Connection:" ++ (if c.linger then ascii "keep-alive" else ascii "close") ++
      ascii "\r\n")

def addBlankLine (c : HttpConn) : HttpConn := c.addResponse (ascii "\r\n")

def addHeaders (c : HttpConn) (n : ℕ) : HttpConn := ((c.addContentLength n).addLinger).addBlankLine

def addContent (c : HttpConn) (content : Bytes) : HttpConn := c.addResponse content

/-- The response that `process_write` makes for an error. -/
def addErrorPage (c : HttpConn) (status : ℕ) (title form : Bytes) : HttpConn :=
  ((c.addStatusLine status title).addHeaders form.length).addContent form

/-- The end of `process_write`: the whole response is in `m_write_buf`. -/
def pointAtResponse (c : HttpConn) : HttpConn :=
  { c with iov0Base := 0, iov0Len := c.writeIdx, iovCount := 1, bytesToSend := c.writeIdx }

/-- The answer of `do_request`: `m_response_status` is 503 when the queue was full. -/
def addJson (c : HttpConn) : HttpConn :=
  let c :=
    if c.responseStatus = 503 then c.addStatusLine 503 (ascii "Service Unavailable")
    else c.addStatusLine 200 ok200Title
  let c := c.addResponse (ascii "Content-Type: application/json\r\n")
  let c := ((c.addContentLength c.responseBody.length).addLinger).addBlankLine
  c.addContent c.responseBody

/-- `process_write`. -/
def processWrite (c : HttpConn) (ret : HttpCode) : Bool × HttpConn :=
  match ret with
  | .internalError => (true, (c.addErrorPage 500 error500Title error500Form).pointAtResponse)
  | .noResource => (true, (c.addErrorPage 404 error404Title error404Form).pointAtResponse)
  | .badRequest => (true, (c.addErrorPage 400 error400Title error400Form).pointAtResponse)
  | .forbiddenRequest => (true, (c.addErrorPage 403 error403Title error403Form).pointAtResponse)
  | .fileRequest =>
      let c := c.addStatusLine 200 ok200Title
      if c.fileSize ≠ 0 then
        let c := c.addHeaders c.fileSize
        (true,
          { c with
            iov0Base := 0, iov0Len := c.writeIdx, iov1Base := 0, iov1Len := c.fileSize,
            iovCount := 2, bytesToSend := c.writeIdx + c.fileSize })
      else
        let ok := ascii "<html><body></body></html>"
        (true, ((c.addHeaders ok.length).addContent ok).pointAtResponse)
  | .jsonResponse => (true, c.addJson.pointAtResponse)
  | _ => (false, c)

/-! ### What `process_write` prepares -/

@[simp] theorem writeBuf_addResponse (c : HttpConn) (text : Bytes) :
    (c.addResponse text).writeBuf = c.writeBuf ++ text := by
  unfold addResponse
  dsimp only
  split <;> rfl

@[simp] theorem bytesHaveSend_addResponse (c : HttpConn) (text : Bytes) :
    (c.addResponse text).bytesHaveSend = c.bytesHaveSend := by
  unfold addResponse
  dsimp only
  split <;> rfl

theorem length_addBlankLine (c : HttpConn) :
    c.addBlankLine.writeBuf.length = c.writeBuf.length + 2 := by
  rw [addBlankLine, writeBuf_addResponse, List.length_append]
  rfl

theorem length_le_addContent (c : HttpConn) (content : Bytes) :
    c.writeBuf.length ≤ (c.addContent content).writeBuf.length := by
  rw [addContent, writeBuf_addResponse, List.length_append]
  exact Nat.le_add_right _ _

/-- A response with a header is not empty. -/
theorem addHeaders_pos (c : HttpConn) (n : ℕ) (content : Bytes) :
    0 < ((c.addHeaders n).addContent content).writeBuf.length := by
  refine lt_of_lt_of_le ?_ (length_le_addContent _ _)
  rw [addHeaders, length_addBlankLine]
  exact Nat.succ_pos _

@[simp] theorem bytesHaveSend_addHeaders (c : HttpConn) (n : ℕ) :
    (c.addHeaders n).bytesHaveSend = c.bytesHaveSend := by
  simp only [addHeaders, addContentLength, addLinger, addBlankLine, bytesHaveSend_addResponse]

@[simp] theorem bytesHaveSend_addStatusLine (c : HttpConn) (status : ℕ) (title : Bytes) :
    (c.addStatusLine status title).bytesHaveSend = c.bytesHaveSend :=
  bytesHaveSend_addResponse _ _

@[simp] theorem bytesHaveSend_addContent (c : HttpConn) (content : Bytes) :
    (c.addContent content).bytesHaveSend = c.bytesHaveSend :=
  bytesHaveSend_addResponse _ _

theorem bytesHaveSend_addJson (c : HttpConn) : c.addJson.bytesHaveSend = c.bytesHaveSend := by
  unfold addJson
  dsimp only
  split <;>
    simp only [bytesHaveSend_addContent, addBlankLine, addLinger, addContentLength,
      bytesHaveSend_addResponse, bytesHaveSend_addStatusLine]

/-- A response in the single-`iovec` mode, before its first byte was sent. -/
structure Prepared (c : HttpConn) : Prop where
  base : c.iov0Base = 0
  len : c.iov0Len = c.writeBuf.length
  count : c.iovCount = 1
  toSend : c.bytesToSend = c.writeBuf.length
  haveSend : c.bytesHaveSend = 0
  nonempty : 0 < c.writeBuf.length

theorem prepared_pointAtResponse {c : HttpConn} (h : c.bytesHaveSend = 0)
    (hne : 0 < c.writeBuf.length) : c.pointAtResponse.Prepared :=
  ⟨rfl, rfl, rfl, rfl, h, hne⟩

theorem prepared_errorPage {c : HttpConn} (h : c.bytesHaveSend = 0) (status : ℕ)
    (title form : Bytes) : (c.addErrorPage status title form).pointAtResponse.Prepared := by
  refine prepared_pointAtResponse ?_ (addHeaders_pos _ _ _)
  simp only [addErrorPage, bytesHaveSend_addContent, bytesHaveSend_addHeaders,
    bytesHaveSend_addStatusLine, h]

/-- **`process_write` prepares its response**, whatever the response is. -/
theorem processWrite_prepared {c c' : HttpConn} {ret : HttpCode} (h0 : c.bytesHaveSend = 0)
    (h : c.processWrite ret = (true, c')) (hmode : c'.iovCount = 1) : c'.Prepared := by
  unfold processWrite at h
  cases ret with
  | noRequest | getRequest | closedConnection => simp at h
  | internalError | noResource | badRequest | forbiddenRequest =>
      obtain ⟨-, rfl⟩ := Prod.mk.inj h
      exact prepared_errorPage h0 _ _ _
  | fileRequest =>
      dsimp only at h
      split at h
      · obtain ⟨-, rfl⟩ := Prod.mk.inj h
        cases hmode
      · obtain ⟨-, rfl⟩ := Prod.mk.inj h
        refine prepared_pointAtResponse ?_ (addHeaders_pos _ _ _)
        simp only [bytesHaveSend_addContent, bytesHaveSend_addHeaders, bytesHaveSend_addStatusLine,
          h0]
  | jsonResponse =>
      obtain ⟨-, rfl⟩ := Prod.mk.inj h
      refine prepared_pointAtResponse ((bytesHaveSend_addJson c).trans h0) ?_
      refine lt_of_lt_of_le ?_ (length_le_addContent _ _)
      rw [length_addBlankLine]
      exact Nat.succ_pos _

/-! ### The text of a response -/

@[simp] theorem linger_addResponse (c : HttpConn) (text : Bytes) :
    (c.addResponse text).linger = c.linger := by
  unfold addResponse
  dsimp only
  split <;> rfl

@[simp] theorem responseBody_addResponse (c : HttpConn) (text : Bytes) :
    (c.addResponse text).responseBody = c.responseBody := by
  unfold addResponse
  dsimp only
  split <;> rfl

/-- The line that `add_status_line` writes. -/
def statusLine (status : ℕ) (title : Bytes) : Bytes :=
  ascii "HTTP/1.1 " ++ decimal status ++ ascii " " ++ title ++ ascii "\r\n"

/-- The lines that end the headers. -/
def headerLines (linger : Bool) (n : ℕ) : Bytes :=
  ascii "Content-Length:" ++ decimal n ++ ascii "\r\n" ++
    (ascii "Connection:" ++ (if linger then ascii "keep-alive" else ascii "close") ++
      ascii "\r\n") ++ ascii "\r\n"

def errorPage (linger : Bool) (status : ℕ) (title form : Bytes) : Bytes :=
  statusLine status title ++ headerLines linger form.length ++ form

/-- What a client gets for a code of `do_request` or of the parser. -/
def responseText (linger : Bool) (status : ℕ) (body : Bytes) : HttpCode → Bytes
  | .internalError => errorPage linger 500 error500Title error500Form
  | .noResource => errorPage linger 404 error404Title error404Form
  | .badRequest => errorPage linger 400 error400Title error400Form
  | .forbiddenRequest => errorPage linger 403 error403Title error403Form
  | .jsonResponse =>
      (if status = 503 then statusLine 503 (ascii "Service Unavailable")
        else statusLine 200 ok200Title) ++
        ascii "Content-Type: application/json\r\n" ++ headerLines linger body.length ++ body
  | _ => []

theorem writeBuf_addHeaders (c : HttpConn) (n : ℕ) :
    (c.addHeaders n).writeBuf = c.writeBuf ++ headerLines c.linger n := by
  simp only [addHeaders, addContentLength, addLinger, addBlankLine, writeBuf_addResponse,
    linger_addResponse, headerLines, List.append_assoc]

theorem writeBuf_addErrorPage (c : HttpConn) (status : ℕ) (title form : Bytes) :
    (c.addErrorPage status title form).writeBuf =
      c.writeBuf ++ errorPage c.linger status title form := by
  simp only [addErrorPage, addContent, writeBuf_addResponse, writeBuf_addHeaders, addStatusLine,
    linger_addResponse, errorPage, statusLine, List.append_assoc]

theorem writeBuf_addJson (c : HttpConn) :
    c.addJson.writeBuf =
      c.writeBuf ++ responseText c.linger c.responseStatus c.responseBody .jsonResponse := by
  unfold addJson responseText
  dsimp only
  split <;>
    simp only [addContent, addBlankLine, addLinger, addContentLength, addStatusLine,
      writeBuf_addResponse, linger_addResponse, responseBody_addResponse, headerLines, statusLine,
      List.append_assoc]

theorem writeBuf_pointAtResponse (c : HttpConn) : c.pointAtResponse.writeBuf = c.writeBuf := rfl

/-- **The bytes of a response** depend on its code, the status, the body and the kind of the
connection. -/
theorem writeBuf_processWrite {c c' : HttpConn} {ret : HttpCode} (hret : ret ≠ .fileRequest)
    (h : c.processWrite ret = (true, c')) :
    c'.writeBuf =
      c.writeBuf ++ responseText c.linger c.responseStatus c.responseBody ret := by
  unfold processWrite at h
  cases ret with
  | noRequest | getRequest | closedConnection => simp at h
  | fileRequest => exact absurd rfl hret
  | internalError | noResource | badRequest | forbiddenRequest =>
      obtain ⟨-, rfl⟩ := Prod.mk.inj h
      rw [writeBuf_pointAtResponse, writeBuf_addErrorPage, responseText]
  | jsonResponse =>
      obtain ⟨-, rfl⟩ := Prod.mk.inj h
      rw [writeBuf_pointAtResponse, writeBuf_addJson]

/-! ### What a response leaves alone -/

/-- A connection without the write buffer and what points into it. -/
def unwritten (c : HttpConn) : HttpConn :=
  { c with
    writeBuf := [], writeBufSize := 0, iov0Base := 0, iov0Len := 0, iov1Base := 0, iov1Len := 0,
    iovCount := 0, bytesToSend := 0 }

@[simp] theorem unwritten_addResponse (c : HttpConn) (text : Bytes) :
    (c.addResponse text).unwritten = c.unwritten := by
  unfold addResponse
  dsimp only
  split <;> rfl

theorem unwritten_pointAtResponse (c : HttpConn) :
    c.pointAtResponse.unwritten = c.unwritten := rfl

/-- **`process_write` writes into the write buffer only.** -/
theorem unwritten_processWrite {c : HttpConn} {ret : HttpCode} (hret : ret ≠ .fileRequest) :
    (c.processWrite ret).2.unwritten = c.unwritten := by
  unfold processWrite
  cases ret with
  | noRequest | getRequest | closedConnection => rfl
  | fileRequest => exact absurd rfl hret
  | internalError | noResource | badRequest | forbiddenRequest =>
      simp only [unwritten_pointAtResponse, addErrorPage, addContent, addHeaders, addBlankLine,
        addLinger, addContentLength, addStatusLine, unwritten_addResponse]
  | jsonResponse =>
      simp only [unwritten_pointAtResponse, addJson]
      split <;>
        simp only [addContent, addBlankLine, addLinger, addContentLength, addStatusLine,
          unwritten_addResponse]

end HttpConn

end Gateway
