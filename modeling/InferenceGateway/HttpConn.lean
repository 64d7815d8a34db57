/-
The HTTP connection object and its request parser.

`http/http_conn.cpp` parses a request in place: bytes are appended to `m_read_buf`, `parse_line`
ends each line with two zeros, and the pointers into the buffer stay valid while it grows.  The
model keeps the received part of the buffer as a list of bytes; what lies behind it is zero, because
`init` clears the buffer and only `recv` writes there.  Pointers into the buffer are offsets.

A store outside the buffer, a signed overflow and a read through a null pointer are faults: there
the behaviour of the program is undefined, and the model stops.

* `Gateway.HttpConn` — the fields of the object, `Gateway.HttpConn.store` — a store into the read
  buffer;
* `Gateway.HttpConn.parseLine`, `Gateway.HttpConn.parseRequestLine`,
  `Gateway.HttpConn.parseHeaders`, `Gateway.HttpConn.parseContent` — the parts of the parser;
* `Gateway.HttpConn.pass`, `Gateway.HttpConn.processRead` — the parser, up to the call of
  `do_request`.
-/

import InferenceGateway.Task
import InferenceGateway.CString

set_option relaxedAutoImplicit false
set_option autoImplicit false

namespace Gateway

open CString (strAt strpbrk strspn strchr strcasecmp strncasecmp atol LONG_MAX LONG_MIN)

/-! ### The object -/

/-- The methods that `parse_request_line` can store. -/
inductive HttpMethod
  | get | post
  deriving DecidableEq

/-- `CHECK_STATE`. -/
inductive CheckState
  | requestLine | header | content
  deriving DecidableEq

/-- `HTTP_CODE`. -/
inductive HttpCode
  | noRequest | getRequest | badRequest | noResource | forbiddenRequest | fileRequest
  | internalError | closedConnection | jsonResponse
  deriving DecidableEq

/-- `LINE_STATUS`. -/
inductive LineStatus
  | lineOk | lineBad | lineOpen
  deriving DecidableEq

/-- Undefined behaviour: a store at an index outside `m_read_buf`, a null pointer, an overflow of
`long`. -/
inductive Fault
  | outOfRange (i : ℤ)
  | nullPointer
  | overflow
  deriving DecidableEq

/-- `READ_BUFFER_SIZE`. -/
def readBufferSize : ℕ := 8388608

/-- `INIT_BUFFER_SIZE`. -/
def initBufferSize : ℕ := 65536

/-- `http_conn`.  `readBuf` is `m_read_buf[0..m_read_idx)`, `writeBuf` is
`m_write_buf[0..m_write_idx)`; `iov0Base` and `iov1Base` are the offsets of `m_iv[0].iov_base` from
`m_write_buf` and of `m_iv[1].iov_base` from `m_file_address`; `fileSize` is
`m_file_stat.st_size`. -/
structure HttpConn where
  readBuf : Bytes := []
  readBufSize : ℕ := readBufferSize
  checkedIdx : ℕ := 0
  startLine : ℕ := 0
  checkState : CheckState := .requestLine
  method : HttpMethod := .get
  url : Option ℕ := none
  version : Option ℕ := none
  host : Option ℕ := none
  contentLength : ℤ := 0
  linger : Bool := false
  writeBuf : Bytes := []
  writeBufSize : ℕ := initBufferSize
  responseBody : Bytes := []
  responseBodySize : ℕ := initBufferSize
  responseStatus : ℕ := 200
  fileSize : ℕ := 0
  iov0Base : ℕ := 0
  iov0Len : ℕ := 0
  iov1Base : ℤ := 0
  iov1Len : ℤ := 0
  iovCount : ℕ := 0
  bytesToSend : ℤ := 0
  bytesHaveSend : ℕ := 0
  deriving DecidableEq

namespace HttpConn

/-- `init()`.  The file of a response and the two `iovec`s are the only things that it leaves. -/
def init (c : HttpConn) : HttpConn where
  fileSize := c.fileSize
  iov0Base := c.iov0Base
  iov0Len := c.iov0Len
  iov1Base := c.iov1Base
  iov1Len := c.iov1Len
  iovCount := c.iovCount

/-- `m_read_idx`. -/
def readIdx (c : HttpConn) : ℕ := c.readBuf.length

/-- `m_read_buf[i]`. -/
def byteAt (c : HttpConn) (i : ℕ) : UInt8 := c.readBuf.getD i 0

/-- The C string at an offset of `m_read_buf`. -/
def str (c : HttpConn) (i : ℕ) : Bytes := strAt c.readBuf i

/-- `m_read_buf[i] = '\0'`.  Behind `m_read_idx` the buffer is zero already. -/
def store (c : HttpConn) (i : ℤ) : Except Fault HttpConn :=
  if 0 ≤ i ∧ i < c.readBufSize then .ok { c with readBuf := c.readBuf.set i.toNat 0 }
  else .error (.outOfRange i)

/-- The bytes of one successful `recv`. -/
def append (c : HttpConn) (q : Bytes) : HttpConn := { c with readBuf := c.readBuf ++ q }

/-! ### Lines -/

/-- The two stores that end a line, and the step of `m_checked_idx` behind it. -/
def endLine (c : HttpConn) (i : ℕ) : Except Fault HttpConn := do
  let c ← c.store i
  let c ← c.store (i + 1 : ℕ)
  return { c with checkedIdx := i + 2 }

/-- The loop of `parse_line`, which runs once for each byte that is left. -/
def parseLineLoop : ℕ → HttpConn → Except Fault (LineStatus × HttpConn)
  | 0, c => .ok (.lineOpen, c)
  | n + 1, c =>
      let temp := c.byteAt c.checkedIdx
      if temp = 13 then
        if c.checkedIdx + 1 = c.readIdx then .ok (.lineOpen, c)
        else if c.byteAt (c.checkedIdx + 1) = 10 then do
          return (.lineOk, ← c.endLine c.checkedIdx)
        else .ok (.lineBad, c)
      else if temp = 10 then
        if 1 < c.checkedIdx ∧ c.byteAt (c.checkedIdx - 1) = 13 then do
          return (.lineOk, ← c.endLine (c.checkedIdx - 1))
        else .ok (.lineBad, c)
      else parseLineLoop n { c with checkedIdx := c.checkedIdx + 1 }

/-- `parse_line`. -/
def parseLine (c : HttpConn) : Except Fault (LineStatus × HttpConn) :=
  parseLineLoop (c.readIdx - c.checkedIdx) c

/-! ### The request line -/

/-- `" \t"`. -/
def blanks : Bytes := [32, 9]

/-- The method names that `parse_request_line` knows. -/
def methodOf (name : Bytes) : Option HttpMethod :=
  if strcasecmp name (ascii "GET") then some .get
  else if strcasecmp name (ascii "POST") then some .post
  else none

/-- `if (strncasecmp(m_url, scheme, n) == 0) { m_url += n; m_url = strchr(m_url, '/'); }` -/
def skipScheme (c : HttpConn) (scheme : Bytes) : Option ℕ → Except Fault (Option ℕ)
  | none => .error .nullPointer
  | some url =>
      if strncasecmp (c.str url) scheme scheme.length then
        let url := url + scheme.length
        .ok ((strchr (c.str url) 47).map (url + ·))
      else .ok (some url)

/-- The end of `parse_request_line`, where `url` is `m_url`. -/
def requestTarget (c : HttpConn) (url : ℕ) : Except Fault (HttpCode × HttpConn) := do
  let url ← c.skipScheme (ascii "http://") (some url)
  let url ← c.skipScheme (ascii "https://") url
  let c := { c with url := url }
  match url with
  | none => return (.badRequest, c)
  | some u =>
      if c.byteAt u = 47 then return (.noRequest, { c with checkState := .header })
      else return (.badRequest, c)

/-- `parse_request_line`, where `text` is the offset of the line. -/
def parseRequestLine (c : HttpConn) (text : ℕ) : Except Fault (HttpCode × HttpConn) :=
  match strpbrk (c.str text) blanks with
  | none => .ok (.badRequest, { c with url := none })
  | some k => do
      let c ← c.store (text + k : ℕ)
      let url := text + k + 1
      match methodOf (c.str text) with
      | none => return (.badRequest, { c with url := some url })
      | some method =>
          let url := url + strspn (c.str url) blanks
          match strpbrk (c.str url) blanks with
          | none =>
              return (.badRequest, { c with method := method, url := some url, version := none })
          | some k => do
              let c ← c.store (url + k : ℕ)
              let version := url + k + 1
              let version := version + strspn (c.str version) blanks
              let c := { c with method := method, url := some url, version := some version }
              if strcasecmp (c.str version) (ascii "HTTP/1.1") then c.requestTarget url
              else return (.badRequest, c)

/-! ### Headers and body -/

/-- `parse_headers`, where `text` is the offset of the line. -/
def parseHeaders (c : HttpConn) (text : ℕ) : HttpCode × HttpConn :=
  let line := c.str text
  if line = [] then
    if c.contentLength ≠ 0 then (.noRequest, { c with checkState := .content })
    else (.getRequest, c)
  else if strncasecmp line (ascii "Connection:") 11 then
    let text := text + 11
    let text := text + strspn (c.str text) blanks
    if strcasecmp (c.str text) (ascii "keep-alive") then (.noRequest, { c with linger := true })
    else (.noRequest, c)
  else if strncasecmp line (ascii "Content-length:") 15 then
    let text := text + 15
    let text := text + strspn (c.str text) blanks
    (.noRequest, { c with contentLength := atol (c.str text) })
  else if strncasecmp line (ascii "Host:") 5 then
    let text := text + 5
    let text := text + strspn (c.str text) blanks
    (.noRequest, { c with host := some text })
  else (.noRequest, c)

/-- `parse_content`, where `text` is the offset of the body. -/
def parseContent (c : HttpConn) (text : ℕ) : Except Fault (HttpCode × HttpConn) :=
  let sum := c.contentLength + c.checkedIdx
  if sum < LONG_MIN ∨ LONG_MAX < sum then .error .overflow
  else if sum ≤ c.readIdx then do
    return (.getRequest, ← c.store (text + c.contentLength))
  else .ok (.noRequest, c)

/-! ### The parser -/

/-- How a pass of the loop of `process_read` ends: with the next pass, or with a code.  The code
`getRequest` stands for the call of `do_request`. -/
inductive Next
  | again
  | stop (code : HttpCode)
  deriving DecidableEq

/-- `m_start_line = m_checked_idx`. -/
def nextLine (c : HttpConn) : HttpConn := { c with startLine := c.checkedIdx }

/-- The body of the loop of `process_read` for a line that has ended. -/
def takeLine (c : HttpConn) : Except Fault (Next × HttpConn) := do
  let (ret, d) ←
    if c.checkState = .requestLine then c.nextLine.parseRequestLine c.startLine
    else .ok (c.nextLine.parseHeaders c.startLine)
  return (if ret = .noRequest then .again else .stop ret, d)

/-- The body of the loop of `process_read` in the state `CHECK_STATE_CONTENT`.  Without a complete
body `line_status` becomes `LINE_OPEN`, which ends the loop. -/
def takeContent (c : HttpConn) : Except Fault (Next × HttpConn) := do
  let (ret, d) ← c.nextLine.parseContent c.startLine
  return (.stop ret, d)

/-- One pass of the loop of `process_read`, with the test of its condition. -/
def pass (c : HttpConn) : Except Fault (Next × HttpConn) :=
  if c.checkState = .content then c.takeContent
  else do
    match ← c.parseLine with
    | (.lineOk, c) => c.takeLine
    | (_, c) => return (.stop .noRequest, c)

/-- The loop of `process_read`, cut off after `n` passes. -/
def processLoop : ℕ → HttpConn → Except Fault (HttpCode × HttpConn)
  | 0, c => .ok (.noRequest, c)
  | n + 1, c => do
      match ← c.pass with
      | (.again, c) => processLoop n c
      | (.stop ret, c) => return (ret, c)

/-- `process_read`, up to the call of `do_request`.  A pass that goes on has taken a line, and a
line takes at least one byte. -/
def processRead (c : HttpConn) : Except Fault (HttpCode × HttpConn) :=
  processLoop (c.readIdx - c.checkedIdx + 2) c

/-- The body that `do_request` reads: the C string at `m_start_line`. -/
def body (c : HttpConn) : Bytes := c.str c.startLine

end HttpConn

end Gateway
