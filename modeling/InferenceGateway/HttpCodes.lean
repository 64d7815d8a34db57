/-
What the parser and `do_request` return, and what they leave alone.

The parser returns three codes and does not touch the response; `do_request` returns three others
and does not touch the request.

* `Gateway.HttpConn.Ends` — what holds of a result, if there is one;
* `Gateway.HttpConn.output`, `Gateway.HttpConn.Parsed` — the response side of a connection, and what
  the parser does to it;
* `Gateway.HttpConn.processRead_parsed`, `Gateway.HttpConn.doRequest_answered`,
  `Gateway.HttpConn.readRequest_code` — the codes.
-/

import InferenceGateway.HttpInference

set_option relaxedAutoImplicit false
set_option autoImplicit false

namespace Gateway.HttpConn

variable {F : Type} {α β : Type}

/-! ### Results -/

section Ends

variable {P : α → HttpConn → Prop}

/-- What a part of the parser returns, if it returns. -/
def Ends (P : α → HttpConn → Prop) (r : Except Fault (α × HttpConn)) : Prop :=
  ∀ a c, r = .ok (a, c) → P a c

theorem ends_ok {a : α} {c : HttpConn} (h : P a c) : Ends P (.ok (a, c)) := by
  intro b d hr
  cases hr
  exact h

theorem ends_error (f : Fault) : Ends P (.error f) := by
  intro a c h
  cases h

theorem Ends.bind {Q : β → HttpConn → Prop} {r : Except Fault (α × HttpConn)} (hr : Ends P r)
    {g : α × HttpConn → Except Fault (β × HttpConn)} (h : ∀ a c, P a c → Ends Q (g (a, c))) :
    Ends Q (r >>= g) := by
  cases r with
  | error f => exact ends_error f
  | ok x => exact h x.1 x.2 (hr x.1 x.2 rfl)

theorem ends_bind {r : Except Fault β} {g : β → Except Fault (α × HttpConn)}
    (h : ∀ x, Ends P (g x)) : Ends P (r >>= g) := by
  cases r with
  | error f => exact ends_error f
  | ok x => exact h x

end Ends

/-! ### The parser -/

/-- The response side of a connection. -/
def output (c : HttpConn) : HttpConn where
  writeBuf := c.writeBuf
  writeBufSize := c.writeBufSize
  responseBody := c.responseBody
  responseBodySize := c.responseBodySize
  responseStatus := c.responseStatus
  bytesToSend := c.bytesToSend
  bytesHaveSend := c.bytesHaveSend

/-- The codes of the parser. -/
inductive ParserCode : HttpCode → Prop
  | noRequest : ParserCode .noRequest
  | badRequest : ParserCode .badRequest
  | getRequest : ParserCode .getRequest

/-- What the parser returns, and that it has left the response side alone. -/
structure Parsed (c : HttpConn) (ret : HttpCode) (d : HttpConn) : Prop where
  code : ParserCode ret
  output : d.output = c.output

section Parser

variable (c : HttpConn)

theorem output_store {d : HttpConn} {i : ℤ} (h : c.store i = .ok d) : d.output = c.output := by
  unfold store at h
  split at h
  · cases h
    rfl
  · cases h

theorem ends_store {P : α → HttpConn → Prop} {i : ℤ}
    {g : HttpConn → Except Fault (α × HttpConn)}
    (h : ∀ d : HttpConn, d.output = c.output → Ends P (g d)) : Ends P (c.store i >>= g) := by
  cases hs : c.store i with
  | error f => exact ends_error f
  | ok d => exact h d (output_store c hs)

theorem output_endLine {d : HttpConn} {i : ℕ} (h : c.endLine i = .ok d) :
    d.output = c.output := by
  unfold endLine at h
  cases hs : c.store i with
  | error f =>
      rw [hs] at h
      cases h
  | ok e =>
      rw [hs] at h
      change e.store (i + 1 : ℕ) >>= _ = _ at h
      cases hs' : e.store (i + 1 : ℕ) with
      | error f =>
          rw [hs'] at h
          cases h
      | ok e' =>
          rw [hs'] at h
          cases h
          exact (output_store e hs').trans (output_store c hs)

theorem parseLineLoop_output (n : ℕ) :
    Ends (fun _ d => d.output = c.output) (parseLineLoop n c) := by
  induction n generalizing c with
  | zero => exact ends_ok rfl
  | succ n ih =>
      have hend : ∀ i, Ends (fun _ d => d.output = c.output)
          (c.endLine i >>= fun d => .ok (LineStatus.lineOk, d)) := by
        intro i
        cases he : c.endLine i with
        | error f => exact ends_error f
        | ok d => exact ends_ok (output_endLine c he)
      unfold parseLineLoop
      dsimp only
      split
      · split
        · exact ends_ok rfl
        · split
          · exact hend _
          · exact ends_ok rfl
      · split
        · split
          · exact hend _
          · exact ends_ok rfl
        · exact ih { c with checkedIdx := c.checkedIdx + 1 }

theorem requestTarget_parsed (url : ℕ) : Ends (Parsed c) (c.requestTarget url) := by
  unfold requestTarget
  refine ends_bind fun u => ends_bind fun v => ?_
  cases v with
  | none => exact ends_ok ⟨.badRequest, rfl⟩
  | some k =>
      dsimp only
      split
      · exact ends_ok ⟨.noRequest, rfl⟩
      · exact ends_ok ⟨.badRequest, rfl⟩

theorem parseRequestLine_parsed (text : ℕ) : Ends (Parsed c) (c.parseRequestLine text) := by
  unfold parseRequestLine
  split
  · exact ends_ok ⟨.badRequest, rfl⟩
  · refine ends_store c fun d hd => ?_
    dsimp only
    split
    · exact ends_ok ⟨.badRequest, hd⟩
    · split
      · exact ends_ok ⟨.badRequest, hd⟩
      · refine ends_store d fun e he => ?_
        split
        · intro ret x hr
          obtain ⟨hcode, hout⟩ := requestTarget_parsed _ _ ret x hr
          exact ⟨hcode, hout.trans (he.trans hd)⟩
        · exact ends_ok ⟨.badRequest, he.trans hd⟩

theorem parseHeaders_parsed (text : ℕ) :
    Parsed c (c.parseHeaders text).1 (c.parseHeaders text).2 := by
  unfold parseHeaders
  dsimp only
  split
  · split
    · exact ⟨.noRequest, rfl⟩
    · exact ⟨.getRequest, rfl⟩
  · split
    · split <;> exact ⟨.noRequest, rfl⟩
    · split
      · exact ⟨.noRequest, rfl⟩
      · split <;> exact ⟨.noRequest, rfl⟩

theorem parseContent_parsed (text : ℕ) : Ends (Parsed c) (c.parseContent text) := by
  unfold parseContent
  dsimp only
  split
  · exact ends_error _
  · split
    · exact ends_store c fun d hd => ends_ok ⟨.getRequest, hd⟩
    · exact ends_ok ⟨.noRequest, rfl⟩

/-- A pass that stops does so with a code of the parser. -/
inductive ParserNext : Next → Prop
  | again : ParserNext .again
  | stop {ret : HttpCode} : ParserCode ret → ParserNext (.stop ret)

theorem takeLine_parsed :
    Ends (fun next d => ParserNext next ∧ d.output = c.output) c.takeLine := by
  have hnext : ∀ ret d, Parsed c ret d →
      Ends (fun next d => ParserNext next ∧ d.output = c.output)
        (.ok (if ret = .noRequest then .again else .stop ret, d)) := by
    intro ret d hd
    refine ends_ok ⟨?_, hd.output⟩
    split
    · exact .again
    · exact .stop hd.code
  unfold takeLine
  dsimp only
  split
  · exact (parseRequestLine_parsed c.nextLine _).bind fun ret d hd => hnext ret d ⟨hd.1, hd.2⟩
  · obtain ⟨hcode, hout⟩ := parseHeaders_parsed c.nextLine c.startLine
    exact hnext _ _ ⟨hcode, hout⟩

theorem pass_parsed : Ends (fun next d => ParserNext next ∧ d.output = c.output) c.pass := by
  unfold pass
  split
  · refine (parseContent_parsed c.nextLine _).bind fun ret d hd => ?_
    exact ends_ok ⟨.stop hd.code, hd.output⟩
  · refine (parseLineLoop_output c _).bind fun status d hd => ?_
    cases status with
    | lineOk =>
        intro next e hr
        obtain ⟨hnext, hout⟩ := takeLine_parsed d next e hr
        exact ⟨hnext, hout.trans hd⟩
    | lineBad | lineOpen => exact ends_ok ⟨.stop .noRequest, hd⟩

theorem processLoop_parsed (n : ℕ) : Ends (Parsed c) (processLoop n c) := by
  induction n generalizing c with
  | zero => exact ends_ok ⟨.noRequest, rfl⟩
  | succ n ih =>
      unfold processLoop
      refine (pass_parsed c).bind fun next d hd => ?_
      obtain ⟨hnext, hout⟩ := hd
      cases hnext with
      | again =>
          intro ret e hr
          obtain ⟨hcode, hout'⟩ := ih d ret e hr
          exact ⟨hcode, hout'.trans hout⟩
      | stop hret => exact ends_ok ⟨hret, hout⟩

/-- **The codes of the parser**, which does not touch the response. -/
theorem processRead_parsed : Ends (Parsed c) c.processRead := processLoop_parsed c _

end Parser

/-! ### `do_request` -/

/-- The codes of `do_request`. -/
inductive RequestCode : HttpCode → Prop
  | noResource : RequestCode .noResource
  | badRequest : RequestCode .badRequest
  | jsonResponse : RequestCode .jsonResponse

/-- What `do_request` returns, and that it has left the request alone. -/
structure Answered (c : HttpConn) (ret : HttpCode) (d : HttpConn) : Prop where
  code : RequestCode ret
  request : { d with
    responseBody := c.responseBody, responseBodySize := c.responseBodySize,
    responseStatus := c.responseStatus } = c

section Request

variable (c : HttpConn) (svc : Service F) (now : ℤ) (scheduler : Option (Verdict F))

theorem answerTask_answered (task : InferenceTask F) :
    Answered c (c.answerTask svc scheduler task).1 (c.answerTask svc scheduler task).2 := by
  unfold answerTask
  split
  · exact ⟨.jsonResponse, rfl⟩
  · cases scheduler with
    | none => exact ⟨.jsonResponse, rfl⟩
    | some verdict => exact ⟨.jsonResponse, rfl⟩

/-- **The codes of `do_request`**, which does not touch the request. -/
theorem doRequest_answered : Ends (Answered c) (c.doRequest svc now scheduler) := by
  unfold doRequest
  split
  · exact ends_ok ⟨.noResource, rfl⟩
  · cases c.url with
    | none => exact ends_error _
    | some url =>
        dsimp only
        split
        · exact ends_ok ⟨.noResource, rfl⟩
        · split
          · exact ends_ok ⟨.badRequest, rfl⟩
          · split
            · exact ends_ok ⟨.jsonResponse, rfl⟩
            · exact ends_ok (answerTask_answered c svc scheduler _)

/-- **No request leads to a response from a file.** -/
theorem readRequest_code :
    Ends (fun ret _ => ret ≠ .fileRequest) (c.readRequest svc now scheduler) := by
  unfold readRequest
  refine (processRead_parsed c).bind fun ret d hd => ?_
  obtain ⟨hcode, -⟩ := hd
  cases hcode with
  | getRequest =>
      intro ret e hr
      obtain ⟨hret, -⟩ := doRequest_answered d svc now scheduler ret e hr
      cases hret <;> nofun
  | noRequest | badRequest => exact ends_ok nofun

end Request

end Gateway.HttpConn
