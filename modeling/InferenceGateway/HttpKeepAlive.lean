/-
Several requests on one connection.

A kept connection reads chunks, and runs `process` after each, until a request is answered; when
`write` has finished, `init` prepares it for the next request.  `init` clears the whole read buffer,
and with it the bytes behind the request that was answered.

* `Gateway.HttpConn.KeepAlive` — the runs of a connection, with what was served;
* `Gateway.HttpConn.CompleteRequest` — a request that keeps the connection and is read up to its
  last byte, `Gateway.HttpConn.CompleteRequest.first` — the first answer of a run;
* `Gateway.HttpConn.keep_alive_sequence` — when a sequence of requests is served.
-/

import InferenceGateway.HttpIsolation

set_option relaxedAutoImplicit false
set_option autoImplicit false

namespace Gateway.HttpConn

open EventSystem

variable {F : Type}

/-! ### Runs of a connection -/

/-- What a connection has served: what the scheduler made of the task, the code, the request, the
bytes that the client got, and the bytes behind the request that `init` throws away. -/
structure Served (F : Type) where
  scheduler : Option (Verdict F)
  code : HttpCode
  request : Request
  response : Bytes
  dropped : Bytes

/-- An exchange whose response has been sent. -/
def Processed.served (p : Processed) (scheduler : Option (Verdict F)) (wire : Bytes) :
    Served F where
  scheduler := scheduler
  code := p.code
  request := p.conn.request
  response := wire
  dropped := p.conn.readBuf.drop p.conn.requestEnd

/-- `KeepAlive svc c chunks log d`: the chunks arrive at `c` one by one, every response is sent to
its end, and `d` is left.  A chunk is what one call of `read_once` reads, so it fits in the rest of
the buffer.  The scheduler makes of each task what it likes. -/
inductive KeepAlive (svc : Service F) :
    HttpConn → List Bytes → List (Served F) → HttpConn → Prop
  | done {c : HttpConn} : KeepAlive svc c [] [] c
  | more {c d : HttpConn} {q : Bytes} {qs : List Bytes} {log : List (Served F)} {now : ℤ}
      {scheduler : Option (Verdict F)} {p : Processed} :
      (c.append q).Fits → (c.append q).process svc now scheduler = .ok p →
      p.code = .noRequest → KeepAlive svc p.conn qs log d → KeepAlive svc c (q :: qs) log d
  | kept {c d : HttpConn} {q : Bytes} {qs : List Bytes} {log : List (Served F)} {now : ℤ}
      {scheduler : Option (Verdict F)} {p : Processed} {evs : List WriteEvent} {s : Sending} :
      (c.append q).Fits → (c.append q).process svc now scheduler = .ok p → p.written = true →
      Run WriteStep (Sending.start p.conn) evs s → s.phase = .finished true →
      KeepAlive svc s.conn qs log d →
      KeepAlive svc c (q :: qs) (p.served scheduler s.wire :: log) d
  | closed {c : HttpConn} {q : Bytes} {qs : List Bytes} {now : ℤ}
      {scheduler : Option (Verdict F)} {p : Processed} {evs : List WriteEvent} {s : Sending} :
      (c.append q).Fits → (c.append q).process svc now scheduler = .ok p → p.written = true →
      Run WriteStep (Sending.start p.conn) evs s → s.phase = .finished false →
      KeepAlive svc c (q :: qs) [p.served scheduler s.wire] s.conn

/-- A request that a fresh connection reads in full, and that asks to keep the connection. -/
structure CompleteRequest (r : Bytes) : Prop where
  fits : r.length ≤ readBufferSize
  read : ∃ d, ((fresh readBufferSize).append r).processRead = .ok (.getRequest, d) ∧
    d.linger = true ∧ d.requestEnd = r.length

/-- The outcome of a request that is alone on a fresh connection. -/
def Alone (svc : Service F) (r : Bytes) (e : Served F) : Prop :=
  ∃ d, KeepAlive svc (fresh readBufferSize) [r] [e] d

/-- Every request ends where a chunk ends. -/
def Aligned (requests chunks : List Bytes) : Prop :=
  ∀ n, ∃ k, (chunks.take k).flatten = (requests.take n).flatten

/-! ### The answer to a request -/

/-- The same code, and the same response side. -/
def SameReply (x y : HttpCode × HttpConn) : Prop := x.1 = y.1 ∧ x.2.output = y.2.output

section Reply

variable {c d : HttpConn} (svc : Service F) (now : ℤ) (scheduler : Option (Verdict F))

theorem answer_congr (hout : c.output = d.output) (body : Bytes) :
    SameReply (c.answer body) (d.answer body) := by
  have hbody := congrArg (fun x => (x.setResponseBody body).output) hout
  exact ⟨rfl, hbody⟩

theorem answerTask_congr (hout : c.output = d.output) (task : InferenceTask F) :
    SameReply (c.answerTask svc scheduler task) (d.answerTask svc scheduler task) := by
  unfold answerTask
  split
  · exact answer_congr hout _
  · cases scheduler with
    | none =>
        have hstatus := congrArg (fun x => (x.setStatus overloadedReply.status).output)
          (answer_congr hout overloadedReply.body).2
        exact ⟨rfl, hstatus⟩
    | some verdict => exact answer_congr hout _

/-- **`do_request` depends on the request** and on the response side only. -/
theorem doRequest_congr (hreq : c.request = d.request) (hout : c.output = d.output) :
    Agree SameReply (c.doRequest svc now scheduler) (d.doRequest svc now scheduler) := by
  have hmethod : c.method = d.method := congrArg Request.method hreq
  have hurl : c.url.map c.str = d.url.map d.str := congrArg Request.url hreq
  have hlen : c.contentLength = d.contentLength := congrArg Request.contentLength hreq
  have hbody : (if c.contentLength ≤ 0 then none else some c.body) =
      (if d.contentLength ≤ 0 then none else some d.body) := congrArg Request.body hreq
  unfold doRequest
  rw [hmethod, hlen]
  rw [hlen] at hbody
  split
  · exact .ok ⟨rfl, hout⟩
  · cases hc : c.url with
    | none =>
        cases hd : d.url with
        | none => exact .error _
        | some v =>
            rw [hc, hd] at hurl
            cases hurl
    | some u =>
        cases hd : d.url with
        | none =>
            rw [hc, hd] at hurl
            cases hurl
        | some v =>
            rw [hc, hd] at hurl
            have hstr : c.str u = d.str v := Option.some.inj hurl
            dsimp only
            rw [hstr]
            split
            · exact .ok ⟨rfl, hout⟩
            · split
              · exact .ok ⟨rfl, hout⟩
              · next hpos =>
                  rw [if_neg hpos, if_neg hpos] at hbody
                  have htask : c.requestTask svc now = d.requestTask svc now := by
                    rw [requestTask, requestTask, Option.some.inj hbody]
                  split
                  · exact .ok (answer_congr hout _)
                  · rw [htask]
                    exact .ok (answerTask_congr svc scheduler hout _)

end Reply

/-! ### The end of a response -/

/-- How a run of `write` on a prepared response ends: with a fresh connection, unless the
connection is not kept. -/
def WriteEnd (linger : Bool) (s : Sending) : Prop :=
  match s.phase with
  | .waiting | .sending => s.conn.linger = linger
  | .finished true => s.conn.core = fresh readBufferSize
  | .finished false => linger = false
  | .failed => True

theorem linger_advance (c : HttpConn) (n : ℕ) : (c.advance n).linger = c.linger := by
  unfold advance
  dsimp only
  split <;> rfl

theorem writeEnd_step {linger : Bool} {s s' : Sending} {e : WriteEvent} (h : WriteEnd linger s)
    (hs : WriteStep s e s') : WriteEnd linger s' := by
  cases hs with
  | call hp hne =>
      rw [WriteEnd, hp] at h
      exact h
  | callDone hp h0 => exact core_init s.conn
  | @sent n hp hmode hle hzero =>
      rw [WriteEnd, hp] at h
      change s.conn.linger = linger at h
      unfold Sending.take
      dsimp only
      rw [linger_advance, h]
      split
      · cases linger with
        | true => exact core_init _
        | false => exact rfl
      · exact (linger_advance _ _).trans h
  | again hp =>
      rw [WriteEnd, hp] at h
      exact h
  | failed hp => trivial

theorem writeEnd_run {c : HttpConn} {evs : List WriteEvent} {s : Sending}
    (hr : Run WriteStep (Sending.start c) evs s) : WriteEnd c.linger s := by
  have hstart : WriteEnd c.linger (Sending.start c) := rfl
  exact hr.invariant_state hstart fun _ _ _ hi hs => writeEnd_step hi hs

/-- The call of `writev` that takes the rest ends the response. -/
theorem take_phase {s : Sending} {n : ℕ} (hdone : (s.conn.advance n).bytesToSend ≤ 0) :
    (s.take n).phase = .finished (s.conn.advance n).linger := by
  unfold Sending.take
  dsimp only
  rw [if_pos hdone]
  cases (s.conn.advance n).linger <;> rfl

/-- A prepared response that the kernel takes in one piece. -/
theorem sent_to_end {c : HttpConn} (h : c.Prepared) :
    ∃ evs s, Run WriteStep (Sending.start c) evs s ∧ s.phase = .finished c.linger := by
  have hcall : WriteStep (Sending.start c) .call { Sending.start c with phase := .sending } := by
    refine .call rfl ?_
    have hpos := h.nonempty
    change c.bytesToSend ≠ 0
    rw [h.toSend]
    omega
  have hsent := WriteStep.sent (s := { Sending.start c with phase := .sending })
    (n := c.writeBuf.length) rfl h.count h.len.ge (by intro h0; exact h.len.trans h0)
  have hdone : (c.advance c.writeBuf.length).bytesToSend ≤ 0 := by
    rw [(Sending.advance_rest c _).2.1, h.toSend]
    omega
  have hphase := take_phase (s := { Sending.start c with phase := .sending }) hdone
  refine ⟨_, _, (Run.nil.snoc hcall).snoc hsent, hphase.trans ?_⟩
  exact congrArg WritePhase.finished (linger_advance c _)

/-- Such a response on a connection that is kept. -/
theorem sent_whole {c : HttpConn} (h : c.Prepared) (hk : c.linger = true) :
    ∃ evs s, Run WriteStep (Sending.start c) evs s ∧ s.phase = .finished true := by
  obtain ⟨evs, s, hr, hphase⟩ := sent_to_end h
  rw [hk] at hphase
  exact ⟨evs, s, hr, hphase⟩

/-! ### Reading a request -/

/-- A connection that has read the bytes `s` since `init`, and waits for more. -/
structure Waiting (s : Bytes) (c : HttpConn) : Prop where
  wellPlaced : c.core.WellPlaced
  output : c.core.output = (fresh readBufferSize).output
  length : c.readIdx = s.length
  size : c.readBufSize = readBufferSize
  resume : ∀ q : Bytes, s.length + q.length ≤ readBufferSize →
    (c.core.append q).processRead = ((fresh readBufferSize).append (s ++ q)).processRead

theorem waiting_init {c : HttpConn} (h : c.core = fresh readBufferSize) : Waiting [] c where
  wellPlaced := h ▸ wellPlaced_fresh _
  output := by rw [h]
  length := congrArg readIdx h
  size := congrArg (fun x => x.readBufSize) h
  resume q _ := by rw [h, List.nil_append]

/-- One more chunk. -/
theorem Waiting.step {s q : Bytes} {c d : HttpConn} {ret : HttpCode} (h : Waiting s c)
    (hf : (c.append q).Fits) (hr : (c.append q).processRead = .ok (ret, d)) :
    s.length + q.length ≤ readBufferSize ∧
      ((fresh readBufferSize).append (s ++ q)).processRead = .ok (ret, d.core) ∧
      d.core.output = (fresh readBufferSize).output ∧
      (ret = .noRequest → Waiting (s ++ q) d) := by
  have hlen : s.length + q.length ≤ readBufferSize := by
    have hfit := hf
    unfold Fits at hfit
    rw [readIdx_append, h.length] at hfit
    exact hfit.trans_eq h.size
  have hcore : (c.core.append q).processRead = .ok (ret, d.core) := by
    rw [append_core, processRead_core, hr]
    rfl
  have hout : d.core.output = (fresh readBufferSize).output :=
    (processRead_parsed _ _ _ hcore).output.trans h.output
  refine ⟨hlen, (h.resume q hlen).symm.trans hcore, hout, ?_⟩
  rintro rfl
  have hw := h.wellPlaced.append hf
  have hk := (processRead_resume hw (fits_nil hw) hcore).1
  refine ⟨hk.wellPlaced, hout, ?_, ?_, ?_⟩
  · have := hk.readIdx
    rw [readIdx_append] at this
    change d.readIdx = _
    rw [List.length_append, ← h.length]
    exact this
  · exact hk.size.trans h.size
  · intro q' hq'
    rw [List.length_append] at hq'
    have hf' : ((c.core.append q).append q').Fits := by
      unfold Fits
      rw [readIdx_append, readIdx_append]
      change c.readIdx + q.length + q'.length ≤ c.readBufSize
      rw [h.length, h.size]
      exact hq'
    rw [(processRead_resume hw hf' hcore).2, append_append, List.append_assoc]
    exact h.resume (q ++ q') (by rw [List.length_append]; omega)

/-- What was read of the first bytes of a stream is read of the stream. -/
theorem processRead_extend {s q : Bytes} {ret : HttpCode} {d : HttpConn}
    (hfit : s.length + q.length ≤ readBufferSize)
    (hr : ((fresh readBufferSize).append s).processRead = .ok (ret, d)) (hret : ret ≠ .noRequest) :
    d.requestEnd ≤ s.length ∧
      ∃ e, ((fresh readBufferSize).append (s ++ q)).processRead = .ok (ret, e) ∧
        e.request = d.request ∧ e.requestEnd = d.requestEnd := by
  have hs : s.length ≤ readBufferSize := (Nat.le_add_right _ _).trans hfit
  have hw := (wellPlaced_fresh readBufferSize).append (fits_fresh_append hs)
  have hf : (((fresh readBufferSize).append s).append q).Fits := by
    rw [append_append]
    exact fits_fresh_append (by rw [List.length_append]; exact hfit)
  have hrun := reads_processRead hw
  rw [hr] at hrun
  obtain ⟨hend, e, hrun', hreq, hend'⟩ := hrun.extend hw hf rfl hret
  have heq := (reads_processRead (hw.append hf)).unique hrun'
  rw [append_append] at heq
  refine ⟨?_, e, heq, hreq, hend'⟩
  rw [readIdx_append] at hend
  simpa [fresh, readIdx] using hend

/-- What the parser has read is still in the buffer. -/
theorem readIdx_read {s : Bytes} {ret : HttpCode} {d : HttpConn}
    (hs : s.length ≤ readBufferSize)
    (hr : ((fresh readBufferSize).append s).processRead = .ok (ret, d)) :
    d.readIdx = s.length := by
  have hw := (wellPlaced_fresh readBufferSize).append (fits_fresh_append hs)
  have hidx := ((reads_processRead hw).keeps hw hr).readIdx
  rw [readIdx_append] at hidx
  simpa [fresh, readIdx] using hidx

theorem prefix_of_append {a b x y : Bytes} (h : a ++ b = x ++ y) (hle : a.length ≤ x.length) :
    ∃ z, a ++ z = x :=
  List.prefix_of_prefix_length_le ⟨b, h⟩ ⟨y, rfl⟩ hle

/-- What comes before the end of a request is not answered, and does no harm. -/
theorem part_of_read {r s q : Bytes} {d : HttpConn} (hfit : r.length ≤ readBufferSize)
    (hread : ((fresh readBufferSize).append r).processRead = .ok (.getRequest, d))
    (hend : d.requestEnd = r.length) (hs : s ++ q = r) (hq : q ≠ []) :
    ∃ e, ((fresh readBufferSize).append s).processRead = .ok (.noRequest, e) := by
  have hlen : s.length + q.length = r.length := by rw [← hs, List.length_append]
  have hpos := List.length_pos_iff.2 hq
  cases hpart : ((fresh readBufferSize).append s).processRead with
  | error f =>
      have hw := (wellPlaced_fresh readBufferSize).append (fits_fresh_append (s := s) (by omega))
      have hrun := reads_processRead hw
      rw [hpart] at hrun
      have hf : (((fresh readBufferSize).append s).append q).Fits := by
        rw [append_append, hs]
        exact fits_fresh_append hfit
      have hall := hrun.extend_fault hw hf rfl
      rw [append_append, hs] at hall
      have hwr := (wellPlaced_fresh readBufferSize).append (fits_fresh_append hfit)
      have hread' := (reads_processRead hwr).unique hall
      rw [hread] at hread'
      cases hread'
  | ok x =>
      obtain ⟨ret, e⟩ := x
      by_cases hret : ret = .noRequest
      · exact ⟨e, by rw [hret]⟩
      · obtain ⟨hle, e', he', -, hend'⟩ := processRead_extend (q := q) (by omega) hpart hret
        rw [hs, hread] at he'
        cases he'
        omega

/-- A connection that waits reads the next chunk as if it stood behind what it has. -/
theorem Waiting.read {s q : Bytes} {c d : HttpConn} {ret : HttpCode} (h : Waiting s c)
    (hlen : s.length + q.length ≤ readBufferSize)
    (hr : ((fresh readBufferSize).append (s ++ q)).processRead = .ok (ret, d)) :
    (c.append q).Fits ∧ ∃ e, (c.append q).processRead = .ok (ret, e) ∧ e.core = d := by
  have hcore := (h.resume q hlen).trans hr
  rw [append_core, processRead_core] at hcore
  constructor
  · unfold Fits
    rw [readIdx_append, h.length]
    exact hlen.trans_eq h.size.symm
  · cases hread : (c.append q).processRead with
    | error f =>
        rw [hread] at hcore
        cases hcore
    | ok x =>
        obtain ⟨ret', e⟩ := x
        rw [hread] at hcore
        obtain ⟨hret, he⟩ := Prod.mk.inj (Except.ok.inj hcore)
        exact ⟨e, congrArg (fun r => Except.ok (r, e)) hret, he⟩

namespace CompleteRequest

variable {r : Bytes}

/-- A part of the request is not answered. -/
theorem before (h : CompleteRequest r) {s q : Bytes} (hs : s ++ q = r)
    (hlt : s.length < r.length) {ret : HttpCode} {d : HttpConn}
    (hr : ((fresh readBufferSize).append s).processRead = .ok (ret, d)) : ret = .noRequest := by
  by_contra hret
  have hfit : s.length + q.length ≤ readBufferSize := by
    rw [← List.length_append, hs]
    exact h.fits
  obtain ⟨hend, e, he, -, hend'⟩ := processRead_extend hfit hr hret
  obtain ⟨d', hd', -, hlen⟩ := h.read
  rw [hs, hd'] at he
  cases he
  omega

/-- The request is read as if it were alone, whatever follows it in the buffer. -/
theorem behind (h : CompleteRequest r) {q : Bytes} (hfit : r.length + q.length ≤ readBufferSize)
    {ret : HttpCode} {e : HttpConn}
    (hr : ((fresh readBufferSize).append (r ++ q)).processRead = .ok (ret, e)) :
    ret = .getRequest ∧ e.requestEnd = r.length ∧
      ∃ d, ((fresh readBufferSize).append r).processRead = .ok (.getRequest, d) ∧
        d.linger = true ∧ d.requestEnd = r.length ∧ e.request = d.request := by
  obtain ⟨d, hd, hlinger, hend⟩ := h.read
  obtain ⟨-, e', he', hreq, hend'⟩ := processRead_extend hfit hd nofun
  rw [hr] at he'
  cases he'
  exact ⟨rfl, hend'.trans hend, d, hd, hlinger, hend, hreq⟩

end CompleteRequest

/-! ### The answer in a run -/

/-- What `process` makes of a connection that has read a request. -/
theorem process_eq {svc : Service F} {now : ℤ} {scheduler : Option (Verdict F)} {c d e : HttpConn}
    {ret : HttpCode} (hread : c.processRead = .ok (.getRequest, d))
    (hdo : d.doRequest svc now scheduler = .ok (ret, e)) (hcode : RequestCode ret) :
    c.process svc now scheduler =
      .ok { code := ret, written := (e.processWrite ret).1, conn := (e.processWrite ret).2 } := by
  unfold process readRequest
  rw [hread]
  change d.doRequest svc now scheduler >>= _ = _
  rw [hdo]
  cases hcode <;> rfl

theorem process_getRequest {svc : Service F} {now : ℤ} {scheduler : Option (Verdict F)}
    {c d : HttpConn} (hread : c.processRead = .ok (.getRequest, d)) {p : Processed}
    (hp : c.process svc now scheduler = .ok p) :
    ∃ ret e, d.doRequest svc now scheduler = .ok (ret, e) ∧ Answered d ret e ∧
      p = { code := ret, written := (e.processWrite ret).1, conn := (e.processWrite ret).2 } := by
  cases hdo : d.doRequest svc now scheduler with
  | error f =>
      unfold process readRequest at hp
      rw [hread] at hp
      change d.doRequest svc now scheduler >>= _ = _ at hp
      rw [hdo] at hp
      cases hp
  | ok x =>
      obtain ⟨ret, e⟩ := x
      have hans := doRequest_answered d svc now scheduler ret e hdo
      rw [process_eq hread hdo hans.code] at hp
      cases hp
      exact ⟨ret, e, rfl, hans, rfl⟩

/-- What `process` makes of a connection that waits for more bytes. -/
theorem process_noRequest {svc : Service F} {now : ℤ} {scheduler : Option (Verdict F)}
    {c d : HttpConn} (hread : c.processRead = .ok (.noRequest, d)) :
    c.process svc now scheduler = .ok { code := .noRequest, written := false, conn := d } := by
  unfold process readRequest
  rw [hread]
  rfl

/-- What `process_write` makes of an answered request. -/
structure Replied (d : HttpConn) (ret : HttpCode) (e c : HttpConn) : Prop where
  prepared : c.Prepared
  text : c.writeBuf = responseText d.linger e.responseStatus e.responseBody ret
  request : c.request = d.request
  requestEnd : c.requestEnd = d.requestEnd
  readBuf : c.readBuf = d.readBuf
  linger : c.linger = d.linger

theorem processWrite_replied {d e : HttpConn} {ret : HttpCode} (hcode : RequestCode ret)
    (hans : Answered d ret e) (hout : d.core.output = (fresh readBufferSize).output) :
    (e.processWrite ret).1 = true ∧ Replied d ret e (e.processWrite ret).2 := by
  have hret : ret ≠ .fileRequest := by cases hcode <;> nofun
  have hok : (e.processWrite ret).1 = true := by cases hcode <;> rfl
  have hcount : (e.processWrite ret).2.iovCount = 1 := by cases hcode <;> rfl
  have hpair : e.processWrite ret = (true, (e.processWrite ret).2) := Prod.ext hok rfl
  have hsend : e.bytesHaveSend = 0 :=
    (congrArg (fun x => x.bytesHaveSend) hans.request).trans
      (congrArg (fun x => x.bytesHaveSend) hout)
  have hbuf : e.writeBuf = [] :=
    (congrArg (fun x => x.writeBuf) hans.request).trans (congrArg (fun x => x.writeBuf) hout)
  have hlinger : e.linger = d.linger := congrArg (fun x => x.linger) hans.request
  have hkeep := unwritten_processWrite (c := e) hret
  refine ⟨hok, processWrite_prepared hsend hpair hcount, ?_, ?_, ?_, ?_, ?_⟩
  · rw [writeBuf_processWrite hret hpair, hbuf, List.nil_append, hlinger]
  · exact (congrArg (fun x => x.request) hkeep).trans (congrArg (fun x => x.request) hans.request)
  · exact (congrArg (fun x => x.requestEnd) hkeep).trans
      (congrArg (fun x => x.requestEnd) hans.request)
  · exact (congrArg (fun x => x.readBuf) hkeep).trans (congrArg (fun x => x.readBuf) hans.request)
  · exact (congrArg (fun x => x.linger) hkeep).trans (congrArg (fun x => x.linger) hans.request)

/-- A response that has been sent to its end is the response. -/
theorem sent_text {d e c : HttpConn} {ret : HttpCode} (h : Replied d ret e c)
    {evs : List WriteEvent} {s : Sending} (hr : Run WriteStep (Sending.start c) evs s) {k : Bool}
    (hk : s.phase = .finished k) :
    s.wire = responseText d.linger e.responseStatus e.responseBody ret := by
  have htrack := Sending.tracked_run h.prepared hr
  rw [Sending.Tracked, hk] at htrack
  exact htrack.1.trans h.text

/-- The entry of an answered request with nothing behind it. -/
def servedAlone (scheduler : Option (Verdict F)) (d : HttpConn) (ret : HttpCode) (e : HttpConn) :
    Served F where
  scheduler := scheduler
  code := ret
  request := d.request
  response := responseText d.linger e.responseStatus e.responseBody ret
  dropped := []

/-- A request that was answered somewhere in a run is answered so on a fresh connection. -/
theorem CompleteRequest.alone {r : Bytes} (h : CompleteRequest r) {svc : Service F} {now : ℤ}
    {scheduler : Option (Verdict F)} {d d' e' : HttpConn} {ret : HttpCode}
    (hd : ((fresh readBufferSize).append r).processRead = .ok (.getRequest, d))
    (hlinger : d.linger = true) (hend : d.requestEnd = r.length) (hreq : d'.request = d.request)
    (hout : d'.core.output = (fresh readBufferSize).output)
    (hdo : d'.doRequest svc now scheduler = .ok (ret, e')) :
    Alone svc r (servedAlone scheduler d' ret e') := by
  have hfit := fits_fresh_append h.fits
  have hout' : d.core.output = (fresh readBufferSize).output := (processRead_parsed _ _ _ hd).output
  have hlen : d.readBuf.length = r.length := readIdx_read h.fits hd
  have hagree := doRequest_congr svc now scheduler hreq (hout.trans hout'.symm)
  rw [hdo] at hagree
  generalize hx : d.doRequest svc now scheduler = x at hagree
  cases hagree with
  | @ok _ y hsame =>
      obtain ⟨ret', e⟩ := y
      obtain ⟨hret, hoe⟩ := hsame
      change ret = ret' at hret
      subst hret
      have hans := doRequest_answered d svc now scheduler ret e hx
      obtain ⟨hok, hrep⟩ := processWrite_replied hans.code hans hout'
      obtain ⟨evs, s, hrun, hphase⟩ := sent_whole hrep.prepared (hrep.linger.trans hlinger)
      have hkept := KeepAlive.kept hfit (process_eq hd hx hans.code) hok hrun hphase .done
      have hentry : Processed.served
          { code := ret, written := (e.processWrite ret).1, conn := (e.processWrite ret).2 }
          scheduler s.wire = servedAlone scheduler d' ret e' := by
        have hk : d'.linger = d.linger := congrArg Request.linger hreq
        have hst : e.responseStatus = e'.responseStatus :=
          (congrArg (fun x => x.responseStatus) hoe).symm
        have hbody : e.responseBody = e'.responseBody :=
          (congrArg (fun x => x.responseBody) hoe).symm
        simp only [Processed.served, servedAlone, sent_text hrep hrun hphase, hrep.request,
          hrep.requestEnd, hrep.readBuf, hreq, hk, hst, hbody, hend]
        rw [List.drop_of_length_le hlen.le]
      rw [hentry] at hkept
      exact ⟨_, hkept⟩

/-- What a run that reads one chunk and answers it has done. -/
theorem Alone.exchange {svc : Service F} {r : Bytes} {e : Served F}
    (h : Alone svc r e) : ∃ now p evs s k,
      ((fresh readBufferSize).append r).process svc now e.scheduler = .ok p ∧
        Run WriteStep (Sending.start p.conn) evs s ∧ s.phase = .finished k ∧
          e = p.served e.scheduler s.wire := by
  obtain ⟨d, hrun⟩ := h
  cases hrun with
  | more _ _ _ hrest => cases hrest
  | kept _ hp _ hsend hk hrest =>
      cases hrest
      exact ⟨_, _, _, _, _, hp, hsend, hk, rfl⟩
  | closed _ hp _ hsend hk => exact ⟨_, _, _, _, _, hp, hsend, hk, rfl⟩

/-! ### The first answer of a run -/

/-- The first answer of a run on a connection that has read `s` of the request `r`: the chunk `q`
brings the end of the request, and what it brings behind it is dropped. -/
inductive FirstAnswer (svc : Service F) (r s : Bytes) :
    List Bytes → List (Served F) → HttpConn → Prop
  | mk {pre post : List Bytes} {q : Bytes} {e : Served F} {log : List (Served F)}
      {c d : HttpConn} :
      s.length + pre.flatten.length < r.length →
      r.length + e.dropped.length = s.length + pre.flatten.length + q.length →
      Alone svc r { e with dropped := [] } →
      c.core = fresh readBufferSize → KeepAlive svc c post log d →
      FirstAnswer svc r s (pre ++ q :: post) (e :: log) d

theorem FirstAnswer.cons {svc : Service F} {r s q : Bytes} {qs : List Bytes}
    {log : List (Served F)} {d : HttpConn} (h : FirstAnswer svc r (s ++ q) qs log d) :
    FirstAnswer svc r s (q :: qs) log d := by
  cases h with
  | @mk pre post q' e log c d hlt hlen halone hfresh hrun =>
      rw [List.length_append] at hlt hlen
      have hflat : (q :: pre).flatten.length = q.length + pre.flatten.length := by
        rw [List.flatten_cons, List.length_append]
      have h₁ : s.length + (q :: pre).flatten.length < r.length := by omega
      have h₂ : r.length + e.dropped.length =
          s.length + (q :: pre).flatten.length + q'.length := by omega
      exact .mk h₁ h₂ halone hfresh hrun

section First

variable {svc : Service F} {r s q rest : Bytes} {c : HttpConn} {now : ℤ}
  {scheduler : Option (Verdict F)} {p : Processed}

/-- Nothing is answered before the request is complete. -/
theorem CompleteRequest.waits (h : CompleteRequest r) (hw : Waiting s c) (hf : (c.append q).Fits)
    (hsplit : s ++ q ++ rest = r) (hlt : s.length + q.length < r.length)
    (hp : (c.append q).process svc now scheduler = .ok p) :
    p.code = .noRequest ∧ p.written = false ∧ Waiting (s ++ q) p.conn := by
  cases hread : (c.append q).processRead with
  | error f =>
      unfold process readRequest at hp
      rw [hread] at hp
      cases hp
  | ok x =>
      obtain ⟨ret, d⟩ := x
      obtain ⟨-, hfresh, -, hnext⟩ := hw.step hf hread
      have hret := h.before hsplit (by rw [List.length_append]; exact hlt) hfresh
      subst hret
      rw [process_noRequest hread] at hp
      cases hp
      exact ⟨rfl, rfl, hnext rfl⟩

/-- **The chunk that completes the request** is answered as the request alone is. -/
theorem CompleteRequest.answers (h : CompleteRequest r) (hw : Waiting s c)
    (hf : (c.append q).Fits) (hsplit : s ++ q = r ++ rest)
    (hp : (c.append q).process svc now scheduler = .ok p) :
    p.code ≠ .noRequest ∧ p.conn.linger = true ∧
      ∀ evs t k, Run WriteStep (Sending.start p.conn) evs t → t.phase = .finished k →
        Alone svc r { p.served scheduler t.wire with dropped := [] } ∧
          (p.served scheduler t.wire).dropped.length = rest.length := by
  cases hread : (c.append q).processRead with
  | error f =>
      unfold process readRequest at hp
      rw [hread] at hp
      cases hp
  | ok x =>
      obtain ⟨ret, d⟩ := x
      obtain ⟨hlen, hfresh, hout, -⟩ := hw.step hf hread
      rw [← List.length_append, hsplit, List.length_append] at hlen
      rw [hsplit] at hfresh
      obtain ⟨hret, hend, d', hd', hlinger, hend', hreq⟩ := h.behind hlen hfresh
      subst hret
      obtain ⟨ret, e, hdo, hans, rfl⟩ := process_getRequest hread hp
      obtain ⟨-, hrep⟩ := processWrite_replied hans.code hans hout
      have hreq' : d.request = d'.request := hreq
      refine ⟨?_, ?_, ?_⟩
      · obtain ⟨hcode, -⟩ := hans
        cases hcode <;> nofun
      · exact hrep.linger.trans ((congrArg Request.linger hreq').trans hlinger)
      · intro evs t k hrun hk
        have halone := h.alone hd' hlinger hend' hreq' hout hdo
        have hentry : { Processed.served
            { code := ret, written := (e.processWrite ret).1, conn := (e.processWrite ret).2 }
            scheduler t.wire with dropped := [] } = servedAlone scheduler d ret e := by
          simp only [Processed.served, servedAlone, sent_text hrep hrun hk, hrep.request]
        -- what is behind the request is what `init` throws away
        refine ⟨hentry ▸ halone, ?_⟩
        have hdend : d.requestEnd = r.length := hend
        change ((e.processWrite ret).2.readBuf.drop (e.processWrite ret).2.requestEnd).length = _
        rw [hrep.readBuf, hrep.requestEnd, hdend, List.length_drop]
        change d.core.readIdx - r.length = _
        rw [readIdx_read (by rw [List.length_append]; exact hlen) hfresh, List.length_append]
        omega

/-- **The first answer of a run.** -/
theorem CompleteRequest.first (h : CompleteRequest r) {qs : List Bytes} {log : List (Served F)}
    {d : HttpConn} (hrun : KeepAlive svc c qs log d) (hw : Waiting s c)
    (hsplit : s ++ qs.flatten = r ++ rest) (hlt : s.length < r.length) :
    FirstAnswer svc r s qs log d := by
  induction hrun generalizing s with
  | done =>
      have hlen := congrArg List.length hsplit
      simp only [List.flatten_nil, List.append_nil, List.length_append] at hlen
      omega
  | @more c d q qs log now scheduler p hf hp hcode hrun ih =>
      rw [List.flatten_cons, ← List.append_assoc] at hsplit
      -- a part of the request has no answer, and the whole request has one
      rcases Nat.lt_or_ge (s.length + q.length) r.length with hshort | hlong
      · obtain ⟨q', hq'⟩ := prefix_of_append hsplit (by rw [List.length_append]; exact hshort.le)
        obtain ⟨-, -, hnext⟩ := h.waits hw hf hq' hshort hp
        exact (ih hnext hsplit (by rw [List.length_append]; exact hshort)).cons
      · obtain ⟨q', hq'⟩ := prefix_of_append hsplit.symm (by rw [List.length_append]; exact hlong)
        exact absurd hcode (h.answers hw hf hq'.symm hp).1
  | @kept c d q qs log now scheduler p evs t hf hp hwr hsend hk hrun ih =>
      rw [List.flatten_cons, ← List.append_assoc] at hsplit
      rcases Nat.lt_or_ge (s.length + q.length) r.length with hshort | hlong
      · obtain ⟨q', hq'⟩ := prefix_of_append hsplit (by rw [List.length_append]; exact hshort.le)
        obtain ⟨-, hno, -⟩ := h.waits hw hf hq' hshort hp
        rw [hno] at hwr
        cases hwr
      · obtain ⟨q', hq'⟩ := prefix_of_append hsplit.symm (by rw [List.length_append]; exact hlong)
        obtain ⟨-, -, hans⟩ := h.answers hw hf hq'.symm hp
        obtain ⟨halone, hdrop⟩ := hans evs t true hsend hk
        have hfresh := writeEnd_run hsend
        rw [WriteEnd, hk] at hfresh
        have hlen := congrArg List.length hq'
        simp only [List.length_append] at hlen
        have hlt' : s.length + ([] : List Bytes).flatten.length < r.length := hlt
        have hlen' : r.length + (p.served scheduler t.wire).dropped.length =
            s.length + ([] : List Bytes).flatten.length + q.length := by
          rw [hdrop, List.flatten_nil, List.length_nil]
          omega
        exact .mk hlt' hlen' halone hfresh hrun
  | @closed c q qs now scheduler p evs t hf hp hwr hsend hk =>
      rw [List.flatten_cons, ← List.append_assoc] at hsplit
      rcases Nat.lt_or_ge (s.length + q.length) r.length with hshort | hlong
      · obtain ⟨q', hq'⟩ := prefix_of_append hsplit (by rw [List.length_append]; exact hshort.le)
        obtain ⟨-, hno, -⟩ := h.waits hw hf hq' hshort hp
        rw [hno] at hwr
        cases hwr
      · obtain ⟨q', hq'⟩ := prefix_of_append hsplit.symm (by rw [List.length_append]; exact hlong)
        obtain ⟨-, hlinger, -⟩ := h.answers hw hf hq'.symm hp
        have hclosed := writeEnd_run hsend
        rw [WriteEnd, hk] at hclosed
        rw [hlinger] at hclosed
        cases hclosed

/-- **A request is served**, in whatever parts it comes, and the connection is as good as fresh
behind it. -/
theorem CompleteRequest.serve (h : CompleteRequest r)
    (hp : ((fresh readBufferSize).append r).process svc now scheduler = .ok p) {qs : List Bytes}
    (hw : Waiting s c) (hsplit : s ++ qs.flatten = r) (hne : ∀ q ∈ qs, q ≠ [])
    (hlt : s.length < r.length) :
    ∃ e d, d.core = fresh readBufferSize ∧ Alone svc r e ∧ e.scheduler = scheduler ∧
      ∀ qs' log d', KeepAlive svc d qs' log d' → KeepAlive svc c (qs ++ qs') (e :: log) d' := by
  obtain ⟨d₀, hd₀, hlinger, hend⟩ := h.read
  induction qs generalizing s c with
  | nil =>
      rw [List.flatten_nil, List.append_nil] at hsplit
      exact absurd (congrArg List.length hsplit) hlt.ne
  | cons q qs ih =>
      rw [List.flatten_cons, ← List.append_assoc] at hsplit
      have hall := congrArg List.length hsplit
      rw [List.length_append, List.length_append] at hall
      have hlen : s.length + q.length ≤ readBufferSize := by
        have := h.fits
        omega
      by_cases hrest : qs.flatten = []
      · -- the last part
        have hqs : qs = [] := List.eq_nil_iff_forall_not_mem.2 fun x hx =>
          hne x (List.mem_cons_of_mem _ hx) (List.flatten_eq_nil_iff.1 hrest x hx)
        subst hqs
        rw [List.flatten_nil, List.append_nil] at hsplit
        have hlast := hw.read (q := q) hlen (by rw [hsplit]; exact hd₀)
        obtain ⟨hf, d, hread, hcore⟩ := hlast
        have hout : d.core.output = (fresh readBufferSize).output := (hw.step hf hread).2.2.1
        have hreq : d.core.request = d₀.request := congrArg HttpConn.request hcore
        have hsame : d.core.output = d₀.output := congrArg HttpConn.output hcore
        obtain ⟨ret, e₀, hdo₀, -, -⟩ := process_getRequest hd₀ hp
        have hagree := doRequest_congr (c := d) svc now scheduler hreq hsame
        rw [hdo₀] at hagree
        generalize hdo : d.doRequest svc now scheduler = x at hagree
        cases hagree with
        | @ok y _ _ =>
            obtain ⟨ret, e⟩ := y
            have hans := doRequest_answered d svc now scheduler ret e hdo
            obtain ⟨hok, hrep⟩ := processWrite_replied hans.code hans hout
            have hkeep : d.linger = true := (congrArg Request.linger hreq).trans hlinger
            obtain ⟨evs, t, hsend, hphase⟩ := sent_whole hrep.prepared (hrep.linger.trans hkeep)
            have hproc := process_eq hread hdo hans.code
            have hsplit' : s ++ q = r ++ [] := by rw [hsplit, List.append_nil]
            obtain ⟨-, -, hserved⟩ := h.answers hw hf hsplit' hproc
            obtain ⟨halone, hdrop⟩ := hserved evs t true hsend hphase
            have hfresh := writeEnd_run hsend
            rw [WriteEnd, hphase] at hfresh
            refine ⟨_, t.conn, hfresh, ?_, ?_, fun qs' log d' hrun =>
              .kept hf hproc hok hsend hphase hrun⟩
            · rwa [← List.length_eq_zero_iff.1 hdrop] at halone
            · rfl
      · obtain ⟨e₀, he₀⟩ := part_of_read h.fits hd₀ hend hsplit hrest
        obtain ⟨hf, e, hread, -⟩ := hw.read hlen he₀
        have hnext := (hw.step hf hread).2.2.2 rfl
        have hpos := List.length_pos_iff.2 hrest
        obtain ⟨served, d, hfresh, halone, hv, hrun⟩ := ih hnext hsplit
          (fun x hx => hne x (List.mem_cons_of_mem _ hx))
          (by rw [List.length_append]; omega)
        have hmore : (c.append q).process svc now scheduler = .ok _ := process_noRequest hread
        exact ⟨served, d, hfresh, halone, hv, fun qs' log d' hrun' =>
          .more hf hmore rfl (hrun _ _ _ hrun')⟩

end First

/-! ### Boundaries -/

section Boundaries

variable {r q : Bytes} {rs pre post : List Bytes}

/-- The first chunks are those before `q`, or they reach behind `q`. -/
theorem take_around (pre : List Bytes) (q : Bytes) (post : List Bytes) (k : ℕ) :
    ((pre ++ q :: post).take k).flatten.length ≤ pre.flatten.length ∨
      ∃ j, ((pre ++ q :: post).take k).flatten = pre.flatten ++ q ++ (post.take j).flatten := by
  rcases Nat.lt_or_ge pre.length k with hlt | hge
  · obtain ⟨j, rfl⟩ := Nat.exists_eq_add_of_lt hlt
    refine .inr ⟨j, ?_⟩
    have hj : pre.length + j + 1 = pre.length + (j + 1) := by omega
    rw [hj, List.take_length_add_append, List.take_succ_cons, List.flatten_append,
      List.flatten_cons, List.append_assoc]
  · refine .inl ?_
    rw [List.take_append_of_le_length hge]
    exact ((List.take_prefix k pre).flatten).length_le

theorem aligned_cons (hlt : pre.flatten.length < r.length) (hq : pre.flatten ++ q = r) :
    Aligned (r :: rs) (pre ++ q :: post) ↔ Aligned rs post := by
  constructor
  · intro h n
    obtain ⟨k, hk⟩ := h (n + 1)
    rw [List.take_succ_cons, List.flatten_cons] at hk
    rcases take_around pre q post k with hle | ⟨j, hj⟩
    · rw [hk, List.length_append] at hle
      omega
    · rw [hj, hq] at hk
      exact ⟨j, List.append_cancel_left hk⟩
  · intro h n
    cases n with
    | zero => exact ⟨0, rfl⟩
    | succ n =>
        obtain ⟨k, hk⟩ := h n
        refine ⟨pre.length + (k + 1), ?_⟩
        rw [List.take_length_add_append, List.take_succ_cons, List.flatten_append,
          List.flatten_cons, ← List.append_assoc, hq, hk, List.take_succ_cons, List.flatten_cons]

/-- Requests that are cut one by one are kept apart. -/
theorem Aligned.parts (h : Aligned rs post) (parts : List Bytes) :
    Aligned (parts.flatten :: rs) (parts ++ post) := by
  intro n
  cases n with
  | zero => exact ⟨0, rfl⟩
  | succ n =>
      obtain ⟨k, hk⟩ := h n
      refine ⟨parts.length + k, ?_⟩
      rw [List.take_length_add_append, List.flatten_append, hk, List.take_succ_cons,
        List.flatten_cons]

theorem aligned_nil : Aligned [] [] := fun n => ⟨n, by simp⟩

theorem not_aligned (hlt : pre.flatten.length < r.length)
    (hgt : r.length < pre.flatten.length + q.length) : ¬ Aligned (r :: rs) (pre ++ q :: post) := by
  intro h
  obtain ⟨k, hk⟩ := h 1
  have hlen := congrArg List.length hk
  rw [List.take_succ_cons, List.take_zero, List.flatten_cons, List.flatten_nil, List.append_nil]
    at hlen
  rcases take_around pre q post k with hle | ⟨j, hj⟩
  · omega
  · rw [hj, List.length_append, List.length_append] at hlen
    omega

end Boundaries

/-! ### Main result -/

section Main

variable {svc : Service F}

/-- Empty chunks change nothing. -/
theorem keepAlive_idle {c d : HttpConn} {qs : List Bytes} {log : List (Served F)}
    (hrun : KeepAlive svc c qs log d) (hc : c.core = fresh readBufferSize)
    (hqs : qs.flatten = []) : log = [] ∧ d.core = fresh readBufferSize := by
  have hidle : ∀ {c : HttpConn} {q : Bytes} {now : ℤ} {scheduler : Option (Verdict F)}
      {p : Processed}, c.core = fresh readBufferSize → q = [] →
      (c.append q).process svc now scheduler = .ok p →
      p.written = false ∧ p.conn.core = fresh readBufferSize := by
    rintro c q now scheduler p hc rfl hp
    rw [append_nil] at hp
    have hcore : coreOf c.processRead = .ok (.noRequest, fresh readBufferSize) := by
      rw [← processRead_core, hc, fresh_idle]
    cases hread : c.processRead with
    | error f =>
        rw [hread] at hcore
        cases hcore
    | ok x =>
        obtain ⟨ret, e⟩ := x
        rw [hread] at hcore
        obtain ⟨hret, he⟩ := Prod.mk.inj (Except.ok.inj hcore)
        change ret = .noRequest at hret
        subst hret
        rw [process_noRequest hread] at hp
        cases hp
        exact ⟨rfl, he⟩
  induction hrun with
  | done => exact ⟨rfl, hc⟩
  | more hf hp hcode hrun ih =>
      obtain ⟨hq, hqs⟩ := List.append_eq_nil_iff.1 hqs
      exact ih (hidle hc hq hp).2 hqs
  | kept hf hp hwr hsend hk hrun ih =>
      obtain ⟨hq, -⟩ := List.append_eq_nil_iff.1 hqs
      rw [(hidle hc hq hp).1] at hwr
      cases hwr
  | closed hf hp hwr hsend hk =>
      obtain ⟨hq, -⟩ := List.append_eq_nil_iff.1 hqs
      rw [(hidle hc hq hp).1] at hwr
      cases hwr

theorem CompleteRequest.pos {r : Bytes} (h : CompleteRequest r) : 0 < r.length := by
  obtain ⟨d, hd, -, -⟩ := h.read
  rcases Nat.eq_zero_or_pos r.length with h0 | hpos
  · rw [List.length_eq_zero_iff.1 h0, append_nil, fresh_idle] at hd
    cases hd
  · exact hpos

/-- A request that is alone loses nothing. -/
theorem Alone.dropped {r : Bytes} {e : Served F} (hr : CompleteRequest r) (h : Alone svc r e) :
    e.dropped = [] := by
  obtain ⟨d, hrun⟩ := h
  have hsplit : [] ++ [r].flatten = r ++ [] := by simp
  have hfirst := hr.first hrun (waiting_init rfl) hsplit hr.pos
  generalize hqs : [r] = qs at hfirst
  cases hfirst with
  | @mk pre post q _ _ _ _ _ hlen =>
      cases pre with
      | nil =>
          cases hqs
          refine List.length_eq_zero_iff.1 ?_
          simp only [List.length_nil, List.flatten_nil] at hlen
          omega
      | cons x pre =>
          have hnil := congrArg List.length hqs
          simp at hnil

/-- The runs from any connection that is as good as fresh. -/
theorem keepAlive_iff {requests : List Bytes} (hreq : ∀ r ∈ requests, CompleteRequest r)
    {chunks : List Bytes} (hsent : chunks.flatten = requests.flatten) {c d : HttpConn}
    (hc : c.core = fresh readBufferSize) {log : List (Served F)}
    (hrun : KeepAlive svc c chunks log d) :
    (List.Forall₂ (Alone svc) requests log ∧ d.readBuf = []) ↔ Aligned requests chunks := by
  induction requests generalizing chunks c log with
  | nil =>
      obtain ⟨rfl, hd⟩ := keepAlive_idle hrun hc hsent
      refine iff_of_true ⟨.nil, congrArg (fun x => x.readBuf) hd⟩ ?_
      intro n
      exact ⟨0, by rw [List.take_nil]; rfl⟩
  | cons r rs ih =>
      have hr := hreq r (List.mem_cons_self ..)
      rw [List.flatten_cons] at hsent
      have hfirst := hr.first (s := []) hrun (waiting_init hc) hsent hr.pos
      cases hfirst with
      | @mk pre post q e log c' _ hlt hlen halone hfresh hrun' =>
          simp only [List.length_nil, Nat.zero_add] at hlt hlen
          by_cases hdrop : e.dropped = []
          · have he : { e with dropped := [] } = e := by rw [← hdrop]
            rw [he] at halone
            rw [hdrop, List.length_nil, Nat.add_zero] at hlen
            rw [List.flatten_append, List.flatten_cons, ← List.append_assoc] at hsent
            -- the chunks up to the first answer are the first request
            have hpre : (pre.flatten ++ q).length = r.length := by
              rw [List.length_append]
              exact hlen.symm
            obtain ⟨hq, hpost⟩ := List.append_inj hsent hpre
            rw [aligned_cons hlt hq, List.forall₂_cons,
              ← ih (fun x hx => hreq x (List.mem_cons_of_mem _ hx)) hpost hfresh hrun']
            simp only [halone, true_and]
          · -- bytes of the next request came along, so no chunk ends where this one does
            have hpos := List.length_pos_iff.2 hdrop
            refine iff_of_false ?_ (not_aligned hlt (by omega))
            rintro ⟨hall, -⟩
            exact hdrop ((List.forall₂_cons.1 hall).1.dropped hr)

/-- **A sequence of requests is served**, each as if it were alone and without losing a byte,
exactly when every request ends where a chunk ends. -/
theorem keep_alive_sequence {requests chunks : List Bytes}
    (hreq : ∀ r ∈ requests, CompleteRequest r) (hsent : chunks.flatten = requests.flatten)
    {log : List (Served F)} {d : HttpConn}
    (hrun : KeepAlive svc (fresh readBufferSize) chunks log d) :
    (List.Forall₂ (Alone svc) requests log ∧ d.readBuf = []) ↔ Aligned requests chunks :=
  keepAlive_iff hreq hsent rfl hrun

end Main

/-! ### Two requests -/

/-- A service without numbers. -/
def plainService : Service Unit where
  ofText _ := ()
  printF _ := []
  sockfd := 5

/-- A request whose answer is that its body has no input. -/
def emptyPost : Bytes :=
  ascii "POST /infer HTTP/1.1\r\nConnection: keep-alive\r\nContent-Length: 2\r\n\r\n\x7b\x7d"

theorem completeRequest_emptyPost : CompleteRequest emptyPost :=
  ⟨by decide, _, rfl, rfl, rfl⟩

/-- What `process` makes of a chunk on a fresh connection. -/
def answered (chunk : Bytes) : Processed :=
  (((fresh readBufferSize).append chunk).process plainService 0 none).toOption.getD
    { code := .noRequest, written := false, conn := fresh readBufferSize }

/-- That request in three parts: the first ends inside the method, the second in the headers. -/
def emptyParts : List Bytes := [emptyPost.take 3, (emptyPost.take 40).drop 3, emptyPost.drop 40]

theorem emptyParts_flatten : emptyParts.flatten = emptyPost := by decide

set_option maxRecDepth 8000 in
/-- What is served when the request comes in these parts. -/
theorem emptyParts_served {c : HttpConn} (hc : c.core = fresh readBufferSize) :
    ∃ e d, d.core = fresh readBufferSize ∧ Alone plainService emptyPost e ∧ e.scheduler = none ∧
      ∀ qs' log d', KeepAlive plainService d qs' log d' →
        KeepAlive plainService c (emptyParts ++ qs') (e :: log) d' := by
  have hproc : ((fresh readBufferSize).append emptyPost).process plainService 0 none =
      .ok (answered emptyPost) := rfl
  have hsplit : [] ++ emptyParts.flatten = emptyPost := emptyParts_flatten
  exact completeRequest_emptyPost.serve hproc (waiting_init hc) hsplit (by decide) (by decide)

/-- Two requests, each cut into three parts. -/
theorem keep_alive_sequence_parts :
    ∃ e₁ e₂ d, KeepAlive plainService (fresh readBufferSize) (emptyParts ++ emptyParts) [e₁, e₂] d ∧
      List.Forall₂ (Alone plainService) [emptyPost, emptyPost] [e₁, e₂] ∧ d.readBuf = [] := by
  obtain ⟨e₁, d₁, hfresh₁, -, -, hrun₁⟩ := emptyParts_served (c := fresh readBufferSize) rfl
  obtain ⟨e₂, d₂, -, -, -, hrun₂⟩ := emptyParts_served hfresh₁
  have hrun := hrun₁ _ _ _ (hrun₂ _ _ _ .done)
  rw [List.append_nil] at hrun
  have haligned := (aligned_nil.parts emptyParts).parts emptyParts
  rw [emptyParts_flatten, List.append_nil] at haligned
  have hreq : ∀ r ∈ [emptyPost, emptyPost], CompleteRequest r := by
    simp only [List.forall_mem_cons, completeRequest_emptyPost, true_and, List.not_mem_nil,
      false_imp_iff, implies_true]
  have hsent : (emptyParts ++ emptyParts).flatten = [emptyPost, emptyPost].flatten := by
    rw [List.flatten_append, emptyParts_flatten]
    rfl
  exact ⟨e₁, e₂, d₂, hrun, (keep_alive_sequence hreq hsent hrun).2 haligned⟩

set_option maxRecDepth 8000 in
/-- **Two requests in one chunk**: only the first one is answered.  The second one is dropped, its
first byte overwritten by the end of the first body. -/
theorem second_request_dropped :
    CompleteRequest emptyPost ∧ ∃ e d,
      KeepAlive plainService (fresh readBufferSize) [emptyPost ++ emptyPost] [e] d ∧
      e.dropped = 0 :: emptyPost.tail ∧ d.readBuf = [] ∧
      ¬ List.Forall₂ (Alone plainService) [emptyPost, emptyPost] [e] := by
  have hprep : (answered (emptyPost ++ emptyPost)).conn.Prepared :=
    ⟨rfl, rfl, rfl, rfl, rfl, by decide⟩
  obtain ⟨evs, t, hsend, hk⟩ := sent_whole hprep rfl
  have hfresh := writeEnd_run hsend
  rw [WriteEnd, hk] at hfresh
  have hproc :
      ((fresh readBufferSize).append (emptyPost ++ emptyPost)).process plainService 0 none =
        .ok (answered (emptyPost ++ emptyPost)) := rfl
  have hrun := KeepAlive.kept (fits_fresh_append (by decide)) hproc rfl hsend hk .done
  have hdrop : (answered (emptyPost ++ emptyPost)).conn.readBuf.drop
      (answered (emptyPost ++ emptyPost)).conn.requestEnd = 0 :: emptyPost.tail := by decide
  refine ⟨completeRequest_emptyPost, _, _, hrun, hdrop, ?_, ?_⟩
  · exact congrArg (fun x => x.readBuf) hfresh
  · intro hall
    cases hall with
    | cons _ hnil => cases hnil

end Gateway.HttpConn
