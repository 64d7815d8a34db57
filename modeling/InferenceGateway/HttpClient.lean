/-
The client of a connection.

A client gets the bytes of a connection in pieces that it does not choose.  It reads lines up to an
empty one, finds the length of the body in the only header that holds it, and takes the body.  This
module shows that this is enough for all that a connection sends: the responses follow one another
with nothing between them, and each of them frames itself.

Main definitions:

* `Gateway.Message.read` — the first message of a stream, and the rest;
* `Gateway.Message.code` — the messages as a code that can be read off a stream;
* `Gateway.HttpConn.Answers` — a message is what was sent for a request.

Main results:

* `Gateway.HttpConn.answers_run` — every response of a run is a framed message;
* `Gateway.HttpConn.client_reads` — **a client reads one message for each request**, whatever the
  pieces are, and never a part of one.
-/

import InferenceGateway.HttpFraming
import InferenceGateway.HttpKeepAlive
import InferenceGateway.PrefixCode

set_option relaxedAutoImplicit false
set_option autoImplicit false

namespace Gateway

namespace Message

/-! ### Lines -/

/-- The first line of a stream without its end, and the rest. -/
def takeLine : Bytes → Option (Bytes × Bytes)
  | 13 :: 10 :: rest => some ([], rest)
  | b :: rest => (takeLine rest).map fun x => (b :: x.1, x.2)
  | [] => none

/-- The lines up to the first empty one, and the rest; the number bounds the lines. -/
def takeHead : ℕ → Bytes → Option (List Bytes × Bytes)
  | 0, _ => none
  | k + 1, s =>
      match takeLine s with
      | none => none
      | some ([], rest) => some ([], rest)
      | some (l, rest) => (takeHead k rest).map fun x => (l :: x.1, x.2)

theorem takeLine_end (rest : Bytes) : takeLine (13 :: 10 :: rest) = some ([], rest) := rfl

theorem takeLine_cons {b : UInt8} {s : Bytes} (h : ∀ rest, b = 13 → s = 10 :: rest → False) :
    takeLine (b :: s) = (takeLine s).map fun x => (b :: x.1, x.2) := by
  rw [takeLine]
  exact h

/-- **A line is read back**, whatever comes behind it. -/
theorem takeLine_line {l : Bytes} (hl : HttpConn.Unbroken l) (rest : Bytes) :
    takeLine (l ++ ascii "\r\n" ++ rest) = some (l, rest) := by
  induction l with
  | nil => exact takeLine_end rest
  | cons b l ih =>
      have hline := ih fun x hx => hl x (List.mem_cons_of_mem _ hx)
      have hb : b ≠ 13 := (hl b List.mem_cons_self).1
      rw [List.cons_append, List.cons_append, takeLine_cons fun _ h _ => hb h, hline]
      rfl

/-- A line that is there stays when more comes, and it has its end. -/
theorem takeLine_some {s l rest : Bytes} (h : takeLine s = some (l, rest)) :
    rest.length + 2 ≤ s.length ∧ ∀ more, takeLine (s ++ more) = some (l, rest ++ more) := by
  induction s using takeLine.induct generalizing l with
  | case1 rest' =>
      cases h
      exact ⟨Nat.le_refl _, fun more => rfl⟩
  | case2 b s hb ih =>
      rw [takeLine_cons hb] at h
      obtain ⟨⟨l', rest'⟩, hs, heq⟩ := Option.map_eq_some_iff.1 h
      cases heq
      obtain ⟨hlen, hmore⟩ := ih hs
      refine ⟨hlen.trans (Nat.le_succ _), fun more => ?_⟩
      -- what comes first behind a carriage return is there already, since a line was found
      have hb' : ∀ r, b = 13 → s ++ more = 10 :: r → False := by
        intro r h13 hr
        cases s with
        | nil => cases hs
        | cons a s => exact hb s h13 (congrArg (· :: s) (List.cons.inj hr).1)
      rw [List.cons_append, takeLine_cons hb', hmore more]
      rfl
  | case3 => cases h

/-- **The lines of a head are read back.** -/
theorem takeHead_lines {ls : List Bytes} (hls : ∀ l ∈ ls, l ≠ [] ∧ HttpConn.Unbroken l)
    (rest : Bytes) : takeHead (ls.length + 1)
      ((ls.map (· ++ ascii "\r\n")).flatten ++ ascii "\r\n" ++ rest) = some (ls, rest) := by
  induction ls with
  | nil => rfl
  | cons l ls ih =>
      obtain ⟨hne, hl⟩ := hls l List.mem_cons_self
      obtain ⟨b, l', rfl⟩ := List.exists_cons_of_ne_nil hne
      have hrest := ih fun x hx => hls x (List.mem_cons_of_mem _ hx)
      have hline := takeLine_line hl
        ((ls.map (· ++ ascii "\r\n")).flatten ++ ascii "\r\n" ++ rest)
      rw [List.map_cons, List.flatten_cons, List.append_assoc, List.append_assoc,
        ← List.append_assoc _ _ rest, List.length_cons, takeHead, hline]
      dsimp only
      rw [hrest]
      rfl

/-- A head that is there stays when more comes, and does not depend on the bound. -/
theorem takeHead_some {k : ℕ} {s rest : Bytes} {ls : List Bytes}
    (h : takeHead k s = some (ls, rest)) : rest.length + 2 * (ls.length + 1) ≤ s.length ∧
      ∀ j more, ls.length < j → takeHead j (s ++ more) = some (ls, rest ++ more) := by
  induction k generalizing s ls with
  | zero => cases h
  | succ k ih =>
      rw [takeHead] at h
      cases hl : takeLine s with
      | none =>
          rw [hl] at h
          cases h
      | some x =>
          obtain ⟨l, rest'⟩ := x
          rw [hl] at h
          obtain ⟨hlen, hmore⟩ := takeLine_some hl
          cases l with
          | nil =>
              cases h
              refine ⟨hlen, fun j more hj => ?_⟩
              obtain ⟨j, rfl⟩ : ∃ i, j = i + 1 := ⟨j - 1, by omega⟩
              rw [takeHead, hmore more]
          | cons b l =>
              obtain ⟨⟨ls', r⟩, hhead, heq⟩ := Option.map_eq_some_iff.1 h
              cases heq
              obtain ⟨hlen', hmore'⟩ := ih hhead
              change r.length + 2 * (ls'.length + 1) ≤ rest'.length at hlen'
              refine ⟨?_, fun j more hj => ?_⟩
              · change r.length + 2 * (ls'.length + 1 + 1) ≤ s.length
                omega
              change ls'.length + 1 < j at hj
              obtain ⟨j, rfl⟩ : ∃ i, j = i + 1 := ⟨j - 1, by omega⟩
              rw [takeHead, hmore more]
              dsimp only
              rw [hmore' j more (by omega)]
              rfl

/-! ### Messages -/

/-- The length that the headers give. -/
def lengthOf (headers : List Bytes) : Option ℕ :=
  match headers.filter (ascii "Content-Length:").isPrefixOf with
  | [h] => some (CString.atol (h.drop (ascii "Content-Length:").length)).toNat
  | _ => none

/-- The body for a head. -/
def takeBody : List Bytes → Bytes → Option (Message × Bytes)
  | [], _ => none
  | start :: headers, rest =>
      match lengthOf headers with
      | none => none
      | some n =>
          if n ≤ rest.length then
            some ({ start := start, headers := headers, body := rest.take n }, rest.drop n)
          else none

/-- **The first message of a stream**, and the rest of it. -/
def read (s : Bytes) : Option (Message × Bytes) :=
  (takeHead s.length s).bind fun x => takeBody x.1 x.2

theorem lengthOf_framed {m : Message} (h : m.Framed) : lengthOf m.headers = some m.body.length := by
  obtain ⟨value, hfilter, hvalue⟩ := h.length
  rw [lengthOf, hfilter]
  dsimp only
  rw [List.drop_left, hvalue, Int.toNat_natCast]

/-- **A framed message is read back.** -/
theorem read_text {m : Message} (h : m.Framed) (rest : Bytes) :
    read (m.text ++ rest) = some (m, rest) := by
  have htext : m.text ++ rest = ((m.start :: m.headers).map (· ++ ascii "\r\n")).flatten ++
      ascii "\r\n" ++ (m.body ++ rest) := by
    simp only [text, List.map_cons, List.flatten_cons, List.append_assoc]
  obtain ⟨hlen, hmore⟩ := takeHead_some (takeHead_lines h.lines (m.body ++ rest))
  have hhead := hmore (m.text ++ rest).length [] (by rw [htext]; omega)
  rw [List.append_nil, List.append_nil, ← htext] at hhead
  rw [read, hhead]
  change takeBody (m.start :: m.headers) (m.body ++ rest) = _
  rw [takeBody, lengthOf_framed h]
  dsimp only
  rw [if_pos (by rw [List.length_append]; omega), List.take_left, List.drop_left]

/-- A body that is there stays when more comes. -/
theorem takeBody_some {ls : List Bytes} {s rest : Bytes} {m : Message}
    (h : takeBody ls s = some (m, rest)) : rest.length ≤ s.length ∧
      ∀ more, takeBody ls (s ++ more) = some (m, rest ++ more) := by
  cases ls with
  | nil => cases h
  | cons start headers =>
      rw [takeBody] at h
      cases hn : lengthOf headers with
      | none =>
          rw [hn] at h
          cases h
      | some n =>
          rw [hn] at h
          dsimp only at h
          split at h
          · next hle =>
              cases h
              refine ⟨by rw [List.length_drop]; omega, fun more => ?_⟩
              have hle' : n ≤ (s ++ more).length := by rw [List.length_append]; omega
              rw [takeBody, hn]
              dsimp only
              rw [if_pos hle', List.take_append_of_le_length hle,
                List.drop_append_of_le_length hle]
          · cases h

/-- A message that is there stays when more comes, and it has bytes. -/
theorem read_some {s rest : Bytes} {m : Message} (h : read s = some (m, rest)) :
    rest.length < s.length ∧ ∀ more, read (s ++ more) = some (m, rest ++ more) := by
  obtain ⟨⟨ls, body⟩, hhead, hbody⟩ := Option.bind_eq_some_iff.1 h
  obtain ⟨hlen, hmore⟩ := takeHead_some hhead
  obtain ⟨hle, hmore'⟩ := takeBody_some hbody
  change rest.length ≤ body.length at hle
  refine ⟨by omega, fun more => ?_⟩
  have hhead' := hmore (s ++ more).length more (by rw [List.length_append]; omega)
  rw [read, hhead']
  exact hmore' more

/-- A message whose text is not too long is framed. -/
theorem framed_of_text {linger : Bool} {status : ℕ} {body : Bytes} {ret : HttpCode}
    (hret : HttpOut.Answered ret)
    (hlen : ((ofCode linger status body ret).text.length : ℤ) ≤ CString.LONG_MAX) :
    (ofCode linger status body ret).Framed := by
  have hsmall : ((ofCode linger status body ret).body.length : ℤ) ≤ CString.LONG_MAX := by
    rw [text, List.length_append] at hlen
    omega
  rcases hret with rfl | rfl | rfl | rfl | rfl
  · exact framed_ofCode _ _ (.inl rfl) hsmall
  · exact framed_page linger (by decide) hsmall
  · exact framed_page linger (by decide) hsmall
  · exact framed_page linger (by decide) hsmall
  · exact framed_page linger (by decide) hsmall

/-- **Framed messages can be read off a stream.** -/
def code : PrefixCode UInt8 Message where
  Valid := Framed
  encode := text
  decode := read
  decode_encode := read_text
  decode_append h := (read_some h).2
  decode_shorter h := (read_some h).1

end Message

namespace HttpConn

open EventSystem

variable {F : Type} {svc : Service F}

/-! ### What a connection sends -/

/-- A message is what was sent for a request: the answer with the status and the body that
`do_request` left, or the page of the error. -/
structure Answers (e : Served F) (m : Message) : Prop where
  text : m.text = e.response
  framed : m.Framed
  answer : ∃ status body, m = Message.ofCode e.request.linger status body e.code

/-- A response is ready, and it is the text for the code. -/
structure Ready (p : Processed) : Prop where
  prepared : p.conn.Prepared
  code : HttpOut.Answered p.code
  text : ∃ status body, p.conn.writeBuf = responseText p.conn.linger status body p.code

theorem RequestCode.answered {ret : HttpCode} (h : RequestCode ret) : HttpOut.Answered ret := by
  cases h with
  | noResource => exact .inr (.inr (.inl rfl))
  | badRequest => exact .inr (.inr (.inr (.inl rfl)))
  | jsonResponse => exact .inl rfl

/-- What `process` makes of a request that the parser turns down. -/
theorem process_badRequest {now : ℤ} {scheduler : Option (Verdict F)} {c d : HttpConn}
    (hread : c.processRead = .ok (.badRequest, d)) :
    c.process svc now scheduler = .ok
      { code := .badRequest, written := (d.processWrite .badRequest).1,
        conn := (d.processWrite .badRequest).2 } := by
  unfold process readRequest
  rw [hread]
  rfl

/-- What `process_write` leaves of an empty write buffer. -/
theorem ready_processWrite {d : HttpConn} {ret : HttpCode} (hret : HttpOut.Answered ret)
    (hsend : d.bytesHaveSend = 0) (hbuf : d.writeBuf = []) (written : Bool) :
    Ready { code := ret, written := written, conn := (d.processWrite ret).2 } := by
  have hfile : ret ≠ .fileRequest := by rcases hret with rfl | rfl | rfl | rfl | rfl <;> decide
  have hok : (d.processWrite ret).1 = true := by
    rcases hret with rfl | rfl | rfl | rfl | rfl <;> rfl
  have hcount : (d.processWrite ret).2.iovCount = 1 := by
    rcases hret with rfl | rfl | rfl | rfl | rfl <;> rfl
  have hpair : d.processWrite ret = (true, (d.processWrite ret).2) := Prod.ext hok rfl
  have hlinger : (d.processWrite ret).2.linger = d.linger :=
    congrArg (fun x => x.linger) (unwritten_processWrite (c := d) hfile)
  refine ⟨processWrite_prepared hsend hpair hcount, hret, d.responseStatus, d.responseBody, ?_⟩
  rw [writeBuf_processWrite hfile hpair, hbuf, List.nil_append, hlinger]

/-- **One chunk.**  The connection waits for more, or a response is ready. -/
theorem Waiting.process {s q : Bytes} {c : HttpConn} {now : ℤ} {scheduler : Option (Verdict F)}
    {p : Processed} (h : Waiting s c) (hf : (c.append q).Fits)
    (hp : (c.append q).process svc now scheduler = .ok p) :
    (p.written = false ∧ Waiting (s ++ q) p.conn) ∨ Ready p := by
  cases hread : (c.append q).processRead with
  | error f =>
      unfold HttpConn.process readRequest at hp
      rw [hread] at hp
      cases hp
  | ok x =>
      obtain ⟨ret, d⟩ := x
      obtain ⟨-, -, hout, hnext⟩ := h.step hf hread
      have hsend : d.bytesHaveSend = 0 := congrArg (fun x => x.bytesHaveSend) hout
      have hbuf : d.writeBuf = [] := congrArg (fun x => x.writeBuf) hout
      obtain ⟨hcode, -⟩ := processRead_parsed _ _ _ hread
      cases hcode with
      | noRequest =>
          rw [process_noRequest hread] at hp
          cases hp
          exact .inl ⟨rfl, hnext rfl⟩
      | badRequest =>
          rw [process_badRequest hread] at hp
          obtain rfl := Except.ok.inj hp
          exact .inr (ready_processWrite (.inr (.inr (.inr (.inl rfl)))) hsend hbuf _)
      | getRequest =>
          obtain ⟨ret, e, hdo, hans, rfl⟩ := process_getRequest hread hp
          have hsend' : e.bytesHaveSend = 0 :=
            (congrArg (fun x => x.bytesHaveSend) hans.request).trans hsend
          have hbuf' : e.writeBuf = [] := (congrArg (fun x => x.writeBuf) hans.request).trans hbuf
          exact .inr (ready_processWrite hans.code.answered hsend' hbuf' _)

/-- **A response that was sent to its end** is a framed message. -/
theorem Ready.answers {p : Processed} (h : Ready p) {scheduler : Option (Verdict F)}
    {evs : List WriteEvent} {t : Sending} {k : Bool}
    (hrun : Run WriteStep (Sending.start p.conn) evs t) (hk : t.phase = .finished k)
    (hlen : (t.wire.length : ℤ) ≤ CString.LONG_MAX) :
    ∃ m, Answers (p.served scheduler t.wire) m := by
  obtain ⟨status, body, htext⟩ := h.text
  have htrack := Sending.tracked_run h.prepared hrun
  rw [Sending.Tracked, hk] at htrack
  have hwire : (Message.ofCode p.conn.linger status body p.code).text = t.wire := by
    rw [← Message.text_ofCode _ _ h.code, ← htext]
    exact htrack.1.symm
  rw [← hwire] at hlen
  exact ⟨_, hwire, Message.framed_of_text h.code hlen, status, body, rfl⟩

/-- **Every response of a run is a framed message.** -/
theorem answers_run {c d : HttpConn} {s : Bytes} {chunks : List Bytes} {log : List (Served F)}
    (hrun : KeepAlive svc c chunks log d) (hw : Waiting s c)
    (hlen : ∀ e ∈ log, (e.response.length : ℤ) ≤ CString.LONG_MAX) :
    ∃ ms, List.Forall₂ Answers log ms := by
  induction hrun generalizing s with
  | done => exact ⟨[], .nil⟩
  | more hf hp hcode hrun ih =>
      rcases hw.process hf hp with ⟨-, hnext⟩ | hready
      · exact ih hnext hlen
      · rcases hready.code with h | h | h | h | h <;> cases hcode.symm.trans h
  | kept hf hp hwr hsend hk hrun ih =>
      rcases hw.process hf hp with ⟨hno, -⟩ | hready
      · rw [hno] at hwr
        cases hwr
      · have hfresh := writeEnd_run hsend
        rw [WriteEnd, hk] at hfresh
        obtain ⟨m, hm⟩ := hready.answers hsend hk (hlen _ List.mem_cons_self)
        obtain ⟨ms, hms⟩ := ih (waiting_init hfresh) fun e he => hlen e (List.mem_cons_of_mem _ he)
        exact ⟨m :: ms, .cons hm hms⟩
  | closed hf hp hwr hsend hk =>
      rcases hw.process hf hp with ⟨hno, -⟩ | hready
      · rw [hno] at hwr
        cases hwr
      · obtain ⟨m, hm⟩ := hready.answers hsend hk (hlen _ List.mem_cons_self)
        exact ⟨[m], .cons hm .nil⟩

/-! ### Main result -/

/-- The stream of a run is the stream of its messages. -/
theorem answers_stream {log : List (Served F)} {ms : List Message}
    (h : List.Forall₂ Answers log ms) : (∀ m ∈ ms, Message.code.Valid m) ∧
      log.flatMap Served.response = ms.flatMap Message.code.encode := by
  induction h with
  | nil => exact ⟨by simp, rfl⟩
  | cons he _ ih =>
      obtain ⟨hframed, hstream⟩ := ih
      refine ⟨List.forall_mem_cons.2 ⟨he.framed, hframed⟩, ?_⟩
      rw [List.flatMap_cons, List.flatMap_cons, hstream, ← he.text]
      rfl

/-- Whole responses and a part that holds no message. -/
theorem receive_answers {log : List (Served F)} {ms : List Message}
    (h : List.Forall₂ Answers log ms) {part : Bytes} (hpart : Message.code.decode part = none)
    {pieces : List Bytes} (hpieces : pieces.flatten = log.flatMap Served.response ++ part) :
    Message.code.receive pieces = (ms, part) := by
  obtain ⟨hframed, hstream⟩ := answers_stream h
  rw [Message.code.receive_eq, hpieces, hstream, Message.code.decodeAll_stream hframed hpart]

/-- Each message is the answer to the request that was served. -/
theorem answers_alone {requests : List Bytes} {log : List (Served F)} {ms : List Message}
    (halone : List.Forall₂ (Alone svc) requests log) (h : List.Forall₂ Answers log ms) :
    List.Forall₂ (fun r m => ∃ e, Alone svc r e ∧ Answers e m) requests ms := by
  induction halone generalizing ms with
  | nil =>
      cases h
      exact .nil
  | cons hr _ ih =>
      cases h with
      | cons hm hms => exact .cons ⟨_, hr, hm⟩ (ih hms)

/-- **A client reads one message for each request**, in their order, whatever the pieces are: after
the first responses and a part of the next one it has their messages, and the part is what is left.
When every request ends where a chunk ends, the messages are the answers to the requests, each as if
it were alone. -/
theorem client_reads {chunks : List Bytes} {log : List (Served F)} {d : HttpConn}
    (hrun : KeepAlive svc (fresh readBufferSize) chunks log d)
    (hlen : ∀ e ∈ log, (e.response.length : ℤ) ≤ CString.LONG_MAX) :
    ∃ ms, List.Forall₂ Answers log ms ∧
      (∀ pieces : List Bytes, pieces.flatten = log.flatMap Served.response →
        Message.code.receive pieces = (ms, [])) ∧
      (∀ before e after, log = before ++ e :: after → ∀ part more, part ++ more = e.response →
        more ≠ [] → ∀ pieces : List Bytes,
          pieces.flatten = before.flatMap Served.response ++ part →
            Message.code.receive pieces = (ms.take before.length, part)) ∧
      ∀ requests, (∀ r ∈ requests, CompleteRequest r) → chunks.flatten = requests.flatten →
        Aligned requests chunks →
          List.Forall₂ (fun r m => ∃ e, Alone svc r e ∧ Answers e m) requests ms := by
  obtain ⟨ms, hms⟩ := answers_run hrun (waiting_init rfl) hlen
  refine ⟨ms, hms, fun pieces hpieces => ?_, ?_, fun requests hreq hsent haligned => ?_⟩
  · refine receive_answers hms Message.code.decode_nil ?_
    rw [List.append_nil, hpieces]
  · rintro before e after rfl part more hpart hmore pieces hpieces
    have hbefore := List.forall₂_take before.length hms
    rw [List.take_left] at hbefore
    have hafter := List.forall₂_drop before.length hms
    rw [List.drop_left] at hafter
    generalize hrest : ms.drop before.length = rest at hafter
    cases hafter with
    | cons he _ =>
        have hnone := Message.code.decode_part he.framed (he.text.trans hpart.symm) hmore
        exact receive_answers hbefore hnone hpieces
  · obtain ⟨halone, -⟩ := (keepAlive_iff hreq hsent rfl hrun).2 haligned
    exact answers_alone halone hms

/-- The message for `emptyPost`. -/
def emptyMessage : Message := .answer true 200 missingInputReply.body

theorem emptyMessage_framed : emptyMessage.Framed :=
  Message.framed_answer true 200 (by decide)

set_option maxRecDepth 8000 in
/-- What is sent for `emptyPost`. -/
theorem emptyPost_response {e : Served Unit} (h : Alone plainService emptyPost e)
    (hv : e.scheduler = none) : e.response = emptyMessage.text := by
  obtain ⟨now, p, evs, t, k, hp, hsend, hk, he⟩ := h.exchange
  have hproc : ((fresh readBufferSize).append emptyPost).process plainService now none =
      .ok (answered emptyPost) := rfl
  rw [hv, hproc] at hp
  obtain rfl := Except.ok.inj hp
  have hprep : (answered emptyPost).conn.Prepared := ⟨rfl, rfl, rfl, rfl, rfl, by decide⟩
  have htrack := Sending.tracked_run hprep hsend
  rw [Sending.Tracked, hk] at htrack
  rw [he]
  exact htrack.1.trans rfl

/-- A message with this text is that message. -/
theorem emptyMessage_unique {m : Message} (h : m.Framed) (htext : m.text = emptyMessage.text) :
    m = emptyMessage := by
  have hread := Message.read_text h []
  rw [htext, Message.read_text emptyMessage_framed] at hread
  exact (Prod.mk.inj (Option.some.inj hread)).1.symm

set_option maxRecDepth 8000 in
/-- Two answers.  The client has the first and a part of the second, and then gets the rest. -/
theorem client_reads_two :
    ∃ e₁ e₂ d, KeepAlive plainService (fresh readBufferSize) (emptyParts ++ emptyParts) [e₁, e₂] d ∧
      Message.code.receive [e₁.response.take 20, e₁.response.drop 20 ++ e₂.response.take 30] =
        ([emptyMessage], e₂.response.take 30) ∧
      Message.code.receive [e₁.response.take 20, e₁.response.drop 20 ++ e₂.response.take 30,
        e₂.response.drop 30] = ([emptyMessage, emptyMessage], []) := by
  obtain ⟨e₁, d₁, hfresh₁, halone₁, hv₁, hrun₁⟩ :=
    emptyParts_served (c := fresh readBufferSize) rfl
  obtain ⟨e₂, d₂, -, halone₂, hv₂, hrun₂⟩ := emptyParts_served hfresh₁
  have hrun := hrun₁ _ _ _ (hrun₂ _ _ _ .done)
  rw [List.append_nil] at hrun
  have htext₁ := emptyPost_response halone₁ hv₁
  have htext₂ := emptyPost_response halone₂ hv₂
  have hlen : ∀ e ∈ [e₁, e₂], (e.response.length : ℤ) ≤ CString.LONG_MAX := by
    simp only [List.forall_mem_cons, htext₁, htext₂]
    decide
  obtain ⟨ms, hms, hwhole, hpart, -⟩ := client_reads hrun hlen
  cases hms with
  | @cons _ m₁ _ _ hm₁ hrest =>
      cases hrest with
      | @cons _ m₂ _ _ hm₂ hnil =>
          cases hnil
          obtain rfl := emptyMessage_unique hm₁.framed (hm₁.text.trans htext₁)
          obtain rfl := emptyMessage_unique hm₂.framed (hm₂.text.trans htext₂)
          have hfirst : ∀ s : Bytes,
              e₁.response.take 20 ++ (e₁.response.drop 20 ++ s) = e₁.response ++ s := by
            intro s
            rw [← List.append_assoc, List.take_append_drop]
          refine ⟨e₁, e₂, d₂, hrun, ?_, hwhole _ (by simpa using hfirst e₂.response)⟩
          have hmore : e₂.response.drop 30 ≠ [] := by
            rw [htext₂]
            decide
          exact hpart [e₁] e₂ [] rfl _ _ (List.take_append_drop 30 _) hmore _
            (by simpa using hfirst (e₂.response.take 30))

end HttpConn

end Gateway
