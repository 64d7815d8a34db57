/-
What a request says, and what is read of it.

A request is a request line, header lines, a blank line and a body.  This module states what such a
text says, with no word about buffers, and follows the parser through it: whatever the headers are
and wherever the text is cut into chunks, the parser ends at its last byte with what it says.

Main definitions:

* `Gateway.HttpConn.headerValue`, `Gateway.HttpConn.keepsAlive`, `Gateway.HttpConn.lengthIn` — what
  header lines say;
* `Gateway.HttpConn.RequestText` — a request, `Gateway.HttpConn.RequestText.text` — its bytes,
  `Gateway.HttpConn.RequestText.request` — what it says;
* `Gateway.HttpConn.InHead` — the parser has read some headers of a request.

Main results:

* `Gateway.HttpConn.InHead.header`, `Gateway.HttpConn.InHead.headers` — one header, and all of them;
* `Gateway.HttpConn.RequestText.read` — **a request is read as what it says**;
* `Gateway.HttpConn.request_text_read` — in any chunks, and no part of it is.
-/

import InferenceGateway.HttpKeepAlive
import InferenceGateway.HttpMalformed

set_option relaxedAutoImplicit false
set_option autoImplicit false

namespace Gateway.HttpConn

open CString (cut strAt strspn strcasecmp strncasecmp atol Terminated LONG_MAX LONG_MIN)

variable {c c' : HttpConn} {l q : Bytes}

/-! ### Headers -/

/-- The value of a header line with this name, colon included. -/
def headerValue (name l : Bytes) : Option Bytes :=
  if strncasecmp l name name.length then
    some ((l.drop name.length).dropWhile fun b => decide (b ∈ blanks))
  else none

/-- One of the headers asks to keep the connection. -/
def keepsAlive (headers : List Bytes) : Bool :=
  headers.any fun l =>
    (headerValue (ascii "Connection:") l).any fun v => strcasecmp v (ascii "keep-alive")

/-- The length that the last header of its kind gives, zero without one. -/
def lengthIn (headers : List Bytes) : ℤ :=
  ((headers.filterMap (headerValue (ascii "Content-length:"))).getLast?.map atol).getD 0

/-- The value of a header, read from the buffer. -/
theorem str_value (name : Bytes) {text : ℕ}
    (h : strncasecmp (c.str text) name name.length = true) :
    c.str (text + name.length + strspn (c.str (text + name.length)) blanks) =
      ((c.str text).drop name.length).dropWhile fun b => decide (b ∈ blanks) := by
  have hname : c.str (text + name.length) = (c.str text).drop name.length :=
    CString.strAt_add (CString.length_of_strncasecmp h rfl)
  have hspan : c.str (text + name.length + strspn (c.str (text + name.length)) blanks) =
      (c.str (text + name.length)).drop (strspn (c.str (text + name.length)) blanks) :=
    CString.strAt_add (CString.strspn_le _ _)
  rw [hspan, hname, strspn]
  nth_rewrite 2 [← List.takeWhile_append_dropWhile (p := fun b => decide (b ∈ blanks))
    (l := (c.str text).drop name.length)]
  exact List.drop_left

theorem headerValue_eq_some {name l v : Bytes} (h : headerValue name l = some v) :
    strncasecmp l name name.length = true := by
  unfold headerValue at h
  split at h
  · assumption
  · cases h

/-- `Connection:` and `Content-length:` do not begin the same. -/
theorem headerValue_connection (h : strncasecmp l (ascii "Connection:") 11 = true) :
    headerValue (ascii "Content-length:") l = none := by
  cases hv : headerValue (ascii "Content-length:") l with
  | none => rfl
  | some v =>
      have hlong := beq_iff_eq.1 (headerValue_eq_some hv)
      have hshort := beq_iff_eq.1 h
      have htake : l.take 11 = (l.take (ascii "Content-length:").length).take 11 := by
        rw [List.take_take]
        rfl
      rw [htake, List.map_take, hlong] at hshort
      exact absurd hshort (by decide)

theorem keepsAlive_snoc (hs : List Bytes) (l : Bytes) : keepsAlive (hs ++ [l]) =
    (keepsAlive hs || (headerValue (ascii "Connection:") l).any fun v =>
      strcasecmp v (ascii "keep-alive")) := by
  rw [keepsAlive, List.any_append, List.any_cons, List.any_nil, Bool.or_false]
  rfl

theorem lengthIn_snoc (hs : List Bytes) (l : Bytes) : lengthIn (hs ++ [l]) =
    (headerValue (ascii "Content-length:") l).elim (lengthIn hs) atol := by
  rw [lengthIn, List.filterMap_append]
  cases hv : headerValue (ascii "Content-length:") l with
  | none =>
      rw [List.filterMap_cons_none hv, List.filterMap_nil, List.append_nil]
      rfl
  | some v =>
      rw [List.filterMap_cons_some hv, List.filterMap_nil, List.getLast?_concat]
      rfl

/-- **What a header line changes.** -/
theorem parseHeaders_header (text : ℕ) (hs : List Bytes) (hne : c.str text ≠ [])
    (hlinger : c.linger = keepsAlive hs) (hlen : c.contentLength = lengthIn hs) :
    (c.parseHeaders text).2.linger = keepsAlive (hs ++ [c.str text]) ∧
      (c.parseHeaders text).2.contentLength = lengthIn (hs ++ [c.str text]) ∧
      (c.parseHeaders text).2.method = c.method := by
  rw [keepsAlive_snoc, lengthIn_snoc, ← hlinger, ← hlen, parseHeaders]
  dsimp only
  rw [if_neg hne]
  by_cases hconn : strncasecmp (c.str text) (ascii "Connection:") 11 = true
  · have hvalue : headerValue (ascii "Connection:") (c.str text) =
        some (c.str (text + 11 + strspn (c.str (text + 11)) blanks)) :=
      (if_pos hconn).trans (congrArg some (str_value (ascii "Connection:") hconn).symm)
    rw [if_pos hconn, headerValue_connection hconn, hvalue, Option.any_some]
    generalize c.str (text + 11 + strspn (c.str (text + 11)) blanks) = v
    cases strcasecmp v (ascii "keep-alive") with
    | true => exact ⟨(Bool.or_true _).symm, rfl, rfl⟩
    | false => exact ⟨(Bool.or_false _).symm, rfl, rfl⟩
  · have hnone : headerValue (ascii "Connection:") (c.str text) = none := if_neg hconn
    rw [if_neg hconn, hnone, Option.any_none, Bool.or_false]
    by_cases hlength : strncasecmp (c.str text) (ascii "Content-length:") 15 = true
    · have hvalue : headerValue (ascii "Content-length:") (c.str text) =
          some (c.str (text + 15 + strspn (c.str (text + 15)) blanks)) :=
        (if_pos hlength).trans
          (congrArg some (str_value (ascii "Content-length:") hlength).symm)
      rw [if_pos hlength, hvalue]
      exact ⟨rfl, rfl, rfl⟩
    · have hnone : headerValue (ascii "Content-length:") (c.str text) = none := if_neg hlength
      rw [if_neg hlength, hnone]
      split
      · exact ⟨rfl, rfl, rfl⟩
      · exact ⟨rfl, rfl, rfl⟩

/-! ### The head of a request -/

/-- The parser has read the request line and these headers, and stands before the next line. -/
structure InHead (method : HttpMethod) (path : Bytes) (hs : List Bytes) (c : HttpConn) : Prop where
  atLine : c.AtLine
  state : c.checkState = .header
  method : c.method = method
  url : c.url.map c.str = some path
  linger : c.linger = keepsAlive hs
  length : c.contentLength = lengthIn hs

variable {method : HttpMethod} {path : Bytes} {hs : List Bytes}

/-- What was read of the target stays when more is stored behind it. -/
theorem url_of_append {d : HttpConn} {k : ℕ} (hu : c.UrlBefore k) (hurl : d.url = c.url)
    (hbuf : d.readBuf = c.readBuf ++ q) : d.url.map d.str = c.url.map c.str := by
  rw [hurl]
  cases h : c.url with
  | none => rfl
  | some u =>
      have hstr : d.str u = c.str u := by
        rw [str, hbuf]
        exact CString.strAt_append (hu u h) q
      rw [Option.map_some, Option.map_some, hstr]

/-- The pass over a line of the headers. -/
theorem pass_header {ret : HttpCode} (h : c.AtLine) (hs : c.checkState = .header)
    (hl : Unbroken l) (hf : (c.append (l ++ [13, 10])).Fits)
    (hr : (c.lineEnded l).nextLine.parseHeaders c.startLine = (ret, c')) :
    (c.append (l ++ [13, 10])).pass =
      .ok (if ret = .noRequest then .again else .stop ret, c') := by
  obtain ⟨hpass, -, -⟩ := h.pass_line hl hf
  have hstate : (c.lineEnded l).checkState ≠ .requestLine := by
    rw [show (c.lineEnded l).checkState = .header from hs]
    nofun
  rw [hpass, takeLine, if_neg hstate, show (c.lineEnded l).startLine = c.startLine from rfl, hr]
  rfl

/-- **One header line.** -/
theorem InHead.header (h : InHead method path hs c) (hl : Unbroken l) (hz : 0 ∉ l) (hne : l ≠ [])
    (hf : (c.append (l ++ [13, 10])).Fits) :
    ∃ c', (c.append (l ++ [13, 10])).pass = .ok (.again, c') ∧
      InHead method path (hs ++ [l]) c' := by
  have hcut : cut l = l := CString.cut_of_not_mem hz
  have hstr : (c.lineEnded l).nextLine.str c.startLine = l := (lineEnded_str h.atLine l).trans hcut
  obtain ⟨c', hagain, hat, hstate⟩ := h.atLine.reads_header h.state hl (by rwa [hcut]) hf
  have hpass := pass_header h.atLine h.state hl hf rfl
  rw [hagain] at hpass
  obtain ⟨-, rfl⟩ := Prod.mk.inj (Except.ok.inj hpass)
  have hspec : HeaderSpec (c.lineEnded l).nextLine
      ((c.lineEnded l).nextLine.parseHeaders c.startLine).1
      ((c.lineEnded l).nextLine.parseHeaders c.startLine).2 := parseHeaders_spec rfl
  obtain ⟨hlinger, hlength, hmethod⟩ := parseHeaders_header (c := (c.lineEnded l).nextLine)
    c.startLine hs (by rwa [hstr]) h.linger h.length
  rw [hstr] at hlinger hlength
  refine ⟨_, hagain, hat, hstate, hmethod.trans h.method, ?_, hlinger, hlength⟩
  refine (url_of_append h.atLine.wellPlaced.url hspec.url (q := l ++ [0, 0]) ?_).trans h.url
  rw [hspec.readBuf, ← List.append_assoc]
  rfl

/-- Header lines with their ends. -/
def linesText (ls : List Bytes) : Bytes := (ls.map (· ++ [13, 10])).flatten

theorem linesText_cons (l : Bytes) (ls : List Bytes) (r : Bytes) :
    linesText (l :: ls) ++ r = l ++ [13, 10] ++ (linesText ls ++ r) := by
  rw [linesText, List.map_cons, List.flatten_cons, List.append_assoc]
  rfl

/-- A line that a header may be. -/
structure HeaderLine (l : Bytes) : Prop where
  unbroken : Unbroken l
  noZero : 0 ∉ l
  nonempty : l ≠ []

/-- **All the header lines**: the run goes on behind them. -/
theorem InHead.headers (h : InHead method path hs c) {ls : List Bytes} {r : Bytes}
    (hls : ∀ l ∈ ls, HeaderLine l) (hf : (c.append (linesText ls ++ r)).Fits) :
    ∃ c', InHead method path (hs ++ ls) c' ∧ c'.readBufSize = c.readBufSize ∧
      c'.readIdx = c.readIdx + (linesText ls).length ∧
      ∀ res, Reads (c'.append r) res → Reads (c.append (linesText ls ++ r)) res := by
  induction ls generalizing c hs with
  | nil => exact ⟨c, by rwa [List.append_nil], rfl, rfl, fun _ hr => hr⟩
  | cons l ls ih =>
      obtain ⟨hl, hz, hne⟩ := hls l List.mem_cons_self
      rw [linesText_cons, ← append_append] at hf
      have hfl := hf.of_append
      have hw := h.atLine.wellPlaced.append hfl
      obtain ⟨c₁, hpass, h₁⟩ := h.header hl hz hne hfl
      obtain ⟨hk, -, hpass₁⟩ := pass_again hw hf hpass
      obtain ⟨c', h', hsize, hidx, hruns⟩ := ih h₁ (fun x hx => hls x (List.mem_cons_of_mem _ hx))
        (hk.fits hf)
      refine ⟨c', by rwa [List.append_assoc] at h', hsize.trans hk.size, ?_, fun res hr => ?_⟩
      · rw [hidx, hk.readIdx, readIdx_append, linesText, linesText, List.map_cons,
          List.flatten_cons, List.length_append, List.length_append, List.length_append,
          Nat.add_assoc]
      · rw [linesText_cons, ← append_append]
        exact .again hpass₁ (hruns res hr)

/-! ### The request line -/

/-- What the headers have said so far. -/
def said (c : HttpConn) : Bool × ℤ := (c.linger, c.contentLength)

/-- A store does not touch what the headers say. -/
theorem ends_store_said {P : HttpCode → HttpConn → Prop} {i : ℤ}
    {g : HttpConn → Except Fault (HttpCode × HttpConn)}
    (h : ∀ d : HttpConn, d.said = c.said → Ends P (g d)) : Ends P (c.store i >>= g) := by
  cases hs : c.store i with
  | error f => exact ends_error f
  | ok d =>
      obtain ⟨k, -, -, rfl⟩ := eq_zero_of_store hs
      exact h _ rfl

theorem requestTarget_said (c : HttpConn) (url : ℕ) :
    Ends (fun _ d => d.said = c.said) (c.requestTarget url) := by
  unfold requestTarget
  refine ends_bind fun u => ends_bind fun v => ?_
  cases v with
  | none => exact ends_ok rfl
  | some k =>
      dsimp only
      split
      · exact ends_ok rfl
      · exact ends_ok rfl

/-- The request line does not touch what the headers say. -/
theorem parseRequestLine_said (c : HttpConn) (text : ℕ) :
    Ends (fun _ d => d.said = c.said) (c.parseRequestLine text) := by
  unfold parseRequestLine
  split
  · exact ends_ok rfl
  · refine ends_store_said fun d hd => ?_
    dsimp only
    split
    · exact ends_ok hd
    · split
      · exact ends_ok hd
      · refine ends_store_said fun e he => ?_
        split
        · intro ret x hr
          exact (requestTarget_said _ _ ret x hr).trans (he.trans hd)
        · exact ends_ok (he.trans hd)

/-- **The request line.** -/
theorem inHead_first {size pos : ℕ} {target : Bytes} (hl : Unbroken l) (hz : 0 ∉ l)
    (hline : RequestLine l method target pos) (ht : Target target path)
    (hfit : (l ++ [13, 10]).length ≤ size) :
    ∃ c', ((fresh size).append (l ++ [13, 10])).pass = .ok (.again, c') ∧
      InHead method path [] c' := by
  have hat := atLine_fresh size
  have hf : ((fresh size).append (l ++ [13, 10])).Fits := fits_fresh_append hfit
  have hstr : ((fresh size).lineEnded l).nextLine.str (fresh size).startLine = l :=
    (lineEnded_str hat l).trans (CString.cut_of_not_mem hz)
  obtain ⟨hpass, hw, hterm⟩ := hat.pass_line hl hf
  obtain ⟨d, hres, hmethod, hstate, u, hu, -, hpath⟩ := parseRequestLine_path
    (c := ((fresh size).lineEnded l).nextLine) hw.fits hterm (hstr.symm ▸ hline) ht
  have hagain := hpass.trans (takeLine_request (c := (fresh size).lineEnded l) rfl hres)
  have hnot : ¬ Refused (cut l) := by
    rw [CString.cut_of_not_mem hz]
    exact fun hr => (hr _ _ _ hline).2 _ ht
  rcases hat.reads_first rfl hl hf hnot with hnull | ⟨c', hc', hat', hstate'⟩
  · rw [hagain] at hnull
    cases hnull
  · rw [hagain] at hc'
    obtain ⟨-, rfl⟩ := Prod.mk.inj (Except.ok.inj hc')
    have hsaid := parseRequestLine_said _ _ _ _ hres
    refine ⟨d, hagain, hat', hstate, hmethod, ?_, congrArg Prod.fst hsaid, congrArg Prod.snd hsaid⟩
    rw [hu, Option.map_some, hpath]

/-! ### The body -/

/-- The connection behind the blank line. -/
def headEnded (c : HttpConn) : HttpConn := (c.lineEnded []).nextLine

/-- **A pass over a line that is blank as a C string** ends the headers. -/
theorem AtLine.pass_blank (h : c.AtLine) (hs : c.checkState = .header) (hl : Unbroken l)
    (hempty : cut l = []) (hf : (c.append (l ++ [13, 10])).Fits) :
    (c.append (l ++ [13, 10])).pass = if c.contentLength ≠ 0 then
      .ok (.again, { (c.lineEnded l).nextLine with checkState := .content })
    else .ok (.stop .getRequest, (c.lineEnded l).nextLine) := by
  have hstr : (c.lineEnded l).nextLine.str c.startLine = [] := (lineEnded_str h l).trans hempty
  have hhead : (c.lineEnded l).nextLine.parseHeaders c.startLine =
      if c.contentLength ≠ 0 then
        (.noRequest, { (c.lineEnded l).nextLine with checkState := .content })
      else (.getRequest, (c.lineEnded l).nextLine) := by
    rw [parseHeaders]
    dsimp only
    rw [if_pos hstr]
    rfl
  by_cases h0 : c.contentLength ≠ 0
  · rw [if_pos h0] at hhead ⊢
    exact pass_header h hs hl hf hhead
  · rw [if_neg h0] at hhead ⊢
    exact pass_header h hs hl hf hhead

theorem InHead.pass_blank (h : InHead method path hs c) (hf : (c.append [13, 10]).Fits) :
    (c.append [13, 10]).pass = if c.contentLength ≠ 0 then
      .ok (.again, { c.headEnded with checkState := .content })
    else .ok (.stop .getRequest, c.headEnded) :=
  h.atLine.pass_blank h.state (List.forall_mem_nil _) rfl hf

theorem readBuf_headEnded (c : HttpConn) : c.headEnded.readBuf = c.readBuf ++ [0, 0] := by
  rw [headEnded, nextLine, lineEnded, List.append_nil]

/-- What is left when the parser is behind a request. -/
theorem InHead.request_eq (h : InHead method path hs c) {d : HttpConn} {q : Bytes}
    (hurl : d.url = c.url) (hbuf : d.readBuf = c.readBuf ++ q) (hmethod : d.method = c.method)
    (hsaid : d.said = c.said) :
    d.request = ⟨method, some path, keepsAlive hs, lengthIn hs,
      if lengthIn hs ≤ 0 then none else some d.body⟩ := by
  have hpath := (url_of_append h.atLine.wellPlaced.url hurl hbuf).trans h.url
  have hlinger : d.linger = keepsAlive hs := (congrArg Prod.fst hsaid).trans h.linger
  have hlen : d.contentLength = lengthIn hs := (congrArg Prod.snd hsaid).trans h.length
  rw [request, hpath, hmethod, h.method, hlinger, hlen]
  rfl

/-- The pass over a body that is there. -/
theorem pass_body {n : ℕ} (h : c.WellPlaced) (hs : c.checkState = .content)
    (hsum : c.contentLength + c.checkedIdx = n) (hn : n ≤ c.readIdx) (hlt : n < c.readBufSize)
    (hmax : (c.readBufSize : ℤ) ≤ LONG_MAX) : c.pass = .ok (.stop .getRequest, c.zero n) := by
  have hover : ¬ ((n : ℤ) < LONG_MIN ∨ LONG_MAX < (n : ℤ)) := by
    have hmin : LONG_MIN ≤ 0 := by decide
    omega
  have hle : (n : ℤ) ≤ c.readIdx := Int.ofNat_le.2 hn
  rw [pass_content h hs, hsum, if_neg hover, if_pos hle, store_eq hlt]
  rfl

/-- The connection behind the blank line, with a body that has arrived. -/
def withBody (c : HttpConn) (body : Bytes) : HttpConn :=
  append { c.headEnded with checkState := .content } body

/-- The connection behind a body, with a zero in the place after it. -/
def bodyEnded (c : HttpConn) (body : Bytes) : HttpConn :=
  (c.withBody body).zero (c.readIdx + (2 + body.length))

theorem readBuf_withBody (c : HttpConn) (body : Bytes) :
    (c.withBody body).readBuf = c.readBuf ++ ([0, 0] ++ body) := by
  rw [← List.append_assoc, ← readBuf_headEnded]
  rfl

theorem readIdx_withBody (c : HttpConn) (body : Bytes) :
    (c.withBody body).readIdx = c.readIdx + (2 + body.length) := by
  rw [readIdx, readBuf_withBody, List.length_append, List.length_append]
  rfl

/-- The zero goes behind the last byte that is counted. -/
theorem readBuf_bodyEnded (c : HttpConn) (body : Bytes) :
    (c.bodyEnded body).readBuf = c.readBuf ++ ([0, 0] ++ body) := by
  rw [bodyEnded, zero, ← readIdx_withBody, ← readBuf_withBody]
  exact List.set_eq_of_length_le (Nat.le_refl _)

theorem body_bodyEnded (hchk : c.headEnded.checkedIdx = c.readIdx + 2) (body : Bytes) :
    (c.bodyEnded body).body = cut body := by
  have hstart : (c.bodyEnded body).startLine = (c.readBuf ++ [0, 0]).length := by
    change c.headEnded.checkedIdx = _
    rw [hchk, List.length_append]
    rfl
  rw [HttpConn.body, str, readBuf_bodyEnded, hstart, strAt, ← List.append_assoc, List.drop_left]

/-- **The blank line and the body.** -/
theorem InHead.body (h : InHead method path hs c) {body : Bytes}
    (hlen : lengthIn hs = body.length) (hmax : (c.readBufSize : ℤ) ≤ LONG_MAX)
    (hf : c.readIdx + (2 + body.length) < c.readBufSize) :
    ∃ d, Reads (c.append ([13, 10] ++ body)) (.ok (.getRequest, d)) ∧
      d.request = ⟨method, some path, keepsAlive hs, body.length,
        if body = [] then none else some (cut body)⟩ ∧
      d.requestEnd = c.readIdx + (2 + body.length) := by
  have hchk : c.headEnded.checkedIdx = c.readIdx + 2 := by
    change c.checkedIdx + 0 + 2 = _
    rw [h.atLine.consumed]
  have hclen : c.contentLength = body.length := h.length.trans hlen
  have hfl : (c.append [13, 10]).Fits := by
    unfold Fits
    rw [readIdx_append]
    change c.readIdx + 2 ≤ c.readBufSize
    omega
  have hpass := h.pass_blank hfl
  rw [hclen] at hpass
  rcases List.eq_nil_or_concat' body with rfl | hcons
  · refine ⟨c.headEnded, .stop (hpass.trans (if_neg (by simp))), ?_, ?_⟩
    · rw [h.request_eq (d := c.headEnded) rfl (readBuf_headEnded c) rfl rfl, hlen]
      rfl
    · rw [requestEnd, hchk, show c.headEnded.contentLength = 0 from hclen]
      rfl
  · have hne : body ≠ [] := by
      obtain ⟨l, b, rfl⟩ := hcons
      simp
    have hpos : (0 : ℤ) < body.length := Int.natCast_pos.2 (List.length_pos_iff.2 hne)
    rw [if_pos hpos.ne'] at hpass
    have hw := h.atLine.wellPlaced.append hfl
    have hfb : ((c.append [13, 10]).append body).Fits := by
      unfold Fits
      rw [readIdx_append, readIdx_append]
      change c.readIdx + 2 + body.length ≤ c.readBufSize
      omega
    obtain ⟨hk, -, hagain⟩ := pass_again hw hfb hpass
    have hsum : (c.withBody body).contentLength + (c.withBody body).checkedIdx =
        ((c.readIdx + (2 + body.length) : ℕ) : ℤ) := by
      change c.contentLength + c.headEnded.checkedIdx = _
      rw [hclen, hchk]
      push_cast
      ring
    have hstop := pass_body (c := c.withBody body) (hk.wellPlaced.append (hk.fits hfb)) rfl hsum
      (readIdx_withBody c body).ge hf hmax
    refine ⟨c.bodyEnded body, ?_, ?_, ?_⟩
    · rw [← append_append]
      exact .again hagain (.stop hstop)
    · rw [h.request_eq (d := c.bodyEnded body) rfl (readBuf_bodyEnded c body) rfl rfl, hlen,
        if_neg hpos.not_ge, if_neg hne, body_bodyEnded hchk]
    · change c.headEnded.checkedIdx + c.contentLength.toNat = _
      rw [hchk, hclen, Int.toNat_natCast, Nat.add_assoc]

/-! ### Main result -/

/-- A request: a line of the grammar with a path, header lines, and a body of the length that the
headers give. -/
structure RequestText where
  line : Bytes
  method : HttpMethod
  path : Bytes
  headers : List Bytes
  body : Bytes
  unbroken : Unbroken line
  noZero : 0 ∉ line
  grammar : ∃ target pos, RequestLine line method target pos ∧ Target target path
  headerLines : ∀ l ∈ headers, HeaderLine l
  length : lengthIn headers = body.length

namespace RequestText

variable (r : RequestText)

/-- The bytes of a request. -/
def text : Bytes := r.line ++ [13, 10] ++ (linesText r.headers ++ ([13, 10] ++ r.body))

/-- What a request says. -/
def request : Request where
  method := r.method
  url := some r.path
  linger := keepsAlive r.headers
  contentLength := r.body.length
  body := if r.body = [] then none else some (cut r.body)

/-- **A request is read as what it says**, up to its last byte. -/
theorem read {size : ℕ} (hfit : r.text.length < size) (hmax : (size : ℤ) ≤ LONG_MAX) :
    ∃ d, ((fresh size).append r.text).processRead = .ok (.getRequest, d) ∧
      d.request = r.request ∧ d.requestEnd = r.text.length := by
  obtain ⟨target, pos, hline, ht⟩ := r.grammar
  have hlen : r.text.length =
      (r.line ++ [13, 10]).length + ((linesText r.headers).length + (2 + r.body.length)) := by
    rw [text, List.length_append, List.length_append, List.length_append]
    rw [List.length_append]
    rfl
  have hw := (wellPlaced_fresh size).append (fits_fresh_append (s := r.line ++ [13, 10])
    (by omega))
  have hwr := (wellPlaced_fresh size).append (fits_fresh_append hfit.le)
  obtain ⟨c₁, hpass, h₁⟩ := inHead_first r.unbroken r.noZero hline ht
    (show (r.line ++ [13, 10]).length ≤ size by omega)
  have hf : (((fresh size).append (r.line ++ [13, 10])).append
      (linesText r.headers ++ ([13, 10] ++ r.body))).Fits := by
    rw [append_append]
    exact fits_fresh_append hfit.le
  obtain ⟨hk, -, hagain⟩ := pass_again hw hf hpass
  obtain ⟨c₂, h₂, hsize, hidx, hruns⟩ := h₁.headers r.headerLines (hk.fits hf)
  have hidx₂ : c₂.readIdx = (r.line ++ [13, 10]).length + (linesText r.headers).length := by
    rw [hidx, hk.readIdx, readIdx_append]
    exact congrArg (· + _) (Nat.zero_add _)
  have hsize₂ : c₂.readBufSize = size := hsize.trans hk.size
  obtain ⟨d, hreads, hreq, hend⟩ := h₂.body r.length (by rwa [hsize₂]) (by omega)
  have hall : Reads ((fresh size).append r.text) (.ok (.getRequest, d)) := by
    rw [text, ← append_append]
    exact .again hagain (hruns _ hreads)
  exact ⟨d, (reads_processRead hwr).unique hall, hreq, by omega⟩

/-- A request that asks to keep the connection is one that a fresh connection reads in full. -/
theorem complete (hfit : r.text.length < readBufferSize) (hkeep : keepsAlive r.headers = true) :
    CompleteRequest r.text := by
  obtain ⟨d, hread, hreq, hend⟩ := r.read hfit (by decide)
  exact ⟨hfit.le, d, hread, (congrArg Request.linger hreq).trans hkeep, hend⟩

/-- A part of a request is not answered, and does no harm. -/
theorem part (hfit : r.text.length < readBufferSize) {s q : Bytes} (hs : s ++ q = r.text)
    (hq : q ≠ []) :
    ∃ d, ((fresh readBufferSize).append s).processRead = .ok (.noRequest, d) := by
  obtain ⟨d, hread, -, hend⟩ := r.read hfit (by decide)
  exact part_of_read hfit.le hread hend hs hq

end RequestText

/-- **A request is read as what it says**, in whatever chunks it arrives.  No part of it is
answered, and what follows it in the buffer does not matter. -/
theorem request_text_read (r : RequestText) (hfit : r.text.length < readBufferSize) :
    (∀ chunks : List Bytes, chunks.flatten = r.text →
        outcome (feed (fresh readBufferSize) chunks) = .ok (.getRequest, r.request)) ∧
      (∀ (chunks : List Bytes) (q : Bytes), chunks.flatten ++ q = r.text → q ≠ [] →
        ∃ d, outcome (feed (fresh readBufferSize) chunks) = .ok (.noRequest, d)) ∧
      ∀ q : Bytes, r.text.length + q.length ≤ readBufferSize →
        ∃ d, ((fresh readBufferSize).append (r.text ++ q)).processRead = .ok (.getRequest, d) ∧
          d.request = r.request ∧ d.requestEnd = r.text.length := by
  obtain ⟨d, hread, hreq, hend⟩ := r.read hfit (by decide)
  have hfeed := fun chunks (hlen : (chunks : List Bytes).flatten.length ≤ readBufferSize) =>
    outcome_feed chunks (wellPlaced_fresh _) (fits_fresh_append hlen) (fresh_idle _)
  refine ⟨fun chunks hchunks => ?_, fun chunks q hchunks hq => ?_, fun q hq => ?_⟩
  · rw [hfeed chunks (hchunks ▸ hfit.le), hchunks, hread, ← hreq]
    rfl
  · obtain ⟨e, he⟩ := r.part hfit hchunks hq
    have hlen : chunks.flatten.length ≤ r.text.length := by
      rw [← hchunks, List.length_append]
      exact Nat.le_add_right _ _
    exact ⟨e.request, by rw [hfeed chunks (hlen.trans hfit.le), he]; rfl⟩
  · obtain ⟨-, e, he, hreq', hend'⟩ := processRead_extend hq hread nofun
    exact ⟨e, he, hreq'.trans hreq, hend'.trans hend⟩

/-- A request in lower case, with its headers in an order of its own. -/
def lowerPost : RequestText where
  line := ascii "post \t http://host/infer http/1.1"
  method := .post
  path := ascii "/infer"
  headers := [ascii "content-LENGTH:9", ascii "X: y", ascii "connection:  Keep-Alive",
    ascii "Content-Length: 2"]
  body := ascii "\x7b\x7d"
  unbroken := by decide
  noZero := by decide
  grammar := ⟨ascii "http://host/infer", 7,
    .mk (ascii "post") (ascii " \t ") (ascii "http://host/infer") (ascii " ") (ascii "http/1.1") rfl
      ⟨by decide, CString.forall_of_all rfl⟩ (by decide) (CString.forall_of_all rfl)
      ⟨by decide, CString.forall_of_all rfl⟩ rfl,
    .http (ascii "http://") (ascii "host") (ascii "infer") rfl (by decide)⟩
  headerLines := by
    intro l hl
    simp only [List.mem_cons, List.not_mem_nil, or_false] at hl
    rcases hl with rfl | rfl | rfl | rfl
    · exact ⟨by decide, by decide, by decide⟩
    · exact ⟨by decide, by decide, by decide⟩
    · exact ⟨by decide, by decide, by decide⟩
    · exact ⟨by decide, by decide, by decide⟩
  length := by decide

set_option maxRecDepth 4000 in
/-- That request, cut inside its headers. -/
theorem request_text_read_lower : outcome (feed (fresh readBufferSize)
      [lowerPost.text.take 40, lowerPost.text.drop 40]) = .ok (.getRequest,
    { method := .post, url := some (ascii "/infer"), linger := true, contentLength := 2,
      body := some (ascii "\x7b\x7d") }) := by
  have hfit : lowerPost.text.length < readBufferSize := by decide
  have hread := (request_text_read lowerPost hfit).1
    [lowerPost.text.take 40, lowerPost.text.drop 40] (by simp)
  have hsays : lowerPost.request = ⟨.post, some (ascii "/infer"), true, 2, some [123, 125]⟩ := by
    decide
  rw [hread, hsays]
  rfl

end Gateway.HttpConn
