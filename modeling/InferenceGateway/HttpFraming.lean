/-
The framing of a response.

A response is a status line, headers, an empty line and a body.  This module states what a client
needs of it to find the body, and shows that the blocks of the program hold nothing else.

Main definitions:

* `Gateway.Message` — a status line, headers and a body, `Gateway.Message.text` — its bytes;
* `Gateway.Message.Framed` — a client finds the body;
* `Gateway.Message.ofCode` — the message for each code that is answered.

Main results:

* `Gateway.atol_decimal` — what `%d` prints is read back;
* `Gateway.Message.framed_ofCode` — every message is framed;
* `Gateway.HttpOut.response_framing` — **the write buffer is the message**, whatever the fill and
  the size of the blocks were.
-/

import InferenceGateway.HttpBuffer
import InferenceGateway.HttpLine

set_option relaxedAutoImplicit false
set_option autoImplicit false

namespace Gateway

open CString (cut)

/-! ### The message -/

/-- The last digit of a number, printed. -/
theorem digitChar_spec {d : ℕ} (h : d < 10) :
    CString.isdigit (d.digitChar.toNat.toUInt8) = true ∧
      (d.digitChar.toNat.toUInt8).toNat - 48 = d := by
  interval_cases d <;> exact ⟨rfl, rfl⟩

/-- **What `%d` prints is read back.** -/
theorem digits_decimal (n : ℕ) :
    (∀ b ∈ HttpConn.decimal n, CString.isdigit b = true) ∧
      CString.digits (HttpConn.decimal n) = n := by
  have hmap : ∀ m, HttpConn.decimal m = (Nat.toDigits 10 m).map fun c => c.toNat.toUInt8 :=
    fun m => by rw [HttpConn.decimal, ascii, Nat.toString_eq_ofList_toDigits, String.toList_ofList]
  induction n using Nat.strongRecOn with
  | ind n ih =>
      by_cases hlt : n < 10
      · obtain ⟨hdigit, hvalue⟩ := digitChar_spec hlt
        rw [hmap, Nat.toDigits_of_lt_base hlt]
        refine ⟨fun b hb => ?_, ?_⟩
        · rw [List.map_singleton, List.mem_singleton] at hb
          exact hb ▸ hdigit
        · rw [CString.digits, List.map_singleton, List.foldl_cons, List.foldl_nil, hvalue,
            Nat.mul_zero, Nat.zero_add]
      · obtain ⟨hall, hvalue⟩ := ih (n / 10) (by omega)
        obtain ⟨hdigit, hlast⟩ := digitChar_spec (Nat.mod_lt n (show 0 < 10 by decide))
        have hsplit : HttpConn.decimal n =
            HttpConn.decimal (n / 10) ++ [(n % 10).digitChar.toNat.toUInt8] := by
          rw [hmap, hmap, Nat.toDigits_of_base_le (by decide) (by omega), List.map_append,
            List.map_singleton]
        rw [hsplit]
        refine ⟨fun b hb => ?_, ?_⟩
        · rcases List.mem_append.1 hb with hb | hb
          · exact hall b hb
          · exact List.mem_singleton.1 hb ▸ hdigit
        · rw [CString.digits, List.foldl_append, ← CString.digits, hvalue, List.foldl_cons,
            List.foldl_nil, hlast]
          omega

theorem decimal_ne_nil (n : ℕ) : HttpConn.decimal n ≠ [] := by
  rw [HttpConn.decimal, ascii, Nat.toString_eq_ofList_toDigits, String.toList_ofList]
  exact fun h => Nat.toDigits_ne_nil (List.map_eq_nil_iff.1 h)

theorem atol_decimal {n : ℕ} (h : (n : ℤ) ≤ CString.LONG_MAX) :
    CString.atol (HttpConn.decimal n) = n := by
  obtain ⟨hall, hvalue⟩ := digits_decimal n
  have hread := CString.atol_digits hall (decimal_ne_nil n) (r := []) nofun
  rw [List.append_nil, hvalue] at hread
  rw [hread, min_eq_right h]

/-- A status line, headers and a body. -/
structure Message where
  start : Bytes
  headers : List Bytes
  body : Bytes

namespace Message

/-- What is sent: each line with its end, an empty line, and the body. -/
def text (m : Message) : Bytes :=
  m.start ++ ascii "\r\n" ++ (m.headers.map (· ++ ascii "\r\n")).flatten ++ ascii "\r\n" ++ m.body

/-- **A client finds the body**: the lines are lines, none of them is empty, and there is one value
of `Content-Length`, the length of the body. -/
structure Framed (m : Message) : Prop where
  lines : ∀ l ∈ m.start :: m.headers, l ≠ [] ∧ HttpConn.Unbroken l
  length : ∃ value, m.headers.filter (ascii "Content-Length:").isPrefixOf =
    [ascii "Content-Length:" ++ value] ∧ CString.atol value = m.body.length

/-- The headers of every response. -/
def lengthAndLinger (linger : Bool) (body : Bytes) : List Bytes :=
  [ascii "Content-Length:" ++ HttpConn.decimal body.length,
    ascii "Connection:" ++ if linger then ascii "keep-alive" else ascii "close"]

/-- The message for an error. -/
def page (linger : Bool) (status title : String) (form : Bytes) : Message where
  start := ascii "HTTP/1.1 " ++ ascii status ++ ascii " " ++ ascii title
  headers := lengthAndLinger linger form
  body := form

/-- The status line of an answer. -/
def answerStart (status : ℕ) : Bytes :=
  if status = 503 then ascii "HTTP/1.1 503 Service Unavailable" else ascii "HTTP/1.1 200 OK"

/-- The message for an answer of `do_request`. -/
def answer (linger : Bool) (status : ℕ) (body : Bytes) : Message where
  start := answerStart status
  headers := ascii "Content-Type: application/json" :: lengthAndLinger linger body
  body := body

/-- The message for a code that is answered. -/
def ofCode (linger : Bool) (status : ℕ) (body : Bytes) : HttpCode → Message
  | .internalError => page linger "500" "Internal Error" HttpConn.error500Form
  | .noResource => page linger "404" "Not Found" HttpConn.error404Form
  | .badRequest => page linger "400" "Bad Request" HttpConn.error400Form
  | .forbiddenRequest => page linger "403" "Forbidden" HttpConn.error403Form
  | _ => answer linger status body

theorem unbroken_append {l l' : Bytes} (h : HttpConn.Unbroken l) (h' : HttpConn.Unbroken l') :
    HttpConn.Unbroken (l ++ l') := by
  intro b hb
  rcases List.mem_append.1 hb with hb | hb
  · exact h b hb
  · exact h' b hb

theorem unbroken_decimal (n : ℕ) : HttpConn.Unbroken (HttpConn.decimal n) := by
  intro b hb
  have hdigit := (digits_decimal n).1 b hb
  constructor
  · rintro rfl
    cases hdigit
  · rintro rfl
    cases hdigit

/-- The last two headers frame the body. -/
theorem framed_of_headers {m : Message} {linger : Bool} (more : List Bytes)
    (hheaders : m.headers = more ++ lengthAndLinger linger m.body)
    (hlines : ∀ l ∈ m.start :: more, l ≠ [] ∧ HttpConn.Unbroken l)
    (hmore : more.filter (ascii "Content-Length:").isPrefixOf = [])
    (hlen : (m.body.length : ℤ) ≤ CString.LONG_MAX) : m.Framed where
  lines := by
    intro l hl
    rw [hheaders, ← List.cons_append] at hl
    rcases List.mem_append.1 hl with hl | hl
    · exact hlines l hl
    · rcases List.mem_cons.1 hl with rfl | hl
      · exact ⟨by simp [ascii], unbroken_append (by decide) (unbroken_decimal _)⟩
      · rw [List.mem_singleton.1 hl]
        cases linger with
        | true => exact ⟨by decide, by decide⟩
        | false => exact ⟨by decide, by decide⟩
  length := by
    refine ⟨HttpConn.decimal m.body.length, ?_, atol_decimal hlen⟩
    rw [hheaders, List.filter_append, hmore, List.nil_append, lengthAndLinger,
      List.filter_cons_of_pos (by simp [ascii])]
    cases linger with
    | true => rfl
    | false => rfl

theorem framed_page (linger : Bool) {status title : String} {form : Bytes}
    (hstart : HttpConn.Unbroken (ascii "HTTP/1.1 " ++ ascii status ++ ascii " " ++ ascii title))
    (hlen : (form.length : ℤ) ≤ CString.LONG_MAX) : (page linger status title form).Framed :=
  framed_of_headers [] rfl (List.forall_mem_singleton.2 ⟨by simp [page, ascii], hstart⟩) rfl hlen

theorem framed_answer (linger : Bool) (status : ℕ) {body : Bytes}
    (hlen : (body.length : ℤ) ≤ CString.LONG_MAX) : (answer linger status body).Framed := by
  refine framed_of_headers [ascii "Content-Type: application/json"] rfl ?_ rfl hlen
  have hstart : answerStart status ≠ [] ∧ HttpConn.Unbroken (answerStart status) := by
    unfold answerStart
    split
    · exact ⟨by decide, by decide⟩
    · exact ⟨by decide, by decide⟩
  exact List.forall_mem_cons.2 ⟨hstart, List.forall_mem_singleton.2 ⟨by decide, by decide⟩⟩

/-- **Every message that is sent is framed.** -/
theorem framed_ofCode (linger : Bool) (status : ℕ) {body : Bytes} {ret : HttpCode}
    (hret : HttpOut.Answered ret) (hlen : (body.length : ℤ) ≤ CString.LONG_MAX) :
    (ofCode linger status body ret).Framed := by
  rcases hret with rfl | rfl | rfl | rfl | rfl
  · exact framed_answer linger status hlen
  · exact framed_page linger (by decide) (by decide)
  · exact framed_page linger (by decide) (by decide)
  · exact framed_page linger (by decide) (by decide)
  · exact framed_page linger (by decide) (by decide)

theorem text_page (linger : Bool) {status title : String} {code : ℕ} {form : Bytes}
    (hcode : HttpConn.decimal code = ascii status) :
    HttpConn.errorPage linger code (ascii title) form = (page linger status title form).text := by
  simp only [HttpConn.errorPage, HttpConn.statusLine, HttpConn.headerLines, text, page,
    lengthAndLinger, hcode, List.map_cons, List.map_nil, List.flatten_cons, List.flatten_nil,
    List.append_assoc, List.append_nil]

theorem text_answer (linger : Bool) (status : ℕ) (body : Bytes) :
    HttpConn.responseText linger status body .jsonResponse =
      (answer linger status body).text := by
  have hstart : (if status = 503 then HttpConn.statusLine 503 (ascii "Service Unavailable")
      else HttpConn.statusLine 200 HttpConn.ok200Title) =
      answerStart status ++ ascii "\r\n" := by
    unfold answerStart
    split
    · rfl
    · rfl
  have htype : ascii "Content-Type: application/json\r\n" =
      ascii "Content-Type: application/json" ++ ascii "\r\n" := rfl
  rw [HttpConn.responseText, hstart, htype]
  simp only [text, answer, HttpConn.headerLines, lengthAndLinger, List.map_cons, List.map_nil,
    List.flatten_cons, List.flatten_nil, List.append_assoc, List.append_nil]

/-- **The text of a message** is what the pieces of `process_write` add up to. -/
theorem text_ofCode (linger : Bool) (status : ℕ) {body : Bytes} {ret : HttpCode}
    (hret : HttpOut.Answered ret) :
    HttpConn.responseText linger status body ret = (ofCode linger status body ret).text := by
  rcases hret with rfl | rfl | rfl | rfl | rfl
  · exact text_answer linger status body
  · exact text_page linger rfl
  · exact text_page linger rfl
  · exact text_page linger rfl
  · exact text_page linger rfl

end Message

namespace HttpOut

/-! ### Main result -/

/-- `http_conn()`: there are no blocks yet. -/
def new : HttpOut where
  writeBuf := []
  writeBufSize := 0
  writeIdx := 0
  responseBody := []
  responseBodySize := 0
  responseStatus := 200
  linger := false
  fileSize := 0
  iov0Base := 0
  iov0Len := 0
  iov1Base := 0
  iov1Len := 0
  iovCount := 0
  bytesToSend := 0

/-- `init()`, as far as the blocks go: both are of `INIT_BUFFER_SIZE`, and zero. -/
def init (o : HttpOut) : HttpOut :=
  { o with
    writeBuf := List.replicate initBufferSize 0
    writeBufSize := initBufferSize
    writeIdx := 0
    responseBody := List.replicate initBufferSize 0
    responseBodySize := initBufferSize
    responseStatus := 200
    linger := false
    bytesToSend := 0 }

theorem sound_init (o : HttpOut) : o.init.Sound where
  block := congrArg Nat.cast List.length_replicate
  size_le := show (initBufferSize : ℤ) ≤ INT_MAX by decide
  idx_nonneg := le_refl _
  idx_lt := show (0 : ℤ) < initBufferSize by decide

/-- **The framing of a response.**  `add_response` appends its text to what is in the block, with
room for a zero behind it before and after, whatever the fill and the size of the block are;
`set_response_body` stores the whole body, whatever was stored before; and `process_write` leaves
its message in the block, all of it to be sent, where a client finds the body. -/
theorem response_framing (junk : ℕ → UInt8) :
    (∀ (o : HttpOut) (fmt : Bytes) (args : List Arg), o.Sound →
      o.writeIdx + (format fmt args).length < 2 ^ 30 →
        ∃ o', o.addResponse junk fmt args = .ok o' ∧ o'.Sound ∧
          o'.writeIdx = o.writeIdx + (format fmt args).length ∧
          o'.written = o.written ++ format fmt args ∧ o'.unwritten = o.unwritten) ∧
    (∀ (o : HttpOut) (body : Bytes), 0 ≤ o.responseBodySize → o.responseBodySize ≤ INT_MAX →
      (o.responseBody.length : ℤ) = o.responseBodySize → 0 ∉ body → body.length < 2 ^ 30 →
        ∃ mem size, o.setResponseBody junk body =
            .ok { o with responseBody := mem, responseBodySize := size } ∧
          Stored { o with responseBody := mem, responseBodySize := size } body) ∧
    ∀ (o : HttpOut) (body : Bytes) (ret : HttpCode), o.Sound → o.Stored body → Answered ret →
      o.writeIdx + (Message.ofCode o.linger o.responseStatus body ret).text.length < 2 ^ 30 →
        (Message.ofCode o.linger o.responseStatus body ret).Framed ∧
        (ret = .jsonResponse →
          (Message.ofCode o.linger o.responseStatus body ret).body = body) ∧
        ∃ o', o.processWrite junk ret = .ok (true, o') ∧ o'.Sound ∧
          o'.written =
            o.written ++ (Message.ofCode o.linger o.responseStatus body ret).text ∧
          (o.writeIdx = 0 →
            o'.written = (Message.ofCode o.linger o.responseStatus body ret).text) ∧
          o'.iov0Base = 0 ∧ o'.iov0Len = o'.writeIdx ∧ o'.iovCount = 1 ∧
          o'.bytesToSend = o'.writeIdx := by
  refine ⟨fun o fmt args hs hlt => ?_, fun o body h0 hmax hblock hbody hlen => ?_,
    fun o body ret hs hb hret hlt => ?_⟩
  · obtain ⟨o', hr, hs', hidx, htext, hrest, -⟩ := emits_addResponse junk o fmt args hs hlt
    exact ⟨o', hr, hs', hidx, htext, hrest⟩
  · obtain ⟨mem, size, hr, hb, -⟩ := setResponseBody_refines junk ⟨h0, hmax⟩ hblock hlen
    rw [CString.cut_of_not_mem hbody] at hb
    exact ⟨mem, size, hr, hb⟩
  · have hmax : (body.length : ℤ) ≤ CString.LONG_MAX := by
      have hcut := (List.takeWhile_prefix (l := o.responseBody) (· ≠ 0)).length_le
      have hsize := hb.size.2
      rw [← hb.block] at hsize
      rw [← hb.string, cut]
      unfold INT_MAX at hsize
      unfold CString.LONG_MAX
      omega
    rw [← Message.text_ofCode o.linger o.responseStatus hret] at hlt ⊢
    obtain ⟨o', hr, hp, -⟩ := processWrite_refines junk hs hb hret hlt
    refine ⟨Message.framed_ofCode _ _ hret hmax, ?_, o', hr, hp.sound, hp.written, ?_, hp.base,
      hp.len, hp.count, hp.toSend⟩
    · rintro rfl
      rfl
    · intro hidx
      rw [hp.written, written, hidx]
      rfl

/-- The first answer of a connection. -/
theorem response_framing_first :
    ∃ o₁ o₂, new.init.setResponseBody (fun _ => 7) (ascii "\x7b\x7d") = .ok o₁ ∧
      o₁.processWrite (fun _ => 7) .jsonResponse = .ok (true, o₂) ∧
      o₂.written = (Message.answer false 200 (ascii "\x7b\x7d")).text ∧
      o₂.bytesToSend = o₂.writeIdx := by
  obtain ⟨-, hbody, hwrite⟩ := response_framing fun _ => 7
  obtain ⟨mem, size, hr, hb⟩ := hbody new.init (ascii "\x7b\x7d") (Int.natCast_nonneg _)
    (show (initBufferSize : ℤ) ≤ INT_MAX by decide) (congrArg Nat.cast List.length_replicate)
    (by decide) (by decide)
  obtain ⟨h₁, h₂, h₃, h₄⟩ := sound_init new
  have hlt : (0 : ℤ) + (Message.ofCode false 200 (ascii "\x7b\x7d") .jsonResponse).text.length <
      2 ^ 30 := by decide
  obtain ⟨-, -, o₂, hr₂, -, -, htext, -, -, -, hsend⟩ :=
    hwrite { new.init with responseBody := mem, responseBodySize := size } _ .jsonResponse
      ⟨h₁, h₂, h₃, h₄⟩ hb (.inl rfl) hlt
  exact ⟨_, o₂, hr, hr₂, htext rfl, hsend⟩

end HttpOut

end Gateway
