/-
The two buffers of a response, as the machine has them.

`HttpConn.addResponse` appends to a list.  The program formats into a block of bytes, twice when the
block is too small: the first `vsnprintf` cuts the text off, the block is replaced by a larger one,
and the second `vsnprintf` formats again.  Sizes and positions are `int`s.  This module models the
blocks and the `int`s, and compares.

A store outside a block and an overflow of `int` are faults.  A new block holds arbitrary bytes.

Main definitions:

* `Gateway.HttpOut` — the blocks, `Gateway.HttpOut.addResponse`, `Gateway.HttpOut.setResponseBody`,
  `Gateway.HttpOut.processWrite` — what is written into them;
* `Gateway.HttpOut.Sound` — the position is inside the block, `Gateway.HttpOut.onto` — the
  connection that the blocks stand for;
* `Gateway.HttpOut.Emits` — a text is appended, with `Gateway.HttpOut.Emits.bind` for texts one
  after the other.

Main results:

* `Gateway.HttpOut.growLoop_eq`, `Gateway.HttpOut.growSize_eq` — the doublings end, without an
  overflow;
* `Gateway.HttpOut.emits_addResponse` — **`add_response` appends its text**;
* `Gateway.HttpOut.setResponseBody_refines`, `Gateway.HttpOut.processWrite_refines` — the blocks do
  what the lists do.
-/

import InferenceGateway.HttpInference

set_option relaxedAutoImplicit false
set_option autoImplicit false

namespace Gateway

open CString (cut)

/-! ### Machine integers and blocks -/

/-- `INT_MAX`. -/
def INT_MAX : ℤ := 2 ^ 31 - 1

/-- Arithmetic on `int`: a result that does not fit is undefined. -/
def int (z : ℤ) : Except Fault ℤ :=
  if -2 ^ 31 ≤ z ∧ z ≤ INT_MAX then .ok z else .error .overflow

/-- The conversion to `int`. -/
def toInt (z : ℤ) : ℤ := z.bmod (2 ^ 32)

/-- Bytes stored into a block. -/
def poke (mem : Bytes) (i : ℤ) (text : Bytes) : Except Fault Bytes :=
  if 0 ≤ i ∧ i + text.length ≤ mem.length then
    .ok (mem.take i.toNat ++ text ++ mem.drop (i.toNat + text.length))
  else .error (.outOfRange i)

/-- The first bytes of a block. -/
def peek (mem : Bytes) (n : ℤ) : Except Fault Bytes :=
  if 0 ≤ n ∧ n ≤ mem.length then .ok (mem.take n.toNat) else .error (.outOfRange n)

/-- The string at the start of a block, which `strlen` and `%s` read. -/
def cstr (mem : Bytes) : Except Fault Bytes :=
  if 0 ∈ mem then .ok (cut mem) else .error (.outOfRange mem.length)

/-- `new char[n]`, with arbitrary bytes. -/
def newBlock (junk : ℕ → UInt8) (n : ℤ) : Bytes := (List.range n.toNat).map junk

/-- An argument of `add_response`. -/
inductive Arg
  | str (s : Bytes)
  | int (n : ℤ)

/-- What `vsnprintf` makes of a format with `%s` and `%d`. -/
def format : Bytes → List Arg → Bytes
  | 37 :: 115 :: f, .str s :: args => s ++ format f args
  | 37 :: 100 :: f, .int n :: args => ascii (toString n) ++ format f args
  | b :: f, args => b :: format f args
  | [], _ => []

/-- `vsnprintf(mem + i, space, ...)`, where `text` is the formatted text and `space` is positive:
what fits is stored, with a zero behind it, and the length of the text is returned. -/
def vsnprintf (mem : Bytes) (i space : ℤ) (text : Bytes) : Except Fault (Bytes × ℤ) := do
  if INT_MAX < text.length then return (mem, -1)
  let mem ← poke mem i (text.take (space - 1).toNat ++ [0])
  return (mem, text.length)

theorem int_eq {z : ℤ} (h : -2 ^ 31 ≤ z) (h' : z ≤ INT_MAX) : int z = .ok z := if_pos ⟨h, h'⟩

theorem toInt_eq {n : ℕ} (h : (n : ℤ) ≤ INT_MAX) : toInt n = n := by
  unfold toInt INT_MAX at *
  rw [Int.bmod_eq_of_le_mul_two (by omega) (by omega)]

theorem poke_eq (mem : Bytes) (i : ℕ) (text : Bytes) (h : i + text.length ≤ mem.length) :
    poke mem i text = .ok (mem.take i ++ text ++ mem.drop (i + text.length)) :=
  if_pos ⟨Int.natCast_nonneg i, by exact_mod_cast h⟩

theorem length_newBlock (junk : ℕ → UInt8) (n : ℤ) : (newBlock junk n).length = n.toNat := by
  rw [newBlock, List.length_map, List.length_range]

/-- **What `vsnprintf` stores**: the text as far as there is space, behind what was there. -/
theorem vsnprintf_spec (mem : Bytes) (i : ℕ) (space : ℤ) (text : Bytes) (hs : 1 ≤ space)
    (hmem : i + space ≤ mem.length) (ht : text.length ≤ INT_MAX) :
    ∃ mem', vsnprintf mem i space text = .ok (mem', text.length) ∧ mem'.length = mem.length ∧
      mem'.take i = mem.take i ∧
      (text.length < space → mem'.take (i + text.length) = mem.take i ++ text) := by
  generalize hpiece : text.take (space - 1).toNat ++ [0] = piece
  have hcut : piece.length ≤ space.toNat := by
    rw [← hpiece, List.length_append, List.length_take, List.length_singleton]
    omega
  have hi : (mem.take i).length = i := List.length_take_of_le (by omega)
  refine ⟨mem.take i ++ piece ++ mem.drop (i + piece.length), ?_, ?_, ?_, ?_⟩
  · rw [vsnprintf, if_neg (not_lt.2 ht), hpiece]
    simp only [poke_eq mem i piece (by omega), bind, Except.bind, pure,
      Except.pure]
  · rw [List.length_append, List.length_append, hi, List.length_drop]
    omega
  · rw [List.append_assoc, List.take_append_of_le_length hi.ge, List.take_take, min_self]
  · intro hlt
    have hall : piece = text ++ [0] := by
      rw [← hpiece, List.take_of_length_le (by omega)]
    have hlen : (mem.take i ++ text).length = i + text.length := by rw [List.length_append, hi]
    rw [hall, ← List.append_assoc, List.append_assoc (mem.take i ++ text),
      List.take_append_of_le_length hlen.ge, List.take_of_length_le hlen.le]

/-! ### The object -/

/-- What a response is made in: `m_write_buf` and `m_response_body` with their sizes, and the fields
that `process_write` reads and writes. -/
structure HttpOut where
  writeBuf : Bytes
  writeBufSize : ℤ
  writeIdx : ℤ
  responseBody : Bytes
  responseBodySize : ℤ
  responseStatus : ℕ
  linger : Bool
  fileSize : ℕ
  iov0Base : ℕ
  iov0Len : ℤ
  iov1Base : ℤ
  iov1Len : ℤ
  iovCount : ℕ
  bytesToSend : ℤ
  deriving DecidableEq

namespace HttpOut

/-- `while (new_size - m_write_idx <= len) new_size *= 2`.  An `int` can be doubled 31 times; the
number bounds the passes. -/
def growLoop (idx len : ℤ) : ℕ → ℤ → Except Fault ℤ
  | 0, _ => .error .overflow
  | fuel + 1, size => do
      if (← int (size - idx)) ≤ len then growLoop idx len fuel (← int (size * 2)) else return size

/-- `add_response`, which always returns true. -/
def addResponse (junk : ℕ → UInt8) (o : HttpOut) (fmt : Bytes) (args : List Arg) :
    Except Fault HttpOut := do
  let space ← int (o.writeBufSize - o.writeIdx)
  let space := if space < 1 then 1 else space
  let (buf, len) ← vsnprintf o.writeBuf o.writeIdx space (format fmt args)
  if len < space then
    return { o with writeBuf := buf, writeIdx := ← int (o.writeIdx + len) }
  else
    let size ← growLoop o.writeIdx len 33
      (if o.writeBufSize = 0 then initBufferSize else o.writeBufSize)
    let new ← poke (newBlock junk size) 0 (← peek buf o.writeIdx)
    let (new, _) ← vsnprintf new o.writeIdx (← int (size - o.writeIdx)) (format fmt args)
    return { o with
      writeBuf := new, writeBufSize := size, writeIdx := ← int (o.writeIdx + len) }

/-- `while (new_size < needed) new_size *= 2` on `size_t`; the first number bounds the passes. -/
def growSize (needed : ℕ) : ℕ → ℕ → ℕ
  | 0, n => n
  | fuel + 1, n => if n < needed then growSize needed fuel (n * 2 % 2 ^ 64) else n

/-- `set_response_body`. -/
def setResponseBody (junk : ℕ → UInt8) (o : HttpOut) (body : Bytes) : Except Fault HttpOut := do
  let needed := body.length + 1
  let old := (o.responseBodySize % 2 ^ 64).toNat
  if old < needed then
    let size := toInt (growSize needed needed (if old = 0 then initBufferSize else old))
    return { o with
      responseBody := ← poke (newBlock junk size) 0 (cut body ++ [0]), responseBodySize := size }
  else return { o with responseBody := ← poke o.responseBody 0 (cut body ++ [0]) }

def addStatusLine (junk : ℕ → UInt8) (o : HttpOut) (status : ℤ) (title : Bytes) :
    Except Fault HttpOut :=
  o.addResponse junk (ascii "%s %d %s\r\n") [.str (ascii "HTTP/1.1"), .int status, .str title]

def addContentLength (junk : ℕ → UInt8) (o : HttpOut) (contentLen : ℤ) : Except Fault HttpOut :=
  o.addResponse junk (ascii "Content-Length:%d\r\n") [.int contentLen]

def addLinger (junk : ℕ → UInt8) (o : HttpOut) : Except Fault HttpOut :=
  o.addResponse junk (ascii "Connection:%s\r\n")
    [.str (if o.linger then ascii "keep-alive" else ascii "close")]

def addBlankLine (junk : ℕ → UInt8) (o : HttpOut) : Except Fault HttpOut :=
  o.addResponse junk (ascii "%s") [.str (ascii "\r\n")]

def addHeaders (junk : ℕ → UInt8) (o : HttpOut) (contentLen : ℤ) : Except Fault HttpOut := do
  let o ← o.addContentLength junk contentLen
  let o ← o.addLinger junk
  o.addBlankLine junk

def addContent (junk : ℕ → UInt8) (o : HttpOut) (content : Bytes) : Except Fault HttpOut :=
  o.addResponse junk (ascii "%s") [.str content]

/-- The response that `process_write` makes for an error. -/
def addErrorPage (junk : ℕ → UInt8) (o : HttpOut) (status : ℤ) (title form : Bytes) :
    Except Fault HttpOut := do
  let o ← o.addStatusLine junk status title
  let o ← o.addHeaders junk (toInt form.length)
  o.addContent junk form

/-- The answer of `do_request`. -/
def addJson (junk : ℕ → UInt8) (o : HttpOut) : Except Fault HttpOut := do
  let o ← (if o.responseStatus = 503 then
      o.addStatusLine junk 503 (ascii "Service Unavailable")
    else o.addStatusLine junk 200 HttpConn.ok200Title)
  let o ← o.addResponse junk (ascii "Content-Type: application/json\r\n") []
  let o ← o.addContentLength junk (toInt (← cstr o.responseBody).length)
  let o ← o.addLinger junk
  let o ← o.addBlankLine junk
  o.addContent junk (← cstr o.responseBody)

/-- The end of `process_write`. -/
def pointAtResponse (o : HttpOut) : HttpOut :=
  { o with iov0Base := 0, iov0Len := o.writeIdx, iovCount := 1, bytesToSend := o.writeIdx }

/-- `process_write`. -/
def processWrite (junk : ℕ → UInt8) (o : HttpOut) (ret : HttpCode) :
    Except Fault (Bool × HttpOut) := do
  match ret with
  | .internalError =>
      let o ← o.addErrorPage junk 500 HttpConn.error500Title HttpConn.error500Form
      return (true, o.pointAtResponse)
  | .noResource =>
      let o ← o.addErrorPage junk 404 HttpConn.error404Title HttpConn.error404Form
      return (true, o.pointAtResponse)
  | .badRequest =>
      let o ← o.addErrorPage junk 400 HttpConn.error400Title HttpConn.error400Form
      return (true, o.pointAtResponse)
  | .forbiddenRequest =>
      let o ← o.addErrorPage junk 403 HttpConn.error403Title HttpConn.error403Form
      return (true, o.pointAtResponse)
  | .fileRequest =>
      let o ← o.addStatusLine junk 200 HttpConn.ok200Title
      if o.fileSize ≠ 0 then
        let o ← o.addHeaders junk (toInt o.fileSize)
        return (true, { o with
          iov0Base := 0, iov0Len := o.writeIdx, iov1Base := 0, iov1Len := o.fileSize,
          iovCount := 2, bytesToSend := toInt (o.writeIdx + o.fileSize) })
      else
        let ok := ascii "<html><body></body></html>"
        let o ← o.addHeaders junk (toInt ok.length)
        let o ← o.addContent junk ok
        return (true, o.pointAtResponse)
  | .jsonResponse =>
      let o ← o.addJson junk
      return (true, o.pointAtResponse)
  | _ => return (false, o)

/-! ### Growth -/

/-- **The doubling of `add_response` does not overflow** when the text ends below `2 ^ 30`, and
ends where the doubling on numbers does. -/
theorem growLoop_eq (idx len : ℕ) {need : ℕ} (hneed : need = idx + len) (hlt : need < 2 ^ 30)
    (j k : ℕ) {n : ℕ} (hpos : 0 < n) (hn : (n : ℤ) ≤ INT_MAX) (hj : need < n * 2 ^ j)
    (hk : need < n * 2 ^ k) :
    growLoop idx len (j + 1) n = .ok (HttpConn.grow need k n : ℕ) ∧
      need < HttpConn.grow need k n ∧ (HttpConn.grow need k n : ℤ) ≤ INT_MAX := by
  have hsub : int ((n : ℤ) - idx) = .ok ((n : ℤ) - idx) := int_eq (by omega) (by omega)
  induction j generalizing n k with
  | zero =>
      rw [pow_zero, mul_one] at hj
      have hgrow : HttpConn.grow need k n = n := by
        cases k with
        | zero => rfl
        | succ k => rw [HttpConn.grow, if_neg (by omega)]
      rw [hgrow, growLoop]
      simp only [hsub, bind, Except.bind, pure, Except.pure]
      rw [if_neg (by omega)]
      exact ⟨rfl, hj, hn⟩
  | succ j ih =>
      rw [growLoop]
      simp only [hsub, bind, Except.bind, pure, Except.pure]
      by_cases hle : n ≤ need
      · obtain ⟨k, rfl⟩ : ∃ k', k = k' + 1 := by
          cases k with
          | zero => omega
          | succ k => exact ⟨k, rfl⟩
        have hdouble : int ((n : ℤ) * 2) = .ok ((2 * n : ℕ) : ℤ) := by
          unfold INT_MAX at hn
          rw [int_eq (by omega) (by unfold INT_MAX; omega)]
          congr 1
          omega
        rw [if_pos (by omega), hdouble, HttpConn.grow, if_pos hle]
        have hmax : ((2 * n : ℕ) : ℤ) ≤ INT_MAX := by
          unfold INT_MAX
          omega
        have hpow : ∀ m, n * 2 ^ (m + 1) = 2 * n * 2 ^ m := fun m => by ring
        exact ih k (by omega) hmax (by rwa [← hpow]) (by rwa [← hpow])
          (int_eq (by omega) (by omega))
      · have hgrow : HttpConn.grow need k n = n := by
          cases k with
          | zero => rfl
          | succ k => rw [HttpConn.grow, if_neg hle]
        rw [if_neg (by omega), hgrow]
        exact ⟨rfl, by omega, hn⟩

/-- **The doubling of `set_response_body`** does not wrap and ends with enough room. -/
theorem growSize_eq (needed : ℕ) (hlt : needed ≤ 2 ^ 30) (k : ℕ) {n : ℕ} (hpos : 0 < n)
    (hn : (n : ℤ) ≤ INT_MAX) (hk : needed ≤ n * 2 ^ k) :
    growSize needed k n = HttpConn.growBody needed k n ∧
      needed ≤ HttpConn.growBody needed k n ∧
        (HttpConn.growBody needed k n : ℤ) ≤ INT_MAX := by
  induction k generalizing n with
  | zero =>
      rw [pow_zero, mul_one] at hk
      exact ⟨rfl, hk, hn⟩
  | succ k ih =>
      rw [growSize, HttpConn.growBody]
      by_cases hle : n < needed
      · have hwrap : n * 2 % 2 ^ 64 = 2 * n := by
          rw [Nat.mod_eq_of_lt (by omega), mul_comm]
        rw [if_pos hle, if_pos hle, hwrap]
        have hmax : ((2 * n : ℕ) : ℤ) ≤ INT_MAX := by
          unfold INT_MAX
          omega
        exact ih (by omega) hmax (by rwa [show n * 2 ^ (k + 1) = 2 * n * 2 ^ k by ring] at hk)
      · rw [if_neg hle, if_neg hle]
        exact ⟨rfl, not_lt.1 hle, hn⟩

/-! ### One piece -/

/-- The position is inside the block. -/
structure Sound (o : HttpOut) : Prop where
  block : (o.writeBuf.length : ℤ) = o.writeBufSize
  size_le : o.writeBufSize ≤ INT_MAX
  idx_nonneg : 0 ≤ o.writeIdx
  idx_lt : o.writeIdx < o.writeBufSize

/-- `m_write_buf[0..m_write_idx)`. -/
def written (o : HttpOut) : Bytes := o.writeBuf.take o.writeIdx.toNat

/-- The connection whose response is in the blocks. -/
def onto (o : HttpOut) (c : HttpConn) : HttpConn :=
  { c with
    writeBuf := o.written
    writeBufSize := o.writeBufSize.toNat
    responseBody := cut o.responseBody
    responseBodySize := o.responseBodySize.toNat
    responseStatus := o.responseStatus
    linger := o.linger
    fileSize := o.fileSize
    iov0Base := o.iov0Base
    iov0Len := o.iov0Len.toNat
    iov1Base := o.iov1Base
    iov1Len := o.iov1Len
    iovCount := o.iovCount
    bytesToSend := o.bytesToSend }

/-- The object without the write buffer. -/
def unwritten (o : HttpOut) : HttpOut := { o with writeBuf := [], writeBufSize := 0, writeIdx := 0 }

theorem Sound.length_written {o : HttpOut} (h : o.Sound) :
    (o.written.length : ℤ) = o.writeIdx := by
  have := h.block
  have := h.idx_nonneg
  have := h.idx_lt
  rw [written, List.length_take_of_le (by omega)]
  omega

/-- `Emits o r f text`: the result `r`, made from `o`, has `text` behind what `o` had written, it is
sound again, and it is what `f` does to the connection. -/
def Emits (o : HttpOut) (r : Except Fault HttpOut) (f : HttpConn → HttpConn) (text : Bytes) :
    Prop :=
  o.Sound → o.writeIdx + text.length < 2 ^ 30 →
    ∃ o', r = .ok o' ∧ o'.Sound ∧ o'.writeIdx = o.writeIdx + text.length ∧
      o'.written = o.written ++ text ∧ o'.unwritten = o.unwritten ∧ ∀ c, o'.onto c = f (o.onto c)

theorem onto_unwritten (o : HttpOut) (c : HttpConn) :
    o.onto c = { o.unwritten.onto c with
      writeBuf := o.written, writeBufSize := o.writeBufSize.toNat } := rfl

/-- The connection onto the object with a longer text. -/
theorem onto_eq {o o' : HttpOut} {text : Bytes} {size : ℕ} (hrest : o'.unwritten = o.unwritten)
    (htext : o'.written = o.written ++ text) (hsize : o'.writeBufSize = size) (c : HttpConn) :
    o'.onto c =
      { o.onto c with writeBuf := (o.onto c).writeBuf ++ text, writeBufSize := size } := by
  rw [onto_unwritten o', hrest, htext, hsize, Int.toNat_natCast]
  rfl

/-- A block that holds the longer text. -/
def filled (o : HttpOut) (mem : Bytes) (size idx : ℕ) : HttpOut :=
  { o with writeBuf := mem, writeBufSize := size, writeIdx := idx }

theorem filled_spec {o : HttpOut} {mem text : Bytes} {size i : ℕ} (hmem : mem.length = size)
    (hmax : (size : ℤ) ≤ INT_MAX) (hroom : i + text.length < size) (hi : o.writeIdx = i)
    (htake : mem.take (i + text.length) = o.written ++ text) :
    (o.filled mem size (i + text.length)).Sound ∧
      (o.filled mem size (i + text.length)).writeIdx = o.writeIdx + text.length ∧
      (o.filled mem size (i + text.length)).written = o.written ++ text ∧
      (o.filled mem size (i + text.length)).unwritten = o.unwritten ∧
      ∀ c, (o.filled mem size (i + text.length)).onto c =
        { o.onto c with writeBuf := (o.onto c).writeBuf ++ text, writeBufSize := size } := by
  refine ⟨⟨congrArg Nat.cast hmem, hmax, Int.natCast_nonneg _, Int.ofNat_lt.2 hroom⟩, ?_, htake,
    rfl, onto_eq rfl htake rfl⟩
  rw [hi]
  exact Int.natCast_add i text.length

/-- **`add_response` appends its text**, whatever the fill and the size of the block are. -/
theorem emits_addResponse (junk : ℕ → UInt8) (o : HttpOut) (fmt : Bytes) (args : List Arg) :
    Emits o (o.addResponse junk fmt args) (·.addResponse (format fmt args)) (format fmt args) := by
  intro h hlt
  generalize htext : format fmt args = text at hlt ⊢
  obtain ⟨i, hi⟩ := Int.eq_ofNat_of_zero_le h.idx_nonneg
  obtain ⟨n, hn⟩ : ∃ n : ℕ, o.writeBufSize = n := ⟨_, h.block.symm⟩
  have hblock : o.writeBuf.length = n := by exact_mod_cast h.block.trans hn
  have hroom : i < n := by exact_mod_cast hi ▸ hn ▸ h.idx_lt
  have hmax : (n : ℤ) ≤ INT_MAX := hn ▸ h.size_le
  have hlen : (text.length : ℤ) ≤ INT_MAX := by
    unfold INT_MAX
    omega
  have hend : int (i + text.length : ℤ) = .ok ((i + text.length : ℕ) : ℤ) := by
    rw [int_eq (by omega) (by unfold INT_MAX; omega)]
    push_cast
    rfl
  have hidx : ∀ c, (o.onto c).writeIdx = i := fun c => by
    exact_mod_cast h.length_written.trans hi
  have hsize : ∀ c, (o.onto c).writeBufSize = n := fun c => by
    rw [onto, hn, Int.toNat_natCast]
  have hwritten : o.written = o.writeBuf.take i := by rw [written, hi, Int.toNat_natCast]
  have hspace : int ((n : ℤ) - i) = .ok ((n : ℤ) - i) := int_eq (by omega) (by omega)
  obtain ⟨mem, hmem, hmemLen, hkeep, hall⟩ := vsnprintf_spec o.writeBuf i ((n : ℤ) - i) text
    (by omega) (by omega) hlen
  rw [addResponse, htext, hn, hi]
  simp only [hspace, hmem, hend, bind, Except.bind, pure, Except.pure,
    if_neg (show ¬ (n : ℤ) - i < 1 by omega)]
  by_cases hfits : (text.length : ℤ) < n - i
  -- the text fits in the block
  · rw [if_pos hfits]
    obtain ⟨hsound, hpos, htake, hrest, hover⟩ := filled_spec (hmemLen.trans hblock) hmax
      (by omega) hi ((hall hfits).trans (by rw [hwritten]))
    refine ⟨o.filled mem n (i + text.length), rfl, hsound, hi ▸ hpos, htake, hrest, fun c => ?_⟩
    rw [hover c, HttpConn.addResponse, hidx, hsize, if_pos (by omega), ← hsize c]
  -- the block grows, and the text is formatted again
  · rw [if_neg hfits, if_neg (by omega)]
    have hpow : i + text.length < n * 2 ^ (i + text.length + 1) :=
      calc i + text.length < 2 ^ (i + text.length) := Nat.lt_two_pow_self
        _ ≤ 2 ^ (i + text.length + 1) := Nat.pow_le_pow_right (by norm_num) (Nat.le_succ _)
        _ ≤ n * 2 ^ (i + text.length + 1) := Nat.le_mul_of_pos_left _ (by omega)
    obtain ⟨hgrow, hroom', hmax'⟩ := growLoop_eq i text.length rfl (by omega) 32
      (i + text.length + 1) (n := n) (by omega) hmax (by omega) hpow
    have hover' : ∀ c, (o.onto c).addResponse text = { o.onto c with
        writeBuf := (o.onto c).writeBuf ++ text,
        writeBufSize := HttpConn.grow (i + text.length) (i + text.length + 1) n } := fun c => by
      rw [HttpConn.addResponse, hidx, hsize, if_neg (by omega)]
      simp only [if_neg (show ¬ n = 0 by omega)]
    generalize HttpConn.grow (i + text.length) (i + text.length + 1) n = size at *
    have hpeek : peek mem i = .ok o.written := by
      rw [peek, if_pos ⟨Int.natCast_nonneg i, by omega⟩, Int.toNat_natCast, hkeep, hwritten]
    have hold : o.written.length = i := by exact_mod_cast h.length_written.trans hi
    have hnew : (newBlock junk size).length = size := by
      rw [length_newBlock, Int.toNat_natCast]
    have hcopy := poke_eq (newBlock junk size) 0 o.written (by omega)
    generalize hblk : List.take 0 (newBlock junk size) ++ o.written ++
      List.drop (0 + o.written.length) (newBlock junk size) = blk at hcopy
    have hblkLen : blk.length = size := by
      rw [← hblk]
      simp only [List.take_zero, List.nil_append, List.length_append, List.length_drop, hnew]
      omega
    have hspace' : int ((size : ℤ) - i) = .ok ((size : ℤ) - i) := int_eq (by omega) (by omega)
    obtain ⟨mem', hmem', hmemLen', -, hall'⟩ := vsnprintf_spec blk i ((size : ℤ) - i) text
      (by omega) (by omega) hlen
    have hblkTake : blk.take i = o.written := by
      rw [← hblk, List.take_zero, List.nil_append, ← hold, List.take_left]
    obtain ⟨hsound, hpos, htake, hrest, hover⟩ := filled_spec (hmemLen'.trans hblkLen) hmax'
      hroom' hi ((hall' (by omega)).trans (by rw [hblkTake]))
    refine ⟨o.filled mem' size (i + text.length), ?_, hsound, hi ▸ hpos, htake, hrest, fun c => ?_⟩
    · rw [hgrow]
      simp only [hpeek]
      rw [show ((0 : ℤ)) = ((0 : ℕ) : ℤ) from rfl, hcopy]
      simp only [hspace', hmem']
      rfl
    · rw [hover c, hover' c]

/-! ### Several pieces -/

section Pieces

variable {junk : ℕ → UInt8} {o : HttpOut} {r : Except Fault HttpOut} {f g : HttpConn → HttpConn}
  {text more : Bytes}

/-- Pieces one after the other. -/
theorem Emits.bind {k : HttpOut → Except Fault HttpOut} {fg : HttpConn → HttpConn} {all : Bytes}
    (h : Emits o r f text) (hk : ∀ o', o'.unwritten = o.unwritten → Emits o' (k o') g more)
    (hall : text ++ more = all) (hfg : ∀ c, g (f c) = fg c) : Emits o (r >>= k) fg all := by
  intro hs hlt
  rw [← hall, List.length_append] at hlt
  obtain ⟨o₁, rfl, hs₁, hidx₁, htext₁, hrest₁, hover₁⟩ := h hs (by omega)
  obtain ⟨o₂, hr₂, hs₂, hidx₂, htext₂, hrest₂, hover₂⟩ := hk o₁ hrest₁ hs₁ (by omega)
  refine ⟨o₂, hr₂, hs₂, ?_, ?_, hrest₂.trans hrest₁, fun c => ?_⟩
  · rw [hidx₂, hidx₁, ← hall, List.length_append]
    push_cast
    ring
  · rw [htext₂, htext₁, ← hall, List.append_assoc]
  · rw [hover₂, hover₁, hfg]

theorem Emits.congr (h : Emits o r f text) (hfg : ∀ c, f (o.onto c) = g (o.onto c)) :
    Emits o r g text := by
  intro hs hlt
  obtain ⟨o', hr, hs', hidx, htext, hrest, hover⟩ := h hs hlt
  exact ⟨o', hr, hs', hidx, htext, hrest, fun c => (hover c).trans (hfg c)⟩

variable (junk o)

theorem emits_addStatusLine (status : ℕ) (title : Bytes) :
    Emits o (o.addStatusLine junk status title) (·.addStatusLine status title)
      (HttpConn.statusLine status title) := by
  have hfmt : format (ascii "%s %d %s\r\n") [.str (ascii "HTTP/1.1"), .int status, .str title] =
      HttpConn.statusLine status title := by
    simp only [HttpConn.statusLine, List.append_assoc]
    rfl
  have h := emits_addResponse junk o (ascii "%s %d %s\r\n")
    [.str (ascii "HTTP/1.1"), .int status, .str title]
  rw [hfmt] at h
  exact h

theorem emits_addContentLength (n : ℕ) :
    Emits o (o.addContentLength junk n) (·.addContentLength n)
      (ascii "Content-Length:" ++ HttpConn.decimal n ++ ascii "\r\n") := by
  have hfmt : format (ascii "Content-Length:%d\r\n") [.int n] =
      ascii "Content-Length:" ++ HttpConn.decimal n ++ ascii "\r\n" := by
    simp only [List.append_assoc]
    rfl
  have h := emits_addResponse junk o (ascii "Content-Length:%d\r\n") [.int n]
  rw [hfmt] at h
  exact h

theorem emits_addLinger :
    Emits o (o.addLinger junk) (·.addLinger)
      (ascii "Connection:" ++ (if o.linger then ascii "keep-alive" else ascii "close") ++
        ascii "\r\n") := by
  have hfmt : ∀ s : Bytes, format (ascii "Connection:%s\r\n") [.str s] =
      ascii "Connection:" ++ s ++ ascii "\r\n" := fun s => by
    simp [format, ascii]
  have h := emits_addResponse junk o (ascii "Connection:%s\r\n")
    [.str (if o.linger then ascii "keep-alive" else ascii "close")]
  rw [hfmt] at h
  exact h.congr fun c => rfl

theorem emits_addContent (content : Bytes) :
    Emits o (o.addContent junk content) (·.addContent content) content := by
  have hfmt : format (ascii "%s") [.str content] = content := List.append_nil content
  have h := emits_addResponse junk o (ascii "%s") [.str content]
  rw [hfmt] at h
  exact h

theorem emits_addBlankLine : Emits o (o.addBlankLine junk) (·.addBlankLine) (ascii "\r\n") :=
  emits_addContent junk o (ascii "\r\n")

theorem linger_of_unwritten {o o' : HttpOut} (h : o'.unwritten = o.unwritten) :
    o'.linger = o.linger :=
  show o'.unwritten.linger = _ by rw [h]; rfl

theorem responseBody_of_unwritten {o o' : HttpOut} (h : o'.unwritten = o.unwritten) :
    o'.responseBody = o.responseBody :=
  show o'.unwritten.responseBody = _ by rw [h]; rfl

/-- The end of the headers. -/
theorem emits_addLingerBlank :
    Emits o (o.addLinger junk >>= fun o => o.addBlankLine junk)
      (fun c => c.addLinger.addBlankLine)
      (ascii "Connection:" ++ (if o.linger then ascii "keep-alive" else ascii "close") ++
        ascii "\r\n" ++ ascii "\r\n") :=
  (emits_addLinger junk o).bind (fun o₁ _ => emits_addBlankLine junk o₁) rfl fun _ => rfl

theorem emits_addHeaders (n : ℕ) :
    Emits o (o.addHeaders junk n) (·.addHeaders n) (HttpConn.headerLines o.linger n) := by
  have hend : ∀ o₁ : HttpOut, o₁.unwritten = o.unwritten →
      Emits o₁ (o₁.addLinger junk >>= fun o => o.addBlankLine junk)
        (fun c => c.addLinger.addBlankLine)
        (ascii "Connection:" ++ (if o.linger then ascii "keep-alive" else ascii "close") ++
          ascii "\r\n" ++ ascii "\r\n") := by
    intro o₁ h₁
    rw [← linger_of_unwritten h₁]
    exact emits_addLingerBlank junk o₁
  refine (emits_addContentLength junk o n).bind hend ?_ fun c => by rw [HttpConn.addHeaders]
  simp only [HttpConn.headerLines, List.append_assoc]

theorem emits_addErrorPage (status : ℕ) (title form : Bytes) (hform : form.length ≤ INT_MAX) :
    Emits o (o.addErrorPage junk status title form) (·.addErrorPage status title form)
      (HttpConn.errorPage o.linger status title form) := by
  have hend : ∀ o₁ : HttpOut, o₁.unwritten = o.unwritten →
      Emits o₁ (o₁.addHeaders junk (toInt form.length) >>= fun o => o.addContent junk form)
        (fun c => (c.addHeaders form.length).addContent form)
        (HttpConn.headerLines o.linger form.length ++ form) := by
    intro o₁ h₁
    rw [toInt_eq hform, ← linger_of_unwritten h₁]
    exact (emits_addHeaders junk o₁ form.length).bind (fun o₂ _ => emits_addContent junk o₂ form)
      rfl fun _ => rfl
  refine (emits_addStatusLine junk o status title).bind hend ?_ fun c => by
    rw [HttpConn.addErrorPage]
  rw [HttpConn.errorPage, List.append_assoc]

theorem cstr_eq {mem : Bytes} (h : 0 ∈ mem) : cstr mem = .ok (cut mem) := if_pos h

/-- The status line of an answer. -/
theorem emits_jsonStatus :
    Emits o
      (if o.responseStatus = 503 then o.addStatusLine junk 503 (ascii "Service Unavailable")
        else o.addStatusLine junk 200 HttpConn.ok200Title)
      (fun c => if o.responseStatus = 503 then c.addStatusLine 503 (ascii "Service Unavailable")
        else c.addStatusLine 200 HttpConn.ok200Title)
      (if o.responseStatus = 503 then HttpConn.statusLine 503 (ascii "Service Unavailable")
        else HttpConn.statusLine 200 HttpConn.ok200Title) := by
  split
  · exact emits_addStatusLine junk o 503 _
  · exact emits_addStatusLine junk o 200 _

theorem emits_addType :
    Emits o (o.addResponse junk (ascii "Content-Type: application/json\r\n") [])
      (·.addResponse (ascii "Content-Type: application/json\r\n"))
      (ascii "Content-Type: application/json\r\n") :=
  emits_addResponse junk o (ascii "Content-Type: application/json\r\n") []

theorem ok_bind {α β : Type} (a : α) (k : α → Except Fault β) : (.ok a >>= k) = k a := rfl

/-- The body that is in the block. -/
theorem emits_addBody (h0 : 0 ∈ o.responseBody) :
    Emits o (cstr o.responseBody >>= fun s => o.addContent junk s)
      (·.addContent (cut o.responseBody)) (cut o.responseBody) := by
  rw [cstr_eq h0, ok_bind]
  exact emits_addContent junk o (cut o.responseBody)

/-- The end of an answer: its blank line and the body. -/
theorem emits_addBlankBody (h0 : 0 ∈ o.responseBody) :
    Emits o (o.addBlankLine junk >>= fun o => cstr o.responseBody >>= fun s => o.addContent junk s)
      (fun c => c.addBlankLine.addContent (cut o.responseBody))
      (ascii "\r\n" ++ cut o.responseBody) := by
  have hend : ∀ o₁ : HttpOut, o₁.unwritten = o.unwritten →
      Emits o₁ (cstr o₁.responseBody >>= fun s => o₁.addContent junk s)
        (·.addContent (cut o.responseBody)) (cut o.responseBody) := by
    intro o₁ h₁
    have hbody := responseBody_of_unwritten h₁
    rw [← hbody] at h0 ⊢
    exact emits_addBody junk o₁ h0
  exact (emits_addBlankLine junk o).bind hend rfl fun _ => rfl

/-- The end of an answer, from its headers on. -/
theorem emits_addLengthBody (h0 : 0 ∈ o.responseBody)
    (hlen : (cut o.responseBody).length ≤ INT_MAX) :
    Emits o (cstr o.responseBody >>= fun s => o.addContentLength junk (toInt s.length) >>=
        fun o => o.addLinger junk >>= fun o => o.addBlankLine junk >>=
          fun o => cstr o.responseBody >>= fun s => o.addContent junk s)
      (fun c => (c.addHeaders (cut o.responseBody).length).addContent (cut o.responseBody))
      (HttpConn.headerLines o.linger (cut o.responseBody).length ++ cut o.responseBody) := by
  have hblank : ∀ o₁ : HttpOut, o₁.unwritten = o.unwritten →
      Emits o₁ (o₁.addBlankLine junk >>=
          fun o => cstr o.responseBody >>= fun s => o.addContent junk s)
        (fun c => c.addBlankLine.addContent (cut o.responseBody))
        (ascii "\r\n" ++ cut o.responseBody) := by
    intro o₁ h₁
    have hbody := responseBody_of_unwritten h₁
    rw [← hbody] at h0 ⊢
    exact emits_addBlankBody junk o₁ h0
  have hend : ∀ o₁ : HttpOut, o₁.unwritten = o.unwritten →
      Emits o₁ (o₁.addLinger junk >>= fun o => o.addBlankLine junk >>=
          fun o => cstr o.responseBody >>= fun s => o.addContent junk s)
        (fun c => c.addLinger.addBlankLine.addContent (cut o.responseBody))
        (ascii "Connection:" ++ (if o.linger then ascii "keep-alive" else ascii "close") ++
          ascii "\r\n" ++ (ascii "\r\n" ++ cut o.responseBody)) := by
    intro o₁ h₁
    rw [← linger_of_unwritten h₁]
    exact (emits_addLinger junk o₁).bind (fun o₂ h₂ => hblank o₂ (h₂.trans h₁)) rfl fun _ => rfl
  rw [cstr_eq h0, ok_bind, toInt_eq hlen]
  refine (emits_addContentLength junk o _).bind hend ?_ fun c => by rw [HttpConn.addHeaders]
  simp only [HttpConn.headerLines, List.append_assoc]

/-- **The answer of `do_request`** is emitted with the body that is in the block. -/
theorem emits_addJson (h0 : 0 ∈ o.responseBody) (hlen : (cut o.responseBody).length ≤ INT_MAX) :
    Emits o (o.addJson junk) (·.addJson)
      (HttpConn.responseText o.linger o.responseStatus (cut o.responseBody) .jsonResponse) := by
  have hlength : ∀ o₁ : HttpOut, o₁.unwritten = o.unwritten →
      Emits o₁ (cstr o₁.responseBody >>= fun s => o₁.addContentLength junk (toInt s.length) >>=
          fun o => o.addLinger junk >>= fun o => o.addBlankLine junk >>=
            fun o => cstr o.responseBody >>= fun s => o.addContent junk s)
        (fun c => (c.addHeaders (cut o.responseBody).length).addContent (cut o.responseBody))
        (HttpConn.headerLines o.linger (cut o.responseBody).length ++ cut o.responseBody) := by
    intro o₁ h₁
    have hbody := responseBody_of_unwritten h₁
    rw [← hbody] at h0 hlen ⊢
    rw [← linger_of_unwritten h₁]
    exact emits_addLengthBody junk o₁ h0 hlen
  have hend : ∀ o₁ : HttpOut, o₁.unwritten = o.unwritten →
      Emits o₁ (o₁.addResponse junk (ascii "Content-Type: application/json\r\n") [] >>= fun o =>
          cstr o.responseBody >>= fun s => o.addContentLength junk (toInt s.length) >>=
          fun o => o.addLinger junk >>= fun o => o.addBlankLine junk >>=
            fun o => cstr o.responseBody >>= fun s => o.addContent junk s)
        (fun c => ((c.addResponse (ascii "Content-Type: application/json\r\n")).addHeaders
          (cut o.responseBody).length).addContent (cut o.responseBody))
        (ascii "Content-Type: application/json\r\n" ++
          (HttpConn.headerLines o.linger (cut o.responseBody).length ++ cut o.responseBody)) :=
    fun o₁ h₁ => (emits_addType junk o₁).bind (fun o₂ h₂ => hlength o₂ (h₂.trans h₁)) rfl
      fun _ => rfl
  have hjson := (emits_jsonStatus junk o).bind hend rfl fun _ => rfl
  have htext : HttpConn.responseText o.linger o.responseStatus (cut o.responseBody) .jsonResponse =
      (if o.responseStatus = 503 then HttpConn.statusLine 503 (ascii "Service Unavailable")
        else HttpConn.statusLine 200 HttpConn.ok200Title) ++
        (ascii "Content-Type: application/json\r\n" ++
          (HttpConn.headerLines o.linger (cut o.responseBody).length ++ cut o.responseBody)) := by
    simp only [HttpConn.responseText, List.append_assoc]
  rw [htext]
  refine Emits.congr (r := o.addJson junk) hjson fun c => ?_
  have hstatus : (o.onto c).responseStatus = o.responseStatus := rfl
  have hbody : (o.onto c).responseBody = cut o.responseBody := rfl
  rw [HttpConn.addJson, hstatus]
  split <;>
    simp only [HttpConn.addHeaders, HttpConn.addContentLength, HttpConn.addLinger,
      HttpConn.addBlankLine, HttpConn.addStatusLine, HttpConn.responseBody_addResponse, hbody,
      HttpConn.linger_addResponse]

end Pieces

/-! ### Whole responses -/

/-- The codes that are answered from the write buffer alone. -/
def Answered (ret : HttpCode) : Prop :=
  ret = .jsonResponse ∨ ret = .internalError ∨ ret = .noResource ∨ ret = .badRequest ∨
    ret = .forbiddenRequest

/-- `m_response_body` holds a string, in a block of its size. -/
structure Stored (o : HttpOut) (body : Bytes) : Prop where
  size : 0 ≤ o.responseBodySize ∧ o.responseBodySize ≤ INT_MAX
  block : (o.responseBody.length : ℤ) = o.responseBodySize
  terminated : 0 ∈ o.responseBody
  string : cut o.responseBody = body

theorem Stored.of_unwritten {o o' : HttpOut} {body : Bytes} (h : o.Stored body)
    (hrest : o'.unwritten = o.unwritten) : o'.Stored body := by
  have hbody := responseBody_of_unwritten hrest
  have hsize : o'.responseBodySize = o.responseBodySize :=
    show o'.unwritten.responseBodySize = _ by rw [hrest]; rfl
  obtain ⟨h₁, h₂, h₃, h₄⟩ := h
  rw [← hsize] at h₁ h₂
  rw [← hbody] at h₂ h₃ h₄
  exact ⟨h₁, h₂, h₃, h₄⟩

/-- The end of `process_write` on a sound object. -/
theorem onto_pointAtResponse {o : HttpOut} (h : o.Sound) (c : HttpConn) :
    o.pointAtResponse.onto c = (o.onto c).pointAtResponse := by
  have hidx : ((o.onto c).writeIdx : ℤ) = o.writeIdx := h.length_written
  have hlen : (o.onto c).writeIdx = o.writeIdx.toNat := by omega
  rw [HttpConn.pointAtResponse, hidx, hlen]
  rfl

/-- What `process_write` leaves: its text behind what was written, all of it to be sent. -/
structure Pointed (o : HttpOut) (body text : Bytes) (o' : HttpOut) : Prop where
  sound : o'.Sound
  stored : o'.Stored body
  written : o'.written = o.written ++ text
  base : o'.iov0Base = 0
  len : o'.iov0Len = o'.writeIdx
  count : o'.iovCount = 1
  toSend : o'.bytesToSend = o'.writeIdx

/-- The end of `process_write` behind the pieces of a response. -/
theorem Emits.pointed {o : HttpOut} {r : Except Fault HttpOut} {f : HttpConn → HttpConn}
    {body text : Bytes} (h : Emits o r f text) (hs : o.Sound) (hb : o.Stored body)
    (hlt : o.writeIdx + text.length < 2 ^ 30) :
    ∃ o', (do return (true, (← r).pointAtResponse)) = Except.ok (true, o') ∧
      Pointed o body text o' ∧ ∀ c, o'.onto c = (f (o.onto c)).pointAtResponse := by
  obtain ⟨o', rfl, hs', -, htext, hrest, hover⟩ := h hs hlt
  obtain ⟨h₁, h₂, h₃, h₄⟩ := hs'
  obtain ⟨b₁, b₂, b₃, b₄⟩ := hb.of_unwritten hrest
  refine ⟨o'.pointAtResponse, rfl,
    ⟨⟨h₁, h₂, h₃, h₄⟩, ⟨b₁, b₂, b₃, b₄⟩, htext, rfl, rfl, rfl, rfl⟩, fun c => ?_⟩
  rw [onto_pointAtResponse ⟨h₁, h₂, h₃, h₄⟩, hover]

/-- **`process_write` on the blocks** does what it does on the connection. -/
theorem processWrite_refines (junk : ℕ → UInt8) {o : HttpOut} {body : Bytes} {ret : HttpCode}
    (hs : o.Sound) (hb : o.Stored body) (hret : Answered ret)
    (hlt : o.writeIdx + (HttpConn.responseText o.linger o.responseStatus body ret).length <
      2 ^ 30) :
    ∃ o', o.processWrite junk ret = .ok (true, o') ∧
      Pointed o body (HttpConn.responseText o.linger o.responseStatus body ret) o' ∧
      ∀ c, (o.onto c).processWrite ret = (true, o'.onto c) := by
  have hpage : ∀ (status : ℕ) (title form : Bytes), form.length ≤ INT_MAX →
      o.writeIdx + (HttpConn.errorPage o.linger status title form).length < 2 ^ 30 →
      ∃ o', (do return (true, (← o.addErrorPage junk status title form).pointAtResponse)) =
          Except.ok (ε := Fault) (true, o') ∧
        Pointed o body (HttpConn.errorPage o.linger status title form) o' ∧
        ∀ c, (true, ((o.onto c).addErrorPage status title form).pointAtResponse) =
          (true, o'.onto c) := by
    intro status title form hform hlt
    obtain ⟨o', hr, hp, hover⟩ :=
      (emits_addErrorPage junk o status title form hform).pointed hs hb hlt
    exact ⟨o', hr, hp, fun c => by rw [hover c]⟩
  rcases hret with rfl | rfl | rfl | rfl | rfl
  · obtain ⟨h₁, h₂, h0, rfl⟩ := id hb
    have hidx := hs.idx_nonneg
    have hlen : (cut o.responseBody).length ≤ INT_MAX := by
      rw [HttpConn.responseText, List.length_append] at hlt
      unfold INT_MAX
      push_cast at hlt
      omega
    obtain ⟨o', hr, hp, hover⟩ := (emits_addJson junk o h0 hlen).pointed hs hb hlt
    exact ⟨o', hr, hp, fun c => by rw [hover c]; rfl⟩
  · exact hpage 500 _ _ (by decide) hlt
  · exact hpage 404 _ _ (by decide) hlt
  · exact hpage 400 _ _ (by decide) hlt
  · exact hpage 403 _ _ (by decide) hlt

theorem cut_cut_append (body : Bytes) (q : Bytes) : cut (cut body ++ [0] ++ q) = cut body := by
  rw [List.append_assoc]
  have h : CString.strAt (cut body ++ 0 :: q) 0 = CString.strAt (cut body) 0 :=
    CString.strAt_append_zero q (Nat.zero_le _)
  rw [CString.strAt, CString.strAt, List.drop_zero, List.drop_zero] at h
  exact h.trans (CString.cut_of_not_mem (CString.not_mem_cut body))

/-- `strcpy` into a block that is large enough. -/
theorem poke_cstr (mem body : Bytes) (h : body.length < mem.length) :
    ∃ mem', poke mem 0 (cut body ++ [0]) = .ok mem' ∧ mem'.length = mem.length ∧ 0 ∈ mem' ∧
      cut mem' = cut body := by
  have hle : (cut body).length ≤ body.length := (List.takeWhile_prefix _).length_le
  have hlen : (cut body ++ [0]).length = (cut body).length + 1 := by
    rw [List.length_append, List.length_singleton]
  refine ⟨cut body ++ [0] ++ mem.drop (cut body ++ [0]).length, ?_, ?_, ?_, cut_cut_append _ _⟩
  · have := poke_eq mem 0 (cut body ++ [0]) (by omega)
    simpa using this
  · rw [List.length_append, List.length_drop]
    omega
  · simp

/-- **`set_response_body` stores its string**, whatever the size of the block is. -/
theorem setResponseBody_refines (junk : ℕ → UInt8) {o : HttpOut}
    (hsize : 0 ≤ o.responseBodySize ∧ o.responseBodySize ≤ INT_MAX)
    (hblock : (o.responseBody.length : ℤ) = o.responseBodySize) {body : Bytes}
    (hlen : body.length < 2 ^ 30) :
    ∃ mem size, o.setResponseBody junk body =
        .ok { o with responseBody := mem, responseBodySize := size } ∧
      Stored { o with responseBody := mem, responseBodySize := size } (cut body) ∧
      ∀ c, onto { o with responseBody := mem, responseBodySize := size } c =
        (o.onto c).setResponseBody body := by
  obtain ⟨n, hn⟩ := Int.eq_ofNat_of_zero_le hsize.1
  have hmax : (n : ℤ) ≤ INT_MAX := hn ▸ hsize.2
  have hold : (o.responseBodySize % 2 ^ 64).toNat = n := by
    unfold INT_MAX at hmax
    omega
  have hover : ∀ c, (o.onto c).responseBodySize = n := fun c => by
    rw [onto, hn, Int.toNat_natCast]
  rw [setResponseBody]
  simp only [hold]
  by_cases hlt : n < body.length + 1
  -- the block is replaced by a larger one
  · rw [if_pos hlt]
    have hpow : ∀ m : ℕ, 0 < m → body.length + 1 ≤ m * 2 ^ (body.length + 1) := fun m hm =>
      (Nat.lt_two_pow_self).le.trans (Nat.le_mul_of_pos_left _ hm)
    have hstart : 0 < (if n = 0 then initBufferSize else n) ∧
        ((if n = 0 then initBufferSize else n : ℕ) : ℤ) ≤ INT_MAX := by
      split
      · exact ⟨by decide, by decide⟩
      · exact ⟨by omega, hmax⟩
    obtain ⟨hgrow, hroom, hmax'⟩ := growSize_eq (body.length + 1) (by omega)
      (body.length + 1) hstart.1 hstart.2 (hpow _ hstart.1)
    have hover' : ∀ c, (o.onto c).setResponseBody body = { o.onto c with
        responseBody := cut body
        responseBodySize := HttpConn.growBody (body.length + 1) (body.length + 1)
          (if n = 0 then initBufferSize else n) } := fun c => by
      rw [HttpConn.setResponseBody, hover]
      simp only [if_pos hlt]
    rw [hgrow]
    generalize HttpConn.growBody (body.length + 1) (body.length + 1)
      (if n = 0 then initBufferSize else n) = size at *
    obtain ⟨mem, hpoke, hmemLen, h0, hcut⟩ := poke_cstr (newBlock junk size) body
      (by rw [length_newBlock, Int.toNat_natCast]; omega)
    rw [length_newBlock, Int.toNat_natCast] at hmemLen
    rw [toInt_eq hmax', hpoke]
    refine ⟨mem, size, rfl, ⟨⟨Int.natCast_nonneg _, hmax'⟩, congrArg Nat.cast hmemLen, h0, hcut⟩,
      fun c => ?_⟩
    rw [hover' c, ← hcut]
    rfl
  · rw [if_neg hlt]
    obtain ⟨mem, hpoke, hmemLen, h0, hcut⟩ := poke_cstr o.responseBody body
      (by omega)
    rw [hpoke]
    refine ⟨mem, o.responseBodySize, rfl,
      ⟨hsize, (congrArg Nat.cast hmemLen).trans hblock, h0, hcut⟩, fun c => ?_⟩
    rw [HttpConn.setResponseBody, hover]
    simp only [if_neg hlt]
    rw [← hcut, ← hover c]
    rfl

end HttpOut

end Gateway
