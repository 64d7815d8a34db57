/-
Stray line breaks in the head of a request.

`parse_line` tells a line that is not complete yet from one with a stray CR or LF, but the loop of
`process_read` ends in both cases the same way, with `NO_REQUEST`.  A connection with such a line
waits for bytes that cannot help: the next call resumes at the stray byte.

Main definitions:

* `Gateway.HttpConn.Stray`, `Gateway.HttpConn.Malformed` — a stray line break in the line that
  starts here, and before the blank line that ends the headers;
* `Gateway.HttpConn.RefusedFirst` — the request line is complete and is turned down;
* `Gateway.HttpConn.AtLine` — the parser has consumed what was received and stands before a line.

Main results:

* `Gateway.HttpConn.parseLineLoop_line`, `Gateway.HttpConn.parseLineLoop_stray` — `parse_line` on a
  whole line and on a stray line break;
* `Gateway.HttpConn.malformed_cases` — the ends of a malformed head that is not turned down;
* `Gateway.HttpConn.malformed_rejected` — **a malformed head is answered exactly when the request
  line is turned down**.
-/

import InferenceGateway.HttpFragment
import InferenceGateway.HttpRequestLine

set_option relaxedAutoImplicit false
set_option autoImplicit false

namespace Gateway.HttpConn

open CString (cut strAt Terminated)

variable {c c' : HttpConn} {l r s : Bytes}

/-! ### Malformed heads -/

/-- The line that starts here has a stray line break: a CR before some byte other than LF, or a LF
that does not follow a CR. -/
inductive Stray : Bytes → Prop
  | cr (l : Bytes) (b : UInt8) (r : Bytes) : Unbroken l → b ≠ 10 → Stray (l ++ 13 :: b :: r)
  | lf (l r : Bytes) : Unbroken l → Stray (l ++ 10 :: r)

/-- A stray line break among the header lines, before the blank line.  A line is blank for
`parse_headers` when its text is empty as a C string. -/
inductive MalformedHeaders : Bytes → Prop
  | stray {s : Bytes} : Stray s → MalformedHeaders s
  | header (l r : Bytes) : Unbroken l → cut l ≠ [] → MalformedHeaders r →
      MalformedHeaders (l ++ 13 :: 10 :: r)

/-- A stray line break in the request line or among the headers. -/
def Malformed (s : Bytes) : Prop :=
  Stray s ∨ ∃ l r, Unbroken l ∧ s = l ++ 13 :: 10 :: r ∧ MalformedHeaders r

/-- The request line is complete, and it is turned down. -/
def RefusedFirst (s : Bytes) : Prop :=
  ∃ l r, Unbroken l ∧ s = l ++ 13 :: 10 :: r ∧ Refused (cut l)

/-- The outcome is final: the request was read, or turned down. -/
def Settled (r : Except Fault (HttpCode × Request)) : Prop :=
  ∃ ret req, r = .ok (ret, req) ∧ ret ≠ .noRequest

theorem Stray.append (h : Stray s) (q : Bytes) : Stray (s ++ q) := by
  cases h with
  | cr l b r hl hb => simpa using Stray.cr l b (r ++ q) hl hb
  | lf l r hl => simpa using Stray.lf l (r ++ q) hl

theorem MalformedHeaders.append (h : MalformedHeaders s) (q : Bytes) :
    MalformedHeaders (s ++ q) := by
  induction h with
  | stray hs => exact .stray (hs.append q)
  | header l r hl hne _ ih => simpa using MalformedHeaders.header l (r ++ q) hl hne ih

/-! ### `parse_line` -/

/-- Reading a byte of what is left. -/
theorem byteAt_of_drop {i : ℕ} (h : c.readBuf.drop i = s) (j : ℕ) :
    c.byteAt (i + j) = s.getD j 0 := by
  rw [byteAt, List.getD_eq_getElem?_getD, List.getD_eq_getElem?_getD, ← h, List.getElem?_drop]

theorem readIdx_of_drop {i : ℕ} (h : c.readBuf.drop i = s) (hs : s ≠ []) :
    c.readIdx = i + s.length := by
  have hlen := congrArg List.length h
  have hpos := List.length_pos_iff.2 hs
  rw [List.length_drop] at hlen
  rw [readIdx]
  omega

/-- The connection on which `parse_line` has come to `k`. -/
def moved (c : HttpConn) (k : ℕ) : HttpConn := { c with checkedIdx := k }

/-- **`parse_line` passes over a text without line breaks.** -/
theorem parseLineLoop_skip (m : ℕ) (hl : Unbroken l)
    (hs : c.readBuf.drop c.checkedIdx = l ++ r) :
    parseLineLoop (l.length + m) c = parseLineLoop m (c.moved (c.checkedIdx + l.length)) := by
  induction l generalizing c with
  | nil => rw [List.length_nil, Nat.zero_add, Nat.add_zero, moved]
  | cons b l ih =>
      obtain ⟨hb, hl⟩ := List.forall_mem_cons.1 hl
      have hbyte : c.byteAt c.checkedIdx = b := byteAt_of_drop hs 0
      have hrest : c.readBuf.drop (c.checkedIdx + 1) = l ++ r := by
        rw [← List.drop_drop, hs, List.drop_one]
        rfl
      have hnext := ih (c := c.moved (c.checkedIdx + 1)) hl hrest
      have hpos : c.checkedIdx + (l.length + 1) = c.checkedIdx + 1 + l.length := by omega
      rw [List.length_cons, Nat.add_right_comm, parseLineLoop, hpos]
      simp only [hbyte, if_neg hb.1, if_neg hb.2]
      exact hnext

/-- The bytes behind a text. -/
theorem byteAt_behind {i : ℕ} (h : c.readBuf.drop i = l ++ r) (j : ℕ) :
    c.byteAt (i + l.length + j) = r.getD j 0 := by
  refine byteAt_of_drop ?_ j
  rw [← List.drop_drop, h, List.drop_left]

/-- **`parse_line` takes a whole line.** -/
theorem parseLineLoop_line (n : ℕ) (hf : c.Fits) (hn : c.checkedIdx + n = c.readIdx)
    (hl : Unbroken l) (hs : c.readBuf.drop c.checkedIdx = l ++ 13 :: 10 :: r) :
    parseLineLoop n c = .ok (.lineOk, c.ended (c.checkedIdx + l.length)) := by
  have hidx := readIdx_of_drop hs (by simp)
  simp only [List.length_append, List.length_cons] at hidx
  obtain ⟨m, rfl⟩ : ∃ m, n = l.length + (m + 1) := ⟨n - l.length - 1, by omega⟩
  have hcr : (c.moved (c.checkedIdx + l.length)).byteAt (c.checkedIdx + l.length) = 13 :=
    byteAt_behind hs 0
  have hlf : (c.moved (c.checkedIdx + l.length)).byteAt (c.checkedIdx + l.length + 1) = 10 :=
    byteAt_behind hs 1
  have hend : (c.moved (c.checkedIdx + l.length)).endLine (c.checkedIdx + l.length) =
      .ok (c.ended (c.checkedIdx + l.length)) :=
    endLine_eq (c := c.moved (c.checkedIdx + l.length)) hf (by change _ ≤ c.readIdx; omega)
  have hchk : (c.moved (c.checkedIdx + l.length)).checkedIdx = c.checkedIdx + l.length := rfl
  have hne : c.checkedIdx + l.length + 1 ≠ (c.moved (c.checkedIdx + l.length)).readIdx := by
    change _ ≠ c.readIdx
    omega
  rw [parseLineLoop_skip _ hl hs, parseLineLoop]
  simp only [hchk, hcr, hlf, hend, if_true, if_neg hne]
  rfl

/-- **`parse_line` calls a stray line break bad.** -/
theorem parseLineLoop_stray (n : ℕ) (hn : c.checkedIdx + n = c.readIdx)
    (hprev : 1 < c.checkedIdx → c.byteAt (c.checkedIdx - 1) ≠ 13)
    (hs : Stray (c.readBuf.drop c.checkedIdx)) :
    ∃ k, parseLineLoop n c = .ok (.lineBad, c.moved k) := by
  generalize hdrop : c.readBuf.drop c.checkedIdx = s at hs
  cases hs with
  | cr l b r hl hb =>
      have hidx := readIdx_of_drop hdrop (by simp)
      simp only [List.length_append, List.length_cons] at hidx
      obtain ⟨m, rfl⟩ : ∃ m, n = l.length + (m + 1) := ⟨n - l.length - 1, by omega⟩
      have hcr : (c.moved (c.checkedIdx + l.length)).byteAt (c.checkedIdx + l.length) = 13 :=
        byteAt_behind hdrop 0
      have hlf : (c.moved (c.checkedIdx + l.length)).byteAt (c.checkedIdx + l.length + 1) = b :=
        byteAt_behind hdrop 1
      have hchk : (c.moved (c.checkedIdx + l.length)).checkedIdx = c.checkedIdx + l.length := rfl
      have hne : c.checkedIdx + l.length + 1 ≠ (c.moved (c.checkedIdx + l.length)).readIdx := by
        change _ ≠ c.readIdx
        omega
      refine ⟨c.checkedIdx + l.length, ?_⟩
      rw [parseLineLoop_skip _ hl hdrop, parseLineLoop]
      simp only [hchk, hcr, hlf, if_true, if_neg hne, if_neg hb]
  | lf l r hl =>
      have hidx := readIdx_of_drop hdrop (by simp)
      simp only [List.length_append, List.length_cons] at hidx
      obtain ⟨m, rfl⟩ : ∃ m, n = l.length + (m + 1) := ⟨n - l.length - 1, by omega⟩
      have hlf : (c.moved (c.checkedIdx + l.length)).byteAt (c.checkedIdx + l.length) = 10 :=
        byteAt_behind hdrop 0
      have hchk : (c.moved (c.checkedIdx + l.length)).checkedIdx = c.checkedIdx + l.length := rfl
      -- the byte before the LF is in front of the line, or one of its own
      have hcr : ¬ (1 < c.checkedIdx + l.length ∧
          (c.moved (c.checkedIdx + l.length)).byteAt (c.checkedIdx + l.length - 1) = 13) := by
        rintro ⟨hlt, h⟩
        rcases List.eq_nil_or_concat l with rfl | ⟨l, b, rfl⟩
        · exact hprev (by simpa using hlt) h
        · have hb : c.byteAt (c.checkedIdx + l.length) = b := by
            refine byteAt_behind (j := 0) (r := b :: 10 :: r) ?_
            rw [hdrop]
            simp
          rw [List.concat_eq_append, List.length_append, List.length_singleton, ← Nat.add_assoc,
            Nat.add_sub_cancel] at h
          exact (hl b (by simp)).1 (hb.symm.trans h)
      refine ⟨c.checkedIdx + l.length, ?_⟩
      rw [parseLineLoop_skip _ hl hdrop, parseLineLoop]
      simp only [hchk, hlf, if_neg hcr]
      rfl

/-! ### Lines of the head -/

/-- The parser has consumed what was received, and stands before a line. -/
structure AtLine (c : HttpConn) : Prop where
  wellPlaced : c.WellPlaced
  state : c.checkState ≠ .content
  start : c.startLine = c.checkedIdx
  consumed : c.checkedIdx = c.readIdx
  prev : 1 < c.checkedIdx → c.byteAt (c.checkedIdx - 1) ≠ 13

theorem atLine_fresh (size : ℕ) : (fresh size).AtLine where
  wellPlaced := wellPlaced_fresh size
  state := nofun
  start := rfl
  consumed := rfl
  prev := nofun

theorem AtLine.drop (h : c.AtLine) (s : Bytes) :
    (c.append s).readBuf.drop c.checkedIdx = s := by
  rw [h.consumed]
  exact List.drop_left

theorem AtLine.left (h : c.AtLine) (s : Bytes) :
    c.checkedIdx + s.length = (c.append s).readIdx := by
  rw [readIdx_append, h.consumed]

/-- A stray line break ends the run, and asks for more bytes. -/
theorem AtLine.reads_stray (h : c.AtLine) (hs : Stray s) :
    ∃ d, Reads (c.append s) (.ok (.noRequest, d)) := by
  have hleft := h.left s
  have hprev : 1 < c.checkedIdx → (c.append s).byteAt (c.checkedIdx - 1) ≠ 13 := by
    intro hlt
    have := h.consumed
    rw [byteAt_append (by omega)]
    exact h.prev hlt
  obtain ⟨k, hline⟩ := parseLineLoop_stray (c := c.append s) s.length hleft hprev
    (show Stray _ by
      rw [show (c.append s).checkedIdx = c.checkedIdx from rfl, h.drop s]
      exact hs)
  have hparse : (c.append s).parseLine = .ok (.lineBad, (c.append s).moved k) := by
    rw [parseLine, ← hleft]
    change parseLineLoop (c.checkedIdx + s.length - c.checkedIdx) _ = _
    rw [Nat.add_sub_cancel_left]
    exact hline
  exact ⟨_, .stop ((pass_eq_line (c := c.append s) h.state hparse).trans (if_neg (by simp)))⟩

/-- The connection when `parse_line` has ended the line `l`. -/
def lineEnded (c : HttpConn) (l : Bytes) : HttpConn :=
  { c with readBuf := c.readBuf ++ l ++ [0, 0], checkedIdx := c.checkedIdx + l.length + 2 }

theorem lineEnded_str (h : c.AtLine) (l : Bytes) :
    (c.lineEnded l).str c.startLine = cut l := by
  rw [str, lineEnded, h.start, h.consumed]
  have hle : c.readIdx ≤ (c.readBuf ++ l).length := by
    rw [List.length_append]
    exact Nat.le_add_right _ _
  have hz : strAt (c.readBuf ++ l ++ 0 :: [0]) c.readIdx = strAt (c.readBuf ++ l) c.readIdx :=
    CString.strAt_append_zero [0] hle
  refine hz.trans ?_
  rw [strAt]
  congr 1
  exact List.drop_left

theorem ended_eq (h : c.AtLine) (l : Bytes) :
    (c.append (l ++ [13, 10])).ended (c.checkedIdx + l.length) = c.lineEnded l := by
  have hbuf : ((c.readBuf ++ (l ++ [13, 10])).set (c.checkedIdx + l.length) 0).set
      (c.checkedIdx + l.length + 1) 0 = c.readBuf ++ l ++ [0, 0] := by
    rw [h.consumed, readIdx, ← List.append_assoc, ← List.length_append,
      List.set_append_right _ _ (le_refl _), List.set_append_right _ _ (Nat.le_add_right _ _)]
    simp
  simp only [ended, zero, append, lineEnded, hbuf]

/-- **A pass over a whole line** comes to the part of the loop that reads it. -/
theorem AtLine.pass_line (h : c.AtLine) (hl : Unbroken l)
    (hf : (c.append (l ++ [13, 10])).Fits) :
    (c.append (l ++ [13, 10])).pass = (c.lineEnded l).takeLine ∧ (c.lineEnded l).WellPlaced ∧
      Terminated (c.lineEnded l).readBuf c.startLine (c.lineEnded l).checkedIdx := by
  have hleft := h.left (l ++ [13, 10])
  have hlen : (l ++ [13, 10]).length = l.length + 2 := by simp
  have hline := parseLineLoop_line (c := c.append (l ++ [13, 10])) (r := []) _ hf hleft hl
    (h.drop _)
  have hparse : (c.append (l ++ [13, 10])).parseLine = .ok (.lineOk, c.lineEnded l) := by
    rw [parseLine, ← hleft, ← ended_eq h l]
    change parseLineLoop (c.checkedIdx + _ - c.checkedIdx) _ = _
    rw [Nat.add_sub_cancel_left]
    exact hline
  have hended := wellPlaced_ended (i := c.checkedIdx + l.length) (h.wellPlaced.append hf) h.state
    (by change c.checkedIdx ≤ _; omega) (by rw [← hleft, hlen]; omega)
  rw [ended_eq h l] at hended
  exact ⟨(pass_eq_line (c := c.append _) h.state hparse).trans (if_pos rfl), hended⟩

/-- What is left behind a line that was read is ready for the next one. -/
theorem atLine_of_taken (h : c.AtLine) (hw : c'.WellPlaced) (hs : c'.checkState ≠ .content)
    (hstart : c'.startLine = (c.lineEnded l).checkedIdx)
    (hchk : c'.checkedIdx = (c.lineEnded l).checkedIdx)
    (hidx : c'.readIdx = (c.lineEnded l).readIdx)
    (hz : Terminated c'.readBuf (c'.checkedIdx - 1) c'.checkedIdx) : c'.AtLine where
  wellPlaced := hw
  state := hs
  start := hstart.trans hchk.symm
  consumed := by
    rw [hchk, hidx, readIdx, lineEnded, h.consumed]
    simp [readIdx]
    omega
  prev := by
    obtain ⟨j, hj, hlt, hzero⟩ := hz
    obtain rfl : j = c'.checkedIdx - 1 := by omega
    intro _
    rw [byteAt, List.getD_eq_getElem?_getD, hzero]
    decide

theorem terminated_lineEnded (h : c.AtLine) (l : Bytes) :
    Terminated (c.lineEnded l).readBuf ((c.lineEnded l).checkedIdx - 1)
      (c.lineEnded l).checkedIdx := by
  refine ⟨c.checkedIdx + l.length + 1, le_refl _, Nat.lt_succ_self _, ?_⟩
  change (c.readBuf ++ l ++ [0, 0])[c.checkedIdx + l.length + 1]? = some 0
  rw [h.consumed, readIdx, ← List.length_append,
    List.getElem?_append_right (Nat.le_add_right _ _), Nat.add_sub_cancel_left]
  rfl

/-! ### Headers -/

/-- A header line that is not blank leaves the parser among the headers. -/
theorem parseHeaders_nonblank {text : ℕ} (hline : c.str text ≠ []) :
    (c.parseHeaders text).1 = .noRequest ∧
      (c.parseHeaders text).2.checkState = c.checkState := by
  simp only [parseHeaders, if_neg hline]
  repeat' split
  all_goals exact ⟨rfl, rfl⟩

/-- **A header line that is not blank is read**, and the parser stands before the next. -/
theorem AtLine.reads_header (h : c.AtLine) (hs : c.checkState = .header) (hl : Unbroken l)
    (hne : cut l ≠ []) (hf : (c.append (l ++ [13, 10])).Fits) :
    ∃ c', (c.append (l ++ [13, 10])).pass = .ok (.again, c') ∧ c'.AtLine ∧
      c'.checkState = .header := by
  obtain ⟨hpass, hw, -⟩ := h.pass_line hl hf
  have hstr : (c.lineEnded l).nextLine.str c.startLine ≠ [] := by
    rw [← lineEnded_str h l] at hne
    exact hne
  have hkeep := parseHeaders_nonblank hstr
  cases hread : (c.lineEnded l).nextLine.parseHeaders c.startLine with
  | mk ret c' =>
      rw [hread] at hkeep
      obtain ⟨rfl, hstate⟩ := hkeep
      have hspec := parseHeaders_spec hread
      have hstate' : c'.checkState = .header := hstate.trans hs
      have hstate₀ : (c.lineEnded l).checkState ≠ .requestLine := by
        rw [show (c.lineEnded l).checkState = .header from hs]
        nofun
      have htake : (c.lineEnded l).takeLine = .ok (.again, c') := by
        rw [takeLine, if_neg hstate₀, show (c.lineEnded l).startLine = c.startLine from rfl, hread]
        rfl
      rw [htake] at hpass
      have hw := h.wellPlaced.append hf
      obtain ⟨hk, -⟩ := pass_again hw (fits_nil hw) hpass
      refine ⟨c', hpass, atLine_of_taken h hk.wellPlaced ?_ hspec.startLine hspec.checkedIdx ?_ ?_,
        hstate'⟩
      · rw [hstate']
        nofun
      · rw [readIdx, hspec.readBuf]
        rfl
      · rw [hspec.readBuf, hspec.checkedIdx]
        exact terminated_lineEnded h l

/-- **Headers with a stray line break are read for ever.** -/
theorem AtLine.reads_headers (h : c.AtLine) (hs : c.checkState = .header)
    (hm : MalformedHeaders s) (hf : (c.append s).Fits) :
    ∃ d, Reads (c.append s) (.ok (.noRequest, d)) := by
  induction hm generalizing c with
  | stray hstray => exact h.reads_stray hstray
  | header l r hl hne _ ih =>
      have hsplit : c.append (l ++ 13 :: 10 :: r) = (c.append (l ++ [13, 10])).append r := by
        rw [append_append]
        simp
      rw [hsplit] at hf ⊢
      have hfl := hf.of_append
      have hwl := h.wellPlaced.append hfl
      obtain ⟨c', hpass, h', hs'⟩ := h.reads_header hs hl hne hfl
      obtain ⟨hk, -, hpass'⟩ := pass_again hwl hf hpass
      obtain ⟨d, hd⟩ := ih h' hs' (hk.fits hf)
      exact ⟨d, .again hpass' hd⟩

/-! ### The request line -/

theorem takeLine_request {ret : HttpCode} (hs : c.checkState = .requestLine)
    (hr : c.nextLine.parseRequestLine c.startLine = .ok (ret, c')) :
    c.takeLine = .ok (if ret = .noRequest then .again else .stop ret, c') := by
  rw [takeLine, if_pos hs, hr]
  rfl

/-- A request line that is turned down ends the run. -/
theorem AtLine.reads_refused (h : c.AtLine) (hs : c.checkState = .requestLine) (hl : Unbroken l)
    (hf : (c.append (l ++ [13, 10])).Fits) (hrefused : Refused (cut l)) :
    ∃ d, (c.append (l ++ [13, 10])).pass = .ok (.stop .badRequest, d) := by
  obtain ⟨hpass, hw, hz⟩ := h.pass_line hl hf
  have hfd : (c.lineEnded l).nextLine.Fits := hw.fits
  have hstr : (c.lineEnded l).nextLine.str c.startLine = cut l := lineEnded_str h l
  obtain ⟨d, hres⟩ := parseRequestLine_refused hfd hz (hstr.symm ▸ hrefused)
  exact ⟨d, hpass.trans (takeLine_request (c := c.lineEnded l) hs hres)⟩

/-- **A request line that is not turned down** has a null pointer for its target, or leaves the
parser before the headers. -/
theorem AtLine.reads_first (h : c.AtLine) (hs : c.checkState = .requestLine) (hl : Unbroken l)
    (hf : (c.append (l ++ [13, 10])).Fits) (hnot : ¬ Refused (cut l)) :
    (c.append (l ++ [13, 10])).pass = .error .nullPointer ∨
      ∃ c', (c.append (l ++ [13, 10])).pass = .ok (.again, c') ∧ c'.AtLine ∧
        c'.checkState = .header := by
  obtain ⟨hpass, hw, hz⟩ := h.pass_line hl hf
  have hfd : (c.lineEnded l).nextLine.Fits := hw.fits
  have hs' : (c.lineEnded l).checkState = .requestLine := hs
  have hstr : (c.lineEnded l).nextLine.str c.startLine = cut l := lineEnded_str h l
  obtain ⟨method, target, pos, hline, ht⟩ : ∃ method target pos,
      RequestLine (cut l) method target pos ∧ (NoPath target ∨ ∃ path, Target target path) := by
    by_contra hnone
    refine hnot fun method target pos hline => ⟨fun hno => ?_, fun path ht => ?_⟩
    · exact hnone ⟨method, target, pos, hline, .inl hno⟩
    · exact hnone ⟨method, target, pos, hline, .inr ⟨path, ht⟩⟩
  rw [← hstr] at hline
  rcases ht with hno | ⟨path, ht⟩
  · have hnull := parseRequestLine_noPath hfd hz hline hno
    refine .inl (hpass.trans ?_)
    rw [takeLine, if_pos hs', show (c.lineEnded l).startLine = c.startLine from rfl, hnull]
    rfl
  · obtain ⟨c', hres, -, hstate, -⟩ := parseRequestLine_path hfd hz hline ht
    have hnil : ((c.lineEnded l).nextLine.append []).Fits := by
      rw [append_nil]
      exact hfd
    have hfollows := parseRequestLine_follows (c := (c.lineEnded l).nextLine) (q := [])
      hnil hw.checked_le hz
    rw [hres] at hfollows
    generalize ((c.lineEnded l).nextLine.append []).parseRequestLine c.startLine = r at hfollows
    cases hfollows with
    | ok _ _ hkept _ _ _ =>
        have hagain := hpass.trans (takeLine_request hs' hres)
        obtain ⟨hk, -⟩ := pass_again (h.wellPlaced.append hf)
          (fits_nil (h.wellPlaced.append hf)) hagain
        refine .inr ⟨c', hagain, atLine_of_taken h hk.wellPlaced ?_ hkept.startLine
          hkept.checkedIdx hkept.readIdx ?_, hstate⟩
        · rw [hstate]
          nofun
        · rw [hkept.checkedIdx]
          exact hkept.zeros (terminated_lineEnded h l)

/-! ### Main result -/

theorem append_line (c : HttpConn) (l r : Bytes) :
    c.append (l ++ 13 :: 10 :: r) = (c.append (l ++ [13, 10])).append r := by
  rw [append_append]
  simp

/-- **A request line that is turned down** is turned down whatever follows. -/
theorem reads_refused {size : ℕ} (hfit : s.length ≤ size) (h : RefusedFirst s) :
    ∃ d, Reads ((fresh size).append s) (.ok (.badRequest, d)) := by
  obtain ⟨l, r, hl, rfl, hrefused⟩ := h
  have hf := fits_fresh_append hfit
  rw [append_line] at hf ⊢
  obtain ⟨d, hpass⟩ := (atLine_fresh size).reads_refused rfl hl hf.of_append hrefused
  have hw := (wellPlaced_fresh size).append hf.of_append
  obtain ⟨-, d', hd', -⟩ := (Reads.stop hpass).extend hw hf rfl nofun
  exact ⟨d', hd'⟩

/-- **A malformed head that is not turned down** is a null pointer or asks for more bytes, and bytes
that arrive later do not change it. -/
theorem malformed_cases (size : ℕ) (h : Malformed s) (hnot : ¬ RefusedFirst s) :
    (∀ q, (s ++ q).length ≤ size →
        Reads ((fresh size).append (s ++ q)) (.error .nullPointer)) ∨
      ∀ q, (s ++ q).length ≤ size →
        ∃ d, Reads ((fresh size).append (s ++ q)) (.ok (.noRequest, d)) := by
  have hline := atLine_fresh size
  rcases h with hstray | ⟨l, r, hl, rfl, hm⟩
  · exact .inr fun q _ => hline.reads_stray (hstray.append q)
  · have hnot' : ¬ Refused (cut l) := fun hrefused => hnot ⟨l, r, hl, rfl, hrefused⟩
    -- the first line ends in the same way with all that follows it
    by_cases hfit : (l ++ [13, 10]).length ≤ size
    · have hfl := fits_fresh_append hfit
      have hwl := (wellPlaced_fresh size).append hfl
      have hall : ∀ q, ((l ++ 13 :: 10 :: r) ++ q).length ≤ size →
          (((fresh size).append (l ++ [13, 10])).append (r ++ q)).Fits := by
        intro q hq
        rw [← append_line, ← List.cons_append, ← List.cons_append, ← List.append_assoc]
        exact fits_fresh_append hq
      have hsplit : ∀ q, (fresh size).append ((l ++ 13 :: 10 :: r) ++ q) =
          ((fresh size).append (l ++ [13, 10])).append (r ++ q) := by
        intro q
        rw [← append_line]
        simp
      rcases hline.reads_first rfl hl hfl hnot' with hnull | ⟨c', hagain, h', hs'⟩
      · refine .inl fun q hq => ?_
        rw [hsplit]
        exact .fault (pass_fault hwl (hall q hq) hnull)
      · refine .inr fun q hq => ?_
        rw [hsplit]
        obtain ⟨hk, -, hagain'⟩ := pass_again hwl (hall q hq) hagain
        obtain ⟨d, hd⟩ := h'.reads_headers hs' (hm.append q) (hk.fits (hall q hq))
        exact ⟨d, .again hagain' hd⟩
    · refine .inl fun q hq => absurd hq fun hle => hfit ?_
      simp only [List.length_append, List.length_cons] at hle ⊢
      simp only [List.length_nil]
      omega

/-- The chunks lead to the end of the run on all their bytes. -/
theorem outcome_feed_of_reads {size : ℕ} {chunks : List Bytes}
    {res : Except Fault (HttpCode × HttpConn)} (hfit : chunks.flatten.length ≤ size)
    (h : Reads ((fresh size).append chunks.flatten) res) :
    outcome (feed (fresh size) chunks) = outcome res := by
  have hf := fits_fresh_append hfit
  rw [outcome_feed chunks (wellPlaced_fresh size) hf (fresh_idle size),
    (reads_processRead ((wellPlaced_fresh size).append hf)).unique h]

/-- A request whose second line ends in a LF alone. -/
def bareLf : Bytes := ascii "GET / HTTP/1.1\r\nHost: a\n\r\n"

theorem malformed_bareLf : Malformed bareLf :=
  .inr ⟨ascii "GET / HTTP/1.1", ascii "Host: a\n\r\n", by decide, rfl,
    .stray (.lf (ascii "Host: a") (ascii "\r\n") (by decide))⟩

theorem bareLf_waits : outcome (feed (fresh 100) [bareLf]) = .ok (.noRequest,
    { method := .get, url := some (ascii "/"), linger := false, contentLength := 0,
      body := none }) := by decide

/-- **A malformed head that is not answered**: a header line that ends in a LF alone. -/
theorem malformed_unanswered : ¬ ∀ (size : ℕ) (chunks : List Bytes),
    chunks.flatten.length ≤ size → Malformed chunks.flatten →
      Settled (outcome (feed (fresh size) chunks)) := by
  intro hall
  obtain ⟨ret, req, hres, hret⟩ := hall 100 [bareLf] (by decide) malformed_bareLf
  rw [bareLf_waits] at hres
  cases hres
  exact hret rfl

/-- **A malformed head is answered exactly when its request line is turned down.**  Then the code is
`BAD_REQUEST`.  Every other stream with a stray line break before the blank line, however it is cut
into chunks, has a target that is a null pointer, or leaves the connection waiting, and no further
bytes end the wait. -/
theorem malformed_rejected {size : ℕ} {chunks : List Bytes}
    (hfit : chunks.flatten.length ≤ size) (hm : Malformed chunks.flatten) :
    (Settled (outcome (feed (fresh size) chunks)) ↔ RefusedFirst chunks.flatten) ∧
      (RefusedFirst chunks.flatten →
        ∃ req, outcome (feed (fresh size) chunks) = .ok (.badRequest, req)) ∧
      (¬ RefusedFirst chunks.flatten →
        outcome (feed (fresh size) chunks) = .error .nullPointer ∨
          ∀ more : List Bytes, (chunks ++ more).flatten.length ≤ size →
            ∃ req, outcome (feed (fresh size) (chunks ++ more)) = .ok (.noRequest, req)) := by
  have hbad : RefusedFirst chunks.flatten →
      ∃ req, outcome (feed (fresh size) chunks) = .ok (.badRequest, req) := by
    intro hrefused
    obtain ⟨d, hd⟩ := reads_refused hfit hrefused
    exact ⟨_, outcome_feed_of_reads hfit hd⟩
  have hwait : ¬ RefusedFirst chunks.flatten →
      outcome (feed (fresh size) chunks) = .error .nullPointer ∨
        ∀ more : List Bytes, (chunks ++ more).flatten.length ≤ size →
          ∃ req, outcome (feed (fresh size) (chunks ++ more)) = .ok (.noRequest, req) := by
    intro hnot
    rcases malformed_cases size hm hnot with hnull | hmore
    · have hnil := hnull [] (by rwa [List.append_nil])
      rw [List.append_nil] at hnil
      exact .inl (outcome_feed_of_reads hfit hnil)
    · refine .inr fun more hfit' => ?_
      have hflat : (chunks ++ more).flatten = chunks.flatten ++ more.flatten := List.flatten_append
      obtain ⟨d, hd⟩ := hmore more.flatten (hflat ▸ hfit')
      rw [← hflat] at hd
      exact ⟨_, outcome_feed_of_reads hfit' hd⟩
  refine ⟨⟨?_, ?_⟩, hbad, hwait⟩
  · rintro ⟨ret, req, hres, hret⟩
    by_contra hnot
    rcases hwait hnot with hnull | hmore
    · rw [hres] at hnull
      cases hnull
    · obtain ⟨req', hres'⟩ := hmore [] (by rwa [List.append_nil])
      rw [List.append_nil, hres] at hres'
      cases hres'
      exact hret rfl
  · intro hrefused
    obtain ⟨req, hres⟩ := hbad hrefused
    exact ⟨_, req, hres, nofun⟩

/-- Two more blank lines do not end the wait of that request. -/
theorem malformed_rejected_bareLf :
    ∃ req, outcome (feed (fresh 100) [bareLf, ascii "\r\n\r\n"]) = .ok (.noRequest, req) := by
  have hfit : ([bareLf] : List Bytes).flatten.length ≤ 100 := by decide
  obtain ⟨hiff, -, hwait⟩ := malformed_rejected hfit malformed_bareLf
  have hnot : ¬ RefusedFirst bareLf := by
    intro hrefused
    obtain ⟨ret, req, hres, hret⟩ := hiff.2 hrefused
    rw [bareLf_waits] at hres
    cases hres
    exact hret rfl
  rcases hwait hnot with hnull | hmore
  · rw [bareLf_waits] at hnull
    cases hnull
  · exact hmore [ascii "\r\n\r\n"] (by decide)

end Gateway.HttpConn
