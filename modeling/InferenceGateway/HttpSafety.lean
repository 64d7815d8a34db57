/-
The stores of the parser into the read buffer.

The two zeros that end a line, and the zeros that `parse_request_line` writes, are always inside the
received bytes.  The terminator of a body is not: its position is the start of the body plus a
number that the client has sent.  This module reads start and number off the stream and says for
which of them all stores stay inside.

Main definitions:

* `Gateway.HttpConn.Head` — a request line, header lines and a blank line;
* `Gateway.HttpConn.BodyFits` — the condition on the start of a body and its length.

Main results:

* `Gateway.HttpConn.line_cases` — a text begins with a line, has a stray line break, or is not
  complete;
* `Gateway.HttpConn.pass_safe_iff` — one pass, `Gateway.HttpConn.Heading.safe_iff` — the headers;
* `Gateway.HttpConn.read_buffer_safety` — **every stream in every chunking.**
-/

import InferenceGateway.HttpGrammar

set_option relaxedAutoImplicit false
set_option autoImplicit false

namespace Gateway.HttpConn

open CString (cut LONG_MAX LONG_MIN)

variable {c c' : HttpConn} {l r s : Bytes}

/-! ### The head of a request -/

/-- `parse_request_line` goes on to the headers. -/
def Taken (line : Bytes) : Prop :=
  ∃ method target pos path, RequestLine line method target pos ∧ Target target path

/-- The head of a request: a request line that is taken, header lines, and a line that is blank for
`parse_headers`, which reads all of them as C strings. -/
structure Head where
  line : Bytes
  headers : List Bytes
  blank : Bytes
  lineUnbroken : Unbroken line
  taken : Taken (cut line)
  headerLines : ∀ l ∈ headers, Unbroken l ∧ cut l ≠ []
  blankUnbroken : Unbroken blank
  blankEmpty : cut blank = []

/-- Header lines and the blank line behind them. -/
def headersText (headers : List Bytes) (blank : Bytes) : Bytes :=
  linesText headers ++ (blank ++ [13, 10])

/-- The bytes of a head. -/
def Head.text (h : Head) : Bytes := h.line ++ [13, 10] ++ headersText h.headers h.blank

/-- The length that the headers give to the body: the last `Content-Length`, or zero. -/
def Head.contentLength (h : Head) : ℤ := lengthIn (h.headers.map cut)

/-- A body of length `v` behind `start` bytes, where `total` bytes fill a buffer of length `size` as
far as they do: it does not begin before the buffer, its end is a `long`, and it is not a body that
ends where the buffer ends and is complete. -/
def BodyFits (size total start : ℕ) (v : ℤ) : Prop :=
  -(start : ℤ) ≤ v ∧ v ≤ LONG_MAX - start ∧ ¬ (v = size - start ∧ total = size)

instance (size total start : ℕ) (v : ℤ) : Decidable (BodyFits size total start v) :=
  inferInstanceAs (Decidable (_ ∧ _ ∧ _))

/-! ### Lines of a text -/

/-- A byte that does not break a line. -/
def unbreaking (b : UInt8) : Bool := b ≠ 13 && b ≠ 10

theorem unbreaking_of_unbroken (hl : Unbroken l) : ∀ b ∈ l, unbreaking b = true := by
  intro b hb
  obtain ⟨hcr, hlf⟩ := hl b hb
  simp [unbreaking, hcr, hlf]

/-- What is left behind the first line, with the byte that ends it. -/
theorem dropWhile_line (hl : Unbroken l) (hr : ∀ b ∈ r.head?, unbreaking b = false) :
    (l ++ r).dropWhile unbreaking = r := by
  rw [List.dropWhile_append_of_pos (unbreaking_of_unbroken hl)]
  cases r with
  | nil => rfl
  | cons b r => exact List.dropWhile_cons_of_neg (by simp [hr b rfl])

/-- A text begins with a whole line. -/
def Whole (s : Bytes) : Prop := ∃ l r, Unbroken l ∧ s = l ++ 13 :: 10 :: r

theorem Unbroken.cons {b : UInt8} (hb : b ≠ 13 ∧ b ≠ 10) (hl : Unbroken l) : Unbroken (b :: l) :=
  List.forall_mem_cons.2 ⟨hb, hl⟩

theorem unbroken_nil : Unbroken [] := List.forall_mem_nil _

/-- **A text begins with a line, has a stray line break before its first line ends, or is not
complete.** -/
theorem line_cases (s : Bytes) :
    Whole s ∨ Stray s ∨ ∃ l, Unbroken l ∧ (s = l ∨ s = l ++ [13]) := by
  induction s with
  | nil => exact .inr (.inr ⟨[], unbroken_nil, .inl rfl⟩)
  | cons b s ih =>
      by_cases hcr : b = 13
      · subst hcr
        cases s with
        | nil => exact .inr (.inr ⟨[], unbroken_nil, .inr rfl⟩)
        | cons b' s =>
            by_cases hlf : b' = 10
            · subst hlf
              exact .inl ⟨[], s, unbroken_nil, rfl⟩
            · exact .inr (.inl (.cr [] b' s unbroken_nil hlf))
      · by_cases hlf : b = 10
        · subst hlf
          exact .inr (.inl (.lf [] s unbroken_nil))
        -- the byte belongs to the first line, whatever becomes of that
        · have hb := And.intro hcr hlf
          rcases ih with ⟨l, r, hl, rfl⟩ | hstray | ⟨l, hl, hs⟩
          · exact .inl ⟨b :: l, r, hl.cons hb, rfl⟩
          · cases hstray with
            | cr l b' r hl hb' => exact .inr (.inl (.cr (b :: l) b' r (hl.cons hb) hb'))
            | lf l r hl => exact .inr (.inl (.lf (b :: l) r (hl.cons hb)))
          · refine .inr (.inr ⟨b :: l, hl.cons hb, ?_⟩)
            rcases hs with rfl | rfl
            · exact .inl rfl
            · exact .inr rfl

/-- The first line of a text is one. -/
theorem line_unique {l' r' : Bytes} (hl : Unbroken l) (hl' : Unbroken l')
    (h : l ++ 13 :: 10 :: r = l' ++ 13 :: 10 :: r') : l = l' ∧ r = r' := by
  have hrest := dropWhile_line (r := 13 :: 10 :: r) hl (by simp [unbreaking])
  rw [h, dropWhile_line hl' (by simp [unbreaking])] at hrest
  obtain rfl : r' = r := (List.cons.inj (List.cons.inj hrest).2).2
  exact ⟨List.append_cancel_right h, rfl⟩

/-! ### Passes -/

/-- The run does not store outside the read buffer, and does not overflow. -/
def Safe {α : Type*} (r : Except Fault α) : Prop := ∀ f, r = .error f → f = .nullPointer

theorem safe_ok {α : Type*} (a : α) : Safe (.ok a) := nofun

theorem safe_null {α : Type*} : Safe (.error .nullPointer : Except Fault α) := by
  intro f hf
  cases hf
  rfl

theorem not_safe {α : Type*} {f : Fault} (h : f ≠ .nullPointer) :
    ¬ Safe (.error f : Except Fault α) :=
  fun hs => h (hs f rfl)

/-- **A pass over a body is safe exactly when the body fits.** -/
theorem pass_safe_iff (h : c.WellPlaced) (hs : c.checkState = .content) :
    Safe c.pass ↔ BodyFits c.readBufSize c.readIdx c.checkedIdx c.contentLength := by
  have hf := h.fits
  unfold Fits at hf
  have hmin : LONG_MIN < 0 := by decide
  -- the zero behind the body is the one store that nothing checks
  rw [pass_content h hs, BodyFits]
  split
  · next hover =>
      refine iff_of_false (not_safe nofun) ?_
      rintro ⟨h₁, h₂, -⟩
      omega
  · next hover =>
      split
      · next hdone =>
          unfold store
          split
          · next hrange =>
              refine iff_of_true (safe_ok _) ?_
              omega
          · next hrange =>
              refine iff_of_false (not_safe nofun) ?_
              rintro ⟨h₁, -, h₃⟩
              omega
      · next hdone =>
          refine iff_of_true (safe_ok _) ?_
          omega

/-- A run that starts at a body is one pass. -/
theorem reads_safe_iff {res : Except Fault (HttpCode × HttpConn)} (h : c.WellPlaced)
    (hs : c.checkState = .content) (hr : Reads c res) :
    Safe res ↔ BodyFits c.readBufSize c.readIdx c.checkedIdx c.contentLength := by
  rw [← pass_safe_iff h hs]
  cases hr with
  | fault hp =>
      rw [hp]
      constructor
      · intro hsafe f hf
        cases hf
        exact hsafe _ rfl
      · intro hsafe f hf
        cases hf
        exact hsafe _ rfl
  | stop hp =>
      rw [hp]
      exact iff_of_true (safe_ok _) (safe_ok _)
  | again hp _ =>
      have hcont := pass_content_append h (fits_nil h) hs
      rw [hp] at hcont
      cases hcont

/-- What is left of a run after a pass that goes on. -/
theorem Reads.tail {res : Except Fault (HttpCode × HttpConn)} (hr : Reads c res)
    (hp : c.pass = .ok (.again, c')) : Reads c' res := by
  cases hr with
  | fault hp' =>
      rw [hp] at hp'
      cases hp'
  | stop hp' =>
      rw [hp] at hp'
      cases hp'
  | again hp' hr' =>
      rw [hp] at hp'
      cases hp'
      exact hr'

/-! ### The headers -/

/-- A text without a whole line asks for more bytes. -/
theorem AtLine.reads_part (h : c.AtLine) (hs : ¬ Whole s) :
    ∃ d, Reads (c.append s) (.ok (.noRequest, d)) := by
  rcases line_cases s with hwhole | hstray | ⟨l, hl, hopen⟩
  · exact absurd hwhole hs
  · exact h.reads_stray hstray
  · have hleft := h.left s
    have hdrop : (c.append s).readBuf.drop (c.append s).checkedIdx = s := h.drop s
    have hparse : (c.append s).parseLine =
        .ok (.lineOpen, (c.append s).moved (c.checkedIdx + l.length)) := by
      rw [parseLine, ← hleft]
      change parseLineLoop (c.checkedIdx + s.length - c.checkedIdx) _ = _
      rw [Nat.add_sub_cancel_left]
      rcases hopen with rfl | rfl
      · exact parseLineLoop_skip (r := []) 0 hl (by rw [List.append_nil]; exact hdrop)
      · rw [List.length_append]
        refine (parseLineLoop_skip (r := [13]) 1 hl hdrop).trans ?_
        have hcr : ((c.append (l ++ [13])).moved (c.checkedIdx + l.length)).byteAt
            (c.checkedIdx + l.length) = 13 := byteAt_behind hdrop 0
        have hend : c.checkedIdx + l.length + 1 =
            ((c.append (l ++ [13])).moved (c.checkedIdx + l.length)).readIdx := by
          change _ = (c.append (l ++ [13])).readIdx
          rw [← hleft, List.length_append]
          rfl
        rw [parseLineLoop]
        exact (if_pos hcr).trans (if_pos hend)
    exact ⟨_, .stop ((pass_eq_line (c := c.append s) h.state hparse).trans (if_neg (by simp)))⟩

/-- The parser has read these header lines and stands before the next line. -/
structure Heading (headers : List Bytes) (c : HttpConn) : Prop where
  atLine : c.AtLine
  state : c.checkState = .header
  linger : c.linger = keepsAlive (headers.map cut)
  length : c.contentLength = lengthIn (headers.map cut)

variable {headers : List Bytes}

/-- **One header line.** -/
theorem Heading.header (h : Heading headers c) (hl : Unbroken l) (hne : cut l ≠ [])
    (hf : (c.append (l ++ [13, 10])).Fits) :
    ∃ c', (c.append (l ++ [13, 10])).pass = .ok (.again, c') ∧ Heading (headers ++ [l]) c' := by
  have hstr : (c.lineEnded l).nextLine.str c.startLine = cut l := lineEnded_str h.atLine l
  obtain ⟨c', hagain, hat, hstate⟩ := h.atLine.reads_header h.state hl hne hf
  have hpass := pass_header h.atLine h.state hl hf rfl
  rw [hagain] at hpass
  obtain ⟨-, rfl⟩ := Prod.mk.inj (Except.ok.inj hpass)
  obtain ⟨hlinger, hlength, -⟩ := parseHeaders_header (c := (c.lineEnded l).nextLine)
    c.startLine (headers.map cut) (by rwa [hstr]) h.linger h.length
  rw [hstr] at hlinger hlength
  refine ⟨_, hagain, hat, hstate, ?_, ?_⟩
  · rw [List.map_append]
    exact hlinger
  · rw [List.map_append]
    exact hlength

/-- What is promised of the bytes behind some header lines: a body, if there is one, fits. -/
def RestFits (headers : List Bytes) (size total start : ℕ) (s : Bytes) : Prop :=
  ∀ (more : List Bytes) (blank rest : Bytes), (∀ l ∈ more, Unbroken l ∧ cut l ≠ []) →
    Unbroken blank → cut blank = [] → s = headersText more blank ++ rest →
    lengthIn ((headers ++ more).map cut) ≠ 0 →
      BodyFits size total (start + (headersText more blank).length)
        (lengthIn ((headers ++ more).map cut))

theorem headersText_nil (blank rest : Bytes) :
    headersText [] blank ++ rest = blank ++ 13 :: 10 :: rest := by
  simp [headersText, linesText]

theorem headersText_cons (l : Bytes) (ls : List Bytes) (blank rest : Bytes) :
    headersText (l :: ls) blank ++ rest = l ++ 13 :: 10 :: (headersText ls blank ++ rest) := by
  simp [headersText, linesText]

theorem restFits_of_part {size total start : ℕ} (hs : ¬ Whole s) :
    RestFits headers size total start s := by
  intro more blank rest hmore hblank _ heq
  refine absurd ?_ hs
  cases more with
  | nil => exact ⟨blank, rest, hblank, heq.trans (headersText_nil _ _)⟩
  | cons l ls =>
      exact ⟨l, _, (hmore l List.mem_cons_self).1, heq.trans (headersText_cons _ _ _ _)⟩

/-- Behind a header line the promise is about one header more. -/
theorem restFits_header {size total start : ℕ} (hl : Unbroken l) (hne : cut l ≠ []) :
    RestFits headers size total start (l ++ 13 :: 10 :: r) ↔
      RestFits (headers ++ [l]) size total (start + (l.length + 2)) r := by
  have hlen : ∀ ls blank, (headersText (l :: ls) blank).length =
      l.length + 2 + (headersText ls blank).length := by
    intro ls blank
    simp only [headersText, linesText, List.map_cons, List.flatten_cons, List.length_append,
      List.length_cons, List.length_nil]
    omega
  constructor
  · intro h more blank rest hmore hblank hempty heq hv
    have hmore' : ∀ x ∈ l :: more, Unbroken x ∧ cut x ≠ [] :=
      List.forall_mem_cons.2 ⟨⟨hl, hne⟩, hmore⟩
    rw [List.append_assoc] at hv ⊢
    have := h (l :: more) blank rest hmore' hblank hempty
      (by rw [headersText_cons, heq]) hv
    rwa [hlen, ← Nat.add_assoc] at this
  · intro h more blank rest hmore hblank hempty heq hv
    cases more with
    | nil =>
        rw [headersText_nil] at heq
        exact absurd ((line_unique hl hblank heq).1 ▸ hempty) hne
    | cons l' ls =>
        rw [headersText_cons] at heq
        obtain ⟨hl', hls⟩ := List.forall_mem_cons.1 hmore
        obtain ⟨rfl, rfl⟩ := line_unique hl hl'.1 heq
        have := h ls blank rest hls hblank hempty rfl (by rwa [List.append_assoc])
        rwa [List.append_assoc, Nat.add_assoc, ← hlen] at this

/-- Behind the blank line there is the body. -/
theorem restFits_blank {size total start : ℕ} (hl : Unbroken l) (hempty : cut l = []) :
    RestFits headers size total start (l ++ 13 :: 10 :: r) ↔
      (lengthIn (headers.map cut) ≠ 0 →
        BodyFits size total (start + (l.length + 2)) (lengthIn (headers.map cut))) := by
  have hlen : (headersText [] l).length = l.length + 2 := by simp [headersText, linesText]
  constructor
  · intro h hv
    have := h [] l r (List.forall_mem_nil _) hl hempty (headersText_nil _ _).symm
    rw [List.append_nil, hlen] at this
    exact this hv
  · intro h more blank rest hmore hblank _ heq hv
    cases more with
    | nil =>
        rw [headersText_nil] at heq
        obtain ⟨rfl, rfl⟩ := line_unique hl hblank heq
        rw [List.append_nil] at hv ⊢
        rw [hlen]
        exact h hv
    | cons l' ls =>
        rw [headersText_cons] at heq
        obtain ⟨⟨hl', hne⟩, -⟩ := List.forall_mem_cons.1 hmore
        exact absurd ((line_unique hl hl' heq).1 ▸ hempty) hne

/-- **The headers, line by line**, from wherever the parser stands among them. -/
theorem Heading.safe_iff {res : Except Fault (HttpCode × HttpConn)} (h : Heading headers c)
    (hf : (c.append s).Fits) (hr : Reads (c.append s) res) :
    Safe res ↔ RestFits headers c.readBufSize (c.append s).readIdx c.readIdx s := by
  induction hn : s.length using Nat.strong_induction_on generalizing s c headers with
  | _ n ih =>
      subst hn
      by_cases hwhole : Whole s
      · obtain ⟨l, r, hl, rfl⟩ := hwhole
        rw [append_line] at hf hr ⊢
        have hfl := hf.of_append
        have hwl := h.atLine.wellPlaced.append hfl
        have hidx : (c.append (l ++ [13, 10])).readIdx = c.readIdx + (l.length + 2) := by simp
        by_cases hempty : cut l = []
        · rw [restFits_blank hl hempty, ← hidx]
          have hpass := h.atLine.pass_blank h.state hl hempty hfl
          rw [h.length] at hpass
          by_cases hv : lengthIn (headers.map cut) ≠ 0
          · rw [if_pos hv] at hpass
            obtain ⟨hk, -, hagain⟩ := pass_again hwl hf hpass
            have hsafe := reads_safe_iff (hk.wellPlaced.append (hk.fits hf)) rfl (hr.tail hagain)
            have hstart : (c.lineEnded l).checkedIdx = (c.append (l ++ [13, 10])).readIdx := by
              rw [hidx, ← h.atLine.consumed]
              exact Nat.add_assoc _ _ _
            have htotal :
                (append { (c.lineEnded l).nextLine with checkState := .content } r).readIdx
                  = ((c.append (l ++ [13, 10])).append r).readIdx := by
              rw [readIdx_append, readIdx_append, hk.readIdx]
            rw [htotal] at hsafe
            refine hsafe.trans (Iff.trans ?_ (forall_prop_of_true hv).symm)
            rw [← h.length, ← hstart]
            rfl
          · rw [if_neg hv] at hpass
            obtain ⟨-, d, hd, -⟩ := (Reads.stop hpass).extend hwl hf rfl nofun
            obtain rfl := hr.unique hd
            exact iff_of_true (safe_ok _) fun hv' => absurd hv' hv
        · rw [restFits_header hl hempty, ← hidx]
          obtain ⟨c', hpass, h'⟩ := h.header hl hempty hfl
          obtain ⟨hk, -, hagain⟩ := pass_again hwl hf hpass
          have hlt : r.length < (l ++ 13 :: 10 :: r).length := by
            simp only [List.length_append, List.length_cons]
            omega
          have hsafe := ih _ hlt h' (hk.fits hf) (hr.tail hagain) rfl
          have htotal : (c'.append r).readIdx = ((c.append (l ++ [13, 10])).append r).readIdx := by
            rw [readIdx_append, readIdx_append, hk.readIdx]
          rw [htotal, hk.readIdx, hk.size] at hsafe
          exact hsafe
      · obtain ⟨d, hd⟩ := h.atLine.reads_part hwhole
        obtain rfl := hr.unique hd
        exact iff_of_true (safe_ok _) (restFits_of_part hwhole)

/-! ### The request line -/

/-- A request line that is not taken is turned down, or its target is a null pointer. -/
theorem AtLine.reads_notTaken (h : c.AtLine) (hs : c.checkState = .requestLine) (hl : Unbroken l)
    (hnot : ¬ Taken (cut l)) (hf : ((c.append (l ++ [13, 10])).append r).Fits)
    {res : Except Fault (HttpCode × HttpConn)}
    (hr : Reads ((c.append (l ++ [13, 10])).append r) res) : Safe res := by
  have hfl := hf.of_append
  have hwl := h.wellPlaced.append hfl
  by_cases hrefused : Refused (cut l)
  · obtain ⟨d, hpass⟩ := h.reads_refused hs hl hfl hrefused
    obtain ⟨-, d', hd', -⟩ := (Reads.stop hpass).extend hwl hf rfl nofun
    obtain rfl := hr.unique hd'
    exact safe_ok _
  · obtain ⟨hpass, hw, hz⟩ := h.pass_line hl hfl
    have hstr : (c.lineEnded l).nextLine.str c.startLine = cut l := lineEnded_str h l
    obtain ⟨method, target, pos, hline, hno⟩ : ∃ method target pos,
        RequestLine (cut l) method target pos ∧ NoPath target := by
      by_contra hnone
      refine hrefused fun method target pos hline => ⟨fun hno => ?_, fun path ht => ?_⟩
      · exact hnone ⟨method, target, pos, hline, hno⟩
      · exact hnot ⟨method, target, pos, path, hline, ht⟩
    have hnull := parseRequestLine_noPath (c := (c.lineEnded l).nextLine) hw.fits hz
      (hstr.symm ▸ hline) hno
    have hfault : (c.append (l ++ [13, 10])).pass = .error .nullPointer := by
      rw [hpass, takeLine, if_pos (show (c.lineEnded l).checkState = .requestLine from hs),
        show (c.lineEnded l).startLine = c.startLine from rfl, hnull]
      rfl
    obtain rfl := hr.unique (.fault (pass_fault hwl hf hfault))
    exact safe_null

/-- A request line that is taken leaves the parser before the headers. -/
theorem heading_first {size : ℕ} (hl : Unbroken l) (ht : Taken (cut l))
    (hfit : (l ++ [13, 10]).length ≤ size) :
    ∃ c', ((fresh size).append (l ++ [13, 10])).pass = .ok (.again, c') ∧ Heading [] c' := by
  obtain ⟨method, target, pos, path, hline, hpath⟩ := ht
  have hat := atLine_fresh size
  have hf : ((fresh size).append (l ++ [13, 10])).Fits := fits_fresh_append hfit
  have hstr : ((fresh size).lineEnded l).nextLine.str (fresh size).startLine = cut l :=
    lineEnded_str hat l
  obtain ⟨hpass, hw, hterm⟩ := hat.pass_line hl hf
  obtain ⟨d, hres, -⟩ := parseRequestLine_path (c := ((fresh size).lineEnded l).nextLine) hw.fits
    hterm (hstr.symm ▸ hline) hpath
  have hagain := hpass.trans (takeLine_request (c := (fresh size).lineEnded l) rfl hres)
  have hnot : ¬ Refused (cut l) := fun hr => (hr _ _ _ hline).2 _ hpath
  rcases hat.reads_first rfl hl hf hnot with hnull | ⟨c', hc', hat', hstate'⟩
  · rw [hagain] at hnull
    cases hnull
  · rw [hagain] at hc'
    obtain ⟨-, rfl⟩ := Prod.mk.inj (Except.ok.inj hc')
    have hsaid := parseRequestLine_said _ _ _ _ hres
    exact ⟨d, hagain, hat', hstate', congrArg Prod.fst hsaid, congrArg Prod.snd hsaid⟩

/-! ### Main result -/

theorem Head.text_append (h : Head) (rest : Bytes) :
    h.text ++ rest = h.line ++ 13 :: 10 :: (headersText h.headers h.blank ++ rest) := by
  simp [Head.text]

/-- **The stores of `process_read` on all that has arrived.** -/
theorem processRead_safe_iff {size : ℕ} (hfit : s.length ≤ size) :
    Safe ((fresh size).append s).processRead ↔
      ∀ (h : Head) (rest : Bytes), s = h.text ++ rest → h.contentLength ≠ 0 →
        BodyFits size s.length h.text.length h.contentLength := by
  have hf := fits_fresh_append hfit
  have hr := reads_processRead ((wellPlaced_fresh size).append hf)
  have hat := atLine_fresh size
  have htotal : ((fresh size).append s).readIdx = s.length :=
    (readIdx_append _ _).trans (Nat.zero_add _)
  by_cases hwhole : Whole s
  · obtain ⟨l, r, hl, rfl⟩ := hwhole
    rw [append_line] at hf hr htotal ⊢
    by_cases ht : Taken (cut l)
    · have hfl : (l ++ [13, 10]).length ≤ size := by
        simp only [List.length_append, List.length_cons, List.length_nil] at hfit ⊢
        omega
      obtain ⟨c', hpass, h'⟩ := heading_first hl ht hfl
      have hwl := (wellPlaced_fresh size).append hf.of_append
      obtain ⟨hk, -, hagain⟩ := pass_again hwl hf hpass
      have hidx : c'.readIdx = l.length + 2 := by
        rw [hk.readIdx, readIdx_append]
        simp [readIdx, fresh]
      have hsafe := h'.safe_iff (hk.fits hf) (hr.tail hagain)
      have htotal' : (c'.append r).readIdx = (l ++ 13 :: 10 :: r).length := by
        rw [← htotal, readIdx_append, readIdx_append, hk.readIdx]
      rw [hsafe, htotal', hidx, hk.size]
      have hlen : ∀ h : Head, h.line = l →
          l.length + 2 + (headersText h.headers h.blank).length = h.text.length := by
        rintro h rfl
        simp only [Head.text, List.length_append, List.length_cons, List.length_nil]
      constructor
      · intro hrest h rest heq hv
        rw [Head.text_append] at heq
        obtain ⟨hline, rfl⟩ := line_unique hl h.lineUnbroken heq
        rw [← hlen h hline.symm]
        exact hrest h.headers h.blank rest h.headerLines h.blankUnbroken h.blankEmpty rfl hv
      · intro hall more blank rest hmore hblank hempty heq hv
        have := hall ⟨l, more, blank, hl, ht, hmore, hblank, hempty⟩ rest
          (by rw [Head.text_append, heq]) hv
        rwa [← hlen _ rfl] at this
    · refine iff_of_true (hat.reads_notTaken rfl hl ht hf hr) ?_
      intro h rest heq
      rw [Head.text_append] at heq
      exact absurd ((line_unique hl h.lineUnbroken heq).1 ▸ h.taken) ht
  · obtain ⟨d, hd⟩ := hat.reads_part hwhole
    rw [hr.unique hd]
    refine iff_of_true (safe_ok _) ?_
    intro h rest heq
    exact absurd ⟨h.line, _, h.lineUnbroken, heq.trans (h.text_append rest)⟩ hwhole

/-- **The stores of the parser, for every stream in every chunking**: they stay in the read buffer,
and the test for a complete body does not overflow, exactly when the body that the head of the
stream announces fits. -/
theorem read_buffer_safety (size : ℕ) (chunks : List Bytes)
    (hfit : chunks.flatten.length ≤ size) :
    Safe (feed (fresh size) chunks) ↔
      ∀ (h : Head) (rest : Bytes), chunks.flatten = h.text ++ rest → h.contentLength ≠ 0 →
        BodyFits size chunks.flatten.length h.text.length h.contentLength := by
  rw [← processRead_safe_iff hfit]
  have hout := outcome_feed chunks (wellPlaced_fresh size) (fits_fresh_append hfit)
    (fresh_idle size)
  cases hfeed : feed (fresh size) chunks with
  | error f =>
      cases hread : ((fresh size).append chunks.flatten).processRead with
      | error f' =>
          rw [hfeed, hread] at hout
          cases hout
          rfl
      | ok p =>
          rw [hfeed, hread] at hout
          cases hout
  | ok p =>
      cases hread : ((fresh size).append chunks.flatten).processRead with
      | error f' =>
          rw [hfeed, hread] at hout
          cases hout
      | ok p' => exact iff_of_true (safe_ok _) (safe_ok _)

/-- Header lines and a blank line, read off a text, are the same however they are read. -/
theorem headers_unique {ls ls' : List Bytes} {blank blank' rest rest' : Bytes}
    (hls : ∀ l ∈ ls, Unbroken l ∧ cut l ≠ []) (hls' : ∀ l ∈ ls', Unbroken l ∧ cut l ≠ [])
    (hb : Unbroken blank) (hb' : Unbroken blank') (he : cut blank = []) (he' : cut blank' = [])
    (h : headersText ls blank ++ rest = headersText ls' blank' ++ rest') :
    ls = ls' ∧ blank = blank' := by
  induction ls generalizing ls' with
  | nil =>
      cases ls' with
      | nil =>
          rw [headersText_nil, headersText_nil] at h
          exact ⟨rfl, (line_unique hb hb' h).1⟩
      | cons l' ls' =>
          rw [headersText_nil, headersText_cons] at h
          obtain ⟨⟨hl', hne⟩, -⟩ := List.forall_mem_cons.1 hls'
          exact absurd ((line_unique hb hl' h).1 ▸ he) hne
  | cons l ls ih =>
      obtain ⟨⟨hl, hne⟩, htail⟩ := List.forall_mem_cons.1 hls
      cases ls' with
      | nil =>
          rw [headersText_nil, headersText_cons] at h
          exact absurd ((line_unique hl hb' h).1 ▸ he') hne
      | cons l' ls' =>
          rw [headersText_cons, headersText_cons] at h
          obtain ⟨⟨hl', -⟩, htail'⟩ := List.forall_mem_cons.1 hls'
          obtain ⟨rfl, hrest⟩ := line_unique hl hl' h
          obtain ⟨rfl, rfl⟩ := ih htail htail' hrest
          exact ⟨rfl, rfl⟩

/-- **A stream has one head.** -/
theorem Head.unique {h h' : Head} {rest rest' : Bytes} (heq : h.text ++ rest = h'.text ++ rest') :
    h = h' := by
  rw [Head.text_append, Head.text_append] at heq
  obtain ⟨hline, hrest⟩ := line_unique h.lineUnbroken h'.lineUnbroken heq
  obtain ⟨hheaders, hblank⟩ := headers_unique h.headerLines h'.headerLines h.blankUnbroken
    h'.blankUnbroken h.blankEmpty h'.blankEmpty hrest
  cases h
  cases h'
  cases hline
  cases hheaders
  cases hblank
  rfl

theorem blanks_space : Blanks [32] := ⟨by decide, CString.forall_of_all rfl⟩

theorem unbroken_post : Unbroken (ascii "POST /infer HTTP/1.1") := by decide

theorem taken_post : Taken (cut (ascii "POST /infer HTTP/1.1")) :=
  ⟨.post, _, _, _,
    .mk (ascii "POST") [32] (ascii "/infer") [32] (ascii "HTTP/1.1") (by decide) blanks_space
      (by decide) (CString.forall_of_all rfl) blanks_space (by decide),
    .origin (ascii "infer")⟩

/-- The head of a `POST` with one header line. -/
def postHead (header : Bytes) (hu : Unbroken header) (hne : cut header ≠ []) : Head where
  line := ascii "POST /infer HTTP/1.1"
  headers := [header]
  blank := []
  lineUnbroken := unbroken_post
  taken := taken_post
  headerLines := List.forall_mem_singleton.2 ⟨hu, hne⟩
  blankUnbroken := unbroken_nil
  blankEmpty := rfl

/-- A request with a body, and a part of the next, in three pieces. -/
def inPieces : List Bytes :=
  [ascii "POST /infer HTTP/1.1\r\nContent-Length: 2\r", ascii "\n\r\n[",
    ascii "]GET / HTTP/1.1\r\n"]

/-- A request with a negative `Content-Length`. -/
def negativeLength : Bytes := ascii "POST /infer HTTP/1.1\r\nContent-Length: -100\r\n\r\n"

/-- The body of the first stream fits, and the one of the second would begin before the buffer. -/
theorem read_buffer_safety_pieces :
    Safe (feed (fresh 100) inPieces) ∧ ¬ Safe (feed (fresh 100) [negativeLength]) := by
  constructor
  · refine (read_buffer_safety 100 inPieces (by decide)).2 ?_
    intro h rest heq _
    have hhead : h.text ++ rest = (postHead (ascii "Content-Length: 2") (by decide)
        (by decide)).text ++ ascii "[]GET / HTTP/1.1\r\n" := heq.symm.trans (by decide)
    obtain rfl := Head.unique hhead
    decide
  · rw [read_buffer_safety 100 [negativeLength] (by decide)]
    intro hall
    have := hall (postHead (ascii "Content-Length: -100") (by decide) (by decide)) [] (by decide)
      (by decide)
    revert this
    decide

/-- **Not every stream is safe**: the zero behind the body goes in front of the buffer. -/
theorem read_buffer_overrun :
    ¬ ∀ chunks : List Bytes, chunks.flatten.length ≤ 8388608 →
      Safe (feed (fresh 8388608) chunks) := by
  intro hall
  have hf : feed (fresh 8388608) [negativeLength] = .error (.outOfRange (-54)) := by decide
  cases hall [negativeLength] (by decide) _ hf

example : feed (fresh 45) [ascii "POST /infer HTTP/1.1\r\nContent-Length: 2\r\n\r\n[]"] =
    .error (.outOfRange 45) := by decide

example : feed (fresh 99)
    [ascii "POST /infer HTTP/1.1\r\nContent-Length: 9999999999999999999\r\n\r\n"] =
    .error .overflow := by decide

end Gateway.HttpConn
