/-
Requests that arrive in pieces.

A connection is fed a list of chunks: each is appended to the read buffer, and `process_read` runs
after it, until it returns something other than `NO_REQUEST`.  The runs of `process_read` are
described without a bound on their passes, so that a run on a connection can be compared with the
run on the same connection with more bytes.

* `Gateway.HttpConn.feed` — the chunks, one by one;
* `Gateway.HttpConn.Request` — what `do_request` reads;
* `Gateway.HttpConn.Reads` — the runs of `process_read`, and `Gateway.HttpConn.reads_processRead`;
* `Gateway.HttpConn.Reads.resume`, `Gateway.HttpConn.Reads.extend`,
  `Gateway.HttpConn.Reads.behind` — a run that asked for more bytes, a run that ended, and how far
  a run that asked for more bytes has to go;
* `Gateway.HttpConn.fragmentation_independence` — the chunks do not matter.
-/

import InferenceGateway.HttpParse

set_option relaxedAutoImplicit false
set_option autoImplicit false

namespace Gateway.HttpConn

open CString (strAt Terminated LONG_MAX LONG_MIN)

variable {c c' : HttpConn} {q : Bytes} {ret : HttpCode} {f : Fault}

/-! ### Chunks and requests -/

/-- The chunks arrive one by one, with a run of `process_read` after each. -/
def feed : HttpConn → List Bytes → Except Fault (HttpCode × HttpConn)
  | c, [] => .ok (.noRequest, c)
  | c, q :: qs => do
      match ← (c.append q).processRead with
      | (.noRequest, c) => feed c qs
      | r => return r

/-- What the parser leaves for `do_request`. -/
structure Request where
  method : HttpMethod
  url : Option Bytes
  linger : Bool
  contentLength : ℤ
  body : Option Bytes
  deriving DecidableEq

/-- `do_request` turns a request down before it looks at the body when `m_content_length` is not
positive; else the body is the C string at `m_start_line`. -/
def request (c : HttpConn) : Request where
  method := c.method
  url := c.url.map c.str
  linger := c.linger
  contentLength := c.contentLength
  body := if c.contentLength ≤ 0 then none else some (c.str c.startLine)

/-- The end of the request that was read: the headers and `Content-Length` bytes. -/
def requestEnd (c : HttpConn) : ℕ := c.checkedIdx + c.contentLength.toNat

/-- The code that `process_read` ends with and the request it has read. -/
def outcome (r : Except Fault (HttpCode × HttpConn)) : Except Fault (HttpCode × Request) :=
  r.map fun (ret, c) => (ret, c.request)

/-! ### Single passes with more bytes -/

/-- The connection that a pass leaves has the same buffer, and its positions are in order. -/
structure PassKeeps (c c' : HttpConn) : Prop where
  wellPlaced : c'.WellPlaced
  checkedIdx : c.checkedIdx ≤ c'.checkedIdx
  readIdx : c'.readIdx = c.readIdx
  size : c'.readBufSize = c.readBufSize

theorem PassKeeps.fits (h : PassKeeps c c') (hf : (c.append q).Fits) : (c'.append q).Fits := by
  unfold Fits at hf ⊢
  rw [readIdx_append] at hf ⊢
  rw [h.readIdx]
  exact hf.trans_eq h.size.symm

theorem append_nil (c : HttpConn) : c.append [] = c := by simp [append]

theorem fits_nil (h : c.WellPlaced) : (c.append []).Fits := by
  rw [append_nil]
  exact h.fits

/-- A pass that goes on has moved forward, and does the same with more bytes. -/
theorem pass_again (h : c.WellPlaced) (hf : (c.append q).Fits)
    (hp : c.pass = .ok (.again, c')) :
    PassKeeps c c' ∧ c.checkedIdx < c'.checkedIdx ∧
      (c.append q).pass = .ok (.again, c'.append q) := by
  by_cases hs : c.checkState = .content
  · have hcont := pass_content_append h hf hs
    rw [hp] at hcont
    cases hcont
  · have hline := pass_line_append h hf hs
    rw [hp] at hline
    generalize (c.append q).pass = r at hline ⊢
    cases hline with
    | taken next c' h₁ h₂ h₃ h₄ h₅ => exact ⟨⟨h₁, h₂.le, h₃, h₄⟩, h₂, rfl⟩

/-- A pass that asks for more bytes goes on, with them, as if they had been there before. -/
theorem pass_more (h : c.WellPlaced) (hf : (c.append q).Fits)
    (hp : c.pass = .ok (.stop .noRequest, c')) :
    PassKeeps c c' ∧ (c'.append q).pass = (c.append q).pass := by
  by_cases hs : c.checkState = .content
  · have hcont := pass_content_append h hf hs
    rw [hp] at hcont
    generalize (c.append q).pass = r at hcont ⊢
    cases hcont with
    | more => exact ⟨⟨h, le_refl _, rfl, rfl⟩, rfl⟩
  · have hline := pass_line_append h hf hs
    rw [hp] at hline
    generalize (c.append q).pass = r at hline ⊢
    cases hline with
    | taken next c' h₁ h₂ h₃ h₄ h₅ => simp at h₅
    | more c' h₁ h₂ h₃ h₄ h₅ => exact ⟨⟨h₁, h₂, h₃, h₄⟩, rfl⟩

/-- A pass with undefined behaviour has it with more bytes, too. -/
theorem pass_fault (h : c.WellPlaced) (hf : (c.append q).Fits) (hp : c.pass = .error f) :
    (c.append q).pass = .error f := by
  by_cases hs : c.checkState = .content
  · have hcont := pass_content_append h hf hs
    rw [hp] at hcont
    generalize (c.append q).pass = r at hcont ⊢
    cases hcont with
    | fault => rfl
  · have hline := pass_line_append h hf hs
    rw [hp] at hline
    generalize (c.append q).pass = r at hline ⊢
    cases hline with
    | null => rfl

/-- The terminator of a body, with and without more bytes: what is read before it is the same. -/
theorem str_zero_append {i j : ℕ} (hi : i ≤ c.readIdx) (hj : j ≤ i) :
    ((c.append q).zero i).str j = (c.zero i).str j := by
  rcases Nat.lt_or_eq_of_le hi with hlt | rfl
  · rw [zero_append hlt]
    refine str_append (k := i + 1) ⟨i, hj, Nat.lt_succ_self i, ?_⟩
    have hlt' : i < c.readBuf.length := hlt
    simp [zero, hlt']
  · unfold str readIdx zero append
    cases q with
    | nil => simp
    | cons b q =>
        have hset : c.readBuf.set c.readBuf.length 0 = c.readBuf :=
          List.set_eq_of_length_le (le_refl _)
        simp only [List.set_append_right _ _ (le_refl _), Nat.sub_self, List.set_cons_zero, hset]
        exact CString.strAt_append_zero q hj

/-- The body and the target of a request that is complete are the same with more bytes. -/
theorem request_zero_append {i : ℕ} (h : c.WellPlaced) (hs : c.checkState = .content)
    (hi : i ≤ c.readIdx) (hsum : (i : ℤ) = c.contentLength + c.checkedIdx) :
    ((c.append q).zero i).request = (c.zero i).request := by
  have hstart := h.content hs
  unfold request
  congr 1
  · change c.url.map ((c.append q).zero i).str = c.url.map (c.zero i).str
    refine Option.map_congr ?_
    intro u hu
    have hz := (h.url u hu).set i
    rcases Nat.lt_or_ge i c.readIdx with hlt | hge
    · rw [zero_append hlt]
      exact str_append hz
    · obtain ⟨j, huj, hjk, -⟩ := hz
      have := h.checked_le
      exact str_zero_append hi (by omega)
  · change (if c.contentLength ≤ 0 then none else some (((c.append q).zero i).str c.startLine)) =
      if c.contentLength ≤ 0 then none else some ((c.zero i).str c.startLine)
    split
    · rfl
    · rw [str_zero_append hi (by omega)]

/-- **A pass that ends a request ends it with more bytes, too**, and the request is the same. -/
theorem pass_final (h : c.WellPlaced) (hf : (c.append q).Fits)
    (hp : c.pass = .ok (.stop ret, c')) (hret : ret ≠ .noRequest) :
    PassKeeps c c' ∧ c'.requestEnd ≤ c.readIdx ∧
      ∃ d, (c.append q).pass = .ok (.stop ret, d) ∧ d.request = c'.request ∧
        d.requestEnd = c'.requestEnd := by
  by_cases hs : c.checkState = .content
  · have hcont := pass_content_append h hf hs
    rw [hp] at hcont
    generalize (c.append q).pass = r at hcont ⊢
    cases hcont with
    | done i hi hle =>
        refine ⟨⟨h.zero i, le_refl _, by simp, rfl⟩, ?_, (c.append q).zero i, rfl,
          request_zero_append h hs hle hi, rfl⟩
        have := h.checked_le
        change c.checkedIdx + c.contentLength.toNat ≤ c.readIdx
        omega
    | more => exact absurd rfl hret
  · have hline := pass_line_append h hf hs
    rw [hp] at hline
    generalize (c.append q).pass = r at hline ⊢
    cases hline with
    | taken next c' h₁ h₂ h₃ h₄ h₅ =>
        have h0 : c'.contentLength = 0 := (h₅.resolve_left nofun).2
        have hle := h₁.checked_le
        refine ⟨⟨h₁, h₂.le, h₃, h₄⟩, ?_, c'.append q, rfl, ?_, rfl⟩
        · rw [requestEnd, h0, ← h₃]
          exact hle
        · have hlen : (c'.append q).contentLength = 0 := h0
          unfold request
          rw [if_pos h0.le, if_pos hlen.le]
          congr 1
          refine Option.map_congr ?_
          intro u hu
          exact str_append (h₁.url u hu)
    | more c' h₁ h₂ h₃ h₄ h₅ => exact absurd rfl hret

/-! ### Runs of the parser -/

/-- `Reads c r`: the loop of `process_read` ends with `r` when it starts on `c`. -/
inductive Reads : HttpConn → Except Fault (HttpCode × HttpConn) → Prop
  | fault {c : HttpConn} {f : Fault} : c.pass = .error f → Reads c (.error f)
  | stop {c c' : HttpConn} {ret : HttpCode} :
      c.pass = .ok (.stop ret, c') → Reads c (.ok (ret, c'))
  | again {c c' : HttpConn} {r : Except Fault (HttpCode × HttpConn)} :
      c.pass = .ok (.again, c') → Reads c' r → Reads c r

theorem PassKeeps.trans {c'' : HttpConn} (h : PassKeeps c c') (h' : PassKeeps c' c'') :
    PassKeeps c c'' :=
  ⟨h'.wellPlaced, h.checkedIdx.trans h'.checkedIdx, h'.readIdx.trans h.readIdx,
    h'.size.trans h.size⟩

theorem processLoop_reads (n : ℕ) (h : c.WellPlaced) (hn : c.readIdx < c.checkedIdx + n) :
    Reads c (processLoop n c) := by
  induction n generalizing c with
  | zero =>
      have := h.checked_le
      omega
  | succ n ih =>
      rw [processLoop]
      cases hp : c.pass with
      | error f => exact .fault hp
      | ok p =>
          obtain ⟨next, c'⟩ := p
          cases next with
          | stop ret => exact .stop hp
          | again =>
              obtain ⟨hk, hlt, -⟩ := pass_again h (fits_nil h) hp
              refine .again hp (ih hk.wellPlaced ?_)
              rw [hk.readIdx]
              omega

/-- **`process_read` is a run of its loop**: the bound on the passes is never reached. -/
theorem reads_processRead (h : c.WellPlaced) : Reads c c.processRead :=
  processLoop_reads _ h (by omega)

theorem Reads.unique {r r' : Except Fault (HttpCode × HttpConn)} (h : Reads c r)
    (h' : Reads c r') : r = r' := by
  induction h with
  | fault hp =>
      cases h' with
      | fault hp' => rw [hp] at hp'; cases hp'; rfl
      | stop hp' => rw [hp] at hp'; cases hp'
      | again hp' _ => rw [hp] at hp'; cases hp'
  | stop hp =>
      cases h' with
      | fault hp' => rw [hp] at hp'; cases hp'
      | stop hp' => rw [hp] at hp'; cases hp'; rfl
      | again hp' _ => rw [hp] at hp'; cases hp'
  | again hp _ ih =>
      cases h' with
      | fault hp' => rw [hp] at hp'; cases hp'
      | stop hp' => rw [hp] at hp'; cases hp'
      | again hp' hr => rw [hp] at hp'; cases hp'; exact ih hr

/-- A run looks at its first connection through its first pass only. -/
theorem Reads.congr {d : HttpConn} {r : Except Fault (HttpCode × HttpConn)} (h : Reads c r)
    (hp : d.pass = c.pass) : Reads d r := by
  cases h with
  | fault h₁ => exact .fault (hp.trans h₁)
  | stop h₁ => exact .stop (hp.trans h₁)
  | again h₁ h₂ => exact .again (hp.trans h₁) h₂

/-- What a run leaves is well placed. -/
theorem Reads.keeps {r : Except Fault (HttpCode × HttpConn)} (h : Reads c r) (hw : c.WellPlaced)
    (hr : r = .ok (ret, c')) : PassKeeps c c' := by
  induction h with
  | fault hp => cases hr
  | @stop c d ret' hp =>
      cases hr
      by_cases hret : ret = .noRequest
      · subst hret
        exact (pass_more hw (fits_nil hw) hp).1
      · exact (pass_final hw (fits_nil hw) hp hret).1
  | again hp _ ih =>
      obtain ⟨hk, -, -⟩ := pass_again hw (fits_nil hw) hp
      exact hk.trans (ih hk.wellPlaced hr)

/-- **A run that asked for more bytes** goes on, when they arrive, as the run on all the bytes. -/
theorem Reads.resume {r r' : Except Fault (HttpCode × HttpConn)} (h : Reads c r)
    (hw : c.WellPlaced) (hf : (c.append q).Fits) (hr : r = .ok (.noRequest, c'))
    (h' : Reads (c'.append q) r') : Reads (c.append q) r' := by
  induction h with
  | fault hp => cases hr
  | stop hp =>
      cases hr
      obtain ⟨-, hpass⟩ := pass_more hw hf hp
      exact h'.congr hpass.symm
  | again hp _ ih =>
      obtain ⟨hk, -, hpass⟩ := pass_again hw hf hp
      exact .again hpass (ih hk.wellPlaced (hk.fits hf) hr)

/-- **A run that ended** ends in the same way when there are more bytes. -/
theorem Reads.extend {r : Except Fault (HttpCode × HttpConn)} (h : Reads c r)
    (hw : c.WellPlaced) (hf : (c.append q).Fits) (hr : r = .ok (ret, c'))
    (hret : ret ≠ .noRequest) :
    c'.requestEnd ≤ c.readIdx ∧
      ∃ d, Reads (c.append q) (.ok (ret, d)) ∧ d.request = c'.request ∧
        d.requestEnd = c'.requestEnd := by
  induction h with
  | fault hp => cases hr
  | stop hp =>
      cases hr
      obtain ⟨-, hend, d, hpass, hreq⟩ := pass_final hw hf hp hret
      exact ⟨hend, d, .stop hpass, hreq⟩
  | again hp _ ih =>
      obtain ⟨hk, -, hpass⟩ := pass_again hw hf hp
      obtain ⟨hend, d, hrun, hreq⟩ := ih hk.wellPlaced (hk.fits hf) hr
      exact ⟨hk.readIdx ▸ hend, d, .again hpass hrun, hreq⟩

theorem Reads.extend_fault {r : Except Fault (HttpCode × HttpConn)} (h : Reads c r)
    (hw : c.WellPlaced) (hf : (c.append q).Fits) (hr : r = .error f) :
    Reads (c.append q) (.error f) := by
  induction h with
  | fault hp =>
      cases hr
      exact .fault (pass_fault hw hf hp)
  | stop hp => cases hr
  | again hp _ ih =>
      obtain ⟨hk, -, hpass⟩ := pass_again hw hf hp
      exact .again hpass (ih hk.wellPlaced (hk.fits hf) hr)

/-! ### Fragmentation -/

/-- The outcome of a run that ended is its outcome with more bytes. -/
theorem outcome_extend (hw : c.WellPlaced) (hf : (c.append q).Fits)
    (hne : ∀ d, c.processRead ≠ .ok (.noRequest, d)) :
    outcome (c.append q).processRead = outcome c.processRead := by
  have hrun := reads_processRead hw
  have hrun' := reads_processRead (hw.append hf)
  cases hr : c.processRead with
  | error f => rw [hrun'.unique (hrun.extend_fault hw hf hr)]
  | ok p =>
      obtain ⟨ret, d⟩ := p
      have hret : ret ≠ .noRequest := by
        rintro rfl
        exact hne d hr
      obtain ⟨-, d', hd', hreq, -⟩ := hrun.extend hw hf hr hret
      rw [hrun'.unique hd']
      simp only [outcome, Except.map, hreq]

/-- A run that asked for more bytes and a later chunk, as one run. -/
theorem processRead_resume (hw : c.WellPlaced) (hf : (c.append q).Fits)
    (hr : c.processRead = .ok (.noRequest, c')) :
    PassKeeps c c' ∧ (c'.append q).processRead = (c.append q).processRead := by
  have hrun := reads_processRead hw
  have hk := hrun.keeps hw hr
  have hlater := reads_processRead (hk.wellPlaced.append (hk.fits hf))
  exact ⟨hk, (hrun.resume hw hf hr hlater).unique (reads_processRead (hw.append hf))⟩

theorem append_append (c : HttpConn) (q q' : Bytes) :
    (c.append q).append q' = c.append (q ++ q') := by simp [append]

/-- The chunks are parsed as their concatenation is. -/
theorem outcome_feed (qs : List Bytes) (hw : c.WellPlaced) (hf : (c.append qs.flatten).Fits)
    (hr : c.processRead = .ok (.noRequest, c)) :
    outcome (feed c qs) = outcome (c.append qs.flatten).processRead := by
  induction qs generalizing c with
  | nil =>
      rw [feed, List.flatten_nil, append_nil, hr]
  | cons q qs ih =>
      rw [List.flatten_cons, ← append_append] at hf ⊢
      have hfq := hf.of_append
      have hwq := hw.append hfq
      by_cases hmore : ∃ d, (c.append q).processRead = .ok (.noRequest, d)
      · obtain ⟨d, hq⟩ := hmore
        obtain ⟨hk, hidle⟩ := processRead_resume hwq (fits_nil hwq) hq
        obtain ⟨-, hlater⟩ := processRead_resume hwq hf hq
        rw [append_nil, append_nil, hq] at hidle
        have hfeed : feed c (q :: qs) = feed d qs := by
          rw [feed, hq]
          rfl
        rw [hfeed, ih hk.wellPlaced (hk.fits hf) hidle, hlater]
      · have hne : ∀ d, (c.append q).processRead ≠ .ok (.noRequest, d) := by
          intro d hd
          exact hmore ⟨d, hd⟩
        rw [outcome_extend hwq hf hne, feed]
        cases hq : (c.append q).processRead with
        | error f => rfl
        | ok p =>
            obtain ⟨ret, d⟩ := p
            cases ret with
            | noRequest => exact absurd hq (hne d)
            | _ => rfl

/-! ### The end of the request -/

theorem le_requestEnd (h : PassKeeps c c') : c.checkedIdx ≤ c'.requestEnd :=
  h.checkedIdx.trans (Nat.le_add_right _ _)

/-- A pass that takes a line moves to its end. -/
theorem pass_line_checkedIdx {next : Next} {i : ℕ} (h : c.WellPlaced)
    (hs : c.checkState ≠ .content) (hi : c.checkedIdx ≤ i + 1) (hle : i + 2 ≤ c.readIdx)
    (hline : c.parseLine = .ok (.lineOk, c.ended i)) (hp : c.pass = .ok (next, c')) :
    c'.checkedIdx = i + 2 ∧ next ≠ .stop .noRequest := by
  obtain ⟨hw, hz⟩ := wellPlaced_ended h hs hi hle
  rw [pass_eq_line hs hline, if_pos rfl] at hp
  have htake := takeLine_takes hw (fits_nil hw) hz
  rw [hp] at htake
  generalize takeLine ((c.ended i).append []) = r at htake
  cases htake with
  | ok next c' h₁ h₂ h₃ h₄ h₅ =>
      refine ⟨h₂, ?_⟩
      rintro rfl
      simp at h₅

/-- A pass that asked for more bytes and then takes a line takes it beyond those it had. -/
theorem pass_more_behind {next : Next} {d : HttpConn} (h : c.WellPlaced)
    (hf : (c.append q).Fits) (hs : c.checkState ≠ .content)
    (hp : c.pass = .ok (.stop .noRequest, c')) (hd : (c'.append q).pass = .ok (next, d))
    (hnext : next ≠ .stop .noRequest) : c.readIdx < d.checkedIdx := by
  obtain ⟨st, e, hline, hspec⟩ := parseLine_spec h.fits h.checked_le
  have hpass := pass_eq_line hs hline
  cases hspec with
  | lineOk i hi hle =>
      exact absurd rfl (pass_line_checkedIdx h hs (by omega) hle hline hp).2
  -- the line stays bad, whatever arrives
  | lineBad k hk hle =>
      rw [if_neg nofun, hp] at hpass
      cases hpass
      have hsk : (append { c with checkedIdx := k } q).checkState ≠ .content := hs
      have happ := parseLine_append hf h.checked_le hline
      rw [if_neg nofun] at happ
      have hbad := parseLine_bad (h.append hf).checked_le happ
      rw [pass_eq_line hsk hbad, if_neg nofun] at hd
      cases hd
      exact absurd rfl hnext
  -- the line can only end in the new bytes
  | lineOpen k hk hend =>
      rw [if_neg nofun, hp] at hpass
      cases hpass
      have hsk : (append { c with checkedIdx := k } q).checkState ≠ .content := hs
      have hw := (wellPlaced_moved h hs hk (by omega)).append (q := q) hf
      obtain ⟨st, e, hline', hspec'⟩ := parseLine_spec hw.fits hw.checked_le
      have hpass' := pass_eq_line hsk hline'
      cases hspec' with
      | lineOk i hi hle =>
          rw [(pass_line_checkedIdx hw hsk (by omega) hle hline' hd).1]
          rcases hi with hi | ⟨hi, hlf⟩
          · change k ≤ i at hi
            omega
          · change k = i + 1 at hi
            rcases hend with hend | ⟨hend, hcr⟩
            · omega
            · have hbyte : (append { c with checkedIdx := k } q).byteAt k = c.byteAt k :=
                byteAt_append (c := c) (by omega)
              have : (13 : UInt8) = 10 := hcr.symm.trans (hbyte.symm.trans hlf)
              cases this
      | lineBad j hj hle =>
          rw [if_neg nofun, hd] at hpass'
          cases hpass'
          exact absurd rfl hnext
      | lineOpen j hj hle =>
          rw [if_neg nofun, hd] at hpass'
          cases hpass'
          exact absurd rfl hnext

/-- **How far a run has to go**: one that asked for more bytes ends its request behind those it
had. -/
theorem Reads.behind {r r' : Except Fault (HttpCode × HttpConn)} {d : HttpConn} (h : Reads c r)
    (hw : c.WellPlaced) (hf : (c.append q).Fits) (hr : r = .ok (.noRequest, c'))
    (h' : Reads (c'.append q) r') (hr' : r' = .ok (ret, d)) (hret : ret ≠ .noRequest) :
    c.readIdx < d.requestEnd := by
  induction h with
  | fault hp => cases hr
  | @again c e r hp _ ih =>
      obtain ⟨hk, -, -⟩ := pass_again hw hf hp
      rw [← hk.readIdx]
      exact ih hk.wellPlaced (hk.fits hf) hr
  | @stop c e ret' hp =>
      cases hr
      obtain ⟨hk, -⟩ := pass_more hw hf hp
      have hw' := hk.wellPlaced.append (hk.fits hf)
      by_cases hs : c.checkState = .content
      · -- the body was not complete, and its length is settled
        have hcont := pass_content_append hw hf hs
        rw [hp] at hcont
        generalize (c.append q).pass = s at hcont
        cases hcont with
        | more hlt =>
            cases h' with
            | fault hp' => cases hr'
            | stop hp' =>
                cases hr'
                have hcont' := pass_content_append hw' (fits_nil hw') hs
                rw [hp'] at hcont'
                generalize ((c'.append q).append []).pass = s' at hcont'
                cases hcont' with
                | done i hi hle =>
                    change c'.readIdx < c'.checkedIdx + c'.contentLength.toNat
                    omega
                | more => exact absurd rfl hret
            | again hp' _ =>
                have hcont' := pass_content_append hw' (fits_nil hw') hs
                rw [hp'] at hcont'
                cases hcont'
      · cases h' with
        | fault hp' => cases hr'
        | stop hp' =>
            cases hr'
            have hlt := pass_more_behind hw hf hs hp hp' (by simpa using hret)
            exact hlt.trans_le (Nat.le_add_right _ _)
        | again hp' hrun =>
            have hlt := pass_more_behind hw hf hs hp hp' nofun
            obtain ⟨hk', -, -⟩ := pass_again hw' (fits_nil hw') hp'
            exact hlt.trans_le (le_requestEnd (hrun.keeps hk'.wellPlaced hr'))

/-! ### Main result -/

theorem fresh_idle (size : ℕ) : (fresh size).processRead = .ok (.noRequest, fresh size) := rfl

theorem fits_fresh_append {size : ℕ} {s : Bytes} (h : s.length ≤ size) :
    ((fresh size).append s).Fits := by
  unfold Fits
  rw [readIdx_append]
  change 0 + s.length ≤ size
  rwa [Nat.zero_add]

/-- A request that was read from a stream is read from the part of it up to its end. -/
theorem processRead_take {size : ℕ} {s : Bytes} (hs : s.length ≤ size)
    (hr : ((fresh size).append s).processRead = .ok (ret, c)) (hret : ret ≠ .noRequest) :
    c.requestEnd ≤ s.length ∧
      ∀ q : Bytes, c.requestEnd + q.length ≤ size →
        outcome ((fresh size).append (s.take c.requestEnd ++ q)).processRead =
          .ok (ret, c.request) := by
  have hw := wellPlaced_fresh size
  have hfit := fits_fresh_append hs
  have hws := hw.append hfit
  have hrun := reads_processRead hws
  rw [hr] at hrun
  obtain ⟨hend, -⟩ := hrun.extend hws (fits_nil hws) rfl hret
  rw [readIdx_append] at hend
  have hend' : c.requestEnd ≤ s.length := by simpa [fresh, readIdx] using hend
  refine ⟨hend', ?_⟩
  intro q hq
  have htake : (s.take c.requestEnd).length = c.requestEnd := List.length_take_of_le hend'
  have hsplit : ((fresh size).append (s.take c.requestEnd)).append (s.drop c.requestEnd) =
      (fresh size).append s := by
    rw [append_append, List.take_append_drop]
  have hft : ((fresh size).append (s.take c.requestEnd)).Fits :=
    fits_fresh_append (htake.le.trans (hend'.trans hs))
  have hwt := hw.append hft
  have hfd : (((fresh size).append (s.take c.requestEnd)).append (s.drop c.requestEnd)).Fits :=
    hsplit ▸ hfit
  -- the part up to the end is enough: a run that asked for more would end the request behind it
  have hne : ∀ d, ((fresh size).append (s.take c.requestEnd)).processRead ≠
      .ok (.noRequest, d) := by
    intro d hd
    obtain ⟨hk, hres⟩ := processRead_resume hwt hfd hd
    have hlater := reads_processRead (hk.wellPlaced.append (hk.fits hfd))
    rw [hres, hsplit, hr] at hlater
    have hlt := (reads_processRead hwt).behind hwt hfd hd hlater rfl hret
    rw [readIdx_append, htake] at hlt
    simp [fresh, readIdx] at hlt
  have hfq : (((fresh size).append (s.take c.requestEnd)).append q).Fits := by
    rw [append_append]
    exact fits_fresh_append (by rw [List.length_append, htake]; exact hq)
  rw [← append_append, outcome_extend hwt hfq hne, ← outcome_extend hwt hfd hne, hsplit, hr]
  rfl

/-- **Fragmentation does not matter.**  However a stream that fits in the read buffer is cut into
chunks, they lead to the outcome of the whole stream, and that outcome is settled by the bytes up
to the end of the request. -/
theorem fragmentation_independence (size : ℕ) (chunks : List Bytes)
    (hfit : chunks.flatten.length ≤ size) :
    outcome (feed (fresh size) chunks) =
        outcome ((fresh size).append chunks.flatten).processRead ∧
      ∀ ret c, ((fresh size).append chunks.flatten).processRead = .ok (ret, c) →
        ret ≠ .noRequest →
        c.requestEnd ≤ chunks.flatten.length ∧
          ∀ q : Bytes, c.requestEnd + q.length ≤ size →
            outcome ((fresh size).append (chunks.flatten.take c.requestEnd ++ q)).processRead =
              .ok (ret, c.request) := by
  refine ⟨outcome_feed chunks (wellPlaced_fresh size) (fits_fresh_append hfit)
    (fresh_idle size), ?_⟩
  intro ret c hr hret
  exact processRead_take hfit hr hret

/-- A request cut between CR and LF and inside its body. -/
theorem fragmentation_independence_post :
    outcome (feed (fresh 100)
        [ascii "POST /infer HTTP/1.1\r", ascii "\nContent-Length: 2\r\n\r\n[", ascii "]"]) =
      .ok (.getRequest,
        { method := .post, url := some (ascii "/infer"), linger := false, contentLength := 2,
          body := some (ascii "[]") }) :=
  (fragmentation_independence 100 _ (by decide)).1.trans (by decide)

end Gateway.HttpConn
