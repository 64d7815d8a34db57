/-
The parser, pass by pass: what it stores, and what it makes of bytes that arrive later.

Every part of the parser is described twice at once, on a connection and on the same connection
with further bytes behind it.  A part that has found what it looks for does the same on both; one
that has run out of bytes stops at a place from which the longer connection goes on.

* `Gateway.HttpConn.Follows`, `Gateway.HttpConn.parseRequestLine_follows`,
  `Gateway.HttpConn.parseHeaders_append` — what is read from a line that has ended;
* `Gateway.HttpConn.WellPlaced` — the positions of the parser, kept by every pass;
* `Gateway.HttpConn.pass_line_append`, `Gateway.HttpConn.pass_content` — the passes.
-/

import InferenceGateway.HttpLine

set_option relaxedAutoImplicit false
set_option autoImplicit false

namespace Gateway.HttpConn

open CString (strAt strpbrk strspn strchr strcasecmp strncasecmp atol Terminated LONG_MAX LONG_MIN)

variable {c c' : HttpConn} {q : Bytes}

/-! ### The request line -/

/-- What the parts of the parser leave alone: the size and the positions, and zeros stay zeros. -/
structure Kept (c c' : HttpConn) : Prop where
  size : c'.readBufSize = c.readBufSize
  readIdx : c'.readIdx = c.readIdx
  checkedIdx : c'.checkedIdx = c.checkedIdx
  startLine : c'.startLine = c.startLine
  contentLength : c'.contentLength = c.contentLength
  zeros : ∀ {i k}, Terminated c.readBuf i k → Terminated c'.readBuf i k

theorem Kept.refl (c : HttpConn) : Kept c c := ⟨rfl, rfl, rfl, rfl, rfl, id⟩

theorem Kept.trans {c'' : HttpConn} (h : Kept c c') (h' : Kept c' c'') : Kept c c'' :=
  ⟨h'.size.trans h.size, h'.readIdx.trans h.readIdx, h'.checkedIdx.trans h.checkedIdx,
    h'.startLine.trans h.startLine, h'.contentLength.trans h.contentLength,
    fun hz => h'.zeros (h.zeros hz)⟩

theorem Kept.zero (c : HttpConn) (i : ℕ) : Kept c (c.zero i) :=
  ⟨rfl, readIdx_zero c i, rfl, rfl, rfl, fun h => h.set i⟩

/-- The C string `m_url` ends before `k`. -/
def UrlBefore (c : HttpConn) (k : ℕ) : Prop := ∀ u, c.url = some u → Terminated c.readBuf u k

/-- The two outcomes of reading a terminated line on a connection and on the same one with more
bytes: the same null pointer, or the same code with the same stores. -/
inductive Follows (q : Bytes) (c : HttpConn) (k : ℕ) :
    Except Fault (HttpCode × HttpConn) → Except Fault (HttpCode × HttpConn) → Prop
  | null : Follows q c k (.error .nullPointer) (.error .nullPointer)
  | ok (ret : HttpCode) (c' : HttpConn) :
      Kept c c' → c'.UrlBefore k → (ret = .noRequest → c'.checkState = .header) →
      (ret = .noRequest ∨ ret = .badRequest) →
      Follows q c k (.ok (ret, c')) (.ok (ret, c'.append q))

theorem str_append {i k : ℕ} (h : Terminated c.readBuf i k) : (c.append q).str i = c.str i :=
  CString.strAt_append h q

/-- Moving on inside a terminated string leaves a terminated string. -/
theorem terminated_add {i k d : ℕ} (h : Terminated c.readBuf i k) (hd : d ≤ (c.str i).length) :
    Terminated c.readBuf (i + d) k := by
  obtain ⟨h₁, h₂⟩ := h.length_strAt
  exact ⟨_, Nat.add_le_add_left hd i, h₁, h₂⟩

theorem lt_of_terminated {i k d : ℕ} (h : Terminated c.readBuf i k) (hd : d < (c.str i).length) :
    i + d < c.readIdx := by
  obtain ⟨-, h₂⟩ := h.length_strAt
  exact (Nat.add_lt_add_left hd i).trans (List.getElem?_eq_some_iff.1 h₂).1

/-- The step of `parse_request_line` over a scheme reads the same, and stays in the line. -/
theorem skipScheme_follows {k : ℕ} (scheme : Bytes) {url : Option ℕ}
    (h : ∀ u, url = some u → Terminated c.readBuf u k) :
    (c.append q).skipScheme scheme url = c.skipScheme scheme url ∧
      (c.skipScheme scheme url = .error .nullPointer ∨
        ∃ url', c.skipScheme scheme url = .ok url' ∧
          ∀ u, url' = some u → Terminated c.readBuf u k) := by
  cases url with
  | none => exact ⟨rfl, .inl rfl⟩
  | some u =>
      have hu := h u rfl
      simp only [skipScheme, str_append hu]
      split
      · next hcmp =>
          have hrest := terminated_add hu (CString.length_of_strncasecmp hcmp rfl)
          rw [str_append hrest]
          refine ⟨rfl, .inr ⟨_, rfl, ?_⟩⟩
          intro u' hu'
          obtain ⟨j, hj, rfl⟩ := Option.map_eq_some_iff.1 hu'
          exact terminated_add hrest (CString.strchr_lt hj).le
      · exact ⟨rfl, .inr ⟨_, rfl, h⟩⟩

/-- The end of `parse_request_line`, after the version was found to be HTTP/1.1. -/
theorem requestTarget_follows {k u : ℕ} (h : Terminated c.readBuf u k) (hk : k ≤ c.readIdx) :
    Follows q c k (c.requestTarget u) ((c.append q).requestTarget u) := by
  unfold requestTarget
  have h₁ : ∀ v, some u = some v → Terminated c.readBuf v k := by
    rintro v ⟨⟩
    exact h
  obtain ⟨heq, hnull | ⟨url, hurl, hurl'⟩⟩ := skipScheme_follows (q := q) (ascii "http://") h₁
  · rw [heq, hnull]
    exact .null
  · rw [heq, hurl]
    simp only [bind, Except.bind]
    obtain ⟨heq, hnull | ⟨url₂, hurl₂, hurl₂'⟩⟩ :=
      skipScheme_follows (q := q) (ascii "https://") hurl'
    · rw [heq, hnull]
      exact .null
    · rw [heq, hurl₂]
      simp only
      have hkept : ∀ v, Kept c { c with url := v } := fun _ => ⟨rfl, rfl, rfl, rfl, rfl, id⟩
      cases url₂ with
      | none =>
          refine .ok _ _ (hkept none) ?_ ?_ (.inr rfl)
          · intro v hv
            cases hv
          · intro h
            cases h
      | some v =>
          have hv := hurl₂' v rfl
          have hbefore : UrlBefore { c with url := some v } k := by
            rintro v' ⟨⟩
            exact hv
          obtain ⟨j, hvj, hjk, -⟩ := hv
          have hbyte : HttpConn.byteAt { c.append q with url := some v } v =
              HttpConn.byteAt { c with url := some v } v :=
            byteAt_append (c := c) (by omega)
          simp only [hbyte]
          split
          · exact .ok (q := q) (k := k) .noRequest { c with url := some v, checkState := .header }
              ⟨rfl, rfl, rfl, rfl, rfl, id⟩ hbefore (fun _ => rfl) (.inl rfl)
          · refine .ok _ _ (hkept (some v)) hbefore ?_ (.inr rfl)
            intro h
            cases h

/-- `Follows` over a part of the parser that comes before. -/
theorem Follows.after {k : ℕ} {r r' : Except Fault (HttpCode × HttpConn)} (hk : Kept c c')
    (h : Follows q c' k r r') : Follows q c k r r' := by
  cases h with
  | null => exact .null
  | ok ret c'' h₁ h₂ h₃ h₄ => exact .ok ret c'' (hk.trans h₁) h₂ h₃ h₄

/-- A request line that is turned down. -/
theorem Follows.badRequest {k : ℕ} (hk : Kept c c') (hu : c'.UrlBefore k) :
    Follows q c k (.ok (.badRequest, c')) (.ok (.badRequest, c'.append q)) :=
  .ok .badRequest c' hk hu (fun h => by cases h) (.inr rfl)

/-- **`parse_request_line` reads its line only**, and turns it down or goes on to the headers. -/
theorem parseRequestLine_follows {k text : ℕ} (hf : (c.append q).Fits) (hk : k ≤ c.readIdx)
    (h : Terminated c.readBuf text k) :
    Follows q c k (c.parseRequestLine text) ((c.append q).parseRequestLine text) := by
  have hf' := hf.of_append
  unfold Fits at hf hf'
  rw [readIdx_append] at hf
  have hsize : (c.append q).readBufSize = c.readBufSize := rfl
  unfold parseRequestLine
  rw [str_append h]
  cases hd : strpbrk (c.str text) blanks with
  | none =>
      refine .badRequest ⟨rfl, rfl, rfl, rfl, rfl, id⟩ ?_
      intro v hv
      cases hv
  | some d =>
      have hlt := CString.strpbrk_lt hd
      have hin := lt_of_terminated h hlt
      -- the blank behind the method becomes its end
      simp only [store_eq (c := c) (i := text + d) (by omega),
        store_eq (c := c.append q) (i := text + d) (by rw [hsize]; omega), zero_append hin,
        bind, Except.bind]
      generalize hc₁ : c.zero (text + d) = c₁
      have hkept₁ : Kept c c₁ := hc₁ ▸ Kept.zero c _
      have htext := hkept₁.zeros h
      have hurl : Terminated c₁.readBuf (text + d + 1) k :=
        hkept₁.zeros (terminated_add h (d := d + 1) hlt)
      rw [str_append htext]
      cases hm : methodOf (c₁.str text) with
      | none =>
          refine .badRequest (hkept₁.trans ⟨rfl, rfl, rfl, rfl, rfl, id⟩) ?_
          intro v hv
          cases hv
          exact hurl
      | some method =>
          simp only
          rw [str_append hurl]
          have hurl' := terminated_add hurl (CString.strspn_le (c₁.str (text + d + 1)) blanks)
          generalize text + d + 1 + strspn (c₁.str (text + d + 1)) blanks = url at hurl' ⊢
          rw [str_append hurl']
          cases he : strpbrk (c₁.str url) blanks with
          | none =>
              refine .badRequest (hkept₁.trans ⟨rfl, rfl, rfl, rfl, rfl, id⟩) ?_
              intro v hv
              cases hv
              exact hurl'
          | some e =>
              have hlt' := CString.strpbrk_lt he
              have hin' := lt_of_terminated hurl' hlt'
              have hsz := hkept₁.size
              have hri := hkept₁.readIdx
              -- the blank behind the target becomes its end
              simp only [store_eq (c := c₁) (i := url + e) (by omega),
                store_eq (c := c₁.append q) (i := url + e) (by change _ < c₁.readBufSize; omega),
                zero_append hin']
              generalize hc₂ : c₁.zero (url + e) = c₂
              have hkept₂ : Kept c₁ c₂ := hc₂ ▸ Kept.zero c₁ _
              have hver : Terminated c₂.readBuf (url + e + 1) k :=
                hkept₂.zeros (terminated_add hurl' (d := e + 1) hlt')
              have hver' := terminated_add hver (CString.strspn_le (c₂.str (url + e + 1)) blanks)
              rw [str_append hver]
              generalize url + e + 1 + strspn (c₂.str (url + e + 1)) blanks = version at hver' ⊢
              generalize hc₃ : ({ c₂ with
                method := method, url := some url, version := some version } : HttpConn) = c₃
              have hkept₃ : Kept c₂ c₃ := by
                subst hc₃
                exact ⟨rfl, rfl, rfl, rfl, rfl, id⟩
              refine Follows.after ((hkept₁.trans hkept₂).trans hkept₃) ?_
              have happ : ({ c₂.append q with
                  method := method, url := some url, version := some version } : HttpConn) =
                  c₃.append q := by
                subst hc₃
                rfl
              rw [happ, str_append (hkept₃.zeros hver')]
              split
              · refine requestTarget_follows (hkept₃.zeros (hkept₂.zeros hurl')) ?_
                rw [hkept₃.readIdx, hkept₂.readIdx, hri]
                exact hk
              · refine .badRequest (.refl _) ?_
                intro v hv
                subst hc₃
                cases hv
                exact hkept₂.zeros hurl'

/-! ### Headers -/

/-- What `parse_headers` does to a connection. -/
structure HeaderSpec (c : HttpConn) (ret : HttpCode) (c' : HttpConn) : Prop where
  readBuf : c'.readBuf = c.readBuf
  size : c'.readBufSize = c.readBufSize
  checkedIdx : c'.checkedIdx = c.checkedIdx
  startLine : c'.startLine = c.startLine
  url : c'.url = c.url
  state : c'.checkState = c.checkState ∨ c'.checkState = .content
  ret : ret = .noRequest ∨ ret = .getRequest ∧ c'.contentLength = 0

theorem parseHeaders_spec {text : ℕ} {ret : HttpCode} (h : c.parseHeaders text = (ret, c')) :
    HeaderSpec c ret c' := by
  simp only [parseHeaders] at h
  split at h
  · split at h
    · cases h
      exact ⟨rfl, rfl, rfl, rfl, rfl, .inr rfl, .inl rfl⟩
    · next h0 =>
        cases h
        exact ⟨rfl, rfl, rfl, rfl, rfl, .inl rfl, .inr ⟨rfl, not_not.1 h0⟩⟩
  · repeat' split at h
    all_goals
      cases h
      exact ⟨rfl, rfl, rfl, rfl, rfl, .inl rfl, .inl rfl⟩

/-- The value behind a header name, read on a connection with more bytes. -/
theorem headerValue_append {k text n : ℕ} {name : Bytes} (hn : name.length = n)
    (h : Terminated c.readBuf text k) (hcmp : strncasecmp (c.str text) name n = true) :
    Terminated c.readBuf (text + n + strspn (c.str (text + n)) blanks) k ∧
      (c.append q).str (text + n) = c.str (text + n) := by
  have hrest := terminated_add h (CString.length_of_strncasecmp hcmp hn)
  exact ⟨terminated_add hrest (CString.strspn_le _ _), str_append hrest⟩

/-- **`parse_headers` reads its line only.** -/
theorem parseHeaders_append {k text : ℕ} {ret : HttpCode} (ht : Terminated c.readBuf text k)
    (h : c.parseHeaders text = (ret, c')) :
    (c.append q).parseHeaders text = (ret, c'.append q) := by
  have hlen : (c.append q).contentLength = c.contentLength := rfl
  simp only [parseHeaders, str_append ht, hlen] at h ⊢
  split at h
  · next hline =>
      rw [if_pos hline]
      split at h
      · next h0 =>
          cases h
          rw [if_pos h0]
          rfl
      · next h0 =>
          cases h
          rw [if_neg h0]
  · next hline =>
      rw [if_neg hline]
      split at h
      · next hcmp =>
          obtain ⟨hval, heq⟩ := headerValue_append (q := q) (n := 11) rfl ht hcmp
          rw [if_pos hcmp, heq, str_append hval]
          split at h
          · next halive =>
              cases h
              rw [if_pos halive]
              rfl
          · next halive =>
              cases h
              rw [if_neg halive]
      · next hcmp =>
          rw [if_neg hcmp]
          split at h
          · next hcmp' =>
              obtain ⟨hval, heq⟩ := headerValue_append (q := q) (n := 15) rfl ht hcmp'
              cases h
              rw [if_pos hcmp', heq, str_append hval]
              rfl
          · next hcmp' =>
              rw [if_neg hcmp']
              split at h
              · next hhost =>
                  obtain ⟨-, heq⟩ := headerValue_append (q := q) (n := 5) rfl ht hhost
                  cases h
                  rw [if_pos hhost, heq]
                  rfl
              · next hhost =>
                  cases h
                  rw [if_neg hhost]

/-! ### Passes -/

/-- The positions of the parser between two passes. -/
structure WellPlaced (c : HttpConn) : Prop where
  fits : c.Fits
  start_le : c.startLine ≤ c.checkedIdx
  checked_le : c.checkedIdx ≤ c.readIdx
  request : c.checkState = .requestLine → c.contentLength = 0
  content : c.checkState = .content → c.startLine = c.checkedIdx
  url : c.UrlBefore c.checkedIdx

/-- A connection after `init`. -/
def fresh (size : ℕ) : HttpConn := { readBufSize := size }

theorem wellPlaced_fresh (size : ℕ) : (fresh size).WellPlaced where
  fits := Nat.zero_le _
  start_le := le_refl _
  checked_le := le_refl _
  request := fun _ => rfl
  content := by
    intro h
    cases h
  url := by
    intro u h
    cases h

theorem WellPlaced.append (h : c.WellPlaced) (hf : (c.append q).Fits) :
    (c.append q).WellPlaced where
  fits := hf
  start_le := h.start_le
  checked_le := by
    rw [readIdx_append]
    exact le_trans h.checked_le (Nat.le_add_right _ _)
  request := h.request
  content := h.content
  url := fun u hu => (h.url u hu).append q

theorem WellPlaced.zero (h : c.WellPlaced) (i : ℕ) : (c.zero i).WellPlaced where
  fits := by
    unfold Fits
    rw [readIdx_zero]
    exact h.fits
  start_le := h.start_le
  checked_le := by
    rw [readIdx_zero]
    exact h.checked_le
  request := h.request
  content := h.content
  url := fun u hu => (h.url u hu).set i

/-- The two outcomes of a line that has ended, on a connection and on the same one with more
bytes. -/
inductive Takes (q : Bytes) (c : HttpConn) :
    Except Fault (Next × HttpConn) → Except Fault (Next × HttpConn) → Prop
  | null : Takes q c (.error .nullPointer) (.error .nullPointer)
  | ok (next : Next) (c' : HttpConn) :
      c'.WellPlaced → c'.checkedIdx = c.checkedIdx → c'.readIdx = c.readIdx →
      c'.readBufSize = c.readBufSize →
      (next = .again ∨
        (next = .stop .badRequest ∨ next = .stop .getRequest) ∧ c'.contentLength = 0) →
      Takes q c (.ok (next, c')) (.ok (next, c'.append q))

/-- The connection after a line is well placed. -/
theorem wellPlaced_of_taken (h : c.WellPlaced) (hchk : c'.checkedIdx = c.checkedIdx)
    (hidx : c'.readIdx = c.readIdx) (hsize : c'.readBufSize = c.readBufSize)
    (hstart : c'.startLine = c.checkedIdx) (hu : c'.UrlBefore c.checkedIdx)
    (hreq : c'.checkState = .requestLine → c'.contentLength = 0) : c'.WellPlaced where
  fits := by
    have := h.fits
    unfold Fits at this ⊢
    rwa [hidx, hsize]
  start_le := by rw [hstart, hchk]
  checked_le := by
    rw [hchk, hidx]
    exact h.checked_le
  request := hreq
  content := fun _ => hstart.trans hchk.symm
  url := by
    rw [hchk]
    exact hu

/-- **What is made of a line does not depend on the bytes behind it.** -/
theorem takeLine_takes (h : c.WellPlaced) (hf : (c.append q).Fits)
    (hz : Terminated c.readBuf c.startLine c.checkedIdx) :
    Takes q c c.takeLine (c.append q).takeLine := by
  have hnext : (c.append q).nextLine = c.nextLine.append q := rfl
  have hstate : (c.append q).checkState = c.checkState := rfl
  have hstart : (c.append q).startLine = c.startLine := rfl
  unfold takeLine
  rw [hnext, hstate, hstart]
  by_cases hreq : c.checkState = .requestLine
  · have hfol := parseRequestLine_follows (c := c.nextLine) hf h.checked_le hz
    rw [if_pos hreq, if_pos hreq]
    generalize c.nextLine.parseRequestLine c.startLine = r at hfol
    generalize (c.nextLine.append q).parseRequestLine c.startLine = r' at hfol
    cases hfol with
    | null => exact .null
    | ok ret c' hk hu hn hr =>
        have h0 : c'.contentLength = 0 := hk.contentLength.trans (h.request hreq)
        refine .ok _ c' ?_ hk.checkedIdx hk.readIdx hk.size ?_
        · exact wellPlaced_of_taken h hk.checkedIdx hk.readIdx hk.size hk.startLine hu fun _ => h0
        · rcases hr with rfl | rfl
          · exact .inl rfl
          · exact .inr ⟨.inl rfl, h0⟩
  · rw [if_neg hreq, if_neg hreq]
    cases hr : c.nextLine.parseHeaders c.startLine with
    | mk ret c' =>
        rw [parseHeaders_append (c := c.nextLine) hz hr]
        have hspec := parseHeaders_spec hr
        have hidx : c'.readIdx = c.readIdx := by
          rw [readIdx, hspec.readBuf]
          rfl
        refine .ok _ c' ?_ hspec.checkedIdx hidx hspec.size ?_
        · refine wellPlaced_of_taken h hspec.checkedIdx hidx hspec.size hspec.startLine ?_ ?_
          · intro u hu
            rw [hspec.readBuf]
            exact h.url u (hspec.url ▸ hu)
          · intro h'
            rcases hspec.state with h'' | h''
            · exact absurd (h''.symm.trans h') hreq
            · cases h''.symm.trans h'
        · rcases hspec.ret with rfl | ⟨rfl, h0⟩
          · exact .inl rfl
          · exact .inr ⟨.inr rfl, h0⟩

/-- A line that `parse_line` has ended leaves the connection well placed, and ends before what was
read so far. -/
theorem wellPlaced_ended {i : ℕ} (h : c.WellPlaced) (hs : c.checkState ≠ .content)
    (hi : c.checkedIdx ≤ i + 1) (hle : i + 2 ≤ c.readIdx) :
    (c.ended i).WellPlaced ∧
      Terminated (c.ended i).readBuf (c.ended i).startLine (c.ended i).checkedIdx := by
  have hidx : (c.ended i).readIdx = c.readIdx := by simp [ended, readIdx]
  refine ⟨?_, ?_⟩
  · constructor
    · unfold Fits
      rw [hidx]
      exact h.fits
    · exact h.start_le.trans (hi.trans (Nat.le_succ _))
    · rw [hidx]
      exact hle
    · exact h.request
    · intro h'
      exact absurd h' hs
    · intro u hu
      exact (((h.url u hu).set i).set (i + 1)).mono (hi.trans (Nat.le_succ _))
  · refine ⟨i + 1, h.start_le.trans hi, Nat.lt_succ_self _, ?_⟩
    have hlt : i + 1 < c.readBuf.length := hle
    simp [ended, zero, hlt]

/-- A connection on which `parse_line` only moved on. -/
theorem wellPlaced_moved {k : ℕ} (h : c.WellPlaced) (hs : c.checkState ≠ .content)
    (hk : c.checkedIdx ≤ k) (hle : k ≤ c.readIdx) :
    WellPlaced { c with checkedIdx := k } where
  fits := h.fits
  start_le := h.start_le.trans hk
  checked_le := hle
  request := h.request
  content := fun h' => absurd h' hs
  url := fun u hu => (h.url u hu).mono hk

theorem pass_eq_line (hs : c.checkState ≠ .content) {st : LineStatus}
    (h : c.parseLine = .ok (st, c')) :
    c.pass = if st = .lineOk then c'.takeLine else .ok (.stop .noRequest, c') := by
  rw [pass, if_neg hs, h]
  cases st <;> rfl

/-- The outcomes of a pass over a line, on a connection and on the same one with more bytes.  A
pass that asks for more bytes leaves a connection that goes on as the longer one does. -/
inductive PassLine (q : Bytes) (c : HttpConn) :
    Except Fault (Next × HttpConn) → Except Fault (Next × HttpConn) → Prop
  | null : PassLine q c (.error .nullPointer) (.error .nullPointer)
  | taken (next : Next) (c' : HttpConn) :
      c'.WellPlaced → c.checkedIdx < c'.checkedIdx → c'.readIdx = c.readIdx →
      c'.readBufSize = c.readBufSize →
      (next = .again ∨
        (next = .stop .badRequest ∨ next = .stop .getRequest) ∧ c'.contentLength = 0) →
      PassLine q c (.ok (next, c')) (.ok (next, c'.append q))
  | more (c' : HttpConn) :
      c'.WellPlaced → c.checkedIdx ≤ c'.checkedIdx → c'.readIdx = c.readIdx →
      c'.readBufSize = c.readBufSize → c'.checkState ≠ .content →
      PassLine q c (.ok (.stop .noRequest, c')) (c'.append q).pass

/-- **A pass over a line, with and without the bytes that arrive later.** -/
theorem pass_line_append (h : c.WellPlaced) (hf : (c.append q).Fits)
    (hs : c.checkState ≠ .content) : PassLine q c c.pass (c.append q).pass := by
  have hsq : (c.append q).checkState ≠ .content := hs
  obtain ⟨st, d, hline, hspec⟩ := parseLine_spec h.fits h.checked_le
  have happ := parseLine_append hf h.checked_le hline
  rw [pass_eq_line hs hline]
  cases hspec with
  | lineOk i hi hle =>
      rw [if_neg (show LineStatus.lineOk ≠ .lineOpen by simp)] at happ
      rw [if_pos rfl, pass_eq_line hsq happ, if_pos rfl]
      have hi' : c.checkedIdx ≤ i + 1 := by omega
      obtain ⟨hwell, hz⟩ := wellPlaced_ended h hs hi' hle
      have hidx : (c.ended i).readIdx = c.readIdx := by simp [ended, readIdx]
      have hfit : ((c.ended i).append q).Fits := by
        unfold Fits at hf ⊢
        rw [readIdx_append] at hf ⊢
        rw [hidx]
        exact hf
      have htake := takeLine_takes hwell hfit hz
      generalize (c.ended i).takeLine = r at htake
      generalize ((c.ended i).append q).takeLine = r' at htake
      cases htake with
      | null => exact .null
      | ok next c' h₁ h₂ h₃ h₄ h₅ =>
          refine .taken next c' h₁ ?_ (h₃.trans hidx) h₄ h₅
          rw [h₂]
          exact Nat.lt_succ_of_le hi'
  | lineBad k hk hle =>
      have hbadOpen : LineStatus.lineBad ≠ .lineOpen := by simp
      have hbadOk : LineStatus.lineBad ≠ .lineOk := by simp
      rw [if_neg hbadOpen] at happ
      rw [if_neg hbadOk]
      have hbad := parseLine_bad (c := c.append q) (h.append hf).checked_le happ
      rw [pass_eq_line hsq happ, if_neg hbadOk]
      have hsk : (append { c with checkedIdx := k } q).checkState ≠ .content := hs
      have := PassLine.more (q := q) (c := c) _ (wellPlaced_moved h hs hk hle.le) hk rfl rfl hs
      rwa [pass_eq_line hsk hbad, if_neg hbadOk] at this
  | lineOpen k hk hle =>
      rw [if_pos rfl] at happ
      rw [if_neg (show LineStatus.lineOpen ≠ .lineOk by simp)]
      have hsk : (append { c with checkedIdx := k } q).checkState ≠ .content := hs
      have hpass : (c.append q).pass = (append { c with checkedIdx := k } q).pass := by
        rw [pass, if_neg hsq, happ, pass, if_neg hsk]
      rw [hpass]
      exact .more _ (wellPlaced_moved h hs hk (by omega)) hk rfl rfl hs

/-- **A pass in the state `CHECK_STATE_CONTENT`.** -/
theorem pass_content (h : c.WellPlaced) (hs : c.checkState = .content) :
    c.pass =
      if c.contentLength + c.checkedIdx < LONG_MIN ∨ LONG_MAX < c.contentLength + c.checkedIdx then
        .error .overflow
      else if c.contentLength + c.checkedIdx ≤ c.readIdx then
        (c.store (c.contentLength + c.checkedIdx)).map fun d => (.stop .getRequest, d)
      else .ok (.stop .noRequest, c) := by
  have hstart := h.content hs
  have hnext : c.nextLine = c :=
    congrArg (fun k => { c with startLine := k }) hstart.symm
  rw [pass, if_pos hs, takeContent, hnext, parseContent, hstart, add_comm (c.checkedIdx : ℤ)]
  simp only
  split
  · rfl
  · split
    · cases c.store (c.contentLength + c.checkedIdx) <;> rfl
    · rfl

/-- The outcomes of a pass over a body, on a connection and on the same one with more bytes. -/
inductive PassContent (q : Bytes) (c : HttpConn) :
    Except Fault (Next × HttpConn) → Except Fault (Next × HttpConn) → Prop
  | fault (f : Fault) : PassContent q c (.error f) (.error f)
  | done (i : ℕ) :
      (i : ℤ) = c.contentLength + c.checkedIdx → i ≤ c.readIdx →
      PassContent q c (.ok (.stop .getRequest, c.zero i))
        (.ok (.stop .getRequest, (c.append q).zero i))
  | more :
      (c.readIdx : ℤ) < c.contentLength + c.checkedIdx →
      PassContent q c (.ok (.stop .noRequest, c)) (c.append q).pass

/-- **A pass over a body, with and without the bytes that arrive later.** -/
theorem pass_content_append (h : c.WellPlaced) (hf : (c.append q).Fits)
    (hs : c.checkState = .content) : PassContent q c c.pass (c.append q).pass := by
  have hle : (c.readIdx : ℤ) ≤ (c.append q).readIdx := by simp
  have hpass := pass_content (h.append hf) hs
  have hsum : (c.append q).contentLength + (c.append q).checkedIdx =
      c.contentLength + c.checkedIdx := rfl
  rw [hsum] at hpass
  rw [pass_content h hs]
  split
  · next hover =>
      rw [hpass, if_pos hover]
      exact .fault .overflow
  · next hover =>
      rw [if_neg hover] at hpass
      split
      · next hdone =>
          rw [hpass, if_pos (hdone.trans hle)]
          cases hst : c.store (c.contentLength + c.checkedIdx) with
          | error f =>
              have hst' : (c.append q).store (c.contentLength + c.checkedIdx) = .error f := by
                unfold store at hst ⊢
                split at hst
                · cases hst
                · next hrange => exact (if_neg hrange).trans hst
              rw [hst']
              exact .fault f
          | ok d =>
              obtain ⟨i, hi, hsize, rfl⟩ := eq_zero_of_store hst
              rw [hi, store_eq (c := c.append q) hsize]
              exact .done i hi.symm (by exact_mod_cast hi ▸ hdone)
      · next hdone => exact .more (not_le.1 hdone)

end Gateway.HttpConn
