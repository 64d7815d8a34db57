/-
The grammar of the request line, against `parse_request_line`.

`parse_request_line` cuts its line in place with `strpbrk`, `strspn` and `strchr`.  This module
states which lines it should take, as a grammar on byte strings, and compares.  The parts of the
line that the grammar names are the parts that the pointers of the parser end up at.

Main definitions:

* `Gateway.HttpConn.RequestLine` — method, blanks, target, blanks, version;
* `Gateway.HttpConn.Target` — a target with its path, `Gateway.HttpConn.NoPath` — a target that is
  `http://` and a text without a slash;
* `Gateway.HttpConn.TakesLine` — what is promised of `parse_request_line`.

Main results:

* `Gateway.HttpConn.parseRequestLine_eq` — the way of the parser through a line of the grammar;
* `Gateway.HttpConn.parseRequestLine_cases` — every other line is turned down;
* `Gateway.HttpConn.request_line_sound` — **the promise is kept** on all lines but those whose
  target has no path, which make the parser follow a null pointer.
-/

import InferenceGateway.HttpParse

set_option relaxedAutoImplicit false
set_option autoImplicit false

namespace Gateway.HttpConn

open CString (strAt strpbrk strspn strchr strcasecmp strncasecmp Terminated)

variable {c c' : HttpConn}

/-! ### The grammar -/

/-- The blanks between two parts of a request line. -/
def Blanks (b : Bytes) : Prop := b ≠ [] ∧ ∀ x ∈ b, x ∈ blanks

/-- `RequestLine line method target pos`: the line is a method, blanks, a target that starts at
`pos`, blanks, and `HTTP/1.1`. -/
inductive RequestLine : Bytes → HttpMethod → Bytes → ℕ → Prop
  | mk {method : HttpMethod} (name b₁ target b₂ version : Bytes) :
      methodOf name = some method → Blanks b₁ → target ≠ [] → (∀ x ∈ target, x ∉ blanks) →
      Blanks b₂ → strcasecmp version (ascii "HTTP/1.1") = true →
      RequestLine (name ++ (b₁ ++ (target ++ (b₂ ++ version)))) method target
        (name.length + b₁.length)

/-- `Target target path`: the target is a path, or a scheme and a text with a slash, and the path
starts at the first slash behind the scheme. -/
inductive Target : Bytes → Bytes → Prop
  | origin (rest : Bytes) : Target (47 :: rest) (47 :: rest)
  | http (scheme host rest : Bytes) : strcasecmp scheme (ascii "http://") = true → 47 ∉ host →
      Target (scheme ++ (host ++ 47 :: rest)) (47 :: rest)
  | https (scheme host rest : Bytes) : strcasecmp scheme (ascii "https://") = true → 47 ∉ host →
      Target (scheme ++ (host ++ 47 :: rest)) (47 :: rest)

/-- The target is `http://` and a text without a slash. -/
def NoPath (target : Bytes) : Prop :=
  ∃ scheme host, target = scheme ++ host ∧ strcasecmp scheme (ascii "http://") = true ∧ 47 ∉ host

/-- Neither a path nor a null pointer comes of this line. -/
def Refused (line : Bytes) : Prop :=
  ∀ method target pos, RequestLine line method target pos →
    ¬ NoPath target ∧ ∀ path, ¬ Target target path

/-- What is promised of `parse_request_line`: it ends, without a null pointer, in one of two codes;
it goes on to the headers exactly for a request line whose target has a path, and then `m_url`
points to that path. -/
def TakesLine (c : HttpConn) (text : ℕ) : Prop :=
  ∃ ret c', c.parseRequestLine text = .ok (ret, c') ∧ (ret = .badRequest ∨ ret = .noRequest) ∧
    (ret = .noRequest ↔
      ∃ method target pos path, RequestLine (c.str text) method target pos ∧ Target target path) ∧
    ∀ method target pos path, RequestLine (c.str text) method target pos → Target target path →
      c'.method = method ∧ c'.checkState = .header ∧
        ∃ u, c'.url = some u ∧ u + path.length = text + pos + target.length ∧ c'.str u = path

/-! ### Words and blanks -/

theorem not_blank_of_strcasecmp {s t : Bytes} (h : strcasecmp s t = true)
    (ht : ∀ x ∈ t.map CString.tolower, x ∉ blanks) : ∀ x ∈ s, x ∉ blanks := by
  intro x hx hb
  have hmem : CString.tolower x ∈ t.map CString.tolower := by
    rw [← beq_iff_eq.1 h]
    exact List.mem_map_of_mem hx
  have hlow : CString.tolower x = x := by
    rcases List.mem_cons.1 hb with rfl | hb
    · rfl
    · obtain rfl := List.mem_singleton.1 hb
      rfl
  rw [hlow] at hmem
  exact ht x hmem hb

theorem not_blank_of_methodOf {name : Bytes} {method : HttpMethod}
    (h : methodOf name = some method) : ∀ x ∈ name, x ∉ blanks := by
  unfold methodOf at h
  split at h
  · next hget => exact not_blank_of_strcasecmp hget (CString.forall_of_all rfl)
  · split at h
    · next hpost => exact not_blank_of_strcasecmp hpost (CString.forall_of_all rfl)
    · cases h

/-- Cutting off a word: the store ends it, and the string behind it starts at the next offset. -/
theorem store_word {i k : ℕ} {w r : Bytes} {b : UInt8} (hf : c.Fits)
    (h : Terminated c.readBuf i k) (hs : c.str i = w ++ b :: r) :
    c.store (i + w.length : ℕ) = .ok (c.zero (i + w.length)) ∧
      (c.zero (i + w.length)).str i = w ∧ (c.zero (i + w.length)).str (i + w.length + 1) = r ∧
      Terminated (c.zero (i + w.length)).readBuf (i + w.length + 1) k := by
  have hlen : w.length < (c.str i).length := by simp [hs]
  have hin := lt_of_terminated h hlen
  unfold Fits at hf
  refine ⟨store_eq (by omega), ?_, ?_, ?_⟩
  · rw [str, zero_readBuf, CString.strAt_set hlen]
    exact (congrArg (List.take w.length) hs).trans (by simp)
  · rw [str, zero_readBuf, CString.strAt_set_of_lt (Nat.lt_add_one _), Nat.add_assoc,
      CString.strAt_add hlen]
    exact (congrArg (List.drop (w.length + 1)) hs).trans (by simp [← List.drop_drop])
  · exact (terminated_add h (d := w.length + 1) hlen).set _

/-- Skipping blanks: the string behind them starts at the next offset. -/
theorem str_skip {i k : ℕ} {w r : Bytes} (h : Terminated c.readBuf i k) (hs : c.str i = w ++ r) :
    c.str (i + w.length) = r ∧ Terminated c.readBuf (i + w.length) k := by
  have hlen : w.length ≤ (c.str i).length := by simp [hs]
  refine ⟨?_, terminated_add h hlen⟩
  rw [str, CString.strAt_add hlen]
  exact (congrArg (List.drop w.length) hs).trans (by simp)

/-! ### The target -/

/-- The step over a scheme, on a target that begins with it. -/
theorem skipScheme_eq {u k : ℕ} {scheme p host : Bytes} (h : Terminated c.readBuf u k)
    (hs : c.str u = p ++ host) (hp : strcasecmp p scheme = true) :
    c.skipScheme scheme (some u) = .ok ((strchr host 47).map (u + p.length + ·)) := by
  have hlen := CString.length_of_strcasecmp hp
  have hcmp : strncasecmp (c.str u) scheme scheme.length = true :=
    CString.strncasecmp_iff.2 ⟨p, host, hs, hp⟩
  have hrest := (str_skip h hs).1
  rw [hlen] at hrest ⊢
  simp only [skipScheme, hcmp, if_true, hrest]

/-- The step over a scheme, on a target that does not begin with it. -/
theorem skipScheme_not {u : ℕ} {scheme : Bytes}
    (h : ¬ ∃ p r, c.str u = p ++ r ∧ strcasecmp p scheme = true) :
    c.skipScheme scheme (some u) = .ok (some u) := by
  rw [skipScheme, if_neg fun hcmp => h (CString.strncasecmp_iff.1 hcmp)]

/-- A text that begins with a slash begins with no scheme. -/
theorem not_scheme_of_slash {t rest scheme : Bytes} {b : UInt8} (ht : t = 47 :: rest)
    (hb : CString.tolower b ≠ 47) : ¬ ∃ p r, t = p ++ r ∧ strcasecmp p (b :: scheme) = true := by
  rintro ⟨p, r, rfl, h⟩
  cases p with
  | nil => simp [strcasecmp] at h
  | cons a p =>
      obtain rfl : a = 47 := by simpa using congrArg List.head? ht
      have := congrArg List.head? (beq_iff_eq.1 h)
      simp only [List.map_cons, List.head?_cons, Option.some.injEq] at this
      exact hb (this.symm.trans rfl)

/-- No text begins with both schemes. -/
theorem not_both {t p r p' r' : Bytes} (h : t = p ++ r) (h' : t = p' ++ r')
    (hp : strcasecmp p (ascii "https://") = true) (hp' : strcasecmp p' (ascii "http://") = true) :
    False := by
  have h₁ := congrArg (·[4]?) (beq_iff_eq.1 hp)
  have h₂ := congrArg (·[4]?) (beq_iff_eq.1 hp')
  have hlen := CString.length_of_strcasecmp hp
  have hlen' := CString.length_of_strcasecmp hp'
  have hpos : (4 : ℕ) < p.length ∧ 4 < p'.length := by
    constructor
    · rw [hlen]; decide
    · rw [hlen']; decide
  have hget : p[4]? = p'[4]? := by
    rw [← List.getElem?_append_left hpos.1, ← h, h', List.getElem?_append_left hpos.2]
  simp only [List.getElem?_map, hget] at h₁ h₂
  rw [h₁] at h₂
  exact absurd h₂ (by decide)

/-- The byte at an offset is the first of the string there, or the zero behind it. -/
theorem byteAt_eq (c : HttpConn) (i : ℕ) : c.byteAt i = (c.str i).headD 0 := by
  have hget : c.byteAt i = (c.readBuf.drop i).headD 0 := by
    rw [byteAt, List.getD_eq_getElem?_getD, List.headD_eq_head?_getD, List.head?_drop]
  rw [hget, str, strAt]
  cases c.readBuf.drop i with
  | nil => rfl
  | cons b l => by_cases hb : b = 0 <;> simp [CString.cut, hb]

/-- The end of `parse_request_line`, when the scheme `http://` was skipped or is not there. -/
theorem requestTarget_eq {u v : ℕ} {url : Option ℕ}
    (hhttp : c.skipScheme (ascii "http://") (some u) = .ok (some v))
    (hhttps : c.skipScheme (ascii "https://") (some v) = .ok url) :
    c.requestTarget u = .ok (match url with
      | none => (.badRequest, { c with url := none })
      | some v =>
          if c.byteAt v = 47 then (.noRequest, { c with url := some v, checkState := .header })
          else (.badRequest, { c with url := some v })) := by
  simp only [requestTarget, hhttp, hhttps, bind, Except.bind, pure, Except.pure]
  cases url with
  | none => rfl
  | some v =>
      have hbyte : ∀ d : HttpConn, d.readBuf = c.readBuf → d.byteAt v = c.byteAt v := fun d hd => by
        rw [byteAt, byteAt, hd]
      simp only [hbyte { c with url := some v } rfl]
      split <;> rfl

/-- **A target with a path is taken**, and `m_url` is that path. -/
theorem requestTarget_path {u k : ℕ} {target path : Bytes} (h : Terminated c.readBuf u k)
    (hs : c.str u = target) (ht : Target target path) :
    ∃ v, v + path.length = u + target.length ∧ c.str v = path ∧
      c.requestTarget u = .ok (.noRequest, { c with url := some v, checkState := .header }) := by
  have hslash : ∀ {v rest}, c.str v = 47 :: rest → c.byteAt v = 47 := fun {v rest} hv => by
    rw [byteAt_eq, hv, List.headD_cons]
  cases ht with
  | origin rest =>
      refine ⟨u, rfl, hs, ?_⟩
      rw [requestTarget_eq (skipScheme_not (hs ▸ not_scheme_of_slash rfl (by decide)))
        (skipScheme_not (hs ▸ not_scheme_of_slash rfl (by decide)))]
      simp only [hslash hs, if_true]
  | http scheme host rest hscheme hhost =>
      have hv := (str_skip (str_skip h hs).2 (str_skip h hs).1).1
      refine ⟨u + scheme.length + host.length, by simp; omega, hv, ?_⟩
      have hhttp := skipScheme_eq h hs hscheme
      rw [CString.strchr_append hhost] at hhttp
      rw [requestTarget_eq hhttp (skipScheme_not (hv ▸ not_scheme_of_slash rfl (by decide)))]
      simp only [hslash hv, if_true]
  | https scheme host rest hscheme hhost =>
      have hv := (str_skip (str_skip h hs).2 (str_skip h hs).1).1
      refine ⟨u + scheme.length + host.length, by simp; omega, hv, ?_⟩
      have hhttps := skipScheme_eq h hs hscheme
      rw [CString.strchr_append hhost] at hhttps
      have hnot : ¬ ∃ p r, c.str u = p ++ r ∧ strcasecmp p (ascii "http://") = true := by
        rintro ⟨p, r, hpr, hp⟩
        exact not_both hs hpr hscheme hp
      rw [requestTarget_eq (skipScheme_not hnot) hhttps]
      simp only [Option.map_some, hslash hv, if_true]

/-- **`http://` without a slash behind it is a null pointer** for the second `strncasecmp`. -/
theorem requestTarget_noPath {u k : ℕ} (h : Terminated c.readBuf u k) (ht : NoPath (c.str u)) :
    c.requestTarget u = .error .nullPointer := by
  obtain ⟨scheme, host, hs, hscheme, hhost⟩ := ht
  have hhttp := skipScheme_eq h hs hscheme
  rw [CString.strchr_eq_none hhost] at hhttp
  simp only [requestTarget, hhttp, bind, Except.bind, Option.map_none]
  rfl

/-- **Every other target is turned down.** -/
theorem requestTarget_other {u k : ℕ} (h : Terminated c.readBuf u k) (hno : ¬ NoPath (c.str u))
    (hpath : ∀ path, ¬ Target (c.str u) path) :
    ∃ c', c.requestTarget u = .ok (.badRequest, c') := by
  have hnot : ¬ ∃ p r, c.str u = p ++ r ∧ strcasecmp p (ascii "http://") = true := by
    rintro ⟨p, r, hs, hp⟩
    refine hno ⟨p, r, hs, hp, fun hr => ?_⟩
    obtain ⟨host, rest, rfl, hhost⟩ := CString.split_of_mem hr
    exact hpath (47 :: rest) (by rw [hs]; exact .http p host rest hp hhost)
  by_cases hhttps : ∃ p r, c.str u = p ++ r ∧ strcasecmp p (ascii "https://") = true
  · obtain ⟨p, r, hs, hp⟩ := hhttps
    have hr : 47 ∉ r := by
      intro hr
      obtain ⟨host, rest, rfl, hhost⟩ := CString.split_of_mem hr
      exact hpath (47 :: rest) (by rw [hs]; exact .https p host rest hp hhost)
    have hskip := skipScheme_eq h hs hp
    rw [CString.strchr_eq_none hr] at hskip
    exact ⟨_, requestTarget_eq (skipScheme_not hnot) hskip⟩
  · rw [requestTarget_eq (skipScheme_not hnot) (skipScheme_not hhttps)]
    have hbyte : c.byteAt u ≠ 47 := by
      rw [byteAt_eq]
      cases hs : c.str u with
      | nil => simp
      | cons b rest =>
          rintro rfl
          exact hpath (47 :: rest) (by rw [hs]; exact .origin rest)
    simp only [if_neg hbyte]
    exact ⟨_, rfl⟩

/-! ### The line -/

/-- A blank and what is left of a run of blanks. -/
theorem Blanks.split {b : Bytes} (h : Blanks b) :
    ∃ x b', b = x :: b' ∧ x ∈ blanks ∧ ∀ y ∈ b', y ∈ blanks := by
  obtain ⟨hne, hall⟩ := h
  cases b with
  | nil => exact absurd rfl hne
  | cons x b' =>
      obtain ⟨hx, hall⟩ := List.forall_mem_cons.1 hall
      exact ⟨x, b', rfl, hx, hall⟩

/-- What the parser does with a word and the blanks behind it: it ends the word with a zero and
goes on where the blanks end. -/
theorem takeWord {i k : ℕ} {w b r : Bytes} (hf : c.Fits)
    (h : Terminated c.readBuf i k) (hs : c.str i = w ++ (b ++ r)) (hw : ∀ x ∈ w, x ∉ blanks)
    (hb : Blanks b) (hr : ∀ x ∈ r.head?, x ∉ blanks) :
    ∃ d : HttpConn, d = c.zero (i + w.length) ∧
      strpbrk (c.str i) blanks = some w.length ∧ c.store (i + w.length : ℕ) = .ok d ∧
      d.str i = w ∧
      i + w.length + 1 + strspn (d.str (i + w.length + 1)) blanks = i + (w.length + b.length) ∧
      d.str (i + (w.length + b.length)) = r ∧
      Terminated d.readBuf (i + (w.length + b.length)) k := by
  obtain ⟨x, b', rfl, hx, hb'⟩ := hb.split
  obtain ⟨hstore, hword, hrest, hterm⟩ := store_word hf h (r := b' ++ r) (b := x) (w := w) hs
  have hspan : strspn (b' ++ r) blanks = b'.length := CString.strspn_append hb' hr
  have hpos : i + (w.length + (x :: b').length) = i + w.length + 1 + b'.length := by
    simp only [List.length_cons]
    omega
  refine ⟨_, rfl, hs ▸ CString.strpbrk_append hw hx _, hstore, hword, ?_, ?_, ?_⟩
  · rw [hrest, hspan, hpos]
  · rw [hpos]
    exact (str_skip hterm hrest).1
  · rw [hpos]
    exact (str_skip hterm hrest).2

/-- **The way through a line of the grammar**: the parser comes to the target. -/
theorem parseRequestLine_eq {text k pos : ℕ} {method : HttpMethod} {target : Bytes} (hf : c.Fits)
    (h : Terminated c.readBuf text k) (hline : RequestLine (c.str text) method target pos) :
    ∃ d : HttpConn, c.parseRequestLine text = d.requestTarget (text + pos) ∧ d.method = method ∧
      d.str (text + pos) = target ∧ Terminated d.readBuf (text + pos) k := by
  generalize hs : c.str text = line at hline
  cases hline with
  | mk name b₁ target b₂ version hmethod hb₁ hne hword hb₂ hversion =>
      have hname := not_blank_of_methodOf hmethod
      have hhead₁ : ∀ x ∈ (target ++ (b₂ ++ version)).head?, x ∉ blanks := by
        intro x hx
        cases target with
        | nil => exact absurd rfl hne
        | cons y target =>
            obtain rfl : y = x := by simpa using hx
            exact hword _ List.mem_cons_self
      have hhead₂ : ∀ x ∈ version.head?, x ∉ blanks := fun x hx =>
        not_blank_of_strcasecmp hversion (CString.forall_of_all rfl) x (List.mem_of_mem_head? hx)
      obtain ⟨d, hd, hfind, hstore, hnameStr, hskip, htarget, hterm⟩ :=
        takeWord hf h hs hname hb₁ hhead₁
      have hfd : d.Fits := by
        rw [hd, Fits, readIdx_zero]
        exact hf
      obtain ⟨d', hd', hfind', hstore', htargetStr, hskip', hversionStr, hterm'⟩ :=
        takeWord hfd hterm htarget hword hb₂ hhead₂
      refine ⟨{ d' with
        method := method
        url := some (text + (name.length + b₁.length))
        version := some (text + (name.length + b₁.length) + (target.length + b₂.length)) },
        ?_, rfl, htargetStr, ?_⟩
      · rw [hs] at hfind
        simp only [parseRequestLine, hs, hfind, hstore, hnameStr, hmethod, hskip, hfind', hstore',
          hskip', bind, Except.bind]
        exact if_pos ((congrArg (strcasecmp · (ascii "HTTP/1.1")) hversionStr).trans hversion)
      · rw [hd']
        exact hterm.set _

/-- **A line outside the grammar is turned down.** -/
theorem parseRequestLine_cases {text k : ℕ} (hf : c.Fits) (h : Terminated c.readBuf text k) :
    (∃ method target pos, RequestLine (c.str text) method target pos) ∨
      ∃ c', c.parseRequestLine text = .ok (.badRequest, c') := by
  rcases CString.strpbrk_cases (c.str text) blanks with ⟨hfind, -⟩ | ⟨w, b, r, hs, hw, hb, hfind⟩
  · exact .inr ⟨{ c with url := none }, by simp only [parseRequestLine, hfind]⟩
  · obtain ⟨hstore, hname, hrest, hterm⟩ := store_word hf h hs
    have hfd : (c.zero (text + w.length)).Fits := by
      rw [Fits, readIdx_zero]
      exact hf
    generalize c.zero (text + w.length) = d at hstore hname hrest hterm hfd
    cases hmethod : methodOf w with
    | none =>
        refine .inr ⟨{ d with url := some (text + w.length + 1) }, ?_⟩
        simp only [parseRequestLine, hfind, hstore, hname, hmethod, bind, Except.bind, pure,
          Except.pure]
    | some method =>
        obtain ⟨b₁, r₁, rfl, hb₁, hr₁, hspan⟩ := CString.strspn_cases r blanks
        obtain ⟨htarget, hterm₁⟩ := str_skip hterm hrest
        rcases CString.strpbrk_cases r₁ blanks with ⟨hfind₁, -⟩ |
          ⟨target, b', r₂, rfl, hword, hb', hfind₁⟩
        · refine .inr ⟨{ d with
              method := method
              url := some (text + w.length + 1 + b₁.length)
              version := none }, ?_⟩
          simp only [parseRequestLine, hfind, hstore, hname, hmethod, hrest, hspan, htarget, hfind₁,
            bind, Except.bind, pure, Except.pure]
        · obtain ⟨hstore₁, -, hrest₁, hterm₂⟩ := store_word hfd hterm₁ htarget
          generalize d.zero (text + w.length + 1 + b₁.length + target.length) = d'
            at hstore₁ hrest₁ hterm₂
          obtain ⟨b₂, version, rfl, hb₂, hr₂, hspan₁⟩ := CString.strspn_cases r₂ blanks
          have hversionStr := (str_skip hterm₂ hrest₁).1
          cases hversion : strcasecmp version (ascii "HTTP/1.1") with
          | true =>
              refine .inl ⟨method, target, w.length + (b :: b₁).length, ?_⟩
              have hne : target ≠ [] := by
                rintro rfl
                exact hr₁ b' rfl hb'
              have := RequestLine.mk w (b :: b₁) target (b' :: b₂) version hmethod
                ⟨List.cons_ne_nil _ _, by simpa [hb] using hb₁⟩ hne hword
                ⟨List.cons_ne_nil _ _, by simpa [hb'] using hb₂⟩ hversion
              rw [hs]
              simpa using this
          | false =>
              refine .inr ⟨{ d' with
                method := method
                url := some (text + w.length + 1 + b₁.length)
                version := some (text + w.length + 1 + b₁.length + target.length + 1 +
                  b₂.length) }, ?_⟩
              simp only [parseRequestLine, hfind, hstore, hname, hmethod, hrest, hspan, htarget,
                hfind₁, hstore₁, hrest₁, hspan₁, bind, Except.bind, pure, Except.pure]
              refine if_neg fun htrue => ?_
              have := (congrArg (strcasecmp · (ascii "HTTP/1.1")) hversionStr).symm.trans htrue
              rw [hversion] at this
              cases this

/-! ### What is kept of the promise -/

/-- A target without a path makes the parser follow a null pointer. -/
theorem parseRequestLine_noPath {text k pos : ℕ} {method : HttpMethod} {target : Bytes}
    (hf : c.Fits) (h : Terminated c.readBuf text k)
    (hline : RequestLine (c.str text) method target pos) (hno : NoPath target) :
    c.parseRequestLine text = .error .nullPointer := by
  obtain ⟨d, heq, -, hstr, hterm⟩ := parseRequestLine_eq hf h hline
  rw [heq]
  exact requestTarget_noPath hterm (hstr.symm ▸ hno)

/-- A target with a path is taken. -/
theorem parseRequestLine_path {text k pos : ℕ} {method : HttpMethod} {target path : Bytes}
    (hf : c.Fits) (h : Terminated c.readBuf text k)
    (hline : RequestLine (c.str text) method target pos) (ht : Target target path) :
    ∃ c', c.parseRequestLine text = .ok (.noRequest, c') ∧ c'.method = method ∧
      c'.checkState = .header ∧
        ∃ u, c'.url = some u ∧ u + path.length = text + pos + target.length ∧ c'.str u = path := by
  obtain ⟨d, heq, hmethod, hstr, hterm⟩ := parseRequestLine_eq hf h hline
  obtain ⟨v, hpos, hpath, hres⟩ := requestTarget_path hterm hstr ht
  exact ⟨_, heq.trans hres, hmethod, rfl, v, rfl, hpos, hpath⟩

/-- **A line without a target that can be read is turned down.** -/
theorem parseRequestLine_refused {text k : ℕ} (hf : c.Fits)
    (h : Terminated c.readBuf text k) (hline : Refused (c.str text)) :
    ∃ c', c.parseRequestLine text = .ok (.badRequest, c') := by
  rcases parseRequestLine_cases hf h with ⟨method, target, pos, hread⟩ | hbad
  · obtain ⟨hno, hpath⟩ := hline method target pos hread
    obtain ⟨d, heq, -, hstr, hterm⟩ := parseRequestLine_eq hf h hread
    rw [heq]
    exact requestTarget_other hterm (hstr.symm ▸ hno) (hstr.symm ▸ hpath)
  · exact hbad

/-- A connection whose first line asks for `http://a`. -/
def pathlessConn : HttpConn := { readBuf := ascii "GET http://a HTTP/1.1" ++ [0, 0] }

theorem pathless_line : RequestLine (pathlessConn.str 0) .get (ascii "http://a") 4 :=
  .mk (ascii "GET") (ascii " ") (ascii "http://a") (ascii " ") (ascii "HTTP/1.1") rfl
    ⟨by decide, CString.forall_of_all rfl⟩ (by decide) (CString.forall_of_all rfl)
    ⟨by decide, CString.forall_of_all rfl⟩ rfl

theorem pathless_fits : pathlessConn.Fits ∧ 22 ≤ pathlessConn.readIdx ∧
    Terminated pathlessConn.readBuf 0 22 :=
  ⟨show (23 : ℕ) ≤ 8388608 by decide, by decide, 21, by decide, by decide, rfl⟩

/-- **A null pointer from a client**: the line `GET http://a HTTP/1.1`. -/
theorem request_line_null : ¬ ∀ (c : HttpConn) (text k : ℕ), c.Fits → k ≤ c.readIdx →
    Terminated c.readBuf text k → c.TakesLine text := by
  intro hall
  obtain ⟨hf, hk, h⟩ := pathless_fits
  obtain ⟨ret, c', hres, -⟩ := hall _ _ _ hf hk h
  rw [parseRequestLine_noPath hf h pathless_line ⟨ascii "http://", ascii "a", rfl, rfl,
    by decide⟩] at hres
  cases hres

/-- **`parse_request_line` is safe and sound except for one kind of line.**  On every terminated
line in the read buffer it ends without a fault in `BAD_REQUEST` or `NO_REQUEST`, goes on to the
headers exactly when the line is a method, blanks, a target with a path, blanks and `HTTP/1.1`, and
leaves `m_url` at that path, if and only if the line is not a request line whose target is
`http://` and a text without a slash.  On those lines it compares the string at a null pointer. -/
theorem request_line_sound {text k : ℕ} (hf : c.Fits) (h : Terminated c.readBuf text k) :
    (c.TakesLine text ↔
        ¬ ∃ method target pos, RequestLine (c.str text) method target pos ∧ NoPath target) ∧
      ((∃ method target pos, RequestLine (c.str text) method target pos ∧ NoPath target) →
        c.parseRequestLine text = .error .nullPointer) := by
  have hnull : (∃ method target pos, RequestLine (c.str text) method target pos ∧ NoPath target) →
      c.parseRequestLine text = .error .nullPointer := by
    rintro ⟨method, target, pos, hline, hno⟩
    exact parseRequestLine_noPath hf h hline hno
  refine ⟨⟨?_, fun hno => ?_⟩, hnull⟩
  · rintro ⟨ret, c', hres, -⟩ hbad
    rw [hnull hbad] at hres
    cases hres
  · by_cases htaken : ∃ method target pos path,
        RequestLine (c.str text) method target pos ∧ Target target path
    -- every reading of the line as one with a path describes the same result
    · obtain ⟨method, target, pos, path, hline, ht⟩ := htaken
      obtain ⟨c', hres, -⟩ := parseRequestLine_path hf h hline ht
      refine ⟨.noRequest, c', hres, .inr rfl, ⟨fun _ => ⟨_, _, _, _, hline, ht⟩, fun _ => rfl⟩, ?_⟩
      intro method' target' pos' path' hline' ht'
      obtain ⟨c'', hres', hc''⟩ := parseRequestLine_path hf h hline' ht'
      rw [hres] at hres'
      cases hres'
      exact hc''
    · have hrefused : Refused (c.str text) := fun method target pos hline =>
        ⟨fun hbad => hno ⟨_, _, _, hline, hbad⟩, fun path ht => htaken ⟨_, _, _, path, hline, ht⟩⟩
      obtain ⟨c', hres⟩ := parseRequestLine_refused hf h hrefused
      refine ⟨.badRequest, c', hres, .inl rfl, ⟨fun h => (by cases h), fun h => absurd h htaken⟩,
        ?_⟩
      exact fun method target pos path hline ht => absurd ⟨_, _, _, _, hline, ht⟩ htaken

/-- The line of that connection does not keep the promise. -/
theorem request_line_sound_pathless : ¬ pathlessConn.TakesLine 0 ∧
    pathlessConn.parseRequestLine 0 = .error .nullPointer := by
  obtain ⟨hf, -, h⟩ := pathless_fits
  have hbad : ∃ method target pos,
      RequestLine (pathlessConn.str 0) method target pos ∧ NoPath target :=
    ⟨_, _, _, pathless_line, ascii "http://", ascii "a", rfl, rfl, by decide⟩
  obtain ⟨hiff, hnull⟩ := request_line_sound hf h
  exact ⟨fun htakes => hiff.1 htakes hbad, hnull hbad⟩

end Gateway.HttpConn
