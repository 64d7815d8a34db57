/-
The task of a request.

`do_request` is interrupted in its middle: it hands a task to the scheduler, and goes on when the
task has its verdict.  This module says which task it is, and what a request for an inference asks
for.

* `Gateway.HttpConn.asks`, `Gateway.HttpConn.taskOf` — the task that `do_request`, or `process`,
  hands to `enqueue`;
* `Gateway.HttpConn.asks_congr` — what is asked for depends on the request;
* `Gateway.HttpConn.InferRequest.asks`, `Gateway.HttpConn.InferRequest.served` — what a request
  for an inference asks for, and what is served for it.
-/

import InferenceGateway.HttpRoundTrip

set_option relaxedAutoImplicit false
set_option autoImplicit false

namespace Gateway

variable {F : Type}

/-! ### What a connection asks for -/

namespace HttpConn

/-- The task that `do_request` hands to `enqueue`, if it comes that far. -/
def asks (svc : Service F) (now : ℤ) (c : HttpConn) : Option (InferenceTask F) :=
  if c.method = .post ∧ c.url.map c.str = some (ascii "/infer") ∧ 0 < c.contentLength ∧
      svc.initialized = true ∧ (c.requestTask svc now).inputData.isEmpty = false then
    some (c.requestTask svc now)
  else none

/-- The task that `process` hands to `enqueue`: that of the request it has read. -/
def taskOf (svc : Service F) (now : ℤ) (c : HttpConn) : Option (InferenceTask F) :=
  match c.processRead with
  | .ok (.getRequest, d) => d.asks svc now
  | _ => none

section Asks

variable {svc : Service F} {c d : HttpConn}

/-- What is asked for depends on the request. -/
theorem asks_congr (hreq : c.request = d.request) (now now' : ℤ) :
    (c.asks svc now).map InferenceTask.toInput = (d.asks svc now').map InferenceTask.toInput := by
  have hmethod : c.method = d.method := congrArg Request.method hreq
  have hurl : c.url.map c.str = d.url.map d.str := congrArg Request.url hreq
  have hlen : c.contentLength = d.contentLength := congrArg Request.contentLength hreq
  have hbody : (if c.contentLength ≤ 0 then none else some c.body) =
      (if d.contentLength ≤ 0 then none else some d.body) := congrArg Request.body hreq
  unfold asks
  rw [hmethod, hurl, hlen]
  by_cases hpos : 0 < d.contentLength
  · rw [hlen, if_neg hpos.not_ge, if_neg hpos.not_ge] at hbody
    have hsame : c.body = d.body := Option.some.inj hbody
    have hinput : (c.requestTask svc now).toInput = (d.requestTask svc now').toInput := by
      rw [requestTask, requestTask, hsame]
      rfl
    have hdata : (c.requestTask svc now).inputData = (d.requestTask svc now').inputData :=
      congrArg InferenceInput.data hinput
    rw [hdata]
    split
    · exact congrArg some hinput
    · rfl
  · rw [if_neg fun h => hpos h.2.2.1, if_neg fun h => hpos h.2.2.1]

/-- A connection that asks for a task answers it. -/
theorem doRequest_of_asks {now : ℤ} {task : InferenceTask F} (h : c.asks svc now = some task)
    (v : Option (Verdict F)) : c.doRequest svc now v = .ok (c.answerTask svc v task) := by
  unfold asks at h
  split at h
  · next hasks =>
      obtain rfl := Option.some.inj h
      obtain ⟨hmethod, hurl, hlen, hinit, -⟩ := hasks
      obtain ⟨u, hu, hroute⟩ := Option.map_eq_some_iff.1 hurl
      unfold doRequest
      rw [if_neg (not_not.2 hmethod), hu]
      dsimp only
      rw [if_neg (not_not.2 hroute), if_neg hlen.not_ge, hinit]
      rfl
  · cases h

/-- **A task that was asked for is answered**, whatever its verdict is. -/
theorem process_of_taskOf {now : ℤ} {task : InferenceTask F} (h : c.taskOf svc now = some task)
    (v : Option (Verdict F)) : ∃ p, c.process svc now v = .ok p ∧ p.written = true := by
  unfold taskOf at h
  cases hread : c.processRead with
  | error f =>
      rw [hread] at h
      cases h
  | ok x =>
      obtain ⟨ret, d⟩ := x
      rw [hread] at h
      cases ret with
      | getRequest =>
          have hdo := doRequest_of_asks h v
          generalize d.answerTask svc v task = y at hdo
          obtain ⟨ret, e⟩ := y
          have hcode := (doRequest_answered _ _ _ _ _ _ hdo).code
          refine ⟨_, process_eq hread hdo hcode, ?_⟩
          cases hcode <;> rfl
      | _ => cases h

/-- An answer belongs to the request that the parser has read. -/
theorem process_request {now : ℤ} {v : Option (Verdict F)} {p : Processed}
    (hp : c.process svc now v = .ok p) (hcode : p.code = .jsonResponse) :
    ∃ d, c.processRead = .ok (.getRequest, d) ∧ p.conn.request = d.request := by
  cases hread : c.processRead with
  | error f =>
      unfold process readRequest at hp
      rw [hread] at hp
      cases hp
  | ok x =>
      obtain ⟨ret, d⟩ := x
      obtain ⟨hparsed, -⟩ := processRead_parsed _ _ _ hread
      cases hparsed with
      | noRequest =>
          rw [process_noRequest hread] at hp
          cases hp
          cases hcode
      | badRequest =>
          rw [process_badRequest hread] at hp
          cases hp
          cases hcode
      | getRequest =>
          obtain ⟨ret, e, -, hans, rfl⟩ := process_getRequest hread hp
          have hfile : ret ≠ .fileRequest := by cases hans.code <;> nofun
          have hkeep := unwritten_processWrite (c := e) hfile
          exact ⟨d, rfl, (congrArg (fun x => x.request) hkeep).trans
            (congrArg (fun x => x.request) hans.request)⟩

/-- `process` makes a response unless it waits for more. -/
theorem process_written {now : ℤ} {v : Option (Verdict F)} {p : Processed}
    (hp : c.process svc now v = .ok p) : p.written = true ∨ p.code = .noRequest := by
  cases hread : c.processRead with
  | error f =>
      unfold process readRequest at hp
      rw [hread] at hp
      cases hp
  | ok x =>
      obtain ⟨ret, d⟩ := x
      obtain ⟨hcode, -⟩ := processRead_parsed _ _ _ hread
      cases hcode with
      | noRequest =>
          rw [process_noRequest hread] at hp
          cases hp
          exact .inr rfl
      | badRequest =>
          rw [process_badRequest hread] at hp
          cases hp
          exact .inl rfl
      | getRequest =>
          obtain ⟨ret, e, -, hans, rfl⟩ := process_getRequest hread hp
          left
          cases hans.code <;> rfl

end Asks

/-! ### Requests for inferences -/

/-- The input that a request brings to the engine. -/
def InferRequest.toInput (r : InferRequest) (value : Bytes → F) : InferenceInput F where
  modelName := r.name
  data := r.numbers.map fun l => value l.text

/-- A request for an inference asks for its task. -/
theorem InferRequest.asks (r : InferRequest) {value : Bytes → F} {svc : Service F}
    (hinit : svc.initialized = true) (hvalue : svc.ofText = strtof value) (now : ℤ) {c : HttpConn}
    (hreq : c.request = r.request) : c.asks svc now = some (r.task value svc now) := by
  obtain ⟨hmethod, ⟨u, hu, hroute⟩, hpos, -⟩ := r.read_request hreq
  have hurl : c.url.map c.str = some (ascii "/infer") := by
    rw [hu]
    exact congrArg some hroute
  have hsome : (r.task value svc now).inputData.isEmpty = false := by
    simp [InferRequest.task, r.some_numbers]
  unfold HttpConn.asks
  rw [r.requestTask_eq value svc now hvalue hreq, if_pos ⟨hmethod, hurl, hpos, hinit, hsome⟩]

/-- `do_request` answers a task with an object, whatever comes of it. -/
theorem answerTask_code (svc : Service F) (scheduler : Option (Verdict F))
    (task : InferenceTask F) (c : HttpConn) :
    (c.answerTask svc scheduler task).1 = .jsonResponse := by
  unfold answerTask
  split
  · rfl
  · cases scheduler <;> rfl

/-- What is served for a request is the answer to it. -/
theorem InferRequest.served (r : InferRequest) {value : Bytes → F} {svc : Service F}
    (hinit : svc.initialized = true) (hvalue : svc.ofText = strtof value) {e : Served F}
    (h : Alone svc r.text e) : e.code = .jsonResponse ∧ e.request = r.request := by
  obtain ⟨now, p, evs, s, k, hp, -, -, he⟩ := h.exchange
  obtain ⟨c, hread, hreq, -⟩ := r.read r.fits (by decide)
  have hdo := r.doRequest_eq value svc now hinit hvalue e.scheduler hreq
  have hcode : p.code = .jsonResponse := by
    obtain ⟨ret, d, hdo', -, rfl⟩ := process_getRequest hread hp
    have hpair := Except.ok.inj (hdo.symm.trans hdo')
    exact (congrArg Prod.fst hpair).symm.trans (answerTask_code svc _ _ c)
  obtain ⟨d, hread', hreq'⟩ := process_request hp hcode
  obtain ⟨-, rfl⟩ := Prod.mk.inj (Except.ok.inj (hread.symm.trans hread'))
  rw [he]
  exact ⟨hcode, hreq'.trans hreq⟩

end HttpConn

end Gateway
