/-
Whose response is it.

A response belongs on the connection its request was read on.  The code rests this on the slots:
`process_write` writes into the slot that the request came from, and `write` sends what it finds in
the slot on the descriptor of the slot.  So all is well as long as no slot is initialised for
another connection while a worker has it, and the invariant of the careful runs is enough for that.

* `Gateway.Web.Proper` — what must hold where a slot is initialised, filled or sent;
* `Gateway.Web.Step.proper` — **careful steps are proper**.
-/

import InferenceGateway.ServerCustody

set_option relaxedAutoImplicit false
set_option autoImplicit false

namespace Gateway.Web

open EventSystem

variable {cfg : Config} {s s' : Server} {e : Event} {fd : ℕ}

/-! ### Responses and their connections -/

/-- The request with these bytes was read on this connection, and on no other. -/
def FromConn (chunks : List ℕ) (conn : ℕ) : Prop := chunks ≠ [] ∧ ∀ x ∈ chunks, x = conn

/-- A worker will process, or is still processing, a request in the slot. -/
def Server.Processing (s : Server) (fd : ℕ) : Prop :=
  fd ∈ s.queue ∨ fd ∈ s.held ∨ .closing fd ∈ s.workers

/-- **What the server owes its clients.**  A slot is not initialised while a worker processes it; a
response goes into the slot of the connection that asked, which is still open; and what is sent on a
connection answers a request that was read there. -/
def Proper (s : Server) : Event → Prop
  | .accept fd => ¬ s.Processing fd
  | .respond fd chunks =>
      ∃ conn, s.fds fd = some conn ∧ (s.slots fd).owner = some conn ∧ FromConn chunks conn
  | .send conn chunks => FromConn chunks conn
  | _ => True

/-- Bytes that carry the owner of a slot are from the connection that is open at its descriptor. -/
theorem Core.fromConn (h : Core s) {conn : ℕ} {chunks : List ℕ} (hc : s.fds fd = some conn)
    (hne : chunks ≠ []) (hall : ∀ x ∈ chunks, (s.slots fd).owner = some x) :
    FromConn chunks conn := by
  refine ⟨hne, ?_⟩
  intro x hx
  have howner : (s.slots fd).owner = some conn := (h.opened fd conn hc).1
  rw [hall x hx] at howner
  exact Option.some.inj howner

/-- What is sent from a slot in somebody's hand answers a request of its connection. -/
theorem Sound.write_proper (h : Sound s) {r : Option Bool} (hfd : fd ∈ s.places)
    (hw : Write s fd e r s') : Proper s e := by
  cases hw with
  | @sent sock conn chunks hresp hsock hconn =>
      obtain rfl : fd = sock := Option.some.inj ((h.sockfd hfd).symm.trans hsock)
      obtain ⟨hne, hall⟩ := (h.core.tagged fd).2 chunks hresp
      exact h.core.fromConn hconn hne hall
  | _ => trivial

/-- A careful `accept` finds no worker in the slot. -/
theorem Sound.accept_proper (h : Sound s) (hnone : s.fds fd = none)
    (hc : Careful s (.accept fd)) : Proper s (.accept fd) := by
  rintro (hq | hheld | hclosing)
  · exact h.opened (by simp [Server.places, hq]) hnone
  · exact h.opened (Sound.held_places hheld) hnone
  · exact hc hclosing

/-- **The steps of the main thread are proper.** -/
theorem MainStep.proper (h : Sound s) (hc : Careful s e) (hs : MainStep cfg s e s') :
    Proper s e := by
  cases hs with
  | accept _ hnone => exact h.accept_proper hnone hc
  | writeMore hm hw => exact h.write_proper (Sound.mem_own (by rw [hm]; rfl)) hw
  | writeOk hm hw => exact h.write_proper (Sound.mem_own (by rw [hm]; rfl)) hw
  | _ => trivial

/-- **The steps of a worker are proper.** -/
theorem WorkerStep.proper {pc pc' : WorkerPc} (h : Sound s) (hmem : pc ∈ s.workers)
    (hs : WorkerStep cfg s pc e s' pc') : Proper s e := by
  cases hs with
  | @respond fd chunks =>
      have hopen : s.fds fd ≠ none :=
        h.opened (Sound.held_places (Sound.mem_held hmem rfl))
      obtain ⟨conn, hconn⟩ := Option.ne_none_iff_exists'.1 hopen
      obtain ⟨hne, hall⟩ : _ ∧ _ := h.sourced _ hmem
      exact ⟨conn, hconn, (h.core.opened fd conn hconn).1, h.core.fromConn hconn hne hall⟩
  | writeMore hw => exact h.write_proper (Sound.held_places (Sound.mem_held hmem rfl)) hw
  | _ => trivial

theorem Step.proper (h : Sound s) (hc : Careful s e) (hs : Step cfg s e s') : Proper s e := by
  cases hs with
  | main hs => exact hs.proper h hc
  | worker hi hs => exact hs.proper h (List.mem_of_getElem? hi)
  | elapse => trivial

/-- **Every run of careful steps is proper.** -/
theorem careful_run {threads : ℕ} {evs : List Event}
    (hr : Run (Guarded (Step cfg) Careful) (start threads) evs s) :
    Run (Guarded (Step cfg) Proper) (start threads) evs s := by
  induction hr with
  | nil => exact .nil
  | snoc hr hs ih => exact ih.snoc ⟨hs.1, hs.1.proper (sound_run hr) hs.2⟩

end Gateway.Web
