/-
**Descriptors as indices.**

`users` and `users_timer` have `MAX_FD` elements and are indexed by what `accept` returns, while the
test in front of them counts connections.  Nothing in the program bounds a descriptor; the kernel
returns one that is not open and below the limit of the process (`RLIMIT_NOFILE`), in practice the
lowest.

Main definitions:

* `Gateway.Web.Below` — the descriptors are below the limit of the process, `Gateway.Web.Lowest` —
  `accept` returns the lowest one that is free;
* `Gateway.Web.InRange` — every connection that passed the test has a slot.

Main result:

* `Gateway.Web.in_range_iff` — **every run stays in range exactly when the process cannot get a
  descriptor from `MAX_FD` on.**
-/

import InferenceGateway.Server

set_option relaxedAutoImplicit false
set_option autoImplicit false

namespace Gateway.Web

open EventSystem (Run Guarded)

/-- `accept` returns a descriptor below the limit of the process. -/
def Below (limit : ℕ) (_ : Server) : Event → Prop
  | .accept fd => fd < limit
  | _ => True

/-- `accept` returns the lowest descriptor that is not open. -/
def Lowest (cfg : Config) (s : Server) : Event → Prop
  | .accept fd => ∀ g < fd, s.fds g ≠ none ∨ g ∈ cfg.reserved
  | _ => True

/-- Every descriptor that `accept` returned and that passed the test of `m_user_count` indexes an
element of `users` and `users_timer`. -/
def InRange (evs : List Event) : Prop := ∀ fd : ℕ, .accept fd ∈ evs → (fd : ℤ) < MAX_FD

variable {cfg : Config} {s s' : Server} {fd : ℕ}

/-- What `accept` returns was not open. -/
theorem Step.accept_free (hs : Step cfg s (.accept fd) s') :
    s.fds fd = none ∧ fd ∉ cfg.reserved := by
  cases hs with
  | main hs =>
      cases hs with
      | accept _ hfd hres => exact ⟨hfd, hres⟩
      | writeMore _ hw | writeOk _ hw => cases hw
  | worker _ hs =>
      cases hs with
      | writeMore hw => cases hw

/-- The first connection. -/
theorem accept_run (cfg : Config) (threads : ℕ) {fd : ℕ} (hres : fd ∉ cfg.reserved) {limit : ℕ}
    (hlim : fd < limit) :
    ∃ evs s, Run (Guarded (Step cfg) (Below limit)) (start threads) evs s ∧ .accept fd ∈ evs := by
  have h : Run (Guarded (Step cfg) (Below limit)) (start threads) _ _ :=
    .single ⟨.main (@MainStep.epollWait _ _ [.listen] rfl (by decide) (by simp [Deliverable])),
      trivial⟩
  have h := h.snoc ⟨.main (.listen rfl rfl), trivial⟩
  have hcount : (0 : ℤ) < MAX_FD := by decide
  have h := h.snoc ⟨.main (@MainStep.accept _ _ fd rfl rfl hres hcount), hlim⟩
  exact ⟨_, _, h, by simp⟩

/-- **Every run of the server stays in range exactly when the process cannot get a descriptor from
`MAX_FD` on**: its limit is not above `MAX_FD`, or it holds those below the limit itself. -/
theorem in_range_iff (cfg : Config) (threads limit : ℕ) :
    (∀ evs s, Run (Guarded (Step cfg) (Below limit)) (start threads) evs s → InRange evs) ↔
      ∀ fd : ℕ, MAX_FD ≤ fd → fd < limit → fd ∈ cfg.reserved := by
  constructor
  · intro hall fd hmax hlim
    by_contra hres
    obtain ⟨evs, s, hr, hmem⟩ := accept_run cfg threads hres hlim
    have := hall evs s hr fd hmem
    omega
  · intro hres evs s hr fd hmem
    obtain ⟨_, _, s₁, s₂, -, -, ⟨hs, hlim⟩, -⟩ := hr.split_of_mem hmem
    by_contra hge
    exact hs.accept_free.2 (hres fd (by omega) hlim)

/-! ### A full server -/

/-- The server with edge-triggered `accept` and eight descriptors of its own. -/
def edge : Config := { reactor := false, edgeListen := true, reserved := List.range 8 }

/-- `n` connections that are accepted with the lowest descriptors. -/
theorem crowd_run (n : ℕ) (hn : (n : ℤ) ≤ MAX_FD) :
    ∃ evs s, Run (Guarded (Step edge) (Lowest edge)) (start 8) evs s ∧ s.main = .accept ∧
      s.userCount = n ∧ ∀ fd, s.fds fd = none ↔ fd < 8 ∨ 8 + n ≤ fd := by
  induction n with
  | zero =>
      have h : Run (Guarded (Step edge) (Lowest edge)) (start 8) _ _ :=
        .single ⟨.main (@MainStep.epollWait _ _ [.listen] rfl (by decide) (by simp [Deliverable])),
          trivial⟩
      have h := h.snoc ⟨.main (.listen rfl rfl), trivial⟩
      exact ⟨_, _, h, rfl, rfl, fun fd => ⟨fun _ => by omega, fun _ => rfl⟩⟩
  | succ n ih =>
      obtain ⟨evs, s, hr, hmain, hcount, hfds⟩ := ih (by omega)
      have hfree : s.fds (8 + n) = none := (hfds _).2 (.inr le_rfl)
      have hres : 8 + n ∉ edge.reserved := by
        simp [edge]
      have hlow : Lowest edge s (.accept (8 + n)) := by
        intro g hg
        by_cases hg8 : g < 8
        · exact .inr (List.mem_range.2 hg8)
        · exact .inl fun hnone => by
            have := (hfds g).1 hnone
            omega
      refine ⟨_, _, hr.snoc ⟨.main (.accept hmain hfree hres (by omega)), hlow⟩, rfl, ?_, ?_⟩
      · show s.userCount + 1 = _
        rw [hcount]
        push_cast
        rfl
      · intro fd
        show Function.update s.fds (8 + n) _ fd = none ↔ _
        by_cases hfd : fd = 8 + n
        · subst hfd
          rw [Function.update_self]
          exact ⟨nofun, fun h => by omega⟩
        · rw [Function.update_of_ne hfd, hfds]
          omega

/-- With the lowest descriptors, connection 65529 is accepted at descriptor 65536, while
`m_user_count` is 65528. -/
theorem not_in_range :
    ¬ ∀ (cfg : Config) (threads : ℕ) (evs : List Event) (s : Server),
      Run (Guarded (Step cfg) (Lowest cfg)) (start threads) evs s → InRange evs := by
  intro hall
  obtain ⟨evs, s, hr, hmain, hcount, hfds⟩ := crowd_run 65528 (by decide)
  have hlow : Lowest edge s (.accept 65536) := by
    intro g hg
    by_cases hg8 : g < 8
    · exact .inr (List.mem_range.2 hg8)
    · exact .inl fun hnone => by
        have := (hfds g).1 hnone
        omega
  have hr' := hr.snoc ⟨.main (.accept hmain ((hfds 65536).2 (by omega)) (by simp [edge])
    (by rw [hcount]; decide)), hlow⟩
  exact absurd (hall edge 8 _ _ hr' 65536 (by simp)) (by decide)

end Gateway.Web
