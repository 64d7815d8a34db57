/-
**The buffer pool.**

`acquire` takes a buffer from the free queue under the lock and clears it after the lock is dropped,
or asks the allocator when the queue is empty; `release` puts a buffer back under the lock, or frees
it after the lock is dropped when the queue is full.  Any number of threads run these steps between
one another, and write into the buffers that they hold.

A buffer is known by its address; what it holds, and whether it is allocated, is in the heap.  An
address that was freed may be returned by a later `calloc`, and `calloc` may return `NULL`.

Main definitions:

* `Gateway.BufferPool` — the pool with its heap and the threads, `Gateway.BufferPool.Step` — one
  step of one thread, or of the constructor;
* `Gateway.BufferPool.Exclusive` — what the pool promises.

Main results:

* `Gateway.BufferPool.Step.sound` — every step keeps each buffer in one place and allocated;
* `Gateway.BufferPool.exclusive_run` — **the pool keeps its promise in every run.**
-/

import InferenceGateway.EventSystem
import InferenceGateway.Ownership

set_option relaxedAutoImplicit false
set_option autoImplicit false

namespace Gateway

open EventSystem (Run)
open Ownership (Apart Fresh)

/-! ### The pool -/

/-- The arguments of the constructor. -/
structure PoolConfig where
  bufferSize : ℕ
  poolSize : ℕ

/-- Where a thread is in `acquire` or `release`.  The numbers are addresses, and how many elements
`memset` has cleared. -/
inductive PoolPc
  | out
  /-- the queue was empty, the lock is dropped -/
  | fallback
  /-- `memset` -/
  | clearing (buf k : ℕ)
  /-- the queue was full, the lock is dropped -/
  | freeing (buf : ℕ)

/-- The buffer that a call works on. -/
def PoolPc.buf : PoolPc → Option ℕ
  | .out | .fallback => none
  | .clearing p _ | .freeing p => some p

/-- The pool, the heap, and the threads with the buffers they hold.  `built` counts the passes of
the constructor's loop. -/
structure BufferPool (F : Type*) where
  built : ℕ
  freeQueue : List ℕ
  heap : ℕ → Option (List F)
  threads : ℕ → PoolPc
  held : ℕ → List ℕ

namespace BufferPool

variable {F : Type*}

/-- Before the first pass of the constructor. -/
def start : BufferPool F where
  built := 0
  freeQueue := []
  heap := fun _ => none
  threads := fun _ => .out
  held := fun _ => []

/-- `calloc` may return `NULL`, or the address of a block that is not allocated. -/
def Calloc (s : BufferPool F) (p : ℕ) : Prop := p = 0 ∨ s.heap p = none

def goto (s : BufferPool F) (t : ℕ) (pc : PoolPc) : BufferPool F :=
  { s with threads := Function.update s.threads t pc }

def hold (s : BufferPool F) (t : ℕ) (l : List ℕ) : BufferPool F :=
  { s with held := Function.update s.held t l }

def setHeap (s : BufferPool F) (p : ℕ) (block : Option (List F)) : BufferPool F :=
  { s with heap := Function.update s.heap p block }

/-- A store into a block, if it is allocated. -/
def store (s : BufferPool F) (p i : ℕ) (x : F) : BufferPool F :=
  s.setHeap p ((s.heap p).map fun b => b.set i x)

/-- What a step is: a pass of the constructor with what `calloc` returned, or a step of a thread,
with the buffer. -/
inductive Event (F : Type*)
  | construct (p : ℕ)
  | acquire (t : ℕ)
  | clear (t p : ℕ)
  | acquired (t p : ℕ)
  | release (t p : ℕ)
  | free (t p : ℕ)
  | write (t p i : ℕ) (x : F)

/-- The block that a step stores into or frees. -/
def Event.touched : Event F → Option ℕ
  | .clear _ p | .free _ p | .write _ p _ _ => some p
  | _ => none

/-- One step.  The calls are made when the pool is constructed, a thread releases what it holds or
`NULL`, and it writes into what it holds. -/
inductive Step [Zero F] (cfg : PoolConfig) (s : BufferPool F) : Event F → BufferPool F → Prop
  | constructNull (h : s.built < cfg.poolSize) :
      Step cfg s (.construct 0) { s with built := s.built + 1 }
  | construct {p : ℕ} (h : s.built < cfg.poolSize) (hp : p ≠ 0) (hc : s.Calloc p) :
      Step cfg s (.construct p)
        { s.setHeap p (some (List.replicate cfg.bufferSize 0)) with
          built := s.built + 1
          freeQueue := s.freeQueue ++ [p] }
  | acquireEmpty {t : ℕ} (hb : s.built = cfg.poolSize) (h : s.threads t = .out)
      (hq : s.freeQueue = []) : Step cfg s (.acquire t) (s.goto t .fallback)
  | acquire {t p : ℕ} {q : List ℕ} (hb : s.built = cfg.poolSize) (h : s.threads t = .out)
      (hq : s.freeQueue = p :: q) :
      Step cfg s (.acquire t) { s.goto t (.clearing p 0) with freeQueue := q }
  | clear {t p k : ℕ} (h : s.threads t = .clearing p k) (hk : k < cfg.bufferSize) :
      Step cfg s (.clear t p) ((s.store p k 0).goto t (.clearing p (k + 1)))
  | acquired {t p : ℕ} (h : s.threads t = .clearing p cfg.bufferSize) :
      Step cfg s (.acquired t p) ((s.goto t .out).hold t (s.held t ++ [p]))
  | fallbackNull {t : ℕ} (h : s.threads t = .fallback) :
      Step cfg s (.acquired t 0) (s.goto t .out)
  | fallback {t p : ℕ} (h : s.threads t = .fallback) (hp : p ≠ 0) (hc : s.Calloc p) :
      Step cfg s (.acquired t p)
        (((s.setHeap p (some (List.replicate cfg.bufferSize 0))).goto t .out).hold t
          (s.held t ++ [p]))
  | releaseNull {t : ℕ} (hb : s.built = cfg.poolSize) (h : s.threads t = .out) :
      Step cfg s (.release t 0) s
  | releaseFull {t p : ℕ} (hb : s.built = cfg.poolSize) (h : s.threads t = .out) (hp : p ≠ 0)
      (hheld : p ∈ s.held t) (hfull : cfg.poolSize ≤ s.freeQueue.length) :
      Step cfg s (.release t p) ((s.goto t (.freeing p)).hold t ((s.held t).erase p))
  | release {t p : ℕ} (hb : s.built = cfg.poolSize) (h : s.threads t = .out) (hp : p ≠ 0)
      (hheld : p ∈ s.held t) (hfull : s.freeQueue.length < cfg.poolSize) :
      Step cfg s (.release t p)
        { s.hold t ((s.held t).erase p) with freeQueue := s.freeQueue ++ [p] }
  | free {t p : ℕ} (h : s.threads t = .freeing p) :
      Step cfg s (.free t p) ((s.setHeap p none).goto t .out)
  | write {t p i : ℕ} (x : F) (h : s.threads t = .out) (hheld : p ∈ s.held t) :
      Step cfg s (.write t p i x) (s.store p i x)

/-! ### What is promised -/

/-- **What the pool promises**: no buffer is in two places, the queue is not longer than the pool,
no step touches a block that is not allocated, and what `acquire` returns reads as zeros. -/
structure Exclusive [Zero F] (cfg : PoolConfig) (s : BufferPool F) : Prop where
  nodup : s.freeQueue.Nodup
  nonnull : 0 ∉ s.freeQueue
  not_held : ∀ p ∈ s.freeQueue, ∀ t, p ∉ s.held t
  length_le : s.freeQueue.length ≤ cfg.poolSize
  one_holder : ∀ t u p, p ∈ s.held t → p ∈ s.held u → t = u
  held_once : ∀ t, (s.held t).Nodup
  live : ∀ p, (p ∈ s.freeQueue ∨ ∃ t, p ∈ s.held t) → (s.heap p).isSome
  touched : ∀ e s', Step cfg s e s' → ∀ p ∈ e.touched, (s.heap p).isSome
  zeroed : ∀ t p s', Step cfg s (.acquired t p) s' → p ≠ 0 →
    p ∈ s'.held t ∧ s'.heap p = some (List.replicate cfg.bufferSize 0)

/-! ### The invariant -/

/-- What a thread has: what it holds, and the buffer of its call. -/
def own (s : BufferPool F) (t : ℕ) : List ℕ := s.held t ++ (s.threads t).buf.toList

/-- A buffer that is in the queue or with a thread. -/
def Placed (s : BufferPool F) (p : ℕ) : Prop := p ∈ s.freeQueue ∨ ∃ t, p ∈ s.own t

/-- A block of the right size is allocated at `p`. -/
def Live (cfg : PoolConfig) (s : BufferPool F) (p : ℕ) : Prop :=
  p ≠ 0 ∧ ∃ b, s.heap p = some b ∧ b.length = cfg.bufferSize

/-- **The invariant.**  Each buffer is in one place and allocated, and one that is being cleared is
zero as far as `memset` has come. -/
structure Sound [Zero F] (cfg : PoolConfig) (s : BufferPool F) : Prop where
  apart : Apart s.freeQueue s.own
  length_le : s.freeQueue.length ≤ cfg.poolSize
  building : s.built < cfg.poolSize → s.freeQueue.length ≤ s.built
  live : ∀ p, s.Placed p → s.Live cfg p
  cleared : ∀ t p k, s.threads t = .clearing p k →
    ∃ b, s.heap p = some b ∧ b.take k = List.replicate k 0

theorem sound_start [Zero F] (cfg : PoolConfig) : Sound cfg (start : BufferPool F) where
  apart := Ownership.apart_nil
  length_le := Nat.zero_le _
  building _ := Nat.le_refl _
  live p h := by
    rcases h with h | ⟨t, h⟩
    · cases h
    · cases h
  cleared _ _ _ h := by cases h

/-- What a thread has after a step of its own. -/
theorem own_eq {s s' : BufferPool F} {t : ℕ} {pc : PoolPc} {l : List ℕ}
    (ht : s'.threads = Function.update s.threads t pc) (hh : s'.held = Function.update s.held t l) :
    s'.own = Function.update s.own t (l ++ pc.buf.toList) := by
  funext u
  rw [own, ht, hh]
  by_cases hu : u = t
  · subst hu
    simp only [Function.update_self]
  · simp only [Function.update_of_ne hu, own]

theorem mem_own_of_held {s : BufferPool F} {t p : ℕ} (h : p ∈ s.held t) : p ∈ s.own t :=
  List.mem_append_left _ h

theorem mem_own_of_buf {s : BufferPool F} {t p : ℕ} (h : (s.threads t).buf = some p) :
    p ∈ s.own t := by
  rw [own, h]
  exact List.mem_append_right _ (List.mem_singleton_self p)

theorem own_out {s : BufferPool F} {t : ℕ} (h : s.threads t = .out) : s.own t = s.held t := by
  rw [own, h]
  exact List.append_nil _

/-- A thread other than the one that moved has what it had. -/
theorem mem_update_own {own : ℕ → List ℕ} {t p : ℕ} {l : List ℕ}
    (h : ∃ u, p ∈ Function.update own t l u) : p ∈ l ∨ ∃ u, u ≠ t ∧ p ∈ own u := by
  obtain ⟨u, hu⟩ := h
  by_cases hut : u = t
  · subst hut
    rw [Function.update_self] at hu
    exact .inl hu
  · rw [Function.update_of_ne hut] at hu
    exact .inr ⟨u, hut, hu⟩

namespace Sound

variable [Zero F] {cfg : PoolConfig} {s : BufferPool F} {t p k : ℕ}

/-- An address that `calloc` returns is in no place. -/
theorem fresh (h : Sound cfg s) (hp : p ≠ 0) (hc : s.Calloc p) : Fresh s.freeQueue s.own p := by
  have hnone : s.heap p = none := hc.resolve_left hp
  have hnot : ¬ s.Placed p := fun hplaced => by
    obtain ⟨-, b, hb, -⟩ := h.live p hplaced
    rw [hnone] at hb
    cases hb
  exact ⟨fun hq => hnot (.inl hq), fun u hu => hnot (.inr ⟨u, hu⟩)⟩

/-- A buffer of one thread is in no other place. -/
theorem only (h : Sound cfg s) {u : ℕ} (ht : p ∈ s.own t) (hu : p ∈ s.own u) : u = t :=
  h.apart.unique u t p hu ht

end Sound

/-! ### The heap -/

section Heap

variable {cfg : PoolConfig} {s : BufferPool F} {p q i : ℕ} {x : F} {block : Option (List F)}

theorem setHeap_self : (s.setHeap p block).heap p = block := Function.update_self ..

theorem setHeap_of_ne (h : q ≠ p) : (s.setHeap p block).heap q = s.heap q :=
  Function.update_of_ne h ..

/-- A new block leaves the others. -/
theorem Live.setHeap (h : s.Live cfg q) (hne : q ≠ p) : (s.setHeap p block).Live cfg q := by
  rw [Live, setHeap_of_ne hne]
  exact h

theorem live_calloc [Zero F] (hp : p ≠ 0) :
    (s.setHeap p (some (List.replicate cfg.bufferSize 0))).Live cfg p :=
  ⟨hp, _, setHeap_self, List.length_replicate⟩

/-- A store keeps every block. -/
theorem Live.store (h : s.Live cfg q) : (s.store p i x).Live cfg q := by
  obtain ⟨hq, b, hb, hlen⟩ := h
  by_cases hqp : q = p
  · subst hqp
    refine ⟨hq, b.set i x, ?_, by rw [List.length_set, hlen]⟩
    rw [BufferPool.store, setHeap_self, hb]
    rfl
  · exact ⟨hq, b, by rw [BufferPool.store, setHeap_of_ne hqp, hb], hlen⟩

end Heap

/-! ### Steps -/

section Steps

variable [Zero F] {cfg : PoolConfig} {s s' : BufferPool F}

/-- A pass of the constructor. -/
theorem Sound.construct (h : Sound cfg s) {p : ℕ} (hlt : s.built < cfg.poolSize) (hp : p ≠ 0)
    (hc : s.Calloc p) :
    Sound cfg { s.setHeap p (some (List.replicate cfg.bufferSize 0)) with
      built := s.built + 1
      freeQueue := s.freeQueue ++ [p] } := by
  have hfresh := h.fresh hp hc
  have hlen := h.building hlt
  refine ⟨h.apart.grow hfresh, ?_, fun _ => ?_, fun q hq => ?_, fun t q k hpc => ?_⟩
  · rw [List.length_append, List.length_singleton]
    omega
  · show (s.freeQueue ++ [p]).length ≤ s.built + 1
    rw [List.length_append, List.length_singleton]
    omega
  · rcases hq with hq | ⟨t, hq⟩
    · rcases List.mem_append.1 hq with hq | hq
      · exact (h.live q (.inl hq)).setHeap fun hqp => hfresh.1 (hqp ▸ hq)
      · rw [List.mem_singleton.1 hq]
        exact live_calloc hp
    · exact (h.live q (.inr ⟨t, hq⟩)).setHeap fun hqp => hfresh.2 t (hqp ▸ hq)
  · change s.threads t = .clearing q k at hpc
    have hown : q ∈ s.own t := mem_own_of_buf (by rw [hpc]; rfl)
    obtain ⟨b, hb, htake⟩ := h.cleared t q k hpc
    exact ⟨b, by rw [← hb]; exact setHeap_of_ne fun hqp => hfresh.2 t (hqp ▸ hown), htake⟩

/-- A step of thread `t` that leaves the heap. -/
theorem Sound.turn (h : Sound cfg s) {t : ℕ} {l : List ℕ} (pc : PoolPc)
    (hheap : s'.heap = s.heap) (hbuilt : s'.built = s.built)
    (hthreads : s'.threads = Function.update s.threads t pc)
    (hheld : s'.held = Function.update s.held t l)
    (happart : Apart s'.freeQueue (Function.update s.own t (l ++ pc.buf.toList)))
    (hlen : s'.freeQueue.length ≤ cfg.poolSize)
    (hbuild : s.built < cfg.poolSize → s'.freeQueue.length ≤ s.built)
    (hsrc : ∀ p, p ∈ s'.freeQueue ∨ p ∈ l ++ pc.buf.toList → s.Placed p)
    (hclear : ∀ p k, pc = .clearing p k → k = 0) : Sound cfg s' := by
  have hown := own_eq hthreads hheld
  refine ⟨hown ▸ happart, hlen, hbuilt ▸ hbuild, fun q hq => ?_, fun u q k hpc => ?_⟩
  · have hplaced : s.Placed q := by
      rcases hq with hq | hq
      · exact hsrc q (.inl hq)
      · rw [hown] at hq
        rcases mem_update_own hq with hq | ⟨u, -, hq⟩
        · exact hsrc q (.inr hq)
        · exact .inr ⟨u, hq⟩
    rw [Live, hheap]
    exact h.live q hplaced
  · rw [hheap]
    rw [hthreads] at hpc
    by_cases hut : u = t
    · subst hut
      rw [Function.update_self] at hpc
      obtain rfl := hclear q k hpc
      have hplaced : s.Placed q := hsrc q (.inr (by rw [hpc]; simp [PoolPc.buf]))
      obtain ⟨-, b, hb, -⟩ := h.live q hplaced
      exact ⟨b, hb, rfl⟩
    · rw [Function.update_of_ne hut] at hpc
      exact h.cleared u q k hpc

/-- A store by the thread that has the buffer. -/
theorem Sound.stored (h : Sound cfg s) {t p i : ℕ} {x : F} {pc : PoolPc} (hp : p ∈ s.own t)
    (hbuf : pc.buf = (s.threads t).buf)
    (hclear : ∀ q k, pc = .clearing q k →
      ∃ b, (s.store p i x).heap q = some b ∧ b.take k = List.replicate k 0) :
    Sound cfg ((s.store p i x).goto t pc) := by
  have hown : ((s.store p i x).goto t pc).own = s.own := by
    have heq : ((s.store p i x).goto t pc).own =
        Function.update s.own t (s.held t ++ pc.buf.toList) :=
      own_eq rfl (Function.update_eq_self ..).symm
    rw [heq, hbuf, ← own, Function.update_eq_self]
  refine ⟨hown ▸ h.apart, h.length_le, h.building, fun q hq => ?_, fun u q k hpc => ?_⟩
  · rw [Placed, hown] at hq
    exact (h.live q hq).store
  · by_cases hut : u = t
    · subst hut
      exact hclear q k (by simpa [BufferPool.goto] using hpc)
    · have hpc' : s.threads u = .clearing q k := by
        simpa [BufferPool.goto, BufferPool.store, BufferPool.setHeap, hut] using hpc
      have hq : q ∈ s.own u := mem_own_of_buf (by rw [hpc']; rfl)
      obtain ⟨b, hb, htake⟩ := h.cleared u q k hpc'
      refine ⟨b, ?_, htake⟩
      rw [← hb]
      exact setHeap_of_ne fun hqp => hut (h.only hp (hqp ▸ hq))

/-- **`memset` clears one more element.** -/
theorem Sound.clear (h : Sound cfg s) {t p k : ℕ} (hpc : s.threads t = .clearing p k)
    (hk : k < cfg.bufferSize) : Sound cfg ((s.store p k 0).goto t (.clearing p (k + 1))) := by
  have hp : p ∈ s.own t := mem_own_of_buf (by rw [hpc]; rfl)
  refine h.stored hp (by rw [hpc]; rfl) fun q k' hqk => ?_
  obtain ⟨rfl, rfl⟩ := PoolPc.clearing.inj hqk
  obtain ⟨b, hb, htake⟩ := h.cleared t p k hpc
  obtain ⟨-, b', hb', hlen⟩ := h.live p (.inr ⟨t, hp⟩)
  obtain rfl : b = b' := Option.some.inj (hb.symm.trans hb')
  refine ⟨b.set k 0, ?_, ?_⟩
  · rw [BufferPool.store, setHeap_self, hb]
    rfl
  · rw [List.take_add_one, List.take_set_of_le (Nat.le_refl k), htake,
      List.getElem?_set_self (by omega), List.replicate_succ']
    rfl

/-- `calloc` in `acquire`. -/
theorem Sound.fallback (h : Sound cfg s) {t p : ℕ} (hpc : s.threads t = .fallback) (hp : p ≠ 0)
    (hc : s.Calloc p) :
    Sound cfg (((s.setHeap p (some (List.replicate cfg.bufferSize 0))).goto t .out).hold t
      (s.held t ++ [p])) := by
  have hfresh := h.fresh hp hc
  have hown : (((s.setHeap p (some (List.replicate cfg.bufferSize 0))).goto t .out).hold t
      (s.held t ++ [p])).own =
        Function.update s.own t (s.held t ++ [p] ++ PoolPc.out.buf.toList) := own_eq rfl rfl
  have hheld : s.own t = s.held t := by
    rw [own, hpc]
    exact List.append_nil _
  have hlist : s.held t ++ [p] ++ PoolPc.out.buf.toList = s.own t ++ [p] := by
    rw [hheld]
    exact List.append_nil _
  rw [hlist] at hown
  refine ⟨?_, h.length_le, h.building, fun q hq => ?_, fun u q k hpc' => ?_⟩
  · rw [hown]
    exact h.apart.gain hfresh
  · by_cases hqp : q = p
    · rw [hqp]
      exact live_calloc hp
    · have hplaced : s.Placed q := by
        rcases hq with hq | hq
        · exact .inl hq
        · rw [hown] at hq
          rcases mem_update_own hq with hq | ⟨u, -, hq⟩
          · rcases List.mem_append.1 hq with hq | hq
            · exact .inr ⟨t, hq⟩
            · exact absurd (List.mem_singleton.1 hq) hqp
          · exact .inr ⟨u, hq⟩
      exact (h.live q hplaced).setHeap hqp
  · by_cases hut : u = t
    · subst hut
      simp [BufferPool.goto, BufferPool.hold] at hpc'
    · have hpc'' : s.threads u = .clearing q k := by
        simpa [BufferPool.goto, BufferPool.hold, BufferPool.setHeap, hut] using hpc'
      have hq : q ∈ s.own u := mem_own_of_buf (by rw [hpc'']; rfl)
      obtain ⟨b, hb, htake⟩ := h.cleared u q k hpc''
      refine ⟨b, ?_, htake⟩
      rw [← hb]
      exact setHeap_of_ne fun hqp => hfresh.2 u (hqp ▸ hq)

/-- `free` in `release`. -/
theorem Sound.free (h : Sound cfg s) {t p : ℕ} (hpc : s.threads t = .freeing p) :
    Sound cfg ((s.setHeap p none).goto t .out) := by
  have hp : p ∈ s.own t := mem_own_of_buf (by rw [hpc]; rfl)
  have hown : ((s.setHeap p none).goto t .out).own =
      Function.update s.own t (s.held t ++ PoolPc.out.buf.toList) :=
    own_eq rfl (Function.update_eq_self ..).symm
  have hlist : s.own t = s.held t ++ [p] := by
    rw [own, hpc]
    rfl
  have hnodup := h.apart.own_nodup t
  rw [hlist] at hnodup
  obtain ⟨hheld, -, hnot⟩ := List.nodup_append.1 hnodup
  rw [show PoolPc.out.buf.toList = [] from rfl, List.append_nil] at hown
  have hsub : ∀ q ∈ s.held t, q ∈ s.own t := fun q hq => mem_own_of_held hq
  refine ⟨?_, h.length_le, h.building, fun q hq => ?_, fun u q k hpc' => ?_⟩
  · rw [hown]
    exact h.apart.shrink hheld hsub
  · -- what is in a place after the step is not the block that was freed
    have hplaced : s.Placed q ∧ q ≠ p := by
      rcases hq with hq | hq
      · exact ⟨.inl hq, fun hqp => h.apart.pool_own q hq t (hqp ▸ hp)⟩
      · rw [hown] at hq
        rcases mem_update_own hq with hq | ⟨u, hut, hq⟩
        · exact ⟨.inr ⟨t, hsub q hq⟩, hnot q hq p (List.mem_singleton_self p)⟩
        · exact ⟨.inr ⟨u, hq⟩, fun hqp => hut (h.only hp (hqp ▸ hq))⟩
    exact (h.live q hplaced.1).setHeap hplaced.2
  · by_cases hut : u = t
    · subst hut
      simp [BufferPool.goto] at hpc'
    · have hpc'' : s.threads u = .clearing q k := by
        simpa [BufferPool.goto, BufferPool.setHeap, hut] using hpc'
      have hq : q ∈ s.own u := mem_own_of_buf (by rw [hpc'']; rfl)
      obtain ⟨b, hb, htake⟩ := h.cleared u q k hpc''
      refine ⟨b, ?_, htake⟩
      rw [← hb]
      exact setHeap_of_ne fun hqp => hut (h.only hp (hqp ▸ hq))

/-- **Every step keeps the invariant.** -/
theorem Step.sound {e : Event F} (hs : Step cfg s e s') (h : Sound cfg s) : Sound cfg s' := by
  have hself : ∀ t, Function.update s.own t (s.own t) = s.own := fun t => Function.update_eq_self ..
  cases hs with
  | constructNull hlt =>
      exact ⟨h.apart, h.length_le, fun _ => (h.building hlt).trans (Nat.le_succ _), h.live,
        h.cleared⟩
  | construct hlt hp hc => exact h.construct hlt hp hc
  | @acquireEmpty t hb hpc hq =>
      refine h.turn (t := t) (l := s.held t) _ rfl rfl rfl (Function.update_eq_self ..).symm ?_
        h.length_le h.building (fun p hp => ?_) fun _ _ hc => by cases hc
      · show Apart _ (Function.update s.own t (s.held t ++ []))
        rw [List.append_nil, ← own_out hpc, hself]
        exact h.apart
      · exact hp.imp id fun hp => ⟨t, mem_own_of_held (by simpa [PoolPc.buf] using hp)⟩
  | @acquire t p q hb hpc hq =>
      have hapart := h.apart
      have hlen := h.length_le
      rw [hq] at hapart hlen
      have htail : q.length < (p :: q).length := Nat.lt_succ_self _
      refine h.turn (t := t) (l := s.held t) _ rfl rfl rfl (Function.update_eq_self ..).symm ?_
        (htail.le.trans hlen) (fun hlt => by omega) (fun r hr => ?_) fun _ _ hc => ?_
      · show Apart q (Function.update s.own t (s.held t ++ [p]))
        rw [← own_out hpc]
        exact hapart.take
      · rcases hr with hr | hr
        · exact .inl (by rw [hq]; exact List.mem_cons_of_mem _ hr)
        · rcases List.mem_append.1 hr with hr | hr
          · exact .inr ⟨t, mem_own_of_held hr⟩
          · exact .inl (by rw [hq, List.mem_singleton.1 hr]; exact List.mem_cons_self)
      · obtain ⟨-, rfl⟩ := PoolPc.clearing.inj hc
        rfl
  | clear hpc hk => exact h.clear hpc hk
  | @acquired t p hpc =>
      have hown : s.held t ++ [p] ++ PoolPc.out.buf.toList = s.own t := by
        rw [own, hpc]
        exact List.append_nil _
      refine h.turn (t := t) .out rfl rfl rfl rfl ?_ h.length_le h.building
        (fun r hr => ?_) fun _ _ hc => by cases hc
      · rw [hown, hself]
        exact h.apart
      · rw [hown] at hr
        exact hr.imp id fun hr => ⟨t, hr⟩
  | @fallbackNull t hpc =>
      have hown : s.held t ++ PoolPc.out.buf.toList = s.own t := by
        rw [own, hpc]
        rfl
      refine h.turn (t := t) (l := s.held t) _ rfl rfl rfl (Function.update_eq_self ..).symm ?_
        h.length_le h.building (fun r hr => ?_) fun _ _ hc => by cases hc
      · rw [hown, hself]
        exact h.apart
      · rw [hown] at hr
        exact hr.imp id fun hr => ⟨t, hr⟩
  | fallback hpc hp hc => exact h.fallback hpc hp hc
  | releaseNull => exact h
  | @releaseFull t p hb hpc hp hheld hfull =>
      have hmem : ∀ r ∈ (s.held t).erase p ++ [p], r ∈ s.own t := fun r hr => by
        rw [own_out hpc]
        rcases List.mem_append.1 hr with hr | hr
        · exact List.mem_of_mem_erase hr
        · exact List.mem_singleton.1 hr ▸ hheld
      have hnodup := h.apart.own_nodup t
      rw [own_out hpc] at hnodup
      refine h.turn (t := t) (.freeing p) rfl rfl rfl rfl ?_ h.length_le h.building
        (fun r hr => hr.imp id fun hr => ⟨t, hmem r hr⟩) fun _ _ hc => by cases hc
      refine h.apart.shrink ?_ hmem
      show ((s.held t).erase p ++ [p]).Nodup
      rw [← List.concat_eq_append]
      exact (hnodup.erase p).concat hnodup.not_mem_erase
  | @release t p hb hpc hp hheld hfull =>
      have hown := own_out hpc
      have hown' : (s.held t).erase p ++ PoolPc.out.buf.toList = (s.own t).erase p := by
        rw [hown]
        exact List.append_nil _
      refine h.turn (t := t) .out rfl rfl ?_ rfl ?_ ?_ ?_ (fun r hr => ?_)
        fun _ _ hc => by cases hc
      · rw [← hpc]
        exact (Function.update_eq_self ..).symm
      · rw [hown']
        exact h.apart.give (by rw [hown]; exact hheld)
      · rw [List.length_append, List.length_singleton]
        exact hfull
      · exact fun hlt => by omega
      · rw [hown'] at hr
        rcases hr with hr | hr
        · rcases List.mem_append.1 hr with hr | hr
          · exact .inl hr
          · exact .inr ⟨t, by rw [hown, List.mem_singleton.1 hr]; exact hheld⟩
        · exact .inr ⟨t, List.mem_of_mem_erase hr⟩
  | free hpc => exact h.free hpc
  | @write t p i x hpc hheld =>
      have := h.stored (t := t) (i := i) (x := x) (mem_own_of_held hheld) rfl fun q k hc => by
        rw [hpc] at hc
        cases hc
      rwa [BufferPool.goto, show Function.update (s.store p i x).threads t (s.threads t) =
        s.threads from Function.update_eq_self ..] at this

end Steps

/-! ### The promise -/

variable [Zero F] {cfg : PoolConfig} {s : BufferPool F}

/-- **Every run keeps the invariant.** -/
theorem sound_run {evs : List (Event F)} (hr : Run (Step cfg) start evs s) : Sound cfg s :=
  hr.invariant_state (sound_start cfg) fun _ _ _ h hs => hs.sound h

/-- What a step touches is with its thread. -/
theorem Step.touched_own {s' : BufferPool F} {e : Event F} (hs : Step cfg s e s') {p : ℕ}
    (hp : p ∈ e.touched) : ∃ t, p ∈ s.own t := by
  cases hs with
  | @clear t p k hpc =>
      obtain rfl := Option.some.inj hp
      exact ⟨t, mem_own_of_buf (by rw [hpc]; rfl)⟩
  | @free t p hpc =>
      obtain rfl := Option.some.inj hp
      exact ⟨t, mem_own_of_buf (by rw [hpc]; rfl)⟩
  | @write t p i x hpc hheld =>
      obtain rfl := Option.some.inj hp
      exact ⟨t, mem_own_of_held hheld⟩
  | _ => cases hp

/-- **A buffer that `acquire` returns is zero**, from the queue and from `calloc`. -/
theorem Sound.zeroed (h : Sound cfg s) {s' : BufferPool F} {t p : ℕ}
    (hs : Step cfg s (.acquired t p) s') (hp : p ≠ 0) :
    p ∈ s'.held t ∧ s'.heap p = some (List.replicate cfg.bufferSize 0) := by
  have hmem : p ∈ Function.update s.held t (s.held t ++ [p]) t := by
    rw [Function.update_self]
    exact List.mem_append_right _ (List.mem_singleton_self p)
  cases hs with
  | acquired hpc =>
      obtain ⟨b, hb, htake⟩ := h.cleared t p _ hpc
      obtain ⟨-, b', hb', hlen⟩ := h.live p (.inr ⟨t, mem_own_of_buf (by rw [hpc]; rfl)⟩)
      obtain rfl : b = b' := Option.some.inj (hb.symm.trans hb')
      rw [← hlen, List.take_length] at htake
      exact ⟨hmem, by rw [← hlen, ← htake]; exact hb⟩
  | fallbackNull => exact absurd rfl hp
  | fallback => exact ⟨hmem, setHeap_self⟩

/-- **The pool keeps its promise in every run.** -/
theorem exclusive_run (cfg : PoolConfig) {evs : List (Event F)} {s : BufferPool F}
    (hr : Run (Step cfg) start evs s) : Exclusive cfg s := by
  have h := sound_run hr
  have hlive : ∀ p, s.Placed p → (s.heap p).isSome := fun p hp => by
    obtain ⟨-, b, hb, -⟩ := h.live p hp
    rw [hb]
    rfl
  refine ⟨h.apart.pool_nodup, fun h0 => (h.live 0 (.inl h0)).1 rfl, fun p hp t hheld => ?_,
    h.length_le, fun t u p ht hu => ?_, fun t => ?_, fun p hp => ?_, fun e s' hs p hp => ?_,
    fun t p s' hs hp => h.zeroed hs hp⟩
  · exact h.apart.pool_own p hp t (mem_own_of_held hheld)
  · exact h.apart.unique t u p (mem_own_of_held ht) (mem_own_of_held hu)
  · exact (List.nodup_append.1 (h.apart.own_nodup t)).1
  · exact hlive p (hp.imp id fun ⟨t, ht⟩ => ⟨t, mem_own_of_held ht⟩)
  · exact hlive p (.inr (hs.touched_own hp))

/-- A pool of one buffer of two elements: the buffer is taken, written into, put back and taken
again. -/
theorem exclusive_run_reuse :
    ∃ s : BufferPool ℕ, s.heap 8 = some [0, 0] ∧ s.held 1 = [8] ∧
      Exclusive ⟨2, 1⟩ s := by
  have h₁ : Run (Step ⟨2, 1⟩) (start : BufferPool ℕ) _ _ :=
    .single (.construct (p := 8) one_pos (by decide) (.inr rfl))
  have h₂ := h₁.snoc (.acquire (t := 0) rfl rfl rfl)
  have h₃ := h₂.snoc (.clear (t := 0) rfl two_pos)
  have h₄ := h₃.snoc (.clear (t := 0) rfl one_lt_two)
  have h₅ := h₄.snoc (.acquired (t := 0) rfl)
  have h₆ := h₅.snoc (.write (t := 0) (p := 8) (i := 1) 5 rfl (.head _))
  have h₇ := h₆.snoc (.release (t := 0) (p := 8) rfl rfl (by decide) (.head _) one_pos)
  have h₈ := h₇.snoc (.acquire (t := 1) rfl rfl rfl)
  have h₉ := h₈.snoc (.clear (t := 1) rfl two_pos)
  have h₁₀ := h₉.snoc (.clear (t := 1) rfl one_lt_two)
  have h₁₁ := h₁₀.snoc (.acquired (t := 1) rfl)
  exact ⟨_, rfl, rfl, exclusive_run ⟨2, 1⟩ h₁₁⟩

end BufferPool

end Gateway
