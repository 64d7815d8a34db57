/-
**The two routes of a log line to the file.**

`write_log` formats a line under `m_mutex` and then tests `full()`: a line that is to wait goes into
the queue, from which the flush thread takes it and writes it, and otherwise the thread writes the
line itself.  The test and the `push` are two critical sections of the queue's own mutex, so other
threads run between them.

A critical section is one step; whoever holds no lock may be anywhere in between.  The lines carry
the thread and the number of the call that formatted them, which the program does not.

Main definitions:

* `Gateway.AsyncLog` — the log in asynchronous mode with the threads in `write_log` and the flush
  thread, `Gateway.AsyncLog.Step` — one critical section of one of them;
* `Gateway.AsyncLog.Kept` — each line is in one place, and the lines of a thread are written in the
  order of its calls;
* `Gateway.AsyncLog.Timely` — a `push` finds room, and a thread that writes itself has no line on
  the other route.

Main results:

* `Gateway.AsyncLog.sound_run` — what a thread logged is, in order, in the file, in the flush
  thread's hand and in the queue;
* `Gateway.AsyncLog.timely_of_kept` — a step that is not timely loses, doubles or overtakes a line;
* `Gateway.AsyncLog.timely_iff_kept` — **a run keeps every line in order exactly when its steps are
  timely.**
-/

import Mathlib.Data.List.Nodup
import InferenceGateway.BlockQueue

set_option relaxedAutoImplicit false
set_option autoImplicit false

namespace Gateway

open EventSystem (Run Guarded Along)

/-! ### The log -/

/-- A formatted line, with the thread and the number of the call. -/
structure Line where
  thread : ℕ
  number : ℕ
  text : List UInt8
  deriving DecidableEq, Inhabited

/-- Where a thread is in `write_log`. -/
inductive LogPc
  /-- not in a call -/
  | out
  /-- the line is counted and the file is open -/
  | counted
  /-- `log_str` is formatted -/
  | formatted (line : Line)
  /-- `full()` returned false -/
  | pushing (line : Line)
  /-- `full()` returned true -/
  | writing (line : Line)

/-- The line that a thread holds. -/
def LogPc.line : LogPc → Option Line
  | .out | .counted => none
  | .formatted l | .pushing l | .writing l => some l

/-- The log in asynchronous mode.  `closed` and `mFp` are what was written into the files so far,
`calls` counts the lines that each thread formatted, and `returned` lists those whose call is over;
the program has neither of the last two. -/
structure AsyncLog where
  mLogQueue : BlockQueue Line
  mCount : ℤ
  mToday : ℤ
  mSplitLines : ℤ
  closed : List (List Line)
  mFp : List Line
  hand : Option Line
  threads : ℕ → LogPc
  calls : ℕ → ℕ
  returned : List Line

namespace AsyncLog

/-- The log after `init`, with a queue of `n` lines. -/
def start (n : ℤ) (h : 0 < n) (splitLines today : ℤ) : AsyncLog where
  mLogQueue := .ofSize n h
  mCount := 0
  mToday := today
  mSplitLines := splitLines
  closed := []
  mFp := []
  hand := none
  threads := fun _ => .out
  calls := fun _ => 0
  returned := []

/-- All that was written, file after file. -/
def file (s : AsyncLog) : List Line := s.closed.flatten ++ s.mFp

/-- `fputs`. -/
def fputs (s : AsyncLog) (l : Line) : AsyncLog := { s with mFp := s.mFp ++ [l] }

/-- The first critical section of `write_log`: the line is counted, and on a new day or after
`m_split_lines` lines another file is opened. -/
def count (s : AsyncLog) (mday : ℤ) : AsyncLog :=
  if s.mToday ≠ mday ∨ (s.mCount + 1).tmod s.mSplitLines = 0 then
    { s with
      closed := s.closed ++ [s.mFp]
      mFp := []
      mToday := mday
      mCount := if s.mToday ≠ mday then 0 else s.mCount + 1 }
  else { s with mCount := s.mCount + 1 }

def goto (s : AsyncLog) (t : ℕ) (pc : LogPc) : AsyncLog :=
  { s with threads := Function.update s.threads t pc }

/-- The end of a call. -/
def leave (s : AsyncLog) (t : ℕ) (l : Line) : AsyncLog :=
  { s.goto t .out with returned := s.returned ++ [l] }

/-- What a step is, and whose. -/
inductive Event
  | count (t : ℕ) (mday : ℤ)
  | format (t : ℕ) (text : List UInt8)
  | test (t : ℕ)
  | push (t : ℕ)
  | write (t : ℕ)
  | take
  | flush

/-- One critical section of a thread in `write_log` or of the flush thread. -/
inductive Step (s : AsyncLog) : Event → AsyncLog → Prop
  | count {t : ℕ} (mday : ℤ) (h : s.threads t = .out) :
      Step s (.count t mday) ((s.count mday).goto t .counted)
  | format {t : ℕ} (text : List UInt8) (h : s.threads t = .counted) :
      Step s (.format t text)
        { s.goto t (.formatted ⟨t, s.calls t, text⟩) with
          calls := Function.update s.calls t (s.calls t + 1) }
  | test {t : ℕ} {l : Line} (h : s.threads t = .formatted l) :
      Step s (.test t) (s.goto t (if !s.mLogQueue.full then .pushing l else .writing l))
  | push {t : ℕ} {l : Line} (h : s.threads t = .pushing l) :
      Step s (.push t) ({ s with mLogQueue := (s.mLogQueue.push l).2 }.leave t l)
  | write {t : ℕ} {l : Line} (h : s.threads t = .writing l) :
      Step s (.write t) ((s.fputs l).leave t l)
  | take {l : Line} {q : BlockQueue Line} (h : s.hand = none)
      (hq : s.mLogQueue.pop = some (l, q)) :
      Step s .take { s with mLogQueue := q, hand := some l }
  | flush {l : Line} (h : s.hand = some l) : Step s .flush { s.fputs l with hand := none }

/-! ### What is to hold -/

/-- The lines that have not reached the file, the next one first. -/
def pending (s : AsyncLog) : List Line := s.hand.toList ++ s.mLogQueue.contents

/-- **Every line that was logged is in one place, and the lines of a thread are in the file in the
order of its calls.** -/
structure Kept (s : AsyncLog) : Prop where
  once : ∀ l ∈ s.returned, (s.file ++ s.pending).count l = 1
  ordered : ∀ l ∈ s.returned, ∀ l' ∈ s.returned, l.thread = l'.thread → l.number < l'.number →
    l' ∈ s.file → [l, l'].Sublist s.file

/-- A `push` finds room, and a thread that writes a line itself has none that is still pending. -/
def Timely (s : AsyncLog) : Event → Prop
  | .push _ => s.mLogQueue.mSize < s.mLogQueue.mMaxSize
  | .write t => ∀ l ∈ s.pending, l.thread ≠ t
  | _ => True

/-! ### The lines of one thread -/

/-- The lines of thread `t`. -/
def byThread (t : ℕ) (ls : List Line) : List Line := ls.filter fun l => l.thread = t

@[simp] theorem byThread_nil (t : ℕ) : byThread t [] = [] := rfl

@[simp] theorem byThread_append (t : ℕ) (ls ls' : List Line) :
    byThread t (ls ++ ls') = byThread t ls ++ byThread t ls' := List.filter_append ..

theorem byThread_self {t : ℕ} {l : Line} (h : l.thread = t) : byThread t [l] = [l] :=
  List.filter_cons_of_pos (by simpa using h)

theorem byThread_other {t u : ℕ} {l : Line} (h : l.thread = t) (hu : u ≠ t) :
    byThread u [l] = [] :=
  List.filter_cons_of_neg (by simpa [h] using hu.symm)

theorem mem_byThread {t : ℕ} {l : Line} {ls : List Line} :
    l ∈ byThread t ls ↔ l ∈ ls ∧ l.thread = t := by
  rw [byThread, List.mem_filter, decide_eq_true_iff]

theorem count_byThread (l : Line) (ls : List Line) :
    (byThread l.thread ls).count l = ls.count l :=
  List.count_filter (by simp)

/-- Two members of a sorted list stand in it in their order. -/
theorem sublist_of_sorted {ls : List Line} {l l' : Line}
    (h : ls.Pairwise fun l l' => l.number < l'.number) (hl : l ∈ ls) (hl' : l' ∈ ls)
    (hlt : l.number < l'.number) : [l, l'].Sublist ls := by
  induction ls with
  | nil => cases hl
  | cons a ls ih =>
      obtain ⟨ha, hls⟩ := List.pairwise_cons.1 h
      rcases List.mem_cons.1 hl' with rfl | hmem'
      · rcases List.mem_cons.1 hl with rfl | hmem
        · omega
        · have := ha l hmem
          omega
      · rcases List.mem_cons.1 hl with rfl | hmem
        · exact (List.singleton_sublist.2 hmem').cons_cons l
        · exact (ih hls hmem hmem').cons a

/-! ### The invariant -/

/-- All that was logged: what is in the file, then what is pending. -/
def trail (s : AsyncLog) : List Line := s.file ++ s.pending

/-- **The invariant.**  What a thread logged is its part of the trail, in order, and with the line
that it holds its lines are numbered from zero on. -/
structure Sound (s : AsyncLog) : Prop where
  size_le : s.mLogQueue.mSize ≤ s.mLogQueue.mMaxSize
  traced : ∀ t, byThread t s.trail = byThread t s.returned
  own : ∀ t l, (s.threads t).line = some l → l.thread = t
  numbered : ∀ t, (byThread t s.returned ++ (s.threads t).line.toList).map Line.number =
    List.range (s.calls t)

theorem sound_start (n : ℤ) (h : 0 < n) (splitLines today : ℤ) :
    Sound (start n h splitLines today) where
  size_le := h.le
  traced _ := rfl
  own _ _ h := by cases h
  numbered _ := rfl

/-- Opening another file writes nothing. -/
theorem count_frame (s : AsyncLog) (mday : ℤ) :
    (s.count mday).trail = s.trail ∧ (s.count mday).mLogQueue = s.mLogQueue ∧
      (s.count mday).returned = s.returned ∧ (s.count mday).threads = s.threads ∧
        (s.count mday).calls = s.calls := by
  unfold count
  split
  · exact ⟨by simp [trail, file, pending], rfl, rfl, rfl, rfl⟩
  · exact ⟨rfl, rfl, rfl, rfl, rfl⟩

theorem trail_fputs (s : AsyncLog) (l : Line) :
    (s.fputs l).trail = s.file ++ [l] ++ s.pending := by
  rw [trail, file, fputs, ← List.append_assoc]
  rfl

/-- A step of thread `t` that logs nothing keeps the invariant when the line in the hand of `t` is
numbered on. -/
theorem Sound.goto {s : AsyncLog} (h : Sound s) {t k : ℕ} (pc : LogPc)
    (hown : ∀ l, pc.line = some l → l.thread = t)
    (hnum : (byThread t s.returned ++ pc.line.toList).map Line.number = List.range k) :
    Sound { s.goto t pc with calls := Function.update s.calls t k } where
  size_le := h.size_le
  traced := h.traced
  own u l hl := by
    by_cases hu : u = t
    · subst hu
      exact hown l (by simpa [AsyncLog.goto] using hl)
    · exact h.own u l (by simpa [AsyncLog.goto, hu] using hl)
  numbered u := by
    by_cases hu : u = t
    · subst hu
      simpa [AsyncLog.goto] using hnum
    · simpa [AsyncLog.goto, hu] using h.numbered u

/-- **A call that ends** with its line behind all other lines of its thread. -/
theorem Sound.leave {s s' : AsyncLog} (h : Sound s) {t : ℕ} {l : Line}
    (hl : (s.threads t).line = some l) (hsize : s'.mLogQueue.mSize ≤ s'.mLogQueue.mMaxSize)
    (hret : s'.returned = s.returned) (hthreads : s'.threads = s.threads)
    (hcalls : s'.calls = s.calls)
    (htrail : ∀ u, byThread u s'.trail = byThread u s.trail ++ byThread u [l]) :
    Sound (s'.leave t l) where
  size_le := hsize
  traced u := by
    show byThread u s'.trail = byThread u (s'.returned ++ [l])
    rw [htrail, h.traced, hret, byThread_append]
  own u l' hl' := by
    by_cases hu : u = t
    · subst hu
      simp [AsyncLog.leave, AsyncLog.goto, LogPc.line] at hl'
    · exact h.own u l' (by simpa [AsyncLog.leave, AsyncLog.goto, hu, hthreads] using hl')
  numbered u := by
    have hnum := h.numbered u
    show (byThread u (s'.returned ++ [l]) ++ ((s'.leave t l).threads u).line.toList).map
      Line.number = List.range (s'.calls u)
    rw [hret, hcalls, ← hnum, byThread_append]
    by_cases hu : u = t
    · subst hu
      rw [hl, byThread_self (h.own u l hl)]
      simp [AsyncLog.leave, AsyncLog.goto, LogPc.line]
    · simp [AsyncLog.leave, AsyncLog.goto, hu, hthreads, byThread_other (h.own t l hl) hu]

/-- **A timely step keeps the invariant.** -/
theorem Step.sound {s s' : AsyncLog} {e : Event} (hs : Step s e s') (h : Sound s)
    (ht : Timely s e) : Sound s' := by
  cases hs with
  | @count t mday hpc =>
      obtain ⟨htrail, hq, hret, hthreads, hcalls⟩ := s.count_frame mday
      have hc : Sound (s.count mday) :=
        ⟨by rw [hq]; exact h.size_le, by rw [htrail, hret]; exact h.traced,
          by rw [hthreads]; exact h.own, by rw [hret, hthreads, hcalls]; exact h.numbered⟩
      have hnum := hc.numbered t
      rw [hthreads, hpc] at hnum
      have := hc.goto .counted (by simp [LogPc.line]) hnum
      rwa [Function.update_eq_self] at this
  | @format t text hpc =>
      refine h.goto (.formatted _) (by simp [LogPc.line]) ?_
      have hnum := h.numbered t
      rw [hpc] at hnum
      simpa [LogPc.line, List.range_succ] using hnum
  | @test t l hpc =>
      have hown := h.own t l (by rw [hpc]; rfl)
      have hnum := h.numbered t
      rw [hpc] at hnum
      have := h.goto (t := t) (k := s.calls t)
        (if !s.mLogQueue.full then .pushing l else .writing l)
        (by split <;> simp [LogPc.line, hown])
        (by split <;> exact hnum)
      rwa [Function.update_eq_self] at this
  | @push t l hpc =>
      have hroom : s.mLogQueue.mSize < s.mLogQueue.mMaxSize := ht
      refine h.leave (by rw [hpc]; rfl) ?_ rfl rfl rfl fun u => ?_
      · rw [BlockQueue.push, if_neg (by omega)]
        exact hroom
      · rw [← byThread_append, BlockQueue.push, if_neg (by omega)]
        simp [trail, file, pending, BlockQueue.contents_store l hroom]
  | @write t l hpc =>
      have hown := h.own t l (by rw [hpc]; rfl)
      refine h.leave (by rw [hpc]; rfl) h.size_le rfl rfl rfl fun u => ?_
      rw [trail_fputs, trail, byThread_append, byThread_append, byThread_append]
      by_cases hu : u = t
      · -- nothing of the thread is pending, so the end of the file is the end of its trail
        have hnone : byThread u s.pending = [] :=
          List.filter_eq_nil_iff.2 fun l hl => by simpa [hu] using ht l hl
        rw [hnone, List.append_nil, List.append_nil]
      · rw [byThread_other hown hu, List.append_nil, List.append_nil]
  | take hh hq =>
      obtain ⟨hc, hm, hsz⟩ := BlockQueue.contents_pop hq
      refine ⟨?_, ?_, h.own, h.numbered⟩
      · have := h.size_le
        simp only [hm, hsz]
        omega
      · intro t
        rw [← h.traced t]
        simp [trail, file, pending, hh, hc]
  | flush hh =>
      refine ⟨h.size_le, fun t => ?_, h.own, h.numbered⟩
      refine Eq.trans ?_ (h.traced t)
      simp [trail, file, pending, fputs, hh]

/-- **Every run of timely steps keeps the invariant.** -/
theorem sound_run {n : ℤ} {h : 0 < n} {splitLines today : ℤ} {evs : List Event} {s : AsyncLog}
    (hr : Run (Guarded Step Timely) (start n h splitLines today) evs s) : Sound s :=
  hr.invariant_state (sound_start n h splitLines today) fun _ _ _ h hs => hs.1.sound h hs.2

/-! ### What the invariant says -/

namespace Sound

variable {s : AsyncLog} {l l' : Line}

/-- The returned lines of a thread, in the order of its calls. -/
theorem sorted (h : Sound s) (t : ℕ) :
    (byThread t s.returned).Pairwise fun l l' => l.number < l'.number := by
  have hnum := List.pairwise_lt_range (n := s.calls t)
  rw [← h.numbered t, List.pairwise_map] at hnum
  exact (List.pairwise_append.1 hnum).1

theorem once (h : Sound s) (hl : l ∈ s.returned) : s.trail.count l = 1 := by
  have hnodup : (byThread l.thread s.returned).Nodup :=
    (h.sorted l.thread).imp fun hlt heq => by rw [heq] at hlt; exact lt_irrefl _ hlt
  rw [← count_byThread, h.traced]
  exact List.count_eq_one_of_mem hnodup (mem_byThread.2 ⟨hl, rfl⟩)

/-- A line of the trail was returned, unless a thread holds one of the same name. -/
theorem returned_of_mem (h : Sound s) (hl : l ∈ s.trail) : l ∈ s.returned := by
  have : l ∈ byThread l.thread s.trail := mem_byThread.2 ⟨hl, rfl⟩
  rw [h.traced] at this
  exact (mem_byThread.1 this).1

/-- The returned lines of a thread are numbered below the one that it holds. -/
theorem number_lt (h : Sound s) {t : ℕ} (hl : (s.threads t).line = some l) (hl' : l' ∈ s.returned)
    (ht : l'.thread = t) : l'.number < l.number := by
  have hnum := List.pairwise_lt_range (n := s.calls t)
  rw [← h.numbered t, List.pairwise_map] at hnum
  exact (List.pairwise_append.1 hnum).2.2 l' (mem_byThread.2 ⟨hl', ht⟩) l (by rw [hl]; simp)

/-- **The invariant promises what the log is to keep.** -/
theorem kept (h : Sound s) : Kept s where
  once l hl := h.once hl
  ordered l hl l' hl' ht hlt hfile := by
    -- both lines are in the trail of their thread, which is sorted by the number
    have hsorted : (byThread l'.thread s.file ++ byThread l'.thread s.pending).Pairwise
        fun l l' => l.number < l'.number := by
      rw [← byThread_append, show s.file ++ s.pending = s.trail from rfl, h.traced]
      exact h.sorted _
    have hmem : l ∈ byThread l'.thread s.file ++ byThread l'.thread s.pending := by
      rw [← byThread_append, show s.file ++ s.pending = s.trail from rfl, h.traced]
      exact mem_byThread.2 ⟨hl, ht⟩
    obtain ⟨hs, -, hcross⟩ := List.pairwise_append.1 hsorted
    have hfile' : l' ∈ byThread l'.thread s.file := mem_byThread.2 ⟨hfile, rfl⟩
    have hl : l ∈ byThread l'.thread s.file := by
      rcases List.mem_append.1 hmem with hl | hl
      · exact hl
      · have := hcross l' hfile' l hl
        omega
    refine List.Sublist.trans ?_ (List.filter_sublist (p := fun l => l.thread = l'.thread))
    exact sublist_of_sorted hs hl hfile' hlt

end Sound

/-! ### Steps that are not timely -/

/-- **A step that is not timely breaks the promise.** -/
theorem timely_of_kept {s s' : AsyncLog} {e : Event} (h : Sound s) (hs : Step s e s')
    (hk : Kept s') : Timely s e := by
  cases hs with
  | @push t l hpc =>
      by_contra hfull
      have hsize : s.mLogQueue.mSize = s.mLogQueue.mMaxSize := by
        have := h.size_le
        simp only [Timely] at hfull
        omega
      -- the line is now at both ends of the queue
      obtain ⟨-, -, hc⟩ := BlockQueue.push_overwrites l hsize
      have htwice := hk.once l (List.mem_append_right _ (List.mem_singleton_self l))
      have hpending : ∀ q, ({ s with mLogQueue := q }.leave t l).file ++
          ({ s with mLogQueue := q }.leave t l).pending =
            s.file ++ (s.hand.toList ++ q.contents) := fun _ => rfl
      rw [hpending, hc, List.cons_append] at htwice
      simp only [List.count_append, List.count_cons_self] at htwice
      omega
  | @write t l hpc =>
      intro l' hl' ht
      have hline : (s.threads t).line = some l := by rw [hpc]; rfl
      have hret : l' ∈ s.returned := h.returned_of_mem (List.mem_append_right _ hl')
      -- an earlier line of the thread is pending, and the one just written is in the file
      have hsub := hk.ordered l' (List.mem_append_left _ hret) l
        (List.mem_append_right _ (List.mem_singleton_self l)) (ht.trans (h.own t l hline).symm)
        (h.number_lt hline hret ht)
        (List.mem_append_right _ (List.mem_append_right _ (List.mem_singleton_self l)))
      have hfile : l' ∈ ((s.fputs l).leave t l).file := hsub.subset List.mem_cons_self
      have honce := hk.once l' (List.mem_append_left _ hret)
      rw [List.count_append] at honce
      have h₁ := List.count_pos_iff.2 hfile
      have h₂ : 0 < ((s.fputs l).leave t l).pending.count l' := List.count_pos_iff.2 hl'
      omega
  | count | format | test | take | flush => trivial

/-- **A run keeps every line, in order, exactly when its steps are timely.** -/
theorem timely_iff_kept (n : ℤ) (h : 0 < n) (splitLines today : ℤ) (evs : List Event)
    (s : AsyncLog) :
    Run (Guarded Step Timely) (start n h splitLines today) evs s ↔
      Along Step (fun _ s => Kept s) (start n h splitLines today) evs s :=
  Run.iff_along (fun _ _ _ hs => hs.1) (fun _ _ hr => (sound_run hr).kept)
    fun _ _ _ _ hr hs hk => ⟨hs, timely_of_kept (sound_run hr) hs hk⟩

/-- Two threads log twice each, through a queue of one cell.  The first line of thread 1 finds it
full and is written at once, the other three wait for the flush thread. -/
theorem timely_iff_kept_two : ∃ (evs : List Event) (s : AsyncLog),
    Along Step (fun _ s => Kept s) (start 1 Int.one_pos 800000 1) evs s ∧
      s.file = [⟨1, 0, [66]⟩, ⟨0, 0, [65]⟩, ⟨0, 1, [67]⟩, ⟨1, 1, [68]⟩] ∧
      s.returned = [⟨0, 0, [65]⟩, ⟨1, 0, [66]⟩, ⟨0, 1, [67]⟩, ⟨1, 1, [68]⟩] := by
  have hr : Run (Guarded Step Timely) (start 1 Int.one_pos 800000 1) _ _ :=
    .single ⟨.count (t := 0) 1 rfl, trivial⟩
  have hr := hr.snoc ⟨.format (t := 0) [65] rfl, trivial⟩
  have hr := hr.snoc ⟨.test (t := 0) rfl, trivial⟩
  have hr := hr.snoc ⟨.push (t := 0) (l := ⟨0, 0, [65]⟩) rfl, Int.one_pos⟩
  have hr := hr.snoc ⟨.count (t := 1) 1 rfl, trivial⟩
  have hr := hr.snoc ⟨.format (t := 1) [66] rfl, trivial⟩
  have hr := hr.snoc ⟨.test (t := 1) rfl, trivial⟩
  have hr := hr.snoc ⟨.write (t := 1) (l := ⟨1, 0, [66]⟩) rfl, by
    rintro l (_ | ⟨_, ⟨⟩⟩)
    exact Nat.zero_ne_one⟩
  have hr := hr.snoc ⟨.take (l := ⟨0, 0, [65]⟩) rfl rfl, trivial⟩
  have hr := hr.snoc ⟨.count (t := 0) 1 rfl, trivial⟩
  have hr := hr.snoc ⟨.flush rfl, trivial⟩
  have hr := hr.snoc ⟨.format (t := 0) [67] rfl, trivial⟩
  have hr := hr.snoc ⟨.test (t := 0) rfl, trivial⟩
  have hr := hr.snoc ⟨.push (t := 0) (l := ⟨0, 1, [67]⟩) rfl, Int.one_pos⟩
  have hr := hr.snoc ⟨.take (l := ⟨0, 1, [67]⟩) rfl rfl, trivial⟩
  have hr := hr.snoc ⟨.count (t := 1) 1 rfl, trivial⟩
  have hr := hr.snoc ⟨.format (t := 1) [68] rfl, trivial⟩
  have hr := hr.snoc ⟨.test (t := 1) rfl, trivial⟩
  have hr := hr.snoc ⟨.push (t := 1) (l := ⟨1, 1, [68]⟩) rfl, Int.one_pos⟩
  have hr := hr.snoc ⟨.flush rfl, trivial⟩
  have hr := hr.snoc ⟨.take (l := ⟨1, 1, [68]⟩) rfl rfl, trivial⟩
  have hr := hr.snoc ⟨.flush rfl, trivial⟩
  exact ⟨_, _, (timely_iff_kept 1 Int.one_pos 800000 1 _ _).1 hr, rfl, rfl⟩

/-- A thread that logs twice into a queue of one cell: the second line is written first. -/
theorem not_kept :
    ¬ ∀ (n : ℤ) (h : 0 < n) (splitLines today : ℤ) (evs : List Event) (s : AsyncLog),
      Run Step (start n h splitLines today) evs s → Kept s := by
  intro hall
  have h₁ : Run Step (start 1 Int.one_pos 800000 1) _ _ := .single (.count (t := 0) 1 rfl)
  have h₂ := h₁.snoc (.format (t := 0) [65] rfl)
  have h₃ := h₂.snoc (.test (t := 0) rfl)
  have h₄ := h₃.snoc (.push (t := 0) (l := ⟨0, 0, [65]⟩) rfl)
  have h₅ := h₄.snoc (.count (t := 0) 1 rfl)
  have h₆ := h₅.snoc (.format (t := 0) [66] rfl)
  have h₇ := h₆.snoc (.test (t := 0) rfl)
  have h₈ := h₇.snoc (.write (t := 0) (l := ⟨0, 1, [66]⟩) rfl)
  have h₉ := h₈.snoc (.take (l := ⟨0, 0, [65]⟩) rfl rfl)
  have h₁₀ := h₉.snoc (.flush rfl)
  have hsub := (hall 1 Int.one_pos 800000 1 _ _ h₁₀).ordered ⟨0, 0, [65]⟩ (.head _) ⟨0, 1, [66]⟩
    (.tail _ (.head _)) rfl (by decide) (.head _)
  exact absurd hsub (by decide)

end AsyncLog

end Gateway
