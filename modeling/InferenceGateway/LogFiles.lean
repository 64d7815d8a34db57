/-
**The files of the log.**

`Log::init` opens a file that is named after the day, and `write_log` opens another one on a new
day and after every `m_split_lines` lines.  The line is counted in one critical section, formatted
in the next and written in a third, by its own thread or, behind the queue, by the flush thread:
another file may have been opened in between.  `fopen` succeeds.

Main definitions:

* `Gateway.LogFiles.name` — the name of a file, from the day and the number behind the dot;
* `Gateway.LogFiles`, `Gateway.LogFiles.Step` — the log with its files on the disk;
* `Gateway.LogFiles.Orderly` — the lines are counted in the order of their days;
* `Gateway.LogFiles.Tidy` — the disk holds what was written, every file after the other.

Main results:

* `Gateway.LogFiles.name_inj` — a name says the day and the number;
* `Gateway.LogFiles.Step.tidy`, `Gateway.LogFiles.Step.bounded` — what one step preserves;
* `Gateway.LogFiles.rotation` — **no file is opened twice, the files in the order of their opening
  are the log, and none is longer than the lines that can be on their way allow.**
-/

import Mathlib.Algebra.BigOperators.Group.Finset.Basic
import Mathlib.Algebra.Order.BigOperators.Group.Finset
import InferenceGateway.AsyncLog
import InferenceGateway.LogFormat

set_option relaxedAutoImplicit false
set_option autoImplicit false

namespace Gateway

open EventSystem (Run Guarded)

/-! ### Names -/

/-- A number of the day: the later day has the greater one. -/
def Stamp.day (t : Stamp) : ℤ := (t.tmYear * 12 + t.tmMon) * 31 + t.tmMday

/-- A year that is written with at most four digits. -/
def Stamp.Common (t : Stamp) : Prop := 0 ≤ t.tmYear + 1900 ∧ t.tmYear + 1900 < 10000

/-- `"%d_%02d_%02d_"`. -/
def Stamp.tail (t : Stamp) : Bytes :=
  padded 0 (t.tmYear + 1900) ++ ascii "_" ++ padded 2 (t.tmMon + 1) ++ ascii "_" ++
    padded 2 t.tmMday ++ ascii "_"

theorem Stamp.day_eq_iff {t t' : Stamp} :
    t.day = t'.day ↔ t.tmYear = t'.tmYear ∧ t.tmMon = t'.tmMon ∧ t.tmMday = t'.tmMday := by
  have hmon := t.mon_range
  have hmon' := t'.mon_range
  have hmday := t.mday_range
  have hmday' := t'.mday_range
  unfold Stamp.day
  constructor
  · intro h
    omega
  · rintro ⟨hy, hm, hd⟩
    rw [hy, hm, hd]

/-- A number of enough digits is printed with digits, which say it. -/
theorem digits_padded (w : ℕ) {z : ℤ} (hz : 0 ≤ z) :
    (∀ b ∈ padded w z, CString.isdigit b = true) ∧ (CString.digits (padded w z) : ℤ) = z := by
  obtain ⟨hall, hvalue⟩ := digits_decimal z.natAbs
  have hzeros : ∀ k n, (List.replicate k (48 : UInt8)).foldl
      (fun n b => 10 * n + (b.toNat - 48)) n = 10 ^ k * n := by
    intro k
    induction k with
    | zero => exact fun n => (Nat.one_mul n).symm
    | succ k ih =>
        intro n
        rw [List.replicate_succ, List.foldl_cons, ih, Nat.pow_succ, Nat.mul_assoc]
        rfl
  rw [padded]
  simp only [if_neg (not_lt.2 hz), List.nil_append]
  constructor
  · intro b hb
    rcases List.mem_append.1 hb with hb | hb
    · rw [List.eq_of_mem_replicate hb]
      rfl
    · exact hall b hb
  · rw [CString.digits, List.foldl_append, hzeros, Nat.mul_zero]
    have hdigits : CString.digits (HttpConn.decimal z.natAbs) = z.natAbs := hvalue
    rw [CString.digits] at hdigits
    rw [hdigits]
    omega

/-- A number in front of a `_` is read off. -/
theorem padded_inj {w : ℕ} {y z : ℤ} {r r' : Bytes} (hy : 0 ≤ y) (hz : 0 ≤ z)
    (h : padded w y ++ (ascii "_" ++ r) = padded w z ++ (ascii "_" ++ r')) : y = z ∧ r = r' := by
  obtain ⟨hally, hvaluey⟩ := digits_padded w hy
  obtain ⟨hallz, hvaluez⟩ := digits_padded w hz
  have hstop : ∀ s : Bytes, ∀ b ∈ (ascii "_" ++ s).head?, CString.isdigit b = false := by
    intro s b hb
    rw [← Option.mem_some.1 hb]
    rfl
  have hpad : padded w y = padded w z := by
    rw [← CString.takeWhile_append_stop hally (hstop r), h,
      CString.takeWhile_append_stop hallz (hstop r')]
  rw [hpad] at h
  exact ⟨by rw [← hvaluey, ← hvaluez, hpad],
    List.append_cancel_left (List.append_cancel_left h)⟩

/-- The day in front of a name is read off. -/
theorem Stamp.tail_inj {t t' : Stamp} {r r' : Bytes} (ht : t.Common) (ht' : t'.Common)
    (h : t.tail ++ r = t'.tail ++ r') : t.day = t'.day ∧ r = r' := by
  have hmon := t.mon_range
  have hmon' := t'.mon_range
  have hmday := t.mday_range
  have hmday' := t'.mday_range
  simp only [Stamp.tail, List.append_assoc] at h
  obtain ⟨hyear, h⟩ := padded_inj ht.1 ht'.1 h
  obtain ⟨hmon, h⟩ := padded_inj (by omega) (by omega) h
  obtain ⟨hmday, h⟩ := padded_inj (by omega) (by omega) h
  exact ⟨Stamp.day_eq_iff.2 ⟨by omega, by omega, hmday⟩, h⟩

@[simp] theorem length_underscore : (ascii "_").length = 1 := rfl

theorem Stamp.length_tail_le {t : Stamp} (ht : t.Common) : t.tail.length ≤ 11 := by
  have hmon := t.mon_range
  have hmday := t.mday_range
  have hyear := length_padded_le (w := 0) (k := 4) ht.1 (by decide) ht.2 (by decide)
  have two : ∀ z : ℤ, 0 ≤ z → z < 100 → (padded 2 z).length ≤ 2 := fun z hz hlt =>
    length_padded_le hz (by decide) hlt le_rfl
  have hm := two (t.tmMon + 1) (by omega) (by omega)
  have hd := two t.tmMday (by omega) (by omega)
  simp only [Stamp.tail, List.length_append, length_underscore]
  omega

/-! ### The log with its files -/

/-- The log and the disk.  `fp` is the name of the open file, `past` those of the files that were
open before and `last` the time that was read for the last line that was counted; the program has
neither of the last two. -/
structure LogFiles where
  log : AsyncLog
  isAsync : Bool
  dirName : Bytes
  logName : Bytes
  fp : Bytes
  disk : Bytes → List Line
  past : List Bytes
  last : Stamp

namespace LogFiles

/-- `/`. -/
def slash : UInt8 := 47

/-- The directory of a path, with the last slash. -/
def dirOf (fileName : Bytes) : Bytes := (fileName.reverse.dropWhile (· != slash)).reverse

/-- What is behind the last slash of a path. -/
def baseOf (fileName : Bytes) : Bytes := (fileName.reverse.takeWhile (· != slash)).reverse

/-- The file that `init` opens. -/
def initName (fileName : Bytes) (t : Stamp) : Bytes :=
  if slash ∈ fileName then (dirOf fileName ++ t.tail ++ baseOf fileName).take 298
  else (t.tail ++ fileName).take 298

/-- `init`, at the time `t` and on a disk with files.  Without a slash in the path `dir_name` and
`log_name` stay empty. -/
def init (fileName : Bytes) (t : Stamp) (splitLines maxQueueSize : ℤ) (disk : Bytes → List Line) :
    LogFiles where
  log := .start (max maxQueueSize 1) (lt_max_of_lt_right one_pos) splitLines t.tmMday
  isAsync := decide (1 ≤ maxQueueSize)
  dirName := if slash ∈ fileName then dirOf fileName else []
  logName := if slash ∈ fileName then baseOf fileName else []
  fp := initName fileName t
  disk := disk
  past := []
  last := t

/-- Whether a line opens another file. -/
def opens (s : LogFiles) (mday : ℤ) : Prop :=
  s.log.mToday ≠ mday ∨ (s.log.mCount + 1).tmod s.log.mSplitLines = 0

instance (s : LogFiles) (mday : ℤ) : Decidable (s.opens mday) :=
  inferInstanceAs (Decidable (_ ∨ _))

/-- `new_log`. -/
def newLog (s : LogFiles) (t : Stamp) : Bytes :=
  if s.log.mToday ≠ t.tmMday then (s.dirName ++ t.tail.take 15 ++ s.logName).take 298
  else (s.dirName ++ t.tail.take 15 ++ s.logName ++ ascii "." ++
    padded 0 ((s.log.mCount + 1).tdiv s.log.mSplitLines)).take 298

/-- The first critical section of `write_log`, for the time `t`. -/
def count (s : LogFiles) (t : Stamp) : LogFiles :=
  { s with
    log := s.log.count t.tmMday
    fp := if s.opens t.tmMday then s.newLog t else s.fp
    past := if s.opens t.tmMday then s.past ++ [s.fp] else s.past
    last := t }

/-- A line that opens a file. -/
theorem log_count_of_opens {s : LogFiles} {mday : ℤ} (h : s.opens mday) :
    s.log.count mday = { s.log with
      closed := s.log.closed ++ [s.log.mFp]
      mFp := []
      mToday := mday
      mCount := if s.log.mToday ≠ mday then 0 else s.log.mCount + 1 } := if_pos h

/-- A line for the file that is open. -/
theorem log_count_of_stays {s : LogFiles} {mday : ℤ} (h : ¬ s.opens mday) :
    s.log.count mday = { s.log with mCount := s.log.mCount + 1 } := if_neg h

/-- `fputs`, into a file that is opened for appending. -/
def fputs (s : LogFiles) (l : Line) : LogFiles :=
  { s with
    log := s.log.fputs l
    disk := Function.update s.disk s.fp (s.disk s.fp ++ [l]) }

/-- What a step is.  The time is read before the lock is taken. -/
inductive Event
  | count (t : ℕ) (stamp : Stamp)
  | log (e : AsyncLog.Event)

/-- The critical sections that leave the files alone; `full()` is called in asynchronous mode. -/
def Quiet (isAsync : Bool) : AsyncLog.Event → Prop
  | .format _ _ | .push _ | .take => True
  | .test _ => isAsync = true
  | .count _ _ | .write _ | .flush => False

/-- One critical section of a thread in `write_log` or of the flush thread. -/
inductive Step (s : LogFiles) : Event → LogFiles → Prop
  | count {t : ℕ} (stamp : Stamp) (h : s.log.threads t = .out) :
      Step s (.count t stamp)
        { s.count stamp with log := (s.count stamp).log.goto t .counted }
  | quiet {e : AsyncLog.Event} {log' : AsyncLog} (h : s.log.Step e log') (he : Quiet s.isAsync e) :
      Step s (.log e) { s with log := log' }
  | direct {t : ℕ} {l : Line} (h : s.log.threads t = .formatted l) (hsync : s.isAsync = false) :
      Step s (.log (.test t)) { s with log := s.log.goto t (.writing l) }
  | write {t : ℕ} {l : Line} (h : s.log.threads t = .writing l) :
      Step s (.log (.write t)) { s.fputs l with log := (s.fputs l).log.leave t l }
  | flush {l : Line} (h : s.log.hand = some l) :
      Step s (.log .flush) { s.fputs l with log := { (s.fputs l).log with hand := none } }

/-- The lines are counted by `n` threads, in the order of their days, and no more of them than a
`long long` can count; two days that follow each other differ in the day of the month. -/
def Orderly (n : ℕ) (s : LogFiles) : Event → Prop
  | .count t stamp => t < n ∧ stamp.Common ∧ s.log.mCount + 1 < 2 ^ 63 ∧
      (stamp.day = s.last.day ∨ s.last.day < stamp.day ∧ stamp.tmMday ≠ s.last.tmMday)
  | .log _ => True

/-- The steps of the threads and the queue are those of the log in asynchronous mode. -/
theorem Step.log {s s' : LogFiles} {e : Event} (hs : Step s e s') (h : s.isAsync = true) :
    ∃ e', s.log.Step e' s'.log := by
  cases hs with
  | count stamp hpc => exact ⟨_, .count _ hpc⟩
  | quiet hs _ => exact ⟨_, hs⟩
  | direct hpc hsync =>
      rw [h] at hsync
      cases hsync
  | write hpc => exact ⟨_, .write hpc⟩
  | flush hh => exact ⟨_, .flush hh⟩

/-! ### Names of files -/

/-- The name of a file: the first one of its day has no number. -/
def name (dirName logName : Bytes) (t : Stamp) (k : ℤ) : Bytes :=
  dirName ++ (t.tail ++ (logName ++ if k = 0 then [] else ascii "." ++ padded 0 k))

/-- **A name says the day and the number.** -/
theorem name_inj {dirName logName : Bytes} {t t' : Stamp} {k k' : ℤ} (ht : t.Common)
    (ht' : t'.Common) (hk : 0 ≤ k) (hk' : 0 ≤ k')
    (h : name dirName logName t k = name dirName logName t' k') : t.day = t'.day ∧ k = k' := by
  obtain ⟨hday, h⟩ := Stamp.tail_inj ht ht' (List.append_cancel_left h)
  refine ⟨hday, ?_⟩
  have h := List.append_cancel_left h
  split at h
  · next hzero =>
      split at h
      · next hzero' => rw [hzero, hzero']
      · cases h
  · split at h
    · cases h
    · have hpad := List.append_cancel_left h
      rw [← (digits_padded 0 hk).2, ← (digits_padded 0 hk').2, hpad]

/-- Paths and numbers of files that the buffers of the names have room for. -/
structure Fits (dirName logName : Bytes) (k : ℤ) : Prop where
  path : dirName.length + logName.length ≤ 127
  number : 0 ≤ k ∧ k < 2 ^ 63

theorem length_name_le {dirName logName : Bytes} {t : Stamp} {k : ℤ} (ht : t.Common)
    (h : Fits dirName logName k) : (name dirName logName t k).length ≤ 158 := by
  have htail := Stamp.length_tail_le ht
  have hpath := h.path
  have hnumber : (if k = 0 then [] else ascii "." ++ padded 0 k).length ≤ 20 := by
    split
    · exact Nat.zero_le _
    · have hpadded := length_padded_le (w := 0) (k := 19) h.number.1 (by decide)
        (lt_trans h.number.2 (by decide)) (by decide)
      have hdot : (ascii ".").length = 1 := rfl
      rw [List.length_append]
      omega
  simp only [name, List.length_append]
  omega

/-- The name that `init` makes for a path with a slash. -/
theorem initName_eq {fileName : Bytes} {t : Stamp} (ht : t.Common) (hslash : slash ∈ fileName)
    (h : Fits (dirOf fileName) (baseOf fileName) 0) :
    initName fileName t = name (dirOf fileName) (baseOf fileName) t 0 := by
  have hlen := length_name_le ht h
  have hname : dirOf fileName ++ t.tail ++ baseOf fileName =
      name (dirOf fileName) (baseOf fileName) t 0 := by simp [name]
  rw [initName, if_pos hslash, hname]
  exact List.take_of_length_le (by omega)

/-- The name that `write_log` makes. -/
theorem newLog_eq {s : LogFiles} {t : Stamp} (ht : t.Common)
    (h : ∀ k, 0 ≤ k ∧ k < 2 ^ 63 → Fits s.dirName s.logName k) {k : ℤ}
    (hk : k = if s.log.mToday ≠ t.tmMday then 0 else (s.log.mCount + 1).tdiv s.log.mSplitLines)
    (hrange : 0 ≤ k ∧ k < 2 ^ 63) (hpos : s.log.mToday = t.tmMday → k ≠ 0) :
    s.newLog t = name s.dirName s.logName t k := by
  have hlen := length_name_le ht (h k hrange)
  have htail : t.tail.take 15 = t.tail :=
    List.take_of_length_le (by have := Stamp.length_tail_le ht; omega)
  rw [newLog, htail]
  split
  · next hday =>
      rw [if_pos hday] at hk
      have hname : s.dirName ++ t.tail ++ s.logName = name s.dirName s.logName t k := by
        simp [name, hk]
      rw [hname]
      exact List.take_of_length_le (by omega)
  · next hday =>
      rw [if_neg hday] at hk
      have hname : s.dirName ++ t.tail ++ s.logName ++ ascii "." ++ padded 0 k =
          name s.dirName s.logName t k := by
        simp [name, hpos (not_not.1 hday)]
      rw [← hk, hname]
      exact List.take_of_length_le (by omega)

theorem name_congr {dirName logName : Bytes} {t t' : Stamp} (h : t.day = t'.day) (k : ℤ) :
    name dirName logName t k = name dirName logName t' k := by
  obtain ⟨hyear, hmon, hmday⟩ := Stamp.day_eq_iff.1 h
  rw [name, name, Stamp.tail, Stamp.tail, hyear, hmon, hmday]

/-- The next number, and where it stands among the lines of a file. -/
theorem next_count (m : ℤ) {n : ℤ} (hn : 0 < n) :
    (m + 1) % n = 0 ∧ (m + 1) / n = m / n + 1 ∧ m % n = n - 1 ∨
      (m + 1) % n = m % n + 1 ∧ (m + 1) / n = m / n := by
  have hlow := Int.emod_nonneg m hn.ne'
  have hhigh := Int.emod_lt_of_pos m hn
  have hm := Int.mul_ediv_add_emod m n
  by_cases h : m % n = n - 1
  · left
    obtain ⟨hdiv, hmod⟩ := (Int.ediv_emod_unique hn (a := m + 1) (r := 0) (q := m / n + 1)).2
      ⟨by rw [Int.mul_add]; omega, le_rfl, hn⟩
    exact ⟨hmod, hdiv, h⟩
  · right
    obtain ⟨hdiv, hmod⟩ :=
      (Int.ediv_emod_unique hn (a := m + 1) (r := m % n + 1) (q := m / n)).2
        ⟨by omega, by omega, by omega⟩
    exact ⟨hmod, hdiv⟩

/-! ### The disk -/

/-- **The disk holds what was written**: each file that was opened got its own part, and no file
was opened twice. -/
structure Tidy (disk : Bytes → List Line) (s : LogFiles) : Prop where
  count_nonneg : 0 ≤ s.log.mCount
  split_pos : 0 < s.log.mSplitLines
  path : s.dirName.length + s.logName.length ≤ 127
  today : s.log.mToday = s.last.tmMday
  common : s.last.Common
  fp_eq : s.fp = name s.dirName s.logName s.last (s.log.mCount / s.log.mSplitLines)
  past_lt : ∀ n ∈ s.past, ∃ (t : Stamp) (k : ℤ), t.Common ∧ 0 ≤ k ∧
    n = name s.dirName s.logName t k ∧ (t.day < s.last.day ∨
      t.day = s.last.day ∧ k < s.log.mCount / s.log.mSplitLines)
  nodup : s.past.Nodup
  parts : List.Forall₂ (fun n part => s.disk n = disk n ++ part) s.past s.log.closed
  openPart : s.disk s.fp = disk s.fp ++ s.log.mFp
  rest : ∀ n, n ∉ s.past → n ≠ s.fp → s.disk n = disk n

namespace Tidy

variable {disk : Bytes → List Line} {s : LogFiles}

/-- The open file was not open before. -/
theorem fp_not_mem (h : Tidy disk s) : s.fp ∉ s.past := by
  intro hmem
  obtain ⟨t, k, ht, hk, hname, hlt⟩ := h.past_lt _ hmem
  rw [h.fp_eq] at hname
  obtain ⟨hday, hk'⟩ := name_inj h.common ht
    (Int.ediv_nonneg h.count_nonneg h.split_pos.le) hk hname
  omega

/-- The name of a later day, or of a later file of the same day, is new. -/
theorem fresh (h : Tidy disk s) {t : Stamp} {k : ℤ} (ht : t.Common) (hk : 0 ≤ k)
    (hlater : s.last.day < t.day ∨
      s.last.day = t.day ∧ s.log.mCount / s.log.mSplitLines < k) :
    name s.dirName s.logName t k ∉ s.past ++ [s.fp] := by
  intro hmem
  rcases List.mem_append.1 hmem with hmem | hmem
  · obtain ⟨t', k', ht', hk', hname, hlt⟩ := h.past_lt _ hmem
    obtain ⟨hday, hkk⟩ := name_inj ht ht' hk hk' hname
    omega
  · have hname := List.mem_singleton.1 hmem
    rw [h.fp_eq] at hname
    obtain ⟨hday, hkk⟩ := name_inj ht h.common hk
      (Int.ediv_nonneg h.count_nonneg h.split_pos.le) hname
    omega

/-- A line that is written goes to the end of the open file. -/
theorem fputs (h : Tidy disk s) (l : Line) : Tidy disk (s.fputs l) := by
  have hfp := h.fp_not_mem
  have hne : ∀ n, n ≠ s.fp → (s.fputs l).disk n = s.disk n := fun n hn =>
    Function.update_of_ne hn ..
  refine ⟨h.count_nonneg, h.split_pos, h.path, h.today, h.common, h.fp_eq, h.past_lt, h.nodup,
    ?_, ?_, ?_⟩
  · obtain ⟨hlen, hzip⟩ := List.forall₂_iff_zip.1 h.parts
    refine List.forall₂_iff_zip.2 ⟨hlen, fun {n part} hmem => ?_⟩
    rw [hne n fun hn => hfp (hn ▸ (List.of_mem_zip hmem).1)]
    exact hzip hmem
  · have hopen : s.disk s.fp ++ [l] = disk s.fp ++ (s.log.mFp ++ [l]) := by
      rw [h.openPart, List.append_assoc]
    exact (Function.update_self ..).trans hopen
  · intro n hn hfp
    rw [hne n hfp]
    exact h.rest n hn hfp

/-- **The file that is opened** is one of a later day, or the next one of the same day. -/
theorem next_file (h : Tidy disk s) {n t : ℕ} {stamp : Stamp} (ho : Orderly n s (.count t stamp))
    (hopens : s.opens stamp.tmMday) : ∃ m, 0 ≤ m ∧
      (m = if s.log.mToday ≠ stamp.tmMday then 0 else s.log.mCount + 1) ∧
      s.newLog stamp = name s.dirName s.logName stamp (m / s.log.mSplitLines) ∧
      (s.last.day < stamp.day ∨
        s.last.day = stamp.day ∧ s.log.mCount / s.log.mSplitLines < m / s.log.mSplitLines) := by
  obtain ⟨-, hcommon, hrange, hday⟩ := ho
  have hnonneg := h.count_nonneg
  have hsplit := h.split_pos
  have hfits : ∀ k, 0 ≤ k ∧ k < 2 ^ 63 → Fits s.dirName s.logName k := fun k hk => ⟨h.path, hk⟩
  by_cases hmday : s.log.mToday = stamp.tmMday
  · -- a number behind the dot, on the same day
    have hsame : stamp.day = s.last.day := hday.resolve_right fun hlater =>
      hlater.2 (by rw [← hmday, h.today])
    have hmod : (s.log.mCount + 1) % s.log.mSplitLines = 0 := by
      rw [← Int.tmod_eq_emod_of_nonneg (by omega)]
      exact hopens.resolve_left (not_not.2 hmday)
    have hdiv : (s.log.mCount + 1) / s.log.mSplitLines =
        s.log.mCount / s.log.mSplitLines + 1 := by
      rcases next_count s.log.mCount hsplit with ⟨-, hdiv, -⟩ | ⟨hmod', -⟩
      · exact hdiv
      · have := Int.emod_nonneg s.log.mCount hsplit.ne'
        omega
    have hpos := Int.ediv_nonneg hnonneg hsplit.le
    have hle := Int.ediv_le_self (a := s.log.mCount + 1) s.log.mSplitLines (by omega)
    refine ⟨s.log.mCount + 1, by omega, by rw [if_neg (not_not.2 hmday)], ?_, .inr ⟨hsame.symm, ?_⟩⟩
    · refine newLog_eq hcommon hfits ?_ ⟨by omega, by omega⟩ fun _ => by omega
      rw [if_neg (not_not.2 hmday), Int.tdiv_eq_ediv_of_nonneg (by omega)]
    · omega
  · have hlater : s.last.day < stamp.day := by
      rcases hday with hday | ⟨hlater, -⟩
      · exact absurd (h.today.trans (Stamp.day_eq_iff.1 hday).2.2.symm) hmday
      · exact hlater
    refine ⟨0, le_rfl, by rw [if_pos hmday], ?_, .inl hlater⟩
    rw [Int.zero_ediv]
    exact newLog_eq hcommon hfits (by rw [if_pos hmday]) (by decide) fun heq => absurd heq hmday

/-- **Counting a line** opens a new file, or none. -/
theorem count (h : Tidy disk s) {n t : ℕ} {stamp : Stamp} (ho : Orderly n s (.count t stamp)) :
    Tidy disk (s.count stamp) := by
  have hcommon := ho.2.1
  by_cases hopens : s.opens stamp.tmMday
  · obtain ⟨m, hm, hcount, hname, hlater⟩ := h.next_file ho hopens
    have hfresh := h.fresh hcommon (Int.ediv_nonneg hm h.split_pos.le) hlater
    simp only [LogFiles.count, if_pos hopens, log_count_of_opens hopens, ← hcount, hname]
    refine ⟨hm, h.split_pos, h.path, rfl, hcommon, rfl, ?_, ?_, ?_, ?_, ?_⟩
    · intro n hn
      rcases List.mem_append.1 hn with hn | hn
      · obtain ⟨t', k, ht', hk, hname', hlt⟩ := h.past_lt n hn
        have hbefore : t'.day < stamp.day ∨
            t'.day = stamp.day ∧ k < m / s.log.mSplitLines := by omega
        exact ⟨t', k, ht', hk, hname', hbefore⟩
      · rw [List.mem_singleton.1 hn]
        exact ⟨s.last, _, h.common, Int.ediv_nonneg h.count_nonneg h.split_pos.le, h.fp_eq, hlater⟩
    · exact h.nodup.append (List.nodup_singleton _) (by simpa using h.fp_not_mem)
    · exact List.rel_append h.parts (.cons h.openPart .nil)
    · rw [List.append_nil]
      exact h.rest _ (fun hn => hfresh (List.mem_append_left _ hn))
        fun hn => hfresh (List.mem_append_right _ (List.mem_singleton.2 hn))
    · intro n hn hfp
      exact h.rest n (fun hmem => hn (List.mem_append_left _ hmem))
        fun hmem => hn (List.mem_append_right _ (List.mem_singleton.2 hmem))
  · -- the file stays open, and the day is the same
    obtain ⟨hmday, hnext⟩ := not_or.1 hopens
    rw [not_not, h.today] at hmday
    rw [Int.tmod_eq_emod_of_nonneg (by have := h.count_nonneg; omega)] at hnext
    have hsame : stamp.day = s.last.day := ho.2.2.2.resolve_right fun hlater => hlater.2 hmday.symm
    obtain ⟨-, hdiv⟩ := (next_count s.log.mCount h.split_pos).resolve_left fun h => hnext h.1
    simp only [LogFiles.count, if_neg hopens, log_count_of_stays hopens]
    refine ⟨by have := h.count_nonneg; show 0 ≤ s.log.mCount + 1; omega, h.split_pos, h.path,
      h.today.trans hmday, hcommon, ?_, ?_, h.nodup, h.parts, h.openPart, h.rest⟩
    · show s.fp = name _ _ stamp ((s.log.mCount + 1) / s.log.mSplitLines)
      rw [hdiv, name_congr hsame]
      exact h.fp_eq
    · intro n hn
      show ∃ (t : Stamp) (k : ℤ), t.Common ∧ 0 ≤ k ∧ n = name s.dirName s.logName t k ∧
        (t.day < stamp.day ∨
          t.day = stamp.day ∧ k < (s.log.mCount + 1) / s.log.mSplitLines)
      rw [hdiv, hsame]
      exact h.past_lt n hn

/-- Threads and queue have no part in it. -/
theorem of_log (h : Tidy disk s) {log' : AsyncLog}
    (hlog : log'.mCount = s.log.mCount ∧ log'.mSplitLines = s.log.mSplitLines ∧
      log'.mToday = s.log.mToday ∧ log'.closed = s.log.closed ∧ log'.mFp = s.log.mFp) :
    Tidy disk { s with log := log' } := by
  obtain ⟨hcount, hsplit, htoday, hclosed, hfp⟩ := hlog
  refine ⟨?_, ?_, h.path, ?_, h.common, ?_, ?_, h.nodup, ?_, ?_, h.rest⟩
  · rw [hcount]
    exact h.count_nonneg
  · rw [hsplit]
    exact h.split_pos
  · rw [htoday]
    exact h.today
  · rw [hcount, hsplit]
    exact h.fp_eq
  · rw [hcount, hsplit]
    exact h.past_lt
  · rw [hclosed]
    exact h.parts
  · rw [hfp]
    exact h.openPart

end Tidy

/-- A critical section that leaves the files alone. -/
theorem Quiet.frame {isAsync : Bool} {e : AsyncLog.Event} (he : Quiet isAsync e)
    {log log' : AsyncLog} (hs : log.Step e log') :
    log'.mCount = log.mCount ∧ log'.mSplitLines = log.mSplitLines ∧ log'.mToday = log.mToday ∧
      log'.closed = log.closed ∧ log'.mFp = log.mFp := by
  cases hs with
  | count mday hpc => exact he.elim
  | format text hpc => exact ⟨rfl, rfl, rfl, rfl, rfl⟩
  | test hpc => exact ⟨rfl, rfl, rfl, rfl, rfl⟩
  | push hpc => exact ⟨rfl, rfl, rfl, rfl, rfl⟩
  | write hpc => exact he.elim
  | take hh hq => exact ⟨rfl, rfl, rfl, rfl, rfl⟩
  | flush hh => exact he.elim

/-- **An orderly step keeps the disk tidy.** -/
theorem Step.tidy {disk : Bytes → List Line} {s s' : LogFiles} {e : Event} {n : ℕ}
    (hs : Step s e s') (h : Tidy disk s) (ho : Orderly n s e) : Tidy disk s' := by
  cases hs with
  | count stamp hpc => exact (h.count ho).of_log ⟨rfl, rfl, rfl, rfl, rfl⟩
  | quiet hs he => exact h.of_log (he.frame hs)
  | direct hpc hsync => exact h.of_log ⟨rfl, rfl, rfl, rfl, rfl⟩
  | write hpc => exact (h.fputs _).of_log ⟨rfl, rfl, rfl, rfl, rfl⟩
  | flush hh => exact (h.fputs _).of_log ⟨rfl, rfl, rfl, rfl, rfl⟩

/-- The disk after `init`. -/
theorem tidy_init {fileName : Bytes} {t : Stamp} {splitLines : ℤ} (maxQueueSize : ℤ)
    (disk : Bytes → List Line) (hslash : slash ∈ fileName) (hlen : fileName.length ≤ 127)
    (ht : t.Common) (hsplit : 0 < splitLines) :
    Tidy disk (init fileName t splitLines maxQueueSize disk) := by
  have hparts : (dirOf fileName).length + (baseOf fileName).length = fileName.length := by
    rw [dirOf, baseOf, List.length_reverse, List.length_reverse, Nat.add_comm,
      ← List.length_append, List.takeWhile_append_dropWhile, List.length_reverse]
  have hfits : Fits (dirOf fileName) (baseOf fileName) 0 := ⟨by omega, by decide⟩
  refine ⟨le_rfl, hsplit, ?_, rfl, ht, ?_, ?_, List.nodup_nil, .nil, ?_, fun _ _ _ => rfl⟩
  · simp only [init, if_pos hslash]
    omega
  · simp only [init, if_pos hslash]
    rw [initName_eq ht hslash hfits]
    show _ = name _ _ t (0 / splitLines)
    rw [Int.zero_ediv]
  · intro n hn
    cases hn
  · exact (List.append_nil _).symm

/-! ### How long a file gets -/

/-- Whether a thread has counted a line that it did not hand on. -/
def busy : LogPc → ℕ
  | .out => 0
  | .counted | .formatted _ | .pushing _ | .writing _ => 1

/-- The lines of the first `n` threads that were counted and neither written nor lost. -/
def onTheirWay (log : AsyncLog) (n : ℕ) : ℤ :=
  (∑ t ∈ Finset.range n, busy (log.threads t) : ℕ) + log.mLogQueue.mSize + log.hand.toList.length

/-- The lines that can be on their way: one for each thread, and in asynchronous mode one in the
hand of the flush thread and those in the queue, which takes one more than its size. -/
def room (s : LogFiles) (n : ℕ) : ℤ :=
  n + if s.isAsync then s.log.mLogQueue.mMaxSize + 2 else 0

theorem busy_le (pc : LogPc) : busy pc ≤ 1 := by
  cases pc with
  | out => exact Nat.zero_le 1
  | _ => exact le_rfl

/-- One thread moves on. -/
theorem onTheirWay_goto (log : AsyncLog) {n t : ℕ} (ht : t < n) (pc : LogPc) :
    onTheirWay (log.goto t pc) n + busy (log.threads t) = onTheirWay log n + busy pc := by
  have hmem := Finset.mem_range.2 ht
  have hsum : ∀ f : ℕ → LogPc, ∑ u ∈ Finset.range n, busy (f u) =
      busy (f t) + ∑ u ∈ (Finset.range n).erase t, busy (f u) := fun f =>
    (Finset.add_sum_erase _ (fun u => busy (f u)) hmem).symm
  have hrest : ∑ u ∈ (Finset.range n).erase t, busy (Function.update log.threads t pc u) =
      ∑ u ∈ (Finset.range n).erase t, busy (log.threads u) :=
    Finset.sum_congr rfl fun u hu => by
      rw [Function.update_of_ne (Finset.ne_of_mem_erase hu)]
  unfold onTheirWay
  show ((∑ u ∈ Finset.range n, busy (Function.update log.threads t pc u) : ℕ) : ℤ) + _ + _ + _ = _
  rw [hsum (Function.update log.threads t pc), hrest, hsum log.threads, Function.update_self]
  push_cast
  show _ + log.mLogQueue.mSize + (log.hand.toList.length : ℤ) + _ = _
  omega

/-- The queue and the hand of the flush thread change. -/
theorem onTheirWay_queue (log log' : AsyncLog) (h : log'.threads = log.threads) (n : ℕ) :
    onTheirWay log' n + log.mLogQueue.mSize + log.hand.toList.length =
      onTheirWay log n + log'.mLogQueue.mSize + log'.hand.toList.length := by
  unfold onTheirWay
  rw [h]
  omega

/-- **No file is too long**, and in synchronous mode all that was logged is in the files. -/
structure Bounded (n : ℕ) (s : LogFiles) : Prop where
  idle : ∀ t, n ≤ t → s.log.threads t = .out
  queue_le : s.log.mLogQueue.mSize ≤ s.log.mLogQueue.mMaxSize + 1
  sync : s.isAsync = false → s.log.mLogQueue.mSize = 0 ∧ s.log.hand = none ∧
    (∀ t l, s.log.threads t ≠ .pushing l) ∧ s.log.file = s.log.returned
  open_le : (s.log.mFp.length : ℤ) + onTheirWay s.log n ≤
    s.room n + s.log.mCount % s.log.mSplitLines
  closed_le : ∀ part ∈ s.log.closed, (part.length : ℤ) ≤ s.room n + s.log.mSplitLines - 1

namespace Bounded

variable {s : LogFiles} {n : ℕ}

/-- There are never more lines on their way than there is room. -/
theorem way_le (s : LogFiles) (n : ℕ)
    (hqueue : s.log.mLogQueue.mSize ≤ s.log.mLogQueue.mMaxSize + 1)
    (hsync : s.isAsync = false → s.log.mLogQueue.mSize = 0 ∧ s.log.hand = none) :
    onTheirWay s.log n ≤ s.room n := by
  have hsum : ∑ t ∈ Finset.range n, busy (s.log.threads t) ≤ n := by
    calc ∑ t ∈ Finset.range n, busy (s.log.threads t)
        ≤ ∑ t ∈ Finset.range n, 1 := Finset.sum_le_sum fun t _ => busy_le _
      _ = n := by simp
  have hhand : s.log.hand.toList.length ≤ 1 := by
    cases s.log.hand <;> simp
  unfold onTheirWay room
  cases hasync : s.isAsync with
  | true =>
      rw [if_pos rfl]
      omega
  | false =>
      obtain ⟨hsize, hnone⟩ := hsync hasync
      rw [hsize, hnone, if_neg Bool.false_ne_true]
      simp only [Option.toList_none, List.length_nil]
      omega

theorem way_nonneg (log : AsyncLog) (n : ℕ) : 0 ≤ onTheirWay log n := by
  have := log.mLogQueue.size_nonneg
  unfold onTheirWay
  omega

/-- A thread that has counted a line is one of the `n`. -/
theorem lt_of_busy (h : Bounded n s) {t : ℕ} (ht : s.log.threads t ≠ .out) : t < n :=
  not_le.1 fun hle => ht (h.idle t hle)

/-- The other threads are where they were. -/
theorem idle_update (h : Bounded n s) {t : ℕ} (ht : t < n) (pc : LogPc) :
    ∀ u, n ≤ u → Function.update s.log.threads t pc u = .out := fun u hu => by
  rw [Function.update_of_ne (by omega)]
  exact h.idle u hu

theorem no_push_update {threads : ℕ → LogPc} (h : ∀ t l, threads t ≠ .pushing l) (t : ℕ)
    {pc : LogPc} (hpc : ∀ l, pc ≠ .pushing l) :
    ∀ u l, Function.update threads t pc u ≠ .pushing l := fun u l => by
  by_cases hu : u = t
  · subst hu
    rw [Function.update_self]
    exact hpc l
  · rw [Function.update_of_ne hu]
    exact h u l

/-- **A step within a file**: what is written or lost is no longer on its way. -/
theorem of_log (h : Bounded n s) {s' : LogFiles} (hasync : s'.isAsync = s.isAsync)
    (hframe : s'.log.mCount = s.log.mCount ∧ s'.log.mSplitLines = s.log.mSplitLines ∧
      s'.log.closed = s.log.closed ∧ s'.log.mLogQueue.mMaxSize = s.log.mLogQueue.mMaxSize)
    (hidle : ∀ t, n ≤ t → s'.log.threads t = .out)
    (hqueue : s'.log.mLogQueue.mSize ≤ s.log.mLogQueue.mMaxSize + 1)
    (hsync : s.isAsync = false → s'.log.mLogQueue.mSize = 0 ∧ s'.log.hand = none ∧
      (∀ t l, s'.log.threads t ≠ .pushing l) ∧ s'.log.file = s'.log.returned)
    (hway : (s'.log.mFp.length : ℤ) + onTheirWay s'.log n ≤
      s.log.mFp.length + onTheirWay s.log n) : Bounded n s' := by
  obtain ⟨hcount, hsplit, hclosed, hmax⟩ := hframe
  have hroom : s'.room n = s.room n := by rw [room, room, hasync, hmax]
  refine ⟨hidle, by rwa [hmax], by rwa [hasync], ?_, ?_⟩
  · rw [hroom, hcount, hsplit]
    exact hway.trans h.open_le
  · rw [hroom, hclosed, hsplit]
    exact h.closed_le

/-- A thread goes on with its line. -/
theorem goto (h : Bounded n s) {t : ℕ} {pc : LogPc} (hpc : busy (s.log.threads t) = 1)
    (hbusy : busy pc = 1) (hpush : s.isAsync = false → ∀ l, pc ≠ .pushing l) (calls : ℕ → ℕ) :
    Bounded n { s with log := { s.log.goto t pc with calls := calls } } := by
  have ht := h.lt_of_busy (t := t) fun hout => by rw [hout] at hpc; cases hpc
  have hway := onTheirWay_goto s.log ht pc
  refine h.of_log rfl ⟨rfl, rfl, rfl, rfl⟩ (h.idle_update ht pc) h.queue_le ?_ ?_
  · intro hasync
    obtain ⟨hsize, hhand, hnone, hfile⟩ := h.sync hasync
    exact ⟨hsize, hhand, no_push_update hnone t (hpush hasync), hfile⟩
  · show (s.log.mFp.length : ℤ) + onTheirWay (s.log.goto t pc) n ≤ _
    omega

/-- Counting a line starts its way, and a new file begins without any. -/
theorem count (h : Bounded n s) (hcount : 0 ≤ s.log.mCount) (hsplit : 0 < s.log.mSplitLines)
    {t : ℕ} {stamp : Stamp} (ht : t < n) (hpc : s.log.threads t = .out) :
    Bounded n { s.count stamp with log := (s.count stamp).log.goto t .counted } := by
  have hway := onTheirWay_goto s.log ht .counted
  rw [hpc] at hway
  have hidle := h.idle_update ht .counted
  have hsync : s.isAsync = false → s.log.mLogQueue.mSize = 0 ∧ s.log.hand = none ∧
      (∀ u l, Function.update s.log.threads t .counted u ≠ .pushing l) ∧
      s.log.file = s.log.returned := by
    intro hasync
    obtain ⟨hsize, hhand, hnone, hfile⟩ := h.sync hasync
    exact ⟨hsize, hhand, no_push_update hnone t (by simp), hfile⟩
  have hnext := next_count s.log.mCount hsplit
  have htmod : (s.log.mCount + 1).tmod s.log.mSplitLines =
      (s.log.mCount + 1) % s.log.mSplitLines := Int.tmod_eq_emod_of_nonneg (by omega)
  have hlow := Int.emod_nonneg s.log.mCount hsplit.ne'
  have hopen := h.open_le
  have hroom : onTheirWay (s.log.goto t .counted) n ≤ s.room n :=
    way_le { s with log := s.log.goto t .counted } n h.queue_le fun hasync =>
      ⟨(hsync hasync).1, (hsync hasync).2.1⟩
  have hwaynonneg := way_nonneg s.log n
  by_cases hopens : s.opens stamp.tmMday
  · simp only [LogFiles.count, log_count_of_opens hopens]
    refine ⟨hidle, h.queue_le, ?_, ?_, ?_⟩
    · intro hasync
      obtain ⟨hsize, hhand, hnone, hfile⟩ := hsync hasync
      refine ⟨hsize, hhand, hnone, ?_⟩
      rw [← hfile]
      simp [AsyncLog.file, AsyncLog.goto]
    · -- nothing of the new file is written, and its number begins a block
      have hmod : (if s.log.mToday ≠ stamp.tmMday then 0 else s.log.mCount + 1) %
          s.log.mSplitLines = 0 := by
        split
        · exact Int.zero_emod _
        · next hday =>
            rw [← htmod]
            exact hopens.resolve_left hday
      show (0 : ℤ) + onTheirWay (s.log.goto t .counted) n ≤ s.room n +
        (if s.log.mToday ≠ stamp.tmMday then 0 else s.log.mCount + 1) % s.log.mSplitLines
      rw [hmod]
      omega
    · intro part hpart
      rcases List.mem_append.1 hpart with hpart | hpart
      · exact h.closed_le part hpart
      · rw [List.mem_singleton.1 hpart]
        have := Int.emod_lt_of_pos s.log.mCount hsplit
        show (s.log.mFp.length : ℤ) ≤ s.room n + s.log.mSplitLines - 1
        omega
  · have hmod := (not_or.1 hopens).2
    rw [htmod] at hmod
    simp only [LogFiles.count, log_count_of_stays hopens]
    refine ⟨hidle, h.queue_le, hsync, ?_, h.closed_le⟩
    show (s.log.mFp.length : ℤ) + onTheirWay (s.log.goto t .counted) n ≤
      s.room n + (s.log.mCount + 1) % s.log.mSplitLines
    simp only [busy] at hway
    omega

/-- A `push` makes the queue longer by one at most, and never by more than one line too long. -/
theorem push_size (q : BlockQueue Line) (l : Line) (hq : q.mSize ≤ q.mMaxSize + 1) :
    (q.push l).2.mMaxSize = q.mMaxSize ∧ (q.push l).2.mSize ≤ q.mSize + 1 ∧
      (q.push l).2.mSize ≤ q.mMaxSize + 1 := by
  unfold BlockQueue.push
  split
  · exact ⟨rfl, le_add_of_nonneg_right zero_le_one, hq⟩
  · exact ⟨rfl, le_rfl, add_le_add_left (not_lt.1 ‹_›) 1⟩

/-- A line goes from its thread to the queue, or is lost there. -/
theorem push (h : Bounded n s) {t : ℕ} {l : Line} (hpc : s.log.threads t = .pushing l) :
    Bounded n { s with
      log := { s.log with mLogQueue := (s.log.mLogQueue.push l).2 }.leave t l } := by
  have ht := h.lt_of_busy (t := t) (by rw [hpc]; simp)
  have hway := onTheirWay_goto s.log ht .out
  rw [hpc] at hway
  obtain ⟨hmax, hone, hsize⟩ := push_size s.log.mLogQueue l h.queue_le
  have hleave := onTheirWay_queue (s.log.goto t .out)
    ({ s.log with mLogQueue := (s.log.mLogQueue.push l).2 }.leave t l) rfl n
  refine h.of_log rfl ⟨rfl, rfl, rfl, hmax⟩ (h.idle_update ht .out) hsize
    (fun hasync => absurd hpc ((h.sync hasync).2.2.1 t l)) ?_
  simp only [busy, AsyncLog.leave, AsyncLog.goto] at hway hleave ⊢
  omega

/-- A line goes from the queue into the hand of the flush thread. -/
theorem take (h : Bounded n s) {l : Line} {q : BlockQueue Line} (hhand : s.log.hand = none)
    (hq : s.log.mLogQueue.pop = some (l, q)) :
    Bounded n { s with log := { s.log with mLogQueue := q, hand := some l } } := by
  obtain ⟨-, hmax, hsize⟩ := BlockQueue.contents_pop hq
  refine h.of_log rfl ⟨rfl, rfl, rfl, hmax⟩ h.idle ?_ ?_ ?_
  · have := h.queue_le
    show q.mSize ≤ _
    omega
  · intro hasync
    have := q.size_nonneg
    have := (h.sync hasync).1
    omega
  · have hway := onTheirWay_queue s.log { s.log with mLogQueue := q, hand := some l } rfl n
    simp only [hhand, Option.toList_none, Option.toList_some, List.length_nil,
      List.length_singleton] at hway ⊢
    omega

/-- A line goes from its thread into the file. -/
theorem write (h : Bounded n s) {t : ℕ} {l : Line} (hpc : s.log.threads t = .writing l) :
    Bounded n { s.fputs l with log := (s.fputs l).log.leave t l } := by
  have ht := h.lt_of_busy (t := t) (by rw [hpc]; simp)
  have hway := onTheirWay_goto s.log ht .out
  rw [hpc] at hway
  refine h.of_log rfl ⟨rfl, rfl, rfl, rfl⟩ (h.idle_update ht .out) h.queue_le ?_ ?_
  · intro hasync
    obtain ⟨hsize, hhand, hnone, hfile⟩ := h.sync hasync
    refine ⟨hsize, hhand, no_push_update hnone t (by simp), ?_⟩
    show s.log.closed.flatten ++ (s.log.mFp ++ [l]) = s.log.returned ++ [l]
    rw [← List.append_assoc]
    exact congrArg (· ++ [l]) hfile
  · show ((s.log.mFp ++ [l]).length : ℤ) + onTheirWay (s.log.goto t .out) n ≤ _
    simp only [busy] at hway
    rw [List.length_append, List.length_singleton]
    omega

/-- A line goes from the flush thread into the file. -/
theorem flush (h : Bounded n s) {l : Line} (hhand : s.log.hand = some l) :
    Bounded n { s.fputs l with log := { (s.fputs l).log with hand := none } } := by
  refine h.of_log rfl ⟨rfl, rfl, rfl, rfl⟩ h.idle h.queue_le ?_ ?_
  · intro hasync
    rw [(h.sync hasync).2.1] at hhand
    cases hhand
  · have hway := onTheirWay_queue s.log { (s.fputs l).log with hand := none } rfl n
    simp only [hhand, LogFiles.fputs, AsyncLog.fputs, Option.toList_none, Option.toList_some,
      List.length_nil, List.length_append, List.length_singleton] at hway ⊢
    omega

end Bounded

/-- **An orderly step keeps the bounds.** -/
theorem Step.bounded {s s' : LogFiles} {e : Event} {n : ℕ} (hs : Step s e s')
    (h : Bounded n s) (hcount : 0 ≤ s.log.mCount) (hsplit : 0 < s.log.mSplitLines)
    (ho : Orderly n s e) : Bounded n s' := by
  cases hs with
  | count stamp hpc => exact h.count hcount hsplit ho.1 hpc
  | quiet hs he =>
      cases hs with
      | count mday hpc => exact he.elim
      | format text hpc => exact h.goto (by rw [hpc]; rfl) rfl (by simp) _
      | @test t l hpc =>
          refine h.goto (by rw [hpc]; rfl) (by split <;> rfl) (fun hasync => ?_) _
          rw [show s.isAsync = true from he] at hasync
          cases hasync
      | push hpc => exact h.push hpc
      | write hpc => exact he.elim
      | take hhand hq => exact h.take hhand hq
      | flush hhand => exact he.elim
  | direct hpc hsync => exact h.goto (by rw [hpc]; rfl) rfl (by simp) _
  | write hpc => exact h.write hpc
  | flush hhand => exact h.flush hhand

/-- No step changes the settings. -/
theorem Step.frame {s s' : LogFiles} {e : Event} (hs : Step s e s') :
    s'.dirName = s.dirName ∧ s'.logName = s.logName ∧ s'.isAsync = s.isAsync ∧
      s'.log.mSplitLines = s.log.mSplitLines ∧
      s'.log.mLogQueue.mMaxSize = s.log.mLogQueue.mMaxSize := by
  cases hs with
  | count stamp hpc =>
      refine ⟨rfl, rfl, rfl, ?_⟩
      show (s.log.count _).mSplitLines = _ ∧ (s.log.count _).mLogQueue.mMaxSize = _
      unfold AsyncLog.count
      split
      · exact ⟨rfl, rfl⟩
      · exact ⟨rfl, rfl⟩
  | quiet hs he =>
      refine ⟨rfl, rfl, rfl, (he.frame hs).2.1, ?_⟩
      cases hs with
      | count mday hpc => exact he.elim
      | format text hpc => rfl
      | test hpc => rfl
      | push hpc =>
          show (s.log.mLogQueue.push _).2.mMaxSize = _
          unfold BlockQueue.push
          split
          · rfl
          · rfl
      | write hpc => exact he.elim
      | take hh hq => exact (BlockQueue.contents_pop hq).2.1
      | flush hh => exact he.elim
  | direct hpc hsync => exact ⟨rfl, rfl, rfl, rfl, rfl⟩
  | write hpc => exact ⟨rfl, rfl, rfl, rfl, rfl⟩
  | flush hh => exact ⟨rfl, rfl, rfl, rfl, rfl⟩

/-- Nothing is on its way after `init`. -/
theorem bounded_init (fileName : Bytes) (t : Stamp) (splitLines maxQueueSize : ℤ)
    (disk : Bytes → List Line) (n : ℕ) :
    Bounded n (init fileName t splitLines maxQueueSize disk) := by
  have hway : onTheirWay (init fileName t splitLines maxQueueSize disk).log n = 0 := by
    unfold onTheirWay
    simp [init, AsyncLog.start, BlockQueue.ofSize, busy]
  have hroom : 0 ≤ (init fileName t splitLines maxQueueSize disk).room n := by
    unfold room
    split
    · have := (init fileName t splitLines maxQueueSize disk).log.mLogQueue.max_pos
      omega
    · omega
  refine ⟨fun _ _ => rfl, ?_, fun _ => ⟨rfl, rfl, by simp [init, AsyncLog.start], rfl⟩, ?_, ?_⟩
  · show (0 : ℤ) ≤ max maxQueueSize 1 + 1
    omega
  · rw [hway]
    show (0 : ℤ) + 0 ≤ _ + 0 % splitLines
    rw [Int.zero_emod]
    omega
  · intro part hpart
    cases hpart

/-- **The files of the log.**  Let `n` threads log in the order of the days, at whatever speed, with
or without a queue.  Then no file is opened twice, and no other file is touched; in the order of
their opening the files hold all that was written, behind what was in them; each of them holds
at most `split_lines` lines and those that can be on their way when it is opened.  In synchronous
mode what was written is what the threads have logged. -/
theorem rotation (fileName : Bytes) (t : Stamp) (splitLines maxQueueSize : ℤ)
    (disk : Bytes → List Line) (n : ℕ) (hslash : slash ∈ fileName) (hlen : fileName.length ≤ 127)
    (ht : t.Common) (hsplit : 0 < splitLines) {evs : List Event} {s : LogFiles}
    (hr : Run (Guarded Step (Orderly n)) (init fileName t splitLines maxQueueSize disk) evs s) :
    (s.past ++ [s.fp]).Nodup ∧ (∀ f, f ∉ s.past ++ [s.fp] → s.disk f = disk f) ∧
      s.fp = name (dirOf fileName) (baseOf fileName) s.last (s.log.mCount / splitLines) ∧
      (∃ parts, parts.flatten = s.log.file ∧
        List.Forall₂ (fun f part => s.disk f = disk f ++ part ∧ (part.length : ℤ) <
          splitLines + n + if 1 ≤ maxQueueSize then maxQueueSize + 2 else 0)
          (s.past ++ [s.fp]) parts) ∧
      (maxQueueSize < 1 → s.log.file = s.log.returned) := by
  have hinv : (Tidy disk s ∧ Bounded n s) ∧ s.dirName = dirOf fileName ∧
      s.logName = baseOf fileName ∧ s.isAsync = decide (1 ≤ maxQueueSize) ∧
      s.log.mSplitLines = splitLines ∧ s.log.mLogQueue.mMaxSize = max maxQueueSize 1 := by
    refine hr.invariant_state (P := fun s => (Tidy disk s ∧ Bounded n s) ∧
      s.dirName = dirOf fileName ∧ s.logName = baseOf fileName ∧
      s.isAsync = decide (1 ≤ maxQueueSize) ∧ s.log.mSplitLines = splitLines ∧
      s.log.mLogQueue.mMaxSize = max maxQueueSize 1)
      ⟨⟨tidy_init maxQueueSize disk hslash hlen ht hsplit,
        bounded_init fileName t splitLines maxQueueSize disk n⟩, if_pos hslash, if_pos hslash,
        rfl, rfl, rfl⟩ ?_
    rintro s e s' ⟨⟨htidy, hbounded⟩, hfixed⟩ ⟨hs, ho⟩
    refine ⟨⟨hs.tidy htidy ho, hs.bounded hbounded htidy.count_nonneg htidy.split_pos ho⟩, ?_⟩
    obtain ⟨hdir, hlog, hasync, hlines, hmax⟩ := hs.frame
    rwa [hdir, hlog, hasync, hlines, hmax]
  obtain ⟨⟨htidy, hbounded⟩, hdir, hbase, hasync, hlines, hmax⟩ := hinv
  have hroom : s.room n = n + if 1 ≤ maxQueueSize then maxQueueSize + 2 else 0 := by
    rw [room, hasync, hmax]
    by_cases hmode : 1 ≤ maxQueueSize
    · simp [hmode]
    · simp [hmode]
  have hopen := hbounded.open_le
  have hclosed := hbounded.closed_le
  have hmod := Int.emod_lt_of_pos s.log.mCount htidy.split_pos
  have hway := Bounded.way_nonneg s.log n
  rw [hroom, hlines] at hopen hclosed
  rw [hlines] at hmod
  refine ⟨?_, ?_, ?_, ⟨s.log.closed ++ [s.log.mFp], ?_, ?_⟩, ?_⟩
  · exact htidy.nodup.append (List.nodup_singleton _) (by simpa using htidy.fp_not_mem)
  · intro f hf
    exact htidy.rest f (fun h => hf (List.mem_append_left _ h))
      fun h => hf (List.mem_append_right _ (List.mem_singleton.2 h))
  · rw [← hdir, ← hbase, ← hlines]
    exact htidy.fp_eq
  · rw [List.flatten_append, List.flatten_singleton]
    rfl
  · obtain ⟨hlen, hzip⟩ := List.forall₂_iff_zip.1 htidy.parts
    refine List.rel_append (List.forall₂_iff_zip.2 ⟨hlen, ?_⟩) (.cons ⟨htidy.openPart, ?_⟩ .nil)
    · intro f part hmem
      have := hclosed part (List.of_mem_zip hmem).2
      exact ⟨hzip hmem, by omega⟩
    · omega
  · intro hmode
    exact (hbounded.sync (by rw [hasync]; simpa using hmode)).2.2.2

/-- One thread logs a line in a file for two and counts another one. -/
theorem rotation_second : ∃ (evs : List Event) (s : LogFiles),
    Run (Guarded Step (Orderly 1))
      (init (ascii "./Serverlog") LogBuffer.millennium 2 0 fun _ => []) evs s ∧
    s.past.length = 1 ∧ (s.past ++ [s.fp]).Nodup ∧ s.log.file = [⟨0, 0, []⟩] := by
  have hcommon : LogBuffer.millennium.Common := ⟨by decide, by decide⟩
  have h₁ : Run (Guarded Step (Orderly 1))
      (init (ascii "./Serverlog") LogBuffer.millennium 2 0 fun _ => []) _ _ :=
    .single ⟨.count (t := 0) LogBuffer.millennium rfl, Nat.one_pos, hcommon, by decide, .inl rfl⟩
  have h₂ := h₁.snoc ⟨.quiet (.format (t := 0) [] rfl) trivial, trivial⟩
  have h₃ := h₂.snoc ⟨.direct (t := 0) (l := ⟨0, 0, []⟩) rfl rfl, trivial⟩
  have h₄ := h₃.snoc ⟨.write (t := 0) (l := ⟨0, 0, []⟩) rfl, trivial⟩
  have h₅ := h₄.snoc ⟨.count (t := 0) LogBuffer.millennium rfl, Nat.one_pos, hcommon, by decide,
    .inl rfl⟩
  exact ⟨_, _, h₅, rfl, (rotation _ _ 2 0 _ 1 (by decide) (by decide) hcommon (by decide) h₅).1,
    rfl⟩

end LogFiles

end Gateway
