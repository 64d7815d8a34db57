/-
**What `write_log` stores into its buffer.**

A line is made in `m_buf`: the time and the level by `snprintf`, the message by `vsnprintf` behind
it, then a newline and a zero at positions that are computed from what the two calls return.  What
`vsnprintf` returns is the length that the message would have had, so the positions are those of a
message that fits.

The buffer is the one that `init` allocates; it is overwritten by every line.

Main definitions:

* `Gateway.LogBuffer` — `m_buf` with its size, `Gateway.LogBuffer.writeLine` — the second critical
  section of `write_log`;
* `Gateway.LogBuffer.fitted` — the line that is promised: what fits of the message, and a newline.

Main results:

* `Gateway.Stamp.length_text_le` — the time and the level are never cut off;
* `Gateway.LogBuffer.store_eq` — a message that fits;
* `Gateway.LogBuffer.store_out` — **a message that does not fit is stored out of bounds**;
* `Gateway.LogBuffer.writeLine_fitted_iff` — **the line is as promised exactly when the message
  fits with its newline and its zero and holds no zero itself.**
-/

import InferenceGateway.HttpFraming

set_option relaxedAutoImplicit false
set_option autoImplicit false

namespace Gateway

open CString (cut)
open HttpOut (ok_bind)

/-! ### Numbers in a line -/

/-- `%0wd`, and `%d` when `w` is zero. -/
def padded (w : ℕ) (z : ℤ) : Bytes :=
  let sign : Bytes := if z < 0 then [45] else []
  let digits := HttpConn.decimal z.natAbs
  sign ++ List.replicate (w - sign.length - digits.length) 48 ++ digits

theorem length_decimal_le {n k : ℕ} (hk : 0 < k) (h : n < 10 ^ k) :
    (HttpConn.decimal n).length ≤ k := by
  rw [HttpConn.decimal, ascii, List.length_map, String.length_toList]
  exact Nat.repr_length n k hk h

/-- A number that has room for its digits. -/
theorem length_padded_le {w k : ℕ} {z : ℤ} (hz : 0 ≤ z) (hk : 0 < k) (h : z < 10 ^ k)
    (hw : w ≤ k) : (padded w z).length ≤ k := by
  have hdigits := length_decimal_le (n := z.natAbs) hk (by zify; rwa [abs_of_nonneg hz])
  simp only [padded, if_neg (not_lt.2 hz), List.length_append, List.length_replicate,
    List.length_nil]
  omega

/-- An `int` is printed in at most 11 characters. -/
theorem length_padded_int {z : ℤ} (h : -2 ^ 31 ≤ z) (h' : z ≤ INT_MAX) :
    (padded 0 z).length ≤ 11 := by
  unfold INT_MAX at h'
  have hdigits := length_decimal_le (n := z.natAbs) (k := 10) (by decide) (by omega)
  have hsign : (if z < 0 then ([45] : Bytes) else []).length ≤ 1 := by
    split
    · exact le_rfl
    · exact Nat.zero_le 1
  simp only [padded, List.length_append, List.length_replicate]
  omega

theorem zero_not_mem_padded (w : ℕ) (z : ℤ) : 0 ∉ padded w z := by
  have hdigits : 0 ∉ HttpConn.decimal z.natAbs := fun h =>
    absurd ((digits_decimal z.natAbs).1 0 h) (by decide)
  have hsign : (0 : UInt8) ∉ if z < 0 then ([45] : Bytes) else [] := by
    split
    · decide
    · exact List.not_mem_nil
  simp only [padded, List.mem_append, not_or, List.mem_replicate]
  exact ⟨⟨hsign, fun h => absurd h.2 (by decide)⟩, hdigits⟩

/-! ### The time and the level -/

/-- What `gettimeofday` and `localtime` return. -/
structure Stamp where
  tmYear : ℤ
  tmMon : ℤ
  tmMday : ℤ
  tmHour : ℤ
  tmMin : ℤ
  tmSec : ℤ
  tvUsec : ℤ
  year_range : -2 ^ 31 ≤ tmYear ∧ tmYear + 1900 ≤ INT_MAX
  mon_range : 0 ≤ tmMon ∧ tmMon < 12
  mday_range : 1 ≤ tmMday ∧ tmMday ≤ 31
  hour_range : 0 ≤ tmHour ∧ tmHour < 24
  min_range : 0 ≤ tmMin ∧ tmMin < 60
  sec_range : 0 ≤ tmSec ∧ tmSec ≤ 60
  usec_range : 0 ≤ tvUsec ∧ tvUsec < 1000000

/-- The text of a level. -/
def levelText (level : ℤ) : Bytes :=
  if level = 0 then ascii "[debug]:"
  else if level = 1 then ascii "[info]:"
  else if level = 2 then ascii "[warn]:"
  else if level = 3 then ascii "[erro]:"
  else ascii "[info]:"

/-- `"%d-%02d-%02d %02d:%02d:%02d.%06ld %s "`. -/
def Stamp.text (t : Stamp) (level : ℤ) : Bytes :=
  padded 0 (t.tmYear + 1900) ++ ascii "-" ++ padded 2 (t.tmMon + 1) ++ ascii "-" ++
    padded 2 t.tmMday ++ ascii " " ++ padded 2 t.tmHour ++ ascii ":" ++ padded 2 t.tmMin ++
    ascii ":" ++ padded 2 t.tmSec ++ ascii "." ++ padded 6 t.tvUsec ++ ascii " " ++
    levelText level ++ ascii " "

theorem levelText_spec (level : ℤ) : (levelText level).length ≤ 8 ∧ 0 ∉ levelText level := by
  unfold levelText
  split_ifs <;> decide

/-- **The time and the level are never cut off**: they take less than the 48 bytes of the call. -/
theorem Stamp.length_text_le (t : Stamp) (level : ℤ) : (t.text level).length ≤ 43 := by
  have hyear := length_padded_int (z := t.tmYear + 1900) (by have := t.year_range; omega)
    t.year_range.2
  have two : ∀ z : ℤ, 0 ≤ z → z < 100 → (padded 2 z).length ≤ 2 := fun z hz hlt =>
    length_padded_le hz (by decide) hlt le_rfl
  have hmon := two (t.tmMon + 1) (by have := t.mon_range; omega) (by have := t.mon_range; omega)
  have hmday := two t.tmMday (by have := t.mday_range; omega) (by have := t.mday_range; omega)
  have hhour := two t.tmHour t.hour_range.1 (by have := t.hour_range; omega)
  have hmin := two t.tmMin t.min_range.1 (by have := t.min_range; omega)
  have hsec := two t.tmSec t.sec_range.1 (by have := t.sec_range; omega)
  have husec := length_padded_le (w := 6) (k := 6) t.usec_range.1 (by decide) t.usec_range.2 le_rfl
  have hlevel := (levelText_spec level).1
  have hone : ∀ s : String, s.length = 1 → (ascii s).length = 1 := fun s hs => by
    rw [ascii, List.length_map, String.length_toList, hs]
  simp only [Stamp.text, List.length_append, hone "-" rfl, hone " " rfl, hone ":" rfl,
    hone "." rfl]
  omega

theorem Stamp.zero_not_mem_text (t : Stamp) (level : ℤ) : 0 ∉ t.text level := by
  simp only [Stamp.text, List.mem_append, not_or]
  and_intros
  all_goals first
    | exact zero_not_mem_padded _ _
    | exact (levelText_spec level).2
    | decide

/-! ### The buffer -/

/-- `m_buf` with its size, an `int`. -/
structure LogBuffer where
  mBuf : Bytes
  mLogBufSize : ℤ
  length_eq : (mBuf.length : ℤ) = mLogBufSize
  size_le : mLogBufSize ≤ INT_MAX

/-- `vsnprintf(mem + i, space, ...)` for any `int` in the place of the size: it is converted to
`size_t`, and nothing is stored when it is zero. -/
def vsnprintfAt (mem : Bytes) (i space : ℤ) (text : Bytes) : Except Fault (Bytes × ℤ) :=
  if space % 2 ^ 64 = 0 then
    .ok (mem, if INT_MAX < text.length then -1 else text.length)
  else vsnprintf mem i (space % 2 ^ 64) text

namespace LogBuffer

/-- The stores into `m_buf`, where `text` is the time and the level, and `log_str`. -/
def store (b : LogBuffer) (text message : Bytes) : Except Fault (Bytes × Bytes) := do
  let (mem, n) ← vsnprintf b.mBuf 0 48 text
  let (mem, m) ← vsnprintfAt mem n (b.mLogBufSize - n - 1) message
  let mem ← poke mem (← int (n + m)) [10]
  let mem ← poke mem (← int (n + m + 1)) [0]
  return (mem, ← cstr mem)

/-- The second critical section of `write_log`: what is stored into `m_buf`, and `log_str`. -/
def writeLine (b : LogBuffer) (t : Stamp) (level : ℤ) (message : Bytes) :
    Except Fault (Bytes × Bytes) :=
  b.store (t.text level) message

/-- The line that is promised: the time and the level, what fits of the message when a newline and
a zero are to follow, and the newline. -/
def fitted (b : LogBuffer) (text message : Bytes) : Bytes :=
  text ++ message.take (b.mLogBufSize - text.length - 2).toNat ++ [10]

/-- The message fits with its newline and its zero, and holds no zero. -/
def Fits (b : LogBuffer) (text message : Bytes) : Prop :=
  text.length + message.length + 1 < b.mLogBufSize ∧ 0 ∉ message

variable {b : LogBuffer} {text message : Bytes}

/-! ### Stores behind one another -/

/-- **A store behind what is known of a block.** -/
theorem poke_behind {mem a : Bytes} (text : Bytes) (ha : mem.take a.length = a)
    (h : a.length + text.length ≤ mem.length) :
    ∃ mem', poke mem a.length text = .ok mem' ∧ mem'.length = mem.length ∧
      mem'.take (a.length + text.length) = a ++ text := by
  refine ⟨_, poke_eq mem a.length text h, ?_, ?_⟩
  · rw [ha]
    simp only [List.length_append, List.length_drop]
    omega
  · rw [ha, ← List.length_append, List.take_left]

/-- A text that fits, printed behind what is known of a block. -/
theorem print_behind {mem a : Bytes} {space : ℤ} (text : Bytes) (ha : mem.take a.length = a)
    (hspace : text.length < space) (hmax : text.length ≤ INT_MAX)
    (h : a.length + text.length < mem.length) :
    ∃ mem', vsnprintf mem a.length space text = .ok (mem', text.length) ∧
      mem'.length = mem.length ∧ mem'.take (a.length + text.length) = a ++ text := by
  obtain ⟨mem', hpoke, hlen, htake⟩ := poke_behind (text ++ [0]) ha
    (by rw [List.length_append, List.length_singleton]; omega)
  refine ⟨mem', ?_, hlen, ?_⟩
  · rw [vsnprintf, if_neg (by omega), List.take_of_length_le (by omega), hpoke]
    rfl
  · rw [List.length_append, ← List.append_assoc, ← Nat.add_assoc] at htake
    have := congrArg (List.take (a.length + text.length)) htake
    rwa [List.take_take, min_eq_left (by omega), ← List.length_append, List.take_left,
      List.length_append] at this

/-- The string in a block that starts with a text and a zero. -/
theorem cstr_of_take {mem a : Bytes} (h : mem.take (a.length + [(0 : UInt8)].length) = a ++ [0]) :
    cstr mem = .ok (cut (a ++ [0])) := by
  have hzero : (0 : UInt8) ∈ a ++ [0] := List.mem_append_right _ (List.mem_singleton_self 0)
  have hmem := List.take_append_drop (a.length + [(0 : UInt8)].length) mem
  rw [h] at hmem
  rw [← hmem, cstr, if_pos (List.mem_append_left _ hzero), CString.cut_append hzero]

theorem int_ok {z i : ℤ} (h : int z = .ok i) : i = z := by
  unfold int at h
  split at h
  · exact (Except.ok.inj h).symm
  · cases h

theorem length_poke {mem mem' text : Bytes} {i : ℤ} (h : poke mem i text = .ok mem') :
    mem'.length = mem.length := by
  unfold poke at h
  split at h
  · obtain rfl := Except.ok.inj h
    simp only [List.length_append, List.length_take, List.length_drop]
    omega
  · cases h

theorem poke_zero {mem mem' : Bytes} {i : ℕ} (h : poke mem i [0] = .ok mem') :
    mem'[i]? = some 0 := by
  unfold poke at h
  split at h
  · next hi =>
      obtain rfl := Except.ok.inj h
      rw [List.length_singleton] at hi
      rw [Int.toNat_natCast, List.append_assoc,
        List.getElem?_append_right (by rw [List.length_take]; omega), List.length_take,
        min_eq_left (by omega), Nat.sub_self]
      rfl
  · cases h

theorem length_cstr_le {mem line : Bytes} {i : ℕ} (h : cstr mem = .ok line)
    (hi : mem[i]? = some 0) : line.length ≤ i := by
  unfold cstr at h
  split at h
  · obtain rfl := Except.ok.inj h
    exact CString.length_cut_le hi
  · cases h

theorem cut_append_zero {a : Bytes} (h : 0 ∉ a) : cut (a ++ [0]) = a := by
  have hall : ∀ x ∈ a, decide (x ≠ 0) = true := fun x hx => by
    rw [decide_eq_true_iff]
    rintro rfl
    exact h hx
  rw [cut, List.takeWhile_append_of_pos hall]
  exact List.append_nil a

/-- The first call, on a buffer that has room for the time and the level. -/
theorem text_stored (ht : text.length ≤ 43) (h : text.length < b.mLogBufSize) :
    ∃ mem, vsnprintf b.mBuf 0 48 text = .ok (mem, text.length) ∧
      mem.length = b.mBuf.length ∧ mem.take text.length = text := by
  have hb := b.length_eq
  have hnil : b.mBuf.take ([] : Bytes).length = [] := rfl
  obtain ⟨mem, h', hlen, htake⟩ := print_behind text hnil (show text.length < (48 : ℤ) by omega)
    (by unfold INT_MAX; omega) (by rw [List.length_nil]; omega)
  rw [List.length_nil, Nat.zero_add, List.nil_append] at htake
  exact ⟨mem, h', hlen, htake⟩

/-- The first call on a buffer that is too small for it. -/
theorem text_out (ht : text.length ≤ 43) (h : b.mLogBufSize ≤ text.length) :
    ∃ f, vsnprintf b.mBuf 0 48 text = .error f := by
  have hb := b.length_eq
  rw [vsnprintf, if_neg (by unfold INT_MAX; omega), List.take_of_length_le (by omega), poke,
    if_neg (by rw [List.length_append, List.length_singleton]; omega)]
  exact ⟨_, rfl⟩

/-- **The second call** stores in bounds, however long the message is. -/
theorem message_stored {mem : Bytes} (message : Bytes) (h : text.length < b.mLogBufSize)
    (hlen : mem.length = b.mBuf.length) (htake : mem.take text.length = text)
    (hm : message.length ≤ INT_MAX) :
    ∃ mem', vsnprintfAt mem text.length (b.mLogBufSize - text.length - 1)
        message = .ok (mem', message.length) ∧ mem'.length = b.mBuf.length ∧
      (text.length + message.length + 1 < b.mLogBufSize →
        mem'.take (text ++ message).length = text ++ message) := by
  have hb := b.length_eq
  have hmax := b.size_le
  have hint : INT_MAX = 2147483647 := rfl
  rw [vsnprintfAt, Int.emod_eq_of_lt (by omega) (by omega)]
  by_cases hspace : b.mLogBufSize - text.length - 1 = 0
  · exact ⟨mem, by rw [if_pos hspace, if_neg (by omega)], hlen, fun hfit => by omega⟩
  · obtain ⟨mem', h', hlen', -, hfit⟩ := vsnprintf_spec mem text.length
      (b.mLogBufSize - text.length - 1) message (by omega) (by omega) hm
    refine ⟨mem', by rw [if_neg hspace, h'], hlen'.trans hlen, fun hlt => ?_⟩
    rw [List.length_append, hfit (by omega), htake]

/-! ### Lines -/

theorem error_bind {α β : Type} (e : Fault) (f : α → Except Fault β) :
    ((.error e : Except Fault α) >>= f) = .error e := rfl

theorem of_bind {α β : Type} {x : Except Fault α} {f : α → Except Fault β} {r : β}
    (h : (x >>= f) = .ok r) : ∃ a, x = .ok a ∧ f a = .ok r := by
  cases x with
  | error e => cases h
  | ok a => exact ⟨a, rfl, h⟩

theorem fitted_eq (h : text.length + message.length + 1 < b.mLogBufSize) :
    b.fitted text message = text ++ message ++ [10] := by
  rw [fitted, List.take_of_length_le (by omega)]

/-- **A message that fits**: everything is stored in bounds, and the line ends at its first zero. -/
theorem store_eq (ht : text.length ≤ 43)
    (h : text.length + message.length + 1 < b.mLogBufSize) :
    ∃ mem, b.store text message =
      .ok (mem, cut (text ++ message ++ [10] ++ [0])) := by
  have hb := b.length_eq
  have hmax := b.size_le
  have hint : INT_MAX = 2147483647 := rfl
  obtain ⟨mem₁, h₁, hlen₁, htake₁⟩ := text_stored (b := b) ht (by omega)
  obtain ⟨mem₂, h₂, hlen₂, hfit⟩ := message_stored message (by omega) hlen₁ htake₁
    (by omega)
  have htake₂ := hfit h
  obtain ⟨mem₃, h₃, hlen₃, htake₃⟩ := poke_behind [10] htake₂
    (by rw [List.length_append, List.length_singleton]; omega)
  rw [← List.length_append] at htake₃
  obtain ⟨mem₄, h₄, hlen₄, htake₄⟩ := poke_behind [0] htake₃
    (by rw [List.length_append, List.length_append, List.length_singleton,
      List.length_singleton]; omega)
  refine ⟨mem₄, ?_⟩
  have hi₁ : int (text.length + message.length) =
      .ok ((text ++ message).length : ℕ) := by
    rw [int_eq (by omega) (by omega), List.length_append, Nat.cast_add]
  have hi₂ : int (text.length + message.length + 1) =
      .ok ((text ++ message ++ [10]).length : ℕ) := by
    rw [int_eq (by omega) (by omega), List.length_append, List.length_append, Nat.cast_add,
      Nat.cast_add, List.length_singleton, Nat.cast_one]
  simp only [store, h₁, h₂, hi₁, h₃, hi₂, h₄, cstr_of_take htake₄, ok_bind, pure, Except.pure]

/-- **A message that does not fit is stored out of bounds**: the newline or the zero behind it is
not in the buffer. -/
theorem store_out (ht : text.length ≤ 43)
    (h : b.mLogBufSize ≤ text.length + message.length + 1)
    (hm : message.length ≤ INT_MAX) : ∃ f, b.store text message = .error f := by
  have hb := b.length_eq
  have hmax := b.size_le
  by_cases htext : b.mLogBufSize ≤ text.length
  · obtain ⟨f, hf⟩ := text_out ht htext
    exact ⟨f, by simp only [store, hf, error_bind]⟩
  · obtain ⟨mem₁, h₁, hlen₁, htake₁⟩ := text_stored (b := b) ht (by omega)
    obtain ⟨mem₂, h₂, hlen₂, -⟩ := message_stored (b := b) message (by omega) hlen₁ htake₁ hm
    -- the newline is the last byte of the buffer, or it is behind it
    cases hi₁ : int (text.length + message.length) with
    | error f => exact ⟨f, by simp only [store, h₁, h₂, hi₁, ok_bind, error_bind]⟩
    | ok i =>
        have hi := int_ok hi₁
        cases h₃ : poke mem₂ i [10] with
        | error f => exact ⟨f, by simp only [store, h₁, h₂, hi₁, h₃, ok_bind, error_bind]⟩
        | ok mem₃ =>
            have hlen₃ := length_poke h₃
            cases hi₂ : int (text.length + message.length + 1) with
            | error f =>
                exact ⟨f, by simp only [store, h₁, h₂, hi₁, h₃, hi₂, ok_bind, error_bind]⟩
            | ok j =>
                have hj := int_ok hi₂
                have h₄ : poke mem₃ j [0] = .error (.outOfRange j) :=
                  if_neg (by rw [List.length_singleton]; omega)
                exact ⟨.outOfRange j, by
                  simp only [store, h₁, h₂, hi₁, h₃, hi₂, h₄, ok_bind, error_bind]⟩

/-- Whatever is stored, the line is not longer than the position of the last zero. -/
theorem length_line_le {mem line : Bytes} (ht : text.length ≤ 43)
    (h : b.store text message = .ok (mem, line))
    (hm : INT_MAX < message.length) : line.length ≤ text.length := by
  have hb := b.length_eq
  have hmax := b.size_le
  have hint : INT_MAX = 2147483647 := rfl
  by_cases htext : b.mLogBufSize ≤ text.length
  · obtain ⟨f, hf⟩ := text_out ht htext
    simp [store, hf, error_bind] at h
  · obtain ⟨mem₁, h₁, hlen₁, htake₁⟩ := text_stored (b := b) ht (by omega)
    have h₂ : vsnprintfAt mem₁ text.length (b.mLogBufSize - text.length - 1)
        message = .ok (mem₁, -1) := by
      rw [vsnprintfAt, vsnprintf, if_pos hm, if_pos hm]
      split <;> rfl
    have hi₂ : int (text.length + -1 + 1) = .ok text.length := by
      rw [int_eq (by omega) (by omega)]
      congr 1
      omega
    simp only [store, h₁, h₂, hi₂, ok_bind, pure, Except.pure] at h
    obtain ⟨i, -, h⟩ := of_bind h
    obtain ⟨mem₃, -, h⟩ := of_bind h
    obtain ⟨mem₄, h₄, h⟩ := of_bind h
    obtain ⟨line', hline, h⟩ := of_bind h
    obtain ⟨rfl, rfl⟩ := Prod.mk.inj (Except.ok.inj h)
    exact length_cstr_le hline (poke_zero h₄)

/-- **The line is as promised exactly when the message fits.** -/
theorem writeLine_fitted_iff (b : LogBuffer) (t : Stamp) (level : ℤ) (message : Bytes) :
    (∃ mem, b.writeLine t level message = .ok (mem, b.fitted (t.text level) message)) ↔
      b.Fits (t.text level) message := by
  have ht := t.length_text_le level
  have hclean := t.zero_not_mem_text level
  unfold writeLine
  generalize t.text level = text at ht hclean
  constructor
  · rintro ⟨mem, h⟩
    have hfits : text.length + message.length + 1 < b.mLogBufSize := by
      by_contra hout
      by_cases hm : message.length ≤ INT_MAX
      · obtain ⟨f, hf⟩ := store_out ht (not_lt.1 hout) hm
        rw [hf] at h
        cases h
      · have := length_line_le ht h (not_le.1 hm)
        simp only [fitted, List.length_append, List.length_singleton] at this
        omega
    refine ⟨hfits, fun hzero => ?_⟩
    -- the line that is read back has no zero, the one that is promised has
    obtain ⟨mem', h'⟩ := store_eq ht hfits
    rw [h', fitted_eq hfits] at h
    have hline := (Prod.mk.inj (Except.ok.inj h)).2
    refine CString.not_mem_cut (text ++ message ++ [10] ++ [0]) ?_
    rw [hline]
    exact List.mem_append_left _ (List.mem_append_right _ hzero)
  · rintro ⟨hfits, hzero⟩
    obtain ⟨mem, h⟩ := store_eq ht hfits
    have hclean' : 0 ∉ text ++ message ++ [10] := by
      simp only [List.mem_append, not_or]
      exact ⟨⟨hclean, hzero⟩, by decide⟩
    exact ⟨mem, by rw [h, fitted_eq hfits, cut_append_zero hclean']⟩

/-- The first second of the year 2000. -/
def millennium : Stamp where
  tmYear := 100
  tmMon := 0
  tmMday := 1
  tmHour := 0
  tmMin := 0
  tmSec := 0
  tvUsec := 0
  year_range := by decide
  mon_range := by decide
  mday_range := by decide
  hour_range := by decide
  min_range := by decide
  sec_range := by decide
  usec_range := by decide

/-- The buffer of 2000 bytes that the server asks for. -/
def ofServer : LogBuffer where
  mBuf := List.replicate 2000 0
  mLogBufSize := 2000
  length_eq := by rw [List.length_replicate]; rfl
  size_le := by decide

/-- A message of 2000 bytes in the buffer of the server. -/
theorem not_fitted :
    ¬ ∀ (b : LogBuffer) (t : Stamp) (level : ℤ) (message : Bytes),
      (t.text level).length < b.mLogBufSize →
        ∃ mem, b.writeLine t level message = .ok (mem, b.fitted (t.text level) message) := by
  intro hall
  have ht := millennium.length_text_le 1
  have hlen : (List.replicate 2000 (97 : UInt8)).length = 2000 := List.length_replicate
  have hsize : ofServer.mLogBufSize = 2000 := rfl
  have hout : ∃ f, ofServer.store (millennium.text 1) (List.replicate 2000 97) = .error f :=
    store_out ht (by omega) (by rw [hlen]; decide)
  obtain ⟨f, hf⟩ := hout
  obtain ⟨mem, h⟩ := hall ofServer millennium 1 (List.replicate 2000 97) (by omega)
  rw [writeLine, hf] at h
  cases h

end LogBuffer

end Gateway
