/-
The stores of the parser and its lines.

* `Gateway.HttpConn.Fits` — the received bytes fit in the read buffer; `Gateway.HttpConn.zero`,
  `Gateway.HttpConn.ended` — the stores in it; `Gateway.HttpConn.Unbroken` — a text of one line;
* `Gateway.HttpConn.parseLine_spec` — `parse_line` stores inside the buffer;
* `Gateway.HttpConn.parseLine_append` — `parse_line` on a connection with more bytes.
-/

import InferenceGateway.HttpConn

set_option relaxedAutoImplicit false
set_option autoImplicit false

namespace Gateway.HttpConn

variable {c c' : HttpConn} {q : Bytes}

/-! ### Stores -/

/-- The received bytes fit in the read buffer. -/
def Fits (c : HttpConn) : Prop := c.readIdx ≤ c.readBufSize

/-- The effect of a store inside the buffer. -/
@[simps]
def zero (c : HttpConn) (i : ℕ) : HttpConn := { c with readBuf := c.readBuf.set i 0 }

@[simp] theorem readIdx_zero (c : HttpConn) (i : ℕ) : (c.zero i).readIdx = c.readIdx := by
  simp [readIdx]

@[simp] theorem readIdx_append (c : HttpConn) (q : Bytes) :
    (c.append q).readIdx = c.readIdx + q.length := by simp [append, readIdx]

theorem store_eq {i : ℕ} (h : i < c.readBufSize) : c.store i = .ok (c.zero i) := by
  simp [store, zero, h]

theorem eq_zero_of_store {z : ℤ} (h : c.store z = .ok c') :
    ∃ i : ℕ, z = i ∧ i < c.readBufSize ∧ c' = c.zero i := by
  unfold store at h
  split at h
  · next hz =>
      obtain ⟨i, rfl⟩ := Int.eq_ofNat_of_zero_le hz.1
      cases h
      exact ⟨i, rfl, by exact_mod_cast hz.2, rfl⟩
  · cases h

theorem zero_append {i : ℕ} (h : i < c.readIdx) : (c.append q).zero i = (c.zero i).append q := by
  simp only [zero, append]
  rw [List.set_append_left _ _ h]

theorem byteAt_append {i : ℕ} (h : i < c.readIdx) : (c.append q).byteAt i = c.byteAt i := by
  simp only [byteAt, append, List.getD_eq_getElem?_getD]
  rw [List.getElem?_append_left h]

/-! ### Lines -/

/-- A text without line breaks. -/
def Unbroken (l : Bytes) : Prop := ∀ b ∈ l, b ≠ 13 ∧ b ≠ 10

instance (l : Bytes) : Decidable (Unbroken l) := List.decidableBAll _ l

/-- The connection after a line whose terminator starts at `i`. -/
def ended (c : HttpConn) (i : ℕ) : HttpConn :=
  { (c.zero i).zero (i + 1) with checkedIdx := i + 2 }

theorem endLine_eq {i : ℕ} (hf : c.Fits) (h : i + 2 ≤ c.readIdx) :
    c.endLine i = .ok (c.ended i) := by
  unfold Fits at hf
  have h₁ := store_eq (c := c) (i := i) (by omega)
  have h₂ := store_eq (c := c.zero i) (i := i + 1) (by simp; omega)
  simp only [endLine, h₁, h₂, bind, Except.bind, pure, Except.pure, ended]

theorem ended_append {i : ℕ} (h : i + 2 ≤ c.readIdx) :
    (c.append q).ended i = (c.ended i).append q := by
  simp only [ended]
  rw [zero_append (by omega), zero_append (by simp; omega)]
  rfl

/-- What `parse_line` does: it ends a line inside the received bytes, or only moves on. -/
inductive LineSpec (c : HttpConn) : LineStatus → HttpConn → Prop
  | lineOk (i : ℕ) :
      c.checkedIdx ≤ i ∨ c.checkedIdx = i + 1 ∧ c.byteAt c.checkedIdx = 10 → i + 2 ≤ c.readIdx →
      LineSpec c .lineOk (c.ended i)
  | lineBad (k : ℕ) :
      c.checkedIdx ≤ k → k < c.readIdx → LineSpec c .lineBad { c with checkedIdx := k }
  | lineOpen (k : ℕ) :
      c.checkedIdx ≤ k → k = c.readIdx ∨ k + 1 = c.readIdx ∧ c.byteAt k = 13 →
      LineSpec c .lineOpen { c with checkedIdx := k }

theorem parseLineLoop_spec (n : ℕ) (hf : c.Fits) (hn : c.checkedIdx + n = c.readIdx) :
    ∃ st c', parseLineLoop n c = .ok (st, c') ∧ LineSpec c st c' := by
  induction n generalizing c with
  | zero => exact ⟨_, _, rfl, .lineOpen c.checkedIdx (le_refl _) (.inl hn)⟩
  | succ n ih =>
      rw [parseLineLoop]
      split
      · next hcr =>
          split
          · next hend => exact ⟨_, _, rfl, .lineOpen c.checkedIdx (le_refl _) (.inr ⟨hend, hcr⟩)⟩
          · split
            · rw [endLine_eq hf (by omega)]
              exact ⟨_, _, rfl, .lineOk c.checkedIdx (.inl (le_refl _)) (by omega)⟩
            · exact ⟨_, _, rfl, .lineBad c.checkedIdx (le_refl _) (by omega)⟩
      · split
        · next hlf =>
            split
            · next h =>
                rw [endLine_eq hf (by omega)]
                exact ⟨_, _, rfl, .lineOk (c.checkedIdx - 1) (.inr ⟨by omega, hlf⟩) (by omega)⟩
            · exact ⟨_, _, rfl, .lineBad c.checkedIdx (le_refl _) (by omega)⟩
        · obtain ⟨st, c', heq, hspec⟩ := ih (c := { c with checkedIdx := c.checkedIdx + 1 }) hf
            (by simp only [readIdx] at hn ⊢; omega)
          refine ⟨st, c', heq, ?_⟩
          cases hspec with
          | lineOk i h₁ h₂ =>
              refine .lineOk i (.inl ?_) h₂
              rcases h₁ with h₁ | ⟨h₁, -⟩
              · exact Nat.le_of_succ_le h₁
              · exact Nat.le_of_succ_le_succ (Nat.le_of_eq h₁)
          | lineBad k h₁ h₂ => exact .lineBad k (Nat.le_of_succ_le h₁) h₂
          | lineOpen k h₁ h₂ => exact .lineOpen k (Nat.le_of_succ_le h₁) h₂

/-- **`parse_line` stores inside the buffer**, whatever the bytes are. -/
theorem parseLine_spec (hf : c.Fits) (hk : c.checkedIdx ≤ c.readIdx) :
    ∃ st c', c.parseLine = .ok (st, c') ∧ LineSpec c st c' :=
  parseLineLoop_spec _ hf (Nat.add_sub_cancel' hk)

theorem Fits.of_append (h : (c.append q).Fits) : c.Fits := by
  unfold Fits at h ⊢
  rw [readIdx_append] at h
  exact le_trans (Nat.le_add_right _ _) h

/-- The loop of `parse_line` on the longer connection has as many bytes left. -/
theorem parseLine_append_eq {n : ℕ} (hn : c.checkedIdx + n = c.readIdx) :
    (c.append q).parseLine = parseLineLoop (n + q.length) (c.append q) := by
  rw [parseLine, readIdx_append]
  congr 1
  change c.readIdx + q.length - c.checkedIdx = _
  omega

theorem parseLineLoop_append (n : ℕ) {st : LineStatus} (hf : (c.append q).Fits)
    (hn : c.checkedIdx + n = c.readIdx) (h : parseLineLoop n c = .ok (st, c')) :
    parseLineLoop (n + q.length) (c.append q) =
      if st = .lineOpen then (c'.append q).parseLine else .ok (st, c'.append q) := by
  induction n generalizing c with
  | zero =>
      cases h
      rw [if_pos rfl, parseLine_append_eq hn]
  | succ n ih =>
      have hf' := hf.of_append
      have hlt : c.checkedIdx < c.readIdx := by omega
      have hidx : (c.append q).checkedIdx = c.checkedIdx := rfl
      rw [parseLineLoop] at h
      by_cases hcr : c.byteAt c.checkedIdx = 13
      · rw [if_pos hcr] at h
        by_cases hend : c.checkedIdx + 1 = c.readIdx
        · rw [if_pos hend] at h
          cases h
          rw [if_pos rfl, parseLine_append_eq hn]
        · rw [if_neg hend] at h
          rw [Nat.add_right_comm, parseLineLoop]
          simp only [hidx, byteAt_append hlt, if_pos hcr]
          rw [if_neg (by rw [readIdx_append]; omega), byteAt_append (by omega)]
          split at h
          · next hlf =>
              rw [endLine_eq hf' (by omega)] at h
              cases h
              rw [if_pos hlf, endLine_eq hf (by rw [readIdx_append]; omega),
                ended_append (by omega)]
              rfl
          · next hlf =>
              cases h
              rw [if_neg hlf]
              rfl
      · rw [if_neg hcr] at h
        rw [Nat.add_right_comm, parseLineLoop]
        simp only [hidx, byteAt_append hlt, if_neg hcr]
        split at h
        · next hlf =>
            rw [if_pos hlf, byteAt_append (by omega)]
            split at h
            · next hprev =>
                rw [endLine_eq hf' (by omega)] at h
                cases h
                rw [if_pos hprev, endLine_eq hf (by rw [readIdx_append]; omega),
                  ended_append (by omega)]
                rfl
            · next hprev =>
                cases h
                rw [if_neg hprev]
                rfl
        · next hlf =>
            rw [if_neg hlf]
            refine ih (c := { c with checkedIdx := c.checkedIdx + 1 }) hf ?_ h
            simp only [readIdx] at hn ⊢
            omega

/-- **`parse_line` on more bytes**: what it decided it decides again, and where it ran out of bytes
it goes on. -/
theorem parseLine_append {st : LineStatus} (hf : (c.append q).Fits)
    (hk : c.checkedIdx ≤ c.readIdx) (h : c.parseLine = .ok (st, c')) :
    (c.append q).parseLine =
      if st = .lineOpen then (c'.append q).parseLine else .ok (st, c'.append q) := by
  have hn : c.checkedIdx + (c.readIdx - c.checkedIdx) = c.readIdx := Nat.add_sub_cancel' hk
  rw [parseLine_append_eq hn]
  exact parseLineLoop_append _ hf hn h

theorem parseLineLoop_bad (n : ℕ) (hn : c.checkedIdx + n = c.readIdx)
    (h : parseLineLoop n c = .ok (.lineBad, c')) : c'.parseLine = .ok (.lineBad, c') := by
  induction n generalizing c with
  | zero => cases h
  | succ n ih =>
      have hself : c.parseLine = parseLineLoop (n + 1) c := by
        rw [parseLine]
        congr 1
        omega
      by_cases hd : c' = c
      · subst hd
        rw [hself]
        exact h
      · rw [parseLineLoop] at h
        split at h
        · split at h
          · cases h
          · split at h
            · cases he : c.endLine c.checkedIdx <;> rw [he] at h <;> cases h
            · cases h
              exact absurd rfl hd
        · split at h
          · split at h
            · cases he : c.endLine (c.checkedIdx - 1) <;> rw [he] at h <;> cases h
            · cases h
              exact absurd rfl hd
          · refine ih (c := { c with checkedIdx := c.checkedIdx + 1 }) ?_ h
            simp only [readIdx] at hn ⊢
            omega

/-- A line that `parse_line` calls bad stays bad. -/
theorem parseLine_bad (hk : c.checkedIdx ≤ c.readIdx) (h : c.parseLine = .ok (.lineBad, c')) :
    c'.parseLine = .ok (.lineBad, c') :=
  parseLineLoop_bad _ (Nat.add_sub_cancel' hk) h

end Gateway.HttpConn
