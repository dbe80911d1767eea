import Mathlib.Algebra.BigOperators.Ring.Nat

/-! Wrapping sequence numbers: `webrtc/base/mod_ops.h`, the full-range templates of
`sequence_number_util.h` and `IsNewerSequenceNumber`. An unsigned `w`-bit integer
is a `BitVec w`, so the templates stay generic in the width. -/

namespace WebRtc.SequenceNumber

/-- `ForwardDiff<T>(a, b)`. -/
def forwardDiff {w : Nat} (a b : BitVec w) : BitVec w := b - a

/-- `ReverseDiff<T>(a, b)`. -/
def reverseDiff {w : Nat} (a b : BitVec w) : BitVec w := a - b

/-- `numeric_limits<T>::max() / 2 + 1`. -/
def maxDist (w : Nat) : BitVec w := BitVec.ofNat w ((2 ^ w - 1) / 2 + 1)

/-- `AheadOrAt<T>(a, b)`. Two numbers at the maximal distance are ordered by value. -/
def aheadOrAt {w : Nat} (a b : BitVec w) : Bool :=
  if a - b = maxDist w then decide (b < a)
  else decide (forwardDiff b a < maxDist w)

/-- `AheadOf<T>(a, b)`. -/
def aheadOf {w : Nat} (a b : BitVec w) : Bool := a != b && aheadOrAt a b

/-- `IsNewerSequenceNumber(sequence_number, prev_sequence_number)`. -/
def isNewerSequenceNumber (s p : BitVec 16) : Bool :=
  if s - p = 0x8000 then decide (s > p) else s != p && decide (s - p < 0x8000)

theorem aheadOrAt_iff (a b : BitVec 16) : aheadOrAt a b ↔
      (a - b).toNat < 32768 ∨ ((a - b).toNat = 32768 ∧ b.toNat < a.toNat) := by
  have hm : maxDist 16 = 32768#16 := rfl
  unfold aheadOrAt forwardDiff
  rw [hm]
  by_cases h : a - b = 32768#16
  · have hn : (a - b).toNat = 32768 := by rw [h]; rfl
    rw [if_pos h, decide_eq_true_eq, BitVec.lt_def, hn]
    omega
  have hn : (a - b).toNat ≠ 32768 := fun he => h (BitVec.eq_of_toNat_eq he)
  rw [if_neg h, decide_eq_true_eq, BitVec.lt_def]
  exact ⟨Or.inl, fun ho => ho.resolve_right (fun hc => hn hc.1)⟩

theorem aheadOf_iff (a b : BitVec 16) : aheadOf a b ↔
      (0 < (a - b).toNat ∧ (a - b).toNat < 32768) ∨
        ((a - b).toNat = 32768 ∧ b.toNat < a.toNat) := by
  have hne : a ≠ b ↔ 0 < (a - b).toNat := by
    constructor
    · intro h
      rcases Nat.eq_zero_or_pos (a - b).toNat with h0 | h0
      · exact absurd (by bv_omega) h
      · exact h0
    · rintro h rfl
      simp at h
  simp only [aheadOf, Bool.and_eq_true, bne_iff_ne, hne, aheadOrAt_iff]
  omega

/-- `AheadOf` is total and antisymmetric on distinct numbers. -/
theorem aheadOf_swap (a b : BitVec 16) (h : a ≠ b) : aheadOf b a = !aheadOf a b := by
  have hab := aheadOf_iff a b
  have hba := aheadOf_iff b a
  cases h1 : aheadOf a b <;> cases h2 : aheadOf b a <;>
    simp only [h1, h2, Bool.false_eq_true, true_iff, false_iff] at hab hba ⊢ <;> try trivial
  all_goals bv_omega

theorem aheadOf_irrefl (a : BitVec 16) : aheadOf a a = false := by simp [aheadOf]

theorem isNewerSequenceNumber_eq_aheadOf (a b : BitVec 16) :
    isNewerSequenceNumber a b = aheadOf a b := by
  unfold isNewerSequenceNumber aheadOf aheadOrAt forwardDiff
  have hm : maxDist 16 = 0x8000#16 := rfl
  rw [hm]
  by_cases h : a - b = 0x8000#16
  · have hne : a ≠ b := by rintro rfl; simp at h
    simp [h, hne]
  · simp [h]

theorem isNewer_iff (a b : BitVec 16) : isNewerSequenceNumber a b ↔
      (0 < (a - b).toNat ∧ (a - b).toNat < 32768) ∨
        ((a - b).toNat = 32768 ∧ b.toNat < a.toNat) := by
  rw [isNewerSequenceNumber_eq_aheadOf, aheadOf_iff]

end WebRtc.SequenceNumber
