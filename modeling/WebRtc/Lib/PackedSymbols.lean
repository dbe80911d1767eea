import Mathlib.Algebra.BigOperators.Ring.Nat

/-! Symbols of a fixed width packed into a word, the first one highest: what a loop
`word |= symbol[i] << width * (capacity - 1 - i)` builds, and the symbols that shifting
and masking read back. -/

namespace WebRtc.PackedSymbols
open BitVec

variable {n : Nat}

/-- The place of the lowest bit of symbol `i`. -/
def position (width capacity i : Nat) : Nat := width * (capacity - 1 - i)

/-- The word after the first `count` symbols have been ORed into `start`. -/
def pack (width capacity : Nat) (start : BitVec n) (symbol : Nat → Nat) : Nat → BitVec n
  | 0 => start
  | count + 1 =>
      pack width capacity start symbol count |||
        (BitVec.ofNat n (symbol count) <<< position width capacity count)

/-- Symbol `i` of a word. -/
def unpack (width capacity : Nat) (word : BitVec n) (i : Nat) : Nat :=
  (word >>> position width capacity i).toNat % 2 ^ width

theorem position_add_width_le (width : Nat) {capacity i k : Nat} (hk : k < i) (hi : i < capacity) :
    position width capacity i + width ≤ position width capacity k := by
  unfold position
  have hd : capacity - 1 - k = capacity - 1 - i + 1 + (i - k - 1) := by omega
  rw [hd, Nat.mul_add, Nat.mul_add, Nat.mul_one]
  exact Nat.le_add_right _ _

theorem position_add_width_le_mul (width : Nat) {capacity i : Nat} (hi : i < capacity) :
    position width capacity i + width ≤ width * capacity := by
  unfold position
  have hd : width * capacity = width * (capacity - 1 - i) + width + width * i := by
    rw [← Nat.mul_succ, ← Nat.mul_add]
    congr 1
    omega
  omega

theorem testBit_of_lt {v width b : Nat} (hv : v < 2 ^ width) (hb : width ≤ b) :
    v.testBit b = false :=
  Nat.testBit_lt_two_pow (Nat.lt_of_lt_of_le hv (Nat.pow_le_pow_right (by omega) hb))

section
variable {width capacity : Nat} {start : BitVec n} {symbol : Nat → Nat}

/-- A bit of the field of symbol `i`: packing another symbol does not reach it. -/
theorem getLsbD_pack {count i b : Nat} (hn : width * capacity ≤ n)
    (hs : ∀ k < count, symbol k < 2 ^ width) (hc : count ≤ capacity)
    (hi : i < capacity) (hb : b < width) :
    (pack width capacity start symbol count).getLsbD (position width capacity i + b) =
      (start.getLsbD (position width capacity i + b) ||
        (decide (i < count) && (symbol i).testBit b)) := by
  induction count with
  | zero => simp [pack]
  | succ count ih =>
      have htop := position_add_width_le_mul width hi
      rw [pack, getLsbD_or, ih (fun k hk => hs k (by omega)) (by omega),
        getLsbD_shiftLeft, getLsbD_ofNat]
      rcases Nat.lt_trichotomy i count with hlt | rfl | hgt
      · -- the new field is lower: its symbol has no bit so high
        have hp := position_add_width_le width hlt (by omega : count < capacity)
        rw [testBit_of_lt (hs count (by omega)) (by omega)]
        simp [hlt, Nat.lt_succ_of_lt hlt]
      · have hfit : position width capacity i + b < n := by omega
        have hbn : b < n := by omega
        have habove : ¬ position width capacity i + b < position width capacity i := by omega
        simp [hfit, hbn, habove]
      -- the new field is higher: the shift clears this bit
      have hp := position_add_width_le width hgt hi
      have hlow : position width capacity i + b < position width capacity count := by omega
      simp [hlow, show ¬ i < count by omega, show ¬ i < count + 1 by omega]

theorem getLsbD_pack_high {count j : Nat} (hs : ∀ k < count, symbol k < 2 ^ width)
    (hc : count ≤ capacity) (hj : width * capacity ≤ j) :
    (pack width capacity start symbol count).getLsbD j = start.getLsbD j := by
  induction count with
  | zero => rfl
  | succ count ih =>
      have htop := position_add_width_le_mul width (by omega : count < capacity)
      rw [pack, getLsbD_or, ih (fun k hk => hs k (by omega)) (by omega),
        getLsbD_shiftLeft, getLsbD_ofNat, testBit_of_lt (hs count (by omega)) (by omega)]
      simp

/-- **Unpacking reads back what was packed**, and zero in the fields after it. -/
theorem unpack_pack {count i : Nat} (hn : width * capacity ≤ n)
    (hstart : ∀ j < width * capacity, start.getLsbD j = false)
    (hs : ∀ k < count, symbol k < 2 ^ width) (hc : count ≤ capacity) (hi : i < capacity) :
    unpack width capacity (pack width capacity start symbol count) i =
      if i < count then symbol i else 0 := by
  apply Nat.eq_of_testBit_eq
  intro b
  have htop := position_add_width_le_mul width hi
  unfold unpack
  rw [Nat.testBit_mod_two_pow]
  by_cases hb : b < width
  · rw [testBit_toNat, getLsbD_ushiftRight, getLsbD_pack hn hs hc hi hb, hstart _ (by omega)]
    by_cases hic : i < count
    · simp [hb, hic]
    · simp [hic]
  by_cases hic : i < count
  · have hnone : (symbol i).testBit b = false := testBit_of_lt (hs i hic) (by omega)
    simp [hb, hic, hnone]
  · simp [hb, hic]

end

end WebRtc.PackedSymbols
