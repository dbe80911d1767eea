import Mathlib.Algebra.BigOperators.Ring.Nat
import Mathlib.Tactic.MkIffOfInductiveProp

/-! Bits of a byte under the masks that wire formats put on them: what a mask keeps, sets and
clears, and the number that is left. Each group is checked for all 256 bytes at once. -/

namespace WebRtc.ByteMasks

/-! ## The two top bits -/

@[mk_iff] structure TopBits (b : BitVec 8) : Prop where
  /-- Clearing the two top bits keeps the low six. -/
  clear_low : b &&& 0x7f &&& 0xbf &&& 0x3f = b &&& 0x3f
  /-- So does setting the second one. -/
  set_low : (b &&& 0x7f ||| 0x40) &&& 0x3f = b &&& 0x3f
  second_set : ((b &&& 0x7f ||| 0x40) &&& 0x40 != 0) = true
  first_clear : (b &&& 0x7f &&& 0xbf &&& 0x80 != 0) = false
  second_clear : (b &&& 0x7f &&& 0xbf &&& 0x40 != 0) = false
  first_set : ((b ||| 0x80) &&& 0x80 != 0) = true
  first_of_lt : b.toNat < 128 → (b &&& 0x80 != 0) = false
  second_of_set : ((b ||| 0x80) >>> 6) &&& (0x01 : BitVec 8) = (b >>> 6) &&& 0x01
  /-- The two top bits of a byte of six bits, before and after the second one is set. -/
  of_lt : b.toNat < 64 → b &&& 0x80 = 0 ∧ (b >>> 6) &&& 0x01 = 0 ∧ (b ||| 0x40) &&& 0x80 = 0 ∧
    ((b ||| 0x40) >>> 6) &&& 0x01 = 1
  or_and : (b ||| 0x80) &&& 0xbf = b &&& 0x3f ||| 0x80
  low_or : b &&& 0xc0 = 0x80 → b &&& 0x3f ||| 0x80 = b
  toNat_or_80 : (b ||| 0x80).toNat = b.toNat % 128 + 128
  toNat_or_40 : (b ||| 0x40).toNat % 64 = b.toNat % 64

instance : DecidablePred TopBits := fun b => decidable_of_iff _ (topBits_iff b).symm

variable (b : BitVec 8)

theorem topBits : TopBits b := by
  revert b
  decide +kernel

/-! ## The two low bits -/

@[mk_iff] structure LowBits (b : BitVec 8) : Prop where
  or_one : (b &&& 0xfe) ||| (b &&& 0x01) = b
  or_two : (b &&& 0xfc) ||| (b &&& 0x03) = b
  one_clear : b &&& 0x01 = 0 → b &&& 0xfe = b
  two_clear : b &&& 0x03 = 0 → b &&& 0xfc = b
  one_set : (b &&& 0x01 != 0) = true → b &&& 0x01 = 0x01
  /-- Both low bits are clear if each one is. -/
  each_clear : (!(b &&& 0x02 != 0) && !(b &&& 0x01 != 0)) = decide (b &&& 0x03 = 0)
  toNat_and_fe : (b &&& 0xfe).toNat = b.toNat / 2 * 2
  toNat_and_fc : (b &&& 0xfc).toNat = b.toNat / 4 * 4

instance : DecidablePred LowBits := fun b => decidable_of_iff _ (lowBits_iff b).symm

theorem lowBits : LowBits b := by
  revert b
  decide +kernel

/-! ## Fields that are set one at a time -/

/-- The bits of a byte that holds a top bit and a number, or a version, two flags and a count. -/
@[mk_iff] structure FieldBits (b : BitVec 8) : Prop where
  top_bit : decide ((b ||| 0x80#8) &&& 0x80#8 ≠ 0#8) = true ∧
    decide ((b &&& 0x7f#8) &&& 0x80#8 ≠ 0#8) = false ∧
    (b ||| 0x80#8) &&& 0x7f#8 = b &&& 0x7f#8 ∧ (b &&& 0x7f#8) &&& 0x7f#8 = b &&& 0x7f#8
  number : b ≤ 0x7f#8 → b &&& 0x7f#8 = b
  flag_20 : (b ||| 0x20#8) >>> 6 = b >>> 6 ∧ (b ||| 0x20#8) &&& 0x10#8 = b &&& 0x10#8 ∧
    (b ||| 0x20#8) &&& 0x0f#8 = b &&& 0x0f#8 ∧ (b ||| 0x20#8) &&& 0x20#8 ≠ 0#8 ∧
    (b &&& ~~~0x20#8) >>> 6 = b >>> 6 ∧ (b &&& ~~~0x20#8) &&& 0x10#8 = b &&& 0x10#8 ∧
    (b &&& ~~~0x20#8) &&& 0x0f#8 = b &&& 0x0f#8 ∧ (b &&& ~~~0x20#8) &&& 0x20#8 = 0#8
  flag_10 : (b ||| 0x10#8) >>> 6 = b >>> 6 ∧ (b ||| 0x10#8) &&& 0x20#8 = b &&& 0x20#8 ∧
    (b ||| 0x10#8) &&& 0x0f#8 = b &&& 0x0f#8 ∧ (b ||| 0x10#8) &&& 0x10#8 ≠ 0#8
  version : (b &&& 0xf0#8) >>> 6 = b >>> 6

instance : DecidablePred FieldBits := fun b => decidable_of_iff _ (fieldBits_iff b).symm

theorem fieldBits : FieldBits b := by
  revert b
  decide +kernel

/-- The number next to a top bit is replaced. -/
theorem replace_number (b t : BitVec 8) :
    ((b &&& 0x80#8) ||| (t &&& 0x7f#8)) &&& 0x80#8 = b &&& 0x80#8 ∧
      ((b &&& 0x80#8) ||| (t &&& 0x7f#8)) &&& 0x7f#8 = t &&& 0x7f#8 := by
  rw [BitVec.and_or_distrib_right, BitVec.and_or_distrib_right, BitVec.and_assoc,
    BitVec.and_assoc, BitVec.and_assoc, BitVec.and_assoc]
  simp

/-- The count in the low half of a byte is replaced. -/
theorem replace_count (n : Fin 16) :
    ((b &&& 0xf0#8) ||| BitVec.ofNat 8 n.val) >>> 6 = b >>> 6 ∧
      ((b &&& 0xf0#8) ||| BitVec.ofNat 8 n.val) &&& 0x20#8 = b &&& 0x20#8 ∧
      ((b &&& 0xf0#8) ||| BitVec.ofNat 8 n.val) &&& 0x10#8 = b &&& 0x10#8 ∧
      (((b &&& 0xf0#8) ||| BitVec.ofNat 8 n.val) &&& 0x0f#8).toNat = n.val := by
  have hlow : ∀ n : Fin 16, BitVec.ofNat 8 n.val >>> 6 = 0#8 ∧
      BitVec.ofNat 8 n.val &&& 0x20#8 = 0#8 ∧ BitVec.ofNat 8 n.val &&& 0x10#8 = 0#8 ∧
      (BitVec.ofNat 8 n.val &&& 0x0f#8).toNat = n.val := by
    decide
  obtain ⟨h6, h20, h10, h0f⟩ := hlow n
  rw [BitVec.ushiftRight_or_distrib, h6, (fieldBits b).version, BitVec.and_or_distrib_right,
    BitVec.and_or_distrib_right, BitVec.and_or_distrib_right, h20, h10, BitVec.and_assoc,
    BitVec.and_assoc, BitVec.and_assoc]
  simpa using h0f

/-- A version of two bits in front of a count of five. -/
theorem version_count : b.toNat < 32 → (0x80#8 ||| b) >>> 6 = 2#8 ∧
    (0x80#8 ||| b) &&& 0x20#8 = 0#8 ∧ (0x80#8 ||| b) &&& 0x1f#8 = b := by
  revert b
  decide +kernel

end WebRtc.ByteMasks
