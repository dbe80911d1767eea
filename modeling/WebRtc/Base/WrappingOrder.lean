import Mathlib.Data.BitVec
import Mathlib.Order.RelIso.Basic
import WebRtc.Base.ModOps
import WebRtc.Base.SequenceNumber

/-! The order of wrapping numbers that the comparators of `sequence_number_util.h` sort by, for a
modulus and for the whole range of an unsigned type. -/

namespace WebRtc.SequenceNumber

variable {w : Nat}

/-- `MinDiff<T>(a, b)`. -/
def minDiff (a b : BitVec w) : BitVec w :=
  if forwardDiff a b ≤ reverseDiff a b then forwardDiff a b else reverseDiff a b

/-- `AheadOf<T>(a, b)` for a type that is promoted to `int`, where `a - b` does not wrap. -/
def aheadOfPromoted (a b : BitVec w) : Bool :=
  a != b && if (a.toNat : Int) - b.toNat = (maxDist w).toNat then decide (b < a)
    else decide (forwardDiff b a < maxDist w)

end WebRtc.SequenceNumber

namespace WebRtc.WrappingOrder
open ModOps

variable {α : Type} {m o a b w : Nat}

/-- `AscendingSeqNumComp`, for the `AheadOf` of its type and modulus. -/
def ascendingSeqNumComp (aheadOf : α → α → Bool) (a b : α) : Bool := aheadOf a b

def descendingSeqNumComp (aheadOf : α → α → Bool) (a b : α) : Bool := aheadOf b a

/-- Any two numbers are ordered one way; on a set that lies less than half a turn ahead of `o` the
comparators are strict total orders, given by the forward distance from `o`. -/
structure Ordered (valid : α → Prop) (aheadOf : α → α → Bool) (distance : α → α → Nat) (m : Nat) :
    Prop where
  irrefl : ∀ a, aheadOf a a = false
  swap : ∀ a b, valid a → valid b → a ≠ b → aheadOf b a = !aheadOf a b
  reverse : ∀ a b, descendingSeqNumComp aheadOf a b = ascendingSeqNumComp aheadOf b a
  window : ∀ (s : Set α) (o : α), valid o → (∀ a ∈ s, valid a ∧ 2 * distance o a < m) →
    (∀ a ∈ s, ∀ b ∈ s, ascendingSeqNumComp aheadOf a b ↔ distance o b < distance o a) ∧
      IsStrictTotalOrder s (fun a b => ascendingSeqNumComp aheadOf a b) ∧
      IsStrictTotalOrder s (fun a b => descendingSeqNumComp aheadOf a b)

theorem forwardDiff_inj (ha : a < m) (hb : b < m) (ho : o < m)
    (h : forwardDiff m o a = forwardDiff m o b) : a = b := by
  unfold forwardDiff at h
  split at h <;> split at h <;> omega

theorem aheadOf_iff_distance (ha : a < m) (hb : b < m) (ho : o < m)
    (h₁ : 2 * forwardDiff m o a < m) (h₂ : 2 * forwardDiff m o b < m) :
    aheadOf m a b ↔ forwardDiff m o b < forwardDiff m o a := by
  simp only [aheadOf, aheadOrAt, minDiff, reverseDiff, forwardDiff] at *
  grind

theorem aheadOf_swap (ha : a < m) (hb : b < m) (hne : a ≠ b) : aheadOf m b a = !aheadOf m a b := by
  simp only [aheadOf, aheadOrAt, minDiff, reverseDiff, forwardDiff]
  grind

theorem toNat_forwardDiff (a b : BitVec w) :
    (SequenceNumber.forwardDiff a b).toNat = forwardDiff (2 ^ w) a.toNat b.toNat := by
  have := a.isLt
  have := b.isLt
  simp only [SequenceNumber.forwardDiff, forwardDiff, BitVec.toNat_sub]
  split
  · rw [Nat.mod_eq_sub_mod (by omega), Nat.mod_eq_of_lt (by omega)]
    omega
  · rw [Nat.mod_eq_of_lt (by omega)]
    omega

theorem aheadOf_eq (hw : 0 < w) (a b : BitVec w) :
    SequenceNumber.aheadOf a b = aheadOf (2 ^ w) a.toNat b.toNat ∧
      SequenceNumber.aheadOfPromoted a b = SequenceNumber.aheadOf a b := by
  have hpos := Nat.two_pow_pos w
  have heven : 2 ^ w % 2 = 0 := Nat.mod_eq_zero_of_dvd (dvd_pow_self 2 hw.ne')
  have hmax : (SequenceNumber.maxDist w).toNat = 2 ^ w / 2 := by
    rw [SequenceNumber.maxDist, BitVec.toNat_ofNat, Nat.mod_eq_of_lt (by omega)]
    omega
  have hsub : (a - b).toNat = forwardDiff (2 ^ w) b.toNat a.toNat := toNat_forwardDiff b a
  have ha := a.isLt
  have hb := b.isLt
  rw [Bool.eq_iff_iff, Bool.eq_iff_iff]
  simp only [SequenceNumber.aheadOf, SequenceNumber.aheadOfPromoted, SequenceNumber.aheadOrAt,
    SequenceNumber.forwardDiff, ← BitVec.toNat_inj, BitVec.lt_def, hsub,
    hmax, Bool.and_eq_true, bne_iff_ne, ne_eq]
  simp only [aheadOf, aheadOrAt, minDiff, reverseDiff, forwardDiff]
  generalize 2 ^ w = n at *
  constructor <;> grind

theorem ordered_of_distance {valid : α → Prop} {ahead : α → α → Bool} {distance : α → α → Nat}
    (hself : ∀ a, ahead a a = false)
    (hswap : ∀ a b, valid a → valid b → a ≠ b → ahead b a = !ahead a b)
    (hinj : ∀ o a b, valid o → valid a → valid b → distance o a = distance o b → a = b)
    (h : ∀ o a b, valid o → valid a → valid b → 2 * distance o a < m → 2 * distance o b < m →
      (ahead a b ↔ distance o b < distance o a)) : Ordered valid ahead distance m where
  irrefl := hself
  swap := hswap
  reverse _ _ := rfl
  window s o ho hs := by
    have hahead : ∀ a ∈ s, ∀ b ∈ s, ahead a b ↔ distance o b < distance o a := fun a ha b hb =>
      h o a b ho (hs a ha).1 (hs b hb).1 (hs a ha).2 (hs b hb).2
    have hemb : Function.Injective fun a : s => distance o a := fun a b hab =>
      Subtype.ext (hinj o a b ho (hs a a.2).1 (hs b b.2).1 hab)
    refine ⟨hahead, ?_, ?_⟩
    · exact RelEmbedding.isStrictTotalOrder (s := fun x y : Nat => y < x)
        ⟨⟨_, hemb⟩, fun {a b} => (hahead a a.2 b b.2).symm⟩
    · exact RelEmbedding.isStrictTotalOrder (s := fun x y : Nat => x < y)
        ⟨⟨_, hemb⟩, fun {a b} => (hahead b b.2 a a.2).symm⟩

/-- **Wrapping order.** For every modulus and for the whole range of every unsigned type, promoted
or not: the comparators are orders on every window of less than half a turn, and the differences
lead from one number to the other. -/
theorem wrapping_order :
    (∀ m, 2 ≤ m → Ordered (· < m) (aheadOf m) (forwardDiff m) m ∧
      ∀ a b, a < m → b < m → add m a (forwardDiff m a b) = b ∧
        subtract m a (reverseDiff m a b) = b ∧
        minDiff m a b = min (forwardDiff m a b) (reverseDiff m a b)) ∧
    ∀ w, 0 < w →
      Ordered (fun _ : BitVec w => True) SequenceNumber.aheadOf
        (fun a b => (SequenceNumber.forwardDiff a b).toNat) (2 ^ w) ∧
      ∀ a b : BitVec w, SequenceNumber.aheadOfPromoted a b = SequenceNumber.aheadOf a b ∧
        a + SequenceNumber.forwardDiff a b = b ∧ a - SequenceNumber.reverseDiff a b = b ∧
        (SequenceNumber.minDiff a b).toNat =
          min (SequenceNumber.forwardDiff a b).toNat (SequenceNumber.reverseDiff a b).toNat := by
  refine ⟨fun m hm => ⟨?_, fun a b ha hb => ⟨?_, ?_, rfl⟩⟩, fun w hw => ⟨?_, fun a b => ?_⟩⟩
  · exact ordered_of_distance (fun a => by simp [aheadOf]) (fun _ _ => aheadOf_swap)
      (fun _ _ _ ho ha hb => forwardDiff_inj ha hb ho)
      fun _ _ _ ho ha hb => aheadOf_iff_distance ha hb ho
  · have hmod : forwardDiff m a b % m = forwardDiff m a b :=
      Nat.mod_eq_of_lt (by unfold forwardDiff; split <;> omega)
    simp only [add, hmod]
    simp only [forwardDiff]
    split <;> split <;> omega
  · have hmod : reverseDiff m a b % m = reverseDiff m a b :=
      Nat.mod_eq_of_lt (by unfold reverseDiff; split <;> omega)
    simp only [subtract, hmod]
    simp only [reverseDiff]
    split <;> split <;> omega
  · refine ordered_of_distance (fun a => by simp [SequenceNumber.aheadOf]) ?_ ?_ ?_
    · intro a b _ _ hne
      rw [(aheadOf_eq hw a b).1, (aheadOf_eq hw b a).1]
      exact aheadOf_swap a.isLt b.isLt (mt BitVec.eq_of_toNat_eq hne)
    · intro o a b _ _ _ h
      rw [toNat_forwardDiff, toNat_forwardDiff] at h
      exact BitVec.eq_of_toNat_eq (forwardDiff_inj a.isLt b.isLt o.isLt h)
    · intro o a b _ _ _
      rw [toNat_forwardDiff, toNat_forwardDiff, (aheadOf_eq hw a b).1]
      exact aheadOf_iff_distance a.isLt b.isLt o.isLt
  · refine ⟨(aheadOf_eq hw a b).2, ?_, ?_, ?_⟩
    · exact add_sub_cancel a b
    · exact sub_sub_cancel a b
    · unfold SequenceNumber.minDiff
      split
      · exact (Nat.min_eq_left ‹_›).symm
      · exact (Nat.min_eq_right (Nat.le_of_not_le ‹_›)).symm

end WebRtc.WrappingOrder
