import Mathlib.Algebra.BigOperators.Ring.Nat

/-! The templates of `webrtc/base/mod_ops.h` and `sequence_number_util.h` that take the modulus `M`
as a parameter. Numbers are natural numbers; the templates ask that they are below `M`. -/

namespace WebRtc.ModOps

/-- `Add<M>(a, b)`. -/
def add (m a b : Nat) : Nat :=
  let t := m - b % m
  if t > a then a + m - t else a - t

/-- `Subtract<M>(a, b)`. -/
def subtract (m a b : Nat) : Nat :=
  let sub := b % m
  if a < sub then m - (sub - a) else a - sub

/-- `ForwardDiff<T, M>(a, b)`. -/
def forwardDiff (m a b : Nat) : Nat := if a ≤ b then b - a else m - (a - b)

/-- `ReverseDiff<T, M>(a, b)`. -/
def reverseDiff (m a b : Nat) : Nat := if b ≤ a then a - b else m - (b - a)

/-- `MinDiff<T, M>(a, b)`. -/
def minDiff (m a b : Nat) : Nat := min (forwardDiff m a b) (reverseDiff m a b)

/-- `AheadOrAt<T, M>(a, b)`. -/
def aheadOrAt (m a b : Nat) : Bool :=
  if m % 2 = 0 ∧ minDiff m a b = m / 2 then decide (b < a)
  else decide (forwardDiff m b a ≤ m / 2)

/-- `AheadOf<T, M>(a, b)`. -/
def aheadOf (m a b : Nat) : Bool := a != b && aheadOrAt m a b

theorem add_lt {m a : Nat} (b : Nat) (ha : a < m) : add m a b < m := by
  unfold add
  dsimp only
  split <;> omega

theorem add_one_eq {m a : Nat} (hm : 1 < m) (ha : a < m) :
    add m a 1 = if a + 1 = m then 0 else a + 1 := by
  unfold add
  dsimp only
  rw [Nat.mod_eq_of_lt hm]
  split <;> split <;> omega

/-- One step forward brings a number one closer to any other. -/
theorem forwardDiff_add_one {m a b : Nat} (ha : a < m) (hb : b < m) (hne : a ≠ b) :
    forwardDiff m (add m a 1) b + 1 = forwardDiff m a b := by
  rw [add_one_eq (by omega) ha]
  unfold forwardDiff
  split <;> split <;> split <;> omega

/-- A number less than half a turn ahead. -/
theorem ahead_of_near {m a b : Nat} (ha : a < m) (hne : a ≠ b) (h : 2 * forwardDiff m a b < m) :
    aheadOf m b a ∧ minDiff m a b = forwardDiff m a b := by
  simp only [aheadOf, aheadOrAt, minDiff, reverseDiff, forwardDiff] at *
  grind

/-- A number less than half a turn behind. -/
theorem behind_of_near {m a b : Nat} (ha : a < m) (hb : b < m) (h : 2 * forwardDiff m b a < m) :
    aheadOf m b a = false ∧ minDiff m a b = forwardDiff m b a := by
  simp only [aheadOf, aheadOrAt, minDiff, reverseDiff, forwardDiff] at *
  grind

end WebRtc.ModOps
