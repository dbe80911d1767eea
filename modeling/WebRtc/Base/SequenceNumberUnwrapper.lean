import WebRtc.Base.SequenceNumber

/-! `SequenceNumberUnwrapper` (`module_common_types.h`). An `int64_t` is an `Int`. -/

namespace WebRtc.SequenceNumber
open BitVec

variable {u : SequenceNumberUnwrapper}

structure SequenceNumberUnwrapper where
  lastSeq : Int := -1
  deriving DecidableEq, Repr

namespace SequenceNumberUnwrapper

/-- `UnwrapWithoutUpdate(sequence_number)`. -/
def unwrapWithoutUpdate (u : SequenceNumberUnwrapper) (sequenceNumber : BitVec 16) : Int :=
  if u.lastSeq = -1 then sequenceNumber.toNat
  else
    let croppedLast := BitVec.ofInt 16 u.lastSeq
    let delta : Int := sequenceNumber.toNat - croppedLast.toNat
    let delta :=
      if isNewerSequenceNumber sequenceNumber croppedLast then
        if delta < 0 then delta + 65536 else delta
      else if delta > 0 ∧ u.lastSeq + delta - 65536 ≥ 0 then delta - 65536
      else delta
    u.lastSeq + delta

/-- `Unwrap(sequence_number)`: the unwrapped number, which is the last one from now on. -/
def unwrap (u : SequenceNumberUnwrapper) (sequenceNumber : BitVec 16) :
    SequenceNumberUnwrapper × Int :=
  (⟨u.unwrapWithoutUpdate sequenceNumber⟩, u.unwrapWithoutUpdate sequenceNumber)

end SequenceNumberUnwrapper

/-- The 16-bit number of an unwrapped one. -/
def wrapped (seq : Int) : BitVec 16 := BitVec.ofInt 16 seq

theorem toNat_wrapped (seq : Int) : ((wrapped seq).toNat : Int) = seq % 65536 := by
  unfold wrapped
  rw [toNat_ofInt]
  omega

/-- Which of two numbers less than a turn apart is newer. -/
theorem isNewer_wrapped_iff {p k : Int} (h : p < k) (hk : k < p + 65536) :
    isNewerSequenceNumber (wrapped k) (wrapped p) ↔
      k - p < 32768 ∨ (k - p = 32768 ∧ p % 65536 < 32768) := by
  have hp := toNat_wrapped p
  have hk' := toNat_wrapped k
  have hd : ((wrapped k - wrapped p).toNat : Int) = k - p := by
    rw [toNat_sub]
    omega
  rw [isNewer_iff]
  omega

namespace SequenceNumberUnwrapper

/-- The step from the last number to the unwrapped one. -/
theorem unwrap_cases (h : 0 ≤ u.lastSeq) (n : BitVec 16) : let r := u.unwrapWithoutUpdate n
    r % 65536 = n.toNat ∧ 0 ≤ r ∧
      (isNewerSequenceNumber n (wrapped u.lastSeq) ∧ u.lastSeq < r ∧ r < u.lastSeq + 65536 ∨
        isNewerSequenceNumber n (wrapped u.lastSeq) = false ∧
          u.lastSeq - 65536 < r ∧ r ≤ u.lastSeq ∨
        isNewerSequenceNumber n (wrapped u.lastSeq) = false ∧ u.lastSeq < r ∧ r < 65536) := by
  have hlast := toNat_wrapped u.lastSeq
  have hw : BitVec.ofInt 16 u.lastSeq = wrapped u.lastSeq := rfl
  have hself : isNewerSequenceNumber n (wrapped u.lastSeq) →
      n.toNat ≠ (wrapped u.lastSeq).toNat := by
    intro hnew he
    rw [eq_of_toNat_eq he, isNewerSequenceNumber_eq_aheadOf, aheadOf_irrefl] at hnew
    cases hnew
  unfold unwrapWithoutUpdate
  rw [if_neg (by omega)]
  dsimp only
  rw [hw]
  cases hnew : isNewerSequenceNumber n (wrapped u.lastSeq) with
  | true =>
    have hne := hself hnew
    rw [if_pos rfl]
    split
    · exact ⟨by omega, by omega, .inl ⟨rfl, by omega, by omega⟩⟩
    · exact ⟨by omega, by omega, .inl ⟨rfl, by omega, by omega⟩⟩
  | false =>
    rw [if_neg Bool.false_ne_true]
    split
    · exact ⟨by omega, by omega, .inr (.inl ⟨rfl, by omega, by omega⟩)⟩
    by_cases hd : (n.toNat : Int) - (wrapped u.lastSeq).toNat > 0
    · exact ⟨by omega, by omega, .inr (.inr ⟨rfl, by omega, by omega⟩)⟩
    · exact ⟨by omega, by omega, .inr (.inl ⟨rfl, by omega, by omega⟩)⟩

theorem wrapped_of_mod {r : Int} {n : BitVec 16} (h : r % 65536 = n.toNat) : wrapped r = n := by
  apply eq_of_toNat_eq
  have := toNat_wrapped r
  omega

theorem unwrap_first (h : u.lastSeq = -1) (n : BitVec 16) : u.unwrapWithoutUpdate n = n.toNat :=
    if_pos h

/-- An unwrapped number is not negative and has the 16 bits it came from. -/
theorem unwrap_spec (h : -1 ≤ u.lastSeq) (n : BitVec 16) :
    wrapped (u.unwrapWithoutUpdate n) = n ∧ 0 ≤ u.unwrapWithoutUpdate n := by
  by_cases hu : u.lastSeq = -1
  · rw [unwrap_first hu]
    exact ⟨wrapped_of_mod (by omega), by omega⟩
  · obtain ⟨hmod, hnonneg, _⟩ := unwrap_cases (u := u) (by omega) n
    exact ⟨wrapped_of_mod hmod, hnonneg⟩

/-- A number unwrapped to one behind the last is at most half a turn behind it, and at exactly half
a turn it is the last one that counts as newer. -/
theorem isNewer_of_unwrap_lt (h : 0 ≤ u.lastSeq) {n : BitVec 16}
    (hlt : u.unwrapWithoutUpdate n < u.lastSeq) : u.lastSeq - u.unwrapWithoutUpdate n < 32768 ∨
      (u.lastSeq - u.unwrapWithoutUpdate n = 32768 ∧ u.unwrapWithoutUpdate n % 65536 < 32768) := by
  obtain ⟨hmod, _, hcases⟩ := unwrap_cases h n
  have hold : isNewerSequenceNumber n (wrapped u.lastSeq) = false ∧
      u.lastSeq - 65536 < u.unwrapWithoutUpdate n := by
    rcases hcases with hc | hc | hc
    · omega
    · exact ⟨hc.1, hc.2.1⟩
    · omega
  rw [← isNewer_wrapped_iff hlt (by omega), wrapped_of_mod hmod]
  have hne : n ≠ wrapped u.lastSeq := by
    intro he
    have := toNat_wrapped u.lastSeq
    rw [← he] at this
    omega
  rw [isNewerSequenceNumber_eq_aheadOf, aheadOf_swap n _ hne, ← isNewerSequenceNumber_eq_aheadOf,
    hold.1]
  rfl

/-- A true number less than half a turn from the last one is unwrapped to itself. -/
theorem unwrap_wrapped {t : Int} (h : 0 ≤ u.lastSeq) (ht : 0 ≤ t)
    (hnear : t - u.lastSeq < 32768 ∧ u.lastSeq - t < 32768) :
    u.unwrapWithoutUpdate (wrapped t) = t := by
  obtain ⟨hmod, hnonneg, hcases⟩ := unwrap_cases h (wrapped t)
  rw [toNat_wrapped] at hmod
  by_cases hgt : u.lastSeq < t
  · have hnew := (isNewer_wrapped_iff hgt (by omega)).mpr (.inl hnear.1)
    rcases hcases with hc | hc | hc
    · omega
    · exact absurd hnew (by rw [hc.1]; exact Bool.false_ne_true)
    · exact absurd hnew (by rw [hc.1]; exact Bool.false_ne_true)
  have hold : isNewerSequenceNumber (wrapped t) (wrapped u.lastSeq) = false := by
    rw [isNewerSequenceNumber_eq_aheadOf]
    by_cases he : t = u.lastSeq
    · rw [he, aheadOf_irrefl]
    have hnew := (isNewer_wrapped_iff (p := t) (k := u.lastSeq) (by omega) (by omega)).mpr
      (.inl hnear.2)
    rw [isNewerSequenceNumber_eq_aheadOf] at hnew
    have hne : wrapped u.lastSeq ≠ wrapped t := by
      intro hw
      have h1 := toNat_wrapped u.lastSeq
      have h2 := toNat_wrapped t
      rw [hw] at h1
      omega
    rw [aheadOf_swap _ _ hne, hnew]
    rfl
  rcases hcases with hc | hc | hc
  · exact absurd hc.1 (by rw [hold]; exact Bool.false_ne_true)
  · omega
  · -- past the floor at zero the number would be below one turn
    omega

end SequenceNumberUnwrapper

end WebRtc.SequenceNumber
