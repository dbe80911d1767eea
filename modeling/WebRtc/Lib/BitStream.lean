import Mathlib.Algebra.BigOperators.Ring.Nat

/-! Streams of bits, most significant bit first: the bits of a number, the number of a list of
bits, and the bits of a list of bytes. -/

namespace WebRtc.BitStream
open List

/-- The lowest `n` bits of a number. -/
def bits : Nat → Nat → List Bool
  | 0, _ => []
  | n + 1, v => v.testBit n :: bits n v

/-- The number that bits stand for. -/
def ofBits (l : List Bool) : Nat := l.foldl (fun n b => 2 * n + b.toNat) 0

@[simp] theorem length_bits (n v : Nat) : (bits n v).length = n := by
  induction n with
  | zero => rfl
  | succ n ih => simp [bits, ih]

@[simp] theorem ofBits_nil : ofBits [] = 0 := rfl

variable (l : List Bool)

theorem foldl_bits (n : Nat) :
    l.foldl (fun n b => 2 * n + b.toNat) n = n * 2 ^ l.length + ofBits l := by
  induction l generalizing n with
  | nil => simp
  | cons b l ih =>
    have hdouble : 2 * n * 2 ^ l.length = n * (2 ^ l.length * 2) := by
      rw [Nat.mul_comm 2 n, Nat.mul_assoc, Nat.mul_comm 2]
    rw [ofBits, foldl_cons, foldl_cons, ih, ih (2 * 0 + _), length_cons,
      Nat.pow_succ, Nat.add_mul, Nat.mul_zero, Nat.zero_add, hdouble, Nat.add_assoc]

theorem ofBits_append (l m : List Bool) : ofBits (l ++ m) = ofBits l * 2 ^ m.length + ofBits m := by
  rw [ofBits, foldl_append, foldl_bits]
  rfl

theorem ofBits_cons (b : Bool) (l : List Bool) :
    ofBits (b :: l) = b.toNat * 2 ^ l.length + ofBits l := by
  simpa [ofBits] using foldl_bits l b.toNat

theorem ofBits_lt : ofBits l < 2 ^ l.length := by
  induction l with
  | nil => simp
  | cons b l ih =>
    have hb : b.toNat ≤ 1 := Bool.toNat_le b
    have hle : b.toNat * 2 ^ l.length ≤ 1 * 2 ^ l.length := Nat.mul_le_mul_right _ hb
    rw [ofBits_cons, length_cons, Nat.pow_succ]
    omega

theorem ofBits_bits (n v : Nat) : ofBits (bits n v) = v % 2 ^ n := by
  induction n with
  | zero => simp [bits, Nat.mod_one]
  | succ n ih =>
    rw [bits, ofBits_cons, length_bits, ih, Nat.mod_pow_succ, Nat.toNat_testBit, Nat.mul_comm,
      Nat.add_comm]

/-- Only the lowest bits count. -/
theorem bits_congr {n v w : Nat} (h : v % 2 ^ n = w % 2 ^ n) : bits n v = bits n w := by
  induction n with
  | zero => rfl
  | succ n ih =>
    have hbit : v.testBit n = w.testBit n := by
      have := congrArg (fun x => x.testBit n) h
      simpa [Nat.testBit_mod_two_pow] using this
    have hlow : v % 2 ^ n = w % 2 ^ n := by
      have := congrArg (· % 2 ^ n) h
      simpa [Nat.mod_mod_of_dvd _ (Nat.pow_dvd_pow 2 (Nat.le_succ n))] using this
    rw [bits, bits, hbit, ih hlow]

theorem bits_append (n m v : Nat) : bits (n + m) v = bits n (v / 2 ^ m) ++ bits m v := by
  induction n with
  | zero => simp [bits]
  | succ n ih =>
    rw [Nat.succ_add, bits, ih, bits, cons_append, Nat.testBit_div_two_pow]

theorem bits_ofBits : bits l.length (ofBits l) = l := by
  induction l with
  | nil => rfl
  | cons b l ih =>
    have hlt := ofBits_lt l
    have htop : (ofBits (b :: l)).testBit l.length = b := by
      rw [ofBits_cons, Nat.mul_comm, Nat.testBit_two_pow_mul_add _ hlt]
      cases b <;> simp
    have hlow : bits l.length (ofBits (b :: l)) = bits l.length (ofBits l) :=
      bits_congr (by rw [ofBits_cons, Nat.mul_add_mod_self_right])
    rw [length_cons, bits, htop, hlow, ih]

theorem take_bits {k n : Nat} (h : k ≤ n) (v : Nat) :
    (bits n v).take k = bits k (v / 2 ^ (n - k)) := by
  obtain ⟨m, rfl⟩ := Nat.exists_eq_add_of_le h
  rw [bits_append, Nat.add_sub_cancel_left]
  exact take_left' (length_bits _ _)

theorem drop_bits {k n : Nat} (h : k ≤ n) (v : Nat) : (bits n v).drop k = bits (n - k) v := by
  obtain ⟨m, rfl⟩ := Nat.exists_eq_add_of_le h
  rw [bits_append, Nat.add_sub_cancel_left]
  exact drop_left' (length_bits _ _)

theorem getElem_bits (n v : Nat) {i : Nat} (hi : i < (bits n v).length) :
    (bits n v)[i] = v.testBit (n - 1 - i) := by
  induction n generalizing i with
  | zero => simp at hi
  | succ n ih =>
    cases i with
    | zero => simp [bits]
    | succ i =>
      have hn : n - 1 - i = n - (i + 1) := by omega
      have htail := ih (i := i) (by simpa [bits] using hi)
      rw [hn] at htail
      simpa [bits] using htail

@[simp] theorem bits_zero (n : Nat) : bits n 0 = replicate n false := by
  induction n with
  | zero => rfl
  | succ n ih => simp [bits, ih, replicate_succ]

/-! ## Bytes -/

/-- The bits of a list of bytes. -/
def ofBytes (bytes : List (BitVec 8)) : List Bool := bytes.flatMap fun b => bits 8 b.toNat

@[simp] theorem ofBytes_nil : ofBytes [] = [] := rfl

@[simp] theorem ofBytes_cons (b : BitVec 8) (bytes : List (BitVec 8)) :
    ofBytes (b :: bytes) = bits 8 b.toNat ++ ofBytes bytes := rfl

theorem ofBytes_append (l m : List (BitVec 8)) : ofBytes (l ++ m) = ofBytes l ++ ofBytes m :=
  flatMap_append

@[simp] theorem length_ofBytes (bytes : List (BitVec 8)) :
    (ofBytes bytes).length = 8 * bytes.length := by
  induction bytes with
  | nil => rfl
  | cons b bytes ih => simp [ih]; omega

theorem drop_ofBytes (bytes : List (BitVec 8)) (k : Nat) :
    (ofBytes bytes).drop (8 * k) = ofBytes (bytes.drop k) := by
  induction bytes generalizing k with
  | nil => simp
  | cons b bytes ih =>
    cases k with
    | zero => rfl
    | succ k =>
      rw [ofBytes_cons, Nat.mul_succ, Nat.add_comm, ← drop_drop,
        drop_left' (length_bits _ _), ih, drop_succ_cons]

theorem take_ofBytes (bytes : List (BitVec 8)) (k : Nat) :
    (ofBytes bytes).take (8 * k) = ofBytes (bytes.take k) := by
  induction bytes generalizing k with
  | nil => simp
  | cons b bytes ih =>
    cases k with
    | zero => rfl
    | succ k =>
      rw [ofBytes_cons, take_succ_cons, ofBytes_cons, Nat.mul_succ, Nat.add_comm,
        take_append, length_bits, Nat.add_sub_cancel_left, ih, take_of_length_le (by simp)]

end WebRtc.BitStream
