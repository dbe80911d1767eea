import WebRtc.Lib.BitStream
import WebRtc.Base.BitBuffer

/-! What the readers of `rtc::BitBuffer` do to the stream of bits in front of them: a field takes
its bits off the front, an exponential Golomb code is the one code of its value. -/

namespace WebRtc.Bits

open BitStream List

variable {n k : Nat} {b b' : BitBuffer} {v : BitVec 32}

namespace BitBuffer

/-- The position as a number of bits. -/
def position (b : BitBuffer) : Nat := 8 * b.byteOffset + b.bitOffset.val

/-- The bits that are left to read. -/
def rest (b : BitBuffer) : List Bool := (ofBytes b.bytes).drop b.position

/-- The bits behind the position. -/
def past (b : BitBuffer) : List Bool := (ofBytes b.bytes).take b.position

theorem bitOffset_advance (b : BitBuffer) (n : Nat) : (b.bitOffset.val + n) % 8 < 8 :=
  Nat.mod_lt _ (by decide)

/-- The buffer with its position moved on by `n` bits. -/
def advance (n : Nat) (b : BitBuffer) : BitBuffer :=
  { b with
    byteOffset := b.byteOffset + (b.bitOffset.val + n) / 8
    bitOffset := ⟨(b.bitOffset.val + n) % 8, bitOffset_advance b n⟩ }

@[simp] theorem bytes_advance (n : Nat) (b : BitBuffer) : (b.advance n).bytes = b.bytes := rfl

@[simp] theorem position_advance (n : Nat) (b : BitBuffer) :
    (b.advance n).position = b.position + n := by
  simp only [position, advance]
  omega

theorem rest_advance (n : Nat) (b : BitBuffer) : (b.advance n).rest = b.rest.drop n := by
  rw [rest, rest, drop_drop, position_advance, bytes_advance]

theorem rest_advance_of_append {p r : List Bool} (h : b.rest = p ++ r)
    (hp : p.length = n) : (b.advance n).rest = r := by
  rw [rest_advance, h, drop_left' hp]

/-- The position is one number. -/
theorem eq_of_position {c : BitBuffer} (hbytes : b.bytes = c.bytes)
    (hposition : b.position = c.position) : b = c := by
  obtain ⟨_, byteOffset, bitOffset⟩ := b
  obtain ⟨_, byteOffset', bitOffset'⟩ := c
  simp only [position] at hbytes hposition
  have hbyte : byteOffset = byteOffset' := by omega
  have hbit : bitOffset = bitOffset' := by
    apply Fin.ext
    omega
  rw [hbytes, hbyte, hbit]

theorem advance_advance (m n : Nat) (b : BitBuffer) : (b.advance m).advance n = b.advance (m + n) :=
  eq_of_position rfl (by simp only [position_advance]; omega)

@[simp] theorem bytes_start (bytes : List Byte) : (start bytes).bytes = bytes := rfl

@[simp] theorem rest_start (bytes : List Byte) : rest (start bytes) = ofBytes bytes := rfl

theorem advance_zero (b : BitBuffer) : b.advance 0 = b := eq_of_position rfl (by simp)

end BitBuffer

open BitBuffer

theorem remainingBitCount_eq (b : BitBuffer) : remainingBitCount b = b.rest.length := by
  simp only [remainingBitCount, rest, position, length_drop, length_ofBytes]
  omega

theorem consumeBits_eq (n : Nat) (b : BitBuffer) :
    consumeBits n b = if n ≤ b.rest.length then some ((), b.advance n) else none := by
  rw [consumeBits, remainingBitCount_eq]
  by_cases h : n ≤ b.rest.length
  · rw [if_neg (Nat.not_lt.mpr h), if_pos h]
    rfl
  · rw [if_pos (Nat.lt_of_not_le h), if_neg h]

theorem seek_eq {byteOffset bitOffset : Nat} (hbit : bitOffset < 8)
    (hbyte : byteOffset < b.bytes.length) : seek byteOffset bitOffset b =
      some { b with byteOffset := byteOffset, bitOffset := ⟨bitOffset, hbit⟩ } := by
  rw [seek, dif_pos hbit, if_neg (by omega)]

/-! ## Fields -/

variable (byte : Byte)

theorem toNat_setWidth_byte : (byte.setWidth 32).toNat = byte.toNat := by
  rw [BitVec.toNat_setWidth]
  exact Nat.mod_eq_of_lt (by omega)

theorem toNat_lowestBits (hk : k ≤ 8) :
    (lowestBits byte k).toNat = byte.toNat % 2 ^ k := by
  have hp : 2 ^ k ≤ 2 ^ 8 := Nat.pow_le_pow_right (by decide) hk
  rw [lowestBits, BitVec.toNat_and, BitVec.toNat_ofNat, Nat.mod_eq_of_lt (by omega),
    Nat.and_two_pow_sub_one_eq_mod]

theorem toNat_highestBits (hk : k ≤ 8) :
    (highestBits byte k).toNat = byte.toNat / 2 ^ (8 - k) := by
  have hmask : ∀ (j : Fin 9) (x : Byte), ((x &&& (0xFF#8 <<< (8 - j.val))) >>> (8 - j.val)).toNat =
      x.toNat / 2 ^ (8 - j.val) := by decide +kernel
  exact hmask ⟨k, by omega⟩ byte

/-- What the first byte of a field gives. -/
theorem rest_eq (b : BitBuffer) {byte : Byte} {bytes : List Byte}
    (h : b.bytes.drop b.byteOffset = byte :: bytes) :
    b.rest = bits (8 - b.bitOffset.val) byte.toNat ++ ofBytes bytes := by
  rw [rest, position, ← drop_drop, drop_ofBytes, h, ofBytes_cons,
    drop_append_of_le_length (by simp), drop_bits (by omega)]

theorem shift_or_toNat {x y : BitVec 32} {i : Nat} (hx : x.toNat < 2 ^ i) (hik : i + k ≤ 32)
    (hy : y.toNat < 2 ^ k) : ((x <<< k) ||| y).toNat = x.toNat * 2 ^ k + y.toNat := by
  have hlt : x.toNat * 2 ^ k < 2 ^ 32 := by
    calc x.toNat * 2 ^ k < 2 ^ i * 2 ^ k := Nat.mul_lt_mul_of_pos_right hx (Nat.two_pow_pos k)
      _ = 2 ^ (i + k) := (Nat.pow_add 2 i k).symm
      _ ≤ 2 ^ 32 := Nat.pow_le_pow_right (by decide) hik
  rw [BitVec.toNat_or, BitVec.toNat_shiftLeft, Nat.shiftLeft_eq, Nat.mod_eq_of_lt hlt,
    Nat.mul_comm, Nat.two_pow_add_eq_or_of_lt hy]

/-- The loop over full bytes puts the bits of the field together. -/
theorem toNat_peekBytes (bytes : List Byte) {x : BitVec 32} {front : List Bool}
    (hx : x.toNat = ofBits front) (k : Nat) (hk : k ≤ 8 * bytes.length)
    (hlen : front.length + k ≤ 32) :
    (peekBytes x bytes k).toNat = ofBits (front ++ (ofBytes bytes).take k) := by
  induction bytes generalizing x front k with
  | nil =>
    simpa [peekBytes] using hx
  | cons byte bytes ih =>
    have hxlt : x.toNat < 2 ^ front.length := hx ▸ ofBits_lt front
    rw [peekBytes]
    by_cases h8 : 8 ≤ k
    · have hstep : ((x <<< 8) ||| byte.setWidth 32).toNat = ofBits (front ++ bits 8 byte.toNat) := by
        rw [shift_or_toNat hxlt (by omega) (by rw [toNat_setWidth_byte]; omega),
          toNat_setWidth_byte, ofBits_append, ofBits_bits, length_bits, hx,
          Nat.mod_eq_of_lt byte.isLt]
      have hwhole : (bits 8 byte.toNat).take k = bits 8 byte.toNat :=
        take_of_length_le (by simpa using h8)
      rw [if_pos h8, ih hstep (k - 8) (by simp at hk; omega) (by simp; omega), ofBytes_cons,
        take_append, length_bits, hwhole, append_assoc]
    · rw [if_neg h8]
      split
      · have hsmall : (highestBits byte k).toNat = byte.toNat / 2 ^ (8 - k) :=
          toNat_highestBits byte (by omega)
        have hlt : byte.toNat / 2 ^ (8 - k) < 2 ^ k := by
          rw [Nat.div_lt_iff_lt_mul (Nat.two_pow_pos _), ← Nat.pow_add]
          exact Nat.lt_of_lt_of_le byte.isLt (Nat.pow_le_pow_right (by decide) (by omega))
        rw [shift_or_toNat hxlt (by omega) (by rw [toNat_setWidth_byte, hsmall]; exact hlt),
          toNat_setWidth_byte, hsmall, ofBytes_cons, take_append_of_le_length (by simp; omega),
          take_bits (by omega), ofBits_append, ofBits_bits, length_bits, hx, Nat.mod_eq_of_lt hlt]
      · obtain rfl : k = 0 := by omega
        simpa using hx

/-- A field of `n` bits is the number of the `n` bits in front. -/
theorem peekBits_eq (b : BitBuffer) (n : Nat) : peekBits b n = if n ≤ b.rest.length ∧ n ≤ 32 then
      some (BitVec.ofNat 32 (ofBits (b.rest.take n))) else none := by
  rw [peekBits, remainingBitCount_eq]
  by_cases h : n ≤ b.rest.length ∧ n ≤ 32
  · rw [if_neg (by omega), if_pos h]
    obtain ⟨hrest, h32⟩ := h
    cases hbytes : b.bytes.drop b.byteOffset with
    | nil =>
      have hempty : b.rest = [] := by
        rw [rest, position, ← drop_drop, drop_ofBytes, hbytes]
        exact drop_nil
      rw [hempty] at hrest ⊢
      obtain rfl : n = 0 := Nat.le_zero.mp hrest
      rw [if_pos (by omega)]
      simp [lowestBits, highestBits]
    | cons byte bytes =>
      have heq := rest_eq b hbytes
      have hlow := toNat_lowestBits byte (k := 8 - b.bitOffset.val) (by omega)
      have htake : ofBits (b.rest.take n) < 2 ^ 32 :=
        Nat.lt_of_lt_of_le (ofBits_lt _) (Nat.pow_le_pow_right (by decide) (by simp; omega))
      simp only [headD_cons, tail_cons]
      split
      · next hlt =>
        refine congrArg some (BitVec.eq_of_toNat_eq ?_)
        rw [BitVec.toNat_ofNat, Nat.mod_eq_of_lt htake, toNat_setWidth_byte,
          toNat_highestBits _ (by omega), hlow, heq, take_append_of_le_length (by simp; omega),
          take_bits (by omega), ofBits_bits]
        have hpow : 2 ^ (8 - b.bitOffset.val) = 2 ^ (8 - b.bitOffset.val - n) * 2 ^ n := by
          rw [← Nat.pow_add]
          congr 1
          omega
        rw [show 8 - (b.bitOffset.val + n) = 8 - b.bitOffset.val - n by omega, hpow,
          Nat.mod_mul_right_div_self]
      · next hge =>
        refine congrArg some (BitVec.eq_of_toNat_eq ?_)
        have hfront : ((lowestBits byte (8 - b.bitOffset.val)).setWidth 32).toNat =
            ofBits (bits (8 - b.bitOffset.val) byte.toNat) := by
          rw [toNat_setWidth_byte, hlow, ofBits_bits]
        have hwhole : (bits (8 - b.bitOffset.val) byte.toNat).take n =
            bits (8 - b.bitOffset.val) byte.toNat :=
          take_of_length_le (by simp; omega)
        rw [BitVec.toNat_ofNat, Nat.mod_eq_of_lt htake, heq, take_append, length_bits, hwhole]
        refine toNat_peekBytes bytes hfront _ ?_ (by simp; omega)
        rw [heq] at hrest
        simp at hrest
        omega
  · rw [if_pos (by omega), if_neg h]

theorem readBits_eq (n : Nat) (b : BitBuffer) : readBits n b = if n ≤ b.rest.length ∧ n ≤ 32 then
      some (BitVec.ofNat 32 (ofBits (b.rest.take n)), b.advance n) else none := by
  simp only [readBits, peekBits_eq, consumeBits_eq]
  by_cases h : n ≤ b.rest.length ∧ n ≤ 32
  · simp [if_pos h, if_pos h.1]
  · simp [if_neg h]

theorem readBits_some (h : readBits n b = some (v, b')) :
    n ≤ 32 ∧ ∃ p r, b.rest = p ++ r ∧ p.length = n ∧ v = BitVec.ofNat 32 (ofBits p) ∧
      b' = b.advance n := by
  rw [readBits_eq] at h
  split at h
  · next hn =>
    cases h
    exact ⟨hn.2, b.rest.take n, b.rest.drop n, (take_append_drop _ _).symm, by simp; omega,
      rfl, rfl⟩
  · cases h

/-- A field of `bit_count` bits is below `2 ^ bit_count`. -/
theorem readBits_lt (h : readBits n b = some (v, b')) : v.toNat < 2 ^ n := by
  obtain ⟨-, p, -, -, rfl, rfl, -⟩ := readBits_some h
  exact Nat.lt_of_le_of_lt (Nat.mod_le _ _) (ofBits_lt p)

theorem readBits_ok (hn : n ≤ 32) {p r : List Bool} (hp : p.length = n) (hb : b.rest = p ++ r) :
    readBits n b = some (BitVec.ofNat 32 (ofBits p), b.advance n) := by
  rw [readBits_eq, hb, if_pos ⟨by simp; omega, hn⟩, take_left' hp]

/-! ## Exponential Golomb codes -/

/-- The code of a value: as many zeros as the number after it has bits behind its first, and the
number one above the value. -/
def golombBits (v : Nat) : List Bool :=
  List.replicate (Nat.log2 (v + 1)) false ++ bits (Nat.log2 (v + 1) + 1) (v + 1)

/-- The code starts with its first one behind the zeros. -/
theorem golombBits_eq (v : Nat) : golombBits v = replicate (Nat.log2 (v + 1)) false ++
      true :: bits (Nat.log2 (v + 1)) (v + 1) := by
  have htop : (v + 1).testBit (Nat.log2 (v + 1)) := Nat.testBit_log2 (by omega)
  rw [golombBits, bits, htop]

/-- The code whose last bits are `l`. -/
theorem golombBits_ofBits (l : List Bool) : golombBits (2 ^ l.length + ofBits l - 1) =
      replicate l.length false ++ true :: l := by
  have hlt := ofBits_lt l
  have hv : 2 ^ l.length + ofBits l - 1 + 1 = 2 ^ l.length + ofBits l := by omega
  have hlog : Nat.log2 (2 ^ l.length + ofBits l) = l.length :=
    (Nat.log2_eq_iff (by omega)).2 ⟨by omega, by rw [Nat.pow_succ]; omega⟩
  have hlow : bits l.length (2 ^ l.length + ofBits l) = l := by
    rw [bits_congr (w := ofBits l) (by simp), bits_ofBits]
  rw [golombBits_eq, hv, hlog, hlow]

@[simp] theorem length_golombBits (v : Nat) : (golombBits v).length = 2 * Nat.log2 (v + 1) + 1 := by
  simp [golombBits]
  omega

/-- The zeros at the front of a stream. -/
def leadingZeros : List Bool → Nat
  | false :: l => leadingZeros l + 1
  | _ => 0

theorem leadingZeros_le (l : List Bool) : leadingZeros l ≤ l.length := by
  induction l with
  | nil => exact Nat.le_refl _
  | cons b l ih =>
    cases b with
    | false => simpa [leadingZeros] using ih
    | true => simp [leadingZeros]

theorem leadingZeros_replicate (n : Nat) (l : List Bool) :
    leadingZeros (replicate n false ++ true :: l) = n := by
  induction n with
  | zero => rfl
  | succ n ih => simp [replicate_succ, leadingZeros, ih]

/-- A stream is its leading zeros, a one, and the rest, unless it ends before. -/
theorem leadingZeros_split {l : List Bool} (h : leadingZeros l < l.length) :
    l = replicate (leadingZeros l) false ++ true :: l.drop (leadingZeros l + 1) := by
  induction l with
  | nil => simp at h
  | cons b l ih =>
    cases b with
    | true => simp [leadingZeros]
    | false =>
      simp only [leadingZeros, length_cons, Nat.add_lt_add_iff_right] at h
      simpa [leadingZeros, replicate_succ] using ih h

theorem peekBits_one (b : BitBuffer) :
    peekBits b 1 = b.rest.head?.map fun bit => BitVec.ofNat 32 bit.toNat := by
  rw [peekBits_eq]
  cases hrest : b.rest with
  | nil => simp
  | cons bit l => simp [ofBits_cons]

theorem skipZeros_eq (fuel : Nat) (b : BitBuffer) (h : leadingZeros b.rest ≤ fuel) :
    skipZeros fuel b = (leadingZeros b.rest, b.advance (leadingZeros b.rest)) := by
  induction fuel generalizing b with
  | zero =>
    rw [Nat.le_zero.mp h, advance_zero]
    rfl
  | succ fuel ih =>
    rw [skipZeros, peekBits_one, consumeBits_eq]
    cases hrest : b.rest with
    | nil => simp [leadingZeros, advance_zero]
    | cons bit l =>
      cases bit with
      | true => simp [leadingZeros, advance_zero]
      | false =>
        have hnext : (b.advance 1).rest = l := by rw [rest_advance, hrest]; rfl
        have hfuel : leadingZeros (b.advance 1).rest ≤ fuel := by
          rw [hnext]
          rw [hrest] at h
          exact Nat.le_of_succ_le_succ h
        simp [ih _ hfuel, hnext, leadingZeros, advance_advance, Nat.add_comm]

/-- The value of the code at the front of a stream, and the rest of the stream. -/
def parseGolomb (l : List Bool) : Option (BitVec 32 × List Bool) :=
  let zeros := leadingZeros l
  if zeros < 32 ∧ 2 * zeros + 1 ≤ l.length then
    some (BitVec.ofNat 32 (ofBits ((l.drop zeros).take (zeros + 1))) - 1, l.drop (2 * zeros + 1))
  else none

theorem readExponentialGolomb_eq (b : BitBuffer) :
    readExponentialGolomb b = (parseGolomb b.rest).map fun r =>
      (r.1, b.advance (b.rest.length - r.2.length)) := by
  have hzeros := leadingZeros_le b.rest
  have hskip := skipZeros_eq (remainingBitCount b) b (by rw [remainingBitCount_eq]; exact hzeros)
  rw [readExponentialGolomb, hskip]
  simp only [parseGolomb, readBits_eq, rest_advance, advance_advance, length_drop]
  by_cases h : leadingZeros b.rest < 32 ∧ 2 * leadingZeros b.rest + 1 ≤ b.rest.length
  · have hend : b.rest.length - (b.rest.length - (2 * leadingZeros b.rest + 1)) =
        leadingZeros b.rest + (leadingZeros b.rest + 1) := by omega
    rw [if_neg (by omega), if_pos (by omega), if_pos h]
    simp [hend]
  split
  · rfl
  · rw [if_neg (by omega)]
    rfl

/-- The code at the front of a stream: its zeros, a one, and as many bits as zeros. -/
theorem parseGolomb_code (low : List Bool) (h : low.length < 32) (r : List Bool) :
    parseGolomb (replicate low.length false ++ true :: low ++ r) =
      some (BitVec.ofNat 32 (2 ^ low.length + ofBits low - 1), r) := by
  have hpos : 0 < 2 ^ low.length := Nat.two_pow_pos _
  have hzeros : leadingZeros (replicate low.length false ++ true :: low ++ r) =
      low.length := by
    rw [append_assoc]
    exact leadingZeros_replicate _ _
  have htake : ((replicate low.length false ++ true :: low ++ r).drop low.length).take
      (low.length + 1) = true :: low := by
    rw [append_assoc, drop_left' (by simp)]
    exact take_left' rfl
  have hdrop : (replicate low.length false ++ true :: low ++ r).drop (2 * low.length + 1) =
      r := drop_left' (by simp; omega)
  simp only [parseGolomb, hzeros, htake, hdrop]
  rw [if_pos ⟨h, by simp; omega⟩, ofBits_cons]
  refine congrArg some (Prod.ext (BitVec.eq_of_toNat_eq ?_) rfl)
  bv_omega

/-- What is read as an exponential Golomb code is the code of the value. -/
theorem parseGolomb_eq_some {l r : List Bool} (h : parseGolomb l = some (v, r)) :
    l = golombBits v.toNat ++ r ∧ v.toNat + 1 < 2 ^ 32 := by
  have hcond : leadingZeros l < 32 ∧ 2 * leadingZeros l + 1 ≤ l.length := by
    by_contra hno
    simp only [parseGolomb, if_neg hno] at h
    cases h
  obtain ⟨h32, hlen⟩ := hcond
  have hsplit := leadingZeros_split (l := l) (by omega)
  generalize leadingZeros l = z at h32 hlen hsplit
  obtain ⟨low, tail, htail, hlow⟩ : ∃ low tail, l.drop (z + 1) = low ++ tail ∧ low.length = z :=
    ⟨(l.drop (z + 1)).take z, (l.drop (z + 1)).drop z, (take_append_drop _ _).symm, by simp; omega⟩
  subst hlow
  have hl : l = replicate low.length false ++ true :: low ++ tail := by
    rw [hsplit, htail, append_assoc, cons_append]
  rw [hl, parseGolomb_code low h32] at h
  cases h
  have hlt := ofBits_lt low
  have hpow : 2 ^ low.length ≤ 2 ^ 31 := Nat.pow_le_pow_right (by decide) (by omega)
  have hv : (BitVec.ofNat 32 (2 ^ low.length + ofBits low - 1)).toNat =
      2 ^ low.length + ofBits low - 1 := by
    rw [BitVec.toNat_ofNat, Nat.mod_eq_of_lt (by omega)]
  rw [hv]
  exact ⟨by rw [golombBits_ofBits, hl], by omega⟩

theorem log2_lt_of_code (hv : v.toNat + 1 < 2 ^ 32) : Nat.log2 (v.toNat + 1) < 32 :=
    (Nat.log2_lt (by omega)).2 hv

/-- The code of a value is read as the value. -/
theorem parseGolomb_golombBits (hv : v.toNat + 1 < 2 ^ 32) (r : List Bool) :
    parseGolomb (golombBits v.toNat ++ r) = some (v, r) := by
  have hlog := log2_lt_of_code hv
  have hself : 2 ^ Nat.log2 (v.toNat + 1) ≤ v.toNat + 1 := Nat.log2_self_le (by omega)
  have hnext : v.toNat + 1 < 2 ^ (Nat.log2 (v.toNat + 1) + 1) := Nat.lt_log2_self
  have hlow : 2 ^ Nat.log2 (v.toNat + 1) + ofBits (bits (Nat.log2 (v.toNat + 1)) (v.toNat + 1)) -
      1 = v.toNat := by
    rw [ofBits_bits, Nat.mod_eq_sub_mod hself, Nat.mod_eq_of_lt (by omega)]
    omega
  have hcode := parseGolomb_code (bits (Nat.log2 (v.toNat + 1)) (v.toNat + 1))
    (by simpa using hlog) r
  rw [length_bits, hlow, ← golombBits_eq] at hcode
  simpa using hcode

theorem readExponentialGolomb_some (h : readExponentialGolomb b = some (v, b')) :
    ∃ r, b.rest = golombBits v.toNat ++ r ∧ v.toNat + 1 < 2 ^ 32 ∧
      b' = b.advance (golombBits v.toNat).length := by
  rw [readExponentialGolomb_eq] at h
  obtain ⟨⟨_, r⟩, hparse, heq⟩ := Option.map_eq_some_iff.mp h
  cases heq
  obtain ⟨hrest, hv⟩ := parseGolomb_eq_some hparse
  refine ⟨r, hrest, hv, ?_⟩
  rw [hrest, length_append, Nat.add_sub_cancel]

theorem readExponentialGolomb_ok (hv : v.toNat + 1 < 2 ^ 32)
    {r : List Bool} (h : b.rest = golombBits v.toNat ++ r) :
    readExponentialGolomb b = some (v, b.advance (golombBits v.toNat).length) := by
  rw [readExponentialGolomb_eq, h, parseGolomb_golombBits hv, Option.map_some, length_append,
    Nat.add_sub_cancel]

end WebRtc.Bits
