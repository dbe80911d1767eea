import WebRtc.Base.BitReading

/-! `rtc::BitBufferWriter` (`webrtc/base/bitbuffer.cc`): fields written over the bytes of a buffer at
any bit offset. What a writer has done is the stream in front of its position, so each operation is
described by the bits it appends to that stream. -/

namespace WebRtc.Bits
open BitBuffer BitStream List

variable {n : Nat} {w w' : BitBuffer} {l : List Bool} {v : BitVec 32}

/-- `HighestByte(val)`. -/
def highestByte (val : BitVec 64) : Byte := (val >>> 56).setWidth 8

/-- `WritePartialByte(source, source_bit_count, target, target_bit_offset)`. -/
def writePartialByte (source : Byte) (sourceBitCount : Nat) (target : Byte)
    (targetBitOffset : Nat) : Byte :=
  let mask := (0xFF#8 <<< (8 - sourceBitCount)) >>> targetBitOffset
  (target &&& ~~~mask) ||| (source >>> targetBitOffset)

/-- `CountBits(val)`, with the width as fuel. -/
def countBits (val : BitVec 64) : Nat := go 64 val
where
  go : Nat → BitVec 64 → Nat
  | 0, _ => 0
  | fuel + 1, val => if val ≠ 0 then go fuel (val >>> 1) + 1 else 0

/-- The loop over full bytes of `WriteBits`, with the bits of a last, partial byte. -/
def writeBytes (val : BitVec 64) : List Byte → Nat → List Byte
  | [], _ => []
  | byte :: bytes, bitCount =>
    if 8 ≤ bitCount then highestByte val :: writeBytes (val <<< 8) bytes (bitCount - 8)
    else if 0 < bitCount then writePartialByte (highestByte val) bitCount byte 0 :: bytes
    else byte :: bytes

/-- The bytes of `WriteBits` from the current one on; `val` has its bits at the top. -/
def overwriteBits (val : BitVec 64) (bitCount bitOffset : Nat) : List Byte → List Byte
  | [] => []
  | byte :: bytes =>
    let bitsInFirstByte := min bitCount (8 - bitOffset)
    writePartialByte (highestByte val) bitsInFirstByte byte bitOffset ::
      if bitCount ≤ 8 - bitOffset then bytes
      else writeBytes (val <<< bitsInFirstByte) bytes (bitCount - bitsInFirstByte)

/-- `WriteBits(val, bit_count)`. -/
def writeBits (val : BitVec 64) (bitCount : Nat) : Reader Unit := fun b =>
  if bitCount > remainingBitCount b then none
  else consumeBits bitCount { b with
    bytes := b.bytes.take b.byteOffset ++
      overwriteBits (val <<< (64 - bitCount)) bitCount b.bitOffset.val
        (b.bytes.drop b.byteOffset) }

/-- `WriteExponentialGolomb(val)`. -/
def writeExponentialGolomb (val : BitVec 32) : Reader Unit :=
  if val = 0xFFFFFFFF#32 then fun _ => none
  else
    let valToEncode := val.setWidth 64 + 1
    writeBits valToEncode (countBits valToEncode * 2 - 1)

/-! ## The bits of one byte -/

variable (val : BitVec 64)

theorem bits_highestByte :
    bits 8 (highestByte val).toNat = (bits 64 val.toNat).take 8 := by
  exact bits_congr (Nat.mod_mod_of_dvd _ (by decide))

theorem getLsbD_writePartialByte (source target : Byte) {count off j : Nat} (hj : j < 8) :
    (writePartialByte source count target off).getLsbD j =
      ((target.getLsbD j && !decide (off + j < 8 ∧ 8 - count ≤ off + j)) ||
        source.getLsbD (off + j)) := by
  have hones : 0xFF#8 = BitVec.allOnes 8 := rfl
  have hmask : ((0xFF#8 <<< (8 - count)) >>> off).getLsbD j =
      decide (off + j < 8 ∧ 8 - count ≤ off + j) := by
    rw [hones, BitVec.getLsbD_ushiftRight, BitVec.getLsbD_shiftLeft, BitVec.getLsbD_allOnes]
    by_cases hlow : off + j < 8 - count
    · simp [hlow, show ¬ (8 - count ≤ off + j) by omega]
    by_cases hhigh : off + j < 8
    · simp [hlow, hhigh, show 8 - count ≤ off + j by omega, show off + j - (8 - count) < 8 by omega]
    · simp [hhigh]
  simp only [writePartialByte, BitVec.getLsbD_or, BitVec.getLsbD_and, BitVec.getLsbD_not, hmask,
    hj, decide_true, Bool.true_and, BitVec.getLsbD_ushiftRight]

/-- A partial byte keeps the bits of the target in front of its offset. -/
theorem take_writePartialByte (source target : Byte) (count off : Nat) (h : off + count ≤ 8) :
    (bits 8 (writePartialByte source count target off).toNat).take (off + count) =
      (bits 8 target.toNat).take off ++ (bits 8 source.toNat).take count := by
  apply ext_getElem
  · simp; omega
  intro i hi _
  have hlt : i < off + count := by simp at hi; omega
  rw [getElem_take, getElem_bits, BitVec.testBit_toNat,
    getLsbD_writePartialByte source target (by omega)]
  by_cases hoff : i < off
  · rw [getElem_append_left (by simp; omega), getElem_take, getElem_bits,
      BitVec.testBit_toNat, BitVec.getLsbD_of_ge source _ (by omega)]
    simp [show ¬ (off + (8 - 1 - i) < 8) by omega]
  rw [getElem_append_right (by simp; omega), getElem_take, getElem_bits, BitVec.testBit_toNat]
  have hidx : 8 - 1 - (i - ((bits 8 target.toNat).take off).length) = off + (8 - 1 - i) := by
    simp; omega
  rw [hidx]
  simp [show off + (8 - 1 - i) < 8 by omega, show 8 - count ≤ off + (8 - 1 - i) by omega]

/-- Bits that are shifted out of a value are dropped from its front. -/
theorem take_bits_shiftLeft {k m : Nat} (h : k + m ≤ 64) :
    (bits 64 (val <<< k).toNat).take m = ((bits 64 val.toNat).drop k).take m := by
  apply ext_getElem
  · simp; omega
  intro i hi _
  have hlt : i < m := by simp at hi; omega
  have hidx : 64 - 1 - i - k = 64 - 1 - (k + i) := by omega
  simp only [getElem_take, getElem_drop, getElem_bits, BitVec.testBit_toNat,
    BitVec.getLsbD_shiftLeft, hidx]
  simp [show 64 - 1 - i < 64 by omega, show k ≤ 64 - 1 - i by omega]

/-! ## The bits of a field -/

theorem take_writeBytes (bytes : List Byte) (val : BitVec 64) (hn : n ≤ 64)
    (h : n ≤ 8 * bytes.length) :
    (ofBytes (writeBytes val bytes n)).take n = (bits 64 val.toNat).take n := by
  induction bytes generalizing val n with
  | nil =>
    have hzero : n = 0 := by simpa using h
    simp [hzero]
  | cons byte bytes ih =>
    simp only [length_cons] at h
    by_cases h8 : 8 ≤ n
    · have hrest := ih (val <<< 8) (n := n - 8) (by omega) (by omega)
      rw [take_bits_shiftLeft val (by omega)] at hrest
      rw [writeBytes, if_pos h8, ofBytes_cons, take_append, take_of_length_le (by simpa),
        length_bits, hrest, bits_highestByte, ← take_add, Nat.add_sub_cancel' h8]
    rw [writeBytes, if_neg h8]
    by_cases hpos : 0 < n
    · have hpart := take_writePartialByte (highestByte val) byte n 0 (by omega)
      rw [if_pos hpos, ofBytes_cons, take_append_of_le_length (by simp; omega)]
      rw [Nat.zero_add, take_zero, nil_append, bits_highestByte, take_take] at hpart
      rw [hpart, Nat.min_eq_left (by omega)]
    · have hzero : n = 0 := by omega
      simp [hzero]

/-- What a field leaves in the bytes it covers. -/
theorem take_overwriteBits (bytes : List Byte) (val : BitVec 64) {off : Nat} (hn : n ≤ 64)
    (hoff : off < 8) (h : off + n ≤ 8 * bytes.length) (hne : bytes ≠ []) :
    (ofBytes (overwriteBits val n off bytes)).take (off + n) =
      (ofBytes bytes).take off ++ (bits 64 val.toNat).take n := by
  cases bytes with
  | nil => exact absurd rfl hne
  | cons byte bytes =>
    simp only [length_cons] at h
    have hfront : (ofBytes (byte :: bytes)).take off = (bits 8 byte.toNat).take off := by
      rw [ofBytes_cons, take_append_of_le_length (by simp; omega)]
    rw [hfront, overwriteBits, ofBytes_cons]
    by_cases hfit : n ≤ 8 - off
    · have hpart := take_writePartialByte (highestByte val) byte n off (by omega)
      rw [Nat.min_eq_left hfit, take_append_of_le_length (by simp; omega), hpart,
        bits_highestByte, take_take, Nat.min_eq_left (by omega)]
    have hpart := take_writePartialByte (highestByte val) byte (8 - off) off (by omega)
    have hrest := take_writeBytes bytes (val <<< (8 - off)) (n := n - (8 - off)) (by omega)
      (by omega)
    rw [take_bits_shiftLeft val (by omega)] at hrest
    rw [Nat.add_sub_cancel' (by omega), take_of_length_le (by simp), bits_highestByte,
      take_take, Nat.min_eq_left (by omega)] at hpart
    have hsplit : off + n = 8 + (n - (8 - off)) := by omega
    rw [Nat.min_eq_right (by omega), if_neg hfit, hsplit, take_append, length_bits,
      take_of_length_le (by simp), Nat.add_sub_cancel_left, hrest, hpart, append_assoc,
      ← take_add, Nat.add_sub_cancel' (by omega)]

theorem length_writeBytes (bytes : List Byte) (n : Nat) :
    (writeBytes val bytes n).length = bytes.length := by
  induction bytes generalizing val n with
  | nil => rfl
  | cons _ bytes ih =>
    rw [writeBytes]
    split
    · simp [ih]
    · split <;> simp

theorem length_overwriteBits (n off : Nat) (bytes : List Byte) :
    (overwriteBits val n off bytes).length = bytes.length := by
  cases bytes with
  | nil => rfl
  | cons _ bytes =>
    simp only [overwriteBits, length_cons]
    split
    · rfl
    · rw [length_writeBytes]

/-! ## Writing -/

/-- The writer moved on by writing `l`; the buffer has its size. -/
structure Wrote (w : BitBuffer) (l : List Bool) (w' : BitBuffer) : Prop where
  past : w'.past = w.past ++ l
  position : w'.position = w.position + l.length
  length : w'.bytes.length = w.bytes.length

theorem Wrote.trans {w'' : BitBuffer} {m : List Bool} (h : Wrote w l w') (h' : Wrote w' m w'') :
    Wrote w (l ++ m) w'' where
  past := by rw [h'.past, h.past, append_assoc]
  position := by rw [h'.position, h.position, length_append, Nat.add_assoc]
  length := h'.length.trans h.length

theorem Wrote.refl (w : BitBuffer) : Wrote w [] w := ⟨by simp, by simp, rfl⟩

theorem Wrote.length_rest (h : Wrote w l w') : w'.rest.length = w.rest.length - l.length := by
  simp only [rest, length_drop, length_ofBytes, h.length, h.position]
  omega

/-- A writer that starts within its buffer stays within it. -/
theorem Wrote.position_le (h : Wrote w l w') (hw : w.position ≤ 8 * w.bytes.length) :
    w'.position ≤ 8 * w'.bytes.length := by
  have hlen := congrArg List.length h.past
  simp only [BitBuffer.past, length_take, length_append, length_ofBytes] at hlen
  have hpos := h.position
  omega

theorem take_append_ofBytes {front : List Byte} {k : Nat} (hfront : front.length = k)
    (bytes : List Byte) (n : Nat) :
    (ofBytes (front ++ bytes)).take (8 * k + n) = ofBytes front ++ (ofBytes bytes).take n := by
  rw [ofBytes_append, take_append, length_ofBytes, hfront,
    take_of_length_le (by simp; omega), Nat.add_sub_cancel_left]

theorem overwriteBits_zero (off : Nat) (bytes : List Byte) : overwriteBits 0 0 off bytes = bytes := by
  cases bytes with
  | nil => rfl
  | cons byte bytes =>
    simp only [overwriteBits, Nat.zero_min, Nat.zero_le, if_true, List.cons.injEq, and_true]
    simp only [writePartialByte, highestByte]
    have hkeep : byte &&& 0xFF#8 = byte := BitVec.and_allOnes
    simpa using hkeep

theorem writeBits_zero (w : BitBuffer) : writeBits val 0 w = some ((), w) := by
  have hval : val <<< (64 - 0) = 0 := BitVec.shiftLeft_eq_zero (by decide)
  rw [writeBits, if_neg (by omega), hval, overwriteBits_zero, take_append_drop, consumeBits_eq,
    if_pos (by omega)]
  exact congrArg (fun b => some ((), b)) (advance_zero w)

/-- A field is written if the buffer has room for it. -/
theorem writeBits_ok (hn' : n ≤ 64) (h : n ≤ w.rest.length) :
    ∃ w', writeBits val n w = some ((), w') ∧ Wrote w (bits n val.toNat) w' := by
  rcases Nat.eq_zero_or_pos n with rfl | hn
  · exact ⟨w, writeBits_zero val w, Wrote.refl w⟩
  have hroom : w.position + n ≤ 8 * w.bytes.length := by
    simp only [rest, length_drop, length_ofBytes] at h
    omega
  have hpos : w.position = 8 * w.byteOffset + w.bitOffset.val := rfl
  have hfront : (w.bytes.take w.byteOffset).length = w.byteOffset := by
    simp
    omega
  -- the bytes behind the position, and what the field leaves in them
  let bytes := overwriteBits (val <<< (64 - n)) n w.bitOffset.val (w.bytes.drop w.byteOffset)
  have hbytes : (ofBytes bytes).take (w.bitOffset.val + n) =
      (ofBytes (w.bytes.drop w.byteOffset)).take w.bitOffset.val ++ bits n val.toNat := by
    have hne : w.bytes.drop w.byteOffset ≠ [] := by
      simp only [ne_eq, drop_eq_nil_iff]
      omega
    have hval := take_bits_shiftLeft val (k := 64 - n) (m := n) (by omega)
    rw [drop_bits (by omega), Nat.sub_sub_self hn',
      take_of_length_le (l := bits n val.toNat) (by simp)] at hval
    rw [← hval]
    exact take_overwriteBits _ _ hn' w.bitOffset.isLt (by simp; omega) hne
  have hlen : (w.bytes.take w.byteOffset ++ bytes).length = w.bytes.length := by
    rw [length_append, length_overwriteBits, ← length_append, take_append_drop]
  let w' : BitBuffer := { w with bytes := w.bytes.take w.byteOffset ++ bytes }
  have hconsume : consumeBits n w' = some ((), w'.advance n) := by
    rw [consumeBits_eq, if_pos]
    have hsame : w'.rest.length = w.rest.length := by
      simp only [rest, length_drop, length_ofBytes]
      rw [hlen]
      rfl
    omega
  refine ⟨w'.advance n, ?_, ?_, ?_, ?_⟩
  · rw [writeBits, remainingBitCount_eq, if_neg (by omega)]
    exact hconsume
  · have hold : w.past = ofBytes (w.bytes.take w.byteOffset) ++
        (ofBytes (w.bytes.drop w.byteOffset)).take w.bitOffset.val := by
      rw [← take_append_ofBytes hfront, take_append_drop]
      rfl
    rw [past, position_advance, hold, append_assoc, ← hbytes, ← take_append_ofBytes hfront]
    simp only [w', bytes_advance, position, Nat.add_assoc]
  · rw [position_advance, length_bits]
    rfl
  · exact hlen

theorem writeBits_none (h : w.rest.length < n) : writeBits val n w = none := by
  rw [writeBits, remainingBitCount_eq, if_pos h]

/-- A field that was written had its room. -/
theorem writeBits_some {val : BitVec 64} (hn : n ≤ 64) {u : Unit}
    (h : writeBits val n w = some (u, w')) : n ≤ w.rest.length ∧ Wrote w (bits n val.toNat) w' := by
  rcases Nat.lt_or_ge w.rest.length n with hlt | hge
  · rw [writeBits_none val hlt] at h
    cases h
  obtain ⟨_, hw₁, hwrote⟩ := writeBits_ok val hn hge
  rw [hw₁] at h
  cases h
  exact ⟨hge, hwrote⟩

/-! ## Exponential Golomb codes -/

theorem countBits_go_zero (fuel : Nat) : countBits.go fuel 0 = 0 := by
  cases fuel <;> simp [countBits.go]

theorem countBits_go (fuel : Nat) (val : BitVec 64) (hpos : val ≠ 0) (h : val.toNat < 2 ^ fuel) :
    countBits.go fuel val = Nat.log2 val.toNat + 1 := by
  induction fuel generalizing val with
  | zero =>
    have hzero : val = 0 := BitVec.eq_of_toNat_eq (by simpa using h)
    exact absurd hzero hpos
  | succ fuel ih =>
    have hhalf : (val >>> 1).toNat = val.toNat / 2 := by
      rw [BitVec.toNat_ushiftRight, Nat.shiftRight_eq_div_pow, Nat.pow_one]
    rw [countBits.go, if_pos hpos, Nat.log2_def]
    by_cases hone : 2 ≤ val.toNat
    · have hne : val >>> 1 ≠ 0 := by
        intro hzero
        rw [hzero] at hhalf
        simp at hhalf
        omega
      rw [if_pos hone, ih _ hne (by rw [hhalf]; rw [Nat.pow_succ] at h; omega), hhalf]
    · have hzero : val >>> 1 = 0 := BitVec.eq_of_toNat_eq (by rw [hhalf]; simp; omega)
      rw [if_neg hone, hzero, countBits_go_zero]

theorem toNat_valToEncode (v : BitVec 32) : (v.setWidth 64 + 1).toNat = v.toNat + 1 := by
  bv_omega

theorem countBits_valToEncode (v : BitVec 32) :
    countBits (v.setWidth 64 + 1) = Nat.log2 (v.toNat + 1) + 1 := by
  have hval := toNat_valToEncode v
  have hne : v.setWidth 64 + 1 ≠ 0 := by
    intro hzero
    rw [hzero] at hval
    simp at hval
  rw [countBits, countBits_go 64 _ hne (BitVec.isLt _), hval]

/-- The zeros of a code are leading zeros of its value. -/
theorem bits_golomb (v : Nat) : bits (2 * Nat.log2 (v + 1) + 1) (v + 1) = golombBits v := by
  have hlen : 2 * Nat.log2 (v + 1) + 1 = Nat.log2 (v + 1) + (Nat.log2 (v + 1) + 1) := by omega
  rw [hlen, bits_append, Nat.div_eq_of_lt Nat.lt_log2_self, bits_zero, golombBits]

theorem writeExponentialGolomb_eq (hv : v.toNat + 1 < 2 ^ 32) :
    writeExponentialGolomb v = writeBits (v.setWidth 64 + 1) (2 * Nat.log2 (v.toNat + 1) + 1) := by
  have hne : v ≠ 0xFFFFFFFF#32 := by
    intro heq
    rw [heq] at hv
    simp at hv
  have hcount : (Nat.log2 (v.toNat + 1) + 1) * 2 - 1 = 2 * Nat.log2 (v.toNat + 1) + 1 := by omega
  simp only [writeExponentialGolomb, if_neg hne, countBits_valToEncode, hcount]

theorem writeExponentialGolomb_ok (hv : v.toNat + 1 < 2 ^ 32)
    (h : (golombBits v.toNat).length ≤ w.rest.length) :
    ∃ w', writeExponentialGolomb v w = some ((), w') ∧ Wrote w (golombBits v.toNat) w' := by
  have hlog := log2_lt_of_code hv
  rw [length_golombBits] at h
  have hok := writeBits_ok (v.setWidth 64 + 1) (by omega) h
  rw [toNat_valToEncode, bits_golomb] at hok
  rwa [writeExponentialGolomb_eq hv]

theorem writeExponentialGolomb_some {u : Unit} (h : writeExponentialGolomb v w = some (u, w')) :
    v.toNat + 1 < 2 ^ 32 ∧ (golombBits v.toNat).length ≤ w.rest.length ∧
      Wrote w (golombBits v.toNat) w' := by
  have hv : v.toNat + 1 < 2 ^ 32 := by
    by_contra hno
    have hmax : v = 0xFFFFFFFF#32 := by bv_omega
    simp [writeExponentialGolomb, hmax] at h
  have hlog := log2_lt_of_code hv
  rw [writeExponentialGolomb_eq hv] at h
  obtain ⟨hroom, hwrote⟩ := writeBits_some (by omega) h
  rw [toNat_valToEncode, bits_golomb] at hwrote
  exact ⟨hv, by rwa [length_golombBits], hwrote⟩

end WebRtc.Bits
