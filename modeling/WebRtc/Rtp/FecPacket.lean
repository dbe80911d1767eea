import WebRtc.Lib.BigEndian

/-! The packets of `ForwardErrorCorrection`: a length and an array of `IP_PACKET_SIZE`
bytes. A read or write whose index is not a constant is checked against the array, and
an index outside of it is a fault. -/

namespace WebRtc.Rtp.Fec

open BigEndian

variable {p q : Packet} {i j : Nat}

/-- `IP_PACKET_SIZE`. -/
def ipPacketSize : Nat := 1500

def kRtpHeaderSize : Nat := 12

/-- What makes the behaviour of the source undefined. -/
inductive Fault
  | outOfBounds
  | emptyList
  | outOfFuel
  deriving DecidableEq, Repr

/-- `ForwardErrorCorrection::Packet`. -/
@[ext]
structure Packet where
  length : Nat
  data : Fin ipPacketSize → BitVec 8

namespace Packet

variable {g bytes : Nat → BitVec 8} {v : BitVec 8} {dstOffset n : Nat}

/-- `data[i]`, for an index that is known to be in the array. -/
def byteAt (p : Packet) (i : Nat) : BitVec 8 :=
  if h : i < ipPacketSize then p.data ⟨i, h⟩ else 0#8

theorem byteAt_of_le (hi : ipPacketSize ≤ i) : p.byteAt i = 0#8 :=
  dif_neg (Nat.not_lt.2 hi)

/-- The packet with the bytes `g` in its array. -/
def withBytes (p : Packet) (g : Nat → BitVec 8) : Packet := { p with data := fun i => g i }

theorem byteAt_withBytes (hi : i < ipPacketSize) :
    (p.withBytes g).byteAt i = g i := by
  unfold byteAt withBytes
  rw [dif_pos hi]

theorem ext_byteAt (hl : p.length = q.length)
    (hd : ∀ i < ipPacketSize, p.byteAt i = q.byteAt i) : p = q := by
  refine Packet.ext hl (funext fun i => ?_)
  have := hd i i.isLt
  unfold byteAt at this
  rwa [dif_pos i.isLt, dif_pos i.isLt] at this

/-- A new packet, with all bytes zero. -/
def empty : Packet := ⟨0, fun _ => 0#8⟩

@[simp] theorem byteAt_empty (i : Nat) : empty.byteAt i = 0#8 := by
  unfold byteAt empty
  split <;> rfl

/-- `data[i] = v`. -/
def set (p : Packet) (i : Nat) (v : BitVec 8) : Packet :=
  p.withBytes fun j => if j = i then v else p.byteAt j

@[simp] theorem length_set (p : Packet) (i : Nat) (v : BitVec 8) : (p.set i v).length = p.length :=
  rfl

theorem byteAt_set (hj : j < ipPacketSize) :
    (p.set i v).byteAt j = if j = i then v else p.byteAt j :=
  byteAt_withBytes hj

theorem byteAt_set_same (hi : i < ipPacketSize) :
    (p.set i v).byteAt i = v := by
  rw [byteAt_set hi, if_pos rfl]

theorem byteAt_set_ne (hij : j ≠ i) :
    (p.set i v).byteAt j = p.byteAt j := by
  rcases Nat.lt_or_ge j ipPacketSize with hj | hj
  · rw [byteAt_set hj, if_neg hij]
  · rw [byteAt_of_le hj, byteAt_of_le hj]

/-- The bytes behind the length of the packet are zero. -/
def ZeroPadded (p : Packet) : Prop := ∀ i, p.length ≤ i → p.byteAt i = 0#8

/-- `memcpy(&data[dstOffset], bytes, n)`, within the array. -/
def copy (p : Packet) (dstOffset n : Nat) (bytes : Nat → BitVec 8) : Packet :=
  p.withBytes fun j =>
    if dstOffset ≤ j ∧ j < dstOffset + n then bytes (j - dstOffset) else p.byteAt j

@[simp] theorem length_copy (p : Packet) (dstOffset n : Nat) (bytes : Nat → BitVec 8) :
    (p.copy dstOffset n bytes).length = p.length := rfl

theorem byteAt_copy (hj : j < ipPacketSize) : (p.copy dstOffset n bytes).byteAt j =
    if dstOffset ≤ j ∧ j < dstOffset + n then bytes (j - dstOffset) else p.byteAt j :=
  byteAt_withBytes hj

theorem byteAt_copy_inside (h : dstOffset ≤ j ∧ j < dstOffset + n) (hj : j < ipPacketSize) :
    (p.copy dstOffset n bytes).byteAt j = bytes (j - dstOffset) := by
  rw [byteAt_copy hj, if_pos h]

theorem byteAt_copy_outside (h : ¬ (dstOffset ≤ j ∧ j < dstOffset + n)) :
    (p.copy dstOffset n bytes).byteAt j = p.byteAt j := by
  rcases Nat.lt_or_ge j ipPacketSize with hj | hj
  · rw [byteAt_copy hj, if_neg h]
  · rw [byteAt_of_le hj, byteAt_of_le hj]

/-- `memcpy` between two arrays, with both ranges checked. -/
def memcpy (dst : Packet) (dstOffset : Nat) (src : Packet) (srcOffset n : Nat) :
    Except Fault Packet :=
  if dstOffset + n ≤ ipPacketSize ∧ srcOffset + n ≤ ipPacketSize then
    .ok (dst.copy dstOffset n fun i => src.byteAt (srcOffset + i))
  else .error .outOfBounds

/-! ## Big endian numbers -/

/-- `ByteReader<uint16_t>::ReadBigEndian(&data[i])`. -/
def read16 (p : Packet) (i : Nat) : BitVec 16 := be16 (p.byteAt i) (p.byteAt (i + 1))

/-- `ByteReader<uint32_t>::ReadBigEndian(&data[i])`. -/
def read32 (p : Packet) (i : Nat) : BitVec 32 := be32 (p.read16 i) (p.read16 (i + 2))

/-- `ByteReader<uint64_t>::ReadBigEndian(&data[i])`. -/
def read64 (p : Packet) (i : Nat) : BitVec 64 := be64 (p.read32 i) (p.read32 (i + 4))

/-- `ByteWriter<uint16_t>::WriteBigEndian(&data[i], v)`. -/
def write16 (p : Packet) (i : Nat) (v : BitVec 16) : Packet :=
  (p.set i (hi16 v)).set (i + 1) (lo16 v)

@[simp] theorem length_write16 (p : Packet) (i : Nat) (v : BitVec 16) :
    (p.write16 i v).length = p.length := rfl

/-- `ByteWriter<uint32_t>::WriteBigEndian(&data[i], v)`. -/
def write32 (p : Packet) (i : Nat) (v : BitVec 32) : Packet :=
  (p.write16 i (hi32 v)).write16 (i + 2) (lo32 v)

@[simp] theorem length_write32 (p : Packet) (i : Nat) (v : BitVec 32) :
    (p.write32 i v).length = p.length := rfl

/-- `ByteWriter<uint64_t>::WriteBigEndian(&data[i], v)`. -/
def write64 (p : Packet) (i : Nat) (v : BitVec 64) : Packet :=
  (p.write32 i (hi64 v)).write32 (i + 4) (lo64 v)

@[simp] theorem length_write64 (p : Packet) (i : Nat) (v : BitVec 64) :
    (p.write64 i v).length = p.length := rfl

theorem byteAt_write16 {v : BitVec 16} (hj : j < ipPacketSize) :
    (p.write16 i v).byteAt j =
      if j = i + 1 then lo16 v else if j = i then hi16 v else p.byteAt j := by
  unfold write16
  rw [byteAt_set hj, byteAt_set hj]

theorem byteAt_write16_outside {v : BitVec 16} (h : ¬ (i ≤ j ∧ j < i + 2)) :
    (p.write16 i v).byteAt j = p.byteAt j := by
  unfold write16
  rw [byteAt_set_ne (by omega), byteAt_set_ne (by omega)]

theorem byteAt_write32_outside {v : BitVec 32} (h : ¬ (i ≤ j ∧ j < i + 4)) :
    (p.write32 i v).byteAt j = p.byteAt j := by
  unfold write32
  rw [byteAt_write16_outside (by omega), byteAt_write16_outside (by omega)]

theorem byteAt_write64_outside {v : BitVec 64} (h : ¬ (i ≤ j ∧ j < i + 8)) :
    (p.write64 i v).byteAt j = p.byteAt j := by
  unfold write64
  rw [byteAt_write32_outside (by omega), byteAt_write32_outside (by omega)]

theorem read16_write16 {v : BitVec 16} (hi : i + 1 < ipPacketSize) :
    (p.write16 i v).read16 i = v := by
  unfold read16
  rw [byteAt_write16 hi, byteAt_write16 (Nat.lt_of_succ_lt hi), if_pos rfl,
    if_neg (Nat.ne_of_lt (Nat.lt_succ_self i)), if_pos rfl, be16_hi_lo]

/-- Two packets with the same bytes there give the same number. -/
theorem read16_congr (h : ∀ j, i ≤ j → j < i + 2 → p.byteAt j = q.byteAt j) :
    p.read16 i = q.read16 i := by
  unfold read16
  rw [h i (Nat.le_refl i) (by omega), h (i + 1) (by omega) (by omega)]

theorem read32_congr (h : ∀ j, i ≤ j → j < i + 4 → p.byteAt j = q.byteAt j) :
    p.read32 i = q.read32 i := by
  unfold read32
  rw [read16_congr fun j h1 h2 => h j h1 (by omega),
    read16_congr fun j h1 h2 => h j (by omega) (by omega)]

theorem read32_write32 {v : BitVec 32} (hi : i + 3 < ipPacketSize) :
    (p.write32 i v).read32 i = v := by
  unfold read32 write32
  rw [read16_write16 (by omega),
    read16_congr fun j h1 h2 => byteAt_write16_outside
      (show ¬ (i + 2 ≤ j ∧ j < i + 2 + 2) by omega),
    read16_write16 (by omega), be32_hi_lo]

/-! ## The RTP header -/

/-- `ParseSequenceNumber(data)`. -/
def parseSequenceNumber (p : Packet) : BitVec 16 := p.read16 2

/-- `ParseSsrc(data)`. -/
def parseSsrc (p : Packet) : BitVec 32 := p.read32 8

end Packet

end WebRtc.Rtp.Fec
