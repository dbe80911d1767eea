import WebRtc.Lib.ByteMasks
import WebRtc.Rtp.FecXor

/-! A FEC header is read back as it was written, in both formats: the reader finds the base
sequence number, the mask and the length, and it leaves the XORed bytes where the recovery looks
for them. -/

namespace WebRtc.Rtp.Fec

open BigEndian ByteMasks Packet BitVec

variable {row : MaskRow} {i size : Nat} {p : Packet}

/-- What reading the header that was written over `fecPacket` gives. -/
structure ReadBack (scheme : FecScheme) (row : MaskRow) (size : Nat) (ssrc : BitVec 32)
    (base : BitVec 16) (fecPacket : Packet) (f : ReceivedFecPacket) : Prop where
  headerSize : f.fecHeaderSize = fecHeaderSize scheme (minPacketMaskSize scheme row size)
  protectedSsrc : f.protectedSsrc = ssrc
  seqNumBase : f.seqNumBase = base
  protectionLength : f.protectionLength = fecPacket.length - f.fecHeaderSize
  length : f.pkt.length = fecPacket.length
  -- the two top bits belong to the format
  first : f.pkt.byteAt 0 &&& 0x3f = fecPacket.byteAt 0 &&& 0x3f
  header : ∀ i, 1 ≤ i → i < 8 → f.pkt.byteAt i = fecPacket.byteAt i
  payload : ∀ i, f.fecHeaderSize ≤ i → i < ipPacketSize → f.pkt.byteAt i = fecPacket.byteAt i
  mask : ∀ i < f.packetMaskSize, f.pkt.byteAt (f.packetMaskOffset + i) = row.byte i
  mask_end : ∀ i, f.packetMaskSize ≤ i → row.byte i = 0#8

theorem MaskRow.byte_of_le (h : row.length ≤ i) : row.byte i = 0#8 := by
  unfold MaskRow.byte
  rw [List.getD_eq_getElem?_getD, List.getElem?_eq_none h]
  rfl

/-! ## ULPFEC -/

section Ulpfec

variable (base : BitVec 16) (row : MaskRow) (size : Nat) (p : Packet)

theorem length_finalizeUlpfecHeader :
    (finalizeUlpfecHeader base row size p).length = p.length := by
  simp only [finalizeUlpfecHeader, length_copy, Packet.length_write16]
  split <;> simp

theorem finalizeUlpfecHeader_first : (finalizeUlpfecHeader base row size p).byteAt 0 =
    if size = 6 then p.byteAt 0 &&& 0x7f ||| 0x40 else p.byteAt 0 &&& 0x7f &&& 0xbf := by
  unfold finalizeUlpfecHeader kUlpfecPacketMaskSizeLBitSet
  split <;> simp (disch := first | omega | decide) only [byteAt_copy_outside,
    byteAt_write16_outside, byteAt_set_same]

/-- The length recovery field is moved. -/
theorem finalizeUlpfecHeader_length (hi : 8 ≤ i ∧ i < 10) :
    (finalizeUlpfecHeader base row size p).byteAt i = p.byteAt (i - 6) := by
  have h : i < ipPacketSize := by unfold ipPacketSize; omega
  unfold finalizeUlpfecHeader kUlpfecPacketMaskSizeLBitSet
  rw [show i - 6 = 2 + (i - 8) by omega]
  split <;> simp (disch := first | omega | assumption) only [byteAt_copy_outside,
    byteAt_write16_outside, byteAt_set_ne, byteAt_copy_inside]

theorem finalizeUlpfecHeader_mask (hi : i < size) (hs : size ≤ 6) :
    (finalizeUlpfecHeader base row size p).byteAt (12 + i) = row.byte i := by
  have h : 12 + i < ipPacketSize := by unfold ipPacketSize; omega
  unfold finalizeUlpfecHeader
  rw [byteAt_copy_inside (by omega) h, Nat.add_sub_cancel_left]

/-- The other bytes are not touched. -/
theorem finalizeUlpfecHeader_outside (hi : i = 1 ∨ 4 ≤ i ∧ i < 8 ∨ 12 + size ≤ i) :
    (finalizeUlpfecHeader base row size p).byteAt i = p.byteAt i := by
  unfold finalizeUlpfecHeader kUlpfecPacketMaskSizeLBitSet
  split <;> simp (disch := omega) only [byteAt_copy_outside, byteAt_write16_outside, byteAt_set_ne]

theorem finalizeUlpfecHeader_base : (finalizeUlpfecHeader base row size p).read16 2 = base := by
  unfold finalizeUlpfecHeader
  rw [read16_congr fun j _ _ => byteAt_copy_outside (by omega),
    read16_congr fun j _ _ => byteAt_write16_outside (by omega), read16_write16 (by decide)]

theorem finalizeUlpfecHeader_protectionLength (hl : ulpfecHeaderSize size ≤ p.length)
    (hmax : p.length ≤ ipPacketSize) :
    ((finalizeUlpfecHeader base row size p).read16 10).toNat =
      p.length - ulpfecHeaderSize size := by
  have hlen : ∀ q : Packet, (q.write16 2 base).length = q.length := fun _ => rfl
  unfold finalizeUlpfecHeader
  rw [read16_congr fun j _ _ => byteAt_copy_outside (by omega), read16_write16 (by decide)]
  simp only [hlen, length_copy, apply_ite length, length_set, ite_self]
  unfold ipPacketSize at hmax
  rw [toNat_sub, toNat_ofNat, toNat_ofNat]
  omega

end Ulpfec

/-- The L bit tells the size of the mask. -/
theorem finalizeUlpfecHeader_lBit (base : BitVec 16) (row : MaskRow) (size : Nat) (p : Packet) :
    ((finalizeUlpfecHeader base row size p).byteAt 0 &&& 0x40 != 0) = decide (size = 6) := by
  rw [finalizeUlpfecHeader_first]
  by_cases h : size = 6
  · rw [if_pos h, decide_eq_true h, (topBits _).second_set]
  · rw [if_neg h, decide_eq_false h, (topBits _).second_clear]

/-- What is read from a packet whose L bit tells the size of its mask. -/
theorem readUlpfecHeader_unread (seqNum : BitVec 16) (ssrc : BitVec 32) {q : Packet}
    (hsize : size = 2 ∨ size = 6) (hbit : (q.byteAt 0 &&& 0x40 != 0) = decide (size = 6)) :
    readUlpfecHeader (.unread seqNum ssrc q) = some
      { seqNum := seqNum
        ssrc := ssrc
        fecHeaderSize := ulpfecHeaderSize size
        protectedSsrc := ssrc
        seqNumBase := q.read16 2
        packetMaskOffset := 12
        packetMaskSize := size
        protectionLength := (q.read16 10).toNat
        pkt := q.copy 2 2 fun i => q.byteAt (8 + i) } := by
  have hmask : (if decide (size = 6) = true then kUlpfecPacketMaskSizeLBitSet
      else kUlpfecPacketMaskSizeLBitClear) = size := by
    rcases hsize with rfl | rfl <;> rfl
  simp only [readUlpfecHeader, ReceivedFecPacket.unread, hbit, hmask]
  rfl

theorem readUlpfecHeader_finalize (p : Packet) (seqNum base : BitVec 16) (ssrc : BitVec 32)
    (hsize : size = 2 ∨ size = 6) (hrow : row.length = size)
    (hlen : ulpfecHeaderSize size ≤ p.length) (hmax : p.length ≤ ipPacketSize) :
    ∃ f, readUlpfecHeader (.unread seqNum ssrc (finalizeUlpfecHeader base row size p)) =
        some f ∧ ReadBack .ulpfec row size ssrc base p f := by
  have hhs : ulpfecHeaderSize size = 12 + size := by
    rcases hsize with rfl | rfl <;> rfl
  refine ⟨_, readUlpfecHeader_unread seqNum ssrc hsize (finalizeUlpfecHeader_lBit base row size p),
    ?_⟩
  constructor <;> dsimp only
  · rfl
  · exact finalizeUlpfecHeader_base base row size p
  · exact finalizeUlpfecHeader_protectionLength base row size p hlen hmax
  · rw [length_copy, length_finalizeUlpfecHeader]
  · rw [byteAt_copy_outside (by omega), finalizeUlpfecHeader_first]
    split
    · exact (topBits _).set_low
    · exact (topBits _).clear_low
  · intro i h1 h8
    by_cases h23 : 2 ≤ i ∧ i < 2 + 2
    · rw [byteAt_copy_inside h23 (by unfold ipPacketSize; omega),
        finalizeUlpfecHeader_length _ _ _ _ (by omega)]
      congr 1
      omega
    · rw [byteAt_copy_outside h23, finalizeUlpfecHeader_outside _ _ _ _ (by omega)]
  · intro i hi _
    rw [byteAt_copy_outside (by omega), finalizeUlpfecHeader_outside _ _ _ _ (by omega)]
  · intro i hi
    rw [byteAt_copy_outside (by omega), finalizeUlpfecHeader_mask _ _ _ _ hi (by omega)]
  · intro i hi
    exact MaskRow.byte_of_le (by omega)

/-! ## Unpacking a FlexFEC mask -/

theorem shift_be16 (a b : BitVec 8) : (be16 a b >>> 1) <<< 1 = be16 a (b &&& 0xfe) := by
  apply eq_of_toNat_eq
  simp only [toNat_shiftLeft, toNat_ushiftRight, toNat_be16, (lowBits _).toNat_and_fe,
    Nat.shiftLeft_eq, Nat.shiftRight_eq_div_pow]
  omega

theorem shift_be32 (x : BitVec 16) (a b : BitVec 8) :
    (be32 x (be16 a b) >>> 2) <<< 2 = be32 x (be16 a (b &&& 0xfc)) := by
  apply eq_of_toNat_eq
  simp only [toNat_shiftLeft, toNat_ushiftRight, toNat_be16, toNat_be32,
    (lowBits _).toNat_and_fc, Nat.shiftLeft_eq, Nat.shiftRight_eq_div_pow]
  omega

theorem shift_be16_top (a b : BitVec 8) : be16 (a ||| 0x80) b <<< 1 = be16 a b <<< 1 := by
  apply eq_of_toNat_eq
  simp only [toNat_shiftLeft, Nat.shiftLeft_eq, toNat_be16, (topBits _).toNat_or_80]
  omega

theorem shift_be32_top (a b x : BitVec 8) (y : BitVec 16) (hx : x = 0x40 ∨ x = 0x80) :
    be32 (be16 (a ||| x) b) y <<< 2 = be32 (be16 a b) y <<< 2 := by
  have ha : (a ||| x).toNat % 64 = a.toNat % 64 := by
    rcases hx with rfl | rfl
    · exact (topBits a).toNat_or_40
    · have := (topBits a).toNat_or_80
      omega
  apply eq_of_toNat_eq
  simp only [toNat_shiftLeft, Nat.shiftLeft_eq, toNat_be16, toNat_be32]
  omega

theorem read32_set_top (p : Packet) (x : BitVec 8) (hx : x = 0x40 ∨ x = 0x80) :
    (p.set 20 (p.byteAt 20 ||| x)).read32 20 <<< 2 = p.read32 20 <<< 2 := by
  unfold read32 read16
  rw [byteAt_set_same (by decide), byteAt_set_ne (by omega), byteAt_set_ne (by omega),
    byteAt_set_ne (by omega), shift_be32_top _ _ _ _ hx]

/-- The first two bytes of a mask are unpacked, but for bit 15. -/
theorem unpackMask0_bytes {a b : BitVec 8} (h : p.read16 18 <<< 1 = be16 a b) :
    (unpackMask0 p).byteAt 18 = a ∧ (unpackMask0 p).byteAt 19 = b := by
  unfold unpackMask0
  rw [h, byteAt_write16 (by decide), byteAt_write16 (by decide)]
  exact ⟨hi16_be16 a b, lo16_be16 a b⟩

theorem unpackMask0_outside (p : Packet) (hi : i < 18 ∨ 20 ≤ i) :
    (unpackMask0 p).byteAt i = p.byteAt i :=
  byteAt_write16_outside (by omega)

theorem unpackMask1_bytes {a b c d : BitVec 8}
    (h : p.read32 20 <<< 2 = be32 (be16 a b) (be16 c d)) :
    (unpackMask1 p).byteAt 19 = p.byteAt 19 ||| ((p.byteAt 20 >>> 6) &&& 0x01) ∧
      (unpackMask1 p).byteAt 20 = a ∧ (unpackMask1 p).byteAt 21 = b ∧
      (unpackMask1 p).byteAt 22 = c ∧ (unpackMask1 p).byteAt 23 = d := by
  have hread : ∀ v, (p.set 19 v).read32 20 = p.read32 20 := fun v => rfl
  unfold unpackMask1
  dsimp only
  rw [hread, h]
  unfold Packet.write32
  simp (disch := decide) only [byteAt_write16, byteAt_set]
  simp

theorem unpackMask1_outside (p : Packet) (hi : i < 19 ∨ 24 ≤ i) :
    (unpackMask1 p).byteAt i = p.byteAt i := by
  unfold unpackMask1
  rw [byteAt_write32_outside (by omega), byteAt_set_ne (by omega)]

theorem unpackMask2_bytes (h : p.read64 24 <<< 3 = 0#64) :
    (unpackMask2 p).byteAt 23 = p.byteAt 23 ||| ((p.byteAt 24 >>> 5) &&& 0x03) ∧
      ∀ i, 24 ≤ i → i < 32 → (unpackMask2 p).byteAt i = 0#8 := by
  have hread : ∀ v, (p.set 23 v).read64 24 = p.read64 24 := fun v => rfl
  unfold unpackMask2
  dsimp only
  rw [hread, h]
  refine ⟨rfl, fun i h1 h2 => ?_⟩
  obtain rfl | rfl | rfl | rfl | rfl | rfl | rfl | rfl : i = 24 ∨ i = 25 ∨ i = 26 ∨ i = 27 ∨
    i = 28 ∨ i = 29 ∨ i = 30 ∨ i = 31 := by omega
  all_goals rfl

theorem unpackMask2_outside (p : Packet) (hi : i < 23 ∨ 32 ≤ i) :
    (unpackMask2 p).byteAt i = p.byteAt i := by
  unfold unpackMask2
  rw [byteAt_write64_outside (by omega), byteAt_set_ne (by omega)]

@[simp] theorem length_unpackMask2 (p : Packet) : (unpackMask2 p).length = p.length := by
  simp [unpackMask2]

/-- What unpacking the mask of `p` gives: the bytes of the row, and the other bytes as they were. -/
structure Unpacked (row : MaskRow) (size : Nat) (p q : Packet) : Prop where
  length : q.length = p.length
  mask : ∀ i < size, q.byteAt (18 + i) = row.byte i
  mask_end : ∀ i, size ≤ i → row.byte i = 0#8
  outside : ∀ i, i < 18 ∨ 18 + size ≤ i → q.byteAt i = p.byteAt i

def Unpacks (row : MaskRow) (size : Nat) (p : Packet) : Prop :=
  ∃ q, unpackPacketMask p = some (q, size) ∧ Unpacked row size p q

section Unpack

variable {row : MaskRow} {p : Packet}

theorem unpackPacketMask_2 (hrow : ∀ i, 2 ≤ i → row.byte i = 0#8) (h1 : row.byte 1 &&& 0x01 = 0)
    (hk0 : (p.byteAt 18 &&& 0x80 != 0))
    (hread : p.read16 18 <<< 1 = (row.read16 0 >>> 1) <<< 1) : Unpacks row 2 p := by
  obtain ⟨h18, h19⟩ := unpackMask0_bytes (hread.trans (shift_be16 _ _))
  refine ⟨unpackMask0 p, if_pos hk0, rfl, fun i hi => ?_, hrow,
    fun i hi => unpackMask0_outside p (by omega)⟩
  match i, hi with
  | 0, _ => exact h18
  | 1, _ => exact h19.trans ((lowBits _).one_clear h1)

/-- The first six bytes of a mask that does not end in the first two. -/
structure Packed (row : MaskRow) (p : Packet) : Prop where
  first : p.read16 18 = row.read16 0 >>> 1
  bit15 : (p.byteAt 20 >>> 6) &&& 0x01 = row.byte 1 &&& 0x01
  second : p.read32 20 <<< 2 = (row.read32 2 >>> 2) <<< 2

theorem Packed.kBit0_clear (h : Packed row p) : (p.byteAt 18 &&& 0x80 != 0) = false := by
  apply (topBits _).first_of_lt
  have h18 : p.byteAt 18 = hi16 (p.read16 18) := (hi16_be16 _ _).symm
  rw [h18, h.first, toNat_hi16, toNat_ushiftRight, Nat.shiftRight_eq_div_pow]
  omega

/-- The first two steps put all bits in place but the last two of the sixth byte. -/
theorem Packed.unpackMask01_bytes (h : Packed row p) :
    (∀ i < 5, (unpackMask1 (unpackMask0 p)).byteAt (18 + i) = row.byte i) ∧
      (unpackMask1 (unpackMask0 p)).byteAt 23 = row.byte 5 &&& 0xfc := by
  obtain ⟨h18, h19⟩ := unpackMask0_bytes
    (show p.read16 18 <<< 1 = _ from h.first ▸ shift_be16 (row.byte 0) (row.byte 1))
  have h20 : (unpackMask0 p).read32 20 = p.read32 20 :=
    read32_congr fun j _ _ => unpackMask0_outside p (by omega)
  obtain ⟨g19, g20, g21, g22, g23⟩ := unpackMask1_bytes
    (show (unpackMask0 p).read32 20 <<< 2 = _ from (h20 ▸ h.second).trans (shift_be32 _ _ _))
  refine ⟨fun i hi => ?_, g23⟩
  match i, hi with
  | 0, _ => rw [unpackMask1_outside _ (by omega), h18]
  | 1, _ => rw [g19, h19, unpackMask0_outside p (by omega), h.bit15, (lowBits _).or_one]
  | 2, _ => exact g20
  | 3, _ => exact g21
  | 4, _ => exact g22

theorem Packed.unpackPacketMask_6 (h : Packed row p) (hrow : ∀ i, 6 ≤ i → row.byte i = 0#8)
    (h5 : row.byte 5 &&& 0x03 = 0) (hlen : 24 ≤ p.length) (hk1 : (p.byteAt 20 &&& 0x80 != 0)) :
    Unpacks row 6 p := by
  obtain ⟨hmask, h23⟩ := h.unpackMask01_bytes
  refine ⟨unpackMask1 (unpackMask0 p), ?_, rfl, fun i hi => ?_, hrow, fun i hi => ?_⟩
  · unfold unpackPacketMask
    have h6 : ¬ (unpackMask0 p).length < flexfecHeaderSize 6 := Nat.not_lt.2 hlen
    rw [h.kBit0_clear, if_neg Bool.false_ne_true, if_neg h6,
      unpackMask0_outside p (by omega), if_pos hk1]
  · rcases Nat.lt_or_ge i 5 with h | h
    · exact hmask i h
    have : i = 5 := by omega
    subst this
    exact h23.trans ((lowBits _).two_clear h5)
  · rw [unpackMask1_outside _ (by omega), unpackMask0_outside _ (by omega)]

theorem Packed.unpackPacketMask_14 (h : Packed row p) (hrow : ∀ i, 6 ≤ i → row.byte i = 0#8)
    (hlen : 32 ≤ p.length) (hk1 : (p.byteAt 20 &&& 0x80 != 0) = false)
    (hk2 : (p.byteAt 24 &&& 0x80 != 0))
    (htail : (p.byteAt 24 >>> 5) &&& 0x03 = row.byte 5 &&& 0x03)
    (hread3 : p.read64 24 <<< 3 = 0#64) : Unpacks row 14 p := by
  obtain ⟨hmask, h23⟩ := h.unpackMask01_bytes
  have hout : ∀ i, 24 ≤ i → (unpackMask1 (unpackMask0 p)).byteAt i = p.byteAt i := fun i hi => by
    rw [unpackMask1_outside _ (by omega), unpackMask0_outside _ (by omega)]
  have h24 : (unpackMask1 (unpackMask0 p)).read64 24 = p.read64 24 := by
    unfold read64
    rw [read32_congr fun j hj _ => hout j hj, read32_congr fun j hj _ => hout j (by omega)]
  have hshift : (unpackMask1 (unpackMask0 p)).read64 24 <<< 3 = 0#64 := by rw [h24, hread3]
  obtain ⟨g23, gend⟩ := unpackMask2_bytes hshift
  refine ⟨unpackMask2 (unpackMask1 (unpackMask0 p)), ?_, length_unpackMask2 _, fun i hi => ?_,
    fun i hi => hrow i (by omega), fun i hi => ?_⟩
  · unfold unpackPacketMask
    have h6 : ¬ (unpackMask0 p).length < flexfecHeaderSize 6 :=
      Nat.not_lt.2 (Nat.le_trans (by decide) hlen)
    have h14 : ¬ (unpackMask1 (unpackMask0 p)).length < flexfecHeaderSize 14 :=
      Nat.not_lt.2 hlen
    rw [h.kBit0_clear, if_neg Bool.false_ne_true, if_neg h6, unpackMask0_outside p (by omega), hk1,
      if_neg Bool.false_ne_true, if_neg h14, hout 24 (by omega), if_pos hk2]
  · rcases Nat.lt_trichotomy i 5 with h | rfl | h
    · rw [unpackMask2_outside _ (by omega), hmask i h]
    · rw [g23, h23, hout 24 (by omega), htail, (lowBits _).or_two]
    · rw [gend _ (by omega) (by omega), hrow i (by omega)]
  · rw [unpackMask2_outside _ (by omega), unpackMask1_outside _ (by omega),
      unpackMask0_outside _ (by omega)]

end Unpack

/-! ## Packing a FlexFEC mask -/

section Pack

variable (row : MaskRow) (p : Packet)

theorem length_packMask48 : (packMask48 row p).length = p.length := by
  simp [packMask48, apply_ite length]

theorem length_packMask16 : (packMask16 row p).length = p.length := by
  simp [packMask16, apply_ite length]

/-- Packing the row turns `p` into `p'`. -/
structure Packs (row : MaskRow) (size : Nat) (p p' : Packet) : Prop where
  unpacks : Unpacks row size p'
  length : p'.length = p.length
  outside : ∀ i, i < 18 ∨ 18 + size ≤ i → p'.byteAt i = p.byteAt i

theorem byteAt_ite_set_ne {c : Prop} [Decidable c] {k : Nat} {v : BitVec 8} {q : Packet}
    (h : i ≠ k) : (if c then q.set k v else q).byteAt i = q.byteAt i := by
  split
  · exact byteAt_set_ne h
  · rfl

/-- A mask of 16 bits without bit 15 is packed into two bytes. -/
theorem packMask16_short (hrow : ∀ i, 2 ≤ i → row.byte i = 0#8) (h15 : row.byte 1 &&& 0x01 = 0) :
    Packs row 2 p (packMask16 row p) := by
  have hpack : packMask16 row p = (p.write16 18 (row.read16 0 >>> 1)).set 18
      ((p.write16 18 (row.read16 0 >>> 1)).byteAt 18 ||| 0x80) := by
    unfold packMask16
    rw [h15]
    rfl
  rw [hpack]
  refine ⟨unpackPacketMask_2 hrow h15 (topBits _).first_set ?_, rfl, fun i hi => ?_⟩
  · unfold read16
    rw [byteAt_set_same (by decide), byteAt_set_ne (by omega), shift_be16_top]
    change (read16 _ 18) <<< 1 = _
    rw [read16_write16 (by decide)]
  · rw [byteAt_set_ne (by omega), byteAt_write16_outside (by omega)]

/-- A mask of 16 bits with bit 15 is packed into six bytes. -/
theorem packMask16_long (hrow : ∀ i, 2 ≤ i → row.byte i = 0#8) (h15 : row.byte 1 &&& 0x01 ≠ 0)
    (hlen : 24 ≤ p.length) : Packs row 6 p (packMask16 row p) := by
  have hbit : (row.byte 1 &&& 0x01 != 0) := by simpa using h15
  have hone : row.byte 1 &&& 0x01 = 0x01 := (lowBits _).one_set hbit
  have hout : ∀ i, i < 20 ∨ 24 ≤ i →
      (packMask16 row p).byteAt i = (p.write16 18 (row.read16 0 >>> 1)).byteAt i := by
    intro i hi
    unfold packMask16
    rw [if_pos hbit, byteAt_set_ne (by omega), byteAt_set_ne (by omega),
      byteAt_copy_outside (by omega)]
  have hread : (packMask16 row p).read16 18 = row.read16 0 >>> 1 := by
    rw [read16_congr fun j _ _ => hout j (by omega), read16_write16 (by decide)]
  have hzero : ∀ i, 20 ≤ i → i < 24 →
      ((p.write16 18 (row.read16 0 >>> 1)).copy 20 4 fun _ => 0).byteAt i = 0#8 :=
    fun i h1 h2 => byteAt_copy_inside (by omega) (by unfold ipPacketSize; omega)
  have h20 : (packMask16 row p).byteAt 20 = 0xc0 := by
    unfold packMask16
    rw [if_pos hbit, byteAt_set_same (by decide), byteAt_set_same (by decide),
      hzero 20 (by omega) (by omega)]
    rfl
  have hrest : ∀ i, 21 ≤ i → i < 24 → (packMask16 row p).byteAt i = 0#8 := by
    intro i h1 h2
    unfold packMask16
    rw [if_pos hbit, byteAt_set_ne (by omega), byteAt_set_ne (by omega), hzero i (by omega) h2]
  have hlen' := length_packMask16 row p
  refine ⟨Packed.unpackPacketMask_6 ⟨hread, ?_, ?_⟩ (fun i hi => hrow i (by omega)) ?_
    (hlen' ▸ hlen) ?_, hlen', fun i hi => ?_⟩
  · rw [h20, hone]; rfl
  · unfold read32 read16 MaskRow.read32 MaskRow.read16
    rw [h20, hrest 21 (by omega) (by omega), hrest 22 (by omega) (by omega),
      hrest 23 (by omega) (by omega), hrow 2 (by omega), hrow 3 (by omega), hrow 4 (by omega),
      hrow 5 (by omega)]
    decide
  · rw [hrow 5 (by omega)]; rfl
  · rw [h20]; rfl
  · rw [hout i (by omega), byteAt_write16_outside (by omega)]

/-- The first six bytes that a mask of 48 bits is packed into, before the K-bit is set. -/
def packFront48 (row : MaskRow) (p : Packet) : Packet :=
  let p := p.write16 18 (row.read16 0 >>> 1)
  let p := p.write32 20 (row.read32 2 >>> 2)
  if row.byte 1 &&& 0x01 != 0 then p.set 20 (p.byteAt 20 ||| 0x40) else p

theorem packFront48_outside (hi : i < 18 ∨ 24 ≤ i) :
    (packFront48 row p).byteAt i = p.byteAt i := by
  unfold packFront48
  dsimp only
  rw [byteAt_ite_set_ne (by omega), byteAt_write32_outside (by omega),
    byteAt_write16_outside (by omega)]

theorem packFront48_spec :
    Packed row (packFront48 row p) ∧ (packFront48 row p).byteAt 20 &&& 0x80 = 0 := by
  have hlt : (hi16 (hi32 (row.read32 2 >>> 2))).toNat < 64 := by
    rw [toNat_hi16, toNat_hi32, toNat_ushiftRight, Nat.shiftRight_eq_div_pow]
    omega
  obtain ⟨h1, h2, h3, h4⟩ := (topBits _).of_lt hlt
  have hread : (p.write16 18 (row.read16 0 >>> 1)).read16 18 = row.read16 0 >>> 1 :=
    read16_write16 (by decide)
  have hread2 : ((p.write16 18 (row.read16 0 >>> 1)).write32 20 (row.read32 2 >>> 2)).read32 20 =
      row.read32 2 >>> 2 := read32_write32 (by decide)
  unfold packFront48
  split
  · rename_i hbit
    have hone : row.byte 1 &&& 0x01 = 0x01 := (lowBits _).one_set hbit
    refine ⟨⟨hread, h4.trans hone.symm, ?_⟩, h3⟩
    rw [read32_set_top _ _ (.inl rfl), hread2]
  · rename_i hbit
    have hzero : row.byte 1 &&& 0x01 = 0 := by simpa using hbit
    exact ⟨⟨hread, h2.trans hzero.symm, by rw [hread2]⟩, h1⟩

theorem packMask48_short (hrow : ∀ i, 6 ≤ i → row.byte i = 0#8) (h5 : row.byte 5 &&& 0x03 = 0)
    (hlen : 24 ≤ p.length) : Packs row 6 p (packMask48 row p) := by
  have hpack : packMask48 row p =
      (packFront48 row p).set 20 ((packFront48 row p).byteAt 20 ||| 0x80) :=
    if_pos ((lowBits _).each_clear.trans (decide_eq_true h5))
  obtain ⟨hread, h15, hread2⟩ := (packFront48_spec row p).1
  have hlen' := length_packMask48 row p
  rw [hpack] at hlen' ⊢
  refine ⟨Packed.unpackPacketMask_6 ⟨hread, (topBits _).second_of_set.trans h15, ?_⟩ hrow h5
    (hlen' ▸ hlen) (topBits _).first_set, hlen', fun i hi => ?_⟩
  · rw [read32_set_top _ _ (.inr rfl), hread2]
  · rw [byteAt_set_ne (by omega), packFront48_outside row p (by omega)]

/-- The byte of K-bit 2 and of the bits 46 and 47. -/
def tailByte (b : BitVec 8) : BitVec 8 :=
  0x80 ||| (if b &&& 0x02 != 0 then 0x40 else 0) ||| (if b &&& 0x01 != 0 then 0x20 else 0)

theorem packMask48_tail (h5 : row.byte 5 &&& 0x03 ≠ 0) :
    (∀ i, i < 24 ∨ 32 ≤ i → (packMask48 row p).byteAt i = (packFront48 row p).byteAt i) ∧
      (packMask48 row p).byteAt 24 = tailByte (row.byte 5) ∧
      ∀ i, 25 ≤ i → i < 32 → (packMask48 row p).byteAt i = 0#8 := by
  have hpack : packMask48 row p =
      let q := (packFront48 row p).copy 24 8 fun _ => 0
      let q := q.set 24 (q.byteAt 24 ||| 0x80)
      let q := if row.byte 5 &&& 0x02 != 0 then q.set 24 (q.byteAt 24 ||| 0x40) else q
      if row.byte 5 &&& 0x01 != 0 then q.set 24 (q.byteAt 24 ||| 0x20) else q := by
    exact if_neg (by rw [(lowBits _).each_clear, decide_eq_false h5]; exact Bool.false_ne_true)
  have hor : ∀ (c : Bool) (x : BitVec 8) (q : Packet),
      (if c then q.set 24 (q.byteAt 24 ||| x) else q).byteAt 24 =
        q.byteAt 24 ||| (if c then x else 0) := by
    intro c x q
    split
    · rw [byteAt_set_same (by decide)]
    · exact (BitVec.or_zero).symm
  rw [hpack]
  refine ⟨fun i hi => ?_, ?_, fun i h1 h2 => ?_⟩
  · rw [byteAt_ite_set_ne (by omega), byteAt_ite_set_ne (by omega), byteAt_set_ne (by omega),
      byteAt_copy_outside (by omega)]
  · rw [hor, hor, byteAt_set_same (by decide), byteAt_copy_inside (by omega) (by decide)]
    rfl
  rw [byteAt_ite_set_ne (by omega), byteAt_ite_set_ne (by omega), byteAt_set_ne (by omega),
    byteAt_copy_inside (by omega) (by unfold ipPacketSize; omega)]
  rfl

theorem packMask48_long (hrow : ∀ i, 6 ≤ i → row.byte i = 0#8) (h5 : row.byte 5 &&& 0x03 ≠ 0)
    (hlen : 32 ≤ p.length) : Packs row 14 p (packMask48 row p) := by
  have htail : ∀ b : BitVec 8, (tailByte b &&& 0x80 != 0) ∧
      (tailByte b >>> 5) &&& 0x03 = b &&& 0x03 ∧
      be64 (be32 (be16 (tailByte b) 0) (be16 0 0)) (be32 (be16 0 0) (be16 0 0)) <<< 3 = 0#64 := by
    decide +kernel
  obtain ⟨hfront, h24, hend⟩ := packMask48_tail row p h5
  obtain ⟨⟨hread, h15, hread2⟩, hk⟩ := packFront48_spec row p
  obtain ⟨t1, t2, t3⟩ := htail (row.byte 5)
  have hpacked : Packed row (packMask48 row p) := by
    refine ⟨?_, ?_, ?_⟩
    · rw [read16_congr fun j _ _ => hfront j (by omega), hread]
    · rw [hfront 20 (by omega), h15]
    · rw [read32_congr fun j _ _ => hfront j (by omega), hread2]
  have hlen' := length_packMask48 row p
  refine ⟨hpacked.unpackPacketMask_14 hrow (hlen' ▸ hlen) ?_ ?_ ?_ ?_, hlen', fun i hi => ?_⟩
  · rw [hfront 20 (by omega), hk]; rfl
  · rw [h24]; exact t1
  · rw [h24]; exact t2
  · unfold read64 read32 read16
    rw [h24, hend _ (by omega) (by omega), hend _ (by omega) (by omega),
      hend _ (by omega) (by omega), hend _ (by omega) (by omega), hend _ (by omega) (by omega),
      hend _ (by omega) (by omega), hend _ (by omega) (by omega)]
    exact t3
  · rw [hfront i (by omega), packFront48_outside row p (by omega)]

end Pack

/-! ## FlexFEC -/

section Flexfec

variable (ssrc : BitVec 32) (base : BitVec 16) (p : Packet)

theorem writeFlexfecBaseHeader_first : (writeFlexfecBaseHeader ssrc base p).byteAt 0 =
    p.byteAt 0 &&& 0x7f &&& 0xbf := by
  unfold writeFlexfecBaseHeader
  simp (disch := first | omega | decide) only [byteAt_write16_outside, byteAt_write32_outside,
    byteAt_copy_outside, byteAt_set_ne, byteAt_set_same]

theorem writeFlexfecBaseHeader_count : (writeFlexfecBaseHeader ssrc base p).byteAt 8 = 1 := by
  unfold writeFlexfecBaseHeader
  simp (disch := first | omega | decide) only [byteAt_write16_outside,
    byteAt_write32_outside, byteAt_copy_outside, byteAt_set_same]

theorem writeFlexfecBaseHeader_ssrc : (writeFlexfecBaseHeader ssrc base p).read32 12 = ssrc := by
  unfold writeFlexfecBaseHeader
  rw [read32_congr fun j _ _ => byteAt_write16_outside (by omega), read32_write32 (by decide)]

theorem writeFlexfecBaseHeader_base : (writeFlexfecBaseHeader ssrc base p).read16 16 = base := by
  unfold writeFlexfecBaseHeader
  rw [read16_write16 (by decide)]

theorem writeFlexfecBaseHeader_outside (hi : 1 ≤ i ∧ i < 8 ∨ 18 ≤ i) :
    (writeFlexfecBaseHeader ssrc base p).byteAt i = p.byteAt i := by
  unfold writeFlexfecBaseHeader
  simp (disch := omega) only [byteAt_write16_outside,
    byteAt_write32_outside, byteAt_copy_outside, byteAt_set_ne]

end Flexfec

theorem length_writeFlexfecBaseHeader (ssrc : BitVec 32) (base : BitVec 16) (p : Packet) :
    (writeFlexfecBaseHeader ssrc base p).length = p.length := by
  simp [writeFlexfecBaseHeader]

/-- The mask of a written FlexFEC header is unpacked to the row it was packed from. -/
theorem finalizeFlexfecHeader_packs (ssrc : BitVec 32) (base : BitVec 16) (p : Packet)
    (hsize : size = 2 ∨ size = 6) (hrow : row.length = size)
    (hlen : 18 + flexfecMinPacketMaskSize row size ≤ p.length) :
    Packs row (flexfecMinPacketMaskSize row size) (writeFlexfecBaseHeader ssrc base p)
      (finalizeFlexfecHeader ssrc base row size p) := by
  have hrow' : ∀ i, size ≤ i → row.byte i = 0#8 := fun i hi => MaskRow.byte_of_le (by omega)
  rw [← length_writeFlexfecBaseHeader ssrc base p] at hlen
  unfold finalizeFlexfecHeader
  generalize writeFlexfecBaseHeader ssrc base p = b at hlen ⊢
  rcases hsize with rfl | rfl
  · change Packs row _ b (packMask16 row b)
    by_cases h15 : row.byte 1 &&& 0x01 = 0
    · rw [show flexfecMinPacketMaskSize row 2 = 2 from if_pos ⟨rfl, h15⟩]
      exact packMask16_short row b hrow' h15
    have hmin : flexfecMinPacketMaskSize row 2 = 6 :=
      (if_neg fun h => h15 h.2).trans (if_pos rfl)
    rw [hmin] at hlen ⊢
    exact packMask16_long row b hrow' h15 hlen
  · change Packs row _ b (packMask48 row b)
    have hmin : flexfecMinPacketMaskSize row 6 = if row.byte 5 &&& 0x03 = 0 then 6 else 14 := by
      simp [flexfecMinPacketMaskSize, kUlpfecPacketMaskSizeLBitClear, kUlpfecPacketMaskSizeLBitSet]
    rw [hmin] at hlen ⊢
    split at hlen <;> rename_i h5
    · rw [if_pos h5]
      exact packMask48_short row b hrow' h5 hlen
    · rw [if_neg h5]
      exact packMask48_long row b hrow' h5 hlen

theorem flexfecMinPacketMaskSize_cases (row : MaskRow) (size : Nat) :
    flexfecMinPacketMaskSize row size = 2 ∨ flexfecMinPacketMaskSize row size = 6 ∨
      flexfecMinPacketMaskSize row size = 14 := by
  unfold flexfecMinPacketMaskSize
  grind

theorem flexfecHeaderSize_min (row : MaskRow) (size : Nat) :
    flexfecHeaderSize (flexfecMinPacketMaskSize row size) =
      18 + flexfecMinPacketMaskSize row size := by
  rcases flexfecMinPacketMaskSize_cases row size with h | h | h <;> rw [h] <;> rfl

theorem readFlexfecHeader_finalize (p : Packet) (seqNum base : BitVec 16) (fecSsrc ssrc : BitVec 32)
    (hsize : size = 2 ∨ size = 6) (hrow : row.length = size)
    (hlen : flexfecHeaderSize (flexfecMinPacketMaskSize row size) ≤ p.length) :
    ∃ f, readFlexfecHeader (.unread seqNum fecSsrc (finalizeFlexfecHeader ssrc base row size p)) =
        some f ∧
      ReadBack .flexfec row size ssrc base p f := by
  have hhs := flexfecHeaderSize_min row size
  rw [hhs] at hlen
  obtain ⟨⟨q, hq, hu⟩, hlenF, hout⟩ := finalizeFlexfecHeader_packs ssrc base p hsize hrow hlen
  rw [length_writeFlexfecBaseHeader] at hlenF
  generalize finalizeFlexfecHeader ssrc base row size p = done at *
  have hmin := flexfecMinPacketMaskSize_cases row size
  have h0 : done.byteAt 0 = p.byteAt 0 &&& 0x7f &&& 0xbf := by
    rw [hout 0 (by omega), writeFlexfecBaseHeader_first]
  have h8 : (done.byteAt 8 != 1) = false := by
    rw [hout 8 (by omega), writeFlexfecBaseHeader_count]
    rfl
  have hread : readFlexfecHeader (.unread seqNum fecSsrc done) = some
        { seqNum := seqNum
          ssrc := fecSsrc
          fecHeaderSize := flexfecHeaderSize (flexfecMinPacketMaskSize row size)
          protectedSsrc := done.read32 12
          seqNumBase := done.read16 16
          packetMaskOffset := kPacketMaskOffset
          packetMaskSize := flexfecMinPacketMaskSize row size
          protectionLength := done.length - flexfecHeaderSize (flexfecMinPacketMaskSize row size)
          pkt := q } := by
    unfold readFlexfecHeader ReceivedFecPacket.unread
    rw [if_neg (by rw [hlenF]; unfold kBaseHeaderSize kStreamSpecificHeaderSize; omega), h0,
      (topBits _).first_clear, (topBits _).second_clear, h8, if_neg Bool.false_ne_true,
      if_neg Bool.false_ne_true, if_neg Bool.false_ne_true,
      if_neg (by rw [hlenF, show flexfecHeaderSize 2 = 20 from rfl]; omega), hq]
  refine ⟨_, hread, ?_⟩
  constructor <;> dsimp only
  · rfl
  · rw [read32_congr fun j _ _ => hout j (by omega), writeFlexfecBaseHeader_ssrc]
  · rw [read16_congr fun j _ _ => hout j (by omega), writeFlexfecBaseHeader_base]
  · rw [hlenF]
  · rw [hu.length, hlenF]
  · rw [hu.outside 0 (by omega), h0, (topBits _).clear_low]
  · intro i h1 h8
    rw [hu.outside i (by omega), hout i (by omega), writeFlexfecBaseHeader_outside _ _ _ (by omega)]
  · intro i hi _
    rw [hu.outside i (by omega), hout i (by omega), writeFlexfecBaseHeader_outside _ _ _ (by omega)]
  · exact hu.mask
  · exact hu.mask_end

theorem unpackPacketMask_size {q : Packet} (h : unpackPacketMask p = some (q, size)) :
    flexfecHeaderSize size = 18 + size := by
  have hsize : size = 2 ∨ size = 6 ∨ size = 14 := by
    simp only [unpackPacketMask] at h
    grind
  rcases hsize with rfl | rfl | rfl <;> rfl

theorem readFlexfecHeader_size {r f : ReceivedFecPacket} (h : readFlexfecHeader r = some f) :
    f.fecHeaderSize = 18 + f.packetMaskSize := by
  simp only [readFlexfecHeader] at h
  repeat' split at h
  all_goals cases h
  exact unpackPacketMask_size ‹_›

theorem length_le_minPacketMaskSize (hsize : row.length = 2 ∨ row.length = 6) :
    row.length ≤ flexfecMinPacketMaskSize row row.length := by
  rcases hsize with h | h <;> rw [h, flexfecMinPacketMaskSize]
  · split
    · decide
    · rw [if_pos (by rfl)]
      decide
  · rw [if_neg fun hclear => absurd hclear.1 (by decide), if_neg (by decide)]
    split <;> decide

/-- The bytes of a row, continued with zeros. -/
theorem map_byte_range {n : Nat} (h : row.length ≤ n) :
    (List.range n).map row.byte = row ++ List.replicate (n - row.length) 0#8 := by
  apply List.ext_getElem
  · simp
    omega
  intro i hi _
  rw [List.getElem_map, List.getElem_range, MaskRow.byte, List.getD_eq_getElem?_getD]
  by_cases hrow : i < row.length
  · rw [List.getElem_append_left hrow, List.getElem?_eq_getElem hrow, Option.getD_some]
  rw [List.getElem_append_right (by omega), List.getElem?_eq_none (by omega),
    List.getElem_replicate]
  rfl

/-- **A FlexFEC header is read back.** A packet whose payload starts behind the header gives back
the mask, continued with zeros, the SSRC, the base, the size of the header and the payload. -/
theorem flexfecHeader_roundTrip (row : MaskRow) (hsize : row.length = 2 ∨ row.length = 6)
    (mediaSsrc fecSsrc : BitVec 32) (seqNum seqNumBase : BitVec 16) (p : Packet)
    (payloadLength : Nat)
    (hlen : p.length =
      flexfecHeaderSize (flexfecMinPacketMaskSize row row.length) + payloadLength) :
    ∃ f, readFlexfecHeader (.unread seqNum fecSsrc
        (finalizeFlexfecHeader mediaSsrc seqNumBase row row.length p)) = some f ∧
      (List.range f.packetMaskSize).map (fun i => f.pkt.byteAt (f.packetMaskOffset + i)) =
        row ++ List.replicate (f.packetMaskSize - row.length) 0#8 ∧
      row.length ≤ f.packetMaskSize ∧ f.protectedSsrc = mediaSsrc ∧ f.seqNumBase = seqNumBase ∧
      f.fecHeaderSize = flexfecHeaderSize (flexfecMinPacketMaskSize row row.length) ∧
      f.protectionLength = payloadLength ∧ f.pkt.length = p.length ∧
      ∀ i < payloadLength, f.fecHeaderSize + i < ipPacketSize →
        f.pkt.byteAt (f.fecHeaderSize + i) = p.byteAt (f.fecHeaderSize + i) := by
  obtain ⟨f, hread, hback⟩ := readFlexfecHeader_finalize p seqNum seqNumBase fecSsrc mediaSsrc hsize
    rfl (by omega)
  have hheader := hback.headerSize
  simp only [fecHeaderSize, minPacketMaskSize] at hheader
  have hmaskSize : f.packetMaskSize = flexfecMinPacketMaskSize row row.length := by
    have hread := readFlexfecHeader_size hread
    rw [hheader, flexfecHeaderSize_min] at hread
    exact (Nat.add_left_cancel hread).symm
  have hfit : row.length ≤ f.packetMaskSize := by
    rw [hmaskSize]
    exact length_le_minPacketMaskSize hsize
  refine ⟨f, hread, ?_, hfit, hback.protectedSsrc, hback.seqNumBase, hheader, ?_, hback.length,
    fun i _ hi => hback.payload _ (Nat.le_add_right _ _) hi⟩
  · rw [← map_byte_range hfit]
    exact List.map_congr_left fun i hi => hback.mask i (List.mem_range.mp hi)
  · rw [hback.protectionLength, hheader]
    omega

/-- Bit 15 is set, so that the mask takes the second part of the header. -/
theorem flexfecHeader_roundTrip_bit15 :
    (∃ f, readFlexfecHeader (.unread 7#16 1#32
        (finalizeFlexfecHeader 2#32 9#16 [0x80#8, 0x01#8] 2 ⟨30, fun _ => 0#8⟩)) = some f ∧
      f.packetMaskSize = 6 ∧ f.protectionLength = 6) := by
  obtain ⟨f, hread, -, -, -, -, hsize, hlength, -⟩ := flexfecHeader_roundTrip [0x80#8, 0x01#8]
    (.inl rfl) 2#32 1#32 7#16 9#16 ⟨30, fun _ => 0#8⟩ 6 (by decide)
  have hmask := readFlexfecHeader_size hread
  rw [hsize] at hmask
  exact ⟨f, hread, (Nat.add_left_cancel (n := 18) hmask).symm, hlength⟩

/-! ## Both formats -/

/-- **A FEC header is read back as it was written.** -/
theorem readFecHeader_finalize (scheme : FecScheme) (p : Packet) (seqNum base : BitVec 16)
    (fecSsrc ssrc : BitVec 32) (hsize : size = 2 ∨ size = 6)
    (hrow : row.length = size) (hssrc : scheme = .ulpfec → fecSsrc = ssrc)
    (hlen : fecHeaderSize scheme (minPacketMaskSize scheme row size) ≤ p.length)
    (hmax : p.length ≤ ipPacketSize) :
    ∃ f, readFecHeader scheme
        (.unread seqNum fecSsrc (finalizeFecHeader scheme ssrc base row size p)) = some f ∧
      ReadBack scheme row size ssrc base p f := by
  cases scheme with
  | ulpfec =>
    rw [hssrc rfl]
    exact readUlpfecHeader_finalize p seqNum base ssrc hsize hrow hlen hmax
  | flexfec => exact readFlexfecHeader_finalize p seqNum base fecSsrc ssrc hsize hrow hlen

end WebRtc.Rtp.Fec
