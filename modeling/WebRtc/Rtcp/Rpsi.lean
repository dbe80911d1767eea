import WebRtc.Rtcp.RtcpBlocks

/-! The reference picture selection indication (`rtcp_packet/rpsi.cc`). The picture id is written
in groups of seven bits, the first group highest; every group but the last has its top bit set. -/

namespace WebRtc.Rtcp

open BigEndian TransportFeedback List

/-- The members of `Rpsi`. `SetPayloadType` takes seven bits; `block_length_` is a function of the
picture id. -/
structure Rpsi where
  senderSsrc : BitVec 32 := 0
  mediaSsrc : BitVec 32 := 0
  payloadType : BitVec 7 := 0
  pictureId : BitVec 64 := 0
  deriving DecidableEq, Repr

namespace Rpsi

/-- `Psfb::kPacketType`. -/
def packetType : Byte := 206#8
/-- `Rpsi::kFeedbackMessageType`. -/
def feedbackMessageType : Byte := 3#8
def kPaddingSizeOffset : Nat := 8
def kPayloadTypeOffset : Nat := 9
def kBitStringOffset : Nat := 10
def kPidBits : Nat := 7

/-- The loop of `RequiredBytes`; the id is used up after ten rounds. -/
def requiredBytesIn : Nat → BitVec 64 → Nat
  | 0, _ => 0
  | rounds + 1, shiftedPid =>
    if shiftedPid >>> kPidBits = 0 then 1
    else 1 + requiredBytesIn rounds (shiftedPid >>> kPidBits)

/-- `RequiredBytes(picture_id)`. -/
def requiredBytes (pictureId : BitVec 64) : Nat := requiredBytesIn 10 pictureId

/-- `Word32Align(x)`. -/
def word32Align (x : Nat) : Nat := (x + 3) / 4 * 4

/-- `CalculateBlockLength(bitstring_size_bytes)`. -/
def calculateBlockLength (bitstringSizeBytes : Nat) : Nat :=
  kHeaderLength + kCommonFeedbackLength + word32Align (2 + bitstringSizeBytes)

/-- `BlockLength()`. -/
def blockLength (rpsi : Rpsi) : Nat := calculateBlockLength (requiredBytes rpsi.pictureId)

/-- One round of the loop of `Parse` over the bit string. -/
def readGroup (pictureId : BitVec 64) (byte : Byte) : BitVec 64 :=
  pictureId <<< kPidBits ||| (byte &&& 0x7f#8).setWidth 64

def readPictureId (bitString : List Byte) : BitVec 64 := bitString.foldl readGroup 0

/-- `Parse(packet)`. -/
def parse (packet : CommonHeader) : Option Rpsi :=
  let payload := packet.payload
  if payload.length < kCommonFeedbackLength + 4 then none
  else
    let paddingBits := (payload.getD kPaddingSizeOffset 0).toNat
    if paddingBits % 8 ≠ 0 then none
    else
      let paddingBytes := paddingBits / 8
      if paddingBytes + kBitStringOffset ≥ payload.length then none
      else
        let paddingOffset := payload.length - paddingBytes
        some
          { senderSsrc := readUInt32 payload 0
            mediaSsrc := readUInt32 payload 4
            payloadType := (payload.getD kPayloadTypeOffset 0).setWidth 7
            pictureId := readPictureId ((payload.take paddingOffset).drop kBitStringOffset) }

/-- The group of seven bits at index `i`, as `Create` writes it. -/
def writeGroup (pictureId : BitVec 64) (i : Nat) : Byte :=
  if i = 0 then (pictureId &&& 0x7f#64).setWidth 8
  else 0x80#8 ||| (pictureId >>> (i * kPidBits)).setWidth 8

/-- The native bit string that `Create` writes. -/
def writePictureId (pictureId : BitVec 64) : List Byte :=
  (List.range (requiredBytes pictureId)).reverse.map (writeGroup pictureId)

def paddingBytes (rpsi : Rpsi) : Nat :=
  let bitstringSizeBytes := requiredBytes rpsi.pictureId
  word32Align (2 + bitstringSizeBytes) - (2 + bitstringSizeBytes)

/-- What `Create` writes behind the header. -/
def payload (rpsi : Rpsi) : List Byte :=
  write32 rpsi.senderSsrc ++ write32 rpsi.mediaSsrc ++
    [BitVec.ofNat 8 (rpsi.paddingBytes * 8), rpsi.payloadType.setWidth 8] ++
    writePictureId rpsi.pictureId ++ List.replicate rpsi.paddingBytes 0#8

/-- The bytes `Create` writes when there is room for them. -/
def written (rpsi : Rpsi) : List Byte :=
  createHeader feedbackMessageType packetType ((rpsi.blockLength - kHeaderLength) / 4) ++
    rpsi.payload

/-! ## The picture id -/

variable (p : BitVec 64)

theorem shift_eq_zero_iff : p >>> kPidBits = 0 ↔ p.toNat < 2 ^ 7 := by
  simp only [kPidBits]
  bv_omega

/-- As many groups are written as the id needs, and at least one. -/
theorem requiredBytesIn_spec (rounds : Nat) (p : BitVec 64) (h : p.toNat < 2 ^ (7 * rounds))
    (hr : 0 < rounds) : 0 < requiredBytesIn rounds p ∧ requiredBytesIn rounds p ≤ rounds ∧
      p.toNat < 2 ^ (7 * requiredBytesIn rounds p) := by
  induction rounds generalizing p with
  | zero => omega
  | succ rounds ih =>
    unfold requiredBytesIn
    by_cases hz : p >>> kPidBits = 0
    · rw [if_pos hz]
      exact ⟨by omega, by omega, (shift_eq_zero_iff p).mp hz⟩
    rw [if_neg hz]
    have hshift : (p >>> kPidBits).toNat = p.toNat / 2 ^ 7 := by
      simp [kPidBits, Nat.shiftRight_eq_div_pow]
    have hbig : ¬ p.toNat < 2 ^ 7 := fun hlt => hz ((shift_eq_zero_iff p).mpr hlt)
    have hrounds : 0 < rounds := by
      rcases Nat.eq_zero_or_pos rounds with rfl | hpos
      · exact absurd h hbig
      · exact hpos
    have hpow : ∀ n, 2 ^ (7 * (n + 1)) = 2 ^ (7 * n) * 2 ^ 7 := fun n => by
      rw [Nat.mul_succ, Nat.pow_add]
    have hlt : (p >>> kPidBits).toNat < 2 ^ (7 * rounds) := by
      rw [hshift]
      exact Nat.div_lt_of_lt_mul (by rw [Nat.mul_comm, ← hpow]; exact h)
    obtain ⟨h1, h2, h3⟩ := ih _ hlt hrounds
    refine ⟨by omega, by omega, ?_⟩
    rw [hshift] at h3
    rw [Nat.add_comm 1, hpow]
    exact (Nat.div_lt_iff_lt_mul (by decide)).mp h3

theorem requiredBytes_spec :
    0 < requiredBytes p ∧ requiredBytes p ≤ 10 ∧ p.toNat < 2 ^ (7 * requiredBytes p) :=
  requiredBytesIn_spec 10 p (Nat.lt_of_lt_of_le p.isLt (by decide)) (by decide)

theorem getLsbD_mask (w j : Nat) :
    (BitVec.ofNat w 0x7f).getLsbD j = (decide (j < w) && decide (j < 7)) := by
  rw [BitVec.getLsbD_ofNat, show (0x7f : Nat) = 2 ^ 7 - 1 from rfl, Nat.testBit_two_pow_sub_one]

theorem writeGroup_and (i : Nat) :
    (writeGroup p i &&& 0x7f#8).setWidth 64 = (p >>> (i * kPidBits)) &&& 0x7f#64 := by
  have hlow : ∀ q : BitVec 64, (q.setWidth 8 &&& 0x7f#8).setWidth 64 = q &&& 0x7f#64 := by
    intro q
    apply BitVec.eq_of_getLsbD_eq
    intro j hj
    simp only [BitVec.getLsbD_setWidth, BitVec.getLsbD_and, getLsbD_mask]
    by_cases h7 : j < 7
    · simp [h7, hj, show j < 8 by omega]
    · simp [h7]
  by_cases hi : i = 0
  · subst hi
    have hand : ∀ q : BitVec 64, (q &&& 0x7f#64) &&& 0x7f#64 = q &&& 0x7f#64 := fun q => by
      rw [BitVec.and_assoc, BitVec.and_self]
    simp [writeGroup, hlow, hand]
  · simp only [writeGroup, hi, if_false]
    rw [BitVec.or_comm, (ByteMasks.fieldBits _).top_bit.2.2.1, hlow]

/-- Reading one more group of the id. -/
theorem readGroup_writeGroup (i : Nat) :
    readGroup (p >>> ((i + 1) * kPidBits)) (writeGroup p i) = p >>> (i * kPidBits) := by
  have hsplit : ∀ q : BitVec 64, (q >>> 7) <<< 7 ||| (q &&& 0x7f#64) = q := by
    intro q
    apply BitVec.eq_of_getLsbD_eq
    intro j hj
    simp only [BitVec.getLsbD_or, BitVec.getLsbD_and, BitVec.getLsbD_shiftLeft,
      BitVec.getLsbD_ushiftRight, getLsbD_mask]
    by_cases h7 : j < 7
    · simp [h7, hj]
    · simp [h7, hj, show 7 + (j - 7) = j by omega]
  rw [readGroup, writeGroup_and, Nat.succ_mul, BitVec.shiftRight_add]
  exact hsplit _

theorem readPictureId_groups (n : Nat) :
    ((range n).reverse.map (writeGroup p)).foldl readGroup (p >>> (n * kPidBits)) = p := by
  induction n with
  | zero => simp
  | succ n ih =>
    rw [range_succ, reverse_append, reverse_singleton, singleton_append,
      map_cons, foldl_cons, readGroup_writeGroup, ih]

/-- The picture id is read back. -/
theorem readPictureId_writePictureId : readPictureId (writePictureId p) = p := by
  have hz : p >>> (requiredBytes p * kPidBits) = 0 := by
    apply BitVec.eq_of_toNat_eq
    rw [BitVec.toNat_ushiftRight, Nat.shiftRight_eq_div_pow, kPidBits, Nat.mul_comm]
    exact Nat.div_eq_of_lt (requiredBytes_spec p).2.2
  have h := readPictureId_groups p (requiredBytes p)
  rw [hz] at h
  exact h

/-! ## Sizes -/

@[simp] theorem length_writePictureId :
    (writePictureId p).length = requiredBytes p := by
  simp [writePictureId]

variable (rpsi : Rpsi)

/-- `BlockLength` predicts what is written. -/
theorem length_payload : kHeaderLength + rpsi.payload.length = rpsi.blockLength := by
  simp only [payload, blockLength, calculateBlockLength, paddingBytes, word32Align,
    kCommonFeedbackLength, length_append, length_cons, length_nil,
    length_replicate, length_write32, length_writePictureId]
  omega

theorem blockLength_words :
    rpsi.payload.length = 4 * ((rpsi.blockLength - kHeaderLength) / 4) := by
  have hp := length_payload rpsi
  have hb : (rpsi.blockLength - kHeaderLength) % 4 = 0 := by
    simp only [blockLength, calculateBlockLength, word32Align, kHeaderLength, kCommonFeedbackLength]
    omega
  omega

theorem words_lt : (rpsi.blockLength - kHeaderLength) / 4 < 2 ^ 16 := by
  have h := (requiredBytes_spec rpsi.pictureId).2.1
  simp only [blockLength, calculateBlockLength, word32Align, kHeaderLength, kCommonFeedbackLength]
  omega

/-! ## Round trip -/

theorem take_drop_payload :
    (rpsi.payload.take (rpsi.payload.length - rpsi.paddingBytes)).drop kBitStringOffset =
      writePictureId rpsi.pictureId := by
  have hlen : rpsi.payload.length - rpsi.paddingBytes =
      (write32 rpsi.senderSsrc ++ write32 rpsi.mediaSsrc ++
        [BitVec.ofNat 8 (rpsi.paddingBytes * 8), rpsi.payloadType.setWidth 8] ++
        writePictureId rpsi.pictureId).length := by
    simp only [payload, length_append, length_replicate]
    omega
  rw [hlen, payload, take_left]
  exact drop_left' rfl

/-- The header and the payload parse to the fields of the packet. -/
theorem parse_written :
    parse ⟨packetType, feedbackMessageType, rpsi.payload⟩ = some rpsi := by
  obtain ⟨hpos, hle, -⟩ := requiredBytes_spec rpsi.pictureId
  have hpadding : rpsi.paddingBytes ≤ 3 := by
    simp only [paddingBytes, word32Align]
    omega
  have hlength : rpsi.payload.length = 10 + requiredBytes rpsi.pictureId + rpsi.paddingBytes := by
    simp [payload]
    omega
  have hbits : (rpsi.payload.getD kPaddingSizeOffset 0).toNat = rpsi.paddingBytes * 8 := by
    have hbyte : rpsi.payload.getD kPaddingSizeOffset 0 = BitVec.ofNat 8 (rpsi.paddingBytes * 8) := rfl
    rw [hbyte, BitVec.toNat_ofNat]
    omega
  have htype : (rpsi.payload.getD kPayloadTypeOffset 0).setWidth 7 = rpsi.payloadType := by
    have hbyte : rpsi.payload.getD kPayloadTypeOffset 0 = rpsi.payloadType.setWidth 8 := rfl
    bv_omega
  have hwords : kCommonFeedbackLength + 4 ≤ rpsi.payload.length := by
    have := blockLength_words rpsi
    simp only [kCommonFeedbackLength]
    omega
  have hsender : readUInt32 rpsi.payload 0 = rpsi.senderSsrc := by
    simp [payload, readUInt32, write32, write16]
  have hmedia : readUInt32 rpsi.payload 4 = rpsi.mediaSsrc := by
    simp [payload, readUInt32, write32, write16]
  simp only [parse, hbits, Nat.mul_mod_left, Nat.mul_div_cancel _ (show 0 < 8 by decide), htype,
    hsender, hmedia, take_drop_payload, readPictureId_writePictureId, ne_eq, not_true_eq_false,
    if_false]
  rw [if_neg (by omega), if_neg (by simp only [kBitStringOffset]; omega)]

end Rpsi
end WebRtc.Rtcp
