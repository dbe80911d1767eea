import WebRtc.Rtcp.RtcpBlocks

/-! The BYE packet (`rtcp_packet/bye.cc`): its fields, what `Create` writes and `Parse`. -/

namespace WebRtc.Rtcp

open BigEndian TransportFeedback List

/-- The members of `Bye`; the reason is the list of its bytes. -/
structure Bye where
  senderSsrc : BitVec 32 := 0
  csrcs : List (BitVec 32) := []
  reason : List Byte := []
  deriving DecidableEq, Repr

namespace Bye

/-- `Bye::kPacketType`. -/
def packetType : Byte := 203#8

def kMaxNumberOfCsrcs : Nat := 0x1f - 1

/-- What `SetCsrcs` and `SetReason` let in. -/
structure Valid (bye : Bye) : Prop where
  csrcs : bye.csrcs.length ≤ kMaxNumberOfCsrcs
  reason : bye.reason.length ≤ 0xff

/-- `Parse(packet)`. -/
def parse (packet : CommonHeader) : Option Bye :=
  let payload := packet.payload
  let srcCount := packet.countOrFormat.toNat
  if payload.length < 4 * srcCount then none
  else
    let hasReason := decide (payload.length > 4 * srcCount)
    let reasonLength := if hasReason then (payload.getD (4 * srcCount) 0).toNat else 0
    if hasReason ∧ payload.length - 4 * srcCount < 1 + reasonLength then none
    else
      -- a count of zero is valid: no sender and no csrcs
      some
        { senderSsrc := if srcCount = 0 then 0 else readUInt32 payload 0
          csrcs := (List.range (srcCount - 1)).map fun i => readUInt32 payload (4 * (i + 1))
          reason := if hasReason then (payload.drop (4 * srcCount + 1)).take reasonLength else [] }

/-- `BlockLength()`. -/
def blockLength (bye : Bye) : Nat :=
  let srcCount := 1 + bye.csrcs.length
  let reasonSizeIn32bits := if bye.reason.isEmpty then 0 else bye.reason.length / 4 + 1
  kHeaderLength + 4 * (srcCount + reasonSizeIn32bits)

/-- The reason as `Create` writes it, filled up with zeros to `index_end`. -/
def writeReason (bye : Bye) : List Byte :=
  if bye.reason.isEmpty then []
  else
    let bytesToPad := bye.blockLength -
      (kHeaderLength + 4 * (1 + bye.csrcs.length) + 1 + bye.reason.length)
    BitVec.ofNat 8 bye.reason.length :: bye.reason ++ List.replicate bytesToPad 0#8

/-- What `Create` writes behind the header. -/
def payload (bye : Bye) : List Byte :=
  (bye.senderSsrc :: bye.csrcs).flatMap write32 ++ bye.writeReason

/-- The bytes `Create` writes when there is room for them. -/
def written (bye : Bye) : List Byte :=
  createHeader (BitVec.ofNat 8 (1 + bye.csrcs.length)) packetType
    ((bye.blockLength - kHeaderLength) / 4) ++ bye.payload

/-! ## Sizes -/

variable (bye : Bye)

theorem length_writeReason : bye.writeReason.length =
    if bye.reason.isEmpty then 0 else 4 * (bye.reason.length / 4 + 1) := by
  unfold writeReason blockLength
  split
  · rfl
  · simp only [length_cons, length_append, length_replicate]
    omega

/-- `BlockLength` predicts what is written. -/
theorem length_payload : kHeaderLength + bye.payload.length = bye.blockLength := by
  simp only [payload, blockLength, length_append, length_flatMap_write32, length_writeReason,
    length_cons]
  split <;> omega

theorem blockLength_words :
    bye.payload.length = 4 * ((bye.blockLength - kHeaderLength) / 4) := by
  have hp := length_payload bye
  have hb : (bye.blockLength - kHeaderLength) % 4 = 0 := by
    simp only [blockLength]
    omega
  omega

theorem Valid.words_lt {bye : Bye} (h : bye.Valid) :
    (bye.blockLength - kHeaderLength) / 4 < 2 ^ 16 := by
  have hc := h.csrcs
  have hr := h.reason
  simp only [kMaxNumberOfCsrcs] at hc
  simp only [blockLength]
  split <;> omega

/-! ## Round trip -/

theorem readUInt32_payload {i : Nat} (h : i < (bye.senderSsrc :: bye.csrcs).length) :
    readUInt32 bye.payload (4 * i) = (bye.senderSsrc :: bye.csrcs)[i] :=
  readUInt32_flatMap _ _ h

theorem drop_payload :
    bye.payload.drop (4 * (1 + bye.csrcs.length)) = bye.writeReason := by
  refine drop_left' ?_
  rw [length_flatMap_write32, length_cons, Nat.add_comm 1]

theorem getElem?_payload (i : Nat) :
    bye.payload[4 * (1 + bye.csrcs.length) + i]? = bye.writeReason[i]? := by
  rw [← drop_payload, getElem?_drop]

theorem csrcs_readBack :
    (range bye.csrcs.length).map (fun i => readUInt32 bye.payload (4 * (i + 1))) =
      bye.csrcs := by
  apply ext_getElem
  · simp
  intro i h1 h2
  have hi : i + 1 < (bye.senderSsrc :: bye.csrcs).length := by simpa using h2
  simpa using readUInt32_payload bye hi

/-- The header and the payload of a valid packet parse to its fields. -/
theorem parse_written {bye : Bye} (h : bye.Valid) :
    parse ⟨packetType, BitVec.ofNat 8 (1 + bye.csrcs.length), bye.payload⟩ = some bye := by
  have hcount : (BitVec.ofNat 8 (1 + bye.csrcs.length)).toNat = 1 + bye.csrcs.length := by
    have := h.csrcs
    simp only [kMaxNumberOfCsrcs] at this
    rw [BitVec.toNat_ofNat]
    omega
  have hlength : bye.payload.length = 4 * (1 + bye.csrcs.length) + bye.writeReason.length := by
    simp only [payload, length_append, length_flatMap_write32, length_cons]
    omega
  have hsender : readUInt32 bye.payload 0 = bye.senderSsrc := by
    simpa using readUInt32_payload bye (Nat.zero_lt_succ bye.csrcs.length)
  simp only [parse, hcount, Nat.add_sub_cancel_left, csrcs_readBack, hsender]
  rw [if_neg (by omega), if_neg (by omega : ¬ 1 + bye.csrcs.length = 0)]
  by_cases hr : bye.reason.isEmpty
  · -- nothing behind the csrcs
    have hnone : bye.payload.length = 4 * (1 + bye.csrcs.length) := by
      rw [hlength, length_writeReason, if_pos hr]
      rfl
    have hreason : bye.reason = [] := isEmpty_iff.mp hr
    simp [hnone, ← hreason]
  · have hwritten : bye.writeReason.length = 4 * (bye.reason.length / 4 + 1) := by
      rw [length_writeReason, if_neg hr]
    have hfits : bye.reason.length < 256 := Nat.lt_succ_of_le h.reason
    have hsome : 4 * (1 + bye.csrcs.length) < bye.payload.length := by omega
    have hfirst : (bye.payload.getD (4 * (1 + bye.csrcs.length)) 0).toNat = bye.reason.length := by
      have := getElem?_payload bye 0
      rw [Nat.add_zero] at this
      rw [getD_eq_getElem?_getD, this, writeReason, if_neg hr]
      simp [Nat.mod_eq_of_lt hfits]
    have htail : (bye.payload.drop (4 * (1 + bye.csrcs.length) + 1)).take bye.reason.length =
        bye.reason := by
      rw [← drop_drop, drop_payload, writeReason, if_neg hr]
      simp
    simp only [gt_iff_lt, hsome, decide_true, if_true, hfirst, htail]
    rw [if_neg (by omega)]

end Bye
end WebRtc.Rtcp
