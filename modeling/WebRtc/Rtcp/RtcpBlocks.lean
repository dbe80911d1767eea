import WebRtc.Lib.ByteMasks
import WebRtc.Rtcp.TransportFeedback

/-! A compound RTCP packet as the sequence of its blocks (`rtcp_packet/common_header.h`,
`rtcp_packet.cc`): `NextPacket`, the walk over the blocks that the receiver makes, and the big
endian fields of a payload. -/

namespace WebRtc.Rtcp

open BigEndian TransportFeedback List

/-- `ByteReader<uint32_t>::ReadBigEndian(&payload[i])`. -/
def readUInt32 (payload : List Byte) (i : Nat) : BitVec 32 :=
  be32 (be16 (payload.getD i 0) (payload.getD (i + 1) 0))
    (be16 (payload.getD (i + 2) 0) (payload.getD (i + 3) 0))

/-- `kCommonFeedbackLength` of `Rtpfb` and `Psfb`. -/
def kCommonFeedbackLength : Nat := 8

/-- `NextPacket()` of the header parsed at the start of `buffer`: the length in the header counts
the payload and its padding. -/
def nextPacket : List Byte → List Byte
  | _ :: _ :: b2 :: b3 :: rest => rest.drop ((be16 b2 b3).toNat * 4)
  | _ => []

/-- The headers of the blocks in `buffer`, and whether the walk came to the end of the buffer; it
stops in front of a block whose header is invalid. -/
def blocksIn : Nat → List Byte → List CommonHeader × Bool
  | 0, buffer => ([], buffer.isEmpty)
  | fuel + 1, buffer =>
    if buffer.isEmpty then ([], true)
    else
      match CommonHeader.parse buffer with
      | none => ([], false)
      | some header =>
        let (headers, ended) := blocksIn fuel (nextPacket buffer)
        (header :: headers, ended)

/-- The walk of `ParseCompoundPacket`. A block has at least four bytes. -/
def blocks (buffer : List Byte) : List CommonHeader × Bool := blocksIn buffer.length buffer

/-! ## The walk -/

theorem length_nextPacket_lt {buffer : List Byte} (h : buffer ≠ []) :
    (nextPacket buffer).length < buffer.length := by
  match buffer with
  | [] => exact absurd rfl h
  | [_] | [_, _] | [_, _, _] => simp [nextPacket]
  | _ :: _ :: _ :: _ :: rest =>
    simp only [nextPacket, length_drop, length_cons]
    omega

/-- Fuel beyond the length of the buffer changes nothing. -/
theorem blocksIn_eq_blocks (fuel : Nat) (buffer : List Byte) (h : buffer.length ≤ fuel) :
    blocksIn fuel buffer = blocks buffer := by
  unfold blocks
  induction fuel using Nat.strongRecOn generalizing buffer with
  | ind fuel ih =>
    match fuel, hn : buffer.length with
    | 0, n =>
      subst hn
      rw [Nat.le_zero.mp h]
    | fuel + 1, 0 => simp [eq_nil_of_length_eq_zero hn, blocksIn]
    | fuel + 1, n + 1 =>
      have hne : buffer ≠ [] := by rintro rfl; cases hn
      have hlt := length_nextPacket_lt hne
      have hbig := ih fuel (Nat.lt_succ_self _) (nextPacket buffer) (by omega)
      have hsmall := ih n (by omega) (nextPacket buffer) (by omega)
      simp only [blocksIn, hbig, hsmall]

@[simp] theorem blocks_nil : blocks [] = ([], true) := rfl

/-- One step of the walk. -/
theorem blocks_of_parse {buffer : List Byte} {header : CommonHeader}
    (h : CommonHeader.parse buffer = some header) :
    blocks buffer = (header :: (blocks (nextPacket buffer)).1, (blocks (nextPacket buffer)).2) := by
  match hn : buffer.length with
  | 0 => simp [eq_nil_of_length_eq_zero hn, CommonHeader.parse] at h
  | n + 1 =>
    have hne : buffer ≠ [] := by rintro rfl; cases hn
    have hlt := length_nextPacket_lt hne
    unfold blocks
    rw [hn]
    simp only [blocksIn, h, List.isEmpty_iff, hne, if_false,
      blocksIn_eq_blocks n (nextPacket buffer) (by omega)]
    rfl

theorem blocks_of_parse_none {buffer : List Byte} (hne : buffer ≠ [])
    (h : CommonHeader.parse buffer = none) : blocks buffer = ([], false) := by
  match hn : buffer.length with
  | 0 => exact absurd (eq_nil_of_length_eq_zero hn) hne
  | n + 1 => simp [blocks, hn, blocksIn, h, hne]

/-- **Induction along the walk**: what holds of every header that parses holds of every block. -/
theorem mem_blocks {P : CommonHeader → Prop}
    (hP : ∀ buffer header, CommonHeader.parse buffer = some header → P header)
    (buffer : List Byte) : ∀ header ∈ (blocks buffer).1, P header := by
  induction hn : buffer.length using Nat.strongRecOn generalizing buffer with
  | ind n ih =>
    subst hn
    by_cases hne : buffer = []
    · simp [hne]
    cases h : CommonHeader.parse buffer with
    | none => simp [blocks_of_parse_none hne h]
    | some header =>
      rw [blocks_of_parse h]
      intro other hmem
      rcases mem_cons.mp hmem with rfl | hmem
      · exact hP buffer _ h
      · exact ih _ (length_nextPacket_lt hne) _ rfl other hmem

/-! ## Headers that were created -/

/-- A created block in front of other bytes: the header gives back its fields and the payload,
and `NextPacket` is at the other bytes. -/
theorem parse_createHeader {countOrFormat packetType : Byte} {payload : List Byte}
    (hcount : countOrFormat.toNat < 32) {words : Nat} (hpayload : payload.length = 4 * words)
    (hwords : words < 2 ^ 16) (rest : List Byte) :
    CommonHeader.parse (createHeader countOrFormat packetType words ++ payload ++ rest) =
        some ⟨packetType, countOrFormat, payload⟩ ∧
      nextPacket (createHeader countOrFormat packetType words ++ payload ++ rest) = rest := by
  have hlen : (be16 (hi16 (BitVec.ofNat 16 words)) (lo16 (BitVec.ofNat 16 words))).toNat = words := by
    rw [be16_hi_lo, BitVec.toNat_ofNat, Nat.mod_eq_of_lt hwords]
  obtain ⟨hversion, hpadding, hfield⟩ := ByteMasks.version_count countOrFormat hcount
  constructor
  · simp only [createHeader, write16, cons_append, nil_append, CommonHeader.parse, hlen,
      hversion, hpadding, hfield, ne_eq, not_true_eq_false, if_false, length_append]
    rw [if_neg (by omega), take_left' (by omega)]
  · simp only [createHeader, write16, cons_append, nil_append, nextPacket, hlen]
    exact drop_left' (by omega)

/-! ## Fields of a payload -/

theorem readUInt32_append (v : BitVec 32) (before rest : List Byte) :
    readUInt32 (before ++ (write32 v ++ rest)) before.length = v := by
  simp [readUInt32, write32, write16, getD_eq_getElem?_getD]

theorem length_flatMap_write32 (values : List (BitVec 32)) :
    (values.flatMap write32).length = 4 * values.length := by
  induction values with
  | nil => rfl
  | cons v values ih =>
    simp only [flatMap_cons, length_append, length_write32, ih, length_cons]
    omega

/-- The fields of a block of 32-bit fields. -/
theorem readUInt32_flatMap (values : List (BitVec 32)) (rest : List Byte) {i : Nat}
    (h : i < values.length) : readUInt32 (values.flatMap write32 ++ rest) (4 * i) = values[i] := by
  have hsplit : values.flatMap write32 ++ rest =
      (values.take i).flatMap write32 ++ (write32 values[i] ++
        ((values.drop (i + 1)).flatMap write32 ++ rest)) := by
    conv_lhs => rw [← take_append_drop i values, drop_eq_getElem_cons h]
    simp only [flatMap_append, flatMap_cons, append_assoc]
  have hlen : ((values.take i).flatMap write32).length = 4 * i := by
    rw [length_flatMap_write32, length_take]
    omega
  rw [hsplit, ← hlen, readUInt32_append]

end WebRtc.Rtcp
