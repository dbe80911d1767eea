import WebRtc.Rtp.FecHeaders

/-! The encoder of `forward_error_correction.cc`. The mask tables are a parameter: the
encoder is given, for a number of media packets, a number of FEC packets and the index of a
FEC packet, the row that `GeneratePacketMasks` writes for it. -/

namespace WebRtc.Rtp.Fec

open BigEndian

/-! ## XOR of packets -/

/-- The length recovery field of a media packet. -/
def payloadLengthField (src : Packet) : BitVec 16 :=
  BitVec.ofNat 16 src.length - BitVec.ofNat 16 kRtpHeaderSize

/-- `XorHeaders`. The bytes 8 to 11 are skipped. -/
def xorHeaders (src dst : Packet) : Packet :=
  dst.withBytes fun i =>
    if i < 2 ∨ 4 ≤ i ∧ i < 8 then dst.byteAt i ^^^ src.byteAt i
    else if i = 2 then dst.byteAt 2 ^^^ hi16 (payloadLengthField src)
    else if i = 3 then dst.byteAt 3 ^^^ lo16 (payloadLengthField src)
    else dst.byteAt i

/-- The loop of `XorPayloads`, with `n` bytes left to do from the index `i` on. -/
def xorPayloadsFrom (src : Packet) (dstOffset : Nat) : Nat → Nat → Packet → Except Fault Packet
  | 0, _, dst => .ok dst
  | n + 1, i, dst =>
    if dstOffset + i < ipPacketSize ∧ kRtpHeaderSize + i < ipPacketSize then
      xorPayloadsFrom src dstOffset n (i + 1)
        (dst.set (dstOffset + i) (dst.byteAt (dstOffset + i) ^^^ src.byteAt (kRtpHeaderSize + i)))
    else .error .outOfBounds

def xorPayloads (src : Packet) (payloadLength dstOffset : Nat) (dst : Packet) :
    Except Fault Packet :=
  xorPayloadsFrom src dstOffset payloadLength 0 dst

/-! ## Generating the payloads -/

/-- `NumFecPackets`. -/
def numFecPackets (numMediaPackets : Nat) (protectionFactor : BitVec 8) : Nat :=
  let n := (numMediaPackets * protectionFactor.toNat + 2 ^ 7) / 2 ^ 8
  if protectionFactor.toNat > 0 ∧ n = 0 then 1 else n

/-- Adds one media packet to a FEC packet, in `GenerateFecPayloads`. -/
def addMediaPacket (headerSize : Nat) (mediaPacket fecPacket : Packet) : Except Fault Packet :=
  let payloadLength := mediaPacket.length - kRtpHeaderSize
  let firstProtectedPacket := fecPacket.length = 0
  let fecPacket := if headerSize + payloadLength > fecPacket.length then
      { fecPacket with length := headerSize + payloadLength }
    else fecPacket
  if firstProtectedPacket then
    let fecPacket := fecPacket.copy 0 2 mediaPacket.byteAt
    let fecPacket := fecPacket.write16 2 (payloadLengthField mediaPacket)
    let fecPacket := fecPacket.copy 4 4 fun i => mediaPacket.byteAt (4 + i)
    fecPacket.memcpy headerSize mediaPacket kRtpHeaderSize payloadLength
  else xorPayloads mediaPacket payloadLength headerSize (xorHeaders mediaPacket fecPacket)

/-- The loop of `GenerateFecPayloads` over the media packets, for one FEC packet. -/
def generateFecPayloadFrom (row : MaskRow) (headerSize : Nat) :
    Nat → Nat → List Packet → Packet → Except Fault Packet
  | _, _, [], fecPacket => .ok fecPacket
  | pktMaskIdx, mediaPktIdx, mediaPacket :: rest, fecPacket =>
    let added := if (row.byte pktMaskIdx).getMsbD mediaPktIdx then
        addMediaPacket headerSize mediaPacket fecPacket
      else .ok fecPacket
    let mediaPktIdx := match rest with
      | [] => mediaPktIdx
      | next :: _ =>
        mediaPktIdx + (next.parseSequenceNumber - mediaPacket.parseSequenceNumber).toNat
    match added with
    | .error e => .error e
    | .ok fecPacket =>
      generateFecPayloadFrom row headerSize (pktMaskIdx + mediaPktIdx / 8) (mediaPktIdx % 8) rest
        fecPacket

/-- `GenerateFecPayloads`, for one FEC packet. -/
def generateFecPayload (scheme : FecScheme) (mediaPackets : List Packet) (size : Nat)
    (row : MaskRow) : Except Fault Packet :=
  generateFecPayloadFrom row (fecHeaderSize scheme (minPacketMaskSize scheme row size)) 0 0
    mediaPackets Packet.empty

/-! ## Adapting the masks to holes in the sequence numbers -/

/-- `internal::InsertZeroColumns`, on one row. -/
def insertZeroColumns (numZeros newBitIndex : Nat) (newRow : MaskRow) : MaskRow :=
  newRow.modify (newBitIndex / 8) fun b => b <<< min numZeros (7 - newBitIndex % 8)

/-- `internal::CopyColumn`, on one row: the new row and the old row that is left. -/
def copyColumn (newBitIndex oldBitIndex : Nat) (rows : MaskRow × MaskRow) : MaskRow × MaskRow :=
  let bit := (rows.2.byte (oldBitIndex / 8) &&& 0x80) >>> 7
  (rows.1.modify (newBitIndex / 8) fun b =>
      if newBitIndex % 8 ≠ 7 then (b ||| bit) <<< 1 else b ||| bit,
    rows.2.modify (oldBitIndex / 8) fun b => b <<< 1)

/-- The loop of `InsertZerosInPacketMasks`, on one row: the new row and its number of bits. -/
def insertZerosFrom : BitVec 16 → Nat → Nat → List Packet → MaskRow × MaskRow → MaskRow × Nat
  | _, newBitIndex, _, [], rows => (rows.1, newBitIndex)
  | prevSeqNum, newBitIndex, oldBitIndex, mediaPacket :: rest, rows =>
    if newBitIndex = kMaxMediaPackets then (rows.1, newBitIndex)
    else
      let seqNum := mediaPacket.parseSequenceNumber
      let numZeros := (seqNum - prevSeqNum - 1).toNat
      let newRow := if numZeros > 0 then insertZeroColumns numZeros newBitIndex rows.1 else rows.1
      let newBitIndex := newBitIndex + numZeros
      insertZerosFrom seqNum (newBitIndex + 1) (oldBitIndex + 1) rest
        (copyColumn newBitIndex oldBitIndex (newRow, rows.2))

/-- What `InsertZerosInPacketMasks` does to one row when there are holes. -/
def spreadRow (firstSeqNum : BitVec 16) (rest : List Packet) (size : Nat) (row : MaskRow) :
    MaskRow × Nat :=
  let rows := copyColumn 0 0 (List.replicate size 0, row)
  let (newRow, newBitIndex) := insertZerosFrom firstSeqNum 1 1 rest rows
  -- the last byte was not filled: shift its bits to their place
  (if newBitIndex % 8 ≠ 0 then
      newRow.modify (newBitIndex / 8) fun b => b <<< (7 - newBitIndex % 8)
    else newRow, newBitIndex)

/-- `InsertZerosInPacketMasks`, on one row: the row and the number of its bits. -/
def insertZerosInPacketMask (mediaPackets : List Packet) (row : MaskRow) :
    Option (MaskRow × Nat) :=
  match mediaPackets with
  | [] => some (row, 0)
  | [_] => some (row, 1)
  | first :: rest =>
    let lastSeqNum := (rest.getLastD first).parseSequenceNumber
    let numSeqNums := (lastSeqNum - first.parseSequenceNumber).toNat + 1
    if numSeqNums = mediaPackets.length then some (row, mediaPackets.length)
    else if numSeqNums > kMaxMediaPackets then none
    else some (spreadRow first.parseSequenceNumber rest (packetMaskSize numSeqNums) row)

/-! ## The encoder -/

/-- The FEC packet made from one row of the masks. -/
def encodeRow (scheme : FecScheme) (mediaPackets : List Packet) (first : Packet)
    (row : MaskRow) : Except Fault (Option Packet) :=
  match insertZerosInPacketMask mediaPackets row with
  | none => .ok none
  | some (row, numMaskBits) =>
    let size := packetMaskSize numMaskBits
    match generateFecPayload scheme mediaPackets size row with
    | .error e => .error e
    | .ok fecPacket =>
      .ok (some (finalizeFecHeader scheme first.parseSsrc first.parseSequenceNumber row size
        fecPacket))

/-- The FEC packets of the rows, in order; `none` when the masks could not be adapted. -/
def encodeRows (scheme : FecScheme) (mediaPackets : List Packet) (first : Packet) :
    List MaskRow → Except Fault (Option (List Packet))
  | [] => .ok (some [])
  | row :: rest =>
    match encodeRow scheme mediaPackets first row with
    | .error e => .error e
    | .ok none => .ok none
    | .ok (some fecPacket) =>
      match encodeRows scheme mediaPackets first rest with
      | .error e => .error e
      | .ok none => .ok none
      | .ok (some fecPackets) => .ok (some (fecPacket :: fecPackets))

/-- The rows of the masks, one for each FEC packet. -/
def packetMasks (generatePacketMasks : Nat → Nat → Nat → MaskRow)
    (numMediaPackets numFecPackets : Nat) : List MaskRow :=
  (List.range numFecPackets).map (generatePacketMasks numMediaPackets numFecPackets)

/-- `EncodeFec`: `none` is the return value -1. -/
def encodeFec (scheme : FecScheme) (generatePacketMasks : Nat → Nat → Nat → MaskRow)
    (mediaPackets : List Packet) (protectionFactor : BitVec 8) :
    Except Fault (Option (List Packet)) :=
  let numMediaPackets := mediaPackets.length
  if numMediaPackets > kMaxMediaPackets then .ok none
  else if mediaPackets.any fun p => p.length < kRtpHeaderSize then .ok none
  else
    let n := numFecPackets numMediaPackets protectionFactor
    if n = 0 then .ok (some [])
    else
      match mediaPackets with
      | [] => .error .emptyList
      | first :: _ =>
        encodeRows scheme mediaPackets first (packetMasks generatePacketMasks numMediaPackets n)

end WebRtc.Rtp.Fec
