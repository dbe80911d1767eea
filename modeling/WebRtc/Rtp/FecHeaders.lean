import WebRtc.Rtp.FecPacket

/-! The two FEC header formats: `ulpfec_header_reader_writer.cc` and
`flexfec_header_reader_writer.cc`. A row of a packet mask is the list of its bytes. -/

namespace WebRtc.Rtp.Fec

open BigEndian

inductive FecScheme
  | ulpfec
  | flexfec
  deriving DecidableEq, Repr

/-- `kMaxMediaPackets` and `kMaxFecPackets` of both formats. -/
def kMaxMediaPackets : Nat := 48
def kMaxFecPackets : Nat := kMaxMediaPackets

def kUlpfecPacketMaskSizeLBitClear : Nat := 2
def kUlpfecPacketMaskSizeLBitSet : Nat := 6

/-- `internal::PacketMaskSize`. -/
def packetMaskSize (numSequenceNumbers : Nat) : Nat :=
  if numSequenceNumbers > 8 * kUlpfecPacketMaskSizeLBitClear then kUlpfecPacketMaskSizeLBitSet
  else kUlpfecPacketMaskSizeLBitClear

abbrev MaskRow := List (BitVec 8)

/-- `packet_mask[i]`. -/
def MaskRow.byte (row : MaskRow) (i : Nat) : BitVec 8 := row.getD i 0

/-- The bit of a row that stands for the sequence number `j` after the base. -/
def MaskRow.bit (row : MaskRow) (j : Nat) : Bool := (row.byte (j / 8)).getMsbD (j % 8)

/-- `ByteReader<uint16_t>::ReadBigEndian(&packet_mask[i])`. -/
def MaskRow.read16 (row : MaskRow) (i : Nat) : BitVec 16 := be16 (row.byte i) (row.byte (i + 1))

/-- `ByteReader<uint32_t>::ReadBigEndian(&packet_mask[i])`. -/
def MaskRow.read32 (row : MaskRow) (i : Nat) : BitVec 32 := be32 (row.read16 i) (row.read16 (i + 2))

/-- `ForwardErrorCorrection::ProtectedPacket`. -/
structure ProtectedPacket where
  seqNum : BitVec 16
  pkt : Option Packet

/-- `ForwardErrorCorrection::ReceivedFecPacket`. -/
structure ReceivedFecPacket where
  seqNum : BitVec 16
  protectedPackets : List ProtectedPacket := []
  ssrc : BitVec 32
  fecHeaderSize : Nat := 0
  protectedSsrc : BitVec 32 := 0
  seqNumBase : BitVec 16 := 0
  packetMaskOffset : Nat := 0
  packetMaskSize : Nat := 0
  protectionLength : Nat := 0
  pkt : Packet

/-- A received FEC packet, before its header is read. -/
def ReceivedFecPacket.unread (seqNum : BitVec 16) (ssrc : BitVec 32) (pkt : Packet) :
    ReceivedFecPacket :=
  { seqNum, ssrc, pkt }

/-! ## ULPFEC -/

def kFecLevel0HeaderSize : Nat := 10

def ulpfecHeaderSize (packetMaskSize : Nat) : Nat :=
  if packetMaskSize ≤ kUlpfecPacketMaskSizeLBitClear then
    kFecLevel0HeaderSize + (2 + kUlpfecPacketMaskSizeLBitClear)
  else kFecLevel0HeaderSize + (2 + kUlpfecPacketMaskSizeLBitSet)

/-- `UlpfecHeaderReader::ReadFecHeader`. -/
def readUlpfecHeader (p : ReceivedFecPacket) : Option ReceivedFecPacket :=
  let lBit := p.pkt.byteAt 0 &&& 0x40 != 0
  let size := if lBit then kUlpfecPacketMaskSizeLBitSet else kUlpfecPacketMaskSizeLBitClear
  some { p with
    fecHeaderSize := ulpfecHeaderSize size
    protectedSsrc := p.ssrc
    seqNumBase := p.pkt.read16 2
    packetMaskOffset := kFecLevel0HeaderSize + 2
    packetMaskSize := size
    protectionLength := (p.pkt.read16 10).toNat
    -- the length recovery field goes to the place where FlexFEC has it
    pkt := p.pkt.copy 2 2 fun i => p.pkt.byteAt (8 + i) }

/-- `UlpfecHeaderWriter::FinalizeFecHeader`. -/
def finalizeUlpfecHeader (seqNumBase : BitVec 16) (row : MaskRow) (size : Nat) (p : Packet) :
    Packet :=
  let p := p.set 0 (p.byteAt 0 &&& 0x7f)
  let p := if size = kUlpfecPacketMaskSizeLBitSet then p.set 0 (p.byteAt 0 ||| 0x40)
    else p.set 0 (p.byteAt 0 &&& 0xbf)
  let p := p.copy 8 2 fun i => p.byteAt (2 + i)
  let p := p.write16 2 seqNumBase
  let p := p.write16 10 (BitVec.ofNat 16 p.length - BitVec.ofNat 16 (ulpfecHeaderSize size))
  p.copy 12 size row.byte

/-! ## FlexFEC -/

def kBaseHeaderSize : Nat := 12
def kStreamSpecificHeaderSize : Nat := 6
def kPacketMaskOffset : Nat := kBaseHeaderSize + kStreamSpecificHeaderSize

def flexfecHeaderSize (packetMaskSize : Nat) : Nat :=
  if packetMaskSize ≤ 2 then kPacketMaskOffset + 2
  else if packetMaskSize ≤ 6 then kPacketMaskOffset + 6
  else kPacketMaskOffset + 14

/-- The first part of the packed mask: K-bit 0 is shifted away. -/
def unpackMask0 (p : Packet) : Packet := p.write16 18 (p.read16 18 <<< 1)

/-- The second part: bit 15 goes to its place, K-bit 1 is shifted away. -/
def unpackMask1 (p : Packet) : Packet :=
  let p := p.set 19 (p.byteAt 19 ||| ((p.byteAt 20 >>> 6) &&& 0x01))
  p.write32 20 (p.read32 20 <<< 2)

/-- The third part: bits 46 and 47 go to their places, K-bit 2 is shifted away. -/
def unpackMask2 (p : Packet) : Packet :=
  let p := p.set 23 (p.byteAt 23 ||| ((p.byteAt 24 >>> 5) &&& 0x03))
  p.write64 24 (p.read64 24 <<< 3)

/-- The packet with the K-bits removed from its mask, and the size of the mask. -/
def unpackPacketMask (p : Packet) : Option (Packet × Nat) :=
  let kBit0 := p.byteAt 18 &&& 0x80 != 0
  let p := unpackMask0 p
  if kBit0 then some (p, 2)
  else if p.length < flexfecHeaderSize 6 then none
  else
    let kBit1 := p.byteAt 20 &&& 0x80 != 0
    let p := unpackMask1 p
    if kBit1 then some (p, 6)
    else if p.length < flexfecHeaderSize 14 then none
    else if p.byteAt 24 &&& 0x80 != 0 then some (unpackMask2 p, 14)
    else none

/-- `FlexfecHeaderReader::ReadFecHeader`. -/
def readFlexfecHeader (p : ReceivedFecPacket) : Option ReceivedFecPacket :=
  if p.pkt.length ≤ kBaseHeaderSize + kStreamSpecificHeaderSize then none
  else if p.pkt.byteAt 0 &&& 0x80 != 0 then none
  else if p.pkt.byteAt 0 &&& 0x40 != 0 then none
  else if p.pkt.byteAt 8 != 1 then none
  else if p.pkt.length < flexfecHeaderSize 2 then none
  else
    match unpackPacketMask p.pkt with
    | none => none
    | some (pkt, size) =>
      some { p with
        fecHeaderSize := flexfecHeaderSize size
        protectedSsrc := p.pkt.read32 12
        seqNumBase := p.pkt.read16 16
        packetMaskOffset := kPacketMaskOffset
        packetMaskSize := size
        protectionLength := p.pkt.length - flexfecHeaderSize size
        pkt := pkt }

/-- `FlexfecHeaderWriter::MinPacketMaskSize`. -/
def flexfecMinPacketMaskSize (row : MaskRow) (size : Nat) : Nat :=
  if size = kUlpfecPacketMaskSizeLBitClear ∧ row.byte 1 &&& 0x01 = 0 then 2
  else if size = kUlpfecPacketMaskSizeLBitClear then 6
  else if size = kUlpfecPacketMaskSizeLBitSet ∧ row.byte 5 &&& 0x03 = 0 then 6
  else 14

/-- The 48 bits of a mask with the K-bits put in. -/
def packMask48 (row : MaskRow) (p : Packet) : Packet :=
  let p := p.write16 18 (row.read16 0 >>> 1)
  let p := p.write32 20 (row.read32 2 >>> 2)
  let p := if row.byte 1 &&& 0x01 != 0 then p.set 20 (p.byteAt 20 ||| 0x40) else p
  let bit46 := row.byte 5 &&& 0x02 != 0
  let bit47 := row.byte 5 &&& 0x01 != 0
  if !bit46 && !bit47 then p.set 20 (p.byteAt 20 ||| 0x80)
  else
    let p := p.copy 24 8 fun _ => 0
    let p := p.set 24 (p.byteAt 24 ||| 0x80)
    let p := if bit46 then p.set 24 (p.byteAt 24 ||| 0x40) else p
    if bit47 then p.set 24 (p.byteAt 24 ||| 0x20) else p

/-- The 16 bits of a mask with the K-bits put in. -/
def packMask16 (row : MaskRow) (p : Packet) : Packet :=
  let p := p.write16 18 (row.read16 0 >>> 1)
  if row.byte 1 &&& 0x01 != 0 then
    let p := p.copy 20 4 fun _ => 0
    let p := p.set 20 (p.byteAt 20 ||| 0x80)
    p.set 20 (p.byteAt 20 ||| 0x40)
  else p.set 18 (p.byteAt 18 ||| 0x80)

/-- The fields of a FlexFEC header in front of the mask. -/
def writeFlexfecBaseHeader (mediaSsrc : BitVec 32) (seqNumBase : BitVec 16) (p : Packet) : Packet :=
  let p := p.set 0 (p.byteAt 0 &&& 0x7f)
  let p := p.set 0 (p.byteAt 0 &&& 0xbf)
  let p := p.set 8 1
  let p := p.copy 9 3 fun _ => 0
  let p := p.write32 12 mediaSsrc
  p.write16 16 seqNumBase

/-- `FlexfecHeaderWriter::FinalizeFecHeader`. -/
def finalizeFlexfecHeader (mediaSsrc : BitVec 32) (seqNumBase : BitVec 16) (row : MaskRow)
    (size : Nat) (p : Packet) : Packet :=
  let p := writeFlexfecBaseHeader mediaSsrc seqNumBase p
  if size = kUlpfecPacketMaskSizeLBitSet then packMask48 row p
  else if size = kUlpfecPacketMaskSizeLBitClear then packMask16 row p
  else p

/-! ## Both formats -/

def readFecHeader : FecScheme → ReceivedFecPacket → Option ReceivedFecPacket
  | .ulpfec => readUlpfecHeader
  | .flexfec => readFlexfecHeader

def minPacketMaskSize (scheme : FecScheme) (row : MaskRow) (size : Nat) : Nat :=
  match scheme with
  | .ulpfec => size
  | .flexfec => flexfecMinPacketMaskSize row size

def fecHeaderSize : FecScheme → Nat → Nat
  | .ulpfec => ulpfecHeaderSize
  | .flexfec => flexfecHeaderSize

def finalizeFecHeader (scheme : FecScheme) (mediaSsrc : BitVec 32) (seqNumBase : BitVec 16)
    (row : MaskRow) (size : Nat) (p : Packet) : Packet :=
  match scheme with
  | .ulpfec => finalizeUlpfecHeader seqNumBase row size p
  | .flexfec => finalizeFlexfecHeader mediaSsrc seqNumBase row size p

end WebRtc.Rtp.Fec
