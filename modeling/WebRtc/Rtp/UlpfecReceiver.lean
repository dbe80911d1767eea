import WebRtc.Lib.Outcome
import WebRtc.Rtp.FecDecoder

/-! `UlpfecReceiverImpl::AddReceivedRedPacket` (`ulpfec_receiver_impl.cc`): the RED header of a packet
is taken off, and the block behind it is stored with the RTP header in front. A packet with one block
is stored as it should be; a packet with two blocks is not. -/

namespace WebRtc.Rtp.Ulpfec

open BigEndian Rtp.Fec List

/-- The fields of `RTPHeader` that are read. -/
structure RTPHeader where
  headerLength : Nat
  sequenceNumber : BitVec 16
  deriving DecidableEq, Repr

/-- `FecPacketCounter`, without the packets recovered later. -/
structure FecPacketCounter where
  numPackets : Nat := 0
  numFecPackets : Nat := 0
  firstPacketTimeMs : Int := -1
  deriving DecidableEq, Repr

structure UlpfecReceiver where
  receivedPackets : List ReceivedPacket := []
  packetCounter : FecPacketCounter := {}

/-- What is read from the RED header: the type of the block, the length of the header as far as the
first block goes, and the length of the block if another one follows. -/
structure RedHeader where
  payloadType : BitVec 8
  redHeaderLength : Nat
  blockLength : Nat
  deriving DecidableEq, Repr

/-- `memcpy(data + offset, bytes)`. -/
def copyIn (p : Packet) (offset : Nat) (bytes : List (BitVec 8)) : Except Fault Packet :=
  if offset + bytes.length ≤ ipPacketSize then
    .ok (p.copy offset bytes.length fun i => bytes.getD i 0#8)
  else .error .outOfBounds

/-- The RTP header with another payload type, and a block behind it. -/
def mediaPacket (header : RTPHeader) (packet : List (BitVec 8)) (payloadType : BitVec 8)
    (block : List (BitVec 8)) : Except Fault Packet := do
  let pkt ← copyIn .empty 0 (packet.take header.headerLength)
  copyIn (pkt.set 1 ((pkt.byteAt 1 &&& 0x80#8) + payloadType)) header.headerLength block

/-- The SSRC in an RTP header. -/
def ssrcOf (packet : List (BitVec 8)) : BitVec 32 :=
  be32 (be16 (packet.getD 8 0) (packet.getD 9 0)) (be16 (packet.getD 10 0) (packet.getD 11 0))

namespace UlpfecReceiver

/-- The counter of the packets, with the time of the first one. -/
def countPacket (s : UlpfecReceiver) (nowMs : Int) : UlpfecReceiver :=
  let counter := s.packetCounter
  { s with
    packetCounter :=
      { counter with
        numPackets := counter.numPackets + 1
        firstPacketTimeMs :=
          if counter.firstPacketTimeMs = -1 then nowMs else counter.firstPacketTimeMs } }

/-- The end of the function: an empty packet is not stored, nor is one behind it. -/
def push (s : UlpfecReceiver) (first : ReceivedPacket) (second : List ReceivedPacket) :
    UlpfecReceiver :=
  if first.pkt.length = 0 then s
  else { s with receivedPackets := s.receivedPackets ++ first :: second }

end UlpfecReceiver

/-! ## What should be stored -/

/-- The bytes of a packet. -/
def bytesOf (p : Packet) : List (BitVec 8) := (List.range p.length).map p.byteAt

/-- Whether another block follows the first one. -/
def hasTwoBlocks (header : RTPHeader) (packet : List (BitVec 8)) : Prop :=
  packet.getD header.headerLength 0#8 &&& 0x80#8 ≠ 0#8

instance (header : RTPHeader) (packet : List (BitVec 8)) : Decidable (hasTwoBlocks header packet) :=
  inferInstanceAs (Decidable (_ ≠ _))

/-- The type of the first block. -/
def blockType (header : RTPHeader) (packet : List (BitVec 8)) : BitVec 8 :=
  packet.getD header.headerLength 0#8 &&& 0x7f#8

/-- The 10 bits of the first of two RED headers. -/
def firstBlockLength (header : RTPHeader) (packet : List (BitVec 8)) : Nat :=
  (be16 (packet.getD (header.headerLength + 2) 0#8) (packet.getD (header.headerLength + 3) 0#8)
    &&& 0x3ff#16).toNat

/-- The first block, behind one RED header of a byte or two of five bytes. -/
def firstBlock (header : RTPHeader) (packet : List (BitVec 8)) : List (BitVec 8) :=
  if hasTwoBlocks header packet then
    (packet.drop (header.headerLength + 5)).take (firstBlockLength header packet)
  else packet.drop (header.headerLength + 1)

/-- The RTP header with the type of the block. -/
def rtpHeader (header : RTPHeader) (packet : List (BitVec 8)) : List (BitVec 8) :=
  (packet.take header.headerLength).set 1
    ((packet.getD 1 0#8 &&& 0x80#8) ||| blockType header packet)

/-- The packet holds the RTP header and the first block. -/
structure IsMedia (header : RTPHeader) (packet : List (BitVec 8)) (media : ReceivedPacket) : Prop where
  length : media.pkt.length = header.headerLength + (firstBlock header packet).length
  bytes : bytesOf media.pkt = rtpHeader header packet ++ firstBlock header packet

/-- The packet holds what is behind the first of two blocks. -/
structure IsRemainder (header : RTPHeader) (packet : List (BitVec 8)) (fec : ReceivedPacket) :
    Prop where
  isFec : fec.isFec = true
  ssrc : fec.ssrc = ssrcOf packet
  bytes : bytesOf fec.pkt =
    packet.drop (header.headerLength + 5 + firstBlockLength header packet)

/-- What should be stored: of one block that is not FEC, the media packet; of two blocks, the media
packet and the remaining bytes. -/
def Unwrapped (header : RTPHeader) (packet : List (BitVec 8)) (ulpfecPayloadType : BitVec 8)
    (stored : List ReceivedPacket) : Prop :=
  if hasTwoBlocks header packet then
    ∃ media fec, stored = [media, fec] ∧ IsMedia header packet media ∧ IsRemainder header packet fec
  else blockType header packet ≠ ulpfecPayloadType →
    ∃ media, stored = [media] ∧ IsMedia header packet media

/-! ## The RED header -/

end WebRtc.Rtp.Ulpfec
