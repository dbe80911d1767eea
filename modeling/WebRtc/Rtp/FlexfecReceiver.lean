import WebRtc.Rtp.FecDecoder
import WebRtc.Rtp.RtpPacket

/-! `FlexfecReceiver` (`flexfec_receiver.cc`): media packets and the packets of one FlexFEC stream
are handed to the decoder one at a time, and what it recovers goes to the callback. The time of the
last log line is left out. -/

namespace WebRtc.Rtp.Flexfec

open Rtp.Fec

/-- The least size of a FlexFEC header. -/
def kMinFlexfecHeaderSize : Nat := 20

/-- `RtpPacketReceived`. The payload lies behind the fixed header. -/
structure RtpPacketReceived extends RtpPacket.Packet where
  headerFits : RtpPacket.kFixedHeaderSize ≤ payloadOffset

/-- The receiver, with the packets that `OnRecoveredPacket` was called with. -/
structure FlexfecReceiver where
  ssrc : BitVec 32
  protectedMediaSsrc : BitVec 32
  receivedPackets : List ReceivedPacket := []
  decoder : Decoder := {}
  numPackets : Nat := 0
  numFecPackets : Nat := 0
  numRecoveredPackets : Nat := 0
  recovered : List Packet := []

/-- A new packet with `memcpy(data, bytes, n)`. -/
def copied (n : Nat) (bytes : Nat → BitVec 8) : Except Fault Packet :=
  if n ≤ ipPacketSize then .ok { Packet.empty.copy 0 n bytes with length := n }
  else .error .outOfBounds

namespace FlexfecReceiver

/-- The new packet at the end of `received_packets_`. -/
def pushReceived (s : FlexfecReceiver) (received : ReceivedPacket) : FlexfecReceiver :=
  { s with
    receivedPackets := s.receivedPackets ++ [received]
    numPackets := s.numPackets + 1
    numFecPackets := if received.isFec then s.numFecPackets + 1 else s.numFecPackets }

/-- What `AddReceivedPacket` makes of a packet: a FEC packet is its payload, a media packet is the
whole packet, and other packets are left out. -/
def received (s : FlexfecReceiver) (packet : RtpPacketReceived) :
    Except Fault (Option ReceivedPacket) :=
  if packet.ssrc = s.ssrc then
    if packet.payloadSize < kMinFlexfecHeaderSize then .ok none
    else do
      let pkt ← copied packet.payloadSize fun i => packet.byte (packet.payloadOffset + i)
      return some ⟨packet.sequenceNumber, packet.ssrc, true, pkt⟩
  else if packet.ssrc ≠ s.protectedMediaSsrc then .ok none
  else do
    let pkt ← copied packet.size packet.byte
    return some ⟨packet.sequenceNumber, packet.ssrc, false, pkt⟩

/-- `AddReceivedPacket(packet)`. -/
def addReceivedPacket (s : FlexfecReceiver) (packet : RtpPacketReceived) :
    Except Fault (FlexfecReceiver × Bool) := do
  match ← s.received packet with
  | none => return (s, false)
  | some r => return (s.pushReceived r, true)

/-- The loop over the recovered packets: the packets with those returned marked, the packets given
to the callback, and whether it took them all. `accept` is the callback, by what it got before. -/
def returnRecovered (accept : List Packet → Packet → Bool) :
    List Packet → List RecoveredPacket → List RecoveredPacket × List Packet × Bool
  | given, [] => ([], given, true)
  | given, r :: rest =>
    if r.returned then
      let (rest, given, ok) := returnRecovered accept given rest
      (r :: rest, given, ok)
    else if accept given r.pkt then
      let (rest, given, ok) := returnRecovered accept (given ++ [r.pkt]) rest
      ({ r with returned := true } :: rest, given, ok)
    else (r :: rest, given ++ [r.pkt], false)

/-- The call of `DecodeFec`. -/
def decode (s : FlexfecReceiver) : Except Fault FlexfecReceiver :=
  if s.receivedPackets.isEmpty then .ok s
  else do
    let decoder ← decodeFec .flexfec s.receivedPackets s.decoder
    return { s with receivedPackets := [], decoder := decoder }

/-- The rest of `ProcessReceivedPackets`. -/
def returnPackets (accept : List Packet → Packet → Bool) (s : FlexfecReceiver) :
    FlexfecReceiver × Bool :=
  let (packets, given, ok) := returnRecovered accept s.recovered s.decoder.recoveredPackets
  ({ s with
      decoder := { s.decoder with recoveredPackets := packets }
      numRecoveredPackets := s.numRecoveredPackets + (given.length - s.recovered.length)
      recovered := given }, ok)

/-- `ProcessReceivedPackets()`. -/
def processReceivedPackets (accept : List Packet → Packet → Bool) (s : FlexfecReceiver) :
    Except Fault (FlexfecReceiver × Bool) := do
  let s ← s.decode
  return s.returnPackets accept

/-- `OnRtpPacket(packet)`. -/
def onRtpPacket (accept : List Packet → Packet → Bool) (s : FlexfecReceiver)
    (packet : RtpPacketReceived) : Except Fault FlexfecReceiver := do
  let (s, added) ← s.addReceivedPacket packet
  if added then
    let (s, _) ← s.processReceivedPackets accept
    return s
  else return s

/-- A sequence of received packets. -/
def run (accept : List Packet → Packet → Bool) (s : FlexfecReceiver) :
    List RtpPacketReceived → Except Fault FlexfecReceiver
  | [] => .ok s
  | packet :: packets => do
    let s ← s.onRtpPacket accept packet
    s.run accept packets

end FlexfecReceiver

end WebRtc.Rtp.Flexfec
