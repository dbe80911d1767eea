import Mathlib.Data.List.Sort
import WebRtc.Base.SequenceNumber
import WebRtc.Rtp.FecEncoder

/-! The decoder of `forward_error_correction.cc`: the received FEC packets, each with the list
of the media packets it protects, and the list of recovered packets that the caller keeps
between two calls. -/

namespace WebRtc.Rtp.Fec

open SequenceNumber

/-- `ForwardErrorCorrection::ReceivedPacket`. -/
structure ReceivedPacket where
  seqNum : BitVec 16
  ssrc : BitVec 32
  isFec : Bool
  pkt : Packet

/-- `ForwardErrorCorrection::RecoveredPacket`. -/
structure RecoveredPacket where
  seqNum : BitVec 16
  wasRecovered : Bool
  returned : Bool
  pkt : Packet

structure Decoder where
  receivedFecPackets : List ReceivedFecPacket := []
  recoveredPackets : List RecoveredPacket := []

/-- `SortablePacket::LessThan`. -/
def lessThan (first second : BitVec 16) : Bool := isNewerSequenceNumber second first

/-- `list::sort(LessThan())`, which is stable. -/
def sortBySeqNum {α : Type} (seqNum : α → BitVec 16) (l : List α) : List α :=
  l.insertionSort fun a b => ¬ lessThan (seqNum b) (seqNum a)

/-! ## Inserting packets -/

/-- The loop of `std::lower_bound`, on the `len` elements from `first` on. -/
def lowerBoundFrom (l : List (BitVec 16)) (value : BitVec 16) : Nat → Nat → Nat → Nat
  | 0, first, _ => first
  | fuel + 1, first, len =>
    if len = 0 then first
    else if lessThan (l.getD (first + len / 2) 0) value then
      lowerBoundFrom l value fuel (first + len / 2 + 1) (len - (len / 2 + 1))
    else lowerBoundFrom l value fuel first (len / 2)

def lowerBound (l : List (BitVec 16)) (value : BitVec 16) : Nat :=
  lowerBoundFrom l value l.length 0 l.length

/-- `UpdateCoveringFecPackets`, on one FEC packet. -/
def updateCovering (packet : RecoveredPacket) (f : ReceivedFecPacket) : ReceivedFecPacket :=
  let k := lowerBound (f.protectedPackets.map (·.seqNum)) packet.seqNum
  { f with
    protectedPackets := f.protectedPackets.modify k fun q =>
      if q.seqNum = packet.seqNum then { q with pkt := some packet.pkt } else q }

/-- `DiscardOldRecoveredPackets`. -/
def discardOldRecoveredPackets (l : List RecoveredPacket) : List RecoveredPacket :=
  l.drop (l.length - kMaxMediaPackets)

/-- `InsertMediaPacket`. -/
def insertMediaPacket (d : Decoder) (received : ReceivedPacket) : Decoder :=
  if d.recoveredPackets.any fun r => received.seqNum = r.seqNum then d
  else
    let packet : RecoveredPacket := ⟨received.seqNum, false, true, received.pkt⟩
    { receivedFecPackets := d.receivedFecPackets.map (updateCovering packet)
      recoveredPackets := sortBySeqNum (·.seqNum) (d.recoveredPackets ++ [packet]) }

/-- The protected packets that one byte of a mask stands for. The sequence number wraps. -/
def parseMaskByte (seqNumBase : BitVec 16) (byteIdx : Nat) (packetMask : BitVec 8) :
    List ProtectedPacket :=
  (List.range 8).filterMap fun bitIdx =>
    if packetMask.getMsbD bitIdx then
      some ⟨seqNumBase + BitVec.ofNat 16 (byteIdx * 8 + bitIdx), none⟩
    else none

/-- The protected packets that the mask of a read header stands for. -/
def parseProtectedPackets (f : ReceivedFecPacket) : List ProtectedPacket :=
  (List.range f.packetMaskSize).flatMap fun byteIdx =>
    parseMaskByte f.seqNumBase byteIdx (f.pkt.byteAt (f.packetMaskOffset + byteIdx))

/-- The loop of `AssignRecoveredPackets`: both lists are walked in order. -/
def assignFrom : List ProtectedPacket → List RecoveredPacket → List ProtectedPacket
  | [], _ => []
  | q :: qs, rs => walk q qs (assignFrom qs) rs
where
  /-- The part of the walk that stays at the protected packet `q`. -/
  walk (q : ProtectedPacket) (qs : List ProtectedPacket)
      (next : List RecoveredPacket → List ProtectedPacket) :
      List RecoveredPacket → List ProtectedPacket
    | [] => q :: qs
    | r :: rs =>
      if lessThan q.seqNum r.seqNum then q :: next (r :: rs)
      else if lessThan r.seqNum q.seqNum then walk q qs next rs
      else { q with pkt := some r.pkt } :: next rs

/-- `AssignRecoveredPackets`. -/
def assignRecoveredPackets (recovered : List RecoveredPacket) (f : ReceivedFecPacket) :
    ReceivedFecPacket :=
  { f with protectedPackets := assignFrom f.protectedPackets recovered }

/-- `InsertFecPacket`. -/
def insertFecPacket (scheme : FecScheme) (d : Decoder) (received : ReceivedPacket) : Decoder :=
  if d.receivedFecPackets.any fun f => received.seqNum = f.seqNum then d
  else
    match readFecHeader scheme (.unread received.seqNum received.ssrc received.pkt) with
    | none => d
    | some f =>
      let f := { f with protectedPackets := parseProtectedPackets f }
      if f.protectedPackets.isEmpty then d
      else
        let fecPackets := sortBySeqNum (·.seqNum)
          (d.receivedFecPackets ++ [assignRecoveredPackets d.recoveredPackets f])
        { d with
          receivedFecPackets :=
            if fecPackets.length > kMaxFecPackets then fecPackets.tail else fecPackets }

/-- The absolute difference of two sequence numbers, as integers. -/
def seqNumDiff (a b : BitVec 16) : Nat := (a.toNat - b.toNat) + (b.toNat - a.toNat)

/-- One round of the loop of `InsertPackets`. -/
def insertPacket (scheme : FecScheme) (d : Decoder) (received : ReceivedPacket) : Decoder :=
  let d := match d.receivedFecPackets with
    | [] => d
    | f :: fs =>
      if seqNumDiff received.seqNum f.seqNum > 0x3fff then { d with receivedFecPackets := fs }
      else d
  if received.isFec then insertFecPacket scheme d received else insertMediaPacket d received

/-- `InsertPackets`. -/
def insertPackets (scheme : FecScheme) (received : List ReceivedPacket) (d : Decoder) : Decoder :=
  let d := received.foldl (insertPacket scheme) d
  { d with recoveredPackets := discardOldRecoveredPackets d.recoveredPackets }

/-! ## Recovery -/

/-- `StartPacketRecovery`: `none` when the FEC packet cannot be used. -/
def startPacketRecovery (f : ReceivedFecPacket) : Except Fault (Option Packet) :=
  if f.pkt.length < f.fecHeaderSize then .ok none
  else
    let p := Packet.empty.copy 0 kRtpHeaderSize f.pkt.byteAt
    if f.protectionLength >
        min (ipPacketSize - kRtpHeaderSize) (ipPacketSize - f.fecHeaderSize) then .ok none
    else
      match p.memcpy kRtpHeaderSize f.pkt f.fecHeaderSize f.protectionLength with
      | .error e => .error e
      | .ok p => .ok (some p)

/-- The loop of `RecoverPacket` over the protected packets. -/
def xorProtectedPackets :
    List ProtectedPacket → BitVec 16 → Packet → Except Fault (BitVec 16 × Packet)
  | [], seqNum, p => .ok (seqNum, p)
  | q :: rest, seqNum, p =>
    match q.pkt with
    | none => xorProtectedPackets rest q.seqNum p
    | some m =>
      match xorPayloads m m.length kRtpHeaderSize (xorHeaders m p) with
      | .error e => .error e
      | .ok p => xorProtectedPackets rest seqNum p

/-- `FinishPacketRecovery`: `none` when the recovered length is too large. -/
def finishPacketRecovery (f : ReceivedFecPacket) (seqNum : BitVec 16) (p : Packet) :
    Option Packet :=
  let p := p.set 0 (p.byteAt 0 ||| 0x80)
  let p := p.set 0 (p.byteAt 0 &&& 0xbf)
  let p := { p with length := (p.read16 2).toNat + kRtpHeaderSize }
  if p.length > ipPacketSize - kRtpHeaderSize then none
  else some ((p.write16 2 seqNum).write32 8 f.protectedSsrc)

/-- `RecoverPacket`. -/
def recoverPacket (f : ReceivedFecPacket) : Except Fault (Option RecoveredPacket) :=
  match startPacketRecovery f with
  | .error e => .error e
  | .ok none => .ok none
  | .ok (some p) =>
    match xorProtectedPackets f.protectedPackets 0 p with
    | .error e => .error e
    | .ok (seqNum, p) =>
      .ok ((finishPacketRecovery f seqNum p).map fun p => ⟨seqNum, true, false, p⟩)

/-- `NumCoveredPacketsMissing`, which stops counting at two. -/
def numCoveredPacketsMissing (f : ReceivedFecPacket) : Nat :=
  min 2 (f.protectedPackets.countP fun q => q.pkt.isNone)

/-- How a walk over the FEC packets ends: at the end of the list, or with a recovered packet
and the FEC packets that are left. -/
inductive Scan
  | finished (fecPackets : List ReceivedFecPacket)
  | recovered (packet : RecoveredPacket) (fecPackets : List ReceivedFecPacket)

/-- A walk of `AttemptRecovery` over the FEC packets, up to the first recovery. -/
def scan (before : List ReceivedFecPacket) : List ReceivedFecPacket → Except Fault Scan
  | [] => .ok (.finished before)
  | f :: rest =>
    match numCoveredPacketsMissing f with
    | 0 => scan before rest
    | 1 =>
      match recoverPacket f with
      | .error e => .error e
      | .ok none => scan before rest
      | .ok (some packet) => .ok (.recovered packet (before ++ rest))
    | _ => scan (before ++ [f]) rest

/-- `AttemptRecovery`: every recovery starts a new walk and takes away a FEC packet, so there
are at most as many walks after the first one as there are FEC packets. -/
def attemptRecoveryFrom : Nat → Decoder → Except Fault Decoder
  | fuel, d =>
    match scan [] d.receivedFecPackets with
    | .error e => .error e
    | .ok (.finished fecPackets) => .ok { d with receivedFecPackets := fecPackets }
    | .ok (.recovered packet fecPackets) =>
      match fuel with
      | 0 => .error .outOfFuel
      | fuel + 1 =>
        attemptRecoveryFrom fuel
          { receivedFecPackets := fecPackets.map (updateCovering packet)
            recoveredPackets := discardOldRecoveredPackets
              (sortBySeqNum (·.seqNum) (d.recoveredPackets ++ [packet])) }

def attemptRecovery (d : Decoder) : Except Fault Decoder :=
  attemptRecoveryFrom d.receivedFecPackets.length d

/-- The check at the start of `DecodeFec`: a full list of recovered packets that the received
packets are far away from is dropped, with all FEC packets (`ResetState`). -/
def resetIfFar (received : List ReceivedPacket) (d : Decoder) : Except Fault Decoder :=
  if d.recoveredPackets.length = kMaxMediaPackets then
    match received, d.recoveredPackets.getLast? with
    | r :: _, some last =>
      if seqNumDiff r.seqNum last.seqNum > kMaxMediaPackets then .ok {} else .ok d
    | _, _ => .error .emptyList
  else .ok d

/-- `DecodeFec`. -/
def decodeFec (scheme : FecScheme) (received : List ReceivedPacket) (d : Decoder) :
    Except Fault Decoder :=
  match resetIfFar received d with
  | .error e => .error e
  | .ok d => attemptRecovery (insertPackets scheme received d)

end WebRtc.Rtp.Fec
