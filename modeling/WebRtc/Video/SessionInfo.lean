import WebRtc.Base.SequenceNumber

/-! `VCMSessionInfo::InsertPacket` (`session_info.cc`). A sequence number that the class keeps as
an `int`, -1 while it is unknown, is an option. A refused packet does not get to the end of the
function, which puts an accepted one into the list and the frame buffer and updates completeness
and decodability: that part is a parameter, and what is proved holds for any. -/

namespace WebRtc.Video.SessionInfo
open SequenceNumber

inductive FrameType
  | emptyFrame | audioFrameSpeech | audioFrameCN | videoFrameKey | videoFrameDelta
  deriving DecidableEq

inductive VideoCodecType
  | vp8 | vp9 | h264 | i420 | red | ulpfec | flexfec | generic | unknown
  deriving DecidableEq

structure Packet where
  seqNum : BitVec 16
  sizeBytes : Nat := 1
  frameType : FrameType := .videoFrameDelta
  codec : VideoCodecType := .vp8
  isFirstPacketInFrame : Bool := false
  markerBit : Bool := false
  deriving DecidableEq

structure Session where
  complete : Bool := false
  decodable : Bool := false
  frameType : FrameType := .videoFrameDelta
  packets : List Packet := []
  emptySeqNumLow : Option (BitVec 16) := none
  emptySeqNumHigh : Option (BitVec 16) := none
  firstPacketSeqNum : Option (BitVec 16) := none
  lastPacketSeqNum : Option (BitVec 16) := none
  deriving DecidableEq

/-- `LatestSequenceNumber(sequence_number1, sequence_number2)`. -/
def latestSequenceNumber (a b : BitVec 16) : BitVec 16 :=
  if isNewerSequenceNumber a b then a else b

def maxPacketsInSession : Nat := 1400

/-- `InformOfEmptyPacket(seq_num)`. -/
def informOfEmptyPacket (s : Session) (seqNum : BitVec 16) : Session :=
  { s with
    emptySeqNumHigh := some (s.emptySeqNumHigh.elim seqNum (latestSequenceNumber seqNum))
    emptySeqNumLow := if s.emptySeqNumLow.all (isNewerSequenceNumber · seqNum) then some seqNum
      else s.emptySeqNumLow }

/-- The check for duplicate packets, against the last packet that the new one does not precede. -/
def isDuplicate (s : Session) (packet : Packet) : Bool :=
  (s.packets.reverse.find? fun p =>
    latestSequenceNumber packet.seqNum p.seqNum = packet.seqNum).any fun p =>
      p.seqNum = packet.seqNum ∧ 0 < p.sizeBytes

/-- The boundaries of an H.264 frame widen with its packets. -/
def widenBoundaries (s : Session) (packet : Packet) : Session :=
  { s with
    frameType := packet.frameType
    firstPacketSeqNum := if packet.isFirstPacketInFrame ∧
      s.firstPacketSeqNum.all (isNewerSequenceNumber · packet.seqNum) then some packet.seqNum
      else s.firstPacketSeqNum
    lastPacketSeqNum := if packet.markerBit ∧
      s.lastPacketSeqNum.all (isNewerSequenceNumber packet.seqNum ·) then some packet.seqNum
      else s.lastPacketSeqNum }

/-- Whether the packet lies before the first packet of the frame. -/
def precedes (s : Session) (packet : Packet) : Bool :=
  s.firstPacketSeqNum.any (isNewerSequenceNumber · packet.seqNum)

/-- Whether the packet lies behind the last packet of the frame. -/
def follows (s : Session) (packet : Packet) : Bool :=
  s.lastPacketSeqNum.any (isNewerSequenceNumber packet.seqNum)

/-- The first boundary and the frame type of a frame of another codec. -/
def checkFirst (s : Session) (packet : Packet) : Option Session :=
  if packet.isFirstPacketInFrame ∧ s.firstPacketSeqNum = none then
    some { s with frameType := packet.frameType, firstPacketSeqNum := some packet.seqNum }
  else if precedes s packet then none
  else if s.frameType = .emptyFrame ∧ packet.frameType ≠ .emptyFrame then
    some { s with frameType := packet.frameType }
  else some s

/-- The last boundary of a frame of another codec. -/
def checkLast (s : Session) (packet : Packet) : Option Session :=
  if packet.markerBit ∧ s.lastPacketSeqNum = none then
    some { s with lastPacketSeqNum := some packet.seqNum }
  else if follows s packet then none
  else some s

variable (store : Session → Packet → Session × Nat) (s : Session) (packet : Packet)

/-- `InsertPacket(packet, …)`: the session afterwards and the value returned. -/
def insertPacket : Session × Int :=
  let accept := fun s => ((store s packet).1, ((store s packet).2 : Int))
  if packet.frameType = .emptyFrame then (informOfEmptyPacket s packet.seqNum, 0)
  else if s.packets.length = maxPacketsInSession then (s, -1)
  else if isDuplicate s packet then (s, -2)
  else if packet.codec = .h264 then accept (widenBoundaries s packet)
  else
    match checkFirst s packet with
    | none => (s, -3)
    | some first =>
      match checkLast first packet with
      | none => (first, -3)
      | some last => accept last

/-- The first check records the packet: it starts a frame without a first packet, or gives an
empty frame its type. -/
def Recorded (s : Session) (packet : Packet) : Prop :=
  packet.isFirstPacketInFrame ∧ s.firstPacketSeqNum = none ∨
    s.frameType = .emptyFrame ∧ ¬ precedes s packet

/-- A media packet that the first check records and the last one refuses. -/
def LeavesTrace (s : Session) (packet : Packet) : Prop :=
  packet.frameType ≠ .emptyFrame ∧ s.packets.length ≠ maxPacketsInSession ∧
    isDuplicate s packet = false ∧ packet.codec ≠ .h264 ∧ Recorded s packet ∧ follows s packet

variable {s packet}

/-- What the first check leaves of a session, for a media packet. -/
theorem checkFirst_cases {first : Session} (hmedia : packet.frameType ≠ .emptyFrame)
    (h : checkFirst s packet = some first) :
    follows first packet = follows s packet ∧ (first ≠ s ↔ Recorded s packet) := by
  unfold checkFirst at h
  split_ifs at h with hfirst hbefore htype <;> cases h
  · refine ⟨rfl, fun _ => .inl hfirst, fun _ heq => ?_⟩
    have := congrArg Session.firstPacketSeqNum heq
    simp [hfirst.2] at this
  · refine ⟨rfl, fun _ => .inr ⟨htype.1, hbefore⟩, fun _ heq => hmedia ?_⟩
    exact (congrArg Session.frameType heq).trans htype.1
  refine ⟨rfl, fun h => absurd rfl h, fun h => ?_⟩
  rcases h with h | h
  · exact absurd h hfirst
  · exact absurd ⟨h.1, hmedia⟩ htype

theorem not_recorded (h : checkFirst s packet = none) : ¬ Recorded s packet := by
  unfold checkFirst at h
  split_ifs at h with hfirst hbefore
  rintro (hrec | hrec)
  · exact hfirst hrec
  · exact hrec.2 hbefore

theorem checkLast_eq_none : checkLast s packet = none ↔ follows s packet := by
  unfold checkLast follows
  cases s.lastPacketSeqNum with
  | none => split_ifs <;> simp_all
  | some _ => simp

/-- A refused packet leaves the session as it was, unless the check of the last boundary refuses it
after the check of the first has recorded it. -/
theorem insertPacket_refused_unchanged_iff :
    ((insertPacket store s packet).2 < 0 → (insertPacket store s packet).1 = s) ↔
    ¬ LeavesTrace s packet := by
  unfold insertPacket LeavesTrace
  split_ifs with hempty hfull hdup hcodec
  · simp [hempty]
  · simp [hfull]
  · simp [hdup]
  · simp [hcodec]
  -- The refusals left are those of the two boundary checks.
  cases hfirst : checkFirst s packet with
  | none => simp [not_recorded hfirst]
  | some first =>
    obtain ⟨hfollows, hchanged⟩ := checkFirst_cases hempty hfirst
    rw [← hchanged, ← hfollows, ← checkLast_eq_none]
    cases hlast : checkLast first packet with
    | none => simp [hlast, hempty, hfull, hdup, hcodec]
    | some _ => simp [hlast]

/-- Packet 10 ended the frame; packet 12, which starts a frame, is refused and from now on taken
for the first one. -/
theorem insertPacket_refused_recorded : ∃ (s : Session) (packet : Packet),
    s.firstPacketSeqNum = none ∧ ∀ store, (insertPacket store s packet).2 = -3 ∧
      (insertPacket store s packet).1.firstPacketSeqNum = some 12 :=
  ⟨{ packets := [{ seqNum := 10, markerBit := true }], lastPacketSeqNum := some 10 },
    { seqNum := 12, isFirstPacketInFrame := true }, rfl, fun _ => ⟨rfl, rfl⟩⟩

end WebRtc.Video.SessionInfo
