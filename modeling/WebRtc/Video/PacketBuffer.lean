import WebRtc.Base.SequenceNumber

/-! `video_coding::PacketBuffer` (`packet_buffer.cc`): a ring of packet slots, indexed
by sequence number modulo a power-of-two size, in which complete frames are found.

The only loop of the class without a bound of its own is the backward search
`while (true)` in `FindFrames`. It gets fuel here and answers `none` when the fuel
is used up; a call returns when some amount of fuel is enough. -/

namespace WebRtc.Video.Packets
open SequenceNumber

abbrev Byte := BitVec 8

inductive VideoCodecType
  | vp8 | vp9 | h264 | i420 | red | ulpfec | flexfec | generic | unknown
  deriving DecidableEq, Repr

/-- The fields of `VCMPacket` that the buffer reads. -/
structure VCMPacket where
  seqNum : BitVec 16 := 0
  timestamp : BitVec 32 := 0
  codec : VideoCodecType := .unknown
  isFirstPacketInFrame : Bool := false
  markerBit : Bool := false
  sizeBytes : Nat := 0
  timesNacked : Int := -1
  dataPtr : Option (List Byte) := none
  deriving DecidableEq, Repr

structure ContinuityInfo where
  seqNum : BitVec 16 := 0
  frameBegin : Bool := false
  frameEnd : Bool := false
  used : Bool := false
  continuous : Bool := false
  frameCreated : Bool := false
  deriving DecidableEq, Repr

/-- What `FindFrames` passes to the constructor of `RtpFrameObject`. -/
structure RtpFrameObject where
  firstSeqNum : BitVec 16
  lastSeqNum : BitVec 16
  frameSize : Nat
  timesNacked : Int
  deriving DecidableEq, Repr

structure PacketBuffer where
  size : Nat
  maxSize : Nat
  firstSeqNum : BitVec 16
  firstPacketReceived : Bool
  isClearedToFirstSeqNum : Bool
  dataBuffer : List VCMPacket
  sequenceBuffer : List ContinuityInfo
  deriving DecidableEq, Repr

def create (startBufferSize maxBufferSize : Nat) : PacketBuffer where
  size := startBufferSize
  maxSize := maxBufferSize
  firstSeqNum := 0
  firstPacketReceived := false
  isClearedToFirstSeqNum := false
  dataBuffer := List.replicate startBufferSize {}
  sequenceBuffer := List.replicate startBufferSize {}

namespace PacketBuffer

/-- `sequence_buffer_[i]`. -/
def info (b : PacketBuffer) (i : Nat) : ContinuityInfo := b.sequenceBuffer.getD i {}

/-- `data_buffer_[i]`. -/
def packet (b : PacketBuffer) (i : Nat) : VCMPacket := b.dataBuffer.getD i {}

def modifyInfo (b : PacketBuffer) (i : Nat) (f : ContinuityInfo → ContinuityInfo) :
    PacketBuffer :=
  { b with sequenceBuffer := b.sequenceBuffer.modify i f }

/-- Delete the payload of slot `i` and mark the slot as not used. -/
def freeSlot (b : PacketBuffer) (i : Nat) : PacketBuffer :=
  { b with
    dataBuffer := b.dataBuffer.modify i (fun p => { p with dataPtr := none })
    sequenceBuffer := b.sequenceBuffer.modify i (fun c => { c with used := false }) }

end PacketBuffer

/-- `sequence_buffer_[i].continuous = true`. -/
def setContinuous (b : PacketBuffer) (i : Nat) : PacketBuffer :=
  b.modifyInfo i (fun c => { c with continuous := true })

/-- `index > 0 ? index - 1 : size_ - 1`. -/
def prevIndex (size index : Nat) : Nat := if index > 0 then index - 1 else size - 1

/-! ## Expansion -/

/-- One pass of the copy loop of `ExpandBufferSize`. -/
def copySlot (b : PacketBuffer) (newSize : Nat) (acc : List ContinuityInfo × List VCMPacket)
    (i : Nat) : List ContinuityInfo × List VCMPacket :=
  if (b.info i).used then
    let index := (b.info i).seqNum.toNat % newSize
    (acc.1.set index (b.info i), acc.2.set index (b.packet i))
  else acc

def copyUsed (b : PacketBuffer) (newSize : Nat) : List ContinuityInfo × List VCMPacket :=
  (List.range b.size).foldl (copySlot b newSize)
    (List.replicate newSize {}, List.replicate newSize {})

def expandBufferSize (b : PacketBuffer) : Bool × PacketBuffer :=
  if b.size = b.maxSize then (false, b)
  else
    let newSize := min b.maxSize (2 * b.size)
    let copied := copyUsed b newSize
    (true, { b with size := newSize, sequenceBuffer := copied.1, dataBuffer := copied.2 })

/-- `while (ExpandBufferSize() && sequence_buffer_[seq_num % size_].used) {}`. Every
expansion makes the ring larger, so `maxSize` passes are enough. -/
def expandWhileUsed (seqNum : BitVec 16) : Nat → PacketBuffer → PacketBuffer
  | 0, b => b
  | fuel + 1, b =>
    match expandBufferSize b with
    | (false, b') => b'
    | (true, b') =>
      if (b'.info (seqNum.toNat % b'.size)).used then expandWhileUsed seqNum fuel b' else b'

/-! ## Finding frames -/

def potentialNewFrame (b : PacketBuffer) (seqNum : BitVec 16) : Bool :=
  let index := seqNum.toNat % b.size
  let prev := prevIndex b.size index
  if !(b.info index).used then false
  else if (b.info index).frameCreated then false
  else if (b.info index).frameBegin then true
  else if !(b.info prev).used then false
  else if (b.info prev).frameCreated then false
  else if (b.info prev).seqNum ≠ (b.info index).seqNum - 1 then false
  else (b.info prev).continuous

/-- The local variables of the backward search, with the buffer it marks. -/
structure Search where
  buffer : PacketBuffer
  startIndex : Nat
  startSeqNum : BitVec 16
  frameSize : Nat
  maxNackCount : Int
  deriving DecidableEq, Repr

/-- Account for the slot at `startIndex` and mark it `frame_created`. -/
def Search.visit (s : Search) : Search :=
  { s with
    frameSize := s.frameSize + (s.buffer.packet s.startIndex).sizeBytes
    maxNackCount := max s.maxNackCount (s.buffer.packet s.startIndex).timesNacked
    buffer := s.buffer.modifyInfo s.startIndex (fun c => { c with frameCreated := true }) }

/-- The body of `while (true)`; the flag says that the loop has reached a `break`. -/
def searchStep (isH264 : Bool) (frameTimestamp : BitVec 32) (index : Nat) (s : Search) :
    Search × Bool :=
  let s := s.visit
  if !isH264 && (s.buffer.info s.startIndex).frameBegin then (s, true)
  else
    let s := { s with startIndex := prevIndex s.buffer.size s.startIndex }
    if isH264 && s.startIndex != index &&
        (!(s.buffer.info s.startIndex).used ||
          (s.buffer.packet s.startIndex).timestamp != frameTimestamp) then (s, true)
    else ({ s with startSeqNum := s.startSeqNum - 1 }, false)

def searchBack (isH264 : Bool) (frameTimestamp : BitVec 32) (index : Nat) :
    Nat → Search → Option Search
  | 0, _ => none
  | fuel + 1, s =>
    match searchStep isH264 frameTimestamp index s with
    | (s', true) => some s'
    | (s', false) => searchBack isH264 frameTimestamp index fuel s'

/-- `FindFrames`; the second argument counts down from `size_ - packets_tested`. -/
def findFramesLoop (fuel : Nat) :
    Nat → PacketBuffer → BitVec 16 → List RtpFrameObject →
      Option (PacketBuffer × List RtpFrameObject)
  | 0, b, _, found => some (b, found)
  | left + 1, b, seqNum, found =>
    if potentialNewFrame b seqNum then
      let index := seqNum.toNat % b.size
      let b := setContinuous b index
      if (b.info index).frameEnd then
        match searchBack ((b.packet index).codec == .h264) (b.packet index).timestamp index
            fuel ⟨b, index, seqNum, 0, -1⟩ with
        | none => none
        | some s =>
          findFramesLoop fuel left s.buffer (seqNum + 1)
            (found ++ [⟨s.startSeqNum, seqNum, s.frameSize, s.maxNackCount⟩])
      else findFramesLoop fuel left b (seqNum + 1) found
    else some (b, found)

def findFrames (fuel : Nat) (b : PacketBuffer) (seqNum : BitVec 16) :
    Option (PacketBuffer × List RtpFrameObject) :=
  findFramesLoop fuel b.size b seqNum []

/-! ## The public operations -/

/-- Write `packet` into slot `index`. -/
def storeAt (b : PacketBuffer) (index : Nat) (packet : VCMPacket) : PacketBuffer :=
  { b with
    sequenceBuffer := b.sequenceBuffer.set index
      { seqNum := packet.seqNum, frameBegin := packet.isFirstPacketInFrame,
        frameEnd := packet.markerBit, used := true, continuous := false, frameCreated := false }
    dataBuffer := b.dataBuffer.set index packet }

/-- The update of `first_seq_num_` at the start of `InsertPacket`. -/
def noteSeqNum (b : PacketBuffer) (seqNum : BitVec 16) : PacketBuffer :=
  if !b.firstPacketReceived then { b with firstSeqNum := seqNum, firstPacketReceived := true }
  else if aheadOf b.firstSeqNum seqNum then { b with firstSeqNum := seqNum }
  else b

/-- `InsertPacket` up to the call of `FindFrames`: either an early return with its
value, or the buffer with the packet stored. -/
def storePacket (b : PacketBuffer) (packet : VCMPacket) : PacketBuffer × Option Bool :=
  let seqNum := packet.seqNum
  -- an old packet, explicitly cleared past
  if b.firstPacketReceived && aheadOf b.firstSeqNum seqNum && b.isClearedToFirstSeqNum then
    (b, some false)
  else
    let b := noteSeqNum b seqNum
    let index := seqNum.toNat % b.size
    if (b.info index).used then
      if (b.packet index).seqNum = packet.seqNum then (b, some true)
      else
        let b := expandWhileUsed seqNum b.maxSize b
        let index := seqNum.toNat % b.size
        if (b.info index).used then (b, some false) else (storeAt b index packet, none)
    else (storeAt b index packet, none)

/-- `InsertPacket`: the new buffer, the return value and the frames handed to
`OnReceivedFrame`. -/
def insertPacket (fuel : Nat) (b : PacketBuffer) (packet : VCMPacket) :
    Option (PacketBuffer × Bool × List RtpFrameObject) :=
  match storePacket b packet with
  | (b, some ret) => some (b, ret, [])
  | (b, none) =>
    match findFrames fuel b packet.seqNum with
    | none => none
    | some (b, frames) => some (b, true, frames)

/-- The loop of `ClearTo`; it ends after at most `2 ^ 15 + 1` passes. -/
def clearToLoop (seqNum : BitVec 16) : Nat → PacketBuffer → PacketBuffer
  | 0, b => b
  | fuel + 1, b =>
    if aheadOrAt seqNum b.firstSeqNum then
      let index := b.firstSeqNum.toNat % b.size
      clearToLoop seqNum fuel { b.freeSlot index with firstSeqNum := b.firstSeqNum + 1 }
    else b

def clearTo (b : PacketBuffer) (seqNum : BitVec 16) : PacketBuffer :=
  if !b.firstPacketReceived then b
  else clearToLoop seqNum (2 ^ 15 + 1) { b with isClearedToFirstSeqNum := true }

def clear (b : PacketBuffer) : PacketBuffer :=
  { (List.range b.size).foldl (fun b i => b.freeSlot i) b with
    firstPacketReceived := false
    isClearedToFirstSeqNum := false }

/-- The loop of `ReturnFrame`; `index` meets `end` within `size_` passes. -/
def returnFrameLoop (endIndex : Nat) : Nat → PacketBuffer → Nat → BitVec 16 → PacketBuffer
  | 0, b, _, _ => b
  | fuel + 1, b, index, seqNum =>
    if index = endIndex then b
    else
      let b := if (b.info index).seqNum = seqNum then b.freeSlot index else b
      returnFrameLoop endIndex fuel b ((index + 1) % b.size) (seqNum + 1)

/-- `ReturnFrame` reads only the first and the last sequence number of the frame. -/
def returnFrame (b : PacketBuffer) (firstSeqNum lastSeqNum : BitVec 16) : PacketBuffer :=
  returnFrameLoop ((lastSeqNum.toNat + 1) % b.size) b.size b (firstSeqNum.toNat % b.size)
    firstSeqNum

/-- What `memcpy(destination, source, length)` copies for slot `index`. -/
def source (b : PacketBuffer) (index : Nat) : List Byte :=
  ((b.packet index).dataPtr.getD []).take (b.packet index).sizeBytes

inductive Op
  | insertPacket (packet : VCMPacket)
  | clearTo (seqNum : BitVec 16)
  | returnFrame (firstSeqNum lastSeqNum : BitVec 16)
  | clear
  deriving DecidableEq, Repr

/-- One public call, with fuel for the backward search. -/
def step (fuel : Nat) (b : PacketBuffer) : Op → Option PacketBuffer
  | .insertPacket packet => (insertPacket fuel b packet).map (·.1)
  | .clearTo seqNum => some (clearTo b seqNum)
  | .returnFrame first last => some (returnFrame b first last)
  | .clear => some (clear b)

/-- The call `op` returns, and leaves the buffer `b'`. -/
def Returns (b : PacketBuffer) (op : Op) (b' : PacketBuffer) : Prop :=
  ∃ fuel, step fuel b op = some b'

def run (fuel : Nat) : PacketBuffer → List Op → Option PacketBuffer
  | b, [] => some b
  | b, op :: ops =>
    match step fuel b op with
    | none => none
    | some b' => run fuel b' ops

end WebRtc.Video.Packets
