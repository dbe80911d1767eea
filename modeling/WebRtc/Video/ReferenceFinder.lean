import WebRtc.Lib.OrderedMap
import WebRtc.Base.SequenceNumber
import WebRtc.Base.ModOps
import WebRtc.Rtp.Vp9Descriptor

/-! `RtpFrameReferenceFinder` (`rtp_frame_reference_finder.cc`) for VP9 and generic frames. A step
the language leaves undefined is a `Fault`. A `std::map` is a list of entries in key order, a
`std::set` a map to `Unit`. The pointer of a `GofInfo` is the index it points to in
`scalability_structures_`, whose entries are overwritten in turn. -/

namespace WebRtc.Video.ReferenceFinder

open Rtp.Vp9Descriptor

def kPicIdLength : Nat := 1 <<< 15
def kMaxTemporalLayers : Nat := 5
def kMaxStashedFrames : Nat := 50
def kMaxGofSaved : Nat := 50
def kMaxPaddingAge : BitVec 16 := 100

/-- The undefined steps of the VP9 path. -/
inductive Fault
  | remainderByZero
  | gofInfoAbsent
  | gofArrayIndex
  | layerIndex
  deriving DecidableEq, Repr

/-- The codecs by the branch of `ManageFrame` they take. -/
inductive CodecType | vp9 | generic
  deriving DecidableEq, Repr

/-- `RtpFrameObject`. `codecHeader` is the header of the frame's first packet. -/
structure Frame where
  codecType : CodecType
  frameType : FrameType
  firstSeqNum : BitVec 16
  lastSeqNum : BitVec 16
  timestamp : BitVec 32
  codecHeader : RTPVideoHeaderVP9
  pictureId : Nat := 0
  spatialLayer : BitVec 8 := 0
  numReferences : Nat := 0
  references : Nat → Nat := fun _ => 0
  interLayerPredicted : Bool := false

/-- `GofInfo`. -/
structure GofInfo where
  gof : Nat
  lastPictureId : Nat
  deriving DecidableEq, Repr

/-- The members of the finder, with the frames given to `OnCompleteFrame`. -/
structure Finder where
  lastSeqNumGop : List (BitVec 16 × (BitVec 16 × BitVec 16)) := []
  lastPictureId : Int := -1
  stashedPadding : List (BitVec 16 × Unit) := []
  lastUnwrap : Int := -1
  stashedFrames : List Frame := []
  currentSsIdx : Nat := 0
  scalabilityStructures : Nat → GofInfoVP9
  gofInfo : List (BitVec 8 × GofInfo) := []
  upSwitch : List (Nat × BitVec 8) := []
  missingFramesForLayer : Nat → List (Nat × Unit) := fun _ => []
  clearedToSeqNum : Option (BitVec 16) := none
  vp9FixLastTimestamp : BitVec 32 := -1
  vp9FixJumpTimestamp : BitVec 32 := -1
  vp9FixLastPictureId : Int := -1
  vp9FixPidOffset : Nat := 0
  vp9FixLastTl0PicIdx : Int := -1
  vp9FixTl0PicIdxOffset : Nat := 0
  completed : List Frame := []

/-! ## Comparisons and conversions -/

/-- `DescendingSeqNumComp<T>`. -/
def descending {w : Nat} (a b : BitVec w) : Bool := SequenceNumber.aheadOf b a

/-- `DescendingSeqNumComp<uint16_t, kPicIdLength>`. -/
def descendingPid (a b : Nat) : Bool := ModOps.aheadOf kPicIdLength b a

/-- `int` to `uint8_t`. -/
def uint8 (x : Int) : BitVec 8 := BitVec.ofInt 8 x

/-- `int` to `uint16_t`. -/
def uint16 (x : Int) : Nat := (BitVec.ofInt 16 x).toNat

/-- `int` to `unsigned long`. -/
def ulong (x : Int) : Nat := (BitVec.ofInt 32 x).toNat

/-- `unsigned long` to `int16_t`. -/
def int16 (x : Nat) : Int := (BitVec.ofNat 16 x).toInt

/-- `x % num_frames_in_gof`. -/
def remainder (x n : Nat) : Except Fault Nat :=
  if n = 0 then .error .remainderByZero else .ok (x % n)

/-- Read one of the arrays of `GofInfoVP9`. -/
def gofRead {α : Type} (a : Nat → α) (i : Nat) : Except Fault α :=
  if i < kMaxVp9FramesInGof then .ok (a i) else .error .gofArrayIndex

/-- `missing_frames_for_layer_[temporal_idx]`. -/
def layerRead (layers : Nat → List (Nat × Unit)) (l : Nat) : Except Fault (List (Nat × Unit)) :=
  if l < kMaxTemporalLayers then .ok (layers l) else .error .layerIndex

namespace Finder

def gofOf (s : Finder) (info : GofInfo) : GofInfoVP9 := s.scalabilityStructures info.gof

/-- `frame_callback_->OnCompleteFrame(frame)`. -/
def onCompleteFrame (s : Finder) (frame : Frame) : Finder :=
  { s with completed := s.completed ++ [frame] }

def stash (s : Finder) (frame : Frame) : Finder :=
  { s with stashedFrames := s.stashedFrames ++ [frame] }

/-! ## Picture ids -/

/-- `UnwrapPictureId(picture_id)`. -/
def unwrapPictureId (s : Finder) (pictureId : Nat) : Finder × Nat :=
  let unwrapTruncated := uint16 (s.lastUnwrap % kPicIdLength)
  let diff := ModOps.minDiff kPicIdLength unwrapTruncated pictureId
  let lastUnwrap :=
    if ModOps.aheadOf kPicIdLength pictureId unwrapTruncated then
      ModOps.add (1 <<< 16) (ulong s.lastUnwrap) diff
    else ModOps.subtract (1 <<< 16) (ulong s.lastUnwrap) diff
  ({ s with lastUnwrap := lastUnwrap }, lastUnwrap)

/-- The loop of `CompletedFrameVp9`: `left` more references from reference `i`. -/
def unwrapReferences : Nat → Nat → Finder → (Nat → Nat) → Finder × (Nat → Nat)
  | 0, _, s, references => (s, references)
  | left + 1, i, s, references =>
    let (s, unwrapped) := s.unwrapPictureId (references i)
    unwrapReferences left (i + 1) s (store references i unwrapped)

/-- `CompletedFrameVp9(frame)` up to its call of `RetryStashedFrames`. -/
def completedFrameVp9 (s : Finder) (frame : Frame) : Finder :=
  let (s, references) := unwrapReferences frame.numReferences 0 s frame.references
  let (s, pictureId) := s.unwrapPictureId frame.pictureId
  s.onCompleteFrame { frame with references := references, pictureId := pictureId }

/-! ## Generic frames -/

/-- The padding that continues at `next`: the last number reached and the padding that is left. -/
def advancePadding (next : BitVec 16) : List (BitVec 16 × Unit) →
    Option (BitVec 16) → Option (BitVec 16) × List (BitVec 16 × Unit)
  | [], reached => (reached, [])
  | (seqNum, _) :: padding, reached =>
    if seqNum = next then advancePadding (next + 1) padding (some next)
    else (reached, (seqNum, ()) :: padding)

/-- `UpdateLastPictureIdWithPadding(seq_num)`. -/
def updateLastPictureIdWithPadding (s : Finder) (seqNum : BitVec 16) : Finder :=
  match OrderedMap.beforeUpperBound descending seqNum s.lastSeqNumGop with
  | none => s
  | some (gop, _, lastWithPadding) =>
    let next := lastWithPadding + 1
    let fromNext := OrderedMap.fromLowerBound descending next s.stashedPadding
    let before := s.stashedPadding.take (s.stashedPadding.length - fromNext.length)
    let (reached, padding) := advancePadding next fromNext none
    { s with
      stashedPadding := before ++ padding
      lastSeqNumGop :=
        OrderedMap.modify gop (fun e => (e.1, reached.getD e.2)) s.lastSeqNumGop }

/-- `ManageFrameGeneric(frame, picture_id)`; the flag says that it ends in
`RetryStashedFrames`. -/
def manageFrameGeneric (s : Finder) (frame : Frame) (pictureId : Int) : Finder × Bool :=
  if pictureId ≠ kNoPictureId then
    let s := if s.lastUnwrap = -1 then { s with lastUnwrap := pictureId } else s
    let (s, unwrapped) := s.unwrapPictureId (uint16 (pictureId % kPicIdLength))
    (s.onCompleteFrame { frame with
      pictureId := unwrapped
      numReferences := if frame.frameType = .key then 0 else 1
      references := store frame.references 0 (uint16 (unwrapped - 1)) }, false)
  else
    let gops :=
      if frame.frameType = .key then
        OrderedMap.insertNew descending frame.lastSeqNum (frame.lastSeqNum, frame.lastSeqNum)
          s.lastSeqNumGop
      else s.lastSeqNumGop
    let s := { s with lastSeqNumGop := gops }
    if gops.isEmpty then (s.stash frame, false)
    else
      -- the info of the last key frame is kept
      let kept := OrderedMap.fromLowerBound descending (frame.lastSeqNum - 100) gops
      let gops := if kept.isEmpty then gops else kept
      let s := { s with lastSeqNumGop := gops }
      match OrderedMap.beforeUpperBound descending frame.lastSeqNum gops with
      | none => (s, false)
      | some (gop, lastPictureIdGop, lastPictureIdWithPaddingGop) =>
        if frame.frameType = .delta ∧ frame.firstSeqNum - 1 ≠ lastPictureIdWithPaddingGop then
          (s.stash frame, false)
        else
          let pictureId := frame.lastSeqNum
          let frame := { frame with
            pictureId := pictureId.toNat
            numReferences := if frame.frameType = .delta then 1 else 0
            references := store frame.references 0 lastPictureIdGop.toNat }
          let gops :=
            if SequenceNumber.aheadOf pictureId lastPictureIdGop then
              OrderedMap.modify gop (fun _ => (pictureId, pictureId)) gops
            else gops
          let s := { s with lastSeqNumGop := gops, lastPictureId := pictureId.toNat }
          ((s.updateLastPictureIdWithPadding pictureId).onCompleteFrame frame, true)

/-! ## Jumps of the VP9 picture id -/

/-- `DetectVp9PicIdJump(fixed_pid, fixed_tl0, timestamp)`. -/
def detectVp9PicIdJump (s : Finder) (fixedPid : Nat) (fixedTl0 : Int) (timestamp : BitVec 32) :
    Except Fault Bool :=
  let lastPid := uint16 s.vp9FixLastPictureId
  if SequenceNumber.aheadOrAt timestamp s.vp9FixLastTimestamp &&
      ModOps.aheadOf kPicIdLength lastPid fixedPid then .ok true
  else if SequenceNumber.aheadOrAt timestamp s.vp9FixLastTimestamp &&
      decide (ModOps.forwardDiff kPicIdLength lastPid fixedPid > 128) then .ok true
  else if fixedTl0 = kNoTl0PicIdx then .ok false
  else
    match OrderedMap.find (uint8 fixedTl0) s.gofInfo with
    | none => .ok false
    | some info => do
      let n := (s.gofOf info).numFramesInGof
      let r ← remainder info.lastPictureId n
      let lastPidGofIdx0 := ModOps.subtract kPicIdLength info.lastPictureId r
      let pidGofEnd := ModOps.add kPicIdLength lastPidGofIdx0 n
      return ModOps.aheadOf kPicIdLength fixedPid pidGofEnd

/-- `DetectVp9Tl0PicIdxJump(fixed_tl0, timestamp)`. -/
def detectVp9Tl0PicIdxJump (s : Finder) (fixedTl0 : Int) (timestamp : BitVec 32) : Bool :=
  if fixedTl0 = kNoTl0PicIdx then false
  else if SequenceNumber.aheadOrAt timestamp s.vp9FixLastTimestamp &&
      SequenceNumber.aheadOf (uint8 s.vp9FixLastTl0PicIdx) (uint8 fixedTl0) then true
  else
    match s.gofInfo with
    | [] => false
    | (first, _) :: _ => SequenceNumber.aheadOf first (uint8 fixedTl0)

/-- The timestamps of `Vp9PidTl0Fix`; `none` for an old frame. -/
def fixTimestamps (s : Finder) (timestamp : BitVec 32) : Option Finder :=
  if s.vp9FixJumpTimestamp ≠ -1 ∧ SequenceNumber.aheadOf s.vp9FixJumpTimestamp timestamp = true then
    none
  else
    let diffMs := (SequenceNumber.forwardDiff s.vp9FixJumpTimestamp timestamp).toNat / 90
    let s :=
      if s.vp9FixJumpTimestamp ≠ -1 ∧ diffMs > 60 * 1000 then { s with vp9FixJumpTimestamp := -1 }
      else s
    let s :=
      if s.vp9FixLastTimestamp = -1 then { s with vp9FixLastTimestamp := timestamp } else s
    some (if SequenceNumber.aheadOf timestamp s.vp9FixLastTimestamp then
      { s with vp9FixLastTimestamp := timestamp } else s)

/-- The fixed TL0 index, recorded as the last one if it is newer. -/
def fixTl0 (s : Finder) (tl0PicIdx : Int) : Finder × Int :=
  if tl0PicIdx = kNoTl0PicIdx then (s, kNoTl0PicIdx)
  else
    let fixedTl0 := int16 (ModOps.add 256 (ulong tl0PicIdx) s.vp9FixTl0PicIdxOffset)
    let s := if s.vp9FixLastTl0PicIdx = -1 then { s with vp9FixLastTl0PicIdx := tl0PicIdx } else s
    if SequenceNumber.aheadOf (uint8 fixedTl0) (uint8 s.vp9FixLastTl0PicIdx) then
      ({ s with vp9FixLastTl0PicIdx := fixedTl0 }, fixedTl0)
    else (s, fixedTl0)

/-- What `Vp9PidTl0Fix` does on a jump: new offsets, and no GOF is kept. -/
def rebase (s : Finder) (pictureId tl0PicIdx : Int) (timestamp : BitVec 32) :
    Finder × Nat × Int :=
  let pidOffset :=
    ModOps.forwardDiff kPicIdLength (uint16 pictureId) (uint16 s.vp9FixLastPictureId) + 128
  let fixedPid := uint16 (ModOps.add kPicIdLength (ulong pictureId) pidOffset)
  let tl0Offset :=
    (SequenceNumber.forwardDiff (uint8 tl0PicIdx) (uint8 s.vp9FixLastTl0PicIdx)).toNat +
      kMaxGofSaved
  let fixedTl0 := int16 (ModOps.add 256 (ulong tl0PicIdx) tl0Offset)
  ({ s with
    vp9FixPidOffset := pidOffset
    vp9FixLastPictureId := fixedPid
    vp9FixJumpTimestamp := timestamp
    gofInfo := []
    vp9FixTl0PicIdxOffset := tl0Offset
    vp9FixLastTl0PicIdx := fixedTl0 }, fixedPid, fixedTl0)

/-- `Vp9PidTl0Fix(frame, picture_id, tl0_pic_idx)`: the fixed ids, or `none` for an old frame. -/
def vp9PidTl0Fix (s : Finder) (timestamp : BitVec 32) (pictureId tl0PicIdx : Int) :
    Except Fault (Finder × Option (Int × Int)) :=
  if pictureId = kNoPictureId then .ok (s, some (pictureId, tl0PicIdx))
  else
    match s.fixTimestamps timestamp with
    | none => .ok (s, none)
    | some s => do
      let fixedPid := uint16 (ModOps.add kPicIdLength (ulong pictureId) s.vp9FixPidOffset)
      let s := if s.vp9FixLastPictureId = -1 then { s with vp9FixLastPictureId := pictureId } else s
      let (s, fixedTl0) := s.fixTl0 tl0PicIdx
      let pidJump ← s.detectVp9PicIdJump fixedPid fixedTl0 timestamp
      let (s, fixedPid, fixedTl0) :=
        if pidJump || s.detectVp9Tl0PicIdxJump fixedTl0 timestamp then
          s.rebase pictureId tl0PicIdx timestamp
        else (s, fixedPid, fixedTl0)
      let s :=
        if ModOps.aheadOf kPicIdLength fixedPid (uint16 s.vp9FixLastPictureId) then
          { s with vp9FixLastPictureId := fixedPid }
        else s
      return (s, some (int16 fixedPid, fixedTl0))

/-! ## VP9 frames -/

/-- The loop of `FrameReceivedVp9` over the frames of a gap. -/
def markMissing (gof : GofInfoVP9) (pictureId : Nat) : Nat → Nat → Nat →
    (Nat → List (Nat × Unit)) → Except Fault (Nat × (Nat → List (Nat × Unit)))
  | 0, lastPictureId, _, layers => .ok (lastPictureId, layers)
  | fuel + 1, lastPictureId, gofIdx, layers =>
    if lastPictureId = pictureId then .ok (lastPictureId, layers)
    else do
      let gofIdx := gofIdx + 1
      let temporalIdx ← gofRead gof.temporalIdx gofIdx
      let layer ← layerRead layers temporalIdx.toNat
      let layers :=
        store layers temporalIdx.toNat (OrderedMap.insertNew descendingPid lastPictureId () layer)
      markMissing gof pictureId fuel (ModOps.add kPicIdLength lastPictureId 1) gofIdx layers

/-- `FrameReceivedVp9(picture_id, info)`. -/
def frameReceivedVp9 (s : Finder) (pictureId : Nat) (info : GofInfo) :
    Except Fault (Finder × GofInfo) := do
  let gof := s.gofOf info
  if ModOps.aheadOf kPicIdLength pictureId info.lastPictureId then
    let diff := ModOps.forwardDiff kPicIdLength gof.pidStart info.lastPictureId
    let gofIdx ← remainder diff gof.numFramesInGof
    let (lastPictureId, layers) ← markMissing gof pictureId kPicIdLength
      (ModOps.add kPicIdLength info.lastPictureId 1) gofIdx s.missingFramesForLayer
    return ({ s with missingFramesForLayer := layers }, { info with lastPictureId := lastPictureId })
  else
    let diff := ModOps.forwardDiff kPicIdLength gof.pidStart pictureId
    let gofIdx ← remainder diff gof.numFramesInGof
    let temporalIdx ← gofRead gof.temporalIdx gofIdx
    let layer ← layerRead s.missingFramesForLayer temporalIdx.toNat
    return ({ s with
      missingFramesForLayer :=
        store s.missingFramesForLayer temporalIdx.toNat (OrderedMap.erase pictureId layer) }, info)

/-- Whether a frame is missing between `ref_pid` and `picture_id` in one of the layers `l`, … -/
def missingInLayers (s : Finder) (pictureId refPid : Nat) : Nat → Nat → Except Fault Bool
  | 0, _ => .ok false
  | left + 1, l => do
    let layer ← layerRead s.missingFramesForLayer l
    match OrderedMap.fromLowerBound descendingPid refPid layer with
    | (missing, _) :: _ =>
      if ModOps.aheadOf kPicIdLength pictureId missing then return true
      else missingInLayers s pictureId refPid left (l + 1)
    | [] => missingInLayers s pictureId refPid left (l + 1)

/-- The same for the references `i`, … of the frame. -/
def missingForReferences (s : Finder) (gof : GofInfoVP9) (pictureId gofIdx temporalIdx : Nat) :
    Nat → Nat → Except Fault Bool
  | 0, _ => .ok false
  | left + 1, i => do
    let pidDiff ← gofRead gof.pidDiff gofIdx
    let refPid := ModOps.subtract kPicIdLength pictureId (pidDiff i).toNat
    let missing ← s.missingInLayers pictureId refPid temporalIdx 0
    if missing then return true
    else missingForReferences s gof pictureId gofIdx temporalIdx left (i + 1)

/-- `MissingRequiredFrameVp9(picture_id, info)`. -/
def missingRequiredFrameVp9 (s : Finder) (pictureId : Nat) (info : GofInfo) :
    Except Fault Bool := do
  let gof := s.gofOf info
  let diff := ModOps.forwardDiff kPicIdLength gof.pidStart pictureId
  let gofIdx ← remainder diff gof.numFramesInGof
  let temporalIdx ← gofRead gof.temporalIdx gofIdx
  let numReferences ← gofRead gof.numRefPics gofIdx
  s.missingForReferences gof pictureId gofIdx temporalIdx.toNat numReferences.toNat 0

/-- `UpSwitchInIntervalVp9(picture_id, temporal_idx, pid_ref)`. -/
def upSwitchInIntervalVp9 (s : Finder) (pictureId : Nat) (temporalIdx : BitVec 8)
    (pidRef : Nat) : Bool :=
  ((OrderedMap.fromUpperBound descendingPid pidRef s.upSwitch).takeWhile
    fun e => ModOps.aheadOf kPicIdLength pictureId e.1).any fun e => e.2 < temporalIdx

/-- The loop that populates the references. A reference before the last up switch is written, and
the count goes down. -/
def populateReferences (s : Finder) (pidDiff : Nat → BitVec 8) (pictureId : Nat)
    (temporalIdx : BitVec 8) : Nat → Nat → Nat → (Nat → Nat) → Nat × (Nat → Nat)
  | 0, _, numReferences, references => (numReferences, references)
  | fuel + 1, i, numReferences, references =>
    if i < numReferences then
      let reference := ModOps.subtract kPicIdLength pictureId (pidDiff i).toNat
      let numReferences :=
        if s.upSwitchInIntervalVp9 pictureId temporalIdx reference then numReferences - 1
        else numReferences
      populateReferences s pidDiff pictureId temporalIdx fuel (i + 1) numReferences
        (store references i reference)
    else (numReferences, references)

/-- The first picture id, as the start of unwrapping and as the last picture id. -/
def noteIds (s : Finder) (pictureId : Int) : Finder :=
  let s := if s.lastUnwrap = -1 then { s with lastUnwrap := pictureId } else s
  if s.lastPictureId = -1 then { s with lastPictureId := uint16 (pictureId % kPicIdLength) } else s

/-- Store the scalability structure of a base layer frame. -/
def storeStructure (s : Finder) (header : RTPVideoHeaderVP9) (tl0PicIdx : Int)
    (pictureId : Nat) : Finder :=
  if header.ssDataAvailable = true ∧ header.temporalIdx = 0 then
    let idx := ModOps.add kMaxGofSaved s.currentSsIdx 1
    { s with
      currentSsIdx := idx
      scalabilityStructures :=
        store s.scalabilityStructures idx { header.gof with pidStart := pictureId }
      gofInfo := OrderedMap.insertNew descending (uint8 tl0PicIdx) ⟨idx, pictureId⟩ s.gofInfo }
  else s

/-- Store the structure, then clean up info for base layers that are too old. -/
def updateGofInfo (s : Finder) (header : RTPVideoHeaderVP9) (tl0PicIdx : Int)
    (pictureId : Nat) : Finder :=
  let s := s.storeStructure header tl0PicIdx pictureId
  { s with
    gofInfo := OrderedMap.fromLowerBound descending (uint8 (tl0PicIdx - kMaxGofSaved)) s.gofInfo }

/-- The key under which a delta frame looks for its GOF. -/
def gofKey (header : RTPVideoHeaderVP9) (tl0PicIdx : Int) : BitVec 8 :=
  if header.temporalIdx = 0 ∧ header.ssDataAvailable = false then uint8 (tl0PicIdx - 1)
  else uint8 tl0PicIdx

/-- Record the up switch of a delta frame and, for a base layer frame without a structure of its
own, the GOF it continues; clean out old up switches. -/
def recordDelta (s : Finder) (frame : Frame) (header : RTPVideoHeaderVP9) (tl0PicIdx : Int)
    (info : GofInfo) : Finder :=
  let upSwitch :=
    if header.temporalUpSwitch then
      OrderedMap.insertNew descendingPid frame.pictureId header.temporalIdx s.upSwitch
    else s.upSwitch
  let oldPictureId := ModOps.subtract kPicIdLength frame.pictureId 50
  { s with
    gofInfo :=
      if header.temporalIdx = 0 ∧ header.ssDataAvailable = false then
        OrderedMap.insertNew descending (uint8 tl0PicIdx) ⟨info.gof, frame.pictureId⟩ s.gofInfo
      else s.gofInfo
    upSwitch := OrderedMap.fromLowerBound descendingPid oldPictureId upSwitch }

/-- Populate the references of a delta frame according to the scalability structure. -/
def completeDelta (s : Finder) (frame : Frame) (header : RTPVideoHeaderVP9) (info : GofInfo) :
    Except Fault (Finder × Bool) := do
  let gof := s.gofOf info
  let diff := ModOps.forwardDiff kPicIdLength gof.pidStart frame.pictureId
  let gofIdx ← remainder diff gof.numFramesInGof
  let numRefPics ← gofRead gof.numRefPics gofIdx
  let pidDiff ← gofRead gof.pidDiff gofIdx
  let (numReferences, references) := s.populateReferences pidDiff frame.pictureId
    header.temporalIdx numRefPics.toNat 0 numRefPics.toNat frame.references
  return (s.completedFrameVp9
    { frame with numReferences := numReferences, references := references }, true)

/-- `ManageFrameVp9` on a delta frame whose GOF is known. -/
def manageDelta (s : Finder) (frame : Frame) (header : RTPVideoHeaderVP9) (tl0PicIdx : Int)
    (key : BitVec 8) (info : GofInfo) : Except Fault (Finder × Bool) := do
  let (s, info) ← s.frameReceivedVp9 frame.pictureId info
  let s := { s with gofInfo := OrderedMap.modify key (fun _ => info) s.gofInfo }
  let missing ← s.missingRequiredFrameVp9 frame.pictureId info
  if missing then return (s.stash frame, false)
  else (s.recordDelta frame header tl0PicIdx info).completeDelta frame header info

/-- `ManageFrameVp9` in non-flexible mode, once the structure is stored. -/
def manageNonFlexible (s : Finder) (frame : Frame) (header : RTPVideoHeaderVP9)
    (tl0PicIdx : Int) : Except Fault (Finder × Bool) :=
  if frame.frameType = .key then
    match OrderedMap.find (uint8 tl0PicIdx) s.gofInfo with
    | none => .error .gofInfoAbsent
    | some info => do
      -- the info of a key frame is a copy, so its last picture id is not kept
      let (s, _) ← s.frameReceivedVp9 frame.pictureId info
      return (s.completedFrameVp9 { frame with numReferences := 0 }, true)
  else
    let key := gofKey header tl0PicIdx
    match OrderedMap.find key s.gofInfo with
    | none => .ok (s.stash frame, false)
    | some info => s.manageDelta frame header tl0PicIdx key info

/-- `ManageFrameVp9` once the ids are fixed. -/
def manageFixed (s : Finder) (frame : Frame) (header : RTPVideoHeaderVP9)
    (pictureId tl0PicIdx : Int) : Except Fault (Finder × Bool) :=
  if pictureId = kNoPictureId ∨ header.temporalIdx = kNoTemporalIdx then
    .ok (s.manageFrameGeneric frame pictureId)
  else
    let frame := { frame with
      spatialLayer := header.spatialIdx
      interLayerPredicted := header.interLayerPredicted
      pictureId := uint16 (pictureId % kPicIdLength) }
    let s := s.noteIds pictureId
    if header.flexibleMode then
      .ok (s.completedFrameVp9 { frame with
        numReferences := header.numRefPics
        references := fun i => if i < header.numRefPics then
          ModOps.subtract (1 <<< 16) frame.pictureId (header.pidDiff i).toNat
          else frame.references i }, true)
    else
      (s.updateGofInfo header tl0PicIdx frame.pictureId).manageNonFlexible frame header tl0PicIdx

/-- `ManageFrameVp9(frame)`; `held` says that the packet buffer still has the frame's first
packet, so that `GetCodecHeader` finds its header. -/
def manageFrameVp9 (s : Finder) (frame : Frame) (held : Bool) : Except Fault (Finder × Bool) :=
  if held then do
    let header := frame.codecHeader
    let (s, fixed) ← s.vp9PidTl0Fix frame.timestamp header.pictureId header.tl0PicIdx
    match fixed with
    | none => return (s, false)
    | some (pictureId, tl0PicIdx) => s.manageFixed frame header pictureId tl0PicIdx
  else .ok (s, false)

/-- `ManageFrame(frame)` up to its call of `RetryStashedFrames`. -/
def manageFrame (s : Finder) (frame : Frame) (held : Bool) : Except Fault (Finder × Bool) :=
  if s.clearedToSeqNum.any (fun seqNum => SequenceNumber.aheadOf seqNum frame.firstSeqNum) then
    .ok (s, false)
  else
    match frame.codecType with
    | .vp9 => s.manageFrameVp9 frame held
    | .generic => .ok (s.manageFrameGeneric frame kNoPictureId)

/-- `PaddingReceived(seq_num)` up to its call of `RetryStashedFrames`. -/
def paddingReceived (s : Finder) (seqNum : BitVec 16) : Finder :=
  let kept := OrderedMap.fromLowerBound descending (seqNum - kMaxPaddingAge) s.stashedPadding
  ({ s with stashedPadding := OrderedMap.insertNew descending seqNum () kept } :
    Finder).updateLastPictureIdWithPadding seqNum

/-- `ClearTo(seq_num)`. -/
def clearTo (s : Finder) (seqNum : BitVec 16) : Finder :=
  { s with
    clearedToSeqNum := some seqNum
    stashedFrames := s.stashedFrames.filter fun f => !SequenceNumber.aheadOf seqNum f.firstSeqNum }

/-- The finder after its constructor; `memory` is what `scalability_structures_` holds. -/
def create (memory : Nat → GofInfoVP9) : Finder := { scalabilityStructures := memory }

end Finder

/-! ## Calls and their retries -/

/-- A finder in the middle of a call. `loops` are the loops of `RetryStashedFrames` that run,
innermost first, each with the number of frames it may still take. -/
structure Machine where
  finder : Finder
  loops : List Nat

/-- What happens to the finder: a call from outside, or the next round of the innermost loop. -/
inductive Event
  | manageFrame (frame : Frame) (held : Bool)
  | paddingReceived (seqNum : BitVec 16)
  | clearTo (seqNum : BitVec 16)
  | retry (held : Bool)

namespace Machine

/-- The start of `RetryStashedFrames`. -/
def beginRetry (s : Finder) (loops : List Nat) : Machine :=
  let num := s.stashedFrames.length
  { finder := { s with stashedFrames := s.stashedFrames.drop (num - kMaxStashedFrames) }
    loops := num :: loops }

/-- Go on after `ManageFrame`. -/
def resume (loops : List Nat) (r : Finder × Bool) : Machine :=
  if r.2 then beginRetry r.1 loops else { finder := r.1, loops := loops }

/-- One step. A call from outside waits while another one holds the lock. -/
def next (c : Machine) : Event → Except Fault Machine
  | .manageFrame frame held =>
    if c.loops.isEmpty then do
      let r ← c.finder.manageFrame frame held
      return .resume [] r
    else .ok c
  | .paddingReceived seqNum =>
    if c.loops.isEmpty then .ok (beginRetry (c.finder.paddingReceived seqNum) []) else .ok c
  | .clearTo seqNum =>
    if c.loops.isEmpty then .ok { c with finder := c.finder.clearTo seqNum } else .ok c
  | .retry held =>
    match c.loops, c.finder.stashedFrames with
    | [], _ => .ok c
    | 0 :: loops, _ => .ok { c with loops := loops }
    | _ :: loops, [] => .ok { c with loops := loops }
    | (left + 1) :: loops, frame :: stashed => do
      let r ← ({ c.finder with stashedFrames := stashed } : Finder).manageFrame frame held
      return .resume (left :: loops) r

/-- A run over a list of events. -/
def run (c : Machine) : List Event → Except Fault Machine
  | [] => .ok c
  | e :: events => do
    let c ← c.next e
    c.run events

/-- The undefined step a run ends in. -/
def faultOf : Except Fault Machine → Option Fault
  | .ok _ => none
  | .error fault => some fault

/-- The machine after an event that is defined. -/
def after (c : Machine) (e : Event) : Machine := (c.next e).toOption.getD c

theorem next_eq_after {c : Machine} {e : Event} (h : faultOf (c.next e) = none) :
    c.next e = .ok (c.after e) := by
  unfold after
  cases hr : c.next e with
  | ok _ => rfl
  | error _ => rw [hr] at h; cases h

theorem run_cons_of_defined {c : Machine} {e : Event} (h : faultOf (c.next e) = none)
    (events : List Event) : c.run (e :: events) = (c.after e).run events := by
  rw [run, next_eq_after h]
  rfl

theorem run_cons_of_fault {c : Machine} {e : Event} {fault : Fault}
    (h : faultOf (c.next e) = some fault) (events : List Event) :
    c.run (e :: events) = .error fault := by
  rw [run]
  cases hr : c.next e with
  | ok _ => rw [hr] at h; cases h
  | error _ => rw [hr] at h; cases h; rfl

end Machine

/-! ## A finder with nothing received -/

def blankGof : GofInfoVP9 := ⟨0, fun _ => 0, fun _ => false, fun _ => 0, fun _ _ => 0, 0⟩

def blankHeader : RTPVideoHeaderVP9 where
  interPicPredicted := false
  flexibleMode := false
  beginningOfFrame := false
  endOfFrame := false
  ssDataAvailable := false
  pictureId := 0
  maxPictureId := 0
  tl0PicIdx := 0
  temporalIdx := 0
  spatialIdx := 0
  temporalUpSwitch := false
  interLayerPredicted := false
  gofIdx := 0
  numRefPics := 0
  pidDiff := fun _ => 0
  refPictureId := fun _ => 0
  numSpatialLayers := 0
  spatialLayerResolutionPresent := false
  width := fun _ => 0
  height := fun _ => 0
  gof := blankGof

/-- A machine with nothing received. -/
def fresh : Machine := ⟨Finder.create fun _ => blankGof, []⟩

end WebRtc.Video.ReferenceFinder
