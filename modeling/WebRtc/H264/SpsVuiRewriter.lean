import WebRtc.H264.SpsParser

/-! `SpsVuiRewriter` (`webrtc/common_video/h264/sps_vui_rewriter.cc`): a sequence parameter set is
copied with a VUI that allows no frame reordering. The output buffer is allocated without being
cleared, so its first content is a parameter. -/

namespace WebRtc.H264
open Bits Bits.Fields

/-- `kMaxVuiSpsIncrease`. -/
def kMaxVuiSpsIncrease : Nat := 64

/-- `SpsVuiRewriter::ParseResult`. -/
inductive ParseResult where
  | failure
  | pocOk
  | vuiOk
  | vuiRewritten
  deriving DecidableEq, Repr

/-! ## The fields of a VUI -/

/-- A flag, and the fields that follow if it is set. -/
def present {α : Type} (f : Fields α) : Fields (Option α) := do
  let flag ← u 1
  if flag = 1 then
    let a ← f
    return some a
  else return none

/-- The fields of `CopyHrdParameters`; a rate is its `bit_rate_value_minus1`,
`cbp_size_value_minus1` and `cbr_flag`. -/
structure HrdParameters where
  cbpCntMinus1 : BitVec 32
  scales : BitVec 32
  rates : List (BitVec 32 × BitVec 32 × BitVec 32)
  initialCbpRemovalDelayLengthMinus1 : BitVec 32
  cbpRemovalDelayLengthMinus1 : BitVec 32
  dbpOutputDelayLengthMinus1 : BitVec 32
  timeOffsetLength : BitVec 32
  deriving DecidableEq, Repr

def hrdRate : Fields (BitVec 32 × BitVec 32 × BitVec 32) := do
  let bitRateValueMinus1 ← ue
  let cbpSizeValueMinus1 ← ue
  let cbrFlag ← u 1
  return (bitRateValueMinus1, cbpSizeValueMinus1, cbrFlag)

def hrdParameters : Fields HrdParameters := do
  let cbpCntMinus1 ← ue
  let scales ← u 8
  let rates ← times (cbpCntMinus1.toNat + 1) hrdRate
  let initialCbpRemovalDelayLengthMinus1 ← u 5
  let cbpRemovalDelayLengthMinus1 ← u 5
  let dbpOutputDelayLengthMinus1 ← u 5
  let timeOffsetLength ← u 5
  return {
    cbpCntMinus1, scales, rates, initialCbpRemovalDelayLengthMinus1, cbpRemovalDelayLengthMinus1,
    dbpOutputDelayLengthMinus1, timeOffsetLength }

/-- The fields in front of `bitstream_restriction_flag`. -/
structure VuiFront where
  aspectRatio : Option (BitVec 32 × BitVec 32)
  overscanAppropriateFlag : Option (BitVec 32)
  videoSignalType : Option (BitVec 32 × Option (BitVec 32))
  chromaSampleLocType : Option (BitVec 32 × BitVec 32)
  timingInfo : Option (BitVec 32 × BitVec 32 × BitVec 32)
  nalHrdParameters : Option HrdParameters
  vclHrdParameters : Option HrdParameters
  lowDelayHrdFlag : BitVec 32
  picStructPresentFlag : BitVec 32
  deriving DecidableEq, Repr

/-- `aspect_ratio_idc`, with the width and height of an extended ratio. -/
def aspectRatio : Fields (BitVec 32 × BitVec 32) := do
  let aspectRatioIdc ← u 8
  let sar ← if aspectRatioIdc = 255 then u 32 else pure 0
  return (aspectRatioIdc, sar)

/-- The video format with the range flag, and the colour description. -/
def videoSignalType : Fields (BitVec 32 × Option (BitVec 32)) := do
  let videoFormat ← u 4
  let colourDescription ← present (u 24)
  return (videoFormat, colourDescription)

def chromaSampleLocType : Fields (BitVec 32 × BitVec 32) := do
  let topField ← ue
  let bottomField ← ue
  return (topField, bottomField)

def timingInfo : Fields (BitVec 32 × BitVec 32 × BitVec 32) := do
  let numUnitsInTick ← u 32
  let timeScale ← u 32
  let fixedFrameRateFlag ← u 1
  return (numUnitsInTick, timeScale, fixedFrameRateFlag)

def vuiFront : Fields VuiFront := do
  let aspectRatio ← present aspectRatio
  let overscanAppropriateFlag ← present (u 1)
  let videoSignalType ← present videoSignalType
  let chromaSampleLocType ← present chromaSampleLocType
  let timingInfo ← present timingInfo
  let nalHrdParameters ← present hrdParameters
  let vclHrdParameters ← present hrdParameters
  let lowDelayHrdFlag ←
    if nalHrdParameters.isSome || vclHrdParameters.isSome then u 1 else pure 0
  let picStructPresentFlag ← u 1
  return {
    aspectRatio, overscanAppropriateFlag, videoSignalType, chromaSampleLocType, timingInfo,
    nalHrdParameters, vclHrdParameters, lowDelayHrdFlag, picStructPresentFlag }

/-- The fields of a bitstream restriction that are copied. -/
structure RestrictionFront where
  motionVectorsOverPicBoundariesFlag : BitVec 32
  maxBytesPerPicDenom : BitVec 32
  maxBitsPerMbDenom : BitVec 32
  log2MaxMvLengthHorizontal : BitVec 32
  log2MaxMvLengthVertical : BitVec 32
  deriving DecidableEq, Repr

def restrictionFront : Fields RestrictionFront := do
  let motionVectorsOverPicBoundariesFlag ← u 1
  let maxBytesPerPicDenom ← ue
  let maxBitsPerMbDenom ← ue
  let log2MaxMvLengthHorizontal ← ue
  let log2MaxMvLengthVertical ← ue
  return {
    motionVectorsOverPicBoundariesFlag, maxBytesPerPicDenom, maxBitsPerMbDenom,
    log2MaxMvLengthHorizontal, log2MaxMvLengthVertical }

structure BitstreamRestriction where
  front : RestrictionFront
  maxNumReorderFrames : BitVec 32
  maxDecFrameBuffering : BitVec 32
  deriving DecidableEq, Repr

def bitstreamRestriction : Fields BitstreamRestriction := do
  let front ← restrictionFront
  let maxNumReorderFrames ← ue
  let maxDecFrameBuffering ← ue
  return { front, maxNumReorderFrames, maxDecFrameBuffering }

structure Vui where
  front : VuiFront
  restriction : Option BitstreamRestriction
  deriving DecidableEq, Repr

/-- `bitstream_restriction_flag` and the restriction it announces. -/
def restrictionPart : Fields (Option BitstreamRestriction) := do
  let bitstreamRestrictionFlag ← u 1
  if bitstreamRestrictionFlag = 0 then return none
  else
    let restriction ← bitstreamRestriction
    return some restriction

/-- The fields behind `vui_parameters_present_flag` that belong to the VUI. -/
def vui : Fields Vui := do
  let front ← vuiFront
  let restriction ← restrictionPart
  return { front, restriction }

/-- The VUI of a set, if its flag says that there is one. -/
def vuiPart (vuiParamsPresent : BitVec 32) : Fields (Option Vui) :=
  if vuiParamsPresent = 0 then return none
  else do
    let v ← vui
    return some v

/-! ## Rewriting -/

/-- `AddBitstreamRestriction(destination, max_num_ref_frames)`. -/
def addBitstreamRestriction (maxNumRefFrames : BitVec 32) : Reader Unit := do
  writeBits 1 1
  writeExponentialGolomb 2
  writeExponentialGolomb 1
  writeExponentialGolomb 16
  writeExponentialGolomb 16
  writeExponentialGolomb 0
  writeExponentialGolomb maxNumRefFrames

/-- `CopyAndRewriteVui` from `bitstream_restriction_flag` on. -/
def rewriteRestriction (maxNumRefFrames : BitVec 32) (source destination : BitBuffer) :
    Option (ParseResult × BitBuffer × BitBuffer) := do
  let (bitstreamRestrictionFlag, source) ← readBits 1 source
  let (_, destination) ← writeBits 1 1 destination
  if bitstreamRestrictionFlag = 0 then
    let (_, destination) ← addBitstreamRestriction maxNumRefFrames destination
    return (.vuiRewritten, source, destination)
  else
    let (_, source, destination) ← restrictionFront.copy source destination
    let (maxNumReorderFrames, source) ← readExponentialGolomb source
    let (maxDecFrameBuffering, source) ← readExponentialGolomb source
    if maxNumReorderFrames = 0 ∧ maxDecFrameBuffering ≤ maxNumRefFrames then
      return (.vuiOk, source, destination)
    else
      let (_, destination) ← writeExponentialGolomb 0 destination
      let (_, destination) ← writeExponentialGolomb maxNumRefFrames destination
      return (.vuiRewritten, source, destination)

/-- The VUI of `CopyAndRewriteVui` for a set that has none: eight flags off, and a restriction. -/
def addVui (maxNumRefFrames : BitVec 32) : Reader Unit := do
  writeBits 0 8
  writeBits 1 1
  addBitstreamRestriction maxNumRefFrames

/-- `CopyAndRewriteVui(sps, source, destination, out_vui_rewritten)`. -/
def copyAndRewriteVui (sps : SpsState) (source destination : BitBuffer) :
    Option (ParseResult × BitBuffer × BitBuffer) := do
  let (_, destination) ← writeBits 1 1 destination
  if sps.vuiParamsPresent = 0 then
    let (_, destination) ← addVui sps.maxNumRefFrames destination
    return (.vuiRewritten, source, destination)
  else
    let (_, source, destination) ← vuiFront.copy source destination
    rewriteRestriction sps.maxNumRefFrames source destination

/-- The loop of `CopyRemainingBits`, with the number of bits that are left as fuel. -/
def copyBlocks : Nat → BitBuffer → BitBuffer → Option (BitBuffer × BitBuffer)
  | 0, source, destination => some (source, destination)
  | fuel + 1, source, destination =>
    if remainingBitCount source > 0 then do
      let (_, source, destination) ← (u (min 32 (remainingBitCount source))).copy source destination
      copyBlocks fuel source destination
    else some (source, destination)

/-- The first copy of `CopyRemainingBits`, of the bits that are not whole bytes. -/
def copyMisaligned (source destination : BitBuffer) : Option (BitBuffer × BitBuffer) :=
  if remainingBitCount source > 0 ∧ remainingBitCount source % 8 ≠ 0 then
    ((u (remainingBitCount source % 8)).copy source destination).map Prod.snd
  else some (source, destination)

/-- `CopyRemainingBits(source, destination)`. -/
def copyRemainingBits (source destination : BitBuffer) : Option (BitBuffer × BitBuffer) := do
  let (source, destination) ← copyMisaligned source destination
  copyBlocks (remainingBitCount source) source destination

/-- The writer on the output buffer of a set of `length` bytes, at the flag that the parser read
last: the bytes the parser has read are copied, and the writer backs off a bit. -/
def spsWriter (memory : Nat → Byte) (length : Nat) (source : BitBuffer) : BitBuffer :=
  let outBuffer := (List.range (length + kMaxVuiSpsIncrease)).map memory
  let copied := source.byteOffset + (if source.bitOffset.val > 0 then 1 else 0)
  let writer := BitBuffer.start (source.bytes.take copied ++ outBuffer.drop copied)
  let (byteOffset, bitOffset) :=
    if source.bitOffset.val = 0 then (source.byteOffset - 1, 7)
    else (source.byteOffset, source.bitOffset.val - 1)
  (seek byteOffset bitOffset writer).getD writer

/-- The output buffer, padded to the next byte and cut behind it. -/
def padded (writer : BitBuffer) : List Byte :=
  if writer.bitOffset.val > 0 then
    let writer' := ((writeBits 0 (8 - writer.bitOffset.val) writer).map Prod.snd).getD writer
    writer'.bytes.take (writer.byteOffset + 1)
  else writer.bytes.take writer.byteOffset

/-- `ParseAndRewriteSps(buffer, length, sps, destination)`: the result, and the two outputs. -/
def parseAndRewriteSps (memory : Nat → Byte) (buffer : List Byte) (sps : Option SpsState)
    (destination : List Byte) : ParseResult × Option SpsState × List Byte :=
  match parseSpsUpToVui (.start (parseRbsp buffer)) with
  | none => (.failure, sps, destination)
  | some (spsState, source) =>
    if spsState.picOrderCntType ≥ 2 then (.pocOk, some spsState, destination)
    else
      match copyAndRewriteVui spsState source (spsWriter memory buffer.length source) with
      | none => (.failure, some spsState, destination)
      | some (vuiUpdated, source, writer) =>
        if vuiUpdated = .vuiOk then (vuiUpdated, some spsState, destination)
        else
          match copyRemainingBits source writer with
          | none => (.failure, some spsState, destination)
          | some (_, writer) =>
            (.vuiRewritten, some spsState, destination ++ writeRbsp (padded writer))

end WebRtc.H264
