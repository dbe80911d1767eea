import WebRtc.Base.BitFields
import WebRtc.H264.Rbsp

/-! `SpsParser` (`webrtc/common_video/h264/sps_parser.cc`): a sequence parameter set up to the flag
that says whether video usability information (VUI) follows. Fields that the code skips with
`ConsumeBits` or `ConsumeBytes` are fields of that many bits whose value is dropped. -/

namespace WebRtc.H264
open Bits Bits.Fields

/-- `SpsParser::SpsState`. -/
structure SpsState where
  width : BitVec 32 := 0
  height : BitVec 32 := 0
  deltaPicOrderAlwaysZeroFlag : BitVec 32 := 0
  separateColourPlaneFlag : BitVec 32 := 0
  frameMbsOnlyFlag : BitVec 32 := 0
  log2MaxFrameNumMinus4 : BitVec 32 := 0
  log2MaxPicOrderCntLsbMinus4 : BitVec 32 := 0
  picOrderCntType : BitVec 32 := 0
  maxNumRefFrames : BitVec 32 := 0
  vuiParamsPresent : BitVec 32 := 0
  id : BitVec 32 := 0
  deriving DecidableEq, Repr

/-- The profiles that have chroma format information. -/
def hasChromaFormat (profileIdc : BitVec 32) : Bool :=
  [100#32, 110#32, 122#32, 244#32, 44#32, 83#32, 86#32, 118#32, 128#32, 138#32, 139#32,
    134#32].contains profileIdc

/-- The fields of a profile with chroma format information: `chroma_format_idc` and
`separate_colour_plane_flag`. A set with scaling lists is refused. -/
def chromaFormat : Fields (BitVec 32 × BitVec 32) := do
  let chromaFormatIdc ← ue
  let separateColourPlaneFlag ← if chromaFormatIdc = 3 then u 1 else pure 0
  let _bitDepthLumaMinus8 ← ue
  let _bitDepthChromaMinus8 ← ue
  let _qpprimeYZeroTransformBypassFlag ← u 1
  let seqScalingMatrixPresentFlag ← u 1
  if seqScalingMatrixPresentFlag ≠ 0 then
    let seqScalingListPresentFlags ← if chromaFormatIdc ≠ 3 then u 8 else u 12
    if seqScalingListPresentFlags > 0 then .fail
    else return (chromaFormatIdc, separateColourPlaneFlag)
  else return (chromaFormatIdc, separateColourPlaneFlag)

/-- The fields that depend on `pic_order_cnt_type`: `log2_max_pic_order_cnt_lsb_minus4` and
`delta_pic_order_always_zero_flag`. -/
def picOrderCnt (picOrderCntType : BitVec 32) : Fields (BitVec 32 × BitVec 32) :=
  if picOrderCntType = 0 then do
    let log2MaxPicOrderCntLsbMinus4 ← ue
    return (log2MaxPicOrderCntLsbMinus4, 0)
  else if picOrderCntType = 1 then do
    let deltaPicOrderAlwaysZeroFlag ← u 1
    let _offsetForNonRefPic ← ue
    let _offsetForTopToBottomField ← ue
    let numRefFramesInPicOrderCntCycle ← ue
    let _offsetForRefFrame ← times numRefFramesInPicOrderCntCycle.toNat ue
    return (0, deltaPicOrderAlwaysZeroFlag)
  else return (0, 0)

/-- `frame_crop_{left, right, top, bottom}_offset`. -/
structure FrameCrop where
  left : BitVec 32 := 0
  right : BitVec 32 := 0
  top : BitVec 32 := 0
  bottom : BitVec 32 := 0

def frameCrop : Fields FrameCrop := do
  let frameCroppingFlag ← u 1
  if frameCroppingFlag ≠ 0 then
    let left ← ue
    let right ← ue
    let top ← ue
    let bottom ← ue
    return { left, right, top, bottom }
  else return {}

/-- The crop in pixels. -/
def cropUnits (chromaFormatIdc separateColourPlaneFlag frameMbsOnlyFlag : BitVec 32)
    (crop : FrameCrop) : FrameCrop :=
  if separateColourPlaneFlag ≠ 0 ∨ chromaFormatIdc = 0 then
    { crop with
      bottom := crop.bottom * (2 - frameMbsOnlyFlag)
      top := crop.top * (2 - frameMbsOnlyFlag) }
  else
    let crop := if chromaFormatIdc = 1 ∨ chromaFormatIdc = 2 then
      { crop with left := crop.left * 2, right := crop.right * 2 } else crop
    if chromaFormatIdc = 1 then
      { crop with top := crop.top * 2, bottom := crop.bottom * 2 } else crop

/-- The fields in front of `vui_parameters_present_flag`, with the resolution they give. -/
def spsUpToFlag : Fields SpsState := do
  let profileIdc ← u 8
  let _constraintSetFlags ← u 8
  let _levelIdc ← u 8
  let id ← ue
  let (chromaFormatIdc, separateColourPlaneFlag) ←
    if hasChromaFormat profileIdc then chromaFormat else pure (1, 0)
  let log2MaxFrameNumMinus4 ← ue
  let picOrderCntType ← ue
  let (log2MaxPicOrderCntLsbMinus4, deltaPicOrderAlwaysZeroFlag) ← picOrderCnt picOrderCntType
  let maxNumRefFrames ← ue
  let _gapsInFrameNumValueAllowedFlag ← u 1
  let picWidthInMbsMinus1 ← ue
  let picHeightInMapUnitsMinus1 ← ue
  let frameMbsOnlyFlag ← u 1
  let _mbAdaptiveFrameFieldFlag ← if frameMbsOnlyFlag = 0 then u 1 else pure 0
  let _direct8x8InferenceFlag ← u 1
  let offsets ← frameCrop
  let crop := cropUnits chromaFormatIdc separateColourPlaneFlag frameMbsOnlyFlag offsets
  return {
    width := 16 * (picWidthInMbsMinus1 + 1) - (crop.left + crop.right)
    height := 16 * (2 - frameMbsOnlyFlag) * (picHeightInMapUnitsMinus1 + 1) -
      (crop.top + crop.bottom)
    deltaPicOrderAlwaysZeroFlag, separateColourPlaneFlag, frameMbsOnlyFlag, log2MaxFrameNumMinus4,
    log2MaxPicOrderCntLsbMinus4, picOrderCntType, maxNumRefFrames, id }

/-- The fields of `ParseSpsUpToVui`. -/
def spsUpToVui : Fields SpsState := do
  let sps ← spsUpToFlag
  let vuiParamsPresent ← u 1
  return { sps with vuiParamsPresent }

/-- `SpsParser::ParseSpsUpToVui(buffer)`. -/
def parseSpsUpToVui : Reader SpsState := spsUpToVui.read

/-- `SpsParser::ParseSps(data, length)`. -/
def parseSps (data : List Byte) : Option SpsState :=
  (parseSpsUpToVui (.start (parseRbsp data))).map Prod.fst

end WebRtc.H264
