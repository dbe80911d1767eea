import WebRtc.Base.BitReading

/-! The VP9 payload descriptor: the header of `vp9_globals.h` and `RtpDepacketizerVp9::Parse`
(`rtp_format_vp9.cc`). `InitRTPVideoHeaderVP9` does not touch the arrays, so parsing starts from
what the header's memory held before. An array is a function of its index. -/

namespace WebRtc.Rtp.Vp9Descriptor

open Bits

variable {left : Nat} {b b' : BitBuffer} {vp9 vp9' : RTPVideoHeaderVP9}

def kNoPictureId : Int := -1
def kNoTl0PicIdx : Int := -1
def kNoTemporalIdx : BitVec 8 := 0xFF#8
def kNoSpatialIdx : BitVec 8 := 0xFF#8
def kNoGofIdx : BitVec 8 := 0xFF#8
def kMaxOneBytePictureId : Int := 0x7F
def kMaxTwoBytePictureId : Int := 0x7FFF
def kMaxVp9RefPics : Nat := 3
def kMaxVp9FramesInGof : Nat := 0xFF

/-- `GofInfoVP9`. -/
structure GofInfoVP9 where
  numFramesInGof : Nat
  temporalIdx : Nat → BitVec 8
  temporalUpSwitch : Nat → Bool
  numRefPics : Nat → BitVec 8
  pidDiff : Nat → Nat → BitVec 8
  pidStart : Nat

/-- `RTPVideoHeaderVP9`. -/
structure RTPVideoHeaderVP9 where
  interPicPredicted : Bool
  flexibleMode : Bool
  beginningOfFrame : Bool
  endOfFrame : Bool
  ssDataAvailable : Bool
  pictureId : Int
  maxPictureId : Int
  tl0PicIdx : Int
  temporalIdx : BitVec 8
  spatialIdx : BitVec 8
  temporalUpSwitch : Bool
  interLayerPredicted : Bool
  gofIdx : BitVec 8
  numRefPics : Nat
  pidDiff : Nat → BitVec 8
  refPictureId : Nat → Int
  numSpatialLayers : Nat
  spatialLayerResolutionPresent : Bool
  width : Nat → BitVec 16
  height : Nat → BitVec 16
  gof : GofInfoVP9

/-- `InitRTPVideoHeaderVP9()`. -/
def initRTPVideoHeaderVP9 (vp9 : RTPVideoHeaderVP9) : RTPVideoHeaderVP9 :=
  { vp9 with
    interPicPredicted := false
    flexibleMode := false
    beginningOfFrame := false
    endOfFrame := false
    ssDataAvailable := false
    pictureId := kNoPictureId
    maxPictureId := kMaxTwoBytePictureId
    tl0PicIdx := kNoTl0PicIdx
    temporalIdx := kNoTemporalIdx
    spatialIdx := kNoSpatialIdx
    temporalUpSwitch := false
    interLayerPredicted := false
    gofIdx := kNoGofIdx
    numRefPics := 0
    numSpatialLayers := 1 }

/-- `a[i] = x`. -/
def store {α : Type} (a : Nat → α) (i : Nat) (x : α) : Nat → α := fun j => if j = i then x else a j

/-- A one-bit field read as a flag. -/
def readFlag : Reader Bool := do
  let bit ← readBits 1
  return bit != 0

/-! ## The parts of the descriptor -/

/-- `ParsePictureId`. -/
def parsePictureId (vp9 : RTPVideoHeaderVP9) : Reader RTPVideoHeaderVP9 := do
  let mBit ← readFlag
  if mBit then
    let pictureId ← readBits 15
    return { vp9 with maxPictureId := kMaxTwoBytePictureId, pictureId := pictureId.toNat }
  else
    let pictureId ← readBits 7
    return { vp9 with maxPictureId := kMaxOneBytePictureId, pictureId := pictureId.toNat }

/-- `ParseLayerInfoCommon`. -/
def parseLayerInfoCommon (vp9 : RTPVideoHeaderVP9) : Reader RTPVideoHeaderVP9 := do
  let t ← readBits 3
  let uBit ← readFlag
  let s ← readBits 3
  let dBit ← readFlag
  return { vp9 with
    temporalIdx := t.setWidth 8
    temporalUpSwitch := uBit
    spatialIdx := s.setWidth 8
    interLayerPredicted := dBit }

/-- `ParseLayerInfo`, with `ParseLayerInfoNonFlexibleMode` as its last step. -/
def parseLayerInfo (vp9 : RTPVideoHeaderVP9) : Reader RTPVideoHeaderVP9 := do
  let vp9 ← parseLayerInfoCommon vp9
  if vp9.flexibleMode then return vp9
  else
    let tl0picidx ← readUInt8
    return { vp9 with tl0PicIdx := tl0picidx.toNat }

/-- The loop of `ParseRefIndices`; `left` is `kMaxVp9RefPics - num_ref_pics`. -/
def parseRefLoop : Nat → RTPVideoHeaderVP9 → Reader RTPVideoHeaderVP9
  | 0, _ => failure
  | left + 1, vp9 => do
    let pDiff ← readBits 7
    let nBit ← readFlag
    let scaledPid :=
      if (pDiff.toNat : Int) > vp9.pictureId then vp9.pictureId + (vp9.maxPictureId + 1)
      else vp9.pictureId
    let vp9 := { vp9 with
      pidDiff := store vp9.pidDiff vp9.numRefPics (pDiff.setWidth 8)
      refPictureId := store vp9.refPictureId vp9.numRefPics (scaledPid - pDiff.toNat)
      numRefPics := vp9.numRefPics + 1 }
    if nBit then parseRefLoop left vp9 else return vp9

/-- `ParseRefIndices`. -/
def parseRefIndices (vp9 : RTPVideoHeaderVP9) : Reader RTPVideoHeaderVP9 :=
  if vp9.pictureId = kNoPictureId then failure
  else parseRefLoop kMaxVp9RefPics { vp9 with numRefPics := 0 }

/-- The resolutions of `ParseSsData`: `left` more layers from layer `i`. -/
def parseResolutions : Nat → Nat → RTPVideoHeaderVP9 → Reader RTPVideoHeaderVP9
  | 0, _, vp9 => return vp9
  | left + 1, i, vp9 => do
    let width ← readUInt16
    let height ← readUInt16
    parseResolutions left (i + 1)
      { vp9 with width := store vp9.width i width, height := store vp9.height i height }

/-- The references of frame `i` of the GOF: `left` more from reference `p`. -/
def parseGofRefs (i : Nat) : Nat → Nat → GofInfoVP9 → Reader GofInfoVP9
  | 0, _, gof => return gof
  | left + 1, p, gof => do
    let pDiff ← readUInt8
    parseGofRefs i left (p + 1)
      { gof with pidDiff := store gof.pidDiff i (store (gof.pidDiff i) p pDiff) }

/-- The frames of the GOF: `left` more from frame `i`. -/
def parseGofFrames : Nat → Nat → GofInfoVP9 → Reader GofInfoVP9
  | 0, _, gof => return gof
  | left + 1, i, gof => do
    let t ← readBits 3
    let uBit ← readFlag
    let r ← readBits 2
    consumeBits 2
    let gof := { gof with
      temporalIdx := store gof.temporalIdx i (t.setWidth 8)
      temporalUpSwitch := store gof.temporalUpSwitch i uBit
      numRefPics := store gof.numRefPics i (r.setWidth 8) }
    let gof ← parseGofRefs i r.toNat 0 gof
    parseGofFrames left (i + 1) gof

/-- `N_G`, or zero where the descriptor has no GOF. -/
def parseGofLength (gBit : Bool) : Reader (BitVec 8) := if gBit then readUInt8 else return 0

/-- `ParseSsData`. -/
def parseSsData (vp9 : RTPVideoHeaderVP9) : Reader RTPVideoHeaderVP9 := do
  let nS ← readBits 3
  let yBit ← readFlag
  let gBit ← readFlag
  consumeBits 3
  let vp9 := { vp9 with
    numSpatialLayers := nS.toNat + 1
    spatialLayerResolutionPresent := yBit }
  let vp9 ← parseResolutions (if yBit then vp9.numSpatialLayers else 0) 0 vp9
  let nG ← parseGofLength gBit
  let gof ← parseGofFrames nG.toNat 0 { vp9.gof with numFramesInGof := nG.toNat }
  return { vp9 with gof := gof }

/-! ## The descriptor -/

inductive FrameType | key | delta
  deriving DecidableEq, Repr

structure ParsedPayload where
  frameType : FrameType
  vp9 : RTPVideoHeaderVP9
  width : BitVec 16
  height : BitVec 16
  isFirstPacketInFrame : Bool
  payload : List Byte

/-- A part of the descriptor that is there when its bit is set. -/
def optionalPart (present : Bool) (part : RTPVideoHeaderVP9 → Reader RTPVideoHeaderVP9)
    (vp9 : RTPVideoHeaderVP9) : Reader RTPVideoHeaderVP9 :=
  if present then part vp9 else return vp9

/-- `RtpDepacketizerVp9::Parse` up to the payload data. -/
def parseDescriptor (old : RTPVideoHeaderVP9) : Reader ParsedPayload := do
  let iBit ← readFlag
  let pBit ← readFlag
  let lBit ← readFlag
  let fBit ← readFlag
  let bBit ← readFlag
  let eBit ← readFlag
  let vBit ← readFlag
  consumeBits 1
  let vp9 := { initRTPVideoHeaderVP9 old with
    interPicPredicted := pBit
    flexibleMode := fBit
    beginningOfFrame := bBit
    endOfFrame := eBit
    ssDataAvailable := vBit
    spatialIdx := 0 }
  let vp9 ← optionalPart iBit parsePictureId vp9
  let vp9 ← optionalPart lBit parseLayerInfo vp9
  let vp9 ← optionalPart (pBit && fBit) parseRefIndices vp9
  let vp9 ← optionalPart vBit parseSsData vp9
  let sized := vBit && vp9.spatialLayerResolutionPresent
  return {
    frameType := if pBit then .delta else .key
    vp9 := vp9
    width := if sized then vp9.width 0 else 0
    height := if sized then vp9.height 0 else 0
    isFirstPacketInFrame := bBit && (!lBit || !vp9.interLayerPredicted)
    payload := [] }

/-- `RtpDepacketizerVp9::Parse`. -/
def parse (old : RTPVideoHeaderVP9) (payload : List Byte) : Option ParsedPayload :=
  if payload.length = 0 then none
  else
    match parseDescriptor old { bytes := payload } with
    | none => none
    | some (parsed, rest) =>
      let payloadLength := remainingBitCount rest / 8
      if payloadLength = 0 then none
      else some { parsed with payload := payload.drop (payload.length - payloadLength) }

/-! ## What is accepted -/

/-- Every value that `r` reads satisfies `P`. -/
def Yields {α : Type} (r : Reader α) (P : α → Prop) : Prop := ∀ b a b', r b = some (a, b') → P a

section Yields

variable {α β : Type} {r : Reader α} {f : α → Reader β} {P : α → Prop} {Q : β → Prop}

theorem Yields.pure {a : α} (h : P a) : Yields (pure a) P := by
  intro _ _ _ hr
  cases hr
  exact h

theorem Yields.bind (h : Yields r P) (hf : ∀ a, P a → Yields (f a) Q) : Yields (r >>= f) Q := by
  intro b a b' hb
  obtain ⟨x, b₁, hx, hb⟩ := bind_eq_some hb
  exact hf x (h b x b₁ hx) b₁ a b' hb

theorem Yields.mono {P' : α → Prop} (h : Yields r P) (hP : ∀ a, P a → P' a) : Yields r P' :=
  fun b a b' hr => hP a (h b a b' hr)

theorem yields_bind (hf : ∀ a, Yields (f a) Q) : Yields (r >>= f) Q :=
  Yields.bind (P := fun _ => True) (fun _ _ _ _ => trivial) fun a _ => hf a

theorem yields_readBits (n : Nat) : Yields (readBits n) fun v => v.toNat < 2 ^ n :=
  fun _ _ _ => readBits_lt

end Yields

/-- The GOF of a parsed header fits its arrays. -/
structure FitsArrays (vp9 : RTPVideoHeaderVP9) : Prop where
  frames : vp9.gof.numFramesInGof ≤ kMaxVp9FramesInGof
  refs : ∀ i < vp9.gof.numFramesInGof, (vp9.gof.numRefPics i).toNat ≤ kMaxVp9RefPics

theorem parseGofRefs_frame (i : Nat) {p : Nat} {gof : GofInfoVP9} :
    Yields (parseGofRefs i left p gof) fun gof' =>
      gof'.numFramesInGof = gof.numFramesInGof ∧ gof'.numRefPics = gof.numRefPics := by
  induction left generalizing p gof with
  | zero => exact .pure ⟨rfl, rfl⟩
  | succ left ih => exact yields_bind fun _ => ih

/-- The loop over the frames keeps the length and fills `num_ref_pics` with two-bit values. -/
theorem parseGofFrames_fits {i : Nat} {gof : GofInfoVP9}
    (hrefs : ∀ j < i, (gof.numRefPics j).toNat ≤ kMaxVp9RefPics) :
    Yields (parseGofFrames left i gof) fun gof' => gof'.numFramesInGof = gof.numFramesInGof ∧
      ∀ j < i + left, (gof'.numRefPics j).toNat ≤ kMaxVp9RefPics := by
  induction left generalizing i gof with
  | zero => exact .pure ⟨rfl, hrefs⟩
  | succ left ih =>
    refine yields_bind fun t => yields_bind fun u => (yields_readBits 2).bind fun r hr =>
      yields_bind fun _ => (parseGofRefs_frame i).bind fun gof₁ hgof => ?_
    obtain ⟨hlen, hnum⟩ := hgof
    have hnext : ∀ j < i + 1, (gof₁.numRefPics j).toNat ≤ kMaxVp9RefPics := by
      intro j hj
      rw [hnum]
      dsimp only [store]
      split
      · exact Nat.le_trans (Nat.mod_le _ _) (Nat.le_of_lt_succ hr)
      · exact hrefs j (by omega)
    exact (ih hnext).mono fun _ h => ⟨h.1.trans hlen, fun j hj => h.2 j (by omega)⟩

/-- What the parts of the descriptor leave alone. -/
structure SameIds (vp9 vp9' : RTPVideoHeaderVP9) : Prop where
  ss : vp9'.ssDataAvailable = vp9.ssDataAvailable
  pictureId : vp9'.pictureId = vp9.pictureId

theorem SameIds.trans {a b c : RTPVideoHeaderVP9} (h : SameIds a b) (h' : SameIds b c) :
    SameIds a c :=
  ⟨h'.ss.trans h.ss, h'.pictureId.trans h.pictureId⟩

theorem parsePictureId_spec : Yields (parsePictureId vp9) fun vp9' =>
    vp9'.ssDataAvailable = vp9.ssDataAvailable ∧ 0 ≤ vp9'.pictureId ∧ vp9'.pictureId < 32768 := by
  refine yields_bind fun mBit => ?_
  cases mBit with
  | false =>
    exact (yields_readBits 7).bind fun x hx =>
      .pure ⟨rfl, Int.natCast_nonneg _, by dsimp only; omega⟩
  | true =>
    exact (yields_readBits 15).bind fun x hx =>
      .pure ⟨rfl, Int.natCast_nonneg _, by dsimp only; omega⟩

theorem parseLayerInfo_same : Yields (parseLayerInfo vp9) (SameIds vp9) := by
  have hcommon : Yields (parseLayerInfoCommon vp9) (SameIds vp9) :=
    yields_bind fun _ => yields_bind fun _ => yields_bind fun _ => yields_bind fun _ =>
      .pure ⟨rfl, rfl⟩
  refine hcommon.bind fun vp9₁ hsame => ?_
  split
  · exact .pure hsame
  · exact yields_bind fun _ => .pure (hsame.trans ⟨rfl, rfl⟩)

theorem parseRefLoop_same : Yields (parseRefLoop left vp9) (SameIds vp9) := by
  induction left generalizing vp9 with
  | zero => intro _ _ _ h; cases h
  | succ left ih =>
    refine yields_bind fun _ => yields_bind fun nBit => ?_
    cases nBit with
    | false => exact .pure ⟨rfl, rfl⟩
    | true => exact ih.mono fun _ h => ⟨h.ss, h.pictureId⟩

theorem parseRefIndices_same : Yields (parseRefIndices vp9) (SameIds vp9) := by
  unfold parseRefIndices
  split
  · intro _ _ _ h
    cases h
  · exact parseRefLoop_same.mono fun _ h => ⟨h.ss, h.pictureId⟩

theorem parseResolutions_same {i : Nat} : Yields (parseResolutions left i vp9) (SameIds vp9) := by
  induction left generalizing i vp9 with
  | zero => exact .pure ⟨rfl, rfl⟩
  | succ left ih =>
    exact yields_bind fun _ => yields_bind fun _ => ih.mono fun _ h => ⟨h.ss, h.pictureId⟩

theorem parseSsData_spec : Yields (parseSsData vp9) fun vp9' => SameIds vp9 vp9' ∧ FitsArrays vp9' := by
  refine yields_bind fun _ => yields_bind fun _ => yields_bind fun _ => yields_bind fun _ =>
    parseResolutions_same.bind fun vp9₁ hsame => yields_bind fun nG =>
      (parseGofFrames_fits fun j hj => absurd hj (Nat.not_lt_zero j)).bind fun gof hgof => .pure ?_
  obtain ⟨hlen, hrefs⟩ := hgof
  dsimp only at hlen
  refine ⟨⟨hsame.ss, hsame.pictureId⟩, ?_, fun j hj => hrefs j ?_⟩
  · show gof.numFramesInGof ≤ 255
    omega
  · change j < gof.numFramesInGof at hj
    omega

theorem yields_optionalPart {part : RTPVideoHeaderVP9 → Reader RTPVideoHeaderVP9} {present : Bool}
    {P : RTPVideoHeaderVP9 → Prop} (hpart : present → Yields (part vp9) P)
    (h : present = false → P vp9) : Yields (optionalPart present part vp9) P := by
  cases present with
  | false => exact .pure (h rfl)
  | true => exact hpart rfl

/-- What is known of a header that `Parse` accepts. -/
structure ParsedHeader (vp9 : RTPVideoHeaderVP9) : Prop where
  fits : vp9.ssDataAvailable = true → FitsArrays vp9
  pictureId : vp9.pictureId = kNoPictureId ∨ 0 ≤ vp9.pictureId ∧ vp9.pictureId < 32768

theorem parseDescriptor_header (old : RTPVideoHeaderVP9) :
    Yields (parseDescriptor old) fun parsed => ParsedHeader parsed.vp9 := by
  refine yields_bind fun _ => yields_bind fun _ => yields_bind fun _ => yields_bind fun _ =>
    yields_bind fun _ => yields_bind fun _ => yields_bind fun vBit => yields_bind fun _ => ?_
  refine (yields_optionalPart (P := fun vp9 => vp9.ssDataAvailable = vBit ∧
    (vp9.pictureId = kNoPictureId ∨ 0 ≤ vp9.pictureId ∧ vp9.pictureId < 32768)) ?_ ?_).bind
      fun vp9₁ hid => ?_
  · exact fun _ => parsePictureId_spec.mono fun _ h => h.imp_right .inr
  · exact fun _ => ⟨rfl, .inl rfl⟩
  refine (yields_optionalPart (fun _ => parseLayerInfo_same) fun _ => ⟨rfl, rfl⟩).bind fun vp9₂ h₂ =>
    (yields_optionalPart (fun _ => parseRefIndices_same) fun _ => ⟨rfl, rfl⟩).bind fun vp9₃ h₃ =>
      (yields_optionalPart (P := fun vp9 => SameIds vp9₃ vp9 ∧ (vBit → FitsArrays vp9)) ?_ ?_).bind
        fun vp9₄ h₄ => .pure ?_
  · exact fun _ => parseSsData_spec.mono fun _ h => h.imp_right fun hfits _ => hfits
  · exact fun hno => ⟨⟨rfl, rfl⟩, fun h => absurd (hno.symm.trans h) Bool.false_ne_true⟩
  have hall := (h₂.trans h₃).trans h₄.1
  refine ⟨fun hss => h₄.2 ?_, ?_⟩
  · exact hid.1.symm.trans (hall.ss.symm.trans hss)
  · dsimp only
    rw [hall.pictureId]
    exact hid.2

theorem parse_header {old : RTPVideoHeaderVP9} {payload : List Byte} {parsed : ParsedPayload}
    (h : parse old payload = some parsed) : ParsedHeader parsed.vp9 := by
  unfold parse at h
  split at h
  · cases h
  split at h
  · cases h
  rename_i hd
  dsimp only at h
  split at h <;> cases h
  have hheader := parseDescriptor_header old _ _ _ hd
  exact ⟨hheader.fits, hheader.pictureId⟩

/-- A header with SS data that `Parse` accepts fits the arrays of `GofInfoVP9`. -/
theorem parse_fits {old : RTPVideoHeaderVP9} {payload : List Byte} {parsed : ParsedPayload}
    (h : parse old payload = some parsed) (hss : parsed.vp9.ssDataAvailable) :
    FitsArrays parsed.vp9 :=
  (parse_header h).fits hss

end WebRtc.Rtp.Vp9Descriptor
