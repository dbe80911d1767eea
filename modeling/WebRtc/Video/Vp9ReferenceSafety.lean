import WebRtc.Lib.Transition
import WebRtc.Video.GenericReferences

/-! The VP9 path of the reference finder takes no undefined step as long as the scalability
structures are usable, a key frame finds its GOF and no gap leaves the GOF it is counted in. The
first is an invariant of the stored structures, kept by every step of a run. -/

namespace WebRtc.Video.ReferenceFinder

open Rtp.Vp9Descriptor Transition OrderedMap List BitVec Finder ModOps Machine

variable {s : Finder} {frame : Frame} {pictureId : Nat} {info : GofInfo}
  {header : RTPVideoHeaderVP9} {tl0PicIdx : Int}

/-! ## The invariant -/

/-- A scalability structure the finder can count in. -/
structure SoundGof (gof : GofInfoVP9) : Prop where
  pos : 0 < gof.numFramesInGof
  fits : gof.numFramesInGof ≤ kMaxVp9FramesInGof
  layers : ∀ i < gof.numFramesInGof, (gof.temporalIdx i).toNat < kMaxTemporalLayers

/-- The frame's header is one that `Parse` produced. -/
def Received (frame : Frame) : Prop :=
  ∃ old payload parsed, parse old payload = some parsed ∧
    frame.codecHeader = parsed.vp9 ∧ frame.frameType = parsed.frameType

structure Sound (s : Finder) : Prop where
  gofs : ∀ e ∈ s.gofInfo, SoundGof (s.gofOf e.2) ∧ e.2.lastPictureId < kPicIdLength
  stashed : ∀ frame ∈ s.stashedFrames, Received frame

theorem sound_create (memory : Nat → GofInfoVP9) : Sound (create memory) :=
  ⟨(fun _ he => nomatch he), (fun _ hf => nomatch hf)⟩

/-- The parts of the state the invariant is about. -/
structure SameGofs (s s' : Finder) : Prop where
  structures : s'.scalabilityStructures = s.scalabilityStructures
  gofInfo : s'.gofInfo = s.gofInfo
  stashed : s'.stashedFrames = s.stashedFrames

theorem SameGofs.refl (s : Finder) : SameGofs s s := ⟨rfl, rfl, rfl⟩

theorem SameGofs.trans {t u : Finder} (h : SameGofs s t) (h' : SameGofs t u) : SameGofs s u :=
  ⟨h'.structures.trans h.structures, h'.gofInfo.trans h.gofInfo, h'.stashed.trans h.stashed⟩

theorem SameGofs.gofOf {s' : Finder} (h : SameGofs s s') (info : GofInfo) :
    s'.gofOf info = s.gofOf info := congrFun h.structures info.gof

theorem Sound.same {s' : Finder} (h : Sound s) (hs : SameGofs s s') : Sound s' := by
  refine ⟨fun e he => ?_, fun f hf => h.stashed f (hs.stashed ▸ hf)⟩
  rw [hs.gofOf]
  exact h.gofs e (hs.gofInfo ▸ he)

theorem Sound.stash (h : Sound s) (hf : Received frame) : Sound (s.stash frame) := by
  refine ⟨h.gofs, fun f hmem => ?_⟩
  rcases mem_append.mp hmem with hmem | hmem
  · exact h.stashed f hmem
  · cases mem_singleton.mp hmem
    exact hf

/-! ## Steps that leave the structures alone -/

theorem sameGofs_unwrapPictureId (s : Finder) (pictureId : Nat) :
    SameGofs s (s.unwrapPictureId pictureId).1 := ⟨rfl, rfl, rfl⟩

theorem sameGofs_unwrapReferences (left i : Nat) (s : Finder) (references : Nat → Nat) :
    SameGofs s (unwrapReferences left i s references).1 := by
  induction left generalizing i s references with
  | zero => exact .refl s
  | succ left ih => exact (sameGofs_unwrapPictureId s (references i)).trans (ih _ _ _)

theorem sameGofs_completedFrameVp9 (s : Finder) (frame : Frame) :
    SameGofs s (s.completedFrameVp9 frame) :=
  (sameGofs_unwrapReferences frame.numReferences 0 s frame.references).trans ⟨rfl, rfl, rfl⟩

theorem updateLastPictureIdWithPadding_eq (s : Finder) (seqNum : BitVec 16) :
    ∃ padding gops, s.updateLastPictureIdWithPadding seqNum =
      { s with stashedPadding := padding, lastSeqNumGop := gops } := by
  unfold updateLastPictureIdWithPadding
  split <;> exact ⟨_, _, rfl⟩

theorem sameGofs_paddingReceived (s : Finder) (seqNum : BitVec 16) :
    SameGofs s (s.paddingReceived seqNum) := by
  unfold paddingReceived
  obtain ⟨_, _, heq⟩ := updateLastPictureIdWithPadding_eq _ seqNum
  rw [heq]
  exact ⟨rfl, rfl, rfl⟩

theorem sound_manageFrameGeneric (h : Sound s) (hf : Received frame) (pictureId : Int) :
    Sound (s.manageFrameGeneric frame pictureId).1 := by
  by_cases hid : pictureId = kNoPictureId
  · subst hid
    obtain ⟨gops, -, heq | heq⟩ | ⟨_, _, -, -, -, heq⟩ := manageFrameGeneric_cases s frame <;>
      rw [heq]
    · exact h.same ⟨rfl, rfl, rfl⟩
    · exact Sound.stash (h.same ⟨rfl, rfl, rfl⟩) hf
    · obtain ⟨_, _, hupdate⟩ := updateLastPictureIdWithPadding_eq _ frame.lastSeqNum
      rw [hupdate]
      exact h.same ⟨rfl, rfl, rfl⟩
  -- a frame with a picture id of its own is completed at once
  unfold manageFrameGeneric
  rw [if_pos hid]
  refine h.same ?_
  dsimp only
  split <;> exact ⟨rfl, rfl, rfl⟩

/-! ## The fix of the ids -/

theorem sameGofs_fixTimestamps {s' : Finder} {timestamp : BitVec 32}
    (h : s.fixTimestamps timestamp = some s') : SameGofs s s' := by
  unfold fixTimestamps at h
  split at h
  · cases h
  · cases h
    split <;> split <;> split <;> exact ⟨rfl, rfl, rfl⟩

theorem sameGofs_fixTl0 (s : Finder) (tl0PicIdx : Int) : SameGofs s (s.fixTl0 tl0PicIdx).1 := by
  unfold fixTl0
  split
  · exact .refl s
  · dsimp only
    split <;> split <;> exact ⟨rfl, rfl, rfl⟩

theorem remainder_eq {x n : Nat} (hn : 0 < n) : remainder x n = .ok (x % n) :=
  if_neg (Nat.pos_iff_ne_zero.mp hn)

theorem detectVp9PicIdJump_defined (h : Sound s) (fixedPid : Nat) (fixedTl0 : Int)
    (timestamp : BitVec 32) :
    ∃ jump, s.detectVp9PicIdJump fixedPid fixedTl0 timestamp = .ok jump := by
  unfold detectVp9PicIdJump
  dsimp only
  split
  · exact ⟨true, rfl⟩
  split
  · exact ⟨true, rfl⟩
  split
  · exact ⟨false, rfl⟩
  split
  · exact ⟨false, rfl⟩
  rename_i _ hfind
  have hgof := (h.gofs _ (mem_of_find hfind)).1
  rw [remainder_eq hgof.pos]
  exact ⟨_, rfl⟩

/-- The fix is defined and keeps the invariant: it keeps the GOFs, or clears them all. -/
theorem vp9PidTl0Fix_defined (h : Sound s) (timestamp : BitVec 32) (pictureId tl0PicIdx : Int) :
    ∃ r, s.vp9PidTl0Fix timestamp pictureId tl0PicIdx = .ok r ∧ Sound r.1 := by
  unfold vp9PidTl0Fix
  split
  · exact ⟨_, rfl, h⟩
  split
  · exact ⟨_, rfl, h⟩
  rename_i s₁ htime
  have h1 : Sound s₁ := h.same (sameGofs_fixTimestamps htime)
  dsimp only
  generalize hs₂ : (if s₁.vp9FixLastPictureId = -1 then
    { s₁ with vp9FixLastPictureId := pictureId } else s₁) = s₂
  have h2 : Sound s₂ := by
    rw [← hs₂]
    split
    · exact h1.same ⟨rfl, rfl, rfl⟩
    · exact h1
  have h3 : Sound (s₂.fixTl0 tl0PicIdx).1 := h2.same (sameGofs_fixTl0 s₂ tl0PicIdx)
  generalize s₂.fixTl0 tl0PicIdx = fixed at h3
  obtain ⟨_, hjump⟩ := detectVp9PicIdJump_defined h3
    (uint16 (add kPicIdLength (ulong pictureId) s₁.vp9FixPidOffset)) fixed.2 timestamp
  rw [hjump]
  refine ⟨_, rfl, ?_⟩
  have hrebase : Sound (fixed.1.rebase pictureId tl0PicIdx timestamp).1 :=
    ⟨(fun _ he => nomatch he), h3.stashed⟩
  split <;> split
  · exact hrebase.same ⟨rfl, rfl, rfl⟩
  · exact hrebase
  · exact h3.same ⟨rfl, rfl, rfl⟩
  · exact h3

/-! ## Counting in a GOF -/

theorem gofRead_eq {α : Type} {a : Nat → α} {i : Nat} (h : i < kMaxVp9FramesInGof) :
    gofRead a i = .ok (a i) := if_pos h

theorem layerRead_eq {layers : Nat → List (Nat × Unit)} {l : Nat} (h : l < kMaxTemporalLayers) :
    layerRead layers l = .ok (layers l) := if_pos h

theorem SoundGof.index_lt {gof : GofInfoVP9} (h : SoundGof gof) {i : Nat}
    (hi : i < gof.numFramesInGof) : i < kMaxVp9FramesInGof := Nat.lt_of_lt_of_le hi h.fits

/-- The frame with `picture_id` follows the last one of its GOF within the GOF. -/
def StaysInGof (s : Finder) (info : GofInfo) (pictureId : Nat) : Prop :=
  ModOps.aheadOf kPicIdLength pictureId info.lastPictureId = true →
    ModOps.forwardDiff kPicIdLength (s.gofOf info).pidStart info.lastPictureId %
        (s.gofOf info).numFramesInGof +
      ModOps.forwardDiff kPicIdLength info.lastPictureId pictureId ≤ (s.gofOf info).numFramesInGof

instance (s : Finder) (info : GofInfo) (pictureId : Nat) :
    Decidable (StaysInGof s info pictureId) := inferInstanceAs (Decidable (_ → _))

/-- The loop over a gap counts from `gof_idx` to the frame, and stops at it. -/
theorem markMissing_defined {gof : GofInfoVP9} (h : SoundGof gof) (hp : pictureId < kPicIdLength)
    (fuel : Nat) {last : Nat} (hl : last < kPicIdLength) (gofIdx : Nat)
    (layers : Nat → List (Nat × Unit))
    (hfuel : forwardDiff kPicIdLength last pictureId < fuel)
    (hidx : gofIdx + forwardDiff kPicIdLength last pictureId < gof.numFramesInGof) :
    ∃ layers', markMissing gof pictureId fuel last gofIdx layers = .ok (pictureId, layers') := by
  induction fuel generalizing last gofIdx layers with
  | zero => omega
  | succ fuel ih =>
    unfold markMissing
    by_cases he : last = pictureId
    · rw [if_pos he, he]
      exact ⟨layers, rfl⟩
    rw [if_neg he]
    have hstep := forwardDiff_add_one hl hp he
    have hnext : gofIdx + 1 < gof.numFramesInGof := by omega
    dsimp only
    rw [gofRead_eq (h.index_lt hnext)]
    dsimp only [bind, Except.bind]
    rw [layerRead_eq (h.layers _ hnext)]
    exact ih (add_lt 1 hl) _ _ (by omega) (by omega)

theorem frameReceivedVp9_defined (h : SoundGof (s.gofOf info))
    (hl : info.lastPictureId < kPicIdLength) (hp : pictureId < kPicIdLength)
    (hstay : StaysInGof s info pictureId) :
    ∃ s' info', s.frameReceivedVp9 pictureId info = .ok (s', info') ∧ SameGofs s s' ∧
      info'.gof = info.gof ∧ info'.lastPictureId < kPicIdLength := by
  unfold frameReceivedVp9
  dsimp only
  by_cases hahead : aheadOf kPicIdLength pictureId info.lastPictureId
  · rw [if_pos hahead, remainder_eq h.pos]
    have hne : info.lastPictureId ≠ pictureId := by
      rintro he
      simp [aheadOf, he] at hahead
    have hstep := forwardDiff_add_one hl hp hne
    have hin := hstay hahead
    have hbound : forwardDiff kPicIdLength info.lastPictureId pictureId ≤ kPicIdLength := by
      unfold forwardDiff
      split <;> omega
    obtain ⟨_, hloop⟩ := markMissing_defined h hp kPicIdLength (add_lt 1 hl)
      (forwardDiff kPicIdLength (s.gofOf info).pidStart info.lastPictureId %
        (s.gofOf info).numFramesInGof) s.missingFramesForLayer (by omega) (by omega)
    dsimp only [bind, Except.bind]
    rw [hloop]
    exact ⟨_, _, rfl, ⟨rfl, rfl, rfl⟩, rfl, hp⟩
  · rw [if_neg hahead, remainder_eq h.pos]
    have hidx := Nat.mod_lt
      (forwardDiff kPicIdLength (s.gofOf info).pidStart pictureId) h.pos
    dsimp only [bind, Except.bind]
    rw [gofRead_eq (h.index_lt hidx)]
    dsimp only
    rw [layerRead_eq (h.layers _ hidx)]
    exact ⟨_, info, rfl, ⟨rfl, rfl, rfl⟩, rfl, hl⟩

theorem missingInLayers_defined (s : Finder) (pictureId refPid left l : Nat)
    (h : l + left ≤ kMaxTemporalLayers) :
    ∃ missing, s.missingInLayers pictureId refPid left l = .ok missing := by
  induction left generalizing l with
  | zero => exact ⟨false, rfl⟩
  | succ left ih =>
    unfold missingInLayers
    rw [layerRead_eq (by omega)]
    dsimp only [bind, Except.bind]
    split
    · split
      · exact ⟨true, rfl⟩
      · exact ih (l + 1) (by omega)
    · exact ih (l + 1) (by omega)

theorem missingForReferences_defined (s : Finder) (gof : GofInfoVP9)
    (pictureId gofIdx temporalIdx left i : Nat) (hidx : gofIdx < kMaxVp9FramesInGof)
    (hlayer : temporalIdx ≤ kMaxTemporalLayers) :
    ∃ missing, s.missingForReferences gof pictureId gofIdx temporalIdx left i = .ok missing := by
  induction left generalizing i with
  | zero => exact ⟨false, rfl⟩
  | succ left ih =>
    unfold missingForReferences
    rw [gofRead_eq hidx]
    dsimp only [bind, Except.bind]
    obtain ⟨missing, hm⟩ := missingInLayers_defined s pictureId
      (subtract kPicIdLength pictureId (gof.pidDiff gofIdx i).toNat) temporalIdx 0 (by omega)
    rw [hm]
    cases missing with
    | true => exact ⟨true, rfl⟩
    | false => exact ih (i + 1)

theorem missingRequiredFrameVp9_defined (h : SoundGof (s.gofOf info)) (pictureId : Nat) :
    ∃ missing, s.missingRequiredFrameVp9 pictureId info = .ok missing := by
  have hidx := Nat.mod_lt (forwardDiff kPicIdLength (s.gofOf info).pidStart pictureId) h.pos
  unfold missingRequiredFrameVp9
  dsimp only
  rw [remainder_eq h.pos]
  dsimp only [bind, Except.bind]
  rw [gofRead_eq (h.index_lt hidx)]
  rw [gofRead_eq (h.index_lt hidx)]
  exact missingForReferences_defined _ _ _ _ _ _ _ (h.index_lt hidx) (Nat.le_of_lt (h.layers _ hidx))

/-! ## VP9 frames -/

/-- The SS data a frame brings, where it is stored, can be counted in. -/
def UsableStructure (header : RTPVideoHeaderVP9) : Prop :=
  header.ssDataAvailable = true ∧ header.temporalIdx = 0 →
    0 < header.gof.numFramesInGof ∧
      ∀ i < header.gof.numFramesInGof, (header.gof.temporalIdx i).toNat < kMaxTemporalLayers

theorem sameGofs_noteIds (s : Finder) (pictureId : Int) : SameGofs s (s.noteIds pictureId) := by
  unfold noteIds
  dsimp only
  split <;> split <;> exact ⟨rfl, rfl, rfl⟩

theorem sound_storeStructure (h : Sound s) (hu : UsableStructure header)
    (hfits : header.ssDataAvailable → FitsArrays header) (tl0PicIdx : Int)
    (hp : pictureId < kPicIdLength) : Sound (s.storeStructure header tl0PicIdx pictureId) := by
  unfold storeStructure
  split
  · next hss =>
    obtain ⟨hpos, hlayers⟩ := hu hss
    have hnew : SoundGof { header.gof with pidStart := pictureId } :=
      ⟨hpos, (hfits hss.1).frames, hlayers⟩
    refine ⟨fun e he => ?_, h.stashed⟩
    unfold gofOf store
    dsimp only
    rcases mem_of_mem_insertNew he with rfl | he
    · rw [if_pos rfl]
      exact ⟨hnew, hp⟩
    -- an older entry may point to the slot that is overwritten
    split
    · exact ⟨hnew, (h.gofs e he).2⟩
    · exact h.gofs e he
  · exact h

theorem sound_updateGofInfo (h : Sound s) (hu : UsableStructure header)
    (hfits : header.ssDataAvailable → FitsArrays header) (tl0PicIdx : Int)
    (hp : pictureId < kPicIdLength) : Sound (s.updateGofInfo header tl0PicIdx pictureId) := by
  have hstored := sound_storeStructure h hu hfits tl0PicIdx hp
  exact ⟨fun e he => hstored.gofs e (mem_of_mem_fromLowerBound he), hstored.stashed⟩

theorem not_descending_saved (x : Int) :
    descending (uint8 x) (uint8 (x - kMaxGofSaved)) = false := by
  have hsub : uint8 (x - kMaxGofSaved) = uint8 x - 50#8 := by
    apply eq_of_toNat_eq
    change ((x - 50) % 256).toNat = (2 ^ 8 - 50 + (x % 256).toNat) % 256
    omega
  rw [hsub]
  generalize uint8 x = a
  revert a
  decide

/-- A base layer frame with SS data finds its entry, as does one whose entry was there. -/
theorem mem_keys_updateGofInfo (h : (header.ssDataAvailable ∧ header.temporalIdx = 0) ∨
      uint8 tl0PicIdx ∈ keys s.gofInfo) (pictureId : Nat) :
    uint8 tl0PicIdx ∈ keys (s.updateGofInfo header tl0PicIdx pictureId).gofInfo := by
  refine mem_keys_fromLowerBound ?_ (not_descending_saved tl0PicIdx)
  unfold storeStructure
  split
  · exact (mem_keys_insertNew _ _ _ _ _).mpr (.inl rfl)
  · next hss => exact h.resolve_left hss

theorem sound_recordDelta (h : Sound s) (frame : Frame) (hp : frame.pictureId < kPicIdLength)
    (header : RTPVideoHeaderVP9) (tl0PicIdx : Int) (hgof : SoundGof (s.gofOf info)) :
    Sound (s.recordDelta frame header tl0PicIdx info) := by
  refine ⟨fun e he => ?_, h.stashed⟩
  unfold recordDelta at he
  dsimp only at he
  split at he
  · rcases mem_of_mem_insertNew he with rfl | he
    · exact ⟨hgof, hp⟩
    · exact h.gofs e he
  · exact h.gofs e he

theorem completeDelta_defined (h : Sound s) (frame : Frame) (header : RTPVideoHeaderVP9)
    (hgof : SoundGof (s.gofOf info)) :
    ∃ r, s.completeDelta frame header info = .ok r ∧ Sound r.1 := by
  have hidx := Nat.mod_lt
    (forwardDiff kPicIdLength (s.gofOf info).pidStart frame.pictureId) hgof.pos
  unfold completeDelta
  dsimp only
  rw [remainder_eq hgof.pos]
  dsimp only [bind, Except.bind]
  rw [gofRead_eq (hgof.index_lt hidx)]
  rw [gofRead_eq (hgof.index_lt hidx)]
  exact ⟨_, rfl, h.same (sameGofs_completedFrameVp9 _ _)⟩

theorem manageDelta_defined (h : Sound s) (hf : Received frame)
    (hp : frame.pictureId < kPicIdLength) (header : RTPVideoHeaderVP9) (tl0PicIdx : Int)
    {key : BitVec 8} (hfind : find key s.gofInfo = some info)
    (hstay : StaysInGof s info frame.pictureId) :
    ∃ r, s.manageDelta frame header tl0PicIdx key info = .ok r ∧ Sound r.1 := by
  obtain ⟨hgof, hlast⟩ := h.gofs _ (mem_of_find hfind)
  obtain ⟨s₁, info', hrec, hsame, hinfo, hlast'⟩ := frameReceivedVp9_defined hgof hlast hp hstay
  have h₁ := h.same hsame
  have hgof' : SoundGof (s₁.gofOf info') := by
    rw [hsame.gofOf]
    unfold gofOf at hgof ⊢
    rw [hinfo]
    exact hgof
  have hsound : Sound { s₁ with
      gofInfo := modify key (fun _ => info') s₁.gofInfo } := by
    refine ⟨fun e he => ?_, h₁.stashed⟩
    rcases mem_of_mem_modify he with he | ⟨_, _, rfl⟩
    · exact h₁.gofs e he
    · exact ⟨hgof', hlast'⟩
  unfold manageDelta
  rw [hrec]
  dsimp only [bind, Except.bind]
  obtain ⟨missing, hmiss⟩ := missingRequiredFrameVp9_defined (s := { s₁ with
    gofInfo := modify key (fun _ => info') s₁.gofInfo }) hgof' frame.pictureId
  rw [hmiss]
  cases missing with
  | true => exact ⟨_, rfl, hsound.stash hf⟩
  | false =>
    exact completeDelta_defined (sound_recordDelta hsound frame hp header tl0PicIdx hgof')
      frame header hgof'

/-! ## What a frame has to meet -/

/-- The finder once a frame with these ids has stored its structure. -/
def placed (s : Finder) (frame : Frame) (pictureId tl0PicIdx : Int) : Finder :=
  (s.noteIds pictureId).updateGofInfo frame.codecHeader tl0PicIdx
    (uint16 (pictureId % kPicIdLength))

/-- The key under which a frame looks for its GOF. -/
def lookupKey (frame : Frame) (tl0PicIdx : Int) : BitVec 8 :=
  if frame.frameType = .key then uint8 tl0PicIdx else Finder.gofKey frame.codecHeader tl0PicIdx

/-- What the finder needs of a frame with these ids: its SS data can be counted in, a key frame
finds an entry, and the frame does not follow the last one of its GOF past the end of the GOF. -/
structure Fitting (s : Finder) (frame : Frame) (pictureId tl0PicIdx : Int) : Prop where
  usable : UsableStructure frame.codecHeader
  key : frame.frameType = .key →
    (frame.codecHeader.ssDataAvailable = true ∧ frame.codecHeader.temporalIdx = 0) ∨
      uint8 tl0PicIdx ∈ keys s.gofInfo
  gap : ∀ info ∈ find (lookupKey frame tl0PicIdx)
      (placed s frame pictureId tl0PicIdx).gofInfo,
    StaysInGof (placed s frame pictureId tl0PicIdx) info (uint16 (pictureId % kPicIdLength))

/-- The finder and the ids a frame is managed with, unless it is dropped as old. -/
def fixedIds (s : Finder) (frame : Frame) : Option (Finder × Int × Int) :=
  match s.vp9PidTl0Fix frame.timestamp frame.codecHeader.pictureId
    frame.codecHeader.tl0PicIdx with
  | .ok (s, some ids) => some (s, ids)
  | _ => none

/-- A frame in non-flexible mode with a picture id and layer indices fits the finder. -/
def Meets (s : Finder) (frame : Frame) : Prop :=
  frame.codecHeader.flexibleMode = false → frame.codecHeader.temporalIdx ≠ kNoTemporalIdx →
    ∀ r ∈ fixedIds s frame, r.2.1 ≠ kNoPictureId → Fitting r.1 frame r.2.1 r.2.2

instance (header : RTPVideoHeaderVP9) : Decidable (UsableStructure header) :=
  inferInstanceAs (Decidable (_ → _))

instance (s : Finder) (frame : Frame) (pictureId tl0PicIdx : Int) :
    Decidable (Fitting s frame pictureId tl0PicIdx) :=
  decidable_of_iff (_ ∧ _ ∧ _)
    ⟨fun h => ⟨h.1, h.2.1, h.2.2⟩, fun h => ⟨h.usable, h.key, h.gap⟩⟩

instance (s : Finder) (frame : Frame) : Decidable (Meets s frame) :=
  inferInstanceAs (Decidable (_ → _))

theorem uint16_mod_lt (pictureId : Int) : uint16 (pictureId % kPicIdLength) < kPicIdLength := by
  unfold uint16
  rw [toNat_ofInt]
  rw [show (kPicIdLength : Int) = 32768 from rfl, show kPicIdLength = 32768 from rfl]
  omega

theorem Received.fits (h : Received frame) (hss : frame.codecHeader.ssDataAvailable) :
    FitsArrays frame.codecHeader := by
  obtain ⟨_, _, _, hparse, hheader, _⟩ := h
  rw [hheader] at hss ⊢
  exact parse_fits hparse hss

theorem manageNonFlexible_defined (h : Sound s) (hf : Received frame) {pictureId : Int}
    (hfit : Fitting s frame pictureId tl0PicIdx)
    (hp : frame.pictureId = uint16 (pictureId % kPicIdLength)) :
    ∃ r, (placed s frame pictureId tl0PicIdx).manageNonFlexible frame frame.codecHeader tl0PicIdx =
      .ok r ∧ Sound r.1 := by
  have hlt : frame.pictureId < kPicIdLength := hp ▸ uint16_mod_lt pictureId
  have hplaced : Sound (placed s frame pictureId tl0PicIdx) :=
    sound_updateGofInfo (h.same (sameGofs_noteIds s pictureId)) hfit.usable hf.fits tl0PicIdx
      (uint16_mod_lt pictureId)
  have hgap := hfit.gap
  rw [← hp] at hgap
  unfold manageNonFlexible
  by_cases hkey : frame.frameType = .key
  · rw [if_pos hkey]
    rw [lookupKey, if_pos hkey] at hgap
    have hmem : uint8 tl0PicIdx ∈ keys (placed s frame pictureId tl0PicIdx).gofInfo := by
      refine mem_keys_updateGofInfo ?_ _
      rw [(sameGofs_noteIds s pictureId).gofInfo]
      exact hfit.key hkey
    obtain ⟨info, hinfo⟩ := Option.isSome_iff_exists.mp
      ((find_isSome_iff _ _).mpr hmem)
    obtain ⟨hgof, hlast⟩ := hplaced.gofs _ (mem_of_find hinfo)
    obtain ⟨s₁, _, hrec, hsame, _⟩ :=
      frameReceivedVp9_defined hgof hlast hlt (hgap info hinfo)
    rw [hinfo]
    dsimp only
    rw [hrec]
    exact ⟨_, rfl, hplaced.same (hsame.trans
      (sameGofs_completedFrameVp9 s₁ { frame with numReferences := 0 }))⟩
  · rw [if_neg hkey]
    rw [lookupKey, if_neg hkey] at hgap
    dsimp only
    cases hinfo : find (gofKey frame.codecHeader tl0PicIdx)
      (placed s frame pictureId tl0PicIdx).gofInfo with
    | none => exact ⟨_, rfl, hplaced.stash hf⟩
    | some info => exact manageDelta_defined hplaced hf hlt _ _ hinfo (hgap info hinfo)

theorem manageFixed_defined (h : Sound s) (hf : Received frame) {pictureId : Int}
    (hfit : frame.codecHeader.flexibleMode = false →
      frame.codecHeader.temporalIdx ≠ kNoTemporalIdx → pictureId ≠ kNoPictureId →
        Fitting s frame pictureId tl0PicIdx) :
    ∃ r, s.manageFixed frame frame.codecHeader pictureId tl0PicIdx = .ok r ∧ Sound r.1 := by
  unfold manageFixed
  split
  · exact ⟨_, rfl, sound_manageFrameGeneric h hf pictureId⟩
  rename_i hids
  obtain ⟨hpid, htemporal⟩ := not_or.mp hids
  dsimp only
  split
  · exact ⟨_, rfl, (h.same (sameGofs_noteIds s pictureId)).same (sameGofs_completedFrameVp9 _ _)⟩
  rename_i hflex
  have hfit' := hfit (Bool.eq_false_iff.mpr hflex) htemporal hpid
  generalize hframe : ({ frame with
    spatialLayer := frame.codecHeader.spatialIdx
    interLayerPredicted := frame.codecHeader.interLayerPredicted
    pictureId := uint16 (pictureId % kPicIdLength) } : Frame) = frame'
  have hheader : frame'.codecHeader = frame.codecHeader := by rw [← hframe]
  have hfit'' : Fitting s frame' pictureId tl0PicIdx := by
    rw [← hframe]
    exact ⟨hfit'.usable, hfit'.key, hfit'.gap⟩
  have hf' : Received frame' := by rw [← hframe]; exact hf
  have hdef := manageNonFlexible_defined h hf' hfit'' (by rw [← hframe])
  unfold placed at hdef
  rw [hheader] at hdef
  exact hdef

/-- **One frame.** A frame that meets the condition is managed without an undefined step, and the
invariant is kept. -/
theorem manageFrame_defined (h : Sound s) (hf : Received frame) {held : Bool}
    (hmeets : held → Meets s frame) : ∃ r, s.manageFrame frame held = .ok r ∧ Sound r.1 := by
  unfold manageFrame
  split
  · exact ⟨_, rfl, h⟩
  split
  · unfold manageFrameVp9
    cases held with
    | false => exact ⟨_, rfl, h⟩
    | true =>
      obtain ⟨⟨s₁, ids⟩, hfix, hs₁⟩ := vp9PidTl0Fix_defined h frame.timestamp
        frame.codecHeader.pictureId frame.codecHeader.tl0PicIdx
      dsimp only
      rw [hfix]
      cases ids with
      | none => exact ⟨_, rfl, hs₁⟩
      | some ids =>
        have hfixed : (s₁, ids) ∈ fixedIds s frame := by
          unfold fixedIds
          rw [hfix]
          rfl
        exact manageFixed_defined hs₁ hf fun hflex htemporal hpid =>
          hmeets rfl hflex htemporal _ hfixed hpid
  · exact ⟨_, rfl, sound_manageFrameGeneric h hf kNoPictureId⟩

/-! ## Runs -/

/-- The finder and the frame that an event has `ManageFrame` look at, where the frame's header is
at hand. -/
def managed (c : Machine) : Event → Option (Finder × Frame)
  | .manageFrame frame true => if c.loops.isEmpty then some (c.finder, frame) else none
  | .retry true =>
    match c.loops, c.finder.stashedFrames with
    | (_ + 1) :: _, frame :: stashed => some ({ c.finder with stashedFrames := stashed }, frame)
    | _, _ => none
  | _ => none

/-- The frames of an event come from `Parse`, and what is managed meets the condition. -/
structure Allowed (c : Machine) (e : Event) : Prop where
  received : ∀ frame held, e = .manageFrame frame held → Received frame
  meets : ∀ p ∈ managed c e, Meets p.1 p.2

theorem Allowed.of_received {c : Machine} {held : Bool} (hf : Received frame)
    (hm : ∀ p ∈ managed c (.manageFrame frame held), Meets p.1 p.2) :
    Allowed c (.manageFrame frame held) :=
  ⟨fun _ _ he => (Event.manageFrame.inj he).1 ▸ hf, hm⟩

def Steps (c : Machine) (e : Event) (c' : Machine) : Prop := c.next e = .ok c'

theorem sound_beginRetry (h : Sound s) (loops : List Nat) :
    Sound (beginRetry s loops).finder :=
  ⟨h.gofs, fun f hf => h.stashed f (mem_of_mem_drop hf)⟩

theorem sound_resume {r : Finder × Bool} (h : Sound r.1) (loops : List Nat) :
    Sound (resume loops r).finder := by
  unfold resume
  split
  · exact sound_beginRetry h loops
  · exact h

/-- **One step.** -/
theorem next_defined {c : Machine} (h : Sound c.finder) {e : Event} (he : Allowed c e) :
    ∃ c', c.next e = .ok c' ∧ Sound c'.finder := by
  cases e with
  | manageFrame frame held =>
    simp only [Machine.next]
    split
    · next hempty =>
      have hmeets : held → Meets c.finder frame := by
        rintro rfl
        exact he.meets (c.finder, frame) (if_pos hempty)
      obtain ⟨r, hr, hsound⟩ := manageFrame_defined h (he.received frame held rfl) hmeets
      rw [hr]
      exact ⟨_, rfl, sound_resume hsound []⟩
    · exact ⟨c, rfl, h⟩
  | paddingReceived seqNum =>
    simp only [Machine.next]
    split
    · exact ⟨_, rfl, sound_beginRetry (h.same (sameGofs_paddingReceived _ seqNum)) []⟩
    · exact ⟨c, rfl, h⟩
  | clearTo seqNum =>
    simp only [Machine.next]
    split
    · exact ⟨_, rfl, h.gofs, fun f hf => h.stashed f (mem_filter.mp hf).1⟩
    · exact ⟨c, rfl, h⟩
  | retry held =>
    simp only [Machine.next]
    split
    · exact ⟨c, rfl, h⟩
    · exact ⟨_, rfl, h⟩
    · exact ⟨_, rfl, h⟩
    rename_i _ _ frame stashed hloops hstash
    have hrest : Sound { c.finder with stashedFrames := stashed } :=
      ⟨h.gofs, fun f hf => h.stashed f (hstash ▸ mem_cons_of_mem _ hf)⟩
    have hmeets : held → Meets { c.finder with stashedFrames := stashed } frame := by
      rintro rfl
      refine he.meets ({ c.finder with stashedFrames := stashed }, frame) ?_
      unfold managed
      rw [hloops, hstash]
      rfl
    obtain ⟨r, hr, hsound⟩ := manageFrame_defined hrest
      (h.stashed frame (hstash ▸ mem_cons_self)) hmeets
    rw [hr]
    exact ⟨_, rfl, sound_resume hsound _⟩

/-! ## No undefined step -/

/-- **No undefined step.** In every run whose steps all meet the condition, each further step that
meets it is defined. -/
theorem reference_finding_defined (memory : Nat → GofInfoVP9) {c : Machine}
    (hr : Reaches (Guarded Allowed Steps) ⟨Finder.create memory, []⟩ c) {e : Event}
    (he : Allowed c e) : ∃ c', c.next e = .ok c' := by
  have hsound : Sound c.finder := by
    refine hr.invariant (fun c => Sound c.finder) (sound_create memory) ?_
    rintro u a v hu ⟨hok, hstep⟩
    obtain ⟨_, hv', hsound⟩ := next_defined hu hok
    rw [Steps, hv'] at hstep
    cases hstep
    exact hsound
  obtain ⟨c', hnext, _⟩ := next_defined hsound he
  exact ⟨c', hnext⟩

/-! ## Frames from payloads -/

/-- The VP9 frame of one packet with this payload. -/
def frameOf (timestamp : BitVec 32) (seqNum : BitVec 16) (payload : List (BitVec 8)) : Frame :=
  match parse blankHeader payload with
  | some parsed => {
      codecType := .vp9
      frameType := parsed.frameType
      firstSeqNum := seqNum
      lastSeqNum := seqNum
      timestamp := timestamp
      codecHeader := parsed.vp9 }
  | none => {
      codecType := .vp9
      frameType := .delta
      firstSeqNum := seqNum
      lastSeqNum := seqNum
      timestamp := timestamp
      codecHeader := blankHeader }

theorem received_frameOf (timestamp : BitVec 32) (seqNum : BitVec 16) {payload : List (BitVec 8)}
    (h : (parse blankHeader payload).isSome) :
    Received (frameOf timestamp seqNum payload) := by
  obtain ⟨parsed, hparse⟩ := Option.isSome_iff_exists.mp h
  refine ⟨blankHeader, payload, parsed, hparse, ?_⟩
  unfold frameOf
  rw [hparse]
  exact ⟨rfl, rfl⟩

/-- A key frame with a GOF of two frames, in layers 0 and 1, and its second frame. -/
def twoLayerKey : Frame := frameOf 10 1 [0xAE, 0x05, 0x00, 0x00, 0x08, 0x02, 0x00, 0x20, 0x01]
def twoLayerDelta : Frame := frameOf 11 2 [0xEC, 0x06, 0x20, 0x00, 0x01]

def afterTwoLayerKey : Machine := (fresh.after (.manageFrame twoLayerKey true)).after (.retry true)

theorem reference_finding_two_layers :
    ∃ c', afterTwoLayerKey.next (.manageFrame twoLayerDelta true) = .ok c' := by
  have hkey : Received twoLayerKey := received_frameOf 10 1 (by decide +kernel)
  have hdelta : Received twoLayerDelta := received_frameOf 11 2 (by decide +kernel)
  have hfirst : Reaches (Guarded Allowed Steps) fresh
      (fresh.after (.manageFrame twoLayerKey true)) :=
    Reaches.refl.next (.manageFrame twoLayerKey true)
      ⟨.of_received hkey (by decide +kernel), Machine.next_eq_after (by decide +kernel)⟩
  have hsecond : Reaches (Guarded Allowed Steps) fresh afterTwoLayerKey :=
    hfirst.next (.retry true)
      ⟨⟨(fun _ _ he => nomatch he), by decide +kernel⟩, Machine.next_eq_after (by decide +kernel)⟩
  exact reference_finding_defined _ hsecond (.of_received hdelta (by decide +kernel))

/-! ## Each undefined step is reached -/

/-- SS data without a GOF. -/
def emptyGofKey : Frame := frameOf 10 1 [0xAE, 0x05, 0x00, 0x00, 0x00, 0x01]

/-- A key frame without SS data. -/
def bareKey : Frame := frameOf 10 1 [0xAC, 0x05, 0x00, 0x00, 0x01]

/-- A GOF of one frame in layer 7. -/
def highLayerKey : Frame := frameOf 10 1 [0xAE, 0x05, 0x00, 0x00, 0x08, 0x01, 0xE0, 0x01]

/-- A GOF of one frame, then a base layer frame 295 pictures later that arrives with an older
timestamp, so that it is not taken for a jump. -/
def shortGofKey : Frame := frameOf 10 1 [0xAE, 0x05, 0x00, 0x00, 0x08, 0x01, 0x00, 0x01]
def farDelta : Frame := frameOf 9 2 [0xEC, 0x81, 0x2C, 0x00, 0x01, 0x01]

/-- Each frame is managed, and the retry after it finds nothing stashed. -/
def deliver (frames : List Frame) : List Event :=
  frames.flatMap fun frame => [.manageFrame frame true, .retry true]

theorem vp9_frameOf (timestamp : BitVec 32) (seqNum : BitVec 16) (payload : List (BitVec 8)) :
    (frameOf timestamp seqNum payload).codecType = .vp9 := by
  unfold frameOf
  split <;> rfl

/-- Frames that lead to each undefined step. -/
def undefinedFrames : Fault → List Frame
  | .remainderByZero => [emptyGofKey]
  | .gofInfoAbsent => [bareKey]
  | .layerIndex => [highLayerKey]
  | .gofArrayIndex => [shortGofKey, farDelta]

theorem reference_finding_undefined : ∃ frames : Fault → List Frame, ∀ fault,
      (∀ frame ∈ frames fault, frame.codecType = .vp9 ∧ Received frame) ∧
        fresh.run (deliver (frames fault)) = .error fault := by
  refine ⟨undefinedFrames, fun fault => ?_⟩
  cases fault with
  | remainderByZero | gofInfoAbsent | layerIndex =>
    refine ⟨forall_mem_singleton.mpr ⟨vp9_frameOf _ _ _, ?_⟩, ?_⟩
    · exact received_frameOf 10 1 (by decide +kernel)
    · exact Machine.run_cons_of_fault (by decide +kernel) _
  | gofArrayIndex =>
    refine ⟨forall_mem_cons.mpr ⟨⟨vp9_frameOf _ _ _, ?_⟩,
      forall_mem_singleton.mpr ⟨vp9_frameOf _ _ _, ?_⟩⟩, ?_⟩
    · exact received_frameOf 10 1 (by decide +kernel)
    · exact received_frameOf 9 2 (by decide +kernel)
    change fresh.run (_ :: _ :: _ :: _) = _
    rw [Machine.run_cons_of_defined (by decide +kernel),
      Machine.run_cons_of_defined (by decide +kernel)]
    exact Machine.run_cons_of_fault (by decide +kernel) _

end WebRtc.Video.ReferenceFinder
