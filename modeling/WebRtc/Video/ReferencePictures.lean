import WebRtc.Lib.Transition

/-! `ReferencePictureSelection` (`reference_picture_selection.cc`), the encoder buffers it steers
and the peer that acknowledges frames. -/

namespace WebRtc.Video.ReferencePictures
open Transition

structure ReferencePictureSelection where
  updateGoldenNext : Bool := true
  establishedGolden : Bool := false
  receivedAck : Bool := false
  lastSentRefPictureId : Int := 0
  lastSentRefUpdateTime : BitVec 32 := 0
  establishedRefPictureId : Int := 0
  lastRefreshTime : BitVec 32 := 0
  rtt : Int := 0

/-- The `VP8_EFLAG_` bits. -/
inductive Flag | noRefLast | noRefGf | noRefArf | noUpdGf | noUpdArf | forceGf | forceArf
  deriving DecidableEq

def timestampDiff (newTs oldTs : BitVec 32) : Int :=
  if oldTs > newTs then newTs.toNat + 2 ^ 32 - oldTs.toNat else newTs.toNat - oldTs.toNat

/-- An RPSI has 14 bits. -/
def namesLastSent (s : ReferencePictureSelection) (rpsiPictureId : Int) : Bool :=
  rpsiPictureId % 2 ^ 14 == s.lastSentRefPictureId % 2 ^ 14

def receivedRPSI (s : ReferencePictureSelection) (rpsiPictureId : Int) :
    ReferencePictureSelection :=
  if namesLastSent s rpsiPictureId then
    { s with
      receivedAck := true
      establishedGolden := s.updateGoldenNext
      updateGoldenNext := !s.updateGoldenNext
      establishedRefPictureId := s.lastSentRefPictureId }
  else s

def receivedSLI (s : ReferencePictureSelection) (nowTs : BitVec 32) :
    ReferencePictureSelection × Bool :=
  if timestampDiff nowTs s.lastRefreshTime > s.rtt then ({ s with lastRefreshTime := nowTs }, true)
  else (s, false)

-- `margin` is `kRttConfidence * rtt_` cut to an integer, as a function of `rtt_`.
variable (margin : Int → Int)

/-- Whether the next frame updates a reference. -/
def updates (s : ReferencePictureSelection) (nowTs : BitVec 32) : Bool :=
  timestampDiff nowTs s.lastSentRefUpdateTime > max (margin s.rtt) (90 * 10) && s.receivedAck

def encodeFlags (s : ReferencePictureSelection) (pictureId : Int) (sendRefresh : Bool)
    (nowTs : BitVec 32) : ReferencePictureSelection × List Flag :=
  let flags := if sendRefresh && s.receivedAck then
      [.noRefLast, if s.establishedGolden then .noRefArf else .noRefGf] else []
  if updates margin s nowTs then
    ({ s with lastSentRefPictureId := pictureId, lastSentRefUpdateTime := nowTs },
      flags ++ if s.updateGoldenNext then [.noRefLast, .forceGf, .noUpdArf, .noRefGf]
        else [.noRefLast, .forceArf, .noUpdGf, .noRefArf])
  else
    (s, flags ++ [if s.establishedGolden then .noRefArf else .noRefGf, .noUpdGf, .noUpdArf])

def encodedKeyFrame (s : ReferencePictureSelection) (pictureId : Int) : ReferencePictureSelection :=
  { s with lastSentRefPictureId := pictureId, receivedAck := false }

def setRtt (s : ReferencePictureSelection) (rtt : Int) : ReferencePictureSelection :=
  { s with rtt := 90 * rtt }

/-! ## The encoder and the peer -/

inductive Buffer | last | golden | altRef

def mayUse (flags : List Flag) : List Buffer :=
  (if .noRefLast ∈ flags then [] else [.last]) ++ (if .noRefGf ∈ flags then [] else [.golden]) ++
    if .noRefArf ∈ flags then [] else [.altRef]

def writes (flags : List Flag) : Buffer → Bool
  | .last => true
  | .golden => .noUpdGf ∉ flags
  | .altRef => .noUpdArf ∉ flags

/-- Frames are counted from 0; picture ids come again. `lastSentRef` is the frame whose id
`lastSentRefPictureId` holds. -/
structure Sender where
  rps : ReferencePictureSelection := {}
  sent : Nat := 0
  buffers : Buffer → Option Nat := fun _ => none
  lastSentRef : Option Nat := none
  acknowledged : List Nat := []

inductive Event
  | encodedKeyFrame (pictureId : Int)
  | encodeFlags (pictureId : Int) (sendRefresh : Bool) (nowTs : BitVec 32)
  | peerAcknowledges (frame : Nat)
  | receivedRPSI (rpsiPictureId : Int)
  | receivedSLI (nowTs : BitVec 32)
  | setRtt (rtt : Int)

def Sender.next (s : Sender) : Event → Sender
  | .encodedKeyFrame pictureId =>
    { s with
      rps := encodedKeyFrame s.rps pictureId
      sent := s.sent + 1
      buffers := fun _ => some s.sent
      lastSentRef := some s.sent }
  | .encodeFlags pictureId sendRefresh nowTs =>
    let (rps, flags) := encodeFlags margin s.rps pictureId sendRefresh nowTs
    { s with
      rps
      sent := s.sent + 1
      buffers := fun b => if writes flags b then some s.sent else s.buffers b
      lastSentRef := if updates margin s.rps nowTs then some s.sent else s.lastSentRef }
  | .peerAcknowledges frame => { s with acknowledged := frame :: s.acknowledged }
  | .receivedRPSI rpsiPictureId => { s with rps := receivedRPSI s.rps rpsiPictureId }
  | .receivedSLI nowTs => { s with rps := (receivedSLI s.rps nowTs).1 }
  | .setRtt rtt => { s with rps := setRtt s.rps rtt }

def Established (acknowledged : List Nat) (content : Option Nat) : Prop :=
  ∃ frame ∈ acknowledged, content = some frame

/-- Only frames that were sent are acknowledged, and an RPSI names the last reference frame only
if the peer acknowledged it. -/
def Sender.Legal (s : Sender) : Event → Prop
  | .peerAcknowledges frame => frame < s.sent
  | .receivedRPSI rpsiPictureId =>
    namesLastSent s.rps rpsiPictureId → Established s.acknowledged s.lastSentRef
  | _ => True

def referenceBuffer (golden : Bool) : Buffer := if golden then .golden else .altRef

structure Sender.Invariant (s : Sender) : Prop where
  toggled : s.rps.establishedGolden = !s.rps.updateGoldenNext
  /-- A reference buffer that is not acknowledged holds the last reference frame sent. -/
  pending : ∀ golden, s.buffers (referenceBuffer golden) = s.lastSentRef ∨
    Established s.acknowledged (s.buffers (referenceBuffer golden))
  established : s.rps.receivedAck →
    Established s.acknowledged (s.buffers (referenceBuffer !s.rps.updateGoldenNext))

section EncodeFlags

variable {margin} {s : ReferencePictureSelection} {pictureId : Int} {sendRefresh : Bool}
  {nowTs : BitVec 32}

/-- A reference buffer is written only by an update, and then it is the one whose turn it is. -/
theorem encodeFlags_writes (golden : Bool) :
    writes (encodeFlags margin s pictureId sendRefresh nowTs).2 (referenceBuffer golden) =
      (updates margin s nowTs && golden == s.updateGoldenNext) := by
  unfold encodeFlags
  cases updates margin s nowTs <;> cases s.updateGoldenNext <;> cases s.establishedGolden <;>
    cases sendRefresh && s.receivedAck <;> cases golden <;> rfl

theorem encodeFlags_mayUse (htoggled : s.establishedGolden = !s.updateGoldenNext)
    (h : (sendRefresh && s.receivedAck) = true ∨ updates margin s nowTs) :
    mayUse (encodeFlags margin s pictureId sendRefresh nowTs).2 =
      [referenceBuffer !s.updateGoldenNext] := by
  unfold encodeFlags
  generalize updates margin s nowTs = update at h ⊢
  generalize (sendRefresh && s.receivedAck) = refresh at h ⊢
  rw [htoggled]
  cases s.updateGoldenNext <;> cases update <;> cases refresh <;> simp_all <;> rfl

theorem encodeFlags_toggles :
    let t := (encodeFlags margin s pictureId sendRefresh nowTs).1
    t.updateGoldenNext = s.updateGoldenNext ∧ t.establishedGolden = s.establishedGolden ∧
      t.receivedAck = s.receivedAck := by
  unfold encodeFlags
  cases updates margin s nowTs <;> exact ⟨rfl, rfl, rfl⟩

end EncodeFlags

variable {margin} {s : Sender}

theorem Sender.Invariant.next (h : s.Invariant) (e : Event) (hlegal : s.Legal e) :
    (s.next margin e).Invariant := by
  cases e with
  | encodedKeyFrame pictureId => exact ⟨h.toggled, fun _ => .inl rfl, fun hack => by cases hack⟩
  | encodeFlags pictureId sendRefresh nowTs =>
    obtain ⟨hnext, hestablished, hack⟩ := @encodeFlags_toggles margin s.rps pictureId sendRefresh nowTs
    refine ⟨?_, fun golden => ?_, ?_⟩
    · simp only [Sender.next, hnext, hestablished, h.toggled]
    · simp only [Sender.next, encodeFlags_writes]
      cases hupdates : updates margin s.rps nowTs with
      | false => exact h.pending golden
      | true =>
        -- An update overwrites one buffer; the other one is established.
        by_cases hturn : golden = s.rps.updateGoldenNext
        · simp [hturn]
        · rw [Bool.eq_not_of_ne hturn]
          simpa using .inr (h.established (Bool.and_eq_true_iff.mp hupdates).2)
    · simp only [Sender.next, hnext, hack, encodeFlags_writes]
      simpa using h.established
  | peerAcknowledges frame =>
    have hmore {content} (hold : Established s.acknowledged content) :
        Established (frame :: s.acknowledged) content := by
      obtain ⟨f, hf, hcontent⟩ := hold
      exact ⟨f, .tail _ hf, hcontent⟩
    exact ⟨h.toggled, fun golden => (h.pending golden).imp_right hmore,
      fun hack => hmore (h.established hack)⟩
  | receivedRPSI rpsiPictureId =>
    rw [Sender.next, receivedRPSI]
    split
    · next hnames =>
      -- The last reference frame is acknowledged, so both buffers are.
      have hall golden : Established s.acknowledged (s.buffers (referenceBuffer golden)) :=
        (h.pending golden).elim (fun heq => heq ▸ hlegal hnames) id
      exact ⟨(Bool.not_not _).symm, fun golden => .inr (hall golden), fun _ => hall _⟩
    · exact h
  | receivedSLI nowTs =>
    rw [Sender.next, receivedSLI]
    split <;> exact ⟨h.toggled, h.pending, h.established⟩
  | setRtt rtt => exact ⟨h.toggled, h.pending, h.established⟩

/-- A frame with a granted refresh, or one that updates a reference, may use one buffer, and the
frame in it has been acknowledged. -/
theorem refresh_uses_acknowledged (hrun : Reaches
      (Guarded Sender.Legal fun s e t => s.next margin e = t) {} s)
    (pictureId : Int) (sendRefresh : Bool) (nowTs : BitVec 32)
    (h : (sendRefresh && s.rps.receivedAck) = true ∨ updates margin s.rps nowTs) :
    ∃ buffer, mayUse (encodeFlags margin s.rps pictureId sendRefresh nowTs).2 = [buffer] ∧
      Established s.acknowledged (s.buffers buffer) := by
  have hinv : s.Invariant :=
    hrun.invariant _ ⟨rfl, fun _ => .inl rfl, fun hack => by cases hack⟩
      fun _ e _ hu hstep => hstep.2 ▸ hu.next e hstep.1
  refine ⟨_, encodeFlags_mayUse hinv.toggled h, hinv.established ?_⟩
  rcases h with h | h <;> exact (Bool.and_eq_true_iff.mp h).2

/-- A key frame, its acknowledgement, and a refresh that refers to it. -/
theorem refresh_uses_key_frame : ∃ s : Sender, s.rps.receivedAck ∧
    ∃ buffer, mayUse (encodeFlags id s.rps 8 true 1000).2 = [buffer] ∧
      Established s.acknowledged (s.buffers buffer) :=
  ⟨_, rfl, refresh_uses_acknowledged (.next (.receivedRPSI 7)
    (.next (.peerAcknowledges 0) (.next (.encodedKeyFrame 7) .refl ⟨trivial, rfl⟩)
      ⟨Nat.one_pos, rfl⟩) ⟨fun _ => ⟨0, .head _, rfl⟩, rfl⟩) 8 true 1000 (.inl rfl)⟩

end WebRtc.Video.ReferencePictures
