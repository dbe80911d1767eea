import WebRtc.H264.SpsVuiRewriter

/-! What `SpsVuiRewriter` writes: the same sequence parameter set with a VUI that allows no
reordering, the other fields of the VUI and the bits behind it copied, and a set that is not
rewritten again. -/

namespace WebRtc.H264
open Bits Bits.Fields BitStream BitBuffer List Option

variable {p q r c : List Bool} {maxNumRefFrames : BitVec 32} {w w' s s' : BitBuffer}
  {restriction : BitstreamRestriction} {sps : SpsState}

/-! ## The VUI that is written -/

theorem reads_flag_off : (u 1).Reads [false] 0 := reads_u (by decide) rfl

theorem reads_flag_on : (u 1).Reads [true] 1 := reads_u (by decide) rfl

theorem reads_present_none {α : Type} (f : Fields α) : (present f).Reads [false] none :=
  reads_flag_off.bind (reads_pure none)

/-- The front of a VUI whose flags are all off. -/
def blankFront : VuiFront where
  aspectRatio := none
  overscanAppropriateFlag := none
  videoSignalType := none
  chromaSampleLocType := none
  timingInfo := none
  nalHrdParameters := none
  vclHrdParameters := none
  lowDelayHrdFlag := 0
  picStructPresentFlag := 0

theorem reads_blankFront : vuiFront.Reads (bits 8 0) blankFront := by
  exact (reads_present_none _).bind <| (reads_present_none _).bind <|
    (reads_present_none _).bind <| (reads_present_none _).bind <| (reads_present_none _).bind <|
    (reads_present_none _).bind <| (reads_present_none _).bind <| (reads_pure 0).bind <|
    reads_flag_off.bind (reads_pure _)

/-- The restriction of `AddBitstreamRestriction`. -/
def defaultRestriction : RestrictionFront where
  motionVectorsOverPicBoundariesFlag := 1
  maxBytesPerPicDenom := 2
  maxBitsPerMbDenom := 1
  log2MaxMvLengthHorizontal := 16
  log2MaxMvLengthVertical := 16

theorem reads_defaultRestriction :
    restrictionFront.Reads (bits 1 1 ++ (golombBits 2 ++ (golombBits 1 ++ (golombBits 16 ++
      (golombBits 16 ++ []))))) defaultRestriction := by
  have hue : ∀ v : BitVec 32, v.toNat + 1 < 2 ^ 32 → ue.Reads (golombBits v.toNat) v :=
    fun v hv => reads_ue hv
  exact reads_flag_on.bind <| (hue 2 (by decide)).bind <| (hue 1 (by decide)).bind <|
    (hue 16 (by decide)).bind <| (hue 16 (by decide)).bind (reads_pure _)

/-- A restriction whose last two fields are those that the rewriter wants. -/
theorem reads_restriction {front : RestrictionFront} (h : restrictionFront.Reads p front)
    (hmax : maxNumRefFrames.toNat + 1 < 2 ^ 32) :
    bitstreamRestriction.Reads (p ++ (golombBits 0 ++ (golombBits maxNumRefFrames.toNat ++ [])))
      ⟨front, 0, maxNumRefFrames⟩ := by
  have hzero : ue.Reads (golombBits 0) 0 := reads_ue (v := 0) (by decide)
  exact h.bind <| hzero.bind <| (reads_ue hmax).bind (reads_pure _)

theorem wrote_golomb {v : BitVec 32} {u : Unit} (h : writeExponentialGolomb v w = some (u, w')) :
    Wrote w (golombBits v.toNat) w' :=
  (writeExponentialGolomb_some h).2.2

/-- What `AddBitstreamRestriction` writes is read as a restriction. -/
theorem addBitstreamRestriction_some {u : Unit}
    (h : addBitstreamRestriction maxNumRefFrames w = some (u, w')) : ∃ q, Wrote w q w' ∧
      bitstreamRestriction.Reads q ⟨defaultRestriction, 0, maxNumRefFrames⟩ := by
  obtain ⟨_, w₁, h₁, h⟩ := bind_eq_some h
  obtain ⟨_, _, h₂, h⟩ := bind_eq_some h
  obtain ⟨_, _, h₃, h⟩ := bind_eq_some h
  obtain ⟨_, _, h₄, h⟩ := bind_eq_some h
  obtain ⟨_, w₅, h₅, h⟩ := bind_eq_some h
  obtain ⟨_, _, h₆, h⟩ := bind_eq_some h
  have hflag : Wrote w (bits 1 1) w₁ := (writeBits_some (by decide) h₁).2
  have hfront : Wrote w (bits 1 1 ++ (golombBits 2 ++ (golombBits 1 ++ (golombBits 16 ++
      (golombBits 16 ++ []))))) w₅ :=
    hflag.trans <| (wrote_golomb h₂).trans <| (wrote_golomb h₃).trans <| (wrote_golomb h₄).trans <|
      (wrote_golomb h₅).trans (Wrote.refl w₅)
  refine ⟨_, hfront.trans <| (wrote_golomb h₆).trans <| (wrote_golomb h).trans (Wrote.refl w'), ?_⟩
  exact reads_restriction reads_defaultRestriction (writeExponentialGolomb_some h).1

/-- A restriction behind its flag, which is set. -/
theorem reads_restrictionPart (h : bitstreamRestriction.Reads q restriction) :
    restrictionPart.Reads ([true] ++ (q ++ [])) (some restriction) :=
  reads_flag_on.bind (h.bind (reads_pure _))

theorem reads_vui {front : VuiFront} {restriction : Option BitstreamRestriction}
    (hfront : vuiFront.Reads p front) (hrestriction : restrictionPart.Reads q restriction) :
    vui.Reads (p ++ (q ++ [])) ⟨front, restriction⟩ :=
  hfront.bind (hrestriction.bind (reads_pure _))

/-- The restriction that the rewriter leaves for `old`, the restriction of the input if it has
one: nothing is reordered, and the other fields are the input's. -/
structure NoReordering (maxNumRefFrames : BitVec 32) (old : Option BitstreamRestriction)
    (new : BitstreamRestriction) : Prop where
  maxNumReorderFrames : new.maxNumReorderFrames = 0
  maxDecFrameBuffering : new.maxDecFrameBuffering = maxNumRefFrames
  front : ∀ r, old = some r → new.front = r.front

theorem flag_on {bit : List Bool} (hlen : bit.length = 1)
    (hne : ¬ BitVec.ofNat 32 (ofBits bit) = 0) : bit = [true] := by
  obtain ⟨b, rfl⟩ := length_eq_one_iff.mp hlen
  cases b with
  | true => rfl
  | false => exact absurd rfl hne

/-- A rewritten restriction: what the rewriter took from the source, and what it wrote. -/
theorem rewriteRestriction_rewritten {result : ParseResult}
    (h : rewriteRestriction maxNumRefFrames s w = some (result, s', w')) (hresult : result ≠ .vuiOk) :
    ∃ c r q old new, s.rest = c ++ r ∧ s' = s.advance c.length ∧ restrictionPart.Reads c old ∧
      Wrote w q w' ∧ restrictionPart.Reads q (some new) ∧ NoReordering maxNumRefFrames old new := by
  obtain ⟨⟨_, _⟩, hread, hrun⟩ := bind_eq_some_iff.mp h
  obtain ⟨⟨_, w₁⟩, hwrite, h⟩ := bind_eq_some_iff.mp hrun
  have hset : Wrote w [true] w₁ := (writeBits_some (by decide) hwrite).2
  obtain ⟨-, bit, r, hs, hlen, rfl, rfl⟩ := readBits_some hread
  have hflag := reads_u (n := 1) (by decide) hlen
  dsimp only at h
  split at h
  · next hzero =>
    obtain ⟨⟨_, w₂⟩, hadd, hend⟩ := bind_eq_some_iff.mp h
    cases hend
    obtain ⟨q, hq, hreads⟩ := addBitstreamRestriction_some hadd
    rw [hzero] at hflag
    refine ⟨bit ++ [], r, _, none, _, by rw [hs, append_nil],
      by rw [append_nil, hlen], hflag.bind (reads_pure _),
      hset.trans (hq.trans (Wrote.refl _)), reads_restrictionPart hreads, rfl, rfl, ?_⟩
    intro _ hnone
    cases hnone
  · next hone =>
    obtain rfl := flag_on hlen hone
    obtain ⟨⟨front, _, w₂⟩, hcopy, hrun⟩ := bind_eq_some_iff.mp h
    obtain ⟨⟨reorder, _⟩, hreorder, h⟩ := bind_eq_some_iff.mp hrun
    obtain ⟨⟨dec, _⟩, hdec, hrun⟩ := bind_eq_some_iff.mp h
    split at hrun
    · cases hrun
      exact absurd rfl hresult
    obtain ⟨⟨_, _⟩, hzero, h⟩ := bind_eq_some_iff.mp hrun
    obtain ⟨⟨_, _⟩, hmax, hend⟩ := bind_eq_some_iff.mp h
    cases hend
    obtain ⟨p, _, hp, hfront, rfl, hwrote⟩ := copy_some hcopy
    obtain ⟨_, hr₂, hreorderCode, rfl⟩ := readExponentialGolomb_some hreorder
    obtain ⟨r₃, hr₃, hdecCode, rfl⟩ := readExponentialGolomb_some hdec
    have hr₁ := rest_advance_of_append hp rfl
    rw [hr₁] at hr₂
    rw [rest_advance_of_append (hr₁.trans hr₂) rfl] at hr₃
    rw [rest_advance_of_append hs hlen] at hp
    have hold : bitstreamRestriction.Reads (p ++ (golombBits reorder.toNat ++
        (golombBits dec.toNat ++ []))) ⟨front, reorder, dec⟩ :=
      hfront.bind <| (reads_ue hreorderCode).bind <| (reads_ue hdecCode).bind (reads_pure _)
    have hnew := reads_restriction hfront (writeExponentialGolomb_some hmax).1
    have hwritten := hset.trans <| (hwrote.trans <| (wrote_golomb hzero).trans <|
      (wrote_golomb hmax).trans (Wrote.refl _)).trans (Wrote.refl _)
    refine ⟨_, r₃, _, _, _, ?_, ?_, reads_restrictionPart hold, hwritten,
      reads_restrictionPart hnew, rfl, rfl, ?_⟩
    · rw [hs, hp, hr₂, hr₃]
      simp
    · simp only [advance_advance, length_append, length_nil, hlen]
      congr 1
      omega
    intro _ hr
    cases hr
    rfl

/-- What `CopyAndRewriteVui` writes for a set without a VUI. -/
theorem addVui_some {u : Unit} (h : addVui maxNumRefFrames w = some (u, w')) :
    ∃ q new, Wrote w q w' ∧ vui.Reads q ⟨blankFront, some new⟩ ∧
      NoReordering maxNumRefFrames none new := by
  obtain ⟨_, w₁, h₁, h⟩ := bind_eq_some h
  obtain ⟨_, w₂, h₂, h⟩ := bind_eq_some h
  have hfront : Wrote w (bits 8 0) w₁ := (writeBits_some (by decide) h₁).2
  have hset : Wrote w₁ [true] w₂ := (writeBits_some (by decide) h₂).2
  obtain ⟨q, hq, hreads⟩ := addBitstreamRestriction_some h
  refine ⟨_, _, hfront.trans ((hset.trans (hq.trans (Wrote.refl _))).trans (Wrote.refl _)),
    reads_vui reads_blankFront (reads_restrictionPart hreads), rfl, rfl, ?_⟩
  intro _ hnone
  cases hnone

/-- The VUI that the rewriter leaves for `old`, the VUI of the input if it has one. -/
structure Rewritten (maxNumRefFrames : BitVec 32) (old : Option Vui) (new : Vui) : Prop where
  restriction : ∃ r, new.restriction = some r ∧
    NoReordering maxNumRefFrames (old.bind Vui.restriction) r
  front : ∀ v, old = some v → new.front = v.front

theorem reads_vuiPart {vuiParamsPresent : BitVec 32} (hpresent : vuiParamsPresent ≠ 0) {v : Vui}
    (h : vui.Reads q v) : (vuiPart vuiParamsPresent).Reads (q ++ []) (some v) := by
  rw [vuiPart, if_neg hpresent]
  exact h.bind (reads_pure _)

/-- A rewritten VUI: what the rewriter took from the source, and what it wrote behind the flag. -/
theorem copyAndRewriteVui_rewritten {result : ParseResult}
    (h : copyAndRewriteVui sps s w = some (result, s', w')) (hresult : result ≠ .vuiOk) :
    ∃ c r q old new, s.rest = c ++ r ∧ s' = s.advance c.length ∧
      (vuiPart sps.vuiParamsPresent).Reads c old ∧ Wrote w ([true] ++ q) w' ∧ vui.Reads q new ∧
      Rewritten sps.maxNumRefFrames old new := by
  obtain ⟨⟨_, w₁⟩, hflag, hrun⟩ := bind_eq_some_iff.mp h
  have hset : Wrote w [true] w₁ := (writeBits_some (by decide) hflag).2
  dsimp only at hrun
  split at hrun
  · next hvui =>
    obtain ⟨⟨_, w₂⟩, hadd, hend⟩ := bind_eq_some_iff.mp hrun
    cases hend
    obtain ⟨q, new, hq, hreads, hnew⟩ := addVui_some hadd
    refine ⟨[], _, q, none, _, rfl, (advance_zero _).symm, ?_, hset.trans hq, hreads,
      ⟨new, rfl, hnew⟩, ?_⟩
    · rw [vuiPart, if_pos hvui]
      exact reads_pure none
    · intro _ hnone
      cases hnone
  · next hvui =>
    obtain ⟨⟨_, _, w₂⟩, hcopy, hrewrite⟩ := bind_eq_some_iff.mp hrun
    obtain ⟨p, r, hp, hfront, rfl, hwrote⟩ := copy_some hcopy
    obtain ⟨c, r₁, q, old, new, hc, rfl, hold, hq, hreads, hnew⟩ :=
      rewriteRestriction_rewritten hrewrite hresult
    rw [rest_advance_of_append hp rfl] at hc
    refine ⟨_, r₁, _, _, _, ?_, ?_, reads_vuiPart hvui (reads_vui hfront hold),
      hset.trans (hwrote.trans (hq.trans (Wrote.refl _))), reads_vui hfront hreads,
      ⟨new, rfl, hnew⟩, ?_⟩
    · rw [hp, hc]
      simp
    · simp [advance_advance]
    intro v hv
    cases hv
    rfl

/-! ## A VUI that is not rewritten -/

theorem restrictionPart_cases (h : restrictionPart.Reads q (some restriction)) :
    ∃ q', q = [true] ++ q' ∧ bitstreamRestriction.Reads q' restriction := by
  obtain ⟨_, q', _, rfl, hflag, htail⟩ := reads_bind_cases h
  obtain ⟨-, hlen, rfl⟩ := reads_u_cases hflag
  split at htail
  · cases (reads_pure_cases htail).2
  rename_i hne
  obtain rfl := flag_on hlen hne
  obtain ⟨q₁, _, r, rfl, hr, hend⟩ := reads_bind_cases htail
  obtain ⟨rfl, heq⟩ := reads_pure_cases hend
  cases heq
  exact ⟨q₁, by rw [append_nil], hr⟩

theorem bitstreamRestriction_cases (h : bitstreamRestriction.Reads q restriction) :
    ∃ p, q = p ++ (golombBits restriction.maxNumReorderFrames.toNat ++
        golombBits restriction.maxDecFrameBuffering.toNat) ∧
      restrictionFront.Reads p restriction.front ∧
      restriction.maxNumReorderFrames.toNat + 1 < 2 ^ 32 ∧
      restriction.maxDecFrameBuffering.toNat + 1 < 2 ^ 32 := by
  obtain ⟨p, _, _, rfl, hfront, htail⟩ := reads_bind_cases h
  obtain ⟨_, _, _, rfl, hreorder, htail⟩ := reads_bind_cases htail
  obtain ⟨_, _, _, rfl, hdec, hend⟩ := reads_bind_cases htail
  obtain ⟨rfl, rfl⟩ := reads_pure_cases hend
  obtain ⟨rfl, hreorderCode⟩ := reads_ue_cases hreorder
  obtain ⟨rfl, hdecCode⟩ := reads_ue_cases hdec
  exact ⟨p, by rw [append_nil], hfront, hreorderCode, hdecCode⟩

theorem rewriteRestriction_vuiOk (hzero : restriction.maxNumReorderFrames = 0)
    (hle : restriction.maxDecFrameBuffering ≤ maxNumRefFrames)
    (hreads : restrictionPart.Reads q (some restriction)) (hs : s.rest = q ++ r)
    (hroom : q.length ≤ w.rest.length) :
    ∃ s' w', rewriteRestriction maxNumRefFrames s w = some (.vuiOk, s', w') := by
  obtain ⟨_, rfl, hrestriction⟩ := restrictionPart_cases hreads
  obtain ⟨p, rfl, hfront, hreorder, hdec⟩ := bitstreamRestriction_cases hrestriction
  simp only [length_append, length_singleton] at hroom
  rw [append_assoc, append_assoc, append_assoc] at hs
  have hflag := readBits_ok (n := 1) (p := [true]) (by decide) rfl hs
  obtain ⟨w₁, hwrite, hset⟩ := writeBits_ok 1 (n := 1) (w := w) (by decide) (by omega)
  have hs₁ : (s.advance 1).rest = p ++ (golombBits restriction.maxNumReorderFrames.toNat ++
      (golombBits restriction.maxDecFrameBuffering.toNat ++ r)) := rest_advance_of_append hs rfl
  obtain ⟨_, hcopy, -⟩ := copy_of_reads hfront hs₁ (w := w₁)
    (by rw [hset.length_rest, length_bits]; omega)
  have hs₂ := rest_advance_of_append hs₁ rfl
  have hread := readExponentialGolomb_ok hreorder hs₂
  have hread' := readExponentialGolomb_ok hdec (rest_advance_of_append hs₂ rfl)
  have hone : ¬ BitVec.ofNat 32 (ofBits [true]) = 0 := by decide
  simp only [rewriteRestriction, hflag, hwrite, hcopy, hread, hread', bind_eq_bind,
    bind_some, if_neg hone, if_pos (And.intro hzero hle)]
  exact ⟨_, _, rfl⟩

/-- A VUI that allows no reordering is left as it is. -/
theorem copyAndRewriteVui_vuiOk (hpresent : sps.vuiParamsPresent ≠ 0) {v : Vui}
    (hv : v.restriction = some restriction) (hreorder : restriction.maxNumReorderFrames = 0)
    (hdec : restriction.maxDecFrameBuffering ≤ sps.maxNumRefFrames) (hreads : vui.Reads q v)
    (hs : s.rest = q ++ r) (hroom : q.length + 1 ≤ w.rest.length) :
    ∃ s' w', copyAndRewriteVui sps s w = some (.vuiOk, s', w') := by
  obtain ⟨p, _, _, rfl, hfront, htail⟩ := reads_bind_cases hreads
  obtain ⟨_, _, _, rfl, hpart, hend⟩ := reads_bind_cases htail
  obtain ⟨rfl, rfl⟩ := reads_pure_cases hend
  subst hv
  simp only [append_nil, length_append] at hs hroom
  rw [append_assoc] at hs
  obtain ⟨w₁, hwrite, hset⟩ := writeBits_ok 1 (n := 1) (w := w) (by decide) (by omega)
  have hroom₁ := hset.length_rest
  rw [length_bits] at hroom₁
  obtain ⟨w₂, hcopy, hwrote⟩ := copy_of_reads hfront hs (w := w₁) (by omega)
  have hs₁ := rest_advance_of_append hs rfl
  obtain ⟨s', w', hok⟩ := rewriteRestriction_vuiOk hreorder hdec hpart hs₁ (w := w₂)
    (by rw [hwrote.length_rest]; omega)
  refine ⟨s', w', ?_⟩
  simp only [copyAndRewriteVui, hwrite, hcopy, bind_eq_bind, bind_some, if_neg hpresent]
  exact hok

/-! ## The bits behind the VUI -/

theorem copyBlocks_some {fuel : Nat} (hfuel : s.rest.length ≤ fuel)
    (h : copyBlocks fuel s w = some (s', w')) : Wrote w s.rest w' := by
  induction fuel generalizing s w with
  | zero =>
    rw [eq_nil_of_length_eq_zero (Nat.le_zero.mp hfuel)]
    cases h
    exact Wrote.refl _
  | succ fuel ih =>
    rw [copyBlocks, remainingBitCount_eq] at h
    split at h
    · next hpos =>
      obtain ⟨⟨_, _, _⟩, hcopy, hrest⟩ := bind_eq_some_iff.mp h
      obtain ⟨p, r, hp, hreads, rfl, hwrote⟩ := copy_some hcopy
      obtain ⟨-, hlen, -⟩ := reads_u_cases hreads
      have hr := rest_advance_of_append hp rfl
      have htail := ih (s := s.advance p.length) (by
        rw [hr]
        have htotal := congrArg length hp
        rw [length_append] at htotal
        omega) hrest
      rw [hr] at htail
      rw [hp]
      exact hwrote.trans htail
    · next hzero =>
      rw [eq_nil_of_length_eq_zero (Nat.eq_zero_of_not_pos hzero)]
      cases h
      exact Wrote.refl _

theorem copyRemainingBits_some (h : copyRemainingBits s w = some (s', w')) : Wrote w s.rest w' := by
  obtain ⟨⟨_, _⟩, hfirst, hblocks⟩ := bind_eq_some_iff.mp h
  have hrest := copyBlocks_some (by rw [remainingBitCount_eq]) hblocks
  rw [copyMisaligned] at hfirst
  split at hfirst
  · obtain ⟨⟨_, _, _⟩, hcopy, heq⟩ := map_eq_some_iff.mp hfirst
    cases heq
    obtain ⟨p, r, hp, -, rfl, hwrote⟩ := copy_some hcopy
    rw [rest_advance_of_append hp rfl] at hrest
    rw [hp]
    exact hwrote.trans hrest
  · cases hfirst
    exact hrest

/-- The output is what was written, and zeros up to the next byte. -/
theorem ofBytes_padded (hend : w.position ≤ 8 * w.bytes.length) :
    ∃ k < 8, ofBytes (padded w) = w.past ++ replicate k false := by
  have hpos : w.position = 8 * w.byteOffset + w.bitOffset.val := rfl
  rw [padded]
  by_cases hbit : w.bitOffset.val > 0
  · obtain ⟨w', hwrite, hwrote⟩ := writeBits_ok 0 (n := 8 - w.bitOffset.val) (w := w) (by omega)
      (by simp only [rest, length_drop, length_ofBytes]; omega)
    refine ⟨8 - w.bitOffset.val, by omega, ?_⟩
    have hpast := hwrote.past
    have hpos' := hwrote.position
    have hzeros : bits (8 - w.bitOffset.val) (0 : BitVec 64).toNat =
        replicate (8 - w.bitOffset.val) false := bits_zero _
    rw [hzeros] at hpast
    rw [length_bits] at hpos'
    have hmove : w'.position = 8 * (w.byteOffset + 1) := by omega
    rw [if_pos hbit, hwrite, ← hpast, past, hmove, ← take_ofBytes]
    rfl
  · refine ⟨0, by decide, ?_⟩
    have hbyte : w.position = 8 * w.byteOffset := by omega
    rw [if_neg hbit, replicate_zero, append_nil, past, hbyte, take_ofBytes]

/-! ## The set in front of the VUI -/

/-- The bytes of the output buffer behind the bulk copy of `k` bits. -/
def copiedBytes (memory : Nat → Byte) (length : Nat) (rbsp : List Byte) (k : Nat) : List Byte :=
  let copied := k / 8 + (if k % 8 > 0 then 1 else 0)
  rbsp.take copied ++ ((List.range (length + kMaxVuiSpsIncrease)).map memory).drop copied

theorem copiedBytes_eq (memory : Nat → Byte) (length : Nat) (rbsp : List Byte) (k : Nat) :
    copiedBytes memory length rbsp k = rbsp.take (k / 8 + (if k % 8 > 0 then 1 else 0)) ++
      ((range (length + kMaxVuiSpsIncrease)).map memory).drop
        (k / 8 + (if k % 8 > 0 then 1 else 0)) := rfl

theorem copiedBytes_spec (memory : Nat → Byte) {rbsp : List Byte} {length k : Nat}
    (hlen : rbsp.length ≤ length) (hk : k ≤ 8 * rbsp.length) :
    (copiedBytes memory length rbsp k).length = length + kMaxVuiSpsIncrease ∧
      (ofBytes (copiedBytes memory length rbsp k)).take (k - 1) = (ofBytes rbsp).take (k - 1) := by
  obtain ⟨copied, hcopied⟩ : ∃ n, n = k / 8 + (if k % 8 > 0 then 1 else 0) := ⟨_, rfl⟩
  have hbounds : k ≤ 8 * copied ∧ copied ≤ rbsp.length := by
    split at hcopied <;> omega
  rw [copiedBytes, ← hcopied]
  constructor
  · simp
    omega
  · rw [ofBytes_append, take_append_of_le_length (by simp; omega), ← take_ofBytes,
      take_take, Nat.min_eq_left (by omega)]

/-- The writer starts at the flag, behind a copy of the fields in front of it. -/
theorem spsWriter_spec (memory : Nat → Byte) {rbsp : List Byte} {length k : Nat}
    (hlen : rbsp.length ≤ length) (hk : 0 < k) (hk' : k ≤ 8 * rbsp.length) :
    (spsWriter memory length (advance k (start rbsp))).past = (ofBytes rbsp).take (k - 1) ∧
      (spsWriter memory length (advance k (start rbsp))).position = k - 1 ∧
      (spsWriter memory length (advance k (start rbsp))).bytes.length =
        length + kMaxVuiSpsIncrease := by
  obtain ⟨hlength, hfront⟩ := copiedBytes_spec memory hlen hk'
  have hwriter : spsWriter memory length (advance k (start rbsp)) =
      { bytes := copiedBytes memory length rbsp k
        byteOffset := (k - 1) / 8
        bitOffset := ⟨(k - 1) % 8, Nat.mod_lt _ (by decide)⟩ } := by
    have hbyte : (advance k (start rbsp)).byteOffset = k / 8 := by
      simp [advance, start]
    have hbit : (advance k (start rbsp)).bitOffset.val = k % 8 := by
      simp [advance, start]
    simp only [spsWriter, hbyte, hbit, bytes_advance, bytes_start, ← copiedBytes_eq]
    by_cases hzero : k % 8 = 0
    · have hback : (k - 1) / 8 = k / 8 - 1 ∧ (k - 1) % 8 = 7 := by omega
      rw [if_pos hzero]
      simp only [hback]
      rw [seek_eq (by decide) (by rw [bytes_start]; omega)]
      rfl
    have hback : (k - 1) / 8 = k / 8 ∧ (k - 1) % 8 = k % 8 - 1 := by omega
    rw [if_neg hzero]
    simp only [hback]
    rw [seek_eq (by omega) (by rw [bytes_start]; omega)]
    rfl
  have hpos : (spsWriter memory length (advance k (start rbsp))).position = k - 1 := by
    rw [hwriter]
    exact Nat.div_add_mod (k - 1) 8
  refine ⟨?_, hpos, ?_⟩
  · rw [past, hpos, hwriter]
    exact hfront
  · rw [hwriter]
    exact hlength

/-- The bits of a set, split at the flag in front of its VUI. -/
theorem reads_spsUpToVui_cases (h : spsUpToVui.Reads c sps) :
    ∃ p, c.length = p.length + 1 ∧ c.take p.length = p ∧ ∀ flag value, (u 1).Reads flag value →
        spsUpToVui.Reads (p ++ flag) { sps with vuiParamsPresent := value } := by
  obtain ⟨p, q, _, rfl, hfront, htail⟩ := reads_bind_cases h
  obtain ⟨_, _, value, rfl, hbit, hend⟩ := reads_bind_cases htail
  obtain ⟨rfl, rfl⟩ := reads_pure_cases hend
  obtain ⟨-, hlen, -⟩ := reads_u_cases hbit
  refine ⟨p, by simp [hlen], take_left' rfl, ?_⟩
  intro flag value hflag
  have hreads := hfront.bind (g := fun sps => do
    let vuiParamsPresent ← u 1
    return { sps with vuiParamsPresent }) (hflag.bind (reads_pure _))
  rwa [append_nil] at hreads

/-- A set whose VUI allows no reordering is not rewritten. -/
theorem parseAndRewriteSps_vuiOk {v : Vui} (hsps : spsUpToVui.Reads c sps) (hreads : vui.Reads q v)
    (hpoc : ¬ sps.picOrderCntType ≥ 2) (hpresent : sps.vuiParamsPresent ≠ 0)
    (hv : v.restriction = some restriction) (hreorder : restriction.maxNumReorderFrames = 0)
    (hdec : restriction.maxDecFrameBuffering ≤ sps.maxNumRefFrames) {buffer : List Byte}
    (hbuffer : ofBytes (parseRbsp buffer) = c ++ (q ++ r)) (memory : Nat → Byte)
    (sps₀ : Option SpsState) (destination : List Byte) :
    (parseAndRewriteSps memory buffer sps₀ destination).1 = .vuiOk := by
  obtain ⟨p, hc, -, -⟩ := reads_spsUpToVui_cases hsps
  have hlen := congrArg length hbuffer
  simp only [length_ofBytes, length_append] at hlen
  have hparse : parseSpsUpToVui (.start (parseRbsp buffer)) =
      some (sps, advance c.length (start (parseRbsp buffer))) := read_of_reads hsps hbuffer
  have hrest : (advance c.length (start (parseRbsp buffer))).rest = q ++ r :=
    rest_advance_of_append hbuffer rfl
  have hbound := length_parseRbsp_le buffer
  obtain ⟨-, hpos, hsize⟩ := spsWriter_spec memory hbound (k := c.length) (by omega) (by omega)
  obtain ⟨_, _, hok⟩ := copyAndRewriteVui_vuiOk hpresent hv hreorder hdec hreads hrest
    (w := spsWriter memory buffer.length (advance c.length (start (parseRbsp buffer)))) (by
      simp only [rest, length_drop, length_ofBytes, hpos, hsize, kMaxVuiSpsIncrease]
      omega)
  simp only [parseAndRewriteSps, hparse, if_neg hpoc, hok, if_true]

/-! ## The rewritten set -/

/-- The stream of the output: the set up to the flag, the new VUI, the bits behind the old one, and
the zeros of the last byte. -/
theorem writtenBits {memory : Nat → Byte} {buffer : List Byte} {rest : List Bool}
    {w₁ w₂ : BitBuffer} (hc : (start (parseRbsp buffer)).rest = c ++ r)
    (hlen : c.length = p.length + 1) (htake : c.take p.length = p)
    (hwrote : Wrote (spsWriter memory buffer.length
      (advance c.length (start (parseRbsp buffer)))) ([true] ++ q) w₁) (hrest : Wrote w₁ rest w₂) :
    ∃ out k, k < 8 ∧ writeRbsp (padded w₂) = out ∧
      ofBytes (parseRbsp out) = p ++ [true] ++ (q ++ (rest ++ replicate k false)) := by
  rw [rest_start] at hc
  have htotal := congrArg length hc
  simp only [length_ofBytes, length_append] at htotal
  have hbound := length_parseRbsp_le buffer
  obtain ⟨hpast, hpos, hsize⟩ := spsWriter_spec memory hbound (k := c.length) (by omega) (by omega)
  have hall := hwrote.trans hrest
  have hfront : (ofBytes (parseRbsp buffer)).take (c.length - 1) = p := by
    rw [hc, hlen, Nat.add_sub_cancel, take_append_of_le_length (by omega), htake]
  obtain ⟨k, hk, hpadded⟩ := ofBytes_padded (hall.position_le (by rw [hpos, hsize]; omega))
  refine ⟨_, k, hk, rfl, ?_⟩
  rw [parseRbsp_writeRbsp, hpadded, hall.past, hpast, hfront]
  simp

/-- A set is rewritten with a VUI that allows no reordering; all other fields and the bits behind
the VUI are kept, and the result is not rewritten again. -/
theorem parseAndRewriteSps_rewritten (memory : Nat → Byte) (buffer : List Byte)
    (sps sps' : Option SpsState) (destination destination' : List Byte)
    (h : parseAndRewriteSps memory buffer sps destination = (.vuiRewritten, sps', destination')) :
    ∃ out spsState source source' old reader reader' new k,
      destination' = destination ++ out ∧ sps' = some spsState ∧
      parseSpsUpToVui (.start (parseRbsp buffer)) = some (spsState, source) ∧
      (vuiPart spsState.vuiParamsPresent).read source = some (old, source') ∧
      parseSpsUpToVui (.start (parseRbsp out)) =
        some ({ spsState with vuiParamsPresent := 1 }, reader) ∧
      vui.read reader = some (new, reader') ∧ Rewritten spsState.maxNumRefFrames old new ∧
      k < 8 ∧ reader'.rest = source'.rest ++ List.replicate k false ∧ ∀ memory₁ sps₁ destination₁,
        (parseAndRewriteSps memory₁ out sps₁ destination₁).1 = .vuiOk := by
  rw [parseAndRewriteSps] at h
  split at h
  · cases h
  next spsState source hparse =>
  split at h
  · cases h
  next hpoc =>
  split at h
  · cases h
  next _ _ _ hrewrite =>
  split at h
  · next hok =>
    rw [hok] at h
    cases h
  next hresult =>
  split at h
  · cases h
  next _ _ hremaining =>
  cases h
  obtain ⟨c, r, hc, hsps, rfl⟩ := reads_of_read hparse
  obtain ⟨p, hlen, htake, hflag⟩ := reads_spsUpToVui_cases hsps
  obtain ⟨_, r₁, q, old, new, hc₁, rfl, hold, hwrote, hnew, hrewritten⟩ :=
    copyAndRewriteVui_rewritten hrewrite hresult
  -- the stream of the output
  obtain ⟨out, k, hk, hout, hbits⟩ := writtenBits hc hlen htake hwrote
    (copyRemainingBits_some hremaining)
  have hr₁ := rest_advance_of_append hc₁ rfl
  rw [hr₁] at hbits
  have hsps' := hflag [true] 1 reads_flag_on
  have hreader : (advance (p ++ [true]).length (start (parseRbsp out))).rest =
      q ++ (r₁ ++ List.replicate k false) := rest_advance_of_append hbits rfl
  obtain ⟨_, hrestriction, hno⟩ := hrewritten.restriction
  refine ⟨out, spsState, _, _, old, _, _, new, k, by rw [hout], rfl, hparse,
    read_of_reads hold hc₁, read_of_reads hsps' hbits, read_of_reads hnew hreader, hrewritten, hk,
    ?_, ?_⟩
  · rw [rest_advance_of_append hreader rfl, hr₁]
  intro memory₁ sps₁ destination₁
  exact parseAndRewriteSps_vuiOk hsps' hnew hpoc (by simp) hrestriction hno.maxNumReorderFrames
    (by rw [hno.maxDecFrameBuffering]; exact BitVec.le_refl _) hbits memory₁ sps₁ destination₁

/-- A set of the baseline profile for one macroblock, with one reference frame and a VUI that has an
aspect ratio and allows two frames to be reordered. -/
def vuiSps : List Byte :=
  [0x42#8, 0x00#8, 0x1E#8, 0xF4#8, 0xF6#8, 0x02#8, 0x07#8, 0x6B#8, 0x64#8, 0x80#8]

def vuiSpsState : SpsState :=
  { width := 16, height := 16, frameMbsOnlyFlag := 1, maxNumRefFrames := 1, vuiParamsPresent := 1 }

theorem parseAndRewriteSps_vuiSps :
    ∃ out, parseAndRewriteSps (fun _ => 0xA5#8) vuiSps none [0x67#8] =
        (.vuiRewritten, some vuiSpsState, [0x67#8] ++ out) ∧
      ∀ memory, (parseAndRewriteSps memory out none []).1 = .vuiOk := by
  have hrun : parseAndRewriteSps (fun _ => 0xA5#8) vuiSps none [0x67#8] =
      (.vuiRewritten, some vuiSpsState, [0x67#8, 0x42#8, 0x00#8, 0x1E#8, 0xF4#8, 0xF6#8, 0x02#8,
        0x07#8, 0x6B#8, 0xA8#8, 0x00#8]) := by decide +kernel
  obtain ⟨out, _, _, _, _, _, _, _, _, hout, _, _, _, _, _, _, _, _, hagain⟩ :=
    parseAndRewriteSps_rewritten _ _ _ _ _ _ hrun
  exact ⟨out, by rw [hrun, hout], fun memory => hagain memory none []⟩

end WebRtc.H264
