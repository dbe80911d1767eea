import WebRtc.Video.FrameBufferDrops

/-! A buffer that dropped a frame behaves like one that never saw it: the two differ by
placeholders and by the counters of entries without a frame, and every call keeps it so. -/

namespace WebRtc.Video.Frames
open SequenceNumber OrderedMap Transition List Option

variable {last : Option FrameKey} {m m' m₁ m₁' : FrameMap} {k : FrameKey} {f : FrameObject}
  {b b' : FrameBuffer}

/-! ## Similar maps -/

/-- Equal entries, but for the counters of an entry without a frame. -/
structure Alike (i i' : FrameInfo) : Prop where
  dependentFrames : i'.dependentFrames = i.dependentFrames
  frame : i'.frame = i.frame
  continuous : i'.continuous = i.continuous
  counters : i.frame.isSome = true → i'.numMissingContinuous = i.numMissingContinuous ∧
    i'.numMissingDecodable = i.numMissingDecodable

theorem Alike.refl (i : FrameInfo) : Alike i i := ⟨rfl, rfl, rfl, fun _ => ⟨rfl, rfl⟩⟩

/-- `m'` is `m` with more placeholders after the last decoded frame. -/
structure Similar (last : Option FrameKey) (m m' : FrameMap) : Prop where
  subset : ∀ k ∈ keys m, k ∈ keys m'
  extra : ∀ k ∈ keys m', k ∈ keys m ∨ atOrBefore last k = false
  alike : ∀ k, Alike (info m k) (info m' k)

section

variable (h : Similar last m m')
include h

theorem Similar.decoded_iff (hk : atOrBefore last k) : k ∈ keys m' ↔ k ∈ keys m := by
  refine ⟨fun hm => (h.extra k hm).resolve_right ?_, h.subset k⟩
  rw [hk]
  exact fun h => nomatch h

theorem Similar.accepted (refs : List FrameKey) : accepted last m' refs = accepted last m refs :=
  accepted_congr refs fun _ hr => h.decoded_iff hr

theorem Similar.enter (k : FrameKey) :
    Similar last (insertNew FrameKey.lt k {} m) (insertNew FrameKey.lt k {} m') where
  subset j hj := by
    rw [mem_keys_insertNew] at hj ⊢
    exact hj.imp id (h.subset j)
  extra j hj := by
    rw [mem_keys_insertNew] at hj ⊢
    rcases hj with hj | hj
    · exact .inl (.inl hj)
    · exact (h.extra j hj).imp .inr id
  alike j := by rw [info_insertNew, info_insertNew]; exact h.alike j

/-- A change of one entry on both sides. -/
theorem Similar.edit (hk : k ∈ keys m) {f f' : FrameInfo → FrameInfo}
    (hf : Alike (f (info m k)) (f' (info m' k))) : Similar last (modify k f m) (modify k f' m') where
  subset j hj := by rw [keys_modify] at hj ⊢; exact h.subset j hj
  extra j hj := by rw [keys_modify] at hj ⊢; exact h.extra j hj
  alike j := by
    rw [info_modify hk, info_modify (h.subset k hk)]
    split
    · exact hf
    · exact h.alike j

/-! ## `UpdateFrameInfoWithIncomingFrame` on similar maps -/

theorem Similar.pendingOf (rs : List FrameKey) : pendingOf m' rs = pendingOf m rs := by
  simp only [Frames.pendingOf, (h.alike _).continuous]

theorem Similar.fits (rs : List FrameKey) : Fits m' rs ↔ Fits m rs := by
  simp only [Fits, (h.alike _).dependentFrames]

theorem Similar.allRegistered (f : FrameObject) :
    allRegistered last m' f = allRegistered last m f := by
  unfold Frames.allRegistered registered
  rw [h.accepted]

theorem Similar.missing (f : FrameObject) :
    missingContinuous last m' f = missingContinuous last m f ∧
      missingDecodable last m' f = missingDecodable last m f := by
  unfold missingContinuous missingDecodable
  rw [h.accepted, registered_eq_of_accepted (h.accepted _), h.pendingOf, h.pendingOf,
    h.allRegistered]
  exact ⟨rfl, rfl⟩

/-- Both sides after the update: similar, and with the same counters for the key. -/
theorem Similar.updated {key : FrameKey} {regs : List FrameKey} {c d : Int}
    (hu : Updated key regs c d m m₁) (hu' : Updated key regs c d m' m₁') : Similar last m₁ m₁' where
  subset k hk := by
    rcases hu.edited.mem_keys hk with hk | hk
    · exact hu'.edited.keys_subset (h.subset k hk)
    · exact hu'.held k hk
  extra k hk := by
    rcases hu'.edited.mem_keys hk with hk | hk
    · exact (h.extra k hk).imp hu.edited.keys_subset id
    · exact .inl (hu.held k hk)
  alike k := by
    have ha := h.alike k
    rw [hu.info_eq, hu'.info_eq]
    refine ⟨congrArg (· ++ _) ha.dependentFrames, ha.frame, ha.continuous, fun hs => ?_⟩
    obtain ⟨h1, h2⟩ := ha.counters hs
    simp only [h1, h2, and_self]

theorem Similar.withFrame {regs : List FrameKey} {c d : Int}
    (hkey : f.key ∈ keys m) (hu : Updated f.key regs c d m m₁) (hu' : Updated f.key regs c d m' m₁') :
    Similar last (modify f.key (·.setFrame (some f)) m₁)
      (modify f.key (·.setFrame (some f)) m₁') := by
  have h₁ := h.updated hu hu'
  have ha := h₁.alike f.key
  refine h₁.edit (hu.edited.keys_subset hkey) ⟨ha.dependentFrames, rfl, ha.continuous, fun _ => ?_⟩
  simp [FrameInfo.setFrame, hu.info_eq, hu'.info_eq]

end

/-! ## Propagation on similar maps -/

/-- Both computations fail in the same way, or both give results related by `R`. -/
def Matches {α β : Type} (R : α → β → Prop) : Except Fault α → Except Fault β → Prop
  | .error e, .error e' => e = e'
  | .ok a, .ok b => R a b
  | _, _ => False

theorem Matches.cases {α β : Type} {R : α → β → Prop} {x : Except Fault α} {y : Except Fault β}
    (h : Matches R x y) :
    (∃ e, x = .error e ∧ y = .error e) ∨ ∃ a b, x = .ok a ∧ y = .ok b ∧ R a b := by
  cases x <;> cases y
  · exact .inl ⟨_, rfl, congrArg _ h.symm⟩
  · exact h.elim
  · exact h.elim
  · exact .inr ⟨_, _, rfl, rfl, h⟩

/-- What is registered with a stored frame is stored, or on neither side. -/
def GoodLinks (m m' : FrameMap) : Prop :=
  ∀ y, (info m y).frame.isSome = true → ∀ d ∈ (info m y).dependentFrames,
    (info m d).frame.isSome = true ∨ (d ∉ keys m ∧ d ∉ keys m')

theorem propagateToDependents_similar (h : Similar last m m') {deps : List FrameKey}
    (hdeps : ∀ d ∈ deps, (info m d).frame.isSome ∨ (d ∉ keys m ∧ d ∉ keys m'))
    (queue : List FrameKey) : Matches (fun r r' => r.2 = r'.2 ∧ Similar last r.1 r'.1)
      (propagateToDependents deps m queue) (propagateToDependents deps m' queue) := by
  induction deps generalizing m m' queue with
  | nil => exact ⟨rfl, h⟩
  | cons d deps ih =>
    unfold propagateToDependents
    rcases hdeps d (.head _) with hd | ⟨hd, hd'⟩
    · have hm := mem_keys_of_frame hd
      have hm' := h.subset d hm
      have ha := h.alike d
      rw [find_of_mem_keys hm, find_of_mem_keys hm']
      dsimp only
      rw [(ha.counters hd).1]
      have hdec : Similar last (modify d (·.addMissing (-1) 0) m) (modify d (·.addMissing (-1) 0) m') :=
        h.edit hm ⟨ha.dependentFrames, ha.frame, ha.continuous, fun _ => by
          obtain ⟨h1, h2⟩ := ha.counters hd
          simp only [FrameInfo.addMissing, h1, h2, and_self]⟩
      have hd₁ : d ∈ keys (modify d (·.addMissing (-1) 0) m) := by rw [keys_modify]; exact hm
      have hf₁ := info_modify_same FrameInfo.frame (·.addMissing (-1) 0) (fun _ => rfl) m d
      split
      · refine ih ?_ ?_ _
        · have ha₁ := hdec.alike d
          exact hdec.edit hd₁ ⟨ha₁.dependentFrames, ha₁.frame, rfl, ha₁.counters⟩
        intro x hx
        rw [keys_modify, keys_modify, keys_modify, keys_modify,
          info_modify_same FrameInfo.frame (·.setContinuous) (fun _ => rfl), hf₁]
        exact hdeps x (.tail _ hx)
      · refine ih hdec ?_ _
        intro x hx
        rw [keys_modify, keys_modify, hf₁]
        exact hdeps x (.tail _ hx)
    · rw [(find_eq_none_iff d m).mpr hd, (find_eq_none_iff d m').mpr hd']
      rfl

theorem Propagated.goodLinks (hp : Propagated m m₁) (hp' : Propagated m' m₁') (h : GoodLinks m m') :
    GoodLinks m₁ m₁' := by
  intro y hy d hd
  rw [hp.frame] at hy
  rw [hp.dependentFrames] at hd
  rw [hp.frame, hp.keys_eq, hp'.keys_eq]
  exact h y hy d hd

theorem propagateLoop_similar (fuel : Nat) (h : Similar last m m') (hgood : GoodLinks m m')
    {queue : List FrameKey} (hqueue : ∀ k ∈ queue, (info m k).frame.isSome) (c : FrameKey) :
    Matches (fun r r' => r.2 = r'.2 ∧ Similar last r.1 r'.1)
      (propagateLoop fuel queue c m) (propagateLoop fuel queue c m') := by
  induction fuel generalizing queue c m m' with
  | zero =>
    cases queue with
    | nil => exact ⟨rfl, h⟩
    | cons k queue => rfl
  | succ fuel ih =>
    cases queue with
    | nil => exact ⟨rfl, h⟩
    | cons k queue =>
      unfold propagateLoop
      have hk := hqueue k (.head _)
      rw [(h.alike k).dependentFrames]
      rcases (propagateToDependents_similar h (hgood k hk) queue).cases with
        ⟨e, hr, hr'⟩ | ⟨⟨m₁, q⟩, ⟨m₁', q'⟩, hr, hr', hq, hs⟩ <;> rw [hr, hr']
      · rfl
      cases hq
      obtain ⟨hp, hheld, -, hnew, -⟩ := propagateToDependents_spec hr
      obtain ⟨hp', -⟩ := propagateToDependents_spec hr'
      refine ih hs (hp.goodLinks hp' hgood) ?_ _
      intro j hj
      rw [hp.frame]
      rcases hnew j hj with hj | hj
      · exact hqueue j (.tail _ hj)
      · exact (hgood k hk j hj).resolve_right fun hn => hn.1 (hheld j hj)

/-- Two buffers that differ by their maps only, and those are similar. -/
def SimilarBuffers (b b' : FrameBuffer) : Prop :=
  ∃ m', b' = { b with frames := m' } ∧ Similar b.lastDecodedFrame b.frames m'

theorem SimilarBuffers.similar (h : SimilarBuffers b b') :
    Similar b.lastDecodedFrame b.frames b'.frames := by
  obtain ⟨_, rfl, hsim⟩ := h
  exact hsim

theorem SimilarBuffers.next (h : SimilarBuffers b b') :
    b'.waiting = b.waiting ∧ b'.nextFrame = b.nextFrame := by
  obtain ⟨_, rfl, -⟩ := h
  exact ⟨rfl, rfl⟩

theorem propagateContinuity_similar (h : Similar b.lastDecodedFrame b.frames m')
    (hgood : GoodLinks b.frames m') {key : FrameKey}
    (hkey : (info b.frames key).frame.isSome) :
    Matches SimilarBuffers (propagateContinuity key b)
      (propagateContinuity key { b with frames := m' }) := by
  unfold propagateContinuity
  have hqueue : ∀ k ∈ [key], (info b.frames k).frame.isSome := by
    intro k hk
    cases mem_singleton.mp hk
    exact hkey
  -- give both searches the fuel of the longer one
  have hfuel : ∀ m : FrameMap, [key].length + numWaiting m ≤ m.length + 1 := fun m => by
    have : numWaiting m ≤ m.length := countP_le_length
    rw [length_singleton]
    omega
  have hbig := propagateLoop_similar (b.frames.length + m'.length + 1) h hgood hqueue
    (b.lastContinuousFrame.getD key)
  rw [propagateLoop_mono (hfuel b.frames) (by omega), propagateLoop_mono (hfuel m') (by omega)]
    at hbig
  rcases hbig.cases with ⟨e, hr, hr'⟩ | ⟨r, _, hr, hr', hlast, hs⟩ <;> rw [hr, hr']
  · rfl
  · exact ⟨_, by dsimp only; rw [hlast], hs⟩

/-! ## `InsertFrame` on similar buffers -/

theorem Sound.goodLinks (hs : Sound b) (h : Similar b.lastDecodedFrame b.frames m') :
    GoodLinks b.frames m' := by
  intro y hy d hd
  refine (hs.linked.registered y (hs.tidy.live_of_frame hy) d hd).imp And.right ?_
  rintro ⟨hdead, hnot, -⟩
  exact ⟨hnot, fun hm => hnot ((h.decoded_iff hdead).mp hm)⟩

/-- Results of `InsertFrame` on similar buffers. -/
def SimilarInserted (r r' : Inserted) : Prop :=
  SimilarBuffers r.buffer r'.buffer ∧ r'.lastContinuousPictureId = r.lastContinuousPictureId

theorem SimilarBuffers.lastContinuousPictureId (h : SimilarBuffers b b') :
    lastContinuousPictureId b' = lastContinuousPictureId b := by
  obtain ⟨_, rfl, -⟩ := h
  rfl

theorem finishStored_similar (hs : Sound (withFrame b f m₁)) (hkey : f.key ∈ keys m₁)
    (hmiss : (info m₁' f.key).numMissingContinuous = (info m₁ f.key).numMissingContinuous)
    (h : Similar b.lastDecodedFrame (withFrame b f m₁).frames (withFrame b f m₁').frames) :
    Matches SimilarInserted (finishStored b f m₁) (finishStored { b with frames := m' } f m₁') := by
  unfold finishStored
  rw [hmiss]
  split
  · have hkw : f.key ∈ keys (withFrame b f m₁).frames := by
      unfold withFrame
      rw [keys_modify]
      exact hkey
    have ha := h.alike f.key
    have hset : Similar b.lastDecodedFrame (markContinuous f.key (withFrame b f m₁)).frames
        (markContinuous f.key (withFrame b f m₁')).frames :=
      h.edit hkw ⟨ha.dependentFrames, ha.frame, rfl, ha.counters⟩
    have hp := propagated_markContinuous hkw
    have hp' := propagated_markContinuous (h.subset _ hkw)
    have hframe : (info (markContinuous f.key (withFrame b f m₁)).frames f.key).frame.isSome := by
      rw [hp.frame]
      unfold withFrame
      rw [info_modify hkey, if_pos rfl]
      rfl
    have hprop := propagateContinuity_similar (b := markContinuous f.key (withFrame b f m₁)) hset
      (hp.goodLinks hp' (hs.goodLinks h)) hframe
    have hside : markContinuous f.key (withFrame { b with frames := m' } f m₁') =
        { markContinuous f.key (withFrame b f m₁) with
          frames := (markContinuous f.key (withFrame b f m₁')).frames } := rfl
    rw [hside]
    rcases hprop.cases with ⟨e, hr, hr'⟩ | ⟨r, _, hr, hr', hsim⟩ <;> rw [hr, hr']
    · rfl
    · exact ⟨hsim, hsim.lastContinuousPictureId⟩
  · exact ⟨⟨_, rfl, h⟩, rfl⟩

theorem storeFrame_similar (hs : Sound b) (h : Similar b.lastDecodedFrame b.frames m')
    (hready : Ready b f) :
    Matches SimilarInserted (storeFrame b f) (storeFrame { b with frames := m' } f) := by
  have hent : Similar b.lastDecodedFrame (entered b f) (entered { b with frames := m' } f) :=
    h.enter f.key
  have hkm : f.key ∈ keys (entered b f) := (mem_keys_entered b f _).mpr (.inl rfl)
  have hlast : ∀ l, b.lastDecodedFrame = some l → l ∈ keys (entered b f) :=
    fun l hl => (mem_keys_entered b f l).mpr (.inr (hs.tidy.last_held l hl))
  obtain ⟨hok, herr⟩ := updateFrameInfoWithIncomingFrame_spec b.lastDecodedFrame f hkm
  obtain ⟨hok', herr'⟩ := updateFrameInfoWithIncomingFrame_spec b.lastDecodedFrame f
    (hent.subset _ hkm)
  rw [hent.allRegistered, hent.fits] at hok' herr'
  rw [hent.accepted, (hent.missing f).1, (hent.missing f).2] at hok'
  rw [storeFrame_eq, storeFrame_eq]
  rw [(h.alike f.key).frame]
  split
  · exact ⟨⟨_, rfl, hent⟩, rfl⟩
  rename_i hnone
  have hnone : (info b.frames f.key).frame = none := by simpa using hnone
  by_cases hfit : Fits (entered b f) (allRegistered b.lastDecodedFrame (entered b f) f)
  · obtain ⟨_, hm₁, hu⟩ := hok hfit
    obtain ⟨_, hm₁', hu'⟩ := hok' hfit
    have hu := hu hlast
    have hu' := hu' fun l hl => hent.subset l (hlast l hl)
    rw [hm₁, hm₁']
    by_cases hacc : accepted b.lastDecodedFrame (entered b f) f.refKeys = f.refKeys
    · rw [decide_eq_true hacc]
      refine finishStored_similar (withFrame_sound hs hready hnone hacc hu)
        (hu.edited.keys_subset hkm) ?_ (hent.withFrame hkm hu hu')
      simp only [hu.info_eq, hu'.info_eq, if_true]
    · rw [decide_eq_false hacc]
      exact ⟨⟨_, rfl, hent.updated hu hu'⟩, rfl⟩
  · rw [herr hfit, herr' hfit]
    rfl

theorem admit_similar (h : SimilarBuffers b b') (f : FrameObject) :
    (admitFrame b f = none ∧ admitFrame b' f = none) ∨
      ∃ b₀ b₀', admitFrame b f = some b₀ ∧ admitFrame b' f = some b₀' ∧ SimilarBuffers b₀ b₀' := by
  obtain ⟨m', rfl, hsim⟩ := h
  unfold admitFrame
  split
  · exact .inl ⟨rfl, rfl⟩
  split
  · exact .inl ⟨rfl, rfl⟩
  rw [show isOld { b with frames := m' } f = isOld b f from rfl,
    show jumps { b with frames := m' } f = jumps b f from rfl]
  split
  · split
    · exact .inr ⟨_, _, rfl, rfl, [], rfl, ⟨fun _ h => h, fun _ h => .inl h, fun _ => .refl _⟩⟩
    · exact .inl ⟨rfl, rfl⟩
  · exact .inr ⟨_, _, rfl, rfl, m', rfl, hsim⟩

theorem insertFrame_similar (hs : Sound b) (h : SimilarBuffers b b')
    (hop : Orderly b (.insertFrame f)) :
    Matches SimilarInserted (insertFrame b f) (insertFrame b' f) := by
  unfold insertFrame
  rcases admit_similar h f with ⟨h1, h2⟩ | ⟨b₀, _, h1, h2, _, rfl, hsim⟩ <;> rw [h1, h2]
  · exact ⟨h, h.lastContinuousPictureId⟩
  · exact storeFrame_similar (admit_sound hs h1) hsim (hs.tidy.ready hop h1)

/-! ## `NextFrame` on similar buffers -/

/-- The entries that hold a frame. -/
def stored (b : FrameBuffer) : FrameMap := b.frames.filter (·.2.frame.isSome)

theorem Alike.eq_of_frame {i i' : FrameInfo} (h : Alike i i') (hf : i.frame.isSome) :
    i' = i := by
  obtain ⟨h1, h2, h3, h4⟩ := h
  cases i
  cases i'
  simp_all

/-- Stored frames are on both sides. -/
theorem Similar.filter_eq (h : Similar last m m') (hm : Sorted FrameKey.lt m)
    (hm' : Sorted FrameKey.lt m') (ho : OrderedOn FrameKey.lt (· ∈ keys m'))
    {p : FrameKey × FrameInfo → Bool} (hp : ∀ e, e ∈ m ∨ e ∈ m' → p e → e.2.frame.isSome) :
    m'.filter p = m.filter p := by
  have hn' := hm'.nodup ho
  have hn := hm.nodup (ho.mono h.subset)
  refine hm.filter_eq hm' ho fun e hpe => ⟨fun he => ?_, fun he => ?_⟩
  · have hf := hp e (.inr he) hpe
    have hi := (mem_iff_info hn' hf).mp he
    have hsome : (info m e.1).frame.isSome := by
      rw [← (h.alike e.1).frame, hi]
      exact hf
    exact (mem_iff_info hn hf).mpr (((h.alike e.1).eq_of_frame hsome).symm.trans hi)
  · have hf := hp e (.inl he) hpe
    have hi := (mem_iff_info hn hf).mp he
    exact (mem_iff_info hn' hf).mpr (((h.alike e.1).eq_of_frame (hi ▸ hf)).trans hi)

theorem Similar.retime (h : Similar last m m') (t : Timing) (ks : List FrameKey) :
    Similar last (m.map (retime t ks)) (m'.map (Frames.retime t ks)) := by
  refine ⟨?_, ?_, fun k => ?_⟩
  · rw [keys_retime, keys_retime]; exact h.subset
  · rw [keys_retime, keys_retime]; exact h.extra
  rw [info_retime, info_retime]
  obtain ⟨hd, hf, hc, hcount⟩ := h.alike k
  unfold Frames.retime
  dsimp only
  split
  · exact ⟨hd, congrArg (Option.map (withRenderTime t)) hf, hc,
      fun hs => hcount (Option.isSome_map .. ▸ hs)⟩
  · exact h.alike k

/-- `NextFrame` considers the stored frames that are continuous and miss nothing. -/
theorem Coherent.considered_eq (hb : Coherent b) :
    considered (continuousEnd b) (undecoded b) = b.frames.filter fun e =>
      !atOrBefore b.lastDecodedFrame e.1 && !e.2.passedOver := by
  have hdec : ∀ e ∈ decoded b, ¬ (!atOrBefore b.lastDecodedFrame e.1 && !e.2.passedOver) = true := by
    intro e he
    simp [((hb.tidy.mem_decoded e).mp he).2]
  rw [hb.continuousEnd_spec.2, ← hb.tidy.split, filter_append, filter_eq_nil_iff.mpr hdec,
    nil_append]
  refine filter_congr fun e he => ?_
  rw [((hb.tidy.mem_undecoded e).mp he).2]
  rfl

section Returning

variable {b₁ b₁' : FrameBuffer} (ht' : Tidy b') (h : SimilarBuffers b b')
  (hr : Returned b k f b₁) (hr' : Returned b' k f b₁')
include ht' h hr hr'

theorem Returned.similar : Similar (some k) b₁.frames b₁'.frames := by
  obtain ⟨_, rfl, hsim⟩ := h
  have hsub : ∀ j ∈ keys b₁.frames, j ∈ keys b₁'.frames := by
    intro j hj
    obtain ⟨hjb, hkept, hmin⟩ := (hr.mem_iff j).mp hj
    refine (hr'.mem_iff j).mpr ⟨hsim.subset j hjb, hkept, fun hfull => ?_⟩
    obtain ⟨i, hi, hij⟩ := hmin hfull
    exact ⟨i, hsim.subset i hi, hij⟩
  have hextra : ∀ j ∈ keys b₁'.frames, j ∈ keys b₁.frames ∨ atOrBefore (some k) j = false := by
    intro j hj
    cases hkj : k.lt j with
    | true => exact .inr (by rw [atOrBefore_some, hkj]; rfl)
    | false =>
      refine .inl ?_
      by_cases hne : j = k
      · rw [hne]; exact hr.held
      -- what is held before `k` was decoded before it, and so was what comes before that
      obtain ⟨hjb, hkept, hmin⟩ := (hr'.mem_iff j).mp hj
      have hdead : atOrBefore b.lastDecodedFrame j := hkept.resolve_right (by
        rw [FrameKey.lt_of_not_lt hne hkj]
        exact fun h => nomatch h)
      refine (hr.mem_iff j).mpr ⟨(hsim.decoded_iff hdead).mp hjb, hkept, fun hfull => ?_⟩
      obtain ⟨i, hi, hij⟩ := hmin hfull
      refine ⟨i, (hsim.decoded_iff ?_).mp hi, hij⟩
      cases hlive : atOrBefore b.lastDecodedFrame i with
      | true => rfl
      | false => exact (ht'.live_of_after hi hlive hjb hij).symm.trans hdead
  refine ⟨hsub, hextra, fun j => ?_⟩
  have ha := hsim.alike j
  by_cases hj' : j ∈ keys b₁'.frames
  · by_cases hj : j ∈ keys b₁.frames
    · rw [hr.info_eq j hj, hr'.info_eq j hj']
      refine ⟨ha.dependentFrames, by rw [ha.frame], ha.continuous, fun hs => ?_⟩
      dsimp only at hs
      split at hs
      · cases hs
      obtain ⟨h1, h2⟩ := ha.counters hs
      exact ⟨h1, by rw [h2, (hsim.alike k).dependentFrames]⟩
    · -- an additional entry
      have hkj : k.lt j := by
        have := (hextra j hj').resolve_left hj
        simpa [atOrBefore_some] using this
      have hjb : j ∉ keys b.frames := fun hm => hj (hr.kept j hm hkj)
      rw [info_of_not_mem hjb] at ha
      rw [info_of_not_mem hj, hr'.info_eq j hj', if_neg (FrameKey.ne_of_lt hkj)]
      exact ⟨ha.dependentFrames, ha.frame, ha.continuous, fun h => nomatch h⟩
  · rw [info_of_not_mem hj', info_of_not_mem fun hj => hj' (hsub j hj)]
    exact .refl _

theorem Returned.similarBuffers : SimilarBuffers b₁ b₁' := by
  have hsim := hr.similar ht' h hr'
  obtain ⟨_, rfl, -⟩ := h
  have hcount : b₁'.numFramesBuffered = b₁.numFramesBuffered := by
    rw [hr.tidy.buffered_eq, hr'.tidy.buffered_eq, countP_eq_length_filter, countP_eq_length_filter,
      hsim.filter_eq hr.tidy.sorted hr'.tidy.sorted hr'.tidy.ordered fun _ _ => id]
  refine ⟨b₁'.frames, ?_, by rw [hr.last]; exact hsim⟩
  obtain ⟨n, heq⟩ := hr.eq
  obtain ⟨n', heq'⟩ := hr'.eq
  rw [heq, heq'] at hcount
  cases hcount
  exact heq'.trans (by rw [heq]; rfl)

end Returning

/-! ## Runs -/

/-- The conditions on a call ask no more of the smaller buffer. -/
theorem Sane.of_similar {op : Op} (h : SimilarBuffers b b') (hop : Sane b' op) : Sane b op := by
  cases op with
  | insertFrame f =>
    obtain ⟨⟨hne, hw⟩, hclean⟩ := hop
    refine ⟨⟨?_, ?_⟩, ?_⟩
    · obtain ⟨m', rfl, -⟩ := h
      exact hne
    all_goals
      intro _ hb₀
      rcases admit_similar h f with ⟨h1, -⟩ | ⟨_, _, h1, h2, m', rfl, hsim⟩
      · rw [h1] at hb₀; cases hb₀
      cases h1.symm.trans hb₀
    · refine (hw _ h2).mono ?_
      rintro k (hk | hk | hk)
      · exact .inl (hsim.subset k hk)
      · exact .inr (.inl hk)
      · rw [← registered_eq_of_accepted (hsim.accepted _)] at hk
        exact .inr (.inr hk)
    · intro hnone
      have hclean := hclean _ h2 ((hsim.alike f.key).frame.trans hnone)
      rwa [registered_eq_of_accepted (hsim.accepted _), hsim.accepted] at hclean
  | selectFrame _ | returnFrame | start | stop => exact ⟨trivial, trivial⟩

/-- What every call hands out and the stored frames after it, with what they miss. -/
def trace : FrameBuffer → List Op → List (Except Fault (Output × FrameMap))
  | _, [] => []
  | b, op :: ops =>
    match step b op with
    | .error e => [.error e]
    | .ok (b, out) => .ok (out, stored b) :: trace b ops

/-- Every call of the run is sane in the state it meets. -/
def SaneRun : FrameBuffer → List Op → Prop
  | _, [] => True
  | b, op :: ops => Sane b op ∧ ∀ b' out, step b op = .ok (b', out) → SaneRun b' ops

section Steps

variable (hs : Sound b) (hs' : Sound b') (h : SimilarBuffers b b')
include hs hs' h

theorem selectFrame_similar (t : Timing) :
    ∃ b₁ b₁', selectFrame t b = .ok b₁ ∧ selectFrame t b' = .ok b₁' ∧ SimilarBuffers b₁ b₁' := by
  obtain ⟨b₁, h₁⟩ := hs.toCoherent.selectFrame_ok t
  obtain ⟨b₁', h₁'⟩ := hs'.toCoherent.selectFrame_ok t
  refine ⟨b₁, b₁', h₁, h₁', ?_⟩
  obtain ⟨m', rfl, hsim⟩ := h
  have hstored : ∀ {b : FrameBuffer}, Coherent b → ∀ e ∈ b.frames,
      (!atOrBefore b.lastDecodedFrame e.1 && !e.2.passedOver) → e.2.frame.isSome := by
    intro b hb e he hp
    simp only [Bool.and_eq_true, Bool.not_eq_true', FrameInfo.passedOver, Bool.or_eq_false_iff,
      Bool.not_eq_false'] at hp
    exact hb.continuous_undecoded ((hb.tidy.mem_undecoded e).mpr ⟨he, hp.1⟩) hp.2.1
  have heq := hsim.filter_eq hs.tidy.sorted hs'.tidy.sorted hs'.tidy.ordered
    (fun e he => he.elim (hstored hs.toCoherent e) (hstored hs'.toCoherent e))
  rw [(selectFrame_spec hs.tidy h₁).1, (selectFrame_spec hs'.tidy h₁').1,
    hs.toCoherent.considered_eq, hs'.toCoherent.considered_eq, heq]
  unfold selected
  dsimp only
  split
  · exact ⟨m', rfl, hsim⟩
  · exact ⟨_, rfl, hsim.retime t _⟩

theorem returnFrame_similar :
    Matches (fun r r' => r'.2 = r.2 ∧ SimilarBuffers r.1 r'.1) (returnFrame b) (returnFrame b') := by
  have hsim := h.similar
  obtain ⟨hwait', hnext'⟩ := h.next
  cases hwait : b.waiting with
  | false =>
    simp only [returnFrame, hwait, hwait', Bool.not_false, if_true]
    exact ⟨rfl, h⟩
  | true =>
    rw [hwait] at hwait'
    cases hnext : b.nextFrame with
    | none =>
      simp only [returnFrame, hwait, hwait', hnext, hnext', Bool.not_true,
        if_neg Bool.false_ne_true]
      obtain ⟨m', rfl, hsim⟩ := h
      exact ⟨rfl, m', rfl, hsim⟩
    | some k =>
      rw [hnext] at hnext'
      obtain ⟨hsome, -⟩ := hs.tidy.next hwait k hnext
      obtain ⟨f, hf⟩ := isSome_iff_exists.mp hsome
      have ha := hsim.alike k
      obtain ⟨hok, herr⟩ := returnFrame_spec hs.tidy hwait hnext hf
      obtain ⟨hok', herr'⟩ := returnFrame_spec hs'.tidy hwait' hnext' (ha.frame.trans hf)
      have hiff : (∀ d ∈ (info b'.frames k).dependentFrames, d ∈ keys b'.frames) ↔
          ∀ d ∈ (info b.frames k).dependentFrames, d ∈ keys b.frames := by
        rw [ha.dependentFrames]
        refine ⟨fun hall d hd => ?_, fun hall d hd => hsim.subset d (hall d hd)⟩
        rcases hs.goodLinks hsim k hsome d hd with hd' | ⟨-, hd'⟩
        · exact mem_keys_of_frame hd'
        · exact absurd (hall d hd) hd'
      by_cases hall : ∀ d ∈ (info b.frames k).dependentFrames, d ∈ keys b.frames
      · obtain ⟨_, hb₁, hr⟩ := hok hall
        obtain ⟨_, hb₁', hr'⟩ := hok' (hiff.mpr hall)
        rw [hb₁, hb₁']
        exact ⟨rfl, hr.similarBuffers hs'.tidy h hr'⟩
      · rw [herr hall, herr' (fun h => hall (hiff.mp h))]
        rfl

theorem step_similar {op : Op} (hop : Orderly b op) :
    Matches (fun r r' => r'.2 = r.2 ∧ SimilarBuffers r.1 r'.1) (step b op) (step b' op) := by
  cases op with
  | insertFrame f =>
    rcases (insertFrame_similar hs h hop).cases with
      ⟨e, hr, hr'⟩ | ⟨r, r', hr, hr', hsim, hlast⟩ <;> simp only [step, hr, hr']
    · rfl
    · exact ⟨congrArg Output.lastContinuous hlast, hsim⟩
  | selectFrame t =>
    obtain ⟨_, _, h1, h2, hsim⟩ := selectFrame_similar hs hs' h t
    simp only [step, h1, h2]
    exact ⟨rfl, hsim⟩
  | returnFrame =>
    rcases (returnFrame_similar hs hs' h).cases with
      ⟨e, hr, hr'⟩ | ⟨r, r', hr, hr', hout, hsim⟩ <;> simp only [step, hr, hr']
    · rfl
    · exact ⟨congrArg Output.frame hout, hsim⟩
  | start | stop => obtain ⟨m', rfl, hsim⟩ := h; exact ⟨rfl, m', rfl, hsim⟩

theorem trace_similar (ops : List Op) (hops : SaneRun b' ops) : trace b' ops = trace b ops := by
  induction ops generalizing b b' with
  | nil => rfl
  | cons _ ops ih =>
    obtain ⟨hop', hrest⟩ := hops
    have hop := hop'.of_similar h
    unfold trace
    rcases (step_similar hs hs' h hop.1).cases with
      ⟨e, hr, hr'⟩ | ⟨r, r', hr, hr', hout, hsim⟩ <;> rw [hr, hr']
    have hs₁ := step_sound hs hop ⟨r.2, hr⟩
    have hs₁' := step_sound hs' hop' ⟨r'.2, hr'⟩
    have hstored : stored r'.1 = stored r.1 :=
      hsim.similar.filter_eq hs₁.tidy.sorted hs₁'.tidy.sorted hs₁'.tidy.ordered fun _ _ => id
    dsimp only
    rw [hout, hstored, ih hs₁ hs₁' hsim (hrest r'.1 r'.2 hr')]

end Steps

/-- A sane call that drops its frame leaves at most a placeholder. -/
theorem insertFrame_dropped {r : Inserted} (hs : Sound b) (hop : Sane b (.insertFrame f))
    (h : insertFrame b f = .ok r) (hr : r.stored = false) : SimilarBuffers b r.buffer := by
  have hrefl : SimilarBuffers b b :=
    ⟨b.frames, rfl, fun _ h => h, fun _ h => .inl h, fun _ => .refl _⟩
  obtain ⟨⟨hne, -⟩, hclean⟩ := hop
  unfold insertFrame at h
  split at h
  · cases h; exact hrefl
  rename_i b₀ hb₀
  have hkey := atOrBefore_of_admitFrame hb₀ hne
  have hcases := storeFrame_cases (admit_sound hs hb₀).tidy.last_held h
  rcases (admit_cases hb₀).2 with ⟨rfl, -⟩ | ⟨rfl, hjump⟩
  · cases hcases with
    | already _ => exact hrefl
    | @dropped m hnone hacc hupd =>
      have hregs := dropped_registers_nothing hkey (hclean _ hb₀ hnone) hacc
      have hst := hupd.stored_none hnone
      rw [hregs] at hst
      refine ⟨m, rfl, fun k hk => (hst.keys_iff k).mpr (.inl hk), fun k hk => ?_, fun k => ?_⟩
      · rcases (hst.keys_iff k).mp hk with hk | rfl | hk
        · exact .inl hk
        · exact .inr hkey
        · cases hk
      · rw [hupd.info_eq, info_entered, hregs]
        refine ⟨append_nil _, rfl, rfl, fun hk => ?_⟩
        exact ⟨if_neg (ne_of_frame hnone hk), if_neg (ne_of_frame hnone hk)⟩
    | waits _ _ _ _ => cases hr
    | continuous _ _ _ _ _ => cases hr
  · -- a frame that makes the buffer start anew has no references and is not dropped
    have hrefs : f.refKeys = [] := by
      unfold jumps at hjump
      rw [Bool.and_eq_true] at hjump
      unfold FrameObject.refKeys
      rw [isEmpty_iff.mp hjump.2]
      rfl
    cases hcases with
    | already hsome => cases hsome
    | dropped _ hacc _ => rw [hrefs] at hacc; exact absurd rfl hacc
    | waits _ _ _ _ => cases hr
    | continuous _ _ _ _ _ => cases hr

/-- **Drops.** In every state reached by sane calls, an undecoded entry that is continuous
and misses nothing holds a frame, `NextFrame` meets no entry without one, and a sane call
that drops its frame changes nothing that any later sane run hands out or stores. -/
theorem dropped_frame_unseen {b : FrameBuffer} (h : Reaches (Guarded Sane Steps) {} b) :
    (∀ e ∈ undecoded b, e.2.continuous = true → e.2.numMissingDecodable = 0 →
      e.2.frame.isSome = true) ∧
    (∀ t, ∃ b', selectFrame t b = .ok b') ∧ returnFrame b ≠ .error .nullFrame ∧
    ∀ f r, Sane b (.insertFrame f) → insertFrame b f = .ok r → r.stored = false →
      ∀ ops, SaneRun r.buffer ops → trace r.buffer ops = trace b ops := by
  have hs := reaches_sound h
  refine ⟨?_, ?_, ?_, ?_⟩
  · exact fun e he hc _ => hs.toCoherent.continuous_undecoded he hc
  · exact hs.toCoherent.selectFrame_ok
  · intro herr
    cases hwait : b.waiting with
    | false => simp [returnFrame, hwait] at herr
    | true =>
      cases hnext : b.nextFrame with
      | none => simp [returnFrame, hwait, hnext] at herr
      | some k =>
        obtain ⟨f, hf⟩ := Option.isSome_iff_exists.mp (hs.tidy.next hwait k hnext).1
        obtain ⟨hok, hfail⟩ := returnFrame_spec hs.tidy hwait hnext hf
        by_cases hall : ∀ d ∈ (info b.frames k).dependentFrames, d ∈ keys b.frames
        · obtain ⟨b', hb', -⟩ := hok hall
          rw [hb'] at herr
          cases herr
        · rw [hfail hall] at herr
          cases herr
  · intro f r hop hr hstored ops hops
    exact trace_similar hs (insertFrame_sound hs hop.1 hop.2 hr)
      (insertFrame_dropped hs hop hr hstored) ops hops

/-- Frame 20 is dropped because of its reference to a frame before the one decoded, and then
comes again. -/
theorem dropped_frame_unseen_second_try : let b : FrameBuffer :=
      { frames := [(⟨10, 0⟩, { continuous := true })], lastDecodedFrame := some ⟨10, 0⟩,
        lastContinuousFrame := some ⟨10, 0⟩, nextFrame := some ⟨10, 0⟩, numFramesHistory := 1 }
    let b' : FrameBuffer :=
      { b with frames := b.frames ++
        [(⟨20, 0⟩, { numMissingContinuous := 1, numMissingDecodable := 1 })] }
    let again : List Op := [.insertFrame { pictureId := 20, references := [10] }]
    Reaches (Guarded Sane Steps) {} b ∧
      insertFrame b { pictureId := 20, references := [5] } = .ok ⟨b', 10, false⟩ ∧
      trace b' again = trace b again := by
  intro b b' again
  have hr : Reaches (Guarded Sane Steps) {} b :=
    Reaches.refl.of_guardedRun (.insertFrame { pictureId := 10 } :: nextFrameNow)
      (by decide +kernel)
  have hdrop : Sane b (.insertFrame { pictureId := 20, references := [5] }) := by decide +kernel
  have hagain : SaneRun b' again := ⟨by decide +kernel, fun _ _ _ => trivial⟩
  have hins : insertFrame b { pictureId := 20, references := [5] } = .ok ⟨b', 10, false⟩ := by
    decide +kernel
  obtain ⟨-, -, -, hunseen⟩ := dropped_frame_unseen hr
  exact ⟨hr, hins, hunseen _ _ hdrop hins rfl again hagain⟩

/-- A frame dropped twice because of its second reference has registered with its first
one: it becomes continuous and decodable without being stored. Dropped once and then
inserted with other references, it is stored and never decodable. -/
theorem dropped_frame_selected : run {} (.insertFrame { pictureId := 10 } :: nextFrameNow ++
      [.insertFrame { pictureId := 20, references := [15, 5] },
        .insertFrame { pictureId := 20, references := [15, 5] },
        .insertFrame { pictureId := 15 }] ++ nextFrameNow ++
      [.selectFrame ⟨fun _ => 0, fun _ => 0⟩]) = .error .nullFrame ∧
    (∃ b, run {} (.insertFrame { pictureId := 10 } :: nextFrameNow) = .ok b ∧
      ((insertFrame b { pictureId := 20, references := [15, 5] }).toOption.any fun r =>
        !r.stored && decide (
          trace r.buffer (.insertFrame { pictureId := 20, references := [15] } ::
            .insertFrame { pictureId := 15 } :: nextFrameNow) ≠
          trace b (.insertFrame { pictureId := 20, references := [15] } ::
            .insertFrame { pictureId := 15 } :: nextFrameNow))) = true) :=
  ⟨by decide +kernel, exists_ok (by decide +kernel)⟩

end WebRtc.Video.Frames
