import WebRtc.Video.ReferenceFinder

/-! The references of generic frames. Each GOP remembers the last number of a completed frame and
how far padding continues it. A delta frame is completed only where the padding ends, so that it
refers to a completed frame and nothing but padding lies in between. -/

namespace WebRtc.Video.ReferenceFinder

open Rtp.Vp9Descriptor OrderedMap List Finder Machine

variable {padded more : List (BitVec 16)} {a b : BitVec 16} {completed : List Frame} {s : Finder}
  {frame : Frame}

/-! ## Numbers covered by padding -/

/-- The numbers after `a` up to `b` are all reported. -/
def Covered (reported : List (BitVec 16)) (a b : BitVec 16) : Prop :=
  ∀ x, 0 < (x - a).toNat → (x - a).toNat ≤ (b - a).toNat → x ∈ reported

/-- `x` is strictly between `a` and `b`. -/
def Between (a x b : BitVec 16) : Prop :=
  0 < (x - a).toNat ∧ (x - a).toNat < (b - a).toNat

theorem covered_self (padded : List (BitVec 16)) (a : BitVec 16) : Covered padded a a := by
  intro x hpos hle
  rw [BitVec.sub_self] at hle
  exact absurd hle (Nat.not_le.mpr hpos)

theorem Covered.mono (h : Covered padded a b) (hsub : padded ⊆ more) : Covered more a b :=
  fun x hpos hle => hsub (h x hpos hle)

theorem Covered.succ (h : Covered padded a b) (hmem : b + 1 ∈ padded) :
    Covered padded a (b + 1) := by
  intro x hpos hle
  by_cases hx : x = b + 1
  · exact hx ▸ hmem
  refine h x hpos ?_
  have hne : (x - a).toNat ≠ (b + 1 - a).toNat := by bv_omega
  have hstep : (b + 1 - a).toNat ≤ (b - a).toNat + 1 := by bv_omega
  omega

theorem Covered.between {first x : BitVec 16} (h : Covered padded a b) (hfirst : first - 1 = b)
    (hx : Between a x first) : x ∈ padded := by
  refine h x hx.1 ?_
  have hlt := hx.2
  subst hfirst
  bv_omega

/-! ## The invariant -/

/-- The one reference of `frame` is the last number of a frame in `earlier`, and what lies between
the two is reported. -/
structure Continues (reported : List (BitVec 16)) (earlier : List Frame) (frame : Frame) :
    Prop where
  numReferences : frame.numReferences = 1
  reference : ∃ f ∈ earlier, frame.references 0 = f.lastSeqNum.toNat ∧
    ∀ x, Between f.lastSeqNum x frame.firstSeqNum → x ∈ reported

/-- A GOP is at a completed frame, continued by reported numbers. -/
def SoundGop (reported : List (BitVec 16)) (completed : List Frame)
    (gop : BitVec 16 × BitVec 16) : Prop :=
  (∃ f ∈ completed, f.lastSeqNum = gop.1) ∧ Covered reported gop.1 gop.2

/-- Every delta frame of a list of completed frames continues one in front of it. -/
def Chained (reported : List (BitVec 16)) (completed : List Frame) : Prop :=
  ∀ earlier frame later, completed = earlier ++ frame :: later → frame.frameType = .delta →
    Continues reported earlier frame

structure GenericSound (reported : List (BitVec 16)) (s : Finder) : Prop where
  padding : ∀ e ∈ s.stashedPadding, e.1 ∈ reported
  stashed : ∀ frame ∈ s.stashedFrames, frame.codecType = .generic
  nodup : (keys s.lastSeqNumGop).Nodup
  gops : ∀ e ∈ s.lastSeqNumGop, SoundGop reported s.completed e.2
  chained : Chained reported s.completed

theorem genericSound_create (memory : Nat → GofInfoVP9) : GenericSound [] (.create memory) := by
  refine ⟨(fun _ h => nomatch h), (fun _ h => nomatch h), nodup_nil, (fun _ h => nomatch h), ?_⟩
  intro earlier _ _ h
  cases earlier <;> cases h

theorem SoundGop.mono {later : List Frame} {gop : BitVec 16 × BitVec 16}
    (h : SoundGop padded completed gop) (hreported : padded ⊆ more)
    (hcompleted : completed ⊆ later) : SoundGop more later gop := by
  obtain ⟨⟨f, hf, hlast⟩, hcovered⟩ := h
  exact ⟨⟨f, hcompleted hf, hlast⟩, hcovered.mono hreported⟩

theorem Chained.mono (h : Chained padded completed) (hsub : padded ⊆ more) :
    Chained more completed := by
  intro earlier frame later heq hdelta
  obtain ⟨hone, f, hf, hreference, hbetween⟩ := h earlier frame later heq hdelta
  exact ⟨hone, f, hf, hreference, fun x hx => hsub (hbetween x hx)⟩

theorem GenericSound.mono (h : GenericSound padded s) (hsub : padded ⊆ more) :
    GenericSound more s :=
  ⟨fun e he => hsub (h.padding e he), h.stashed, h.nodup,
    fun e he => (h.gops e he).mono hsub (List.Subset.refl _), h.chained.mono hsub⟩

theorem Chained.append (h : Chained padded completed)
    (hframe : frame.frameType = .delta → Continues padded completed frame) :
    Chained padded (completed ++ [frame]) := by
  intro earlier g later heq hdelta
  -- the frame is either the new one or inside the old list
  rcases eq_nil_or_concat later with rfl | ⟨later', last, rfl⟩
  · obtain ⟨rfl, hg⟩ := append_inj' heq rfl
    cases hg
    exact hframe hdelta
  · have hsplit : completed ++ [frame] = (earlier ++ g :: later') ++ [last] := by simpa using heq
    exact h earlier g later' (append_inj' hsplit rfl).1 hdelta

theorem GenericSound.stash (h : GenericSound padded s) (hframe : frame.codecType = .generic) :
    GenericSound padded (s.stash frame) := by
  refine ⟨h.padding, ?_, h.nodup, h.gops, h.chained⟩
  intro f hf
  rcases mem_append.mp hf with hf | hf
  · exact h.stashed f hf
  · cases mem_singleton.mp hf
    exact hframe

theorem GenericSound.dropGops (h : GenericSound padded s)
    {gops : List (BitVec 16 × (BitVec 16 × BitVec 16))} (hsub : gops.Sublist s.lastSeqNumGop) :
    GenericSound padded { s with lastSeqNumGop := gops } :=
  ⟨h.padding, h.stashed, (hsub.map Prod.fst).nodup h.nodup, fun e he => h.gops e (hsub.subset he),
    h.chained⟩

/-! ## Padding -/

theorem advancePadding_covered {last : BitVec 16} (padding : List (BitVec 16 × Unit))
    (hpadding : ∀ e ∈ padding, e.1 ∈ padded) (next : BitVec 16) (reached : Option (BitVec 16))
    (hnext : reached.getD last + 1 = next) (h : Covered padded a (reached.getD last)) :
    Covered padded a ((advancePadding next padding reached).1.getD last) := by
  induction padding generalizing next reached with
  | nil => exact h
  | cons e padding ih =>
    have hrest : ∀ e ∈ padding, e.1 ∈ padded :=
      fun e he => hpadding e (.tail _ he)
    rw [advancePadding]
    split
    · next he =>
      refine ih hrest (next + 1) (some next) rfl ?_
      have hmem : next ∈ padded := he ▸ hpadding e (.head _)
      exact hnext ▸ h.succ (hnext.symm ▸ hmem)
    · exact h

theorem advancePadding_subset (padding : List (BitVec 16 × Unit)) (next : BitVec 16)
    (reached : Option (BitVec 16)) : (advancePadding next padding reached).2 ⊆ padding := by
  induction padding generalizing next reached with
  | nil => exact List.Subset.refl _
  | cons e padding ih =>
    rw [advancePadding]
    split
    · exact subset_cons_of_subset _ (ih _ _)
    · exact List.Subset.refl _

/-- `UpdateLastPictureIdWithPadding` moves one GOP over stashed padding. `completed` may hold a
frame that is on its way to `OnCompleteFrame`. -/
theorem updateLastPictureIdWithPadding_spec (seqNum : BitVec 16)
    (hpadding : ∀ e ∈ s.stashedPadding, e.1 ∈ padded) (hnodup : (keys s.lastSeqNumGop).Nodup)
    (hgops : ∀ e ∈ s.lastSeqNumGop, SoundGop padded completed e.2) :
    ∃ padding gops, s.updateLastPictureIdWithPadding seqNum =
        { s with stashedPadding := padding, lastSeqNumGop := gops } ∧
      (∀ e ∈ padding, e.1 ∈ padded) ∧ (keys gops).Nodup ∧
      ∀ e ∈ gops, SoundGop padded completed e.2 := by
  rw [updateLastPictureIdWithPadding]
  cases hgop : beforeUpperBound descending seqNum s.lastSeqNumGop with
  | none => exact ⟨_, _, rfl, hpadding, hnodup, hgops⟩
  | some entry =>
    obtain ⟨_, lastPictureId, lastWithPadding⟩ := entry
    have hfrom : ∀ e ∈ fromLowerBound descending (lastWithPadding + 1) s.stashedPadding,
        e.1 ∈ padded := fun e he => hpadding e (mem_of_mem_fromLowerBound he)
    refine ⟨_, _, rfl, ?_, ?_, ?_⟩
    · intro e he
      rcases mem_append.mp he with he | he
      · exact hpadding e (mem_of_mem_take he)
      · exact hfrom e (advancePadding_subset _ _ _ he)
    · rw [keys_modify]
      exact hnodup
    intro e he
    rcases mem_of_mem_modify he with he | ⟨v, hv, rfl⟩
    · exact hgops e he
    -- keys are unique, so the entry that moves is the one that was found
    have hfound := find_of_mem hnodup (mem_of_beforeUpperBound hgop)
    have hv' := find_of_mem hnodup hv
    obtain rfl : v = (lastPictureId, lastWithPadding) :=
      Option.some.inj (hv'.symm.trans hfound)
    obtain ⟨hcompleted, hcovered⟩ := hgops _ hv
    exact ⟨hcompleted, advancePadding_covered _ hfrom _ none rfl hcovered⟩

/-! ## Frames -/

theorem descending_self (x : BitVec 16) : descending x x = false :=
  SequenceNumber.aheadOf_irrefl x

theorem descending_age (x : BitVec 16) : descending x (x - 100) = false := by
  have hdiff : (x - 100 - x).toNat = 65436 := by bv_omega
  rw [descending, ← Bool.not_eq_true, SequenceNumber.aheadOf_iff, hdiff]
  omega

/-- The GOPs after a frame has been entered: a delta frame adds none, and a key frame that adds one
finds it again. -/
theorem entered_cases (gops : List (BitVec 16 × (BitVec 16 × BitVec 16))) (frame : Frame) :
    (if frame.frameType = .key then
      insertNew descending frame.lastSeqNum (frame.lastSeqNum, frame.lastSeqNum) gops
      else gops) = gops ∨ (frame.frameType = .key ∧ beforeUpperBound descending frame.lastSeqNum
      (fromLowerBound descending (frame.lastSeqNum - 100)
        (if frame.frameType = .key then insertNew descending frame.lastSeqNum
          (frame.lastSeqNum, frame.lastSeqNum) gops else gops)) =
      some (frame.lastSeqNum, frame.lastSeqNum, frame.lastSeqNum)) := by
  by_cases hkey : frame.frameType = .key
  · rw [if_pos hkey]
    by_cases hold : frame.lastSeqNum ∈ keys gops
    · left
      exact if_pos ((find_isSome_iff _ _).mpr hold)
    · right
      exact ⟨hkey, beforeUpperBound_insertNew (descending_self _) (descending_age _) _ hold⟩
  · left
    exact if_neg hkey

/-- What `ManageFrameGeneric` can do to a frame without a picture id: drop it, stash it, or
complete it. A delta frame is completed only where its GOP ends. -/
theorem manageFrameGeneric_cases (s : Finder) (frame : Frame) :
    (∃ gops : List (BitVec 16 × (BitVec 16 × BitVec 16)), gops.Sublist s.lastSeqNumGop ∧
      ((s.manageFrameGeneric frame kNoPictureId).1 = { s with lastSeqNumGop := gops } ∨
        (s.manageFrameGeneric frame kNoPictureId).1 =
          ({ s with lastSeqNumGop := gops } : Finder).stash frame)) ∨
    ∃ (gops : List (BitVec 16 × (BitVec 16 × BitVec 16))) (reference : BitVec 16),
      ((keys s.lastSeqNumGop).Nodup → (keys gops).Nodup) ∧
      (∀ e ∈ gops, e ∈ s.lastSeqNumGop ∨ e.2 = (frame.lastSeqNum, frame.lastSeqNum)) ∧
      (frame.frameType = .delta → ∃ e ∈ s.lastSeqNumGop, e.2.1 = reference ∧
        frame.firstSeqNum - 1 = e.2.2) ∧ (s.manageFrameGeneric frame kNoPictureId).1 =
        (({ s with lastSeqNumGop := gops, lastPictureId := frame.lastSeqNum.toNat } :
          Finder).updateLastPictureIdWithPadding frame.lastSeqNum).onCompleteFrame { frame with
            pictureId := frame.lastSeqNum.toNat
            numReferences := if frame.frameType = .delta then 1 else 0
            references := store frame.references 0 reference.toNat } := by
  have hentered := entered_cases s.lastSeqNumGop frame
  rw [manageFrameGeneric, if_neg (by simp)]
  dsimp only
  generalize hmap : (if frame.frameType = .key then insertNew descending frame.lastSeqNum
    (frame.lastSeqNum, frame.lastSeqNum) s.lastSeqNumGop else s.lastSeqNumGop) = entered
    at hentered ⊢
  have hmem : ∀ e ∈ entered, e ∈ s.lastSeqNumGop ∨ e.2 = (frame.lastSeqNum, frame.lastSeqNum) := by
    intro e he
    rw [← hmap] at he
    split at he
    · rcases mem_of_mem_insertNew he with rfl | he
      · exact .inr rfl
      · exact .inl he
    · exact .inl he
  have hnodup : (keys s.lastSeqNumGop).Nodup → (keys entered).Nodup := by
    rw [← hmap]
    split
    · exact nodup_keys_insertNew _ _ _
    · exact id
  clear hmap
  by_cases hempty : entered.isEmpty
  · rw [if_pos hempty]
    rcases hentered with rfl | ⟨-, hfound⟩
    · exact .inl ⟨_, List.Sublist.refl _, .inr rfl⟩
    · rw [isEmpty_iff.mp hempty] at hfound
      cases hfound
  rw [if_neg hempty]
  generalize hkeep : (if (fromLowerBound descending (frame.lastSeqNum - 100) entered).isEmpty
    then entered else fromLowerBound descending (frame.lastSeqNum - 100) entered) = kept
  have hkept : kept.Sublist entered := by
    rw [← hkeep]
    split
    · exact List.Sublist.refl _
    · exact dropWhile_sublist _
  have hfound : entered = s.lastSeqNumGop ∨ (frame.frameType = .key ∧
      beforeUpperBound descending frame.lastSeqNum kept ≠ none) := by
    refine hentered.imp id fun ⟨hkey, hfound⟩ => ⟨hkey, ?_⟩
    rw [← hkeep, if_neg, hfound]
    · exact Option.some_ne_none _
    intro hnil
    rw [isEmpty_iff.mp hnil] at hfound
    cases hfound
  clear hkeep
  cases hgop : beforeUpperBound descending frame.lastSeqNum kept with
  | none =>
    obtain rfl := hfound.resolve_right fun h => h.2 hgop
    exact .inl ⟨kept, hkept, .inl rfl⟩
  | some entry =>
    dsimp only
    split
    · next hstash =>
      obtain rfl := hfound.resolve_right fun h => by
        rw [h.1] at hstash
        cases hstash.1
      exact .inl ⟨kept, hkept, .inr rfl⟩
    rename_i hends
    refine .inr ⟨_, entry.2.1, ?_, ?_, ?_, rfl⟩
    · refine fun h => ?_
      split
      · rw [keys_modify]
        exact (hkept.map Prod.fst).nodup (hnodup h)
      · exact (hkept.map Prod.fst).nodup (hnodup h)
    · intro e he
      split at he
      · rcases mem_of_mem_modify he with he | ⟨v, -, rfl⟩
        · exact hmem e (hkept.subset he)
        · exact .inr rfl
      · exact hmem e (hkept.subset he)
    · intro hdelta
      obtain rfl := hfound.resolve_right fun h => by
        rw [h.1] at hdelta
        cases hdelta
      refine ⟨entry, hkept.subset (mem_of_beforeUpperBound hgop), rfl, ?_⟩
      exact Decidable.of_not_not fun hne => hends ⟨hdelta, hne⟩

theorem genericSound_manageFrameGeneric (h : GenericSound padded s)
    (hframe : frame.codecType = .generic) :
    GenericSound padded (s.manageFrameGeneric frame kNoPictureId).1 := by
  rcases manageFrameGeneric_cases s frame with
    ⟨gops, hsub, heq | heq⟩ | ⟨gops, reference, hnodup, hmem, hends, heq⟩
  · rw [heq]
    exact h.dropGops hsub
  · rw [heq]
    exact (h.dropGops hsub).stash hframe
  rw [heq]
  generalize hdone : ({ frame with
    pictureId := frame.lastSeqNum.toNat
    numReferences := if frame.frameType = .delta then 1 else 0
    references := store frame.references 0 reference.toNat } : Frame) = done
  have hlast : done.lastSeqNum = frame.lastSeqNum := by rw [← hdone]
  have hgops : ∀ e ∈ gops, SoundGop padded (s.completed ++ [done]) e.2 := by
    intro e he
    rcases hmem e he with he | he
    · exact (h.gops e he).mono (List.Subset.refl _) (subset_append_left _ _)
    · rw [he]
      exact ⟨⟨done, by simp, hlast⟩, covered_self _ _⟩
  obtain ⟨_, _, hupdate, hpadding, hnodup', hgops'⟩ :=
    updateLastPictureIdWithPadding_spec (s := { s with
      lastSeqNumGop := gops, lastPictureId := frame.lastSeqNum.toNat }) frame.lastSeqNum
      h.padding (hnodup h.nodup) hgops
  rw [hupdate]
  refine ⟨hpadding, h.stashed, hnodup', hgops', h.chained.append fun hdelta => ?_⟩
  subst hdone
  obtain ⟨e, he, rfl, hfirst⟩ := hends hdelta
  obtain ⟨⟨f, hf, hreference⟩, hcovered⟩ := h.gops e he
  refine ⟨if_pos hdelta, f, hf, ?_, fun x hx => hcovered.between hfirst (hreference ▸ hx)⟩
  rw [hreference]
  rfl

/-! ## Runs -/

/-- A call with generic frames only. -/
def Event.Generic : Event → Prop
  | .manageFrame frame _ => frame.codecType = .generic
  | _ => True

namespace Machine

/-- The number a step takes from `PaddingReceived`. -/
def reportedBy (c : Machine) : Event → List (BitVec 16)
  | .paddingReceived seqNum => if c.loops.isEmpty then [seqNum] else []
  | _ => []

/-- The numbers that `PaddingReceived` was called with in a run. -/
def reported (c : Machine) : List Event → List (BitVec 16)
  | [] => []
  | e :: events => c.reportedBy e ++ (c.after e).reported events

end Machine

variable (h : GenericSound padded s)
include h

theorem genericSound_manageFrame (hframe : frame.codecType = .generic)
    (held : Bool) : ∃ r, s.manageFrame frame held = .ok r ∧ GenericSound padded r.1 := by
  rw [manageFrame]
  split
  · exact ⟨_, rfl, h⟩
  · rw [hframe]
    exact ⟨_, rfl, genericSound_manageFrameGeneric h hframe⟩

theorem genericSound_paddingReceived (seqNum : BitVec 16) :
    GenericSound (padded ++ [seqNum]) (s.paddingReceived seqNum) := by
  have hmore := h.mono (subset_append_left padded [seqNum])
  have hpadding : ∀ e ∈ insertNew descending seqNum ()
      (fromLowerBound descending (seqNum - kMaxPaddingAge) s.stashedPadding),
      e.1 ∈ padded ++ [seqNum] := by
    intro e he
    rcases mem_of_mem_insertNew he with rfl | he
    · simp
    · exact hmore.padding e (mem_of_mem_fromLowerBound he)
  rw [paddingReceived]
  generalize insertNew descending seqNum ()
    (fromLowerBound descending (seqNum - kMaxPaddingAge) s.stashedPadding) = stashed
    at hpadding ⊢
  obtain ⟨_, _, hupdate, hpadding', hnodup, hgops⟩ :=
    updateLastPictureIdWithPadding_spec (s := { s with stashedPadding := stashed }) seqNum
      hpadding hmore.nodup hmore.gops
  rw [hupdate]
  exact ⟨hpadding', hmore.stashed, hnodup, hgops, hmore.chained⟩

theorem GenericSound.keepFrames {frames : List Frame}
    (hsub : frames ⊆ s.stashedFrames) : GenericSound padded { s with stashedFrames := frames } :=
  ⟨h.padding, fun f hf => h.stashed f (hsub hf), h.nodup, h.gops, h.chained⟩

theorem genericSound_beginRetry (loops : List Nat) :
    GenericSound padded (beginRetry s loops).finder :=
  h.keepFrames (drop_subset _ _)

omit h

theorem genericSound_resume {r : Finder × Bool} (h : GenericSound padded r.1) (loops : List Nat) :
    GenericSound padded (resume loops r).finder := by
  rw [resume]
  split
  · exact genericSound_beginRetry h loops
  · exact h

theorem genericSound_next {c : Machine} (h : GenericSound padded c.finder) {e : Event}
    (he : e.Generic) :
    ∃ c', c.next e = .ok c' ∧ GenericSound (padded ++ c.reportedBy e) c'.finder := by
  cases e with
  | manageFrame frame held =>
    simp only [Machine.next, reportedBy, append_nil]
    split
    · obtain ⟨r, hr, hsound⟩ := genericSound_manageFrame h he held
      rw [hr]
      exact ⟨_, rfl, genericSound_resume hsound []⟩
    · exact ⟨c, rfl, h⟩
  | paddingReceived seqNum =>
    simp only [Machine.next, reportedBy]
    split
    · exact ⟨_, rfl, genericSound_beginRetry (genericSound_paddingReceived h seqNum) []⟩
    · rw [append_nil]
      exact ⟨c, rfl, h⟩
  | clearTo seqNum =>
    simp only [Machine.next, reportedBy, append_nil]
    split
    · refine ⟨_, rfl, ?_⟩
      have hkept := h.keepFrames (filter_subset_self (p := fun f =>
        !SequenceNumber.aheadOf seqNum f.firstSeqNum) c.finder.stashedFrames)
      exact ⟨hkept.padding, hkept.stashed, hkept.nodup, hkept.gops, hkept.chained⟩
    · exact ⟨c, rfl, h⟩
  | retry held =>
    simp only [Machine.next, reportedBy, append_nil]
    split
    · exact ⟨c, rfl, h⟩
    · exact ⟨_, rfl, h⟩
    · exact ⟨_, rfl, h⟩
    rename_i frame stashed _ hstashed
    have hframe : frame.codecType = .generic := h.stashed frame (by simp [hstashed])
    have hrest : stashed ⊆ c.finder.stashedFrames := by simp [hstashed]
    obtain ⟨r, hr, hsound⟩ := genericSound_manageFrame (h.keepFrames hrest) hframe held
    rw [hr]
    exact ⟨_, rfl, genericSound_resume hsound _⟩

theorem genericSound_run (events : List Event) (hevents : ∀ e ∈ events, e.Generic) {c : Machine}
    (h : GenericSound padded c.finder) :
    ∃ c', c.run events = .ok c' ∧ GenericSound (padded ++ c.reported events) c'.finder := by
  induction events generalizing padded c with
  | nil => exact ⟨c, rfl, by simpa [reported] using h⟩
  | cons e events ih =>
    obtain ⟨d, hd, hsound⟩ := genericSound_next h (hevents e (.head _))
    have hafter : c.after e = d := by simp [Machine.after, hd, Except.toOption]
    obtain ⟨c', hrun, hsound'⟩ :=
      ih (fun e he => hevents e (.tail _ he)) hsound
    refine ⟨c', ?_, ?_⟩
    · rw [run, hd]
      exact hrun
    · rw [reported, hafter, ← append_assoc]
      exact hsound'

/-- In every run over generic frames and padding, a delta frame given to `OnCompleteFrame` has
exactly one reference, the last number of a frame completed before it, and every number strictly
between that and its own first number was given to `PaddingReceived`. -/
theorem genericReferences_chain (memory : Nat → GofInfoVP9) (events : List Event)
    (hevents : ∀ e ∈ events, e.Generic) : ∃ c, (Machine.mk (.create memory) []).run events = .ok c ∧
      ∀ earlier frame later, c.finder.completed = earlier ++ frame :: later →
        frame.frameType = .delta → frame.numReferences = 1 ∧
        ∃ f ∈ earlier, frame.references 0 = f.lastSeqNum.toNat ∧
          ∀ x, Between f.lastSeqNum x frame.firstSeqNum →
            x ∈ (Machine.mk (.create memory) []).reported events := by
  obtain ⟨c, hrun, hsound⟩ := genericSound_run (c := ⟨.create memory, []⟩) events hevents
    (genericSound_create memory)
  refine ⟨c, hrun, fun earlier frame later hsplit hdelta => ?_⟩
  obtain ⟨hone, hreference⟩ := hsound.chained earlier frame later hsplit hdelta
  exact ⟨hone, by simpa using hreference⟩

def genericFrame (frameType : FrameType) (first last : BitVec 16) : Frame where
  codecType := .generic
  frameType := frameType
  firstSeqNum := first
  lastSeqNum := last
  timestamp := 0
  codecHeader := blankHeader

/-- A key frame, then a delta frame that waits for the padding in front of it. -/
def paddedDelta : List Event :=
  [.manageFrame (genericFrame .key 10 12) true, .retry true,
    .manageFrame (genericFrame .delta 14 15) true, .paddingReceived 13, .retry true]

theorem genericReferences_chain_padded :
    (fresh.run paddedDelta).toOption.map (fun c => c.finder.completed.map (·.lastSeqNum)) =
        some [12, 15] ∧ ∃ c, fresh.run paddedDelta = .ok c ∧
        ∀ earlier frame later, c.finder.completed = earlier ++ frame :: later →
          frame.frameType = .delta → frame.numReferences = 1 ∧
          ∃ f ∈ earlier, frame.references 0 = f.lastSeqNum.toNat ∧
            ∀ x, Between f.lastSeqNum x frame.firstSeqNum → x ∈ fresh.reported paddedDelta :=
  ⟨by decide +kernel, genericReferences_chain (fun _ => blankGof) paddedDelta
    (by simp [paddedDelta, Event.Generic, genericFrame])⟩

end WebRtc.Video.ReferenceFinder
