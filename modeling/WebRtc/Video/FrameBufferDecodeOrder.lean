import WebRtc.Video.FrameBufferWaiting

/-! Decode order. While every key is inserted once, frames refer to older frames and the
lists of dependents have room, no call fails and a frame is returned only after all the
frames it refers to. Frames may be dropped half way here. -/

namespace WebRtc.Video.Frames
open SequenceNumber OrderedMap Transition List

variable {k : FrameKey} {m : FrameMap}

/-! ## The invariant -/

/-- The buffer `b` together with the keys inserted and the keys returned since the last
`ClearFramesAndHistory`, newest first. -/
structure Safe (b : FrameBuffer) (inserted returned : List FrameKey) : Prop extends
    Coherent b where
  registered : ∀ y, ∀ x ∈ (info b.frames y).dependentFrames, x ∈ inserted
  placed : ∀ y, atOrBefore b.lastDecodedFrame y = false →
    ∀ x ∈ (info b.frames y).dependentFrames, y.lt x = true ∧ x ∈ keys b.frames
  stored : ∀ y f, (info b.frames y).frame = some f → f.key = y ∧ y ∈ inserted ∧ y ∉ returned
  owes : Owes b fun x => decide (x ∉ returned)
  settled : Settled b.frames
  waits : ∀ y ∈ keys b.frames, atOrBefore b.lastDecodedFrame y = false →
    (info b.frames y).frame = none → Waits b.frames [] y
  decoded : ∀ x ∈ keys b.frames, atOrBefore b.lastDecodedFrame x = true →
    x ∈ returned ∧ (info b.frames x).continuous = true
  last : returned.head? = b.lastDecodedFrame
  chain : returned.IsChain fun a b => b.lt a = true
  subset : ∀ x ∈ returned, x ∈ inserted

section
variable {b b' : FrameBuffer} {inserted returned regs : List FrameKey} {f : FrameObject}
  {g : Option FrameObject} {m' : FrameMap} {c d n : Int}

theorem clearFramesAndHistory_safe (b : FrameBuffer) : Safe (clearFramesAndHistory b) [] [] := by
  refine ⟨clearFramesAndHistory_coherent b, ?_, ?_, ?_, ⟨?_, ?_⟩, ?_, ?_, ?_, ?_, ?_, ?_⟩
  all_goals simp [clearFramesAndHistory, info_of_not_mem, OrderedMap.keys, Settled]

variable (hs : Safe b inserted returned)
include hs

/-- Inserted keys that left no trace in the buffer. -/
theorem Safe.insert (k : FrameKey) :
    Safe b (k :: inserted) returned :=
  { hs with
    registered := fun y x hx => mem_cons_of_mem _ (hs.registered y x hx)
    stored := fun y f hf =>
      have ⟨h1, h2, h3⟩ := hs.stored y f hf
      ⟨h1, .tail _ h2, h3⟩
    subset := fun x hx => mem_cons_of_mem _ (hs.subset x hx) }

/-- Only undecoded entries can owe anything, so nothing is owed to a key without entry. -/
theorem Safe.owed_of_not_mem {y : FrameKey}
    (hy : y ∉ keys b.frames) : owed b.frames [] y = 0 := by
  refine owed_eq_zero fun k hk hmem => ?_
  cases hlive : atOrBefore b.lastDecodedFrame k with
  | true => rw [(hs.decoded k (mem_keys_of_dependent hmem) hlive).2] at hk; cases hk
  | false => exact hy (hs.placed k hlive y hmem).2

theorem Safe.ne_last (hk : k ∉ inserted) :
    b.lastDecodedFrame ≠ some k := by
  intro hl
  rw [← hs.last] at hl
  exact hk (hs.subset k (mem_of_mem_head? hl))

theorem Safe.frame_none (hk : k ∉ inserted) :
    (info b.frames k).frame = none := by
  cases hf : (info b.frames k).frame with
  | none => rfl
  | some f => exact absurd (hs.stored k f hf).2.1 hk

/-! ## `InsertFrame` -/

/-- A frame that is not stored waits for more than is owed to it, the one that is dropped now as
well. -/
theorem Stored.waits (h : Stored b k g regs c d m') (hunreg : ∀ y, k ∉ (info b.frames y).dependentFrames)
    (hg : g = none → (pendingOf b.frames regs : Int) < c) {y : FrameKey}
    (hy : atOrBefore b.lastDecodedFrame y = false) (hf : (info m' y).frame = none) :
    Waits m' [] y := by
  intro hpos
  have howed := owed_registered h.dependentFrames h.continuous
  rw [howed] at hpos ⊢
  rw [h.missingContinuous]
  rw [h.frame] at hf
  split
  · next hye =>
    subst hye
    rw [if_pos rfl] at hf
    rw [owed_eq_zero fun k _ => hunreg k, Nat.zero_add]
    exact hg hf
  · next hye =>
    rw [if_neg hye] at hf hpos
    rw [Nat.add_zero] at hpos ⊢
    by_cases hyb : y ∈ keys b.frames
    · exact hs.waits y hyb hy hf hpos
    · rw [hs.owed_of_not_mem hyb] at hpos
      cases hpos

/-- The key is registered with older frames, and has an entry. -/
theorem Stored.placed (h : Stored b k g regs c d m') (hregs : ∀ r ∈ regs, r.lt k) {x y : FrameKey}
    (hy : atOrBefore b.lastDecodedFrame y = false) (hx : x ∈ (info m' y).dependentFrames) :
    y.lt x ∧ x ∈ keys m' := by
  rw [h.dependentFrames] at hx
  rcases mem_append.mp hx with hx | hx
  · obtain ⟨h1, h2⟩ := hs.placed y hy x hx
    exact ⟨h1, (h.keys_iff _).mpr (.inl h2)⟩
  obtain ⟨hpos, rfl⟩ := mem_replicate.mp hx
  have hyr : y ∈ regs := count_pos_iff.mp (Nat.pos_of_ne_zero hpos)
  exact ⟨hregs y hyr, (h.keys_iff _).mpr (.inr (.inl rfl))⟩

/-- A new key registered with older undecoded frames, stored or dropped. -/
theorem Stored.safe (h : Stored b f.key g regs c d m') (ht : Tidy b')
    (hb' : b' = { b with frames := m', numFramesBuffered := n })
    (hnew : f.key ∉ inserted) (hlive : atOrBefore b.lastDecodedFrame f.key = false)
    (hregs : ∀ r ∈ regs, atOrBefore b.lastDecodedFrame r = false ∧ r.lt f.key)
    (hg : (g = some f ∧ (∀ r, regs.count r ≤ f.allRefs.count r) ∧
        (f.allRefs.countP (fun x => decide (x ∉ returned)) : Int) ≤ d) ∨
      (g = none ∧ (pendingOf b.frames regs : Int) < c)) :
    Safe b' (f.key :: inserted) returned := by
  have hnone := hs.frame_none hnew
  have hcoh := h.coherent hs.toCoherent ht hb' hnone
  have hcont := hs.not_continuous hlive hnone
  have hunreg : ∀ k, f.key ∉ (info b.frames k).dependentFrames :=
    fun k hk => hnew (hs.registered k _ hk)
  have howes := h.owes hs.owes hb' (fun r _ => hunreg r) (hg.imp_right And.left)
  have hwaits : g = none → (pendingOf b.frames regs : Int) < c := by
    rintro rfl
    rcases hg with ⟨hg, -⟩ | ⟨-, hc⟩
    · cases hg
    · exact hc
  subst hb'
  refine ⟨hcoh, ?_, fun y hy x => h.placed hs (fun r hr => (hregs r hr).2) hy, ?_, howes, ?_,
    fun y _ hy hf => h.waits hs hunreg hwaits hy hf, ?_, hs.last, hs.chain,
    fun x hx => mem_cons_of_mem _ (hs.subset x hx)⟩ <;> dsimp only
  · intro y x hx
    rw [h.dependentFrames] at hx
    rcases mem_append.mp hx with hx | hx
    · exact mem_cons_of_mem _ (hs.registered y x hx)
    · exact mem_cons.mpr (.inl (eq_of_mem_replicate hx))
  · intro y e he
    rw [h.frame] at he
    split at he
    · next hy =>
      rcases hg with ⟨rfl, -⟩ | ⟨rfl, -⟩
      · cases he
        exact ⟨hy.symm, hy ▸ .head _, fun hr => hnew (hs.subset _ (hy ▸ hr))⟩
      · cases he
    · obtain ⟨h1, h2, h3⟩ := hs.stored y e he
      exact ⟨h1, .tail _ h2, h3⟩
  · intro k hk
    rw [h.continuous] at hk
    rw [h.missingContinuous, if_neg]
    · exact hs.settled k hk
    rintro rfl
    rw [hcont] at hk
    cases hk
  · intro x hx hdead
    rw [h.continuous]
    rcases (h.keys_iff x).mp hx with hx | rfl | hx
    · exact hs.decoded x hx hdead
    · rw [hlive] at hdead; cases hdead
    · rw [(hregs x hx).1] at hdead; cases hdead

/-- The loop of `PropagateContinuity` ends, leaves no continuous frame that misses one, and passes
over what waits. -/
theorem Safe.propagateLoop {key : FrameKey} (hframe : (info b.frames key).frame.isSome)
    (hcont : (info b.frames key).continuous = false)
    (hmiss : (info b.frames key).numMissingContinuous = 0) :
    ∃ m last, propagateContinuity key (markContinuous key b) =
        .ok { b with frames := m, lastContinuousFrame := some last } ∧ Settled m ∧
      (∀ y, (info m y).continuous → y ∈ keys b.frames) ∧
      ∀ y ∈ keys b.frames, atOrBefore b.lastDecodedFrame y = false →
        (info b.frames y).frame = none → Waits m [] y ∧
          ((info m y).continuous → (info b.frames y).continuous ∨ y = key) := by
  have hkey := mem_keys_of_frame hframe
  have hset := propagated_setContinuous hkey
  have hnew := fun k => continuous_modify (k := k) (f := (·.setContinuous)) hkey
  have hsettled : Settled (modify key (·.setContinuous) b.frames) := by
    intro k hk
    rw [missingContinuous_setContinuous]
    rcases hnew k hk with hk | rfl
    · exact hs.settled k hk
    · rw [hmiss]
  have hwait : ∀ y ∈ keys b.frames, atOrBefore b.lastDecodedFrame y = false →
      (info b.frames y).frame = none →
      Waits (modify key (·.setContinuous) b.frames) [key] y := by
    intro y hy hyl hf
    have := hs.waits y hy hyl hf
    unfold Waits at this ⊢
    rwa [← nil_append [key], owed_setContinuous hkey hcont, missingContinuous_setContinuous]
  unfold markContinuous propagateContinuity
  dsimp only
  generalize modify key (·.setContinuous) b.frames = m₀ at hset hnew hsettled hwait ⊢
  have hok : ∃ r, Frames.propagateLoop (m₀.length + 1) [key] (b.lastContinuousFrame.getD key) m₀ =
      .ok r := propagateLoop_ok (fun k => atOrBefore b.lastDecodedFrame k = false)
    (by
      intro k hk d hd
      rw [hset.dependentFrames] at hd
      rw [hset.keys_eq]
      obtain ⟨hkd, hdm⟩ := hs.placed k hk d hd
      exact ⟨hdm, hs.tidy.live_of_after (mem_keys_of_dependent hd) hk hdm hkd⟩)
    (by
      intro k hk
      cases mem_singleton.mp hk
      exact hs.tidy.live_of_frame hframe)
    (by
      have : numWaiting m₀ ≤ m₀.length := countP_le_length
      rw [length_singleton]
      omega) _
  obtain ⟨⟨m, last⟩, hloop⟩ := hok
  obtain ⟨hsettled', hwaits⟩ := propagateLoop_waits hloop hsettled
  refine ⟨m, last, by rw [hloop], hsettled', fun y hc => ?_, fun y hy hyl hf => ?_⟩
  · have := mem_keys_of_continuous hc
    rwa [(propagateLoop_propagated hloop).keys_eq, hset.keys_eq] at this
  obtain ⟨hwait', hnot⟩ := hwaits y (hwait y hy hyl hf)
  exact ⟨hwait', fun hc => hnew y (hnot hc)⟩

theorem Safe.of_same (hc : Coherent b') (h : SameLinks b b') (hsettled : Settled b'.frames)
    (hwaits : ∀ y ∈ keys b.frames, atOrBefore b.lastDecodedFrame y = false →
      (info b.frames y).frame = none → Waits b'.frames [] y)
    (hcont : ∀ y, (info b.frames y).continuous → (info b'.frames y).continuous) :
    Safe b' inserted returned := by
  have hnone : ∀ {y}, (info b'.frames y).frame = none → (info b.frames y).frame = none := by
    intro y hf
    have := h.isSome y
    rw [hf] at this
    simpa using this.symm
  refine ⟨hc, ?_, ?_, ?_, hs.owes.of_same h, hsettled, ?_, ?_, h.last ▸ hs.last, hs.chain, hs.subset⟩
  · simp only [h.dependentFrames]
    exact hs.registered
  · simp only [h.last, h.keys_eq, h.dependentFrames]
    exact hs.placed
  · intro y e he
    obtain ⟨f, hf, hkey, -⟩ := h.frame he
    rw [← hkey]
    exact hs.stored y f hf
  · rw [h.last, h.keys_eq]
    exact fun y hy hyl hf => hwaits y hy hyl (hnone hf)
  · rw [h.last, h.keys_eq]
    exact fun x hx hdead => (hs.decoded x hx hdead).imp_right (hcont x)

/-- `PropagateContinuity` succeeds, and makes only stored frames continuous. -/
theorem propagateContinuity_safe {key : FrameKey}
    (hframe : (info b.frames key).frame.isSome)
    (hcont : (info b.frames key).continuous = false)
    (hmiss : (info b.frames key).numMissingContinuous = 0) :
    ∃ b', propagateContinuity key (markContinuous key b) = .ok b' ∧ Safe b' inserted returned := by
  obtain ⟨m, last, hprop, hsettled, hmem, hwaits⟩ := hs.propagateLoop hframe hcont hmiss
  have hnew : ∀ y, atOrBefore b.lastDecodedFrame y = false → (info m y).continuous →
      (info b.frames y).frame.isSome := by
    intro y hy hc
    by_contra hf
    have hf : (info b.frames y).frame = none := by simpa using hf
    rcases (hwaits y (hmem y hc) hy hf).2 hc with hc | rfl
    · have := hs.continuous y hy hc
      rw [hf] at this
      cases this
    · rw [hf] at hframe
      cases hframe
  obtain ⟨hcoh, hp, -⟩ := propagateContinuity_coherent hs.toCoherent hframe hprop hnew
  exact ⟨_, hprop, hs.of_same hcoh (hp.sameLinks _) hsettled
    (fun y hy hyl hf => (hwaits y hy hyl hf).1) hp.continuous⟩

omit hs in
theorem mem_allRegistered {last : Option FrameKey} {r : FrameKey}
    (h : r ∈ allRegistered last m f) :
    r ∈ f.refKeys ∨ (f.interLayerPredicted ∧ r = f.lowerLayer) := by
  rcases mem_append.mp h with h | h
  · exact .inl ((takeWhile_sublist _).subset (mem_filter.mp h).1)
  split at h
  · unfold registeredLower at h
    split at h
    · next hl => exact .inr ⟨hl.1, mem_singleton.mp h⟩
    · cases h
  · cases h

omit hs in
/-- A frame that is dropped misses the reference that made it undecodable, besides those
it is registered with. -/
theorem pendingOf_lt_of_dropped {last : Option FrameKey}
    (hacc : accepted last m f.refKeys ≠ f.refKeys) :
    (pendingOf m (allRegistered last m f) : Int) < missingContinuous last m f := by
  have hlt : (accepted last m f.refKeys).length < f.references.length := by
    have hpre : accepted last m f.refKeys <+: f.refKeys := takeWhile_prefix _
    have hne : (accepted last m f.refKeys).length ≠ f.refKeys.length :=
      fun h => hacc (hpre.eq_of_length h)
    have hle := hpre.length_le
    rw [show f.refKeys.length = f.references.length from length_map _] at hle hne
    omega
  unfold allRegistered missingContinuous
  rw [if_neg hacc, append_nil, if_neg fun h => hacc h.1]
  omega

/-- What an accepted frame refers to and is not registered with has been returned. -/
theorem missing_of_accepted (hready : Ready b f)
    (hacc : accepted b.lastDecodedFrame (entered b f) f.refKeys = f.refKeys)
    (hu : UpdatedFor b f m) :
    (f.allRefs.countP (fun x => decide (x ∉ returned)) : Int) ≤
      missingDecodable b.lastDecodedFrame (entered b f) f := by
  rw [missingDecodable_eq hready.later hacc]
  refine Int.ofNat_le.mpr (countP_mono_left fun x hx hr => ?_)
  rcases hready.allRefs_placed hacc hu hx with ⟨hxl, -⟩ | ⟨hdead, hxm, -⟩
  · rw [hxl]; rfl
  · exact absurd (hs.decoded x hxm hdead).1 (by simpa using hr)

/-- A new frame with older references, for whose registrations there is room. -/
theorem storeFrame_safe (hready : Ready b f) (hnew : f.key ∉ inserted)
    (hrefs : ∀ r ∈ f.refKeys, r.lt f.key)
    (hlayer : f.interLayerPredicted → f.spatialLayer ≠ 0)
    (hroom : Fits (entered b f) (allRegistered b.lastDecodedFrame (entered b f) f)) :
    ∃ r, storeFrame b f = .ok r ∧ Safe r.buffer (f.key :: inserted) returned := by
  have hnone := hs.frame_none hnew
  have hlive := hready.later
  have hkm : f.key ∈ keys (entered b f) := (mem_keys_entered b f _).mpr (.inl rfl)
  obtain ⟨m, hm, hu⟩ := (updateFrameInfoWithIncomingFrame_spec b.lastDecodedFrame f hkm).1 hroom
  have hu := hu fun l hl => (mem_keys_entered b f l).mpr (.inr (hs.tidy.last_held l hl))
  have hregs : ∀ r ∈ allRegistered b.lastDecodedFrame (entered b f) f,
      atOrBefore b.lastDecodedFrame r = false ∧ r.lt f.key := by
    intro r hr
    refine ⟨allRegistered_new hlive _ hr, ?_⟩
    rcases mem_allRegistered hr with hr | ⟨hi, rfl⟩
    · exact hrefs r hr
    · exact FrameObject.lowerLayer_lt (hlayer hi)
  rw [storeFrame_eq, if_neg (by rw [hnone]; exact Bool.false_ne_true), hm]
  by_cases hacc : accepted b.lastDecodedFrame (entered b f) f.refKeys = f.refKeys
  · rw [decide_eq_true hacc]
    have hstored := hu.stored
    have hsafe : Safe (withFrame b f m) (f.key :: inserted) returned := by
      refine hstored.safe hs (hready.tidy_withFrame hnone hu) rfl hnew hlive hregs
        (.inl ⟨rfl, fun r => ?_, missing_of_accepted hs hready hacc hu⟩)
      rw [allRegistered_eq hlive hacc]
      exact filter_sublist.count_le r
    dsimp only
    unfold finishStored
    split
    · next hzero =>
      have hframe : (info (withFrame b f m).frames f.key).frame.isSome := by
        rw [hstored.frame, if_pos rfl]
        rfl
      have hcont : (info (withFrame b f m).frames f.key).continuous = false := by
        rw [hstored.continuous]
        exact hs.not_continuous hlive hnone
      have hmiss : (info (withFrame b f m).frames f.key).numMissingContinuous = 0 := by
        rw [hstored.missingContinuous, if_pos rfl]
        simpa [hu.info_eq] using hzero
      obtain ⟨_, hb', hsafe'⟩ := propagateContinuity_safe hsafe hframe hcont hmiss
      rw [hb']
      exact ⟨_, rfl, hsafe'⟩
    · exact ⟨_, rfl, hsafe⟩
  · rw [decide_eq_false hacc]
    refine ⟨_, rfl, (hu.stored_none hnone).safe (n := b.numFramesBuffered) hs
      (hready.tidy_updated hu) rfl hnew hlive hregs (.inr ⟨rfl, ?_⟩)⟩
    have hlt := pendingOf_lt_of_dropped hacc
    have hpend : ∀ rs, pendingOf (entered b f) rs = pendingOf b.frames rs := by
      intro rs
      simp only [pendingOf, info_entered]
    rwa [hpend] at hlt

omit hs in
/-- The frame makes the buffer start anew. -/
def clears (b : FrameBuffer) (f : FrameObject) : Bool := (admitFrame b f).isSome && isOld b f

theorem insertFrame_safe (hnew : clears b f ∨ f.key ∉ inserted)
    (hrefs : ∀ r ∈ f.refKeys, r.lt f.key)
    (hw : ∀ b₀, admitFrame b f = some b₀ → WithinWindow b₀ f) (hroom : HasRoom b f) :
    ∃ r, insertFrame b f = .ok r ∧
      if clears b f = true then Safe r.buffer [f.key] []
      else Safe r.buffer (f.key :: inserted) returned := by
  unfold insertFrame
  cases hentry : admitFrame b f with
  | none =>
    refine ⟨_, rfl, ?_⟩
    rw [if_neg (by simp [clears, hentry])]
    exact hs.insert f.key
  | some b₀ =>
    obtain ⟨hlayer, hcase⟩ := admit_cases hentry
    rcases hcase with ⟨rfl, hold⟩ | ⟨rfl, hjump⟩
    · have hclear : clears b₀ f = false := by simp [clears, hold]
      rw [hclear] at hnew ⊢
      have hnew := hnew.resolve_left Bool.false_ne_true
      have hlive := atOrBefore_of_admitFrame hentry (hs.ne_last hnew)
      obtain ⟨r, hr, hsafe⟩ := storeFrame_safe hs ⟨hs.tidy, hlive, hw _ hentry⟩ hnew hrefs hlayer
        (hroom _ hentry (hs.frame_none hnew))
      exact ⟨r, hr, by rw [if_neg Bool.false_ne_true]; exact hsafe⟩
    · have hclear : clears b f := by
        unfold jumps at hjump
        rw [Bool.and_eq_true, Bool.and_eq_true] at hjump
        simp [clears, hentry, hjump.1.1]
      have hempty := clearFramesAndHistory_safe b
      obtain ⟨r, hr, hsafe⟩ := storeFrame_safe hempty ⟨hempty.tidy, rfl, hw _ hentry⟩ not_mem_nil
        hrefs hlayer (hroom _ hentry rfl)
      exact ⟨r, hr, by rw [if_pos hclear]; exact hsafe⟩

/-! ## `NextFrame` -/

/-- Render times and the choice of a frame do not matter. -/
theorem selectFrame_safe (t : Timing) :
    ∃ b', selectFrame t b = .ok b' ∧ Safe b' inserted returned := by
  obtain ⟨b', hb'⟩ := hs.toCoherent.selectFrame_ok t
  have hcoh := selectFrame_coherent hs.toCoherent hb'
  obtain ⟨rfl, -⟩ := selectFrame_spec hs.tidy hb'
  have hsame := info_selected (b := b) t (considered (continuousEnd b) (undecoded b))
  refine ⟨_, hb', hs.of_same hcoh (selected_sameLinks t _ b) ?_ ?_ ?_⟩
  · intro k
    rw [hsame]
    exact hs.settled k
  · intro y hy hyl hf
    have howed : owed _ [] y = owed b.frames [] y :=
      owed_congr (fun k => by rw [hsame]) (fun k => by rw [hsame]) [] y
    unfold Waits
    rw [howed, hsame]
    exact hs.waits y hy hyl hf
  · intro y hy
    rw [hsame]
    exact hy

theorem Safe.setFlags {waiting stopped : Bool} (hw : waiting → b.waiting) :
    Safe { b with waiting, stopped } inserted returned :=
  hs.of_same (hs.toCoherent.setFlags hw) ⟨rfl, rfl, fun _ => rfl, fun _ => rfl, fun _ => rfl⟩
    hs.settled hs.waits fun _ => id

/-- A frame that misses nothing refers to returned frames only. -/
theorem Safe.refs_returned (hf : (info b.frames k).frame = some f)
    (hmiss : (info b.frames k).numMissingDecodable = 0) {x : FrameKey} (hx : x ∈ f.allRefs) :
    x ∈ returned := by
  have h := hs.owes.missing k f hf
  have hzero : f.allRefs.countP (fun x => decide (x ∉ returned)) = 0 := by omega
  simpa using countP_eq_zero.mp hzero x hx

theorem Returned.safe (h : Returned b k f b') : Safe b' inserted (f.key :: returned) := by
  have hlive := hs.tidy.live_of_frame h.isSome
  have hk := mem_keys_of_frame h.isSome
  obtain ⟨hkc, -⟩ := hs.next h.waiting k h.next
  obtain ⟨hkey, hkins, hkret⟩ := hs.stored k f h.stored
  rw [hkey]
  have howes : Owes b' fun x => decide (x ∉ k :: returned) :=
    h.owes hs.owes hs.tidy (by simpa using hkret)
      fun y g _ x _ hx => by simpa [and_comm] using hx
  refine ⟨h.coherent hs.toCoherent, ?_, ?_, ?_, howes, ?_, ?_, ?_, h.last.symm, ?_, ?_⟩
  · intro y x hx
    rw [h.dependentFrames y (mem_keys_of_dependent hx)] at hx
    exact hs.registered y x hx
  · intro y hyl x hx
    have hy := mem_keys_of_dependent hx
    obtain ⟨hky, hym, hyl⟩ := h.after hs.tidy hy hyl
    rw [h.dependentFrames y hy] at hx
    obtain ⟨hyx, hxm⟩ := hs.placed y hyl x hx
    exact ⟨hyx, h.kept x hxm (hs.tidy.ordered.trans k y x hk hym hxm hky hyx)⟩
  · intro y g hg
    obtain ⟨-, hne, hg⟩ := h.frame_some hg
    obtain ⟨h1, h2, h3⟩ := hs.stored y g hg
    exact ⟨h1, h2, fun hr => (mem_cons.mp hr).elim hne h3⟩
  · intro j hj
    have hjm := mem_keys_of_continuous hj
    rw [h.info_eq j hjm] at hj ⊢
    exact hs.settled j hj
  · intro y hy hyl hf hpos
    obtain ⟨hky, hym, hyl⟩ := h.after hs.tidy hy hyl
    rw [h.frame y hy, if_neg (FrameKey.ne_of_lt hky)] at hf
    have hle : owed b'.frames [] y ≤ owed b.frames [] y := by
      refine owed_mono y fun j => ?_
      by_cases hj : j ∈ keys b'.frames
      · exact .inr ⟨h.dependentFrames j hj, h.continuous j hj⟩
      · exact .inl (info_of_not_mem hj)
    have := hs.waits y hym hyl hf (by omega)
    rw [h.info_eq y hy]
    dsimp only
    omega
  · intro x hx hdead
    rw [h.continuous x hx]
    by_cases hxk : x = k
    · subst hxk
      exact ⟨.head _, hkc⟩
    rw [h.past] at hdead
    have hlt : x.lt k := by rw [FrameKey.lt_swap (Ne.symm hxk)]; exact hdead
    cases hxl : atOrBefore b.lastDecodedFrame x with
    | false => exact absurd hx (h.erased x hxl hlt)
    | true =>
      obtain ⟨h1, h2⟩ := hs.decoded x (h.subset x hx) hxl
      exact ⟨.tail _ h1, h2⟩
  · cases hret : returned with
    | nil => exact .singleton _
    | cons l _ =>
      refine isChain_cons_cons.mpr ⟨?_, hret ▸ hs.chain⟩
      have hl := hs.last
      rw [hret, head?_cons] at hl
      rw [← hl, atOrBefore_some] at hlive
      simpa using hlive
  · intro x hx
    rcases mem_cons.mp hx with rfl | hx
    · exact hkins
    · exact hs.subset x hx

/-- The second part of `NextFrame` does not fail: what is registered with the chosen frame
comes after it and is still in the map. -/
theorem returnFrame_safe :
    ∃ b' out, returnFrame b = .ok (b', out) ∧ match (out : Option FrameObject) with
      | none => Safe b' inserted returned
      | some F => Safe b' inserted (F.key :: returned) ∧ ∀ x ∈ F.allRefs, x ∈ returned := by
  cases hwait : b.waiting with
  | false => exact ⟨b, none, by simp [returnFrame, hwait], hs⟩
  | true =>
    cases hnext : b.nextFrame with
    | none =>
      exact ⟨{ b with waiting := false }, none, by simp [returnFrame, hwait, hnext],
        hs.setFlags fun h => nomatch h⟩
    | some k =>
      obtain ⟨hsome, hlive⟩ := hs.tidy.next hwait k hnext
      obtain ⟨F, hF⟩ := Option.isSome_iff_exists.mp hsome
      obtain ⟨b', hb', hr⟩ := (returnFrame_spec hs.tidy hwait hnext hF).1
        fun d hd => (hs.placed k hlive d hd).2
      exact ⟨b', some F, hb', hr.safe hs, fun x => hs.refs_returned hF (hs.next hwait k hnext).2⟩

end

/-! ## Runs -/

/-- The buffer with the keys inserted and the keys returned since it was last cleared. -/
structure Session where
  buffer : FrameBuffer := {}
  inserted : List FrameKey := []
  returned : List FrameKey := []
  deriving DecidableEq, Repr

/-- The session after the call `op` gave the buffer `b` and the output `out`. -/
def Session.record (s : Session) (op : Op) (b : FrameBuffer) (out : Output) : Session :=
  match op, out with
  | .insertFrame f, _ =>
    if clears s.buffer f then ⟨b, [f.key], []⟩ else ⟨b, f.key :: s.inserted, s.returned⟩
  | .returnFrame, .frame (some f) => ⟨b, s.inserted, f.key :: s.returned⟩
  | _, _ => { s with buffer := b }

def Session.step (s : Session) (op : Op) : Except Fault (Session × Output) :=
  match Frames.step s.buffer op with
  | .error e => .error e
  | .ok (b, out) => .ok (s.record op b out, out)

def Session.Steps (s : Session) (op : Op) (s' : Session) : Prop := ∃ out, s.step op = .ok (s', out)

/-- No key is inserted twice, references are older than their frame, the keys held lie in a
window, and no frame gets more than eight dependents. -/
def Admissible (s : Session) : Op → Prop
  | .insertFrame f =>
    (clears s.buffer f = true ∨ f.key ∉ s.inserted) ∧ (∀ r ∈ f.refKeys, r.lt f.key = true) ∧
      (∀ b₀, admitFrame s.buffer f = some b₀ → WithinWindow b₀ f) ∧ HasRoom s.buffer f
  | _ => True

def Session.Safe (s : Session) : Prop := Frames.Safe s.buffer s.inserted s.returned

instance {s : Session} : (op : Op) → Decidable (Admissible s op)
  | .insertFrame f => inferInstanceAs (Decidable ((_ ∨ _) ∧ (∀ r ∈ f.refKeys, _) ∧
      (∀ b₀ ∈ admitFrame s.buffer f, WithinWindow b₀ f) ∧
      ∀ b₀ ∈ admitFrame s.buffer f, _ → Fits _ _))
  | .selectFrame _ | .returnFrame | .start | .stop => .isTrue trivial

/-- An admissible call does not fail, keeps the invariant, and returns a frame only after
those it refers to. -/
theorem Session.step_safe {s : Session} (hs : s.Safe) {op : Op} (hop : Admissible s op) :
    ∃ s' out, s.step op = .ok (s', out) ∧ s'.Safe ∧ ∀ F, out = .frame (some F) →
      s'.returned = F.key :: s.returned ∧ ∀ x ∈ F.allRefs, x ∈ s.returned := by
  cases op with
  | insertFrame f =>
    obtain ⟨hnew, hrefs, hw, hroom⟩ := hop
    obtain ⟨r, hr, hsafe⟩ := insertFrame_safe hs hnew hrefs hw hroom
    simp only [Session.step, Frames.step, hr]
    refine ⟨_, _, rfl, ?_, fun F hF => by cases hF⟩
    unfold Session.record Session.Safe
    dsimp only
    split at hsafe
    · next hc => rw [if_pos hc]; exact hsafe
    · next hc => rw [if_neg hc]; exact hsafe
  | selectFrame t =>
    obtain ⟨b', hb', hsafe⟩ := selectFrame_safe hs t
    simp only [Session.step, Frames.step, hb']
    exact ⟨_, _, rfl, hsafe, fun F hF => by cases hF⟩
  | returnFrame =>
    obtain ⟨b', out, hb', hsafe⟩ := returnFrame_safe hs
    simp only [Session.step, Frames.step, hb']
    refine ⟨_, _, rfl, ?_⟩
    cases out with
    | none => exact ⟨hsafe, fun F hF => by cases hF⟩
    | some F =>
      refine ⟨hsafe.1, ?_⟩
      rintro G ⟨⟩
      exact ⟨rfl, hsafe.2⟩
  | start | stop =>
    exact ⟨_, _, rfl, Frames.Safe.setFlags hs id, fun F hF => by cases hF⟩

theorem Session.reaches_safe {s : Session}
    (h : Reaches (Guarded Admissible Session.Steps) {} s) : s.Safe := by
  refine h.invariant Session.Safe (clearFramesAndHistory_safe {}) ?_
  rintro s _ _ hs ⟨hop, _, hstep⟩
  obtain ⟨_, _, hs₁, hsafe, -⟩ := Session.step_safe hs hop
  rw [hstep] at hs₁
  cases hs₁
  exact hsafe

/-- Within a window, each key of a chain is less than the first. -/
theorem lt_of_chain {l : List FrameKey}
    (h : (k :: l).IsChain fun a b => b.lt a) (hw : InWindow (· ∈ k :: l)) :
    ∀ j ∈ l, j.lt k := by
  induction l generalizing k with
  | nil => exact fun j hj => nomatch hj
  | cons a l ih =>
    obtain ⟨hak, hrest⟩ := isChain_cons_cons.mp h
    intro j hj
    rcases mem_cons.mp hj with rfl | hjl
    · exact hak
    have hja := ih hrest (hw.mono fun _ hx => mem_cons_of_mem _ hx) j hjl
    exact hw.orderedOn.trans j a k (.tail _ hj)
      (.tail _ (.head _)) (.head _) hja hak

/-- **Decode order.** In every run of admissible calls no call fails. A frame that is
returned comes after the frame returned before it, and after the `n` frames returned
before it whenever they lie in one window with it; and every frame it refers to was
returned before. -/
theorem decode_order {s : Session} (h : Reaches (Guarded Admissible Session.Steps) {} s) {op : Op}
    (hop : Admissible s op) :
    ∃ s' out, s.step op = .ok (s', out) ∧ ∀ F, out = .frame (some F) →
      (∀ k, s.returned.head? = some k → k.lt F.key = true) ∧
      (∀ n, InWindow (fun k => k = F.key ∨ k ∈ s.returned.take n) →
        ∀ k ∈ s.returned.take n, k.lt F.key = true) ∧
      ∀ x ∈ F.allRefs, x ∈ s.returned := by
  obtain ⟨s', out, hstep, hsafe, hF⟩ := Session.step_safe (Session.reaches_safe h) hop
  refine ⟨s', out, hstep, fun F hout => ?_⟩
  obtain ⟨hret, hrefs⟩ := hF F hout
  have hchain := hsafe.chain
  rw [hret] at hchain
  refine ⟨fun k hk => ?_, fun n hw => ?_, hrefs⟩
  · obtain ⟨_, hrest⟩ := List.head?_eq_some_iff.mp hk
    rw [hrest] at hchain
    exact (isChain_cons_cons.mp hchain).1
  have htake := hchain.take (n + 1)
  exact lt_of_chain htake (hw.mono fun _ hx => mem_cons.mp hx)

/-- Key frame 7 is returned, then frame 8, which refers to it. -/
theorem decode_order_two_frames :
    let s : Session :=
      { buffer :=
          { frames := [(⟨7, 0⟩, { continuous := true }),
              (⟨8, 0⟩, { continuous := true,
                         frame := some { pictureId := 8, references := [7], renderTime := 0 } })],
            lastDecodedFrame := some ⟨7, 0⟩, lastContinuousFrame := some ⟨8, 0⟩,
            nextFrame := some ⟨8, 0⟩, numFramesHistory := 1, numFramesBuffered := 1,
            waiting := true },
        inserted := [⟨8, 0⟩, ⟨7, 0⟩], returned := [⟨7, 0⟩] }
    Reaches (Guarded Admissible Session.Steps) {} s ∧
      ∃ s' out, s.step .returnFrame = .ok (s', out) ∧ ∀ F, out = .frame (some F) →
        (⟨7, 0⟩ : FrameKey).lt F.key = true ∧ ∀ x ∈ F.allRefs, x ∈ s.returned := by
  intro s
  have hr : Reaches (Guarded Admissible Session.Steps) {} s :=
    Reaches.refl.of_guardedRun (.insertFrame { pictureId := 7 } :: nextFrameNow ++
      [.insertFrame { pictureId := 8, references := [7] }, .selectFrame ⟨fun _ => 0, fun _ => 0⟩])
      (by decide +kernel)
  obtain ⟨s', out, hstep, hF⟩ := decode_order hr (show Admissible s .returnFrame from trivial)
  exact ⟨hr, s', out, hstep, fun F hout => ⟨(hF F hout).1 _ rfl, (hF F hout).2.2⟩⟩

/-- Fifty-three key frames 642 picture ids apart: the last one returned does not come after
the first one, which has left the history. -/
theorem decode_order_wraps :
    ∃ s, Reaches (Guarded Admissible Session.Steps) {} s ∧
      s.returned.head? = some ⟨33384, 0⟩ ∧ s.returned.getLast? = some ⟨0, 0⟩ ∧
      (⟨0, 0⟩ : FrameKey).lt ⟨33384, 0⟩ = false := by
  have hrun : ((guardedRun Admissible Session.step {} ((List.range 53).flatMap fun i =>
      .insertFrame { pictureId := BitVec.ofNat 16 (642 * i) } :: nextFrameNow)).any fun s =>
      decide (s.returned.head? = some ⟨33384, 0⟩ ∧ s.returned.getLast? = some ⟨0, 0⟩)) = true := by
    decide +kernel
  obtain ⟨s, hs, hret⟩ := (Option.any_eq_true _ _).mp hrun
  obtain ⟨h1, h2⟩ := of_decide_eq_true hret
  exact ⟨s, Reaches.refl.of_guardedRun _ hs, h1, h2, by decide⟩

end WebRtc.Video.Frames
