import WebRtc.Video.FrameBufferInvariant

/-! Continuity. What `NextFrame` relies on when it looks for a frame: an undecoded entry
marked continuous holds a frame, and `last_continuous_frame_it_` stands at the greatest
continuous entry, not before the last decoded one. -/

namespace WebRtc.Video.Frames
open SequenceNumber OrderedMap Transition List Option

variable {b b' : FrameBuffer} {k x key : FrameKey} {m m' rest : FrameMap} {f : FrameObject}
  {g : Option FrameObject} {regs : List FrameKey} {c d n : Int}

structure Coherent (b : FrameBuffer) : Prop where
  tidy : Tidy b
  continuous : ∀ y, atOrBefore b.lastDecodedFrame y = false →
    (info b.frames y).continuous = true → (info b.frames y).frame.isSome = true
  lastContinuous_some : ∀ c, b.lastContinuousFrame = some c → c ∈ keys b.frames ∧
    (∀ k, (info b.frames k).continuous = true → c.lt k = false) ∧
    (∀ l, b.lastDecodedFrame = some l → c.lt l = false)
  lastContinuous_none : b.lastContinuousFrame = none →
    b.lastDecodedFrame = none ∧ ∀ k, (info b.frames k).continuous = false
  next : b.waiting = true → ∀ k, b.nextFrame = some k →
    (info b.frames k).continuous = true ∧ (info b.frames k).numMissingDecodable = 0

/-- A stored frame has not been decoded. -/
theorem Tidy.live_of_frame (ht : Tidy b) (h : (info b.frames k).frame.isSome) :
    atOrBefore b.lastDecodedFrame k = false := by
  cases hl : atOrBefore b.lastDecodedFrame k with
  | false => rfl
  | true => rw [ht.history k hl] at h; cases h

theorem mem_keys_of_continuous (h : (info m k).continuous) : k ∈ keys m := by
  by_contra hk
  rw [info_of_not_mem hk] at h
  cases h

theorem mem_keys_of_dependent (h : x ∈ (info m k).dependentFrames) : k ∈ keys m := by
  by_contra hk
  rw [info_of_not_mem hk] at h
  cases h

theorem ne_of_frame (hnone : (info m key).frame = none)
    (hk : (info m k).frame.isSome) : k ≠ key := by
  rintro rfl
  rw [hnone] at hk
  cases hk

theorem Coherent.not_continuous (hb : Coherent b) (hlive : atOrBefore b.lastDecodedFrame k = false)
    (hnone : (info b.frames k).frame = none) : (info b.frames k).continuous = false := by
  by_contra hc
  exact ne_of_frame hnone (hb.continuous k hlive (by simpa using hc)) rfl

theorem clearFramesAndHistory_coherent (b : FrameBuffer) : Coherent (clearFramesAndHistory b) := by
  refine ⟨clearFramesAndHistory_tidy b, ?_, ?_, ?_, ?_⟩ <;>
    simp [clearFramesAndHistory, info_of_not_mem, OrderedMap.keys]

/-- What does not depend on continuity, on render times and on the flags of the buffer. -/
structure SameLinks (b b' : FrameBuffer) : Prop where
  last : b'.lastDecodedFrame = b.lastDecodedFrame
  keys_eq : keys b'.frames = keys b.frames
  dependentFrames : ∀ k, (info b'.frames k).dependentFrames = (info b.frames k).dependentFrames
  refs : ∀ k, (info b'.frames k).frame.map (fun f => (f.key, f.allRefs)) =
    (info b.frames k).frame.map fun f => (f.key, f.allRefs)
  missing : ∀ k, (info b'.frames k).numMissingDecodable = (info b.frames k).numMissingDecodable

theorem SameLinks.isSome (h : SameLinks b b') (k : FrameKey) :
    (info b'.frames k).frame.isSome = (info b.frames k).frame.isSome := by
  have := congrArg Option.isSome (h.refs k)
  rwa [Option.isSome_map, Option.isSome_map] at this

theorem SameLinks.frame (h : SameLinks b b') {f' : FrameObject}
    (hf : (info b'.frames k).frame = some f') :
    ∃ f, (info b.frames k).frame = some f ∧ f.key = f'.key ∧ f.allRefs = f'.allRefs := by
  have hrefs := h.refs k
  rw [hf] at hrefs
  cases hb : (info b.frames k).frame with
  | none => rw [hb] at hrefs; cases hrefs
  | some f =>
    rw [hb] at hrefs
    obtain ⟨h1, h2⟩ := Prod.mk.inj (Option.some.inj hrefs)
    exact ⟨f, rfl, h1.symm, h2.symm⟩

theorem Propagated.sameLinks (h : Propagated b.frames m) (last : Option FrameKey) :
    SameLinks b { b with frames := m, lastContinuousFrame := last } :=
  ⟨rfl, h.keys_eq, h.dependentFrames, fun k => by rw [h.frame], h.missingDecodable⟩

theorem Coherent.of_same (hb : Coherent b) (ht : Tidy b') (h : SameLinks b b')
    (hlastc : b'.lastContinuousFrame = b.lastContinuousFrame)
    (hcont : ∀ k, (info b'.frames k).continuous = (info b.frames k).continuous)
    (hnext : b'.waiting → ∀ k, b'.nextFrame = some k →
      (info b'.frames k).continuous ∧ (info b'.frames k).numMissingDecodable = 0) :
    Coherent b' := by
  refine ⟨ht, ?_, ?_, ?_, hnext⟩
  · intro y hy hc
    rw [h.last] at hy
    rw [hcont] at hc
    rw [h.isSome y]
    exact hb.continuous y hy hc
  · intro c hc
    obtain ⟨h1, h2, h3⟩ := hb.lastContinuous_some c (hlastc ▸ hc)
    exact ⟨h.keys_eq ▸ h1, fun k hk => h2 k (hcont k ▸ hk), fun l hl => h3 l (h.last ▸ hl)⟩
  intro hc
  obtain ⟨h1, h2⟩ := hb.lastContinuous_none (hlastc ▸ hc)
  exact ⟨h.last.trans h1, fun k => (hcont k).trans (h2 k)⟩

theorem Coherent.setFlags (hb : Coherent b) {waiting stopped : Bool} (hw : waiting → b.waiting) :
    Coherent { b with waiting, stopped } :=
  hb.of_same (hb.tidy.of_eq rfl rfl rfl rfl fun h => ⟨hw h, rfl⟩)
    ⟨rfl, rfl, fun _ => rfl, fun _ => rfl, fun _ => rfl⟩ rfl (fun _ => rfl) fun h => hb.next (hw h)

/-! ## `InsertFrame` -/

/-- A decoded reference of an accepted frame is in the history. -/
theorem mem_keys_of_accepted {last : Option FrameKey} {refs : List FrameKey}
    (h : accepted last m refs = refs) (hx : x ∈ refs) (hdead : atOrBefore last x) :
    x ∈ keys m := by
  unfold accepted at h
  have hall := all_takeWhile (l := refs) (p := fun r =>
    !(atOrBefore last r && (find r m).isNone))
  rw [h] at hall
  have hx := all_eq_true.mp hall x hx
  rw [← find_isSome_iff]
  simpa [hdead, isSome_iff_ne_none] using hx

/-- The last decoded frame separates what is passed over from what is not. -/
theorem exists_last {last : Option FrameKey} {y : FrameKey} (hx : atOrBefore last x)
    (hy : atOrBefore last y = false) : ∃ l, last = some l ∧ atOrBefore (some l) x ∧ l.lt y := by
  cases last with
  | none => cases hx
  | some l => exact ⟨l, rfl, hx, by simpa [atOrBefore_some] using hy⟩

theorem Ready.lt_key (h : Ready b f) (hx : x ∈ keys b.frames)
    (hdead : atOrBefore b.lastDecodedFrame x) : x.lt f.key := by
  obtain ⟨l, hl, hxl, hlk⟩ := exists_last hdead h.later
  rcases (FrameKey.le_iff x l).mp hxl with hxl | rfl
  · exact h.window.orderedOn.trans x l f.key (.inl hx) (.inl (h.tidy.last_held l hl))
      (.inr (.inl rfl)) hxl hlk
  · exact hlk

theorem Ready.allRefs_placed (hready : Ready b f)
    (hacc : accepted b.lastDecodedFrame (entered b f) f.refKeys = f.refKeys)
    (h : UpdatedFor b f m) (hx : x ∈ f.allRefs) :
    (atOrBefore b.lastDecodedFrame x = false ∧ x ∈ keys (withFrame b f m).frames) ∨
      (atOrBefore b.lastDecodedFrame x ∧ x ∈ keys b.frames ∧ x.lt f.key) := by
  have hkey := hready.later
  cases hdead : atOrBefore b.lastDecodedFrame x with
  | false =>
    refine .inl ⟨rfl, ?_⟩
    rw [show (withFrame b f m).frames = modify f.key (·.setFrame (some f)) m from rfl, keys_modify]
    apply h.held
    rw [allRegistered_eq hkey hacc, mem_filter]
    exact ⟨hx, by rw [hdead]; rfl⟩
  | true =>
    have hheld : x ∈ keys b.frames := by
      rcases mem_append.mp hx with hx | hx
      · rcases (mem_keys_entered b f x).mp (mem_keys_of_accepted hacc hx hdead) with rfl | hx
        · rw [hkey] at hdead; cases hdead
        · exact hx
      -- the lower layer is decoded only if it is the last decoded frame
      split at hx
      · cases mem_singleton.mp hx
        obtain ⟨l, hl, hle, hlt⟩ := exists_last hdead hkey
        rw [FrameObject.lowerLayer_le hlt hle]
        exact hready.tidy.last_held l hl
      · cases hx
    exact .inr ⟨rfl, hheld, hready.lt_key hheld hdead⟩

/-- The map changed by registering `key` with `regs` and storing `g` for it. -/
structure Stored (b : FrameBuffer) (key : FrameKey) (g : Option FrameObject)
    (regs : List FrameKey) (c d : Int) (m' : FrameMap) : Prop where
  keys_iff : ∀ k, k ∈ keys m' ↔ k ∈ keys b.frames ∨ k = key ∨ k ∈ regs
  dependentFrames : ∀ k, (info m' k).dependentFrames =
    (info b.frames k).dependentFrames ++ List.replicate (regs.count k) key
  continuous : ∀ k, (info m' k).continuous = (info b.frames k).continuous
  frame : ∀ k, (info m' k).frame = if k = key then g else (info b.frames k).frame
  missingContinuous : ∀ k, (info m' k).numMissingContinuous =
    if k = key then c else (info b.frames k).numMissingContinuous
  missingDecodable : ∀ k, (info m' k).numMissingDecodable =
    if k = key then d else (info b.frames k).numMissingDecodable

theorem Updated.stored (h : Updated f.key regs c d (entered b f) m) :
    Stored b f.key (some f) regs c d (withFrame b f m).frames := by
  have hkey : f.key ∈ keys m := h.edited.keys_subset ((mem_keys_entered b f _).mpr (.inl rfl))
  unfold withFrame
  refine ⟨?_, ?_, ?_, ?_, ?_, ?_⟩ <;> intro k <;> dsimp only
  · rw [keys_modify]
    constructor
    · intro hk
      rcases h.edited.mem_keys hk with hk | hk
      · rcases (mem_keys_entered b f k).mp hk with hk | hk
        · exact .inr (.inl hk)
        · exact .inl hk
      · exact .inr (.inr hk)
    · rintro (hk | rfl | hk)
      · exact h.edited.keys_subset ((mem_keys_entered b f k).mpr (.inr hk))
      · exact hkey
      · exact h.held k hk
  all_goals
    rw [info_modify hkey, h.info_eq, h.info_eq, info_entered, info_entered]
    by_cases he : k = f.key <;> simp [he, FrameInfo.setFrame]

/-- A dropped frame is registered and not stored. -/
theorem Updated.stored_none (hnone : (info b.frames f.key).frame = none)
    (h : Updated f.key regs c d (entered b f) m) : Stored b f.key none regs c d m := by
  have hkeys := h.stored.keys_iff
  unfold withFrame at hkeys
  rw [keys_modify] at hkeys
  refine ⟨hkeys, ?_, ?_, fun k => ?_, ?_, ?_⟩
  · simp [h.info_eq]
  · simp [h.info_eq]
  · rw [h.info_eq, info_entered]
    split
    · next he => rw [he, hnone]
    · rfl
  · simp [h.info_eq]
  · simp [h.info_eq]

theorem Stored.coherent (hb : Coherent b) (h : Stored b key g regs c d m') (ht : Tidy b')
    (hb' : b' = { b with frames := m', numFramesBuffered := n })
    (hnone : (info b.frames key).frame = none) : Coherent b' := by
  subst hb'
  refine ⟨ht, ?_, ?_, ?_, ?_⟩
  · intro y hy hc
    rw [h.continuous] at hc
    have hs := hb.continuous y hy hc
    rw [h.frame, if_neg (ne_of_frame hnone hs)]
    exact hs
  · intro c hc
    obtain ⟨h1, h2, h3⟩ := hb.lastContinuous_some c hc
    exact ⟨(h.keys_iff c).mpr (.inl h1), fun k hk => h2 k (h.continuous k ▸ hk), h3⟩
  · intro hc
    obtain ⟨h1, h2⟩ := hb.lastContinuous_none hc
    exact ⟨h1, fun k => (h.continuous k).trans (h2 k)⟩
  · intro hw k hk
    rw [h.continuous, h.missingDecodable, if_neg (ne_of_frame hnone (hb.tidy.next hw k hk).1)]
    exact hb.next hw k hk

/-- A stored frame that misses nothing becomes continuous, and with it its dependents:
stored frames only, by the last hypothesis. -/
theorem propagateContinuity_coherent (hb : Coherent b)
    (hframe : (info b.frames key).frame.isSome)
    (h : propagateContinuity key (markContinuous key b) = .ok b')
    (hnew : ∀ y, atOrBefore b.lastDecodedFrame y = false → (info b'.frames y).continuous →
      (info b.frames y).frame.isSome) :
    Coherent b' ∧ Propagated b.frames b'.frames ∧ b' = { b with
      frames := b'.frames, lastContinuousFrame := b'.lastContinuousFrame } := by
  have hkey := mem_keys_of_frame hframe
  have hset := propagated_setContinuous hkey
  have hkey₁ : key ∈ keys (modify key (·.setContinuous) b.frames) := hset.keys_eq ▸ hkey
  have ht' : Tidy b' := propagateContinuity_tidy
    (hset.edited.tidy_same hb.tidy) h
  unfold markContinuous propagateContinuity at h
  split at h
  · cases h
  rename_i m last hloop
  cases h
  obtain ⟨hheld, hge, hall⟩ := propagateLoop_spec
    (by rw [hset.keys_eq]; exact hb.tidy.ordered)
    (by
      intro k hk
      cases mem_singleton.mp hk
      exact hkey₁)
    (by
      cases hc : b.lastContinuousFrame with
      | none => exact hkey₁
      | some c => rw [hset.keys_eq]; exact (hb.lastContinuous_some c hc).1)
    (by
      intro k hk
      refine ⟨mem_keys_of_continuous hk, ?_⟩
      rcases continuous_modify hkey hk with hk | rfl
      · cases hc : b.lastContinuousFrame with
        | none => rw [(hb.lastContinuous_none hc).2 k] at hk; cases hk
        | some c => exact .inl ((hb.lastContinuous_some c hc).2.1 k hk)
      · exact .inr (.head _)) hloop
  have hp := hset.trans (propagateLoop_propagated hloop)
  rw [hset.keys_eq] at hheld
  refine ⟨⟨ht', ?_, ?_, (fun h => nomatch h), ?_⟩, hp, rfl⟩
  · intro y hy hc
    rw [hp.frame]
    exact hnew y hy hc
  · rintro c ⟨⟩
    refine ⟨by rw [hp.keys_eq]; exact hheld, hall, fun l hl => ?_⟩
    cases hc : b.lastContinuousFrame with
    | none => rw [(hb.lastContinuous_none hc).1] at hl; cases hl
    | some c =>
      obtain ⟨hcm, -, hcl⟩ := hb.lastContinuous_some c hc
      rw [hc] at hge
      cases hlt : last.lt l with
      | false => rfl
      | true =>
        -- `last < l ≤ c ≤ last`
        have hlm := hb.tidy.last_held l hl
        by_cases hlc : l = c
        · rw [hlc] at hlt; exact hlt.symm.trans hge
        · exact (hb.tidy.ordered.trans last l c hheld hlm hcm hlt
            (FrameKey.lt_of_not_lt hlc (hcl l hl))).symm.trans hge
  · intro hw k hk
    obtain ⟨h1, h2⟩ := hb.next hw k hk
    exact ⟨hp.continuous k h1, (hp.missingDecodable k).trans h2⟩

/-! ## `NextFrame` -/

section

variable (t : Timing) (l : FrameMap)

/-- Render times aside, the entries stay as they are. -/
theorem info_selected (k : FrameKey) : info (selected t l b).frames k =
    { info b.frames k with frame := (info (selected t l b).frames k).frame } := by
  unfold selected
  split
  · rfl
  rw [info_retime, retime]
  dsimp only
  split <;> rfl

theorem selected_sameLinks (b : FrameBuffer) : SameLinks b (selected t l b) := by
  refine ⟨?_, ?_, fun k => by rw [info_selected], fun k => ?_, fun k => by rw [info_selected]⟩ <;>
    unfold selected <;> split
  · rfl
  · rfl
  · rfl
  · exact keys_retime _
  · rfl
  rw [info_retime, retime]
  dsimp only
  split
  · refine (Option.map_map ..).trans (congrArg (Option.map · _) (funext fun f => ?_))
    unfold Function.comp withRenderTime
    split <;> rfl
  · rfl

end

theorem selectFrame_coherent {t : Timing} (hb : Coherent b) (h : selectFrame t b = .ok b') :
    Coherent b' := by
  have ht := selectFrame_tidy hb.tidy h
  obtain ⟨rfl, hnext⟩ := selectFrame_spec hb.tidy h
  refine hb.of_same ht (selected_sameLinks t _ b) ?_ (fun k => by rw [info_selected]) ?_
  · unfold selected
    split <;> rfl
  intro hw k hk
  obtain ⟨i, hi, -⟩ := hnext hw k hk
  have hm := ((hb.tidy.mem_undecoded _).mp (considered_subset hi)).1
  rw [info_selected, info_of_find (find_of_mem hb.tidy.nodup hm)]
  simpa [FrameInfo.passedOver] using (mem_filter.mp hi).2

theorem selectLoop_ok {t : Timing} {endKey : Option FrameKey}
    (h : ∀ e ∈ rest, e.2.continuous → e.2.frame.isSome)
    (hend : ∀ k, endKey = some k → k ∈ keys rest) (next : Option FrameKey) :
    ∃ r, selectLoop t endKey rest next = .ok r := by
  induction rest generalizing next with
  | nil =>
    cases endKey with
    | none => exact ⟨_, rfl⟩
    | some k => cases hend k rfl
  | cons e rest ih =>
    obtain ⟨k, i⟩ := e
    unfold selectLoop
    split
    · exact ⟨_, rfl⟩
    rename_i hk
    have ih := ih (fun e he => h e (.tail _ he)) fun j hj =>
      (mem_cons.mp (hend j hj)).resolve_left fun he => hk (hj.trans (congrArg some he))
    split
    · obtain ⟨r, hr⟩ := ih next
      exact ⟨_, by rw [hr]⟩
    rename_i hready
    have hc : i.continuous := by
      by_contra hne
      simp [hne] at hready
    obtain ⟨f, hf⟩ := isSome_iff_exists.mp (h (k, i) (.head _) hc)
    rw [show i.frame = some f from hf]
    dsimp only
    split
    · obtain ⟨r, hr⟩ := ih (some k)
      exact ⟨_, by rw [hr]⟩
    · exact ⟨_, rfl⟩

/-- The loop stops at an entry, and considers all that it should. -/
theorem Coherent.continuousEnd_spec (hs : Coherent b) :
    (∀ k, continuousEnd b = some k → k ∈ keys (undecoded b)) ∧
      considered (continuousEnd b) (undecoded b) =
        (undecoded b).filter fun e => !e.2.passedOver := by
  have ht := hs.tidy
  cases hc : b.lastContinuousFrame with
  | none => simp [continuousEnd, hc, considered_none]
  | some c =>
    obtain ⟨hcm, hall, hlast⟩ := hs.lastContinuous_some c hc
    have hlate : ∀ e ∈ b.frames, c.lt e.1 → e.2.continuous = false := by
      intro e he hlt
      by_contra hne
      have := hall e.1 (by
        rw [info_of_find (find_of_mem ht.nodup he)]
        simpa using hne)
      rw [this] at hlt
      cases hlt
    cases hafter : after c b.frames with
    | nil => simp [continuousEnd, hc, hafter, considered_none]
    | cons e _ =>
      rw [show continuousEnd b = some e.1 by
        simp only [continuousEnd, hc, hafter, head?_cons, map_some]]
      obtain ⟨k, i⟩ := e
      obtain ⟨hm, hck⟩ := (ht.sorted.mem_after ht.ordered hcm (k, i)).mp
        (by rw [hafter]; exact .head _)
      have hkm : k ∈ keys b.frames := mem_map_of_mem hm
      have hlive : atOrBefore b.lastDecodedFrame k = false := by
        cases hl : b.lastDecodedFrame with
        | none => rfl
        | some l =>
          have hlm := ht.last_held l hl
          have hlk : l.lt k := by
            by_cases hlc : l = c
            · rw [hlc]; exact hck
            · exact ht.ordered.trans l c k hlm hcm hkm (FrameKey.lt_of_not_lt hlc (hlast l hl)) hck
          rw [atOrBefore_some, hlk]
          rfl
      obtain ⟨pre, rest, hsplit⟩ := append_of_mem ((ht.mem_undecoded (k, i)).mpr ⟨hm, hlive⟩)
      have hsub : ∀ e ∈ undecoded b, e ∈ b.frames := fun e he => ((ht.mem_undecoded e).mp he).1
      have hsorted : Sorted FrameKey.lt (pre ++ (k, i) :: rest) := by
        have := ht.sorted
        rw [← ht.split, hsplit] at this
        exact (pairwise_append.mp this).2.1
      rw [hsplit] at hsub ⊢
      refine ⟨fun _ hj => some.inj hj ▸ mem_keys_of_mem (mem_append_right _ mem_cons_self), ?_⟩
      have hpre : ∀ e ∈ pre, decide (some k ≠ some e.1) := by
        intro e he
        have := FrameKey.ne_of_lt ((pairwise_append.mp hsorted).2.2 e he (k, i) (.head _))
        simpa using this
      -- nothing from the end of the continuous frames on is continuous
      have hrest : ∀ e ∈ (k, i) :: rest, ¬ (!e.2.passedOver) = true := by
        intro e he
        have hnot : e.2.continuous = false := by
          refine hlate e (hsub e (mem_append_right _ he)) ?_
          rcases mem_cons.mp he with rfl | her
          · exact hck
          have hke := (pairwise_cons.mp (pairwise_append.mp hsorted).2.1).1 e her
          exact ht.ordered.trans c k e.1 hcm hkm
            (mem_map_of_mem (hsub e (mem_append_right _ he))) hck hke
        simp [FrameInfo.passedOver, hnot]
      rw [considered, takeWhile_append_of_pos hpre, takeWhile_cons_of_neg (by simp), append_nil,
        filter_append, filter_eq_nil_iff.mpr hrest, append_nil]

theorem Coherent.continuous_undecoded (hb : Coherent b) {e : FrameKey × FrameInfo}
    (he : e ∈ undecoded b) (hc : e.2.continuous) : e.2.frame.isSome := by
  obtain ⟨hm, hlive⟩ := (hb.tidy.mem_undecoded e).mp he
  have := hb.continuous e.1 hlive
  rw [info_of_find (find_of_mem hb.tidy.nodup hm)] at this
  exact this hc

/-- The first part of `NextFrame` never fails. -/
theorem Coherent.selectFrame_ok (hb : Coherent b) (t : Timing) : ∃ b', selectFrame t b = .ok b' := by
  obtain ⟨r, hr⟩ := selectLoop_ok (fun _ => hb.continuous_undecoded) hb.continuousEnd_spec.1 none
  unfold selectFrame
  rw [hr]
  split
  · exact ⟨_, rfl⟩
  · exact ⟨_, rfl⟩

/-- What comes after the newly decoded frame came after the one before. -/
theorem Tidy.live_of_after (ht : Tidy b) {y : FrameKey} (hk : k ∈ keys b.frames)
    (hlive : atOrBefore b.lastDecodedFrame k = false) (hy : y ∈ keys b.frames) (hky : k.lt y) :
    atOrBefore b.lastDecodedFrame y = false := by
  cases hl : b.lastDecodedFrame with
  | none => rfl
  | some l =>
    rw [hl, atOrBefore_some] at hlive
    rw [atOrBefore_some, ht.ordered.trans l k y (ht.last_held l hl) hk hy (by simpa using hlive) hky]
    rfl

theorem countP_add_count_le {α : Type} [DecidableEq α] (p p' : α → Bool) (k : α) (l : List α)
    (h : ∀ x ∈ l, p' x → p x ∧ x ≠ k) (hk : p k) :
    l.countP p' + l.count k ≤ l.countP p := by
  rw [countP_eq_countP_filter_add l p (· == k), countP_filter, countP_filter, Nat.add_comm]
  refine Nat.add_le_add (countP_mono_left fun x _ hx => ?_) (countP_mono_left fun x hx hp' => ?_)
  · rw [eq_of_beq hx, hk, beq_self_eq_true]
    rfl
  · simpa using h x hx hp'

section Returned

variable {y : FrameKey}

variable (h : Returned b k f b')
include h

theorem Returned.isSome : (info b.frames k).frame.isSome := by
  rw [h.stored]; rfl

theorem Returned.last : b'.lastDecodedFrame = some k := by
  obtain ⟨_, heq⟩ := h.eq
  exact congrArg (·.lastDecodedFrame) heq

theorem Returned.past (x : FrameKey) :
    atOrBefore b'.lastDecodedFrame x = !k.lt x := by
  rw [h.last]; rfl

theorem Returned.subset (y : FrameKey) (hy : y ∈ keys b'.frames) : y ∈ keys b.frames :=
  ((h.mem_iff y).mp hy).1

theorem Returned.kept (y : FrameKey) (hy : y ∈ keys b.frames) (hky : k.lt y) :
    y ∈ keys b'.frames :=
  (h.mem_iff y).mpr ⟨hy, .inr (FrameKey.lt_asymm hky), fun _ => ⟨k, h.subset k h.held, hky⟩⟩

theorem Returned.erased (y : FrameKey) (hlive : atOrBefore b.lastDecodedFrame y = false)
    (hyk : y.lt k) : y ∉ keys b'.frames := by
  intro hy
  have := ((h.mem_iff y).mp hy).2.1
  rw [hlive, hyk] at this
  simp at this

/-- An entry after `k` was an undecoded entry before. -/
theorem Returned.after (ht : Tidy b) (hy : y ∈ keys b'.frames)
    (hyl : atOrBefore b'.lastDecodedFrame y = false) :
    k.lt y ∧ y ∈ keys b.frames ∧ atOrBefore b.lastDecodedFrame y = false := by
  rw [h.past] at hyl
  have hky : k.lt y := by simpa using hyl
  exact ⟨hky, h.subset y hy, ht.live_of_after (mem_keys_of_frame h.isSome)
    (ht.live_of_frame h.isSome) (h.subset y hy) hky⟩

theorem Returned.frame (y : FrameKey) (hy : y ∈ keys b'.frames) :
    (info b'.frames y).frame = if y = k then none else (info b.frames y).frame := by
  rw [h.info_eq y hy]

theorem Returned.dependentFrames (y : FrameKey) (hy : y ∈ keys b'.frames) :
    (info b'.frames y).dependentFrames = (info b.frames y).dependentFrames := by
  rw [h.info_eq y hy]

theorem Returned.continuous (y : FrameKey) (hy : y ∈ keys b'.frames) :
    (info b'.frames y).continuous = (info b.frames y).continuous := by
  rw [h.info_eq y hy]

theorem Returned.frame_some {g : FrameObject}
    (hg : (info b'.frames y).frame = some g) :
    y ∈ keys b'.frames ∧ y ≠ k ∧ (info b.frames y).frame = some g := by
  have hy : y ∈ keys b'.frames := mem_keys_of_frame (by rw [hg]; rfl)
  rw [h.frame y hy] at hg
  split at hg
  · cases hg
  · next hne => exact ⟨hy, hne, hg⟩

end Returned

theorem Returned.coherent (hb : Coherent b) (h : Returned b k f b') : Coherent b' := by
  obtain ⟨hkc, -⟩ := hb.next h.waiting k h.next
  obtain ⟨_, heq⟩ := h.eq
  have hcont : b'.lastContinuousFrame = b.lastContinuousFrame :=
    congrArg (·.lastContinuousFrame) heq
  refine ⟨h.tidy, ?_, ?_, ?_, ?_⟩
  · intro y hyl hc
    have hy := mem_keys_of_continuous hc
    obtain ⟨hky, -, hyl⟩ := h.after hb.tidy hy hyl
    rw [h.frame y hy, if_neg (FrameKey.ne_of_lt hky)]
    exact hb.continuous y hyl (h.continuous y hy ▸ hc)
  · intro c hc
    obtain ⟨hcm, hcall, -⟩ := hb.lastContinuous_some c (hcont ▸ hc)
    have hck := hcall k hkc
    refine ⟨?_, fun j hj => ?_, ?_⟩
    · by_cases he : c = k
      · rw [he]; exact h.held
      · exact h.kept c hcm (FrameKey.lt_of_not_lt (Ne.symm he) hck)
    · exact hcall j (h.continuous j (mem_keys_of_continuous hj) ▸ hj)
    rw [h.last]
    rintro l ⟨⟩
    exact hck
  · intro hc
    rw [(hb.lastContinuous_none (hcont ▸ hc)).2 k] at hkc
    cases hkc
  · rw [heq]
    exact fun h => nomatch h

/-! ## Missing references -/

/-- The counter of a stored frame is at least the number of its references that are `pending`, and
no undecoded frame has it among its dependents more often than it refers to that frame. -/
structure Owes (b : FrameBuffer) (pending : FrameKey → Bool) : Prop where
  missing : ∀ y f, (info b.frames y).frame = some f →
    (f.allRefs.countP pending : Int) ≤ (info b.frames y).numMissingDecodable
  counted : ∀ y f, (info b.frames y).frame = some f →
    ∀ r, atOrBefore b.lastDecodedFrame r = false →
      (info b.frames r).dependentFrames.count y ≤ f.allRefs.count r

section Owes

variable {pending pending' : FrameKey → Bool} (hs : Owes b pending)
include hs

theorem Owes.of_same (h : SameLinks b b') : Owes b' pending := by
  refine ⟨fun y f' hf' => ?_, fun y f' hf' r hr => ?_⟩ <;> obtain ⟨f, hf, -, he⟩ := h.frame hf'
  · rw [← he, h.missing]
    exact hs.missing y f hf
  · rw [← he, h.dependentFrames]
    exact hs.counted y f hf r (h.last ▸ hr)

/-- A frame that nothing has registered yet is stored or dropped. -/
theorem Stored.owes (h : Stored b f.key g regs c d m')
    (hb' : b' = { b with frames := m', numFramesBuffered := n })
    (hunreg : ∀ r, atOrBefore b.lastDecodedFrame r = false →
      f.key ∉ (info b.frames r).dependentFrames)
    (hg : (g = some f ∧ (∀ r, regs.count r ≤ f.allRefs.count r) ∧
      (f.allRefs.countP pending : Int) ≤ d) ∨ g = none) : Owes b' pending := by
  subst hb'
  have hold : ∀ {y e}, (info m' y).frame = some e → y ≠ f.key →
      (info b.frames y).frame = some e := by
    intro y e he hy
    rwa [h.frame, if_neg hy] at he
  -- the entry of the key, if it holds a frame, holds `f`
  have hkey : ∀ {e}, (info m' f.key).frame = some e → e = f ∧
      (∀ r, regs.count r ≤ f.allRefs.count r) ∧ (f.allRefs.countP pending : Int) ≤ d := by
    intro e he
    rw [h.frame, if_pos rfl] at he
    rcases hg with ⟨rfl, h1, h2⟩ | rfl
    · exact ⟨(some.inj he).symm, h1, h2⟩
    · cases he
  refine ⟨fun y e he => ?_, fun y e he r hr => ?_⟩
  · rw [h.missingDecodable]
    by_cases hy : y = f.key
    · subst hy
      obtain ⟨rfl, -, hd⟩ := hkey he
      rw [if_pos rfl]
      exact hd
    · rw [if_neg hy]
      exact hs.missing y e (hold he hy)
  · rw [h.dependentFrames, count_append, count_replicate]
    by_cases hy : y = f.key
    · subst hy
      obtain ⟨rfl, hc, -⟩ := hkey he
      rw [count_eq_zero_of_not_mem (hunreg r hr), if_pos (beq_self_eq_true _), Nat.zero_add]
      exact hc r
    · rw [if_neg (by simpa using Ne.symm hy), Nat.add_zero]
      exact hs.counted y e (hold he hy) r hr

/-- The frame that is returned was pending for all its dependents, and is so no more. -/
theorem Returned.owes (ht : Tidy b) (h : Returned b k f b') (hk : pending k)
    (hpending : ∀ y g, (info b'.frames y).frame = some g → ∀ x ∈ g.allRefs, pending' x →
      pending x ∧ x ≠ k) : Owes b' pending' := by
  refine ⟨fun y g hg => ?_, fun y g hg r hr => ?_⟩
  · obtain ⟨hy, -, hg'⟩ := h.frame_some hg
    rw [h.info_eq y hy]
    have h1 := hs.missing y g hg'
    have h2 := hs.counted y g hg' k (ht.live_of_frame h.isSome)
    have h3 := countP_add_count_le pending pending' k g.allRefs (hpending y g hg) hk
    dsimp only
    omega
  · obtain ⟨hy, -, hg'⟩ := h.frame_some hg
    by_cases hrm : r ∈ keys b'.frames
    · rw [h.dependentFrames r hrm]
      exact hs.counted y g hg' r (h.after ht hrm hr).2.2
    · rw [info_of_not_mem hrm]
      exact Nat.zero_le _

end Owes

end WebRtc.Video.Frames
