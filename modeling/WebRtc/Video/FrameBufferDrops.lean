import WebRtc.Video.FrameBufferContinuity

/-! Dropped frames. A frame that `InsertFrame` drops before it has registered anything
leaves at most a placeholder behind, which nothing that happens later can see; and as
long as every drop is of that kind, `NextFrame` never meets an entry without a frame. -/

namespace WebRtc.Video.Frames
open SequenceNumber OrderedMap Transition List

variable {b b' b₀ : FrameBuffer} {k y : FrameKey} {f : FrameObject} {m : FrameMap} {r : Inserted}

/-- What relates the backward references, the counters for decodability and the stored
frames. A frame registered with an undecoded frame is stored, or was passed over. -/
structure Linked (b : FrameBuffer) : Prop where
  registered : ∀ y, atOrBefore b.lastDecodedFrame y = false →
    ∀ x ∈ (info b.frames y).dependentFrames,
      (atOrBefore b.lastDecodedFrame x = false ∧ (info b.frames x).frame.isSome = true) ∨
      (atOrBefore b.lastDecodedFrame x = true ∧ x ∉ keys b.frames ∧ x.lt y = true)
  references : ∀ y f, (info b.frames y).frame = some f → ∀ x ∈ f.allRefs,
    (atOrBefore b.lastDecodedFrame x = false ∧ x ∈ keys b.frames) ∨
    (atOrBefore b.lastDecodedFrame x = true ∧ x.lt y = true)
  owes : Owes b fun x => !atOrBefore b.lastDecodedFrame x

structure Sound (b : FrameBuffer) : Prop extends Coherent b where
  linked : Linked b

theorem Linked.of_same (hb : Linked b) (h : SameLinks b b') : Linked b' := by
  have howes := hb.owes.of_same h
  refine ⟨?_, ?_, h.last ▸ howes⟩ <;> rw [h.last, h.keys_eq]
  · intro y hy x hx
    rw [h.dependentFrames] at hx
    rw [h.isSome]
    exact hb.registered y hy x hx
  · intro y f' hf' x hx
    obtain ⟨f, hf, -, he⟩ := h.frame hf'
    exact hb.references y f hf x (he ▸ hx)

/-- An undecoded frame that is not stored is not registered with any undecoded frame. -/
theorem Sound.unregistered (h : Sound b) (hlive : atOrBefore b.lastDecodedFrame k = false)
    (hnone : (info b.frames k).frame = none) (hy : atOrBefore b.lastDecodedFrame y = false) :
    k ∉ (info b.frames y).dependentFrames := by
  intro hk
  rcases h.linked.registered y hy k hk with ⟨-, hs⟩ | ⟨hd, -⟩
  · rw [hnone] at hs; cases hs
  · rw [hlive] at hd; cases hd

/-- A frame that nothing has registered yet is stored, or is dropped and registers nothing. -/
theorem Stored.sound (hs : Sound b) {g : Option FrameObject} {regs : List FrameKey} {m' : FrameMap}
    {c d n : Int} (h : Stored b f.key g regs c d m') (ht : Tidy b')
    (hb' : b' = { b with frames := m', numFramesBuffered := n })
    (hlive : atOrBefore b.lastDecodedFrame f.key = false)
    (hnone : (info b.frames f.key).frame = none)
    (hregs : ∀ k ∈ regs, atOrBefore b.lastDecodedFrame k = false)
    (hg : (g = some f ∧ (∀ r, regs.count r ≤ f.allRefs.count r) ∧
        (f.allRefs.countP (fun x => !atOrBefore b.lastDecodedFrame x) : Int) ≤ d ∧
        ∀ x ∈ f.allRefs, (atOrBefore b.lastDecodedFrame x = false ∧ x ∈ keys m') ∨
          (atOrBefore b.lastDecodedFrame x ∧ x.lt f.key)) ∨ (g = none ∧ regs = [])) :
    Sound b' := by
  have howes := h.owes hs.linked.owes hb' (fun r hr => hs.unregistered hlive hnone hr)
    (hg.imp (fun ⟨h1, h2, h3, _⟩ => ⟨h1, h2, h3⟩) And.left)
  refine ⟨h.coherent hs.toCoherent ht hb' hnone, ?_⟩
  subst hb'
  refine ⟨?_, ?_, howes⟩
  · intro y hy x hx
    rw [h.dependentFrames] at hx
    rcases mem_append.mp hx with hx | hx
    · rcases hs.linked.registered y hy x hx with ⟨h1, h2⟩ | ⟨h1, h2, h3⟩
      · exact .inl ⟨h1, by rw [h.frame, if_neg (ne_of_frame hnone h2)]; exact h2⟩
      refine .inr ⟨h1, fun hk => ?_, h3⟩
      rcases (h.keys_iff x).mp hk with hk | rfl | hk
      · exact h2 hk
      · rw [hlive] at h1; cases h1
      · rw [hregs x hk] at h1; cases h1
    · cases eq_of_mem_replicate hx
      rcases hg with ⟨rfl, -⟩ | ⟨-, rfl⟩
      · exact .inl ⟨hlive, by rw [h.frame, if_pos rfl]; rfl⟩
      · cases hx
  · intro y e he x hx
    rw [h.frame] at he
    split at he
    · next hy =>
      rcases hg with ⟨rfl, -, -, hrefs⟩ | ⟨rfl, -⟩ <;> cases he
      exact hy ▸ hrefs x hx
    · exact (hs.linked.references y e he x hx).imp
        (fun ⟨h1, h2⟩ => ⟨h1, (h.keys_iff x).mpr (.inl h2)⟩) id

/-- What is registered with an undecoded frame is stored, so only stored frames become
continuous. -/
theorem propagateContinuity_sound (hs : Sound b) {key : FrameKey}
    (hframe : (info b.frames key).frame.isSome)
    (h : propagateContinuity key (markContinuous key b) = .ok b') : Sound b' := by
  have hkey := mem_keys_of_frame hframe
  have hset := propagated_markContinuous hkey
  have hnew : ∀ y, atOrBefore b.lastDecodedFrame y = false →
      (info b'.frames y).continuous → (info b.frames y).frame.isSome := by
    intro y hy hc
    unfold propagateContinuity at h
    split at h
    · cases h
    rename_i m _ hloop
    cases h
    rcases propagateLoop_continuous
      (fun k => atOrBefore b.lastDecodedFrame k = false ∧ (info b.frames k).frame.isSome)
      (by
        rintro k ⟨hk, -⟩ d hd hdm
        rw [hset.dependentFrames] at hd
        rw [hset.keys_eq] at hdm
        exact (hs.linked.registered k hk d hd).resolve_right fun h => h.2.1 hdm)
      (by
        intro k hk
        cases mem_singleton.mp hk
        exact ⟨hs.tidy.live_of_frame hframe, hframe⟩) hloop y hc with hc | ⟨-, hc⟩
    · rcases continuous_modify hkey hc with hc | rfl
      · exact hs.continuous y hy hc
      · exact hframe
    · exact hc
  obtain ⟨hc, hp, hb'⟩ := propagateContinuity_coherent hs.toCoherent hframe h hnew
  exact ⟨hc, hs.linked.of_same (hb' ▸ hp.sameLinks _)⟩

/-! ## `InsertFrame` -/

theorem withFrame_sound (hs : Sound b) (hready : Ready b f)
    (hnone : (info b.frames f.key).frame = none)
    (hacc : accepted b.lastDecodedFrame (entered b f) f.refKeys = f.refKeys)
    (h : UpdatedFor b f m) : Sound (withFrame b f m) := by
  have hkey := hready.later
  refine h.stored.sound hs (hready.tidy_withFrame hnone h) rfl hkey hnone
    (fun k hk => allRegistered_new hkey _ hk) (.inl ⟨rfl, fun r => ?_, ?_, fun x hx => ?_⟩)
  · rw [allRegistered_eq hkey hacc]
    exact filter_sublist.count_le r
  · exact Int.le_of_eq (missingDecodable_eq hkey hacc).symm
  · exact (hready.allRefs_placed hacc h hx).imp id fun ⟨h1, _, h3⟩ => ⟨h1, h3⟩

/-- A frame that may be dropped registers nothing before it is. -/
def DropsCleanly (b : FrameBuffer) (f : FrameObject) : Prop :=
  ∀ b₀, admitFrame b f = some b₀ → (info b₀.frames f.key).frame = none →
    accepted b₀.lastDecodedFrame b₀.frames f.refKeys = f.refKeys ∨
      registered b₀.lastDecodedFrame b₀.frames f.refKeys = []

theorem dropped_registers_nothing (hkey : atOrBefore b.lastDecodedFrame f.key = false)
    (hclean : accepted b.lastDecodedFrame b.frames f.refKeys = f.refKeys ∨
      registered b.lastDecodedFrame b.frames f.refKeys = [])
    (hacc : accepted b.lastDecodedFrame (entered b f) f.refKeys ≠ f.refKeys) :
    allRegistered b.lastDecodedFrame (entered b f) f = [] := by
  have hsame : accepted b.lastDecodedFrame (entered b f) f.refKeys =
      accepted b.lastDecodedFrame b.frames f.refKeys := accepted_insertNew hkey _ _
  unfold allRegistered
  rw [if_neg hacc, registered_eq_of_accepted hsame, append_nil]
  exact hclean.resolve_left (hsame ▸ hacc)

theorem storeFrame_sound (hs : Sound b) (hready : Ready b f)
    (hclean : (info b.frames f.key).frame = none →
      accepted b.lastDecodedFrame b.frames f.refKeys = f.refKeys ∨
        registered b.lastDecodedFrame b.frames f.refKeys = []) (h : storeFrame b f = .ok r) :
    Sound r.buffer := by
  cases storeFrame_cases hs.tidy.last_held h with
  | already _ => exact hs
  | dropped hnone hacc hupd =>
    have hregs := dropped_registers_nothing hready.later (hclean hnone) hacc
    exact (hupd.stored_none hnone).sound (n := b.numFramesBuffered) hs (hready.tidy_updated hupd) rfl
      hready.later hnone (fun k hk => allRegistered_new hready.later _ hk) (.inr ⟨rfl, hregs⟩)
  | waits hnone hacc hupd _ => exact withFrame_sound hs hready hnone hacc hupd
  | continuous hnone hacc hupd _ hprop =>
    refine propagateContinuity_sound (withFrame_sound hs hready hnone hacc hupd) ?_ hprop
    rw [hupd.stored.frame, if_pos rfl]
    rfl

theorem clearFramesAndHistory_sound (b : FrameBuffer) : Sound (clearFramesAndHistory b) := by
  refine ⟨clearFramesAndHistory_coherent b, ?_, ?_, ?_, ?_⟩ <;>
    simp [clearFramesAndHistory, info_of_not_mem, OrderedMap.keys]

theorem admit_sound (hs : Sound b) (h : admitFrame b f = some b₀) : Sound b₀ := by
  rcases (admit_cases h).2 with ⟨rfl, -⟩ | ⟨rfl, -⟩
  · exact hs
  · exact clearFramesAndHistory_sound b

theorem insertFrame_sound (hs : Sound b) (hop : Orderly b (.insertFrame f))
    (hclean : DropsCleanly b f) (h : insertFrame b f = .ok r) : Sound r.buffer := by
  unfold insertFrame at h
  split at h
  · cases h; exact hs
  rename_i b₀ hb₀
  exact storeFrame_sound (admit_sound hs hb₀) (hs.tidy.ready hop hb₀) (hclean b₀ hb₀) h

/-! ## `NextFrame` -/

theorem selectFrame_sound {t : Timing} (hs : Sound b) (h : selectFrame t b = .ok b') : Sound b' := by
  have hc := selectFrame_coherent hs.toCoherent h
  obtain ⟨rfl, -⟩ := selectFrame_spec hs.tidy h
  exact ⟨hc, hs.linked.of_same (selected_sameLinks t _ b)⟩

/-- A frame passed over stays so, as seen from a later frame, while the last decoded frame
moves on to `k`. -/
theorem Tidy.stays_decoded (ht : Tidy b) {x : FrameKey} (hk : k ∈ keys b.frames)
    (hlive : atOrBefore b.lastDecodedFrame k = false) (hy : y ∈ keys b.frames) (hky : k.lt y)
    (hxy : x.lt y) (hx : atOrBefore b.lastDecodedFrame x) : k.lt x = false := by
  cases hkx : k.lt x with
  | false => rfl
  | true =>
    obtain ⟨l, hl, hx, hlk⟩ := exists_last hx hlive
    have hwin := (ht.window.between hk hy hky hkx hxy).orderedOn
    have := hwin.trans l k x (.inl (ht.last_held l hl)) (.inl hk) (.inr rfl) hlk hkx
    rw [atOrBefore_some, this] at hx
    cases hx

/-- A frame that misses nothing is not registered with an undecoded frame any more. -/
theorem Sound.not_registered_of_decodable (hs : Sound b) (hf : (info b.frames k).frame = some f)
    (hmiss : (info b.frames k).numMissingDecodable = 0)
    (hy : atOrBefore b.lastDecodedFrame y = false) : k ∉ (info b.frames y).dependentFrames := by
  intro hk
  have h1 := hs.linked.owes.missing k f hf
  have h2 := hs.linked.owes.counted k f hf y hy
  have hzero : f.allRefs.countP (fun x => !atOrBefore b.lastDecodedFrame x) = 0 := by omega
  have hpos := count_pos_iff.mpr hk
  have hmem : y ∈ f.allRefs := count_pos_iff.mp (by omega)
  have := countP_eq_zero.mp hzero y hmem
  rw [hy] at this
  exact this rfl

theorem Returned.sound (hs : Sound b) (h : Returned b k f b') : Sound b' := by
  have hlive := hs.tidy.live_of_frame h.isSome
  have hk := mem_keys_of_frame h.isSome
  obtain ⟨-, hkd⟩ := hs.next h.waiting k h.next
  have hdead : ∀ {y}, y ∈ keys b.frames → k.lt y → ∀ {x}, x ∈ keys b.frames →
      k.lt x = false → x.lt y := by
    intro y hy hky x hx hkx
    by_cases he : x = k
    · rw [he]; exact hky
    · exact hs.tidy.ordered.trans x k y hx hk hy (FrameKey.lt_of_not_lt he hkx) hky
  have hlater : ∀ {y g}, (info b'.frames y).frame = some g →
      k.lt y ∧ y ∈ keys b.frames ∧ (info b.frames y).frame = some g := by
    intro y g hg
    obtain ⟨hy, -, hg'⟩ := h.frame_some hg
    obtain ⟨hky, hym, -⟩ := h.after hs.tidy hy (h.tidy.live_of_frame (by rw [hg]; rfl))
    exact ⟨hky, hym, hg'⟩
  refine ⟨h.coherent hs.toCoherent, ?_, ?_, h.owes hs.linked.owes hs.tidy (by rw [hlive]; rfl) ?_⟩
  · intro y hyl x hx
    have hy := mem_keys_of_dependent hx
    obtain ⟨hky, hym, hyl⟩ := h.after hs.tidy hy hyl
    rw [h.dependentFrames y hy] at hx
    rw [h.past]
    rcases hs.linked.registered y hyl x hx with ⟨hxl, hxs⟩ | ⟨hxd, hxm, hxy⟩
    · have hxk : x ≠ k := by
        rintro rfl
        exact hs.not_registered_of_decodable h.stored hkd hyl hx
      have hxm := mem_keys_of_frame hxs
      cases hkx : k.lt x with
      | true =>
        refine .inl ⟨rfl, ?_⟩
        rw [h.frame x (h.kept x hxm hkx), if_neg hxk]
        exact hxs
      | false =>
        exact .inr ⟨rfl, h.erased x hxl (FrameKey.lt_of_not_lt hxk hkx), hdead hym hky hxm hkx⟩
    · rw [hs.tidy.stays_decoded hk hlive hym hky hxy hxd]
      exact .inr ⟨rfl, fun hx => hxm (h.subset x hx), hxy⟩
  · intro y g hg x hx
    obtain ⟨hky, hym, hg'⟩ := hlater hg
    rw [h.past]
    rcases hs.linked.references y g hg' x hx with ⟨-, hxm⟩ | ⟨hxd, hxy⟩
    · cases hkx : k.lt x with
      | true => exact .inl ⟨rfl, h.kept x hxm hkx⟩
      | false => exact .inr ⟨rfl, hdead hym hky hxm hkx⟩
    · rw [hs.tidy.stays_decoded hk hlive hym hky hxy hxd]
      exact .inr ⟨rfl, hxy⟩
  · intro y g hg x hx hxl
    obtain ⟨hky, hym, hg'⟩ := hlater hg
    rw [h.past, Bool.not_not] at hxl
    refine ⟨?_, FrameKey.ne_of_lt hxl⟩
    rcases hs.linked.references y g hg' x hx with ⟨hxl', -⟩ | ⟨hxd, hxy⟩
    · rw [hxl']; rfl
    · rw [hs.tidy.stays_decoded hk hlive hym hky hxy hxd] at hxl
      cases hxl

theorem Sound.setFlags (hs : Sound b) {waiting stopped : Bool} (hw : waiting → b.waiting) :
    Sound { b with waiting, stopped } :=
  ⟨hs.toCoherent.setFlags hw, hs.linked.of_same ⟨rfl, rfl, fun _ => rfl, fun _ => rfl, fun _ => rfl⟩⟩

theorem returnFrame_sound {out : Option FrameObject} (hs : Sound b)
    (h : returnFrame b = .ok (b', out)) : Sound b' := by
  cases out with
  | some f =>
    obtain ⟨k, hk⟩ := returnFrame_returned hs.tidy h
    exact hk.sound hs
  | none =>
    rcases returnFrame_cases h with ⟨-, rfl | rfl⟩ | ⟨_, _, _, _, _, _, _, h, -⟩
    · exact hs
    · exact hs.setFlags fun h => nomatch h
    · cases h

/-- Orderly calls whose dropped frames register nothing. -/
def Sane (b : FrameBuffer) (op : Op) : Prop :=
  Orderly b op ∧ match op with
    | .insertFrame f => DropsCleanly b f
    | _ => True

instance : (op : Op) → Decidable (Sane b op)
  | .insertFrame f =>
    have : Decidable (DropsCleanly b f) :=
      inferInstanceAs (Decidable (∀ b₀ ∈ admitFrame b f, _ → _ ∨ _))
    inferInstanceAs (Decidable (_ ∧ _))
  | .selectFrame _ | .returnFrame | .start | .stop => inferInstanceAs (Decidable (_ ∧ True))

theorem step_sound {op : Op} (hs : Sound b) (hop : Sane b op) (h : Steps b op b') : Sound b' := by
  obtain ⟨_, h⟩ := h
  cases op with
  | insertFrame f =>
    simp only [step] at h
    split at h
    · cases h
    · next hr => cases h; exact insertFrame_sound hs hop.1 hop.2 hr
  | selectFrame t =>
    simp only [step] at h
    split at h
    · cases h
    · next hr => cases h; exact selectFrame_sound hs hr
  | returnFrame =>
    simp only [step] at h
    split at h
    · cases h
    · next hr => cases h; exact returnFrame_sound hs hr
  | start | stop => cases h; exact hs.setFlags id

theorem reaches_sound (h : Reaches (Guarded Sane Steps) {} b) : Sound b :=
  h.invariant Sound (clearFramesAndHistory_sound {})
    fun _ _ _ hs ⟨hop, hstep⟩ => step_sound hs hop hstep

end WebRtc.Video.Frames
