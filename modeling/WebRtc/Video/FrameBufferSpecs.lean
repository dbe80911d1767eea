import WebRtc.Video.FrameKeys

/-! What each part of the frame buffer does to the map, one statement for each function;
the invariants are proved from these. -/

namespace WebRtc.Video.Frames
open SequenceNumber OrderedMap List FrameInfo

variable {m m' m'' : FrameMap} {k r key d last' : FrameKey} {last : Option FrameKey}
  {R : FrameKey → Prop} {c : Int} {regs deps queue queue' : List FrameKey} {fuel : Nat}

/-! ## Reading an entry after a write -/

@[simp] theorem info_insertNew (m : FrameMap) (j k : FrameKey) :
    info (insertNew FrameKey.lt j {} m) k = info m k :=
  getD_find_insertNew _ _ _ _ _

theorem info_modify {j : FrameKey} (hj : j ∈ keys m) (f : FrameInfo → FrameInfo) (k : FrameKey) :
    info (modify j f m) k = if k = j then f (info m j) else info m k := by
  unfold info
  rw [find_modify]
  split
  · next h =>
    obtain ⟨i, hi⟩ := Option.isSome_iff_exists.mp ((find_isSome_iff j m).mpr hj)
    rw [h, hi]
    rfl
  · rfl

/-- A change that leaves `g` alone can be read through. -/
theorem info_modify_same {α : Type} (g : FrameInfo → α) (f : FrameInfo → FrameInfo)
    (hf : ∀ i, g (f i) = g i) (m : FrameMap) (j k : FrameKey) :
    g (info (modify j f m) k) = g (info m k) := by
  unfold info
  rw [find_modify]
  split
  · next h =>
    rw [h]
    cases find j m with
    | none => rfl
    | some i => exact hf i
  · rfl

theorem info_of_find {i : FrameInfo} (h : find k m = some i) : info m k = i := by
  unfold info
  rw [h]
  rfl

theorem find_of_mem_keys (h : k ∈ keys m) : find k m = some (info m k) := by
  obtain ⟨i, hi⟩ := Option.isSome_iff_exists.mp ((find_isSome_iff k m).mpr h)
  rw [info_of_find hi, hi]

theorem info_of_not_mem (h : k ∉ keys m) : info m k = {} := by
  unfold info
  rw [(find_eq_none_iff k m).mpr h]
  rfl

theorem mem_keys_of_frame (h : (info m k).frame.isSome) : k ∈ keys m := by
  by_contra hk
  rw [info_of_not_mem hk] at h
  cases h

theorem mem_iff_info {e : FrameKey × FrameInfo} (hn : (keys m).Nodup) (hf : e.2.frame.isSome) :
    e ∈ m ↔ info m e.1 = e.2 := by
  refine ⟨fun he => info_of_find (find_of_mem hn he), fun he => mem_of_find ?_⟩
  rw [← he] at hf
  rw [find_of_mem_keys (mem_keys_of_frame hf), he]

/-! ## Which references are registered -/

/-- The references up to the first one that was neither decoded nor can be any more. -/
def accepted (last : Option FrameKey) (m : FrameMap) (refs : List FrameKey) : List FrameKey :=
  refs.takeWhile fun r => !(atOrBefore last r && (find r m).isNone)

/-- The references that get a backward reference: the accepted ones not decoded yet. -/
def registered (last : Option FrameKey) (m : FrameMap) (refs : List FrameKey) : List FrameKey :=
  (accepted last m refs).filter fun r => !atOrBefore last r

theorem accepted_congr (refs : List FrameKey)
    (h : ∀ r, atOrBefore last r → (r ∈ keys m' ↔ r ∈ keys m)) :
    accepted last m' refs = accepted last m refs := by
  have hp : ∀ r, (atOrBefore last r && (find r m').isNone) =
      (atOrBefore last r && (find r m).isNone) := by
    intro r
    cases hr : atOrBefore last r with
    | false => rfl
    | true =>
      have := h r hr
      rw [← find_isSome_iff, ← find_isSome_iff] at this
      cases h1 : find r m' <;> cases h2 : find r m <;> simp_all
  unfold accepted
  simp only [hp]

theorem accepted_insertNew (hr : atOrBefore last r = false) (m : FrameMap) (refs : List FrameKey) :
    accepted last (insertNew FrameKey.lt r {} m) refs = accepted last m refs := by
  refine accepted_congr refs fun j hj => ?_
  rw [mem_keys_insertNew]
  refine ⟨fun h => h.resolve_left ?_, .inr⟩
  rintro rfl
  rw [hr] at hj
  cases hj

theorem accepted_modify (last : Option FrameKey) (m : FrameMap) (k : FrameKey)
    (f : FrameInfo → FrameInfo) (refs : List FrameKey) :
    accepted last (modify k f m) refs = accepted last m refs :=
  accepted_congr refs fun _ _ => by rw [keys_modify]

theorem accepted_cons_held (last : Option FrameKey) (hm : r ∈ keys m) (refs : List FrameKey) :
    accepted last m (r :: refs) = r :: accepted last m refs := by
  have := (find_isSome_iff r m).mpr hm
  simp [accepted, takeWhile_cons, Option.isNone_eq_false_iff.mpr this]

theorem accepted_cons_missing (hr : atOrBefore last r) (hm : r ∉ keys m)
    (refs : List FrameKey) : accepted last m (r :: refs) = [] := by
  have := (find_eq_none_iff r m).mpr hm
  simp [accepted, hr, this]

theorem accepted_cons_new (hr : atOrBefore last r = false) (m : FrameMap) (refs : List FrameKey) :
    accepted last m (r :: refs) = r :: accepted last m refs := by
  simp [accepted, hr]

/-! ## Edits that keep every stored frame -/

/-- `m'` comes from `m` by placeholders for keys in `R` and by changes to entries that do
not touch the stored frame. -/
inductive Edited (R : FrameKey → Prop) (m : FrameMap) : FrameMap → Prop
  | refl : Edited R m m
  | placeholder {m' : FrameMap} {r : FrameKey} : R r → Edited R m m' →
      Edited R m (insertNew FrameKey.lt r {} m')
  | modify {m' : FrameMap} (k : FrameKey) (f : FrameInfo → FrameInfo) :
      (∀ i, (f i).frame = i.frame) → Edited R m m' → Edited R m (modify k f m')

variable (h : Edited R m m')
include h

theorem Edited.trans (h' : Edited R m' m'') : Edited R m m'' := by
  induction h' with
  | refl => exact h
  | placeholder hr _ ih => exact .placeholder hr ih
  | modify k f hf _ ih => exact .modify k f hf ih

theorem Edited.mono {R' : FrameKey → Prop} (hsub : ∀ r, R r → R' r) : Edited R' m m' := by
  induction h with
  | refl => exact .refl
  | placeholder hr _ ih => exact .placeholder (hsub _ hr) ih
  | modify k f hf _ ih => exact .modify k f hf ih

theorem Edited.mem_keys (hk : k ∈ keys m') : k ∈ keys m ∨ R k := by
  induction h with
  | refl => exact .inl hk
  | placeholder hr _ ih =>
    rcases (mem_keys_insertNew _ _ _ _ _).mp hk with rfl | hk
    · exact .inr hr
    · exact ih hk
  | modify j f hf _ ih => rw [keys_modify] at hk; exact ih hk

theorem Edited.keys_subset (hk : k ∈ keys m) : k ∈ keys m' := by
  induction h with
  | refl => exact hk
  | placeholder hr _ ih => exact (mem_keys_insertNew _ _ _ _ _).mpr (.inr ih)
  | modify j f hf _ ih => rw [keys_modify]; exact ih

theorem Edited.frame (k : FrameKey) : (info m' k).frame = (info m k).frame := by
  induction h with
  | refl => rfl
  | placeholder hr _ ih => rw [info_insertNew]; exact ih
  | modify j f hf _ ih => exact (info_modify_same (·.frame) f hf _ j k).trans ih

theorem Edited.sorted (hs : Sorted FrameKey.lt m)
    (hw : InWindow fun k => k ∈ keys m ∨ R k) : Sorted FrameKey.lt m' := by
  induction h with
  | refl => exact hs
  | @placeholder m' r hr hm ih =>
    refine ih.insertNew r {} (hw.mono ?_).orderedOn
    rintro k (rfl | hk)
    · exact .inr hr
    · exact hm.mem_keys hk
  | modify k f _ _ ih => exact (sorted_modify k f).mpr ih

theorem Edited.countP (p : FrameKey × FrameInfo → Bool) (hnew : ∀ r, R r → p (r, {}) = false)
    (hsame : ∀ k i i', i.frame = i'.frame → p (k, i) = p (k, i')) : m'.countP p = m.countP p := by
  induction h with
  | refl => rfl
  | placeholder hr _ ih => rw [countP_insertNew p _ _ _ _ (hnew _ hr), ih]
  | modify k f hf _ ih => rw [countP_modify_same p k f _ fun i => hsame k _ _ (hf i), ih]

/-! ## `UpdateFrameInfoWithIncomingFrame` -/

omit h

/-- From `m` to `m'` the frame `key` was registered with each of `regs`, and its two
counters of missing references changed by `c` and `d`. -/
structure Registers (key : FrameKey) (regs : List FrameKey) (c d : Int) (m m' : FrameMap) :
    Prop where
  edited : Edited (· ∈ regs) m m'
  held : ∀ k ∈ regs, k ∈ keys m'
  info_eq : ∀ k, info m' k = { info m k with
    dependentFrames := (info m k).dependentFrames ++ List.replicate (regs.count k) key
    numMissingContinuous := (info m k).numMissingContinuous + if k = key then c else 0
    numMissingDecodable := (info m k).numMissingDecodable + if k = key then d else 0 }

theorem Registers.refl (key : FrameKey) (m : FrameMap) : Registers key [] 0 0 m m where
  edited := .refl
  held := by simp
  info_eq := by simp

theorem Registers.trans {r r' : List FrameKey} {c' d d' : Int} (h : Registers key r c d m m')
    (h' : Registers key r' c' d' m' m'') : Registers key (r ++ r') (c + c') (d + d') m m'' where
  edited := (h.edited.mono (by simp_all)).trans (h'.edited.mono (by simp_all))
  held k hk := by
    rcases mem_append.mp hk with hk | hk
    · exact h'.edited.keys_subset (h.held k hk)
    · exact h'.held k hk
  info_eq k := by
    rw [h'.info_eq, h.info_eq, count_append, ← replicate_append_replicate, append_assoc]
    by_cases hk : k = key <;> simp [hk, Int.add_assoc]

theorem registers_addMissing (hkey : key ∈ keys m) (c d : Int) :
    Registers key [] c d m (modify key (·.addMissing c d) m) where
  edited := .modify key _ (fun _ => rfl) .refl
  held := by simp
  info_eq k := by
    rw [info_modify hkey]
    split
    · next h => simp [h, addMissing]
    · simp

/-- A placeholder, if there is no entry yet, with one backward reference more. -/
theorem registers_addDependent (key r : FrameKey) (m : FrameMap) : Registers key [r] 0 0 m
      (modify r (·.addDependent key) (insertNew FrameKey.lt r {} m)) := by
  have hr : r ∈ keys (insertNew FrameKey.lt r {} m) :=
    (mem_keys_insertNew _ _ _ _ _).mpr (.inl rfl)
  refine ⟨.modify r _ (fun _ => rfl) (.placeholder (by simp) .refl), by simpa using hr, fun k => ?_⟩
  rw [info_modify hr, info_insertNew, info_insertNew]
  split
  · next h => simp [h, addDependent]
  · next h => simp [Ne.symm h]

/-- How many of `regs` are not continuous. -/
def pendingOf (m : FrameMap) (regs : List FrameKey) : Nat :=
  regs.countP fun r => !(info m r).continuous

/-- The map after one reference `r` that is not decoded yet. -/
def addReference (key r : FrameKey) (m : FrameMap) : FrameMap :=
  modify r (·.addDependent key) (insertNew FrameKey.lt r {}
    (if (info m r).continuous then modify key (·.addMissing (-1) 0) m else m))

theorem registers_addReference (r : FrameKey) (hkey : key ∈ keys m) :
    Registers key [r] (pendingOf m [r] - 1) ([r].length - 1) m (addReference key r m) := by
  unfold addReference pendingOf
  rw [countP_singleton]
  cases (info m r).continuous with
  | true => exact (registers_addMissing hkey (-1) 0).trans (registers_addDependent key r _)
  | false => exact registers_addDependent key r m

/-- Both places that register a reference do it in this way. -/
theorem addBackwardReference_eq (r : FrameKey) (hkey : key ∈ keys m) : addBackwardReference key r
        (if (info (insertNew FrameKey.lt r {} m) r).continuous
          then modify key (·.addMissing (-1) 0) (insertNew FrameKey.lt r {} m)
          else insertNew FrameKey.lt r {} m) =
      if (info m r).dependentFrames.length < kMaxNumDependentFrames
        then .ok (addReference key r m) else .error .dependentFramesOverflow := by
  have hmap : (if (info (insertNew FrameKey.lt r {} m) r).continuous
        then modify key (·.addMissing (-1) 0) (insertNew FrameKey.lt r {} m)
        else insertNew FrameKey.lt r {} m) = insertNew FrameKey.lt r {}
      (if (info m r).continuous then modify key (·.addMissing (-1) 0) m else m) := by
    rw [info_insertNew]
    split
    · exact modify_insertNew _ _ _ _ hkey
    · rfl
  have hdeps : (info (if (info m r).continuous then modify key (·.addMissing (-1) 0) m else m)
      r).dependentFrames = (info m r).dependentFrames := by
    split
    · simp [(registers_addMissing hkey (-1) 0).info_eq]
    · rfl
  rw [hmap]
  unfold addBackwardReference
  rw [info_insertNew, hdeps]
  rfl

/-- Every list of dependent frames has room for the registrations. -/
def Fits (m : FrameMap) (regs : List FrameKey) : Prop :=
  ∀ k ∈ regs, (info m k).dependentFrames.length + regs.count k ≤ kMaxNumDependentFrames

instance (m : FrameMap) (regs : List FrameKey) : Decidable (Fits m regs) :=
  inferInstanceAs (Decidable (∀ k ∈ regs, _ ≤ kMaxNumDependentFrames))

theorem fits_nil (m : FrameMap) : Fits m [] := by simp [Fits]

theorem fits_append {regs' : List FrameKey} {d : Int} (h : Registers key regs c d m m')
    (hfit : Fits m regs) : Fits m (regs ++ regs') ↔ Fits m' regs' := by
  have hlen : ∀ k, (info m' k).dependentFrames.length =
      (info m k).dependentFrames.length + regs.count k := by
    intro k
    simp [h.info_eq]
  constructor
  · intro ha k hk
    have := ha k (mem_append_right _ hk)
    rw [count_append] at this
    rw [hlen]
    omega
  intro hb k hk
  rw [count_append]
  by_cases hk' : k ∈ regs'
  · have := hb k hk'
    rw [hlen] at this
    omega
  have := hfit k ((mem_append.mp hk).resolve_right hk')
  rw [count_eq_zero_of_not_mem hk']
  omega

theorem fits_singleton (m : FrameMap) (r : FrameKey) :
    Fits m [r] ↔ (info m r).dependentFrames.length < kMaxNumDependentFrames := by
  simp only [Fits, mem_singleton, forall_eq, count_singleton_self]
  omega

theorem fits_cons (key r : FrameKey) (hkey : key ∈ keys m) (regs : List FrameKey) :
    Fits m (r :: regs) ↔ (info m r).dependentFrames.length < kMaxNumDependentFrames ∧
      Fits (addReference key r m) regs := by
  have hreg := registers_addReference r hkey
  rw [← fits_singleton]
  by_cases h : Fits m [r]
  · rw [show r :: regs = [r] ++ regs from rfl, fits_append hreg h]
    exact ⟨fun h' => ⟨h, h'⟩, And.right⟩
  refine ⟨fun hf => absurd ?_ h, fun hf => absurd hf.1 h⟩
  intro k hk
  cases mem_singleton.mp hk
  have := hf r (.head _)
  rw [count_cons_self] at this
  rw [count_singleton_self]
  omega

theorem Registers.accepted {d : Int} (h : Registers key regs c d m m')
    (hnew : ∀ r ∈ regs, atOrBefore last r = false) (refs : List FrameKey) :
    accepted last m' refs = accepted last m refs := by
  refine accepted_congr refs fun r hr => ⟨fun hr' => ?_, h.edited.keys_subset⟩
  rcases h.edited.mem_keys hr' with hm | hm
  · exact hm
  · rw [hnew r hm] at hr; cases hr

theorem Registers.pendingOf {d : Int} (h : Registers key regs c d m m') (rs : List FrameKey) :
    pendingOf m' rs = pendingOf m rs := by
  simp only [Frames.pendingOf, h.info_eq]

/-- The loop over the references, in closed form: of the accepted references only the
registered ones stay missing, and for continuity only those that are not continuous. -/
def ReferencesAdded (last : Option FrameKey) (key : FrameKey) (refs : List FrameKey)
    (m m' : FrameMap) : Prop :=
  Registers key (registered last m refs)
    (pendingOf m (registered last m refs) - (accepted last m refs).length)
    ((registered last m refs).length - (accepted last m refs).length) m m'

theorem registered_eq_of_accepted {refs : List FrameKey}
    (h : accepted last m' refs = accepted last m refs) :
    registered last m' refs = registered last m refs := by
  unfold registered
  rw [h]

/-- One reference that adds `rs` to the registrations, and then the rest. -/
theorem ReferencesAdded.cons {refs rs : List FrameKey} {m₁ : FrameMap}
    (hreg : Registers key rs (pendingOf m rs - 1) (rs.length - 1) m m₁)
    (hnew : ∀ k ∈ rs, atOrBefore last k = false)
    (hacc : accepted last m (r :: refs) = r :: accepted last m refs)
    (hrs : registered last m (r :: refs) = rs ++ registered last m refs)
    (h : ReferencesAdded last key refs m₁ m') : ReferencesAdded last key (r :: refs) m m' := by
  have hacc₁ := hreg.accepted hnew refs
  unfold ReferencesAdded at h ⊢
  rw [registered_eq_of_accepted hacc₁, hacc₁, hreg.pendingOf] at h
  have htrans := hreg.trans h
  have hp : pendingOf m (rs ++ registered last m refs) =
      pendingOf m rs + pendingOf m (registered last m refs) := by
    simp only [pendingOf, countP_append]
  rw [hrs, hacc, hp, length_append, length_cons]
  convert htrans using 1 <;> push_cast <;> omega

theorem updateReferences_held (key : FrameKey) (refs : List FrameKey)
    (hr : atOrBefore last r) (hm : r ∈ keys m) : updateReferences last key (r :: refs) m =
      updateReferences last key refs (modify key (·.addMissing (-1) (-1)) m) := by
  have hfind := Option.isNone_eq_false_iff.mpr ((find_isSome_iff r m).mpr hm)
  conv_lhs => unfold updateReferences
  rw [if_pos hr, if_neg (by rw [hfind]; exact Bool.false_ne_true)]

theorem updateReferences_missing (key : FrameKey) (refs : List FrameKey)
    (hr : atOrBefore last r) (hm : r ∉ keys m) :
    updateReferences last key (r :: refs) m = .ok (m, false) := by
  unfold updateReferences
  rw [if_pos hr, if_pos (by rw [(find_eq_none_iff r m).mpr hm]; rfl)]

theorem updateReferences_new (refs : List FrameKey) (hr : atOrBefore last r = false)
    (hkey : key ∈ keys m) : updateReferences last key (r :: refs) m =
      if (info m r).dependentFrames.length < kMaxNumDependentFrames
        then updateReferences last key refs (addReference key r m)
        else .error .dependentFramesOverflow := by
  conv_lhs => unfold updateReferences
  rw [if_neg (by rw [hr]; exact Bool.false_ne_true)]
  dsimp only
  rw [addBackwardReference_eq r hkey]
  by_cases hroom : (info m r).dependentFrames.length < kMaxNumDependentFrames
  · rw [if_pos hroom, if_pos hroom]
  · rw [if_neg hroom, if_neg hroom]

theorem updateReferences_spec (last : Option FrameKey) (refs : List FrameKey) (hkey : key ∈ keys m) :
    (Fits m (registered last m refs) → ∃ m', updateReferences last key refs m =
        .ok (m', decide (accepted last m refs = refs)) ∧ ReferencesAdded last key refs m m') ∧
    (¬ Fits m (registered last m refs) →
      updateReferences last key refs m = .error .dependentFramesOverflow) := by
  induction refs generalizing m with
  | nil =>
    exact ⟨fun _ => ⟨m, rfl, Registers.refl key m⟩, fun h => absurd (fits_nil m) h⟩
  | cons r refs ih =>
    cases hr : atOrBefore last r with
    | true =>
      by_cases hm : r ∈ keys m
      · -- decoded already: nothing is registered
        have hreg := registers_addMissing hkey (-1) (-1)
        have hacc := accepted_cons_held last hm refs
        have hrs : registered last m (r :: refs) = [] ++ registered last m refs := by
          simp [registered, hacc, hr]
        have hacc₁ := accepted_modify last m key (·.addMissing (-1) (-1)) refs
        obtain ⟨ih1, ih2⟩ := ih (m := modify key (·.addMissing (-1) (-1)) m)
          (by rw [keys_modify]; exact hkey)
        rw [registered_eq_of_accepted hacc₁] at ih1 ih2
        rw [updateReferences_held key refs hr hm, hrs, fits_append hreg (fits_nil m)]
        refine ⟨fun h => ?_, ih2⟩
        obtain ⟨m', hm', hadd⟩ := ih1 h
        refine ⟨m', ?_, hadd.cons hreg (by simp) hacc hrs⟩
        rw [hm', hacc₁, hacc]
        simp
      · have hacc := accepted_cons_missing hr hm refs
        have hrs : registered last m (r :: refs) = [] := by simp [registered, hacc]
        rw [updateReferences_missing key refs hr hm, hrs]
        refine ⟨fun _ => ⟨m, by rw [hacc]; simp, ?_⟩, fun h => absurd (fits_nil m) h⟩
        unfold ReferencesAdded
        rw [hrs, hacc]
        exact Registers.refl key m
    | false =>
      have hreg := registers_addReference r hkey
      have hacc := accepted_cons_new hr m refs
      have hnew : ∀ k ∈ [r], atOrBefore last k = false := by simpa using hr
      have hrs : registered last m (r :: refs) = [r] ++ registered last m refs := by
        simp [registered, hacc, hr]
      have hacc₁ := hreg.accepted hnew refs
      obtain ⟨ih1, ih2⟩ := ih (m := addReference key r m) (hreg.edited.keys_subset hkey)
      rw [registered_eq_of_accepted hacc₁] at ih1 ih2
      rw [updateReferences_new refs hr hkey, hrs, singleton_append, fits_cons key r hkey]
      by_cases hroom : (info m r).dependentFrames.length < kMaxNumDependentFrames
      · rw [if_pos hroom]
        refine ⟨fun h => ?_, fun h => ih2 fun h' => h ⟨hroom, h'⟩⟩
        obtain ⟨m', hm', hadd⟩ := ih1 h.2
        refine ⟨m', ?_, hadd.cons ?_ hnew hacc hrs⟩
        · rw [hm', hacc₁, hacc]
          simp
        · exact hreg
      · rw [if_neg hroom]
        exact ⟨fun h => absurd h.1 hroom, fun _ => rfl⟩

/-- The lower layer gets a backward reference unless it is the last decoded frame. -/
def registeredLower (last : Option FrameKey) (frame : FrameObject) : List FrameKey :=
  if frame.interLayerPredicted = true ∧ last ≠ some frame.lowerLayer then [frame.lowerLayer] else []

theorem insertNew_of_mem (h : r ∈ keys m) : insertNew FrameKey.lt r {} m = m := by
  unfold insertNew
  rw [if_pos ((find_isSome_iff r m).mpr h)]

theorem updateLowerLayer_spec (last : Option FrameKey) (r : FrameKey) (hkey : key ∈ keys m) :
    (Fits m (if last ≠ some r then [r] else []) → ∃ m', updateLowerLayer last key r m = .ok m' ∧
      ((last = some r → r ∈ keys m) → Registers key (if last ≠ some r then [r] else [])
        (pendingOf m [r]) (if last ≠ some r then [r] else []).length m m')) ∧
    (¬ Fits m (if last ≠ some r then [r] else []) →
      updateLowerLayer last key r m = .error .dependentFramesOverflow) := by
  have hinc := registers_addMissing hkey 1 1
  have hkey₁ : key ∈ keys (modify key (·.addMissing 1 1) m) := by rw [keys_modify]; exact hkey
  unfold updateLowerLayer
  by_cases hl : last = some r
  · -- the lower layer is the last decoded frame
    rw [if_pos hl, if_neg (not_not.mpr hl)]
    refine ⟨fun _ => ⟨_, rfl, fun hlast => ?_⟩, fun h => absurd (fits_nil m) h⟩
    have hr : r ∈ keys (modify key (·.addMissing 1 1) m) := by rw [keys_modify]; exact hlast hl
    rw [insertNew_of_mem hr]
    have hp := hinc.pendingOf [r]
    unfold pendingOf at hp ⊢
    rw [countP_singleton, countP_singleton] at hp
    rw [countP_singleton]
    cases hc : (info (modify key (·.addMissing 1 1) m) r).continuous with
    | true =>
      have hdec := registers_addMissing hkey₁ (-1) 0
      have hlast := registers_addMissing (hdec.edited.keys_subset hkey₁) 0 (-1)
      rw [hc] at hp
      rw [← hp]
      exact (hinc.trans hdec).trans hlast
    | false =>
      rw [hc] at hp
      rw [← hp]
      exact hinc.trans (registers_addMissing hkey₁ 0 (-1))
  · have hfit : (info (modify key (·.addMissing 1 1) m) r).dependentFrames.length <
        kMaxNumDependentFrames ↔ Fits m [r] := by
      rw [← fits_singleton, ← fits_append hinc (fits_nil m)]
      rfl
    rw [if_neg hl, if_pos hl, addBackwardReference_eq r hkey₁]
    refine ⟨fun h => ?_, fun h => by rw [if_neg (mt hfit.mp h)]⟩
    refine ⟨_, by rw [if_pos (hfit.mpr h)], fun _ => ?_⟩
    have hadd := hinc.trans (registers_addReference r hkey₁)
    rw [hinc.pendingOf] at hadd
    have hc : 1 + ((pendingOf m [r] : Int) - 1) = pendingOf m [r] := by omega
    rw [hc] at hadd
    exact hadd

/-- From `m` to `m'` the frame `key` was registered with each of `regs`, and its two
counters of missing references are `c` and `d` now. -/
structure Updated (key : FrameKey) (regs : List FrameKey) (c d : Int) (m m' : FrameMap) :
    Prop where
  edited : Edited (· ∈ regs) m m'
  held : ∀ k ∈ regs, k ∈ keys m'
  info_eq : ∀ k, info m' k = { info m k with
    dependentFrames := (info m k).dependentFrames ++ List.replicate (regs.count k) key
    numMissingContinuous := if k = key then c else (info m k).numMissingContinuous
    numMissingDecodable := if k = key then d else (info m k).numMissingDecodable }

theorem info_setMissing (hkey : key ∈ keys m) (n : Int) (k : FrameKey) :
    info (modify key (·.setMissing n) m) k =
      if k = key then (info m k).setMissing n else info m k := by
  rw [info_modify hkey]
  split
  · next h => rw [h]
  · rfl

theorem Registers.updated {d n : Int} (hkey : key ∈ keys m)
    (h : Registers key regs c d (modify key (·.setMissing n) m) m') :
    Updated key regs (n + c) (n + d) m m' where
  edited := (Edited.modify key (·.setMissing n) (fun _ => rfl) .refl).trans h.edited
  held := h.held
  info_eq k := by
    rw [h.info_eq, info_setMissing hkey]
    by_cases hk : k = key <;> simp [hk, setMissing]

/-- All keys with which `frame` gets registered. -/
def allRegistered (last : Option FrameKey) (m : FrameMap) (frame : FrameObject) : List FrameKey :=
  registered last m frame.refKeys ++
    if accepted last m frame.refKeys = frame.refKeys then registeredLower last frame else []

/-- The references missing for continuity after the update. -/
def missingContinuous (last : Option FrameKey) (m : FrameMap) (frame : FrameObject) : Int :=
  frame.references.length - (accepted last m frame.refKeys).length +
    pendingOf m (registered last m frame.refKeys) +
    if accepted last m frame.refKeys = frame.refKeys ∧ frame.interLayerPredicted = true
      then pendingOf m [frame.lowerLayer] else 0

/-- The references missing for decodability after the update. -/
def missingDecodable (last : Option FrameKey) (m : FrameMap) (frame : FrameObject) : Int :=
  frame.references.length - (accepted last m frame.refKeys).length +
    (allRegistered last m frame).length

/-- `UpdateFrameInfoWithIncomingFrame` overflows a list of dependent frames exactly when
the registrations do not fit, and otherwise does what `Updated` says. -/
theorem updateFrameInfoWithIncomingFrame_spec (last : Option FrameKey) (frame : FrameObject)
    (hkey : frame.key ∈ keys m) : (Fits m (allRegistered last m frame) →
      ∃ m', updateFrameInfoWithIncomingFrame last frame m =
          .ok (m', decide (accepted last m frame.refKeys = frame.refKeys)) ∧
        ((∀ l, last = some l → l ∈ keys m) →
          Updated frame.key (allRegistered last m frame) (missingContinuous last m frame)
            (missingDecodable last m frame) m m')) ∧ (¬ Fits m (allRegistered last m frame) →
      updateFrameInfoWithIncomingFrame last frame m = .error .dependentFramesOverflow) := by
  have hset := info_setMissing hkey frame.references.length
  unfold updateFrameInfoWithIncomingFrame missingDecodable missingContinuous allRegistered
  dsimp only
  generalize hm₀ : modify frame.key (·.setMissing frame.references.length) m = m₀ at hset
  have hkey₀ : frame.key ∈ keys m₀ := by rw [← hm₀, keys_modify]; exact hkey
  have hacc : accepted last m₀ frame.refKeys = accepted last m frame.refKeys := by
    rw [← hm₀]; exact accepted_modify _ _ _ _ _
  have hregs := registered_eq_of_accepted hacc
  have hpend : ∀ rs, pendingOf m₀ rs = pendingOf m rs := by
    intro rs
    simp only [pendingOf, hset]
    congr 1
    funext r
    split <;> rfl
  have hfits : ∀ rs, Fits m₀ rs ↔ Fits m rs := by
    intro rs
    simp only [Fits, hset]
    refine forall₂_congr fun k _ => ?_
    split <;> rfl
  obtain ⟨hok, herr⟩ := updateReferences_spec last frame.refKeys hkey₀
  unfold ReferencesAdded at hok
  rw [hregs, hacc, hpend, hfits] at hok
  rw [hregs, hfits] at herr
  by_cases hfit : Fits m (registered last m frame.refKeys)
  · obtain ⟨m₁, hm₁, hadd⟩ := hok hfit
    have hfits₁ (rs : List FrameKey) :
        Fits m₀ (registered last m frame.refKeys ++ rs) ↔ Fits m₁ rs :=
      fits_append hadd ((hfits _).mpr hfit)
    have hkey₁ := hadd.edited.keys_subset hkey₀
    rw [hm₁]
    by_cases hall : accepted last m frame.refKeys = frame.refKeys
    · rw [if_pos hall, decide_eq_true hall, ← hfits, hfits₁]
      unfold registeredLower
      cases hinter : frame.interLayerPredicted with
      | true =>
        obtain ⟨hlow, hlowErr⟩ := updateLowerLayer_spec last frame.lowerLayer hkey₁
        simp only [hall, true_and, and_self, ↓reduceIte]
        refine ⟨fun h => ?_, fun h => by rw [hlowErr h]⟩
        obtain ⟨m', hm', hreg⟩ := hlow h
        rw [hm']
        refine ⟨m', rfl, fun hlast => ?_⟩
        have hreg := hreg fun h => hadd.edited.keys_subset (by
          rw [← hm₀, keys_modify]
          exact hlast _ h)
        rw [hadd.pendingOf, hpend] at hreg
        have hupd := Registers.updated hkey (hm₀ ▸ hadd.trans hreg)
        convert hupd using 1
        · rw [hall]; omega
        · rw [hall, length_append]; omega
      | false =>
        simp only [Bool.false_eq_true, and_false, false_and, ↓reduceIte, append_nil]
        refine ⟨fun _ => ⟨m₁, rfl, fun _ => ?_⟩, fun h => absurd (fits_nil m₁) h⟩
        have hupd := Registers.updated hkey (hm₀ ▸ hadd)
        convert hupd using 1 <;> omega
    · -- dropped: the lower layer is not looked at
      rw [if_neg hall, decide_eq_false hall, append_nil, if_neg (fun h => hall h.1)]
      refine ⟨fun _ => ⟨m₁, rfl, fun _ => ?_⟩, fun h => absurd hfit h⟩
      have hupd := Registers.updated hkey (hm₀ ▸ hadd)
      convert hupd using 1 <;> omega
  · have hnot : ¬ Fits m (registered last m frame.refKeys ++
        if accepted last m frame.refKeys = frame.refKeys then registeredLower last frame else []) := by
      intro h
      refine hfit fun k hk => ?_
      have := h k (mem_append_left _ hk)
      rw [count_append] at this
      omega
    exact ⟨fun h => absurd h hnot, fun _ => by rw [herr hfit]⟩

/-! ## Propagation -/

/-- The entries that still miss a reference for continuity. -/
def numWaiting (m : FrameMap) : Nat := m.countP fun e => decide (0 < e.2.numMissingContinuous)

theorem numWaiting_modify {i : FrameInfo} (h : find d m = some i) (f : FrameInfo → FrameInfo) :
    numWaiting (modify d f m) + (if 0 < i.numMissingContinuous then 1 else 0) =
      numWaiting m + if 0 < (f i).numMissingContinuous then 1 else 0 := by
  have := countP_modify (fun e => decide (0 < e.2.numMissingContinuous)) f h
  simpa [numWaiting] using this

/-- An entry that joins the queue stops waiting. -/
theorem propagateToDependents_numWaiting (h : propagateToDependents deps m queue = .ok (m', queue')) :
    queue'.length + numWaiting m' ≤ queue.length + numWaiting m := by
  induction deps generalizing m queue with
  | nil => cases h; exact Nat.le_refl _
  | cons d deps ih =>
    unfold propagateToDependents at h
    split at h
    · cases h
    rename_i i hi
    have hdec := numWaiting_modify hi (·.addMissing (-1) 0)
    have hd : find d (modify d (·.addMissing (-1) 0) m) = some (i.addMissing (-1) 0) := by
      rw [find_modify, if_pos rfl, hi]
      rfl
    have hset := numWaiting_modify hd (·.setContinuous)
    have hmiss : (i.addMissing (-1) 0).numMissingContinuous = i.numMissingContinuous - 1 := rfl
    have hkeep : (i.addMissing (-1) 0).setContinuous.numMissingContinuous =
      i.numMissingContinuous - 1 := rfl
    rw [hmiss] at hdec hset
    rw [hkeep] at hset
    split at h
    · next hz =>
      have := ih h
      rw [length_append, length_singleton] at this
      have h0 : 0 < i.numMissingContinuous := by omega
      have h1 : ¬ 0 < i.numMissingContinuous - 1 := by omega
      rw [if_pos h0, if_neg h1] at hdec
      omega
    · have := ih h
      have : (if 0 < i.numMissingContinuous - 1 then 1 else 0) ≤
          if 0 < i.numMissingContinuous then 1 else 0 := by split <;> split <;> omega
      omega

/-- More fuel than enough changes nothing. -/
theorem propagateLoop_mono {fuel' : Nat} (hfuel : queue.length + numWaiting m ≤ fuel)
    (hle : fuel ≤ fuel') (last : FrameKey) :
    propagateLoop fuel' queue last m = propagateLoop fuel queue last m := by
  induction fuel generalizing fuel' queue last m with
  | zero =>
    cases queue with
    | nil => cases fuel' <;> rfl
    | cons k queue => rw [length_cons] at hfuel; omega
  | succ fuel ih =>
    obtain ⟨fuel', rfl⟩ : ∃ n, fuel' = n + 1 := ⟨fuel' - 1, by omega⟩
    cases queue with
    | nil => rfl
    | cons k queue =>
      unfold propagateLoop
      cases hdeps : propagateToDependents (info m k).dependentFrames m queue with
      | error e => rfl
      | ok r =>
        have := propagateToDependents_numWaiting hdeps
        rw [length_cons] at hfuel
        exact ih (by omega) (by omega) _

/-- What propagating continuity leaves alone. -/
structure Propagated (m m' : FrameMap) : Prop where
  edited : Edited (fun _ => False) m m'
  keys_eq : keys m' = keys m
  dependentFrames : ∀ k, (info m' k).dependentFrames = (info m k).dependentFrames
  missingDecodable : ∀ k, (info m' k).numMissingDecodable = (info m k).numMissingDecodable
  continuous : ∀ k, (info m k).continuous = true → (info m' k).continuous = true

theorem Propagated.refl (m : FrameMap) : Propagated m m :=
  ⟨.refl, rfl, fun _ => rfl, fun _ => rfl, fun _ h => h⟩

theorem Propagated.trans (h : Propagated m m') (h' : Propagated m' m'') : Propagated m m'' :=
  ⟨h.edited.trans h'.edited, h'.keys_eq.trans h.keys_eq,
    fun k => (h'.dependentFrames k).trans (h.dependentFrames k),
    fun k => (h'.missingDecodable k).trans (h.missingDecodable k),
    fun k hk => h'.continuous k (h.continuous k hk)⟩

theorem Propagated.frame (h : Propagated m m') (k : FrameKey) :
    (info m' k).frame = (info m k).frame :=
  h.edited.frame k

theorem propagated_decrement (hd : d ∈ keys m) :
    Propagated m (modify d (·.addMissing (-1) 0) m) := by
  refine ⟨.modify d _ (fun _ => rfl) .refl, keys_modify _ _ _, ?_, ?_, ?_⟩ <;>
    (intro k; rw [info_modify hd]; split)
  all_goals first | rfl | (next h => rw [h]; simp [addMissing]) | exact id

theorem propagated_setContinuous (hd : d ∈ keys m) :
    Propagated m (modify d (·.setContinuous) m) := by
  refine ⟨.modify d _ (fun _ => rfl) .refl, keys_modify _ _ _, ?_, ?_, ?_⟩ <;>
    (intro k; rw [info_modify hd]; split)
  all_goals first | rfl | (next h => rw [h]; simp [setContinuous]) | exact id

theorem continuous_decrement (d : FrameKey) (m : FrameMap) (k : FrameKey) :
    (info (modify d (·.addMissing (-1) 0) m) k).continuous = (info m k).continuous :=
  info_modify_same (·.continuous) (·.addMissing (-1) 0) (fun _ => rfl) m d k

theorem continuous_modify (hd : d ∈ keys m) {f : FrameInfo → FrameInfo}
    (h : (info (modify d f m) k).continuous) : (info m k).continuous ∨ k = d := by
  rw [info_modify hd] at h
  split at h
  · next he => exact .inr he
  · exact .inl h

/-- The frames that become continuous join the queue. -/
theorem propagateToDependents_spec (h : propagateToDependents deps m queue = .ok (m', queue')) :
    Propagated m m' ∧ (∀ d ∈ deps, d ∈ keys m) ∧ (∀ k ∈ queue, k ∈ queue') ∧
      (∀ k ∈ queue', k ∈ queue ∨ k ∈ deps) ∧
      (∀ k, (info m' k).continuous → (info m k).continuous ∨ k ∈ queue') := by
  induction deps generalizing m queue with
  | nil => cases h; exact ⟨.refl _, by simp, fun _ h => h, fun _ h => .inl h, fun _ h => .inl h⟩
  | cons d deps ih =>
    unfold propagateToDependents at h
    split at h
    · cases h
    rename_i i hi
    have hd := mem_keys_of_find hi
    have hdec := propagated_decrement hd
    have hd' : d ∈ keys (modify d (·.addMissing (-1) 0) m) := by rw [keys_modify]; exact hd
    have hcont := continuous_decrement d m
    split at h
    · have hset := hdec.trans (propagated_setContinuous hd')
      obtain ⟨h1, h2, h3, h4, h5⟩ := ih h
      refine ⟨hset.trans h1, ?_, fun k hk => h3 k (mem_append_left _ hk), ?_, ?_⟩
      · intro k hk
        rcases mem_cons.mp hk with rfl | hk
        · exact hd
        · exact hset.keys_eq ▸ h2 k hk
      · intro k hk
        rcases h4 k hk with hk | hk
        · rcases mem_append.mp hk with hk | hk
          · exact .inl hk
          · exact .inr (mem_cons.mpr (.inl (mem_singleton.mp hk)))
        · exact .inr (.tail _ hk)
      · intro k hk
        rcases h5 k hk with hk | hk
        · rcases continuous_modify hd' hk with hk | rfl
          · exact .inl (hcont k ▸ hk)
          · exact .inr (h3 _ (by simp))
        · exact .inr hk
    · obtain ⟨h1, h2, h3, h4, h5⟩ := ih h
      refine ⟨hdec.trans h1, ?_, h3, ?_, fun k hk => hcont k ▸ h5 k hk⟩
      · intro k hk
        rcases mem_cons.mp hk with rfl | hk
        · exact hd
        · exact hdec.keys_eq ▸ h2 k hk
      · exact fun k hk => (h4 k hk).imp id (mem_cons_of_mem _)

/-- What every visit of the search keeps holds when it ends. -/
theorem propagateLoop_rule (P : List FrameKey → FrameKey → FrameMap → Prop) {last : FrameKey}
    (hstep : ∀ {k queue last m m₁ queue₁}, P (k :: queue) last m →
      propagateToDependents (info m k).dependentFrames m queue = .ok (m₁, queue₁) →
      P queue₁ (if last.lt k then k else last) m₁)
    (h : propagateLoop fuel queue last m = .ok (m', last')) (h₀ : P queue last m) :
    P [] last' m' := by
  fun_induction propagateLoop fuel queue last m with
  | case1 => cases h; exact h₀
  | case2 => cases h
  | case3 => cases h
  | case4 _ _ _ _ _ _ _ _ hdeps ih => exact ih h (hstep h₀ hdeps)

theorem propagateLoop_propagated {last : FrameKey}
    (h : propagateLoop fuel queue last m = .ok (m', last')) : Propagated m m' :=
  propagateLoop_rule (fun _ _ m₁ => Propagated m m₁)
    (fun hp hdeps => hp.trans (propagateToDependents_spec hdeps).1) h (.refl m)

/-- The search makes continuous only frames that satisfy `G`, if the queue does and `G`
passes from a frame to its dependents. -/
theorem propagateLoop_continuous (G : FrameKey → Prop) {last : FrameKey}
    (hG : ∀ k, G k → ∀ d ∈ (info m k).dependentFrames, d ∈ keys m → G d) (hq : ∀ k ∈ queue, G k)
    (h : propagateLoop fuel queue last m = .ok (m', last')) (k : FrameKey)
    (hk : (info m' k).continuous) : (info m k).continuous ∨ G k := by
  refine (propagateLoop_rule (fun queue _ m₁ => Propagated m m₁ ∧ (∀ k ∈ queue, G k) ∧
    ∀ k, (info m₁ k).continuous → (info m k).continuous ∨ G k) ?_ h
    ⟨.refl m, hq, fun _ => .inl⟩).2.2 k hk
  rintro j _ _ _ _ queue₁ ⟨hp, hq, hc⟩ hdeps
  obtain ⟨hp₁, hheldDeps, -, hnew, hcont⟩ := propagateToDependents_spec hdeps
  have hq₁ : ∀ i ∈ queue₁, G i := by
    intro i hi
    rcases hnew i hi with hi | hi
    · exact hq i (.tail _ hi)
    · exact hG j (hq j (.head _)) i (hp.dependentFrames j ▸ hi) (hp.keys_eq ▸ hheldDeps i hi)
  exact ⟨hp.trans hp₁, hq₁, fun i hi => (hcont i hi).elim (hc i) fun hi => .inr (hq₁ i hi)⟩

/-- The search leaves `last` at the greatest continuous frame. -/
theorem propagateLoop_spec {last : FrameKey} (ho : OrderedOn FrameKey.lt (· ∈ keys m))
    (hq : ∀ k ∈ queue, k ∈ keys m) (hlast : last ∈ keys m)
    (hc : ∀ k, (info m k).continuous → k ∈ keys m ∧ (last.lt k = false ∨ k ∈ queue))
    (h : propagateLoop fuel queue last m = .ok (m', last')) :
    last' ∈ keys m ∧ last'.lt last = false ∧
      (∀ k, (info m' k).continuous → last'.lt k = false) := by
  have hinv := propagateLoop_rule (fun queue last₁ m₁ => keys m₁ = keys m ∧
    (∀ k ∈ queue, k ∈ keys m) ∧ last₁ ∈ keys m ∧ last₁.lt last = false ∧
    ∀ k, (info m₁ k).continuous → k ∈ keys m ∧ (last₁.lt k = false ∨ k ∈ queue)) ?_ h
    ⟨rfl, hq, hlast, FrameKey.lt_irrefl _, hc⟩
  · obtain ⟨-, -, hheld, hge, hcont⟩ := hinv
    exact ⟨hheld, hge, fun k hk => (hcont k hk).2.resolve_right not_mem_nil⟩
  rintro j _ last₁ _ _ queue₁ ⟨hkeys, hq, hheld, hge, hc⟩ hdeps
  obtain ⟨hp, hheldDeps, hmono, hnew, hcont⟩ := propagateToDependents_spec hdeps
  have hj := hq j (.head _)
  have hlater : ∀ k ∈ keys m, last₁.lt k = false →
      (if last₁.lt j then j else last₁).lt k = false := by
    intro k hk hlt
    split
    · next hj' =>
      cases hkj : j.lt k with
      | false => rfl
      | true => exact (ho.trans last₁ j k hheld hj hk hj' hkj).symm.trans hlt
    · exact hlt
  have hq₁ : ∀ k ∈ queue₁, k ∈ keys m := by
    intro k hk
    rcases hnew k hk with hk | hk
    · exact hq k (.tail _ hk)
    · exact hkeys ▸ hheldDeps k hk
  refine ⟨hp.keys_eq.trans hkeys, hq₁, by split <;> assumption, hlater last hlast hge,
    fun k hk => ?_⟩
  rcases hcont k hk with hk | hk
  · obtain ⟨hkm, hlt | hmem⟩ := hc k hk
    · exact ⟨hkm, .inl (hlater k hkm hlt)⟩
    rcases mem_cons.mp hmem with rfl | hmem
    · refine ⟨hkm, .inl ?_⟩
      split
      · exact k.lt_irrefl
      · next hlt => simpa using hlt
    · exact ⟨hkm, .inr (hmono k hmem)⟩
  · exact ⟨hq₁ k hk, .inr hk⟩

/-- `PropagateDecodability` takes away one missing reference for each occurrence. -/
structure Decoded (deps : List FrameKey) (m m' : FrameMap) : Prop where
  edited : Edited (fun _ => False) m m'
  keys_eq : keys m' = keys m
  info_eq : ∀ k, info m' k = { info m k with
    numMissingDecodable := (info m k).numMissingDecodable - deps.count k }

theorem propagateDecodability_spec (deps : List FrameKey) (m : FrameMap) :
    ((∀ d ∈ deps, d ∈ keys m) → ∃ m', propagateDecodability deps m = .ok m' ∧ Decoded deps m m') ∧
    (¬ (∀ d ∈ deps, d ∈ keys m) → propagateDecodability deps m = .error .endDereference) := by
  induction deps generalizing m with
  | nil => exact ⟨fun _ => ⟨m, rfl, .refl, rfl, by simp⟩, fun h => absurd (by simp) h⟩
  | cons d deps ih =>
    unfold propagateDecodability
    cases hd : find d m with
    | none =>
      have hnot := (find_eq_none_iff d m).mp hd
      exact ⟨fun h => absurd (h d (.head _)) hnot, fun _ => rfl⟩
    | some i =>
      have hheld := mem_keys_of_find hd
      obtain ⟨ih1, ih2⟩ := ih (modify d (·.addMissing 0 (-1)) m)
      rw [keys_modify] at ih1 ih2
      constructor
      · intro h
        obtain ⟨m', hm', hdec⟩ := ih1 fun k hk => h k (.tail _ hk)
        refine ⟨m', hm', (Edited.modify d (·.addMissing 0 (-1)) (fun _ => rfl) .refl).trans
          hdec.edited, hdec.keys_eq.trans (keys_modify _ _ _), fun k => ?_⟩
        rw [hdec.info_eq, info_modify hheld, count_cons]
        split
        · next he =>
          simp [he, addMissing]
          omega
        · next he => simp [Ne.symm he]
      · intro h
        refine ih2 fun hall => h ?_
        intro k hk
        rcases mem_cons.mp hk with rfl | hk
        · exact hheld
        · exact hall k hk

theorem decoded_of_eq (h : propagateDecodability deps m = .ok m') : Decoded deps m m' := by
  obtain ⟨hok, herr⟩ := propagateDecodability_spec deps m
  by_cases hall : ∀ d ∈ deps, d ∈ keys m
  · obtain ⟨_, hm', hd⟩ := hok hall
    cases h.symm.trans hm'
    exact hd
  · cases h.symm.trans (herr hall)

/-! ## The bound on dependent frames -/

/-- No list of dependent frames gets too long when `f` is inserted: read in the buffer
that has passed the checks and has an entry for the key. -/
def HasRoom (b : FrameBuffer) (f : FrameObject) : Prop :=
  ∀ b₀, admitFrame b f = some b₀ → (info b₀.frames f.key).frame = none →
    Fits (insertNew FrameKey.lt f.key {} b₀.frames)
      (allRegistered b₀.lastDecodedFrame (insertNew FrameKey.lt f.key {} b₀.frames) f)

section Run

variable {b : FrameBuffer} {e : Fault}

end Run

end WebRtc.Video.Frames
