import Mathlib.Data.List.TakeWhile
import WebRtc.Video.FrameBufferSpecs
import WebRtc.Lib.Transition

/-! The counters of the frame buffer. As long as the keys stay in a window and the key
that was decoded last is not inserted again, `num_frames_buffered_` counts the stored
frames and `num_frames_history_` the decoded ones. -/

namespace WebRtc.Video.Frames
open SequenceNumber OrderedMap Transition List

variable {m m' rest : FrameMap} {b b' b₀ : FrameBuffer} {k : FrameKey} {last : Option FrameKey}
  {f : FrameObject} {r : Inserted}

/-! ## The two loops of `NextFrame` -/

/-- The entry after `SetRenderTime` for its frame. -/
def FrameInfo.retimed (t : Timing) (i : FrameInfo) : FrameInfo :=
  i.setFrame (i.frame.map (withRenderTime t))

/-- The entry after the selection loop has set the render times of the frames in `ks`. -/
def retime (t : Timing) (ks : List FrameKey) (e : FrameKey × FrameInfo) : FrameKey × FrameInfo :=
  (e.1, if e.1 ∈ ks then e.2.retimed t else e.2)

def FrameInfo.passedOver (i : FrameInfo) : Bool :=
  !i.continuous || i.numMissingDecodable != 0

/-- The entries in front of `endKey` that the loop does not pass over. -/
def considered (endKey : Option FrameKey) (m : FrameMap) : FrameMap :=
  (m.takeWhile fun e => decide (endKey ≠ some e.1)).filter fun e => !e.2.passedOver

/-- Which of the considered frames get their render times, and which one is chosen. -/
def choose (t : Timing) : FrameMap → Option FrameKey → List FrameKey × Option FrameKey
  | [], next => ([], next)
  | (k, i) :: rest, _ =>
    if i.frame.any fun f => t.maxWaitingTime (withRenderTime t f).renderTime = 0 then
      let (ks, next) := choose t rest (some k)
      (k :: ks, next)
    else ([k], some k)

section

variable {t : Timing} {endKey next : Option FrameKey} {ks : List FrameKey}

theorem isSome_retime (e : FrameKey × FrameInfo) :
    (retime t ks e).2.frame.isSome = e.2.frame.isSome := by
  unfold retime
  dsimp only
  split
  · exact Option.isSome_map ..
  · rfl

theorem keys_retime (m : FrameMap) : keys (m.map (retime t ks)) = keys m := by
  unfold OrderedMap.keys
  rw [map_map]
  rfl

theorem info_retime (m : FrameMap) (k : FrameKey) :
    info (m.map (retime t ks)) k = (retime t ks (k, info m k)).2 := by
  induction m with
  | nil => unfold retime; dsimp only; split <;> rfl
  | cons e m ih =>
    simp only [info, map_cons, find, retime] at ih ⊢
    split
    · next he => rw [he]; rfl
    · exact ih

theorem retime_of_not_mem (h : ∀ k ∈ keys m, k ∉ ks) : m.map (retime t ks) = m := by
  refine (map_congr_left fun e he => ?_).trans (map_id m)
  rw [retime, if_neg (h e.1 (mem_keys_of_mem he))]
  rfl

theorem retime_cons (h : k ∉ keys m) : m.map (retime t (k :: ks)) = m.map (retime t ks) := by
  refine map_congr_left fun e he => ?_
  simp [retime, ne_of_mem_of_not_mem (mem_keys_of_mem he) h]

theorem considered_none (m : FrameMap) :
    considered none m = m.filter fun e => !e.2.passedOver := by
  rw [considered, takeWhile_eq_self_iff.mpr (by simp)]

theorem considered_cons (hend : endKey ≠ some k) (i : FrameInfo) (m : FrameMap) :
    considered endKey ((k, i) :: m) = if !i.continuous || i.numMissingDecodable != 0 then
      considered endKey m else (k, i) :: considered endKey m := by
  unfold considered
  rw [takeWhile_cons_of_pos (by simpa using hend), filter_cons, FrameInfo.passedOver]
  cases !i.continuous || i.numMissingDecodable != 0 <;> rfl

theorem considered_subset : considered endKey m ⊆ m :=
  (filter_sublist.trans (takeWhile_sublist _)).subset

theorem choose_subset (h : k ∈ (choose t m next).1) : k ∈ keys m := by
  induction m generalizing next with
  | nil => cases h
  | cons e m ih =>
    unfold choose at h
    split at h
    · exact (mem_cons.mp h).elim (fun he => he ▸ mem_cons_self) fun h => .tail _ (ih h)
    · exact mem_singleton.mp h ▸ mem_cons_self

/-- The chosen frame is the last one that gets its render time. -/
theorem choose_next (t : Timing) (m : FrameMap) (next : Option FrameKey) :
    (choose t m next).2 = next ∨ ∃ e ∈ m, e.1 ∈ (choose t m next).1 ∧
      (choose t m next).2 = some e.1 := by
  induction m generalizing next with
  | nil => exact .inl rfl
  | cons e m ih =>
    unfold choose
    split
    · refine .inr ((ih (some e.1)).elim (fun h => ⟨e, .head _, .head _, h⟩) ?_)
      rintro ⟨x, hx, hk, hn⟩
      exact ⟨x, .tail _ hx, .tail _ hk, hn⟩
    · exact .inr ⟨e, .head _, .head _, rfl⟩

/-- The selection loop sets the render times of stored frames. -/
theorem selectLoop_spec {r : FrameMap × Option FrameKey} (hn : (keys rest).Nodup)
    (h : selectLoop t endKey rest next = .ok r) :
    r = (rest.map (retime t (choose t (considered endKey rest) next).1),
      (choose t (considered endKey rest) next).2) ∧
    ∀ e ∈ rest, e.1 ∈ (choose t (considered endKey rest) next).1 → e.2.frame.isSome := by
  induction rest generalizing next r with
  | nil =>
    unfold selectLoop at h
    split at h
    · cases h; exact ⟨rfl, fun _ he => absurd he not_mem_nil⟩
    · cases h
  | cons e rest ih =>
    obtain ⟨k, i⟩ := e
    obtain ⟨hk, hn⟩ := nodup_cons.mp hn
    have hout : ∀ {next}, k ∉ (choose t (considered endKey rest) next).1 := fun hm =>
      hk (map_subset _ considered_subset (choose_subset hm))
    unfold selectLoop at h
    split at h
    · next hend =>
      cases h
      rw [show considered endKey ((k, i) :: rest) = [] by simp [considered, hend]]
      exact ⟨by rw [choose, retime_of_not_mem fun _ _ => not_mem_nil],
        fun _ _ hm => absurd hm not_mem_nil⟩
    rename_i hend
    split at h
    · next hpass =>
      rw [considered_cons hend, if_pos hpass]
      split at h
      · cases h
      rename_i hrest
      cases h
      obtain ⟨hr, hs⟩ := ih hn hrest
      cases hr
      refine ⟨by rw [map_cons, retime, if_neg hout], fun e he hm => ?_⟩
      rcases mem_cons.mp he with rfl | he
      · exact absurd hm hout
      · exact hs e he hm
    · next hpass =>
      rw [considered_cons hend, if_neg hpass]
      split at h
      · cases h
      rename_i f hf
      have hhead : ∀ ks, retime t (k :: ks) (k, i) =
          (k, i.setFrame (some (withRenderTime t f))) := by
        intro ks
        rw [retime, if_pos mem_cons_self, FrameInfo.retimed, hf]
        rfl
      have hne : ∀ e ∈ rest, e.1 ≠ k := fun e he =>
        ne_of_mem_of_not_mem (mem_keys_of_mem he) hk
      unfold choose
      dsimp only at h
      split at h
      · next hdue =>
        split at h
        · cases h
        rename_i hrest
        cases h
        obtain ⟨hr, hs⟩ := ih hn hrest
        cases hr
        rw [if_pos (by simp [hf, hdue])]
        refine ⟨by rw [map_cons, hhead, retime_cons hk], fun e he hm => ?_⟩
        rcases mem_cons.mp he with rfl | he
        · exact hf ▸ rfl
        · exact hs e he ((mem_cons.mp hm).resolve_left (hne e he))
      · next hdue =>
        cases h
        rw [if_neg (by simp [hf, hdue])]
        refine ⟨by rw [map_cons, hhead, retime_cons hk, retime_of_not_mem fun _ _ => not_mem_nil],
          fun e he hm => ?_⟩
        rcases mem_cons.mp he with rfl | he
        · exact hf ▸ rfl
        · exact absurd (mem_singleton.mp hm) (hne e he)

end

/-- The erasing loop cuts off what stands before `key`. -/
theorem eraseUntil_spec {key : FrameKey} {rest' : FrameMap} {n n' : Int}
    (h : eraseUntil key rest n = .ok (rest', n')) :
    ∃ skipped i tail, rest = skipped ++ rest' ∧ rest' = (key, i) :: tail ∧
      n' = n - skipped.countP (·.2.frame.isSome) := by
  induction rest generalizing n with
  | nil => cases h
  | cons e rest ih =>
    obtain ⟨k, i⟩ := e
    unfold eraseUntil at h
    split at h
    · next hk =>
      cases h
      subst hk
      exact ⟨[], i, rest, rfl, rfl, by simp⟩
    obtain ⟨skipped, j, tail, hrest, hrest', hn⟩ := ih h
    refine ⟨(k, i) :: skipped, j, tail, by rw [hrest]; rfl, hrest', ?_⟩
    rw [hn, countP_cons]
    by_cases hf : i.frame.isSome
    · rw [if_pos hf, if_pos hf]; omega
    · rw [if_neg hf, if_neg hf]; omega

/-! ## The invariant -/

structure Tidy (b : FrameBuffer) : Prop where
  window : InWindow (· ∈ keys b.frames)
  sorted : Sorted FrameKey.lt b.frames
  last_held : ∀ l, b.lastDecodedFrame = some l → l ∈ keys b.frames
  history : ∀ k, atOrBefore b.lastDecodedFrame k = true → (info b.frames k).frame = none
  buffered_eq : b.numFramesBuffered = b.frames.countP (·.2.frame.isSome)
  history_eq : b.numFramesHistory = b.frames.countP (fun e => atOrBefore b.lastDecodedFrame e.1)
  next : b.waiting = true → ∀ k, b.nextFrame = some k →
    (info b.frames k).frame.isSome ∧ atOrBefore b.lastDecodedFrame k = false

theorem Tidy.ordered (h : Tidy b) : OrderedOn FrameKey.lt (· ∈ keys b.frames) :=
  h.window.orderedOn

theorem Tidy.nodup (h : Tidy b) : (keys b.frames).Nodup :=
  h.sorted.nodup h.ordered

theorem atOrBefore_some (l k : FrameKey) : atOrBefore (some l) k = !l.lt k := rfl

theorem Tidy.split (h : Tidy b) : decoded b ++ undecoded b = b.frames := by
  unfold decoded undecoded
  cases hl : b.lastDecodedFrame with
  | none => rfl
  | some l => exact upTo_append_after (h.last_held l hl)

theorem Tidy.mem_decoded (h : Tidy b) (e : FrameKey × FrameInfo) :
    e ∈ decoded b ↔ e ∈ b.frames ∧ atOrBefore b.lastDecodedFrame e.1 := by
  unfold decoded
  cases hl : b.lastDecodedFrame with
  | none => simp [atOrBefore]
  | some l =>
    rw [h.sorted.mem_upTo h.ordered (h.last_held l hl), atOrBefore_some]
    simp

theorem Tidy.mem_undecoded (h : Tidy b) (e : FrameKey × FrameInfo) :
    e ∈ undecoded b ↔ e ∈ b.frames ∧ atOrBefore b.lastDecodedFrame e.1 = false := by
  unfold undecoded
  cases hl : b.lastDecodedFrame with
  | none => simp [atOrBefore]
  | some l =>
    rw [h.sorted.mem_after h.ordered (h.last_held l hl), atOrBefore_some]
    simp

/-- The invariant reads only the map, the last decoded frame, the two counters and, while
`NextFrame` waits, the chosen frame. -/
theorem Tidy.of_eq (h : Tidy b) (hframes : b'.frames = b.frames)
    (hlast : b'.lastDecodedFrame = b.lastDecodedFrame)
    (hbuf : b'.numFramesBuffered = b.numFramesBuffered)
    (hhist : b'.numFramesHistory = b.numFramesHistory)
    (hnext : b'.waiting → b.waiting ∧ b'.nextFrame = b.nextFrame) : Tidy b' := by
  refine ⟨?_, ?_, ?_, ?_, ?_, ?_, ?_⟩
  · rw [hframes]; exact h.window
  · rw [hframes]; exact h.sorted
  · rw [hframes, hlast]; exact h.last_held
  · rw [hframes, hlast]; exact h.history
  · rw [hframes, hbuf]; exact h.buffered_eq
  · rw [hframes, hlast, hhist]; exact h.history_eq
  intro hw k hk
  obtain ⟨hw', hn⟩ := hnext hw
  rw [hframes, hlast]
  exact h.next hw' k (hn ▸ hk)

/-- Edits that add only placeholders after the last decoded frame keep the invariant. -/
theorem Edited.tidy {R : FrameKey → Prop} (h : Edited R b.frames m) (ht : Tidy b)
    (hnew : ∀ r, R r → atOrBefore b.lastDecodedFrame r = false)
    (hw : InWindow fun k => k ∈ keys b.frames ∨ R k) : Tidy { b with frames := m } where
  window := hw.mono fun _ hk => h.mem_keys hk
  sorted := h.sorted ht.sorted hw
  last_held l hl := h.keys_subset (ht.last_held l hl)
  history k hk := (h.frame k).trans (ht.history k hk)
  buffered_eq := by
    rw [h.countP (·.2.frame.isSome) (fun _ _ => rfl) fun _ _ _ he => by simp only [he]]
    exact ht.buffered_eq
  history_eq := by
    rw [h.countP (fun e => atOrBefore b.lastDecodedFrame e.1) hnew fun _ _ _ _ => rfl]
    exact ht.history_eq
  next hwait k hk := by
    rw [h.frame]
    exact ht.next hwait k hk

theorem Edited.tidy_same (h : Edited (fun _ => False) b.frames m) (ht : Tidy b) :
    Tidy { b with frames := m } :=
  h.tidy ht (fun _ h => nomatch h) (ht.window.mono fun _ hk => hk.resolve_right id)

theorem clearFramesAndHistory_tidy (b : FrameBuffer) : Tidy (clearFramesAndHistory b) where
  window := ⟨0, fun _ hk => nomatch hk⟩
  sorted := .nil
  last_held _ hl := nomatch hl
  history _ hk := nomatch hk
  buffered_eq := rfl
  history_eq := rfl
  next _ _ hk := nomatch hk

theorem empty_tidy : Tidy {} := clearFramesAndHistory_tidy {}

theorem countP_setFrame (hk : k ∈ keys m) (f : Option FrameObject) :
    (modify k (·.setFrame f) m).countP (·.2.frame.isSome) +
        (if (info m k).frame.isSome = true then 1 else 0) =
      m.countP (·.2.frame.isSome) + if f.isSome = true then 1 else 0 :=
  countP_modify (·.2.frame.isSome) (FrameInfo.setFrame f) (find_of_mem_keys hk)

/-- Storing a frame after the last decoded one. -/
theorem Tidy.setFrame (ht : Tidy b) (hk : k ∈ keys b.frames)
    (hnone : (info b.frames k).frame = none) (hnew : atOrBefore b.lastDecodedFrame k = false)
    (f : FrameObject) :
    Tidy { b with
      frames := modify k (·.setFrame (some f)) b.frames
      numFramesBuffered := b.numFramesBuffered + 1 } where
  window := by rw [keys_modify]; exact ht.window
  sorted := (sorted_modify _ _).mpr ht.sorted
  last_held l hl := by rw [keys_modify]; exact ht.last_held l hl
  history j hj := by
    rw [info_modify hk, if_neg]
    · exact ht.history j hj
    rintro rfl
    dsimp only at hj
    rw [hnew] at hj
    cases hj
  buffered_eq := by
    have := countP_setFrame hk (some f)
    rw [hnone, if_neg (by simp), if_pos (by simp)] at this
    dsimp only
    rw [ht.buffered_eq]
    omega
  history_eq := by
    dsimp only
    rw [countP_modify_same (fun e => atOrBefore b.lastDecodedFrame e.1) k
      (FrameInfo.setFrame (some f)) _ fun _ => rfl]
    exact ht.history_eq
  next hwait j hj := by
    obtain ⟨h1, h2⟩ := ht.next hwait j hj
    refine ⟨?_, h2⟩
    rw [info_modify hk]
    split
    · rfl
    · exact h1

/-! ## `InsertFrame` keeps the invariant -/

/-- All frames that `f` depends on directly. -/
def FrameObject.allRefs (f : FrameObject) : List FrameKey :=
  f.refKeys ++ if f.interLayerPredicted then [f.lowerLayer] else []

variable (hkey : atOrBefore last f.key = false)
include hkey

/-- The lower layer is registered exactly when it has not been decoded. -/
theorem registeredLower_eq :
    registeredLower last f =
      (if f.interLayerPredicted then [f.lowerLayer] else []).filter (!atOrBefore last ·) := by
  unfold registeredLower
  cases hinter : f.interLayerPredicted with
  | false => simp
  | true =>
    have hiff : last = some f.lowerLayer ↔ atOrBefore last f.lowerLayer := by
      constructor
      · rintro rfl
        rw [atOrBefore_some, FrameKey.lt_irrefl]
        rfl
      intro hle
      cases last with
      | none => cases hle
      | some l =>
        have hlt : l.lt f.key := by simpa [atOrBefore_some] using hkey
        rw [FrameObject.lowerLayer_le hlt hle]
    by_cases hl : last = some f.lowerLayer
    · have := hiff.mp hl
      simp [hl ▸ this, hl]
    · have : atOrBefore last f.lowerLayer = false := by simpa [hl] using mt hiff.mpr hl
      simp [hl, this]

theorem allRegistered_new (m : FrameMap) {r : FrameKey}
    (hr : r ∈ allRegistered last m f) : atOrBefore last r = false := by
  have hfilter : ∀ {l : List FrameKey}, r ∈ l.filter (!atOrBefore last ·) →
      atOrBefore last r = false := fun h => by simpa using (mem_filter.mp h).2
  rcases mem_append.mp hr with hr | hr
  · exact hfilter hr
  split at hr
  · rw [registeredLower_eq hkey] at hr
    exact hfilter hr
  · cases hr

/-- A frame that is not dropped is registered with all that it misses. -/
theorem allRegistered_eq (hacc : accepted last m f.refKeys = f.refKeys) :
    allRegistered last m f = f.allRefs.filter (!atOrBefore last ·) := by
  unfold allRegistered FrameObject.allRefs registered
  rw [if_pos hacc, hacc, registeredLower_eq hkey, filter_append]

theorem missingDecodable_eq (hacc : accepted last m f.refKeys = f.refKeys) :
    missingDecodable last m f = f.allRefs.countP (!atOrBefore last ·) := by
  unfold missingDecodable
  rw [hacc, allRegistered_eq hkey hacc, countP_eq_length_filter]
  simp [FrameObject.refKeys]

omit hkey

/-- The keys held once `f` has been inserted lie in a window. -/
def WithinWindow (b : FrameBuffer) (f : FrameObject) : Prop :=
  InWindow fun k => k ∈ keys b.frames ∨ k = f.key ∨
    k ∈ registered b.lastDecodedFrame b.frames f.refKeys

instance (b : FrameBuffer) (f : FrameObject) : Decidable (WithinWindow b f) :=
  decidable_of_iff (InWindow (· ∈ f.key :: (keys b.frames ++
      registered b.lastDecodedFrame b.frames f.refKeys)))
    ⟨fun h => h.mono fun _ hk => by simpa [or_left_comm] using hk,
      fun h => h.mono fun _ hk => by simpa [or_left_comm] using hk⟩

theorem WithinWindow.allRegistered (h : WithinWindow b f)
    (hkey : atOrBefore b.lastDecodedFrame f.key = false) :
    InWindow fun k => k ∈ keys b.frames ∨ k = f.key ∨
      k ∈ allRegistered b.lastDecodedFrame (insertNew FrameKey.lt f.key {} b.frames) f := by
  obtain ⟨base, hb⟩ := h
  refine ⟨base, ?_⟩
  rintro k (hk | rfl | hk)
  · exact hb k (.inl hk)
  · exact hb _ (.inr (.inl rfl))
  rcases mem_append.mp hk with hk | hk
  · rw [registered_eq_of_accepted (accepted_insertNew hkey _ _)] at hk
    exact hb k (.inr (.inr hk))
  -- the lower layer has the picture id of the frame
  split at hk
  · unfold registeredLower at hk
    split at hk
    · cases mem_singleton.mp hk
      exact hb f.key (.inr (.inl rfl))
    · cases hk
  · cases hk

theorem propagateContinuity_tidy {start : FrameKey} (ht : Tidy b)
    (h : propagateContinuity start b = .ok b') : Tidy b' := by
  unfold propagateContinuity at h
  split at h
  · cases h
  rename_i hloop
  cases h
  exact ((propagateLoop_propagated hloop).edited.tidy_same ht).of_eq rfl rfl rfl rfl (fun h => ⟨h, rfl⟩)

/-- What `UpdateFrameInfoWithIncomingFrame` did, read off its result. -/
theorem updated_of_eq {frame : FrameObject} {ok : Bool} (hkey : frame.key ∈ keys m)
    (hlast : ∀ l, last = some l → l ∈ keys m)
    (h : updateFrameInfoWithIncomingFrame last frame m = .ok (m', ok)) :
    ok = decide (accepted last m frame.refKeys = frame.refKeys) ∧
      Updated frame.key (allRegistered last m frame) (missingContinuous last m frame)
        (missingDecodable last m frame) m m' := by
  obtain ⟨hfit, hover⟩ := updateFrameInfoWithIncomingFrame_spec last frame hkey
  by_cases hf : Fits m (allRegistered last m frame)
  · obtain ⟨_, he, hupd⟩ := hfit hf
    rw [h] at he
    cases he
    exact ⟨rfl, hupd hlast⟩
  · rw [hover hf] at h
    cases h

/-- The map that `UpdateFrameInfoWithIncomingFrame` is called with. -/
def entered (b : FrameBuffer) (f : FrameObject) : FrameMap := insertNew FrameKey.lt f.key {} b.frames

theorem mem_keys_entered (b : FrameBuffer) (f : FrameObject) (k : FrameKey) :
    k ∈ keys (entered b f) ↔ k = f.key ∨ k ∈ keys b.frames :=
  mem_keys_insertNew _ _ _ _ _

@[simp] theorem info_entered (b : FrameBuffer) (f : FrameObject) (k : FrameKey) :
    info (entered b f) k = info b.frames k :=
  info_insertNew _ _ _

/-- `UpdateFrameInfoWithIncomingFrame` for `f` leads to the map `m`. -/
abbrev UpdatedFor (b : FrameBuffer) (f : FrameObject) (m : FrameMap) : Prop :=
  Updated f.key (allRegistered b.lastDecodedFrame (entered b f) f)
    (missingContinuous b.lastDecodedFrame (entered b f) f)
    (missingDecodable b.lastDecodedFrame (entered b f) f) (entered b f) m

/-- The buffer with `f` stored in the map `m`. -/
def withFrame (b : FrameBuffer) (f : FrameObject) (m : FrameMap) : FrameBuffer :=
  { b with
    frames := modify f.key (·.setFrame (some f)) m
    numFramesBuffered := b.numFramesBuffered + 1 }

/-- The buffer with the entry of `key` continuous. -/
def markContinuous (key : FrameKey) (b : FrameBuffer) : FrameBuffer :=
  { b with frames := modify key (·.setContinuous) b.frames }

theorem propagated_markContinuous (hk : k ∈ keys b.frames) :
    Propagated b.frames (markContinuous k b).frames :=
  propagated_setContinuous hk

/-- The last part of `InsertFrame`, for a frame that was stored. -/
def finishStored (b : FrameBuffer) (f : FrameObject) (m : FrameMap) : Except Fault Inserted :=
  if (info m f.key).numMissingContinuous = 0 then
    match propagateContinuity f.key (markContinuous f.key (withFrame b f m)) with
    | .error e => .error e
    | .ok b => .ok ⟨b, lastContinuousPictureId b, true⟩
  else .ok ⟨withFrame b f m, lastContinuousPictureId b, true⟩

theorem storeFrame_eq (b : FrameBuffer) (f : FrameObject) :
    storeFrame b f =
      if (info b.frames f.key).frame.isSome = true then
        .ok ⟨{ b with frames := entered b f }, lastContinuousPictureId b, false⟩
      else
        match updateFrameInfoWithIncomingFrame b.lastDecodedFrame f (entered b f) with
        | .error e => .error e
        | .ok (m, false) => .ok ⟨{ b with frames := m }, lastContinuousPictureId b, false⟩
        | .ok (m, true) => finishStored b f m := by
  rw [← info_entered b f]
  rfl

/-- The four ways in which `InsertFrame` ends once the frame has passed the checks. -/
inductive StoreCase (b : FrameBuffer) (f : FrameObject) : Inserted → Prop
  | already : (info b.frames f.key).frame.isSome = true →
      StoreCase b f ⟨b, lastContinuousPictureId b, false⟩
  | dropped {m : FrameMap} : (info b.frames f.key).frame = none →
      accepted b.lastDecodedFrame (entered b f) f.refKeys ≠ f.refKeys →
      UpdatedFor b f m →
      StoreCase b f ⟨{ b with frames := m }, lastContinuousPictureId b, false⟩
  | waits {m : FrameMap} : (info b.frames f.key).frame = none →
      accepted b.lastDecodedFrame (entered b f) f.refKeys = f.refKeys →
      UpdatedFor b f m →
      missingContinuous b.lastDecodedFrame (entered b f) f ≠ 0 →
      StoreCase b f ⟨withFrame b f m, lastContinuousPictureId b, true⟩
  | continuous {m : FrameMap} {b' : FrameBuffer} : (info b.frames f.key).frame = none →
      accepted b.lastDecodedFrame (entered b f) f.refKeys = f.refKeys →
      UpdatedFor b f m →
      missingContinuous b.lastDecodedFrame (entered b f) f = 0 →
      propagateContinuity f.key (markContinuous f.key (withFrame b f m)) = .ok b' →
      StoreCase b f ⟨b', lastContinuousPictureId b', true⟩

theorem storeFrame_cases (hlast : ∀ l, b.lastDecodedFrame = some l → l ∈ keys b.frames)
    (h : storeFrame b f = .ok r) : StoreCase b f r := by
  have hkey : f.key ∈ keys (entered b f) := (mem_keys_entered b f _).mpr (.inl rfl)
  have hlast' : ∀ l, b.lastDecodedFrame = some l → l ∈ keys (entered b f) :=
    fun l hl => (mem_keys_entered b f l).mpr (.inr (hlast l hl))
  unfold storeFrame at h
  rw [show insertNew FrameKey.lt f.key {} b.frames = entered b f from rfl] at h
  dsimp only at h
  split at h
  · next hstored =>
    rw [info_entered] at hstored
    have hsame : entered b f = b.frames := insertNew_of_mem (mem_keys_of_frame hstored)
    rw [hsame] at h
    cases h
    exact .already hstored
  · next hnone =>
    have hnone : (info b.frames f.key).frame = none := by simpa using hnone
    split at h
    · cases h
    · next m hm =>
      obtain ⟨hok, hupd⟩ := updated_of_eq hkey hlast' hm
      cases h
      exact .dropped hnone (by simpa using hok) hupd
    rename_i m hm
    obtain ⟨hok, hupd⟩ := updated_of_eq hkey hlast' hm
    have hacc : accepted b.lastDecodedFrame (entered b f) f.refKeys = f.refKeys := by
      simpa using hok
    rw [hupd.info_eq] at h
    dsimp only at h
    rw [if_pos rfl] at h
    split at h
    · next hzero =>
      split at h
      · cases h
      · next hprop => cases h; exact .continuous hnone hacc hupd hzero hprop
    · next hne => cases h; exact .waits hnone hacc hupd hne

/-- The frame `f` comes after the last decoded one, and there is a window for its references. -/
structure Ready (b : FrameBuffer) (f : FrameObject) : Prop where
  tidy : Tidy b
  later : atOrBefore b.lastDecodedFrame f.key = false
  window : WithinWindow b f

theorem Ready.tidy_updated (h : Ready b f) (hu : UpdatedFor b f m) : Tidy { b with frames := m } := by
  have hplace : Edited (· = f.key) b.frames (entered b f) := .placeholder rfl .refl
  have hedit : Edited (fun k => k = f.key ∨ k ∈ allRegistered b.lastDecodedFrame (entered b f) f)
      b.frames m := (hplace.mono fun _ => .inl).trans (hu.edited.mono fun _ => .inr)
  refine hedit.tidy h.tidy ?_ (h.window.allRegistered h.later)
  rintro k (rfl | hk)
  · exact h.later
  · exact allRegistered_new h.later _ hk

theorem Ready.tidy_withFrame (h : Ready b f) (hnone : (info b.frames f.key).frame = none)
    (hu : UpdatedFor b f m) : Tidy (withFrame b f m) := by
  have hheld : f.key ∈ keys m :=
    hu.edited.keys_subset ((mem_keys_entered b f _).mpr (.inl rfl))
  have hframe : (info m f.key).frame = none := by rw [hu.edited.frame, info_entered, hnone]
  exact (h.tidy_updated hu).setFrame hheld hframe h.later f

theorem storeFrame_tidy (hready : Ready b f) (h : storeFrame b f = .ok r) : Tidy r.buffer := by
  cases storeFrame_cases hready.tidy.last_held h with
  | already _ => exact hready.tidy
  | dropped _ _ hupd => exact hready.tidy_updated hupd
  | waits hnone _ hupd _ => exact hready.tidy_withFrame hnone hupd
  | continuous hnone _ hupd _ hprop =>
    refine propagateContinuity_tidy ?_ hprop
    exact (Edited.modify f.key (·.setContinuous) (fun _ => rfl) .refl).tidy_same
      (hready.tidy_withFrame hnone hupd)

theorem admit_cases (h : admitFrame b f = some b₀) :
    (f.interLayerPredicted → f.spatialLayer ≠ 0) ∧
      (b₀ = b ∧ isOld b f = false ∨ b₀ = clearFramesAndHistory b ∧ jumps b f) := by
  unfold admitFrame at h
  split at h
  · cases h
  split at h
  · cases h
  rename_i hlayer
  refine ⟨by simpa using hlayer, ?_⟩
  split at h
  · split at h
    · next hj => cases h; exact .inr ⟨rfl, hj⟩
    · cases h
  · next hold => cases h; exact .inl ⟨rfl, by simpa using hold⟩

/-- A frame that is neither old nor the last decoded one comes after the last decoded one. -/
theorem atOrBefore_of_admitFrame (h : admitFrame b f = some b₀)
    (hne : b.lastDecodedFrame ≠ some f.key) : atOrBefore b₀.lastDecodedFrame f.key = false := by
  rcases (admit_cases h).2 with ⟨rfl, hold⟩ | ⟨rfl, -⟩
  · unfold isOld at hold
    cases hl : b₀.lastDecodedFrame with
    | none => rfl
    | some l =>
      rw [hl] at hold hne
      have hlt : f.key.lt l = false := hold
      have hswap := FrameKey.lt_swap (a := f.key) (b := l) fun he => hne (by rw [he])
      rw [atOrBefore_some, hswap, hlt]
      rfl
  · rfl

/-- The key decoded last is not inserted again, and the keys held stay in a window. -/
def Orderly (b : FrameBuffer) : Op → Prop
  | .insertFrame f => b.lastDecodedFrame ≠ some f.key ∧
      ∀ b₀, admitFrame b f = some b₀ → WithinWindow b₀ f
  | _ => True

instance : (op : Op) → Decidable (Orderly b op)
  | .insertFrame f =>
    inferInstanceAs (Decidable (_ ∧ ∀ b₀ ∈ admitFrame b f, WithinWindow b₀ f))
  | .selectFrame _ | .returnFrame | .start | .stop => .isTrue trivial

variable (ht : Tidy b)
include ht

theorem admit_tidy (h : admitFrame b f = some b₀) : Tidy b₀ := by
  rcases (admit_cases h).2 with ⟨rfl, -⟩ | ⟨rfl, -⟩
  · exact ht
  · exact clearFramesAndHistory_tidy b

theorem Tidy.ready (hop : Orderly b (.insertFrame f)) (h : admitFrame b f = some b₀) : Ready b₀ f :=
  ⟨admit_tidy ht h, atOrBefore_of_admitFrame h hop.1, hop.2 b₀ h⟩

theorem insertFrame_tidy (hop : Orderly b (.insertFrame f)) (h : insertFrame b f = .ok r) :
    Tidy r.buffer := by
  unfold insertFrame at h
  split at h
  · cases h; exact ht
  · next hb₀ => exact storeFrame_tidy (ht.ready hop hb₀) h

/-! ## `NextFrame` keeps the invariant -/

/-- The first part of `NextFrame` when its loop considers the entries `l`. -/
def selected (t : Timing) (l : FrameMap) (b : FrameBuffer) : FrameBuffer :=
  if b.stopped then { b with waiting := false }
  else { b with
    frames := b.frames.map (retime t (choose t l none).1)
    nextFrame := (choose t l none).2
    waiting := true }

theorem selectFrame_spec {t : Timing} (h : selectFrame t b = .ok b') :
    b' = selected t (considered (continuousEnd b) (undecoded b)) b ∧
      (b'.waiting → ∀ k, b'.nextFrame = some k →
        ∃ i, (k, i) ∈ considered (continuousEnd b) (undecoded b) ∧ i.frame.isSome) := by
  unfold selectFrame at h
  unfold selected
  split at h
  · next hstop => cases h; rw [if_pos hstop]; exact ⟨rfl, fun h => nomatch h⟩
  rename_i hstop
  split at h
  · cases h
  rename_i hloop
  cases h
  have hn : (keys (decoded b) ++ keys (undecoded b)).Nodup := by
    have := ht.nodup
    rw [← ht.split] at this
    rwa [OrderedMap.keys, map_append] at this
  obtain ⟨-, hn, hdis⟩ := nodup_append.mp hn
  obtain ⟨hr, hs⟩ := selectLoop_spec hn hloop
  cases hr
  rw [if_neg hstop]
  refine ⟨?_, fun _ k hk => ?_⟩
  · -- nothing decoded is considered
    have hdec : ∀ {ks}, ks ⊆ keys (undecoded b) → (decoded b).map (retime t ks) = decoded b :=
      fun h => retime_of_not_mem fun k hk hm => hdis k hk k (h hm) rfl
    rw [← ht.split, map_append,
      hdec fun _ hm => map_subset _ considered_subset (choose_subset hm)]
  · rcases choose_next t (considered (continuousEnd b) (undecoded b)) none with hnone | ⟨e, he, hm, hk'⟩
    · cases hnone.symm.trans hk
    · cases hk'.symm.trans hk
      exact ⟨e.2, he, hs e (considered_subset he) hm⟩

theorem selectFrame_tidy {t : Timing} (h : selectFrame t b = .ok b') : Tidy b' := by
  obtain ⟨hb', hnext⟩ := selectFrame_spec ht h
  unfold selected at hb'
  split at hb'
  · subst hb'; exact ht.of_eq rfl rfl rfl rfl (fun h => nomatch h)
  subst hb'
  refine ⟨?_, ?_, ?_, ?_, ?_, ?_, ?_⟩
  · rw [keys_retime]; exact ht.window
  · exact (sorted_congr (keys_retime _)).mpr ht.sorted
  · rw [keys_retime]; exact ht.last_held
  · intro k hk
    rw [← Option.not_isSome_iff_eq_none, info_retime, isSome_retime, ht.history k hk]
    exact Bool.false_ne_true
  · rw [countP_map]
    exact ht.buffered_eq.trans (congrArg _ (countP_congr fun e _ => by simp [isSome_retime]))
  · rw [countP_map]
    exact ht.history_eq
  intro hw k hk
  obtain ⟨i, hi, hf⟩ := hnext hw k hk
  obtain ⟨hm, hafter⟩ := (ht.mem_undecoded _).mp (considered_subset hi)
  refine ⟨?_, hafter⟩
  rw [info_retime, isSome_retime, info_of_find (find_of_mem ht.nodup hm)]
  exact hf

theorem countP_decoded : b.numFramesHistory = (decoded b).length := by
  have hd : (decoded b).countP (fun e => atOrBefore b.lastDecodedFrame e.1) = (decoded b).length :=
    countP_eq_length.mpr fun e he => ((ht.mem_decoded e).mp he).2
  have hu : (undecoded b).countP (fun e => atOrBefore b.lastDecodedFrame e.1) = 0 :=
    countP_eq_zero.mpr fun e he => by rw [((ht.mem_undecoded e).mp he).2]; exact Bool.false_ne_true
  rw [ht.history_eq, ← ht.split, countP_append, hd, hu]
  rfl

omit ht in
/-- The entries `AdvanceLastDecodedFrame` does not erase: those decoded before and those not
before `k`. -/
def kept (b : FrameBuffer) (k : FrameKey) : FrameMap :=
  b.frames.filter fun e => atOrBefore b.lastDecodedFrame e.1 || !e.1.lt k

omit ht in
theorem mem_keys_kept (j : FrameKey) : j ∈ keys (kept b k) ↔
    j ∈ keys b.frames ∧ (atOrBefore b.lastDecodedFrame j ∨ j.lt k = false) := by
  constructor
  · intro hj
    obtain ⟨e, he, rfl⟩ := mem_map.mp hj
    obtain ⟨hm, hp⟩ := mem_filter.mp he
    exact ⟨mem_keys_of_mem hm, by simpa using hp⟩
  · rintro ⟨hj, hp⟩
    obtain ⟨e, he, rfl⟩ := mem_map.mp hj
    exact mem_keys_of_mem (mem_filter.mpr ⟨he, by simpa using hp⟩)

/-- What the erasing loop leaves, and what the two counters are then. -/
theorem Tidy.kept_spec {i : FrameInfo} {skipped tail : FrameMap}
    (hsplit : undecoded b = skipped ++ (k, i) :: tail) :
    kept b k = decoded b ++ (k, i) :: tail ∧
      b.numFramesBuffered - skipped.countP (·.2.frame.isSome) =
        (kept b k).countP (·.2.frame.isSome) ∧
      b.numFramesHistory + 1 = (kept b k).countP (fun e => atOrBefore (some k) e.1) := by
  have hframes : b.frames = decoded b ++ (skipped ++ (k, i) :: tail) := by rw [← hsplit, ht.split]
  have hsorted := ht.sorted
  rw [hframes] at hsorted
  obtain ⟨-, hsk, hdec⟩ := pairwise_append.mp hsorted
  obtain ⟨-, hrest, hskipped⟩ := pairwise_append.mp hsk
  have htail := (pairwise_cons.mp hrest).1
  have heq : kept b k = decoded b ++ (k, i) :: tail := by
    unfold kept
    rw [hframes, filter_append, filter_append, filter_eq_self.mpr, filter_eq_nil_iff.mpr, nil_append,
      filter_eq_self.mpr]
    · intro e he
      rcases mem_cons.mp he with rfl | he
      · simp [FrameKey.lt_irrefl]
      · simp [FrameKey.lt_asymm (htail e he)]
    · intro e he
      have hlive := ((ht.mem_undecoded e).mp (hsplit ▸ mem_append_left _ he)).2
      simp [hlive, hskipped e he (k, i) (.head _)]
    · intro e he
      simp [((ht.mem_decoded e).mp he).2]
  refine ⟨heq, ?_, ?_⟩
  · rw [heq, ht.buffered_eq, hframes]
    simp only [countP_append]
    omega
  · have h1 : (decoded b).countP (fun e => atOrBefore (some k) e.1) = (decoded b).length :=
      countP_eq_length.mpr fun e he => by
        rw [atOrBefore_some, FrameKey.lt_asymm (hdec e he (k, i) (by simp))]; rfl
    have h2 : tail.countP (fun e => atOrBefore (some k) e.1) = 0 :=
      countP_eq_zero.mpr fun e he => by rw [atOrBefore_some, htail e he]; exact Bool.false_ne_true
    have h3 : atOrBefore (some k) k := by rw [atOrBefore_some, FrameKey.lt_irrefl]; rfl
    rw [heq, countP_append, countP_cons, h1, h2, countP_decoded ht, if_pos h3]
    omega

omit ht in
/-- The first key of a map is the one that no other key is before. -/
theorem exists_lt_iff {e : FrameKey × FrameInfo} (hs : Sorted FrameKey.lt (e :: m))
    (hk : k ∈ keys (e :: m)) : (∃ i ∈ keys (e :: m), i.lt k) ↔ k ≠ e.1 := by
  have hlt : ∀ i ∈ keys m, e.1.lt i := forall_mem_map.mpr (pairwise_cons.mp hs).1
  constructor
  · rintro ⟨i, hi, hik⟩ rfl
    rcases mem_cons.mp hi with rfl | hi
    · exact FrameKey.ne_of_lt hik rfl
    · rw [FrameKey.lt_asymm (hlt i hi)] at hik; cases hik
  · intro hne
    exact ⟨e.1, .head _, hlt k ((mem_cons.mp hk).resolve_left hne)⟩

/-- Of a full history, the first of the kept entries was decoded before `k`. -/
theorem Tidy.kept_full {i : FrameInfo} {skipped tail : FrameMap}
    (hsplit : undecoded b = skipped ++ (k, i) :: tail)
    (hfull : kMaxFramesHistory < b.numFramesHistory + 1) :
    ∃ e rest, kept b k = e :: rest ∧ k ∈ keys rest ∧ e.2.frame = none ∧ e.1.lt k ∧
      ∀ j ∈ keys b.frames, (∃ i ∈ keys b.frames, i.lt j) ↔ j ≠ e.1 := by
  have hsplit' := ht.split
  have hold := fun e => (ht.mem_decoded e).mp
  have hlen := countP_decoded ht
  have heq := (ht.kept_spec hsplit).1
  have hs : Sorted FrameKey.lt (kept b k) := ht.sorted.sublist filter_sublist
  rw [heq] at hs ⊢
  cases hd : decoded b with
  | nil =>
    rw [hd, length_nil] at hlen
    unfold kMaxFramesHistory at hfull
    omega
  | cons e rest =>
    rw [hd] at hold hs hsplit'
    obtain ⟨hm, hold⟩ := hold e mem_cons_self
    refine ⟨e, _, rfl, mem_map.mpr ⟨(k, i), by simp, rfl⟩, ?_,
      (pairwise_cons.mp hs).1 (k, i) (by simp), ?_⟩
    · rw [← info_of_find (find_of_mem ht.nodup hm)]
      exact ht.history e.1 hold
    · have hsorted := ht.sorted
      rw [← hsplit'] at hsorted ⊢
      exact fun j => exists_lt_iff hsorted

omit ht in
theorem info_of_sublist (hn : (keys b.frames).Nodup) (h : m.Sublist b.frames) (hk : k ∈ keys m) :
    info m k = info b.frames k :=
  (info_of_find (find_of_mem hn (h.subset (mem_of_find (find_of_mem_keys hk))))).symm

/-- The buffer with part of the kept entries: the invariant is a matter of the two counters. -/
theorem Tidy.advance {buffered history : Int} (hm : m.Sublist (kept b k)) (hk : k ∈ keys m)
    (hnone : (info b.frames k).frame = none) (hb : buffered = m.countP (·.2.frame.isSome))
    (hh : history = m.countP (fun e => atOrBefore (some k) e.1)) :
    Tidy { b with
      frames := m
      lastDecodedFrame := some k
      numFramesBuffered := buffered
      numFramesHistory := history
      waiting := false } := by
  have hsub : m.Sublist b.frames := hm.trans filter_sublist
  have hkeys : keys m ⊆ keys b.frames := (hsub.map Prod.fst).subset
  refine ⟨ht.window.mono fun j hj => hkeys hj, ht.sorted.sublist hsub, ?_, fun j hj => ?_, hb, hh,
    fun h => nomatch h⟩
  · rintro l ⟨⟩
    exact hk
  by_cases hheld : j ∈ keys m
  · rw [info_of_sublist ht.nodup hsub hheld]
    rcases ((mem_keys_kept j).mp ((hm.map Prod.fst).subset hheld)).2 with hold | hnot
    · exact ht.history j hold
    -- not behind `k` and not before it
    by_cases hjk : j = k
    · rw [hjk]
      exact hnone
    have hkj := (ht.ordered.total j k (hkeys hheld) (hkeys hk) hjk).resolve_left (by simp [hnot])
    rw [atOrBefore_some, hkj] at hj
    cases hj
  · rw [info_of_not_mem hheld]

omit ht

/-- The map that `AdvanceLastDecodedFrame` leaves: what was decoded before and what is not
before `k`, and of a full history not the first entry. -/
structure Advanced (b : FrameBuffer) (k : FrameKey) (m : FrameMap) : Prop where
  held : k ∈ keys m
  mem_iff : ∀ j, j ∈ keys m ↔ j ∈ keys b.frames ∧
    (atOrBefore b.lastDecodedFrame j = true ∨ j.lt k = false) ∧
    (kMaxFramesHistory < b.numFramesHistory + 1 → ∃ i ∈ keys b.frames, i.lt j = true)

/-- The buffer behind the frame `k`, with the map `m` and `n` frames in it. -/
def decodedUpTo (b : FrameBuffer) (k : FrameKey) (m : FrameMap) (n : Int) : FrameBuffer :=
  { b with
    frames := m
    lastDecodedFrame := some k
    numFramesBuffered := n
    numFramesHistory := if kMaxFramesHistory < b.numFramesHistory + 1 then b.numFramesHistory
      else b.numFramesHistory + 1 }

theorem advanceLastDecodedFrame_spec
    (ht : Tidy { b with numFramesBuffered := b.numFramesBuffered - 1, waiting := false })
    (hnone : (info b.frames k).frame = none) (h : advanceLastDecodedFrame k b = .ok b') :
    Tidy { b' with waiting := false } ∧ Advanced b k b'.frames ∧
      (∀ j ∈ keys b'.frames, info b'.frames j = info b.frames j) ∧
      ∃ n, b' = decodedUpTo b k b'.frames n := by
  unfold advanceLastDecodedFrame at h
  split at h
  · cases h
  rename_i rest buffered herase
  obtain ⟨skipped, i, tail, hsplit, rfl, hn⟩ := eraseUntil_spec herase
  obtain ⟨heq, hb, hh⟩ := ht.kept_spec hsplit
  change kept b k = decoded b ++ _ at heq
  rw [show b.numFramesBuffered - 1 - _ = _ from hb] at hn
  have hheld : k ∈ keys (kept b k) := by rw [heq]; exact mem_map.mpr ⟨(k, i), by simp, rfl⟩
  have hmem := mem_keys_kept (b := b) (k := k)
  have hinfo : ∀ {m : FrameMap}, m.Sublist (kept b k) → ∀ j ∈ keys m, info m j = info b.frames j :=
    fun hm _ => info_of_sublist ht.nodup (hm.trans filter_sublist)
  rw [← heq] at h
  dsimp only at h
  split at h
  · next hfull =>
    cases h
    -- more than fifty decoded frames: the oldest one is not the one just decoded
    obtain ⟨e, rest, hcons, hk, hempty, hek, hfirst⟩ := ht.kept_full hsplit hfull
    rw [hcons, countP_cons, hempty] at hn
    rw [hcons, countP_cons, atOrBefore_some, FrameKey.lt_asymm hek] at hh
    have hnodup : (keys (kept b k)).Nodup := ht.nodup.sublist (filter_sublist.map _)
    have hsub : rest.Sublist (kept b k) := by
      rw [show kept b k = _ from hcons]
      exact sublist_cons_self e rest
    rw [show kept b k = _ from hcons] at hmem hnodup ⊢
    refine ⟨ht.advance hsub hk hnone (by simpa using hn) (by simpa using hh), ⟨hk, fun j => ?_⟩,
      hinfo hsub, buffered, ?_⟩
    · constructor
      · intro hj
        obtain ⟨hj', hp⟩ := (hmem j).mp (mem_cons_of_mem _ hj)
        exact ⟨hj', hp, fun _ => (hfirst j hj').mpr
          (ne_of_mem_of_not_mem hj (nodup_cons.mp hnodup).1)⟩
      · rintro ⟨hj, hp, hmin⟩
        exact (mem_cons.mp ((hmem j).mpr ⟨hj, hp⟩)).resolve_left ((hfirst j hj).mp (hmin hfull))
    · rw [decodedUpTo, if_pos hfull, Int.add_sub_cancel]
  · next hfull =>
    cases h
    refine ⟨ht.advance (.refl _) hheld hnone hn hh, ⟨hheld, fun j => ?_⟩, hinfo (.refl _), buffered,
      ?_⟩
    · simp [hmem, hfull]
    · rw [decodedUpTo, if_neg hfull]

/-- With its frame moved out of the map, one frame less is buffered. -/
theorem Tidy.moveFrame (ht : Tidy b) (hsome : (info b.frames k).frame.isSome) :
    Tidy { b with
      frames := modify k (·.setFrame none) b.frames
      numFramesBuffered := b.numFramesBuffered - 1
      waiting := false } := by
  have hheld := mem_keys_of_frame hsome
  refine ⟨?_, (sorted_modify _ _).mpr ht.sorted, ?_, ?_, ?_, ?_, fun h => nomatch h⟩
  · rw [keys_modify]; exact ht.window
  · rw [keys_modify]; exact ht.last_held
  · intro j hj
    rw [info_modify hheld]
    split
    · rfl
    · exact ht.history j hj
  · have := countP_setFrame hheld none
    rw [if_pos hsome, if_neg (by simp)] at this
    dsimp only
    rw [ht.buffered_eq]
    omega
  rw [countP_modify_same (fun e => atOrBefore b.lastDecodedFrame e.1) k
    (FrameInfo.setFrame none) _ fun _ => rfl]
  exact ht.history_eq

theorem returnFrame_eq (hwait : b.waiting) (hnext : b.nextFrame = some k)
    (hf : (info b.frames k).frame = some f) :
    returnFrame b =
      match propagateDecodability (info b.frames k).dependentFrames
        (modify k (·.setFrame none) b.frames) with
      | .error e => .error e
      | .ok m =>
        match advanceLastDecodedFrame k { b with frames := m } with
        | .error e => .error e
        | .ok b =>
          .ok ({ b with lastDecodedFrameTimestamp := f.timestamp, waiting := false }, some f) := by
  have hheld : k ∈ keys b.frames := mem_keys_of_frame (by rw [hf]; rfl)
  have hdeps : (info (modify k (·.setFrame none) b.frames) k).dependentFrames =
      (info b.frames k).dependentFrames := by
    rw [info_modify hheld, if_pos rfl]
    rfl
  unfold returnFrame
  rw [hwait, hnext]
  dsimp only
  rw [hf]
  rw [hdeps]
  rfl

/-- What the second part of `NextFrame` did when it returned a frame. -/
theorem returnFrame_cases {out : Option FrameObject} (h : returnFrame b = .ok (b', out)) :
    (out = none ∧ (b' = b ∨ b' = { b with waiting := false })) ∨
      ∃ k f m b₁, b.waiting ∧ b.nextFrame = some k ∧ (info b.frames k).frame = some f ∧
        out = some f ∧
        propagateDecodability (info b.frames k).dependentFrames
          (modify k (·.setFrame none) b.frames) = .ok m ∧
        advanceLastDecodedFrame k { b with frames := m } = .ok b₁ ∧
        b' = { b₁ with lastDecodedFrameTimestamp := f.timestamp, waiting := false } := by
  have hret := h
  unfold returnFrame at h
  split at h
  · cases h; exact .inl ⟨rfl, .inl rfl⟩
  rename_i hwait
  split at h
  · cases h; exact .inl ⟨rfl, .inr rfl⟩
  rename_i k hk
  split at h
  · cases h
  rename_i f hf
  rw [returnFrame_eq (by simpa using hwait) hk hf] at hret
  split at hret
  · cases hret
  rename_i m hprop
  split at hret
  · cases hret
  rename_i b₁ hadv
  cases hret
  exact .inr ⟨k, f, m, b₁, by simpa using hwait, hk, hf, rfl, hprop, hadv, rfl⟩

/-- `NextFrame` has returned the frame `f` stored under `k`. -/
structure Returned (b : FrameBuffer) (k : FrameKey) (f : FrameObject) (b' : FrameBuffer) : Prop
    extends Advanced b k b'.frames where
  tidy : Tidy b'
  waiting : b.waiting = true
  next : b.nextFrame = some k
  stored : (info b.frames k).frame = some f
  eq : ∃ n, b' = { decodedUpTo b k b'.frames n with
    lastDecodedFrameTimestamp := f.timestamp
    waiting := false }
  info_eq : ∀ j ∈ keys b'.frames, info b'.frames j = { info b.frames j with
    numMissingDecodable :=
      (info b.frames j).numMissingDecodable - (info b.frames k).dependentFrames.count j
    frame := if j = k then none else (info b.frames j).frame }

theorem returnFrame_returned (ht : Tidy b) (h : returnFrame b = .ok (b', some f)) :
    ∃ k, Returned b k f b' := by
  rcases returnFrame_cases h with ⟨h, -⟩ | ⟨k, g, m, b₁, hwait, hnext, hg, hout, hprop, hadv, rfl⟩
  · cases h
  cases hout
  have hsome : (info b.frames k).frame.isSome := by rw [hg]; rfl
  have hd := decoded_of_eq hprop
  have hnone : (info m k).frame = none := by
    rw [hd.edited.frame, info_modify (mem_keys_of_frame hsome), if_pos rfl]
    rfl
  obtain ⟨ht₁, hA, hinfo, n, heq⟩ := advanceLastDecodedFrame_spec
    (hd.edited.tidy_same (ht.moveFrame hsome)) hnone hadv
  have hkeys : keys m = keys b.frames := hd.keys_eq.trans (keys_modify _ _ _)
  refine ⟨k, ⟨hA.held, fun j => hkeys ▸ hA.mem_iff j⟩,
    ht₁.of_eq rfl rfl rfl rfl (fun h => nomatch h), hwait, hnext, hg, ⟨n, ?_⟩, fun j hj => ?_⟩
  · rw [heq]; rfl
  · dsimp only
    rw [hinfo j hj, hd.info_eq, info_modify (mem_keys_of_frame hsome)]
    by_cases hjk : j = k <;> simp [hjk, FrameInfo.setFrame]

theorem returnFrame_tidy {out : Option FrameObject} (ht : Tidy b)
    (h : returnFrame b = .ok (b', out)) : Tidy b' := by
  cases out with
  | some f =>
    obtain ⟨k, hr⟩ := returnFrame_returned ht h
    exact hr.tidy
  | none =>
    rcases returnFrame_cases h with ⟨-, rfl | rfl⟩ | ⟨_, _, _, _, _, _, _, h, -⟩
    · exact ht
    · exact ht.of_eq rfl rfl rfl rfl (fun h => nomatch h)
    · cases h

theorem eraseUntil_ok {key : FrameKey} (h : key ∈ keys rest) (n : Int) :
    ∃ r, eraseUntil key rest n = .ok r := by
  induction rest generalizing n with
  | nil => cases h
  | cons e rest ih =>
    unfold eraseUntil
    split
    · exact ⟨_, rfl⟩
    · next hne => exact ih ((mem_cons.mp h).resolve_left (Ne.symm hne)) _

/-- The chosen frame is handed out exactly if all its dependents are in the map. -/
theorem returnFrame_spec (ht : Tidy b) (hwait : b.waiting) (hnext : b.nextFrame = some k)
    (hf : (info b.frames k).frame = some f) :
    ((∀ d ∈ (info b.frames k).dependentFrames, d ∈ keys b.frames) →
      ∃ b', returnFrame b = .ok (b', some f) ∧ Returned b k f b') ∧
    ((¬ ∀ d ∈ (info b.frames k).dependentFrames, d ∈ keys b.frames) →
      returnFrame b = .error .endDereference) := by
  have hsome : (info b.frames k).frame.isSome := by rw [hf]; rfl
  obtain ⟨hok, herr⟩ := propagateDecodability_spec (info b.frames k).dependentFrames
    (modify k (·.setFrame none) b.frames)
  rw [keys_modify] at hok herr
  refine ⟨fun hall => ?_, fun hall => by rw [returnFrame_eq hwait hnext hf, herr hall]⟩
  suffices h : ∃ b', returnFrame b = .ok (b', some f) by
    obtain ⟨b', hb'⟩ := h
    obtain ⟨j, hr⟩ := returnFrame_returned ht hb'
    cases hnext.symm.trans hr.next
    exact ⟨b', hb', hr⟩
  rw [returnFrame_eq hwait hnext hf]
  obtain ⟨m, hm, hd⟩ := hok hall
  rw [hm]
  have hedit := hd.edited.tidy_same (ht.moveFrame hsome)
  have hkm : k ∈ keys m := by
    rw [hd.keys_eq, keys_modify]
    exact mem_keys_of_frame hsome
  have hun : k ∈ keys (undecoded { b with frames := m }) := by
    refine mem_map.mpr ⟨(k, info m k), ?_, rfl⟩
    exact (hedit.mem_undecoded _).mpr ⟨mem_of_find (find_of_mem_keys hkm), (ht.next hwait k hnext).2⟩
  obtain ⟨r, hr⟩ := eraseUntil_ok hun (b.numFramesBuffered - 1)
  unfold advanceLastDecodedFrame
  dsimp only
  rw [hr]
  dsimp only
  split
  · next h => split at h <;> cases h
  · exact ⟨_, rfl⟩

/-! ## Runs -/

theorem step_tidy {op : Op} (ht : Tidy b) (hop : Orderly b op) (h : Steps b op b') : Tidy b' := by
  obtain ⟨_, h⟩ := h
  cases op with
  | insertFrame f =>
    simp only [step] at h
    split at h
    · cases h
    · next hr => cases h; exact insertFrame_tidy ht hop hr
  | selectFrame t =>
    simp only [step] at h
    split at h
    · cases h
    · next hr => cases h; exact selectFrame_tidy ht hr
  | returnFrame =>
    simp only [step] at h
    split at h
    · cases h
    · next hr => cases h; exact returnFrame_tidy ht hr
  | start | stop => cases h; exact ht.of_eq rfl rfl rfl rfl (fun h => ⟨h, rfl⟩)

theorem reaches_tidy (h : Reaches (Guarded Orderly Steps) {} b) : Tidy b :=
  h.invariant Tidy empty_tidy fun _ _ _ ht ⟨hop, hs⟩ => step_tidy ht hop hs

/-- **Counters.** In every state reached by orderly calls the two counters are exact, and
a buffer that holds no frame is not full. -/
theorem counters_exact {b : FrameBuffer} (h : Reaches (Guarded Orderly Steps) {} b) :
    b.numFramesBuffered = b.frames.countP (·.2.frame.isSome) ∧
      b.numFramesHistory = b.frames.countP (fun e => atOrBefore b.lastDecodedFrame e.1) ∧
      ((∀ e ∈ b.frames, e.2.frame = none) → b.numFramesBuffered < kMaxFramesBuffered) := by
  have ht := reaches_tidy h
  refine ⟨ht.buffered_eq, ht.history_eq, fun hempty => ?_⟩
  have hzero : b.frames.countP (·.2.frame.isSome) = 0 :=
    countP_eq_zero.mpr fun e he => by rw [hempty e he]; exact Bool.false_ne_true
  rw [ht.buffered_eq, hzero]
  decide

/-- A buffer that got one frame and handed it out. -/
theorem counters_exact_one_frame :
    let b : FrameBuffer :=
      { frames := [(⟨7, 0⟩, { continuous := true })], lastDecodedFrame := some ⟨7, 0⟩,
        lastContinuousFrame := some ⟨7, 0⟩, nextFrame := some ⟨7, 0⟩, numFramesHistory := 1 }
    Reaches (Guarded Orderly Steps) {} b ∧
      b.numFramesHistory = b.frames.countP (fun e => atOrBefore b.lastDecodedFrame e.1) ∧
      b.numFramesBuffered < kMaxFramesBuffered := by
  intro b
  have hr : Reaches (Guarded Orderly Steps) {} b :=
    Reaches.refl.of_guardedRun (.insertFrame { pictureId := 7 } :: nextFrameNow)
      (by decide +kernel)
  obtain ⟨-, hhist, hfull⟩ := counters_exact hr
  exact ⟨hr, hhist, hfull (by decide)⟩

theorem exists_ok {x : Except Fault FrameBuffer} {p : FrameBuffer → Bool}
    (h : x.toOption.any p) : ∃ b, x = .ok b ∧ p b := by
  cases x with
  | error e => cases h
  | ok b => exact ⟨b, rfl, h⟩

/-- Inserting the key decoded last again: a placeholder for its lower layer lands in the
history, and a frame stored with that key is still counted after it has left the map. -/
theorem counters_drift :
    (∃ b, run {} (.insertFrame { pictureId := 5, spatialLayer := 1 } :: nextFrameNow ++
        [.insertFrame { pictureId := 5, spatialLayer := 1, interLayerPredicted := true }]) = .ok b ∧
      (b.numFramesHistory == 1 &&
        b.frames.countP (fun e => atOrBefore b.lastDecodedFrame e.1) == 2) = true) ∧
    (∃ b, run {} (.insertFrame { pictureId := 0 } :: nextFrameNow ++
        .insertFrame { pictureId := 0 } :: (List.range 50).flatMap fun i =>
          .insertFrame { pictureId := BitVec.ofNat 16 (i + 1) } :: nextFrameNow) = .ok b ∧
      (b.numFramesBuffered == 1 && b.frames.countP (·.2.frame.isSome) == 0) = true) :=
  ⟨exists_ok (by decide +kernel), exists_ok (by decide +kernel)⟩

end WebRtc.Video.Frames
