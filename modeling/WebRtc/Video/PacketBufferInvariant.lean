import WebRtc.Video.PacketBufferSearch

/-! The invariant of the packet ring. A used slot sits where its sequence number puts
it, and an *open* slot (continuous, not yet part of a frame) is rooted: going back slot
by slot over open slots with falling sequence numbers ends at a `frame_begin` slot. -/

namespace WebRtc.Video.Packets
open SequenceNumber

variable {b : PacketBuffer} {size e : Nat} {info : Nat → ContinuityInfo}

/-- A slot whose packet is continuous and waits for the end of its frame. -/
def Open (c : ContinuityInfo) : Prop :=
  c.used = true ∧ c.continuous = true ∧ c.frameCreated = false

/-- Slot `i` is open and its run of open slots starts at a `frame_begin` slot. -/
inductive Rooted (size : Nat) (info : Nat → ContinuityInfo) : Nat → Prop
  | first {i : Nat} : i < size → Open (info i) → (info i).frameBegin = true → Rooted size info i
  | next {i : Nat} : i < size → Open (info i) → (info i).frameBegin = false →
      (info (prevIndex size i)).seqNum = (info i).seqNum - 1 →
      Rooted size info (prevIndex size i) → Rooted size info i

/-- The ring without regard to frames: its shape, its sizes and where packets sit. -/
structure WellFormed (b : PacketBuffer) : Prop where
  shaped : Shaped b
  pow : ∃ k, b.size = 2 ^ k
  maxPow : ∃ k, b.maxSize = 2 ^ k
  le_max : b.size ≤ b.maxSize
  slot : ∀ i, i < b.size → (b.info i).used = true → (b.info i).seqNum.toNat % b.size = i
  data : ∀ i, i < b.size → (b.info i).used = true → (b.packet i).seqNum = (b.info i).seqNum

structure Inv (b : PacketBuffer) : Prop where
  wf : WellFormed b
  rooted : ∀ i, i < b.size → Open (b.info i) → Rooted b.size b.info i
  unfinished : ∀ i, i < b.size → Open (b.info i) → (b.info i).frameEnd = false

theorem WellFormed.pos (h : WellFormed b) : 0 < b.size := by
  obtain ⟨k, hk⟩ := h.pow
  rw [hk]
  exact Nat.two_pow_pos k

theorem Rooted.lt {i : Nat} (h : Rooted size info i) : i < size := by
  cases h <;> assumption

theorem Rooted.open {i : Nat} (h : Rooted size info i) : Open (info i) := by
  cases h <;> assumption

theorem Rooted.exists_begin {i : Nat} (h : Rooted size info i) :
    ∃ j < size, (info j).frameBegin := by
  induction h with
  | first hi _ hb => exact ⟨_, hi, hb⟩
  | next _ _ _ _ _ ih => exact ih

/-- Rootedness moves to another ring of the same size as long as the kept slots are
closed under going back and keep the flags it reads. -/
theorem Rooted.transfer {info' : Nat → ContinuityInfo} (P : Nat → Prop)
    (hkeep : ∀ i < size, Open (info i) → P i → Open (info' i) ∧
      (info' i).frameBegin = (info i).frameBegin ∧ (info' i).seqNum = (info i).seqNum)
    (hprev : ∀ i < size, Open (info i) → (info i).frameBegin = false →
      Open (info (prevIndex size i)) → P i → P (prevIndex size i)) {i : Nat}
    (h : Rooted size info i) (hP : P i) : Rooted size info' i := by
  induction h with
  | first hi ho hb =>
    obtain ⟨ho', hb', _⟩ := hkeep _ hi ho hP
    exact .first hi ho' (hb'.trans hb)
  | next hi ho hb hseq hr ih =>
    have hPprev := hprev _ hi ho hb hr.open hP
    obtain ⟨ho', hb', hs'⟩ := hkeep _ hi ho hP
    obtain ⟨_, _, hs''⟩ := hkeep _ (prevIndex_lt hi) hr.open hPprev
    exact .next hi ho' (hb'.trans hb) (by rw [hs'', hseq, hs']) (ih hPprev)

/-! ## Writing the flags of `FindFrames` -/

/-- `b'` differs from `b` only in `continuous` and `frame_created` flags. -/
structure SameSlots (b b' : PacketBuffer) : Prop where
  shaped : Shaped b'
  size : b'.size = b.size
  maxSize : b'.maxSize = b.maxSize
  packet : ∀ i, b'.packet i = b.packet i
  seqNum : ∀ i, (b'.info i).seqNum = (b.info i).seqNum
  used : ∀ i, (b'.info i).used = (b.info i).used
  frameBegin : ∀ i, (b'.info i).frameBegin = (b.info i).frameBegin
  frameEnd : ∀ i, (b'.info i).frameEnd = (b.info i).frameEnd

theorem SameSlots.refl (hs : Shaped b) : SameSlots b b :=
  ⟨hs, rfl, rfl, fun _ => rfl, fun _ => rfl, fun _ => rfl, fun _ => rfl, fun _ => rfl⟩

theorem SameSlots.trans {b' b'' : PacketBuffer} (h : SameSlots b b') (h' : SameSlots b' b'') :
    SameSlots b b'' where
  shaped := h'.shaped
  size := h'.size.trans h.size
  maxSize := h'.maxSize.trans h.maxSize
  packet i := (h'.packet i).trans (h.packet i)
  seqNum i := (h'.seqNum i).trans (h.seqNum i)
  used i := (h'.used i).trans (h.used i)
  frameBegin i := (h'.frameBegin i).trans (h.frameBegin i)
  frameEnd i := (h'.frameEnd i).trans (h.frameEnd i)

theorem SameSlots.wellFormed {b' : PacketBuffer} (h : SameSlots b b') (hw : WellFormed b) :
    WellFormed b' where
  shaped := h.shaped
  pow := h.size ▸ hw.pow
  maxPow := h.maxSize ▸ hw.maxPow
  le_max := by rw [h.size, h.maxSize]; exact hw.le_max
  slot i hi hu := by
    rw [h.size] at hi ⊢
    rw [h.used] at hu
    rw [h.seqNum]
    exact hw.slot i hi hu
  data i hi hu := by
    rw [h.size] at hi
    rw [h.used] at hu
    rw [h.packet, h.seqNum]
    exact hw.data i hi hu

theorem setContinuous_info (hs : Shaped b) (he : e < b.size) (i : Nat) :
    (setContinuous b e).info i = if i = e then { b.info e with continuous := true } else b.info i :=
  PacketBuffer.modifyInfo_info hs he i _

theorem setContinuous_sameSlots (hs : Shaped b) (he : e < b.size) :
    SameSlots b (setContinuous b e) := by
  refine ⟨hs.modifyInfo _ _, rfl, rfl, fun _ => rfl, ?_, ?_, ?_, ?_⟩ <;>
    (intro i; rw [setContinuous_info hs he]; split <;> simp [*])

theorem markBack_sameSlots (hs : Shaped b) (he : e < b.size) (n : Nat) :
    SameSlots b (markBack n e b) := by
  obtain ⟨hsh, hsize, hmax, hp⟩ := markBack_shaped n e b hs
  refine ⟨hsh, hsize, hmax, hp, ?_, ?_, ?_, ?_⟩ <;>
    (intro i; rcases markBack_info n hs he i with ⟨_, h⟩ | ⟨_, _, _, h⟩ <;> rw [h])

/-- The end of a frame at slot `e`: the search marks the `n + 1` slots of the frame. -/
def markFrame (n e : Nat) (b : PacketBuffer) : PacketBuffer :=
  markBack (n + 1) e (setContinuous b e)

theorem markFrame_sameSlots (hs : Shaped b) (he : e < b.size) (n : Nat) :
    SameSlots b (markFrame n e b) :=
  (setContinuous_sameSlots hs he).trans (markBack_sameSlots (hs.modifyInfo _ _) he (n + 1))

/-- A slot is either left alone, or it is one of the frame and marked. -/
theorem markFrame_info (hs : Shaped b) (he : e < b.size) (n i : Nat) :
    ((∀ m < n + 1, backBy b.size m e ≠ i) ∧ (markFrame n e b).info i = b.info i) ∨
      ∃ m < n + 1, backBy b.size m e = i ∧ ((markFrame n e b).info i).frameCreated = true := by
  have hset : Shaped (setContinuous b e) := hs.modifyInfo _ _
  unfold markFrame
  rcases markBack_info (n + 1) hset he i with ⟨hno, hi⟩ | ⟨m, hm, hmi, hi⟩
  · refine .inl ⟨hno, ?_⟩
    rw [hi, setContinuous_info hs he, if_neg fun hie => hno 0 (Nat.succ_pos n) hie.symm]
  · exact .inr ⟨m, hm, hmi, by rw [hi]⟩

/-! ## One packet of `FindFrames` -/

/-- What `PotentialNewFrame` says about the slot `e` it accepts. -/
structure Candidate (b : PacketBuffer) (e : Nat) : Prop where
  lt : e < b.size
  used : (b.info e).used = true
  fresh : (b.info e).frameCreated = false
  source : (b.info e).frameBegin = true ∨
    ((b.info e).frameBegin = false ∧ Open (b.info (prevIndex b.size e)) ∧
      (b.info (prevIndex b.size e)).seqNum = (b.info e).seqNum - 1)

theorem potentialNewFrame_candidate (hpos : 0 < b.size) {seqNum : BitVec 16}
    (h : potentialNewFrame b seqNum) : Candidate b (seqNum.toNat % b.size) := by
  have hlt := Nat.mod_lt seqNum.toNat hpos
  unfold potentialNewFrame at h
  simp only [Bool.not_eq_true', ne_eq] at h
  split at h
  · exact absurd h Bool.false_ne_true
  rename_i hu
  split at h
  · exact absurd h Bool.false_ne_true
  rename_i hc
  refine ⟨hlt, by simpa using hu, by simpa using hc, ?_⟩
  split at h
  · next hb => exact Or.inl hb
  rename_i hb
  split at h
  · exact absurd h Bool.false_ne_true
  rename_i hpu
  split at h
  · exact absurd h Bool.false_ne_true
  rename_i hpc
  split at h
  · exact absurd h Bool.false_ne_true
  rename_i hseq
  exact Or.inr ⟨by simpa using hb, ⟨by simpa using hpu, h, by simpa using hpc⟩, not_not.mp hseq⟩

/-- Open slots of `b` stay open and keep their flags when `e` becomes continuous. -/
theorem setContinuous_keeps (hs : Shaped b) (he : e < b.size) (i : Nat) (ho : Open (b.info i)) :
    Open ((setContinuous b e).info i) ∧
      ((setContinuous b e).info i).frameBegin = (b.info i).frameBegin ∧
      ((setContinuous b e).info i).seqNum = (b.info i).seqNum := by
  rw [setContinuous_info hs he]
  split
  · next h => subst h; exact ⟨⟨ho.1, rfl, ho.2.2⟩, rfl, rfl⟩
  · exact ⟨ho, rfl, rfl⟩

/-- The accepted slot is rooted once it is marked continuous. -/
theorem Candidate.rooted (hinv : Inv b) (hc : Candidate b e) :
    Rooted b.size (setContinuous b e).info e := by
  have hs := hinv.wf.shaped
  have hsame := setContinuous_sameSlots hs hc.lt
  have ho : Open ((setContinuous b e).info e) := by
    rw [setContinuous_info hs hc.lt, if_pos rfl]
    exact ⟨hc.used, rfl, hc.fresh⟩
  rcases hc.source with hb | ⟨hb, hopen, hseq⟩
  · exact .first hc.lt ho (by rw [hsame.frameBegin]; exact hb)
  refine .next hc.lt ho (by rw [hsame.frameBegin]; exact hb)
    (by rw [hsame.seqNum, hsame.seqNum]; exact hseq) ?_
  exact (hinv.rooted _ (prevIndex_lt hc.lt) hopen).transfer (fun _ => True)
    (fun i _ ho _ => setContinuous_keeps hs hc.lt i ho) (fun _ _ _ _ _ _ => trivial) trivial

/-- A packet in the middle of a frame: the accepted slot becomes open. -/
theorem setContinuous_inv (hinv : Inv b) (hc : Candidate b e) (hend : (b.info e).frameEnd = false) :
    Inv (setContinuous b e) := by
  have hs := hinv.wf.shaped
  have hsame := setContinuous_sameSlots hs hc.lt
  refine ⟨hsame.wellFormed hinv.wf, ?_, ?_⟩
  · intro i hi ho
    by_cases hie : i = e
    · subst hie
      exact hc.rooted hinv
    rw [setContinuous_info hs hc.lt, if_neg hie] at ho
    exact (hinv.rooted i hi ho).transfer (fun _ => True)
      (fun i _ ho _ => setContinuous_keeps hs hc.lt i ho) (fun _ _ _ _ _ _ => trivial) trivial
  · intro i hi ho
    rw [hsame.frameEnd]
    by_cases hie : i = e
    · subst hie
      exact hend
    · rw [setContinuous_info hs hc.lt, if_neg hie] at ho
      exact hinv.unfinished i hi ho

/-- The last packet of a frame: the search marks a run of slots that ends at the
accepted one, so no open slot loses its root. -/
theorem markFrame_inv (hinv : Inv b) (hc : Candidate b e) (hend : (b.info e).frameEnd)
    (n : Nat) : Inv (markFrame n e b) := by
  have hs := hinv.wf.shaped
  have hsame := markFrame_sameSlots hs hc.lt n
  -- an open slot of the result is not marked, so it was open before
  have hback : ∀ i, Open ((markFrame n e b).info i) →
      (∀ m < n + 1, backBy b.size m e ≠ i) ∧ Open (b.info i) := by
    intro i ho
    rcases markFrame_info hs hc.lt n i with ⟨hno, hi⟩ | ⟨_, _, _, hi⟩
    · exact ⟨hno, hi ▸ ho⟩
    · rw [ho.2.2] at hi
      cases hi
  refine ⟨hsame.wellFormed hinv.wf, ?_, ?_⟩
  · intro i hi ho
    obtain ⟨hno, hob⟩ := hback i ho
    rw [hsame.size] at hi ⊢
    refine (hinv.rooted i hi hob).transfer (fun j => ∀ m < n + 1, backBy b.size m e ≠ j)
      ?_ ?_ hno
    · intro j _ hoj hnoj
      refine ⟨?_, hsame.frameBegin j, hsame.seqNum j⟩
      rcases markFrame_info hs hc.lt n j with ⟨_, h⟩ | ⟨m, hm, hmj, _⟩
      · rw [h]; exact hoj
      · exact absurd hmj (hnoj m hm)
    intro j hj _ _ hop hnoj m hm hmj
    cases m with
    | zero =>
      -- the slot before `j` would be the frame end itself, which was not open
      have := hinv.unfinished _ (prevIndex_lt hj) hop
      rw [← hmj] at this
      rw [show backBy b.size 0 e = e from rfl, hend] at this
      exact Bool.noConfusion this
    | succ m =>
      rw [backBy_succ] at hmj
      exact hnoj m (by omega) (prevIndex_inj (backBy_lt m hc.lt) hj hmj)
  · intro i hi ho
    rw [hsame.frameEnd]
    exact hinv.unfinished i (hsame.size ▸ hi) (hback i ho).2

end WebRtc.Video.Packets
