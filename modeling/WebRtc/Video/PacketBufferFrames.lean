import WebRtc.Video.PacketBufferLookup

/-! The frames `FindFrames` hands out: what the backward search collects, and why every packet it
visits belongs to the frame. -/

namespace WebRtc.Video.Packets
open SequenceNumber List

variable {f : RtpFrameObject} {n : Nat} {s : BitVec 16} {b b' : PacketBuffer}
  {fs : List RtpFrameObject}
variable {i e fuel : Nat}

/-! ## The numbers of a frame -/

/-- `s` is one of the numbers from the first to the last one of the frame. -/
def Covers (f : RtpFrameObject) (s : BitVec 16) : Prop :=
  (s - f.firstSeqNum).toNat ≤ (f.lastSeqNum - f.firstSeqNum).toNat

instance (f : RtpFrameObject) (s : BitVec 16) : Decidable (Covers f s) :=
  inferInstanceAs (Decidable (_ ≤ _))

/-- The number of packets of the frame. -/
def RtpFrameObject.count (f : RtpFrameObject) : Nat := (f.lastSeqNum - f.firstSeqNum).toNat + 1

theorem covers_first (f : RtpFrameObject) : Covers f f.firstSeqNum := by
  unfold Covers
  simp

theorem covers_last (f : RtpFrameObject) : Covers f f.lastSeqNum := Nat.le_refl _

/-- A frame of `n + 1` packets, counted from its last one. -/
theorem covers_iff (hn : n < 65536) (hfirst : f.firstSeqNum = f.lastSeqNum - BitVec.ofNat 16 n)
    (s : BitVec 16) : Covers f s ↔ ∃ m ≤ n, s = f.lastSeqNum - BitVec.ofNat 16 m := by
  unfold Covers
  rw [hfirst]
  generalize f.lastSeqNum = l
  constructor
  · intro h
    exact ⟨(l - s).toNat, by bv_omega, by bv_omega⟩
  · rintro ⟨m, hm, rfl⟩
    bv_omega

theorem count_eq (hn : n < 65536) (hfirst : f.firstSeqNum = f.lastSeqNum - BitVec.ofNat 16 n) :
    f.count = n + 1 := by
  unfold RtpFrameObject.count
  bv_omega

/-! ## What the search collects -/

/-- The slots visited from `e` on hold consecutive numbers down from `s`. -/
def RunBack (b : PacketBuffer) (e : Nat) (s : BitVec 16) (n : Nat) : Prop :=
  ∀ m, m ≤ n → (s - BitVec.ofNat 16 m).toNat % b.size = backBy b.size m e ∧
    lookup b (s - BitVec.ofNat 16 m) =
      some (b.info (backBy b.size m e), b.packet (backBy b.size m e))

/-- Going back over open slots up to a `frame_begin`. -/
theorem Rooted.walk {size : Nat} {info : Nat → ContinuityInfo} (h : Rooted size info i)
    (hpass : ∀ m < n, (info (backBy size m i)).frameBegin = false) (m : Nat) (hm : m ≤ n) :
    Rooted size info (backBy size m i) ∧
      (info (backBy size m i)).seqNum = (info i).seqNum - BitVec.ofNat 16 m := by
  induction m with
  | zero => exact ⟨h, by simp [backBy]⟩
  | succ m ih =>
    obtain ⟨hr, hseq⟩ := ih (by omega)
    have hnot := hpass m (by omega)
    cases hr with
    | first _ _ hb => rw [hnot] at hb; cases hb
    | next _ _ _ hprev hr' =>
      rw [backBy_succ]
      refine ⟨hr', ?_⟩
      bv_omega

section Slots

variable (h : ∀ m ≤ n, (s - BitVec.ofNat 16 m).toNat % b.size = backBy b.size m e)
include h

/-- The slots of at most `2 ^ 16` numbers: in a ring that is larger a run does not pass slot 0. -/
theorem le_of_slots (hlarge : 65536 < b.size) : n ≤ s.toNat := by
  by_contra hgt
  have hzero := h 0 (Nat.zero_le n)
  have hslot := h (s.toNat + 1) (by omega)
  rw [BitVec.sub_zero, Nat.mod_eq_of_lt (show s.toNat < b.size by omega)] at hzero
  rw [← show s.toNat = e from hzero, backBy_succ, backBy_le (Nat.le_refl _), Nat.sub_self,
    show prevIndex b.size 0 = b.size - 1 from rfl, Nat.mod_eq_of_lt (by omega)] at hslot
  omega

theorem lt_of_slots (hn : n < b.size) : n < 65536 := by
  by_contra hge
  have hle := le_of_slots h (by omega)
  omega

end Slots

/-! ## Handing out frames -/

theorem SameSlots.symm (h : SameSlots b b') (hs : Shaped b) : SameSlots b' b :=
  ⟨hs, h.size.symm, h.maxSize.symm, fun i => (h.packet i).symm, fun i => (h.seqNum i).symm,
    fun i => (h.used i).symm, fun i => (h.frameBegin i).symm, fun i => (h.frameEnd i).symm⟩

theorem SameSlots.lookup_eq (h : SameSlots b b') {x : BitVec 16} {c : ContinuityInfo}
    {p : VCMPacket} (hl : lookup b x = some (c, p)) :
    lookup b' x = some (b'.info (x.toNat % b.size), p) := by
  obtain ⟨hu, hseq, rfl, rfl⟩ := lookup_eq_some.mp hl
  rw [lookup_eq_some, h.size, h.used, h.seqNum, h.packet]
  exact ⟨hu, hseq, rfl, rfl⟩

/-- The flags that no search writes are read alike before and after. -/
theorem SameSlots.lookup_some (h : SameSlots b b') {x : BitVec 16} {c' : ContinuityInfo}
    {p : VCMPacket} (hl : lookup b' x = some (c', p)) :
    ∃ c, lookup b x = some (c, p) ∧ c.frameBegin = c'.frameBegin ∧ c.frameEnd = c'.frameEnd := by
  obtain ⟨hu, hseq, rfl, rfl⟩ := lookup_eq_some.mp hl
  rw [h.size] at hu hseq ⊢
  rw [h.used] at hu
  rw [h.seqNum] at hseq
  exact ⟨_, lookup_eq_some.mpr ⟨hu, hseq, rfl, (h.packet _).symm⟩, (h.frameBegin _).symm,
    (h.frameEnd _).symm⟩

/-- All packets of the frame are buffered and in no frame yet. -/
def Held (b : PacketBuffer) (f : RtpFrameObject) : Prop :=
  ∀ x, Covers f x → ∃ c p, lookup b x = some (c, p) ∧ c.frameCreated = false

/-- The first packet and no other begins the frame, and the last one ends it. -/
structure Delimited (b : PacketBuffer) (f : RtpFrameObject) : Prop where
  begin : ∀ x c p, Covers f x → lookup b x = some (c, p) →
    (c.frameBegin = true ↔ x = f.firstSeqNum)
  last : ∀ c p, lookup b f.lastSeqNum = some (c, p) → c.frameEnd = true

theorem SameSlots.delimited (h : SameSlots b b') (hd : Delimited b f) : Delimited b' f := by
  refine ⟨fun x c' p hx hl => ?_, fun c' p hl => ?_⟩
  · obtain ⟨c, hl', hb, _⟩ := h.lookup_some hl
    rw [← hb]
    exact hd.begin x c p hx hl'
  obtain ⟨c, hl', _, he⟩ := h.lookup_some hl
  rw [← he]
  exact hd.last c p hl'

/-- Two frames without a common number. -/
def Disjoint (f g : RtpFrameObject) : Prop := ∀ x, Covers f x → ¬ Covers g x

/-- From `b` to `b'` the packets of `frames` have been marked as part of a frame, and no others. -/
structure Marked (b : PacketBuffer) (frames : List RtpFrameObject) (b' : PacketBuffer) : Prop where
  same : SameSlots b b'
  created : ∀ x c p, lookup b x = some (c, p) → ∃ c', lookup b' x = some (c', p) ∧
    (c'.frameCreated = true ↔ c.frameCreated = true ∨ ∃ f, f ∈ frames ∧ Covers f x)

theorem Marked.refl (hs : Shaped b) : Marked b [] b :=
  ⟨.refl hs, fun _ c _ h => ⟨c, h, by simp⟩⟩

theorem Marked.trans {b'' : PacketBuffer} {gs : List RtpFrameObject} (h : Marked b fs b')
    (h' : Marked b' gs b'') : Marked b (fs ++ gs) b'' := by
  refine ⟨h.same.trans h'.same, fun x c p hl => ?_⟩
  obtain ⟨c', hl', hc'⟩ := h.created x c p hl
  obtain ⟨c'', hl'', hc''⟩ := h'.created x c' p hl'
  refine ⟨c'', hl'', ?_⟩
  rw [hc'', hc', or_assoc]
  simp only [mem_append, or_and_right, exists_or]

theorem Marked.setContinuous (hs : Shaped b) (he : e < b.size) :
    Marked b [] (setContinuous b e) := by
  have hsame := setContinuous_sameSlots hs he
  refine ⟨hsame, fun x c p hl => ⟨_, hsame.lookup_eq hl, ?_⟩⟩
  obtain ⟨_, _, rfl, rfl⟩ := lookup_eq_some.mp hl
  rw [setContinuous_info hs he]
  split
  · next h => rw [← h]; simp
  · simp

/-- Marking the slots of a run of packets marks the frame from its first to its last packet. -/
theorem Marked.markFrame (hs : Shaped b) (he : e < b.size) (hn : n < 65536)
    (hfirst : f.firstSeqNum = f.lastSeqNum - BitVec.ofNat 16 n)
    (hrun : RunBack b e f.lastSeqNum n) : Marked b [f] (markFrame n e b) := by
  have hsame := markFrame_sameSlots hs he n
  refine ⟨hsame, fun x c p hl => ⟨_, hsame.lookup_eq hl, ?_⟩⟩
  obtain ⟨_, hseq, rfl, rfl⟩ := lookup_eq_some.mp hl
  simp only [mem_singleton, exists_eq_left, covers_iff hn hfirst]
  rcases markFrame_info hs he n (x.toNat % b.size) with ⟨hno, hinfo⟩ | ⟨m, hm, hmx, hinfo⟩
  · rw [hinfo]
    refine (or_iff_left ?_).symm
    rintro ⟨m, hm, rfl⟩
    exact hno m (by omega) (hrun m hm).1.symm
  refine iff_of_true hinfo (.inr ⟨m, by omega, ?_⟩)
  obtain ⟨hslot, hrunl⟩ := hrun m (by omega)
  rw [← hseq, ← hmx, ← hslot]
  exact (lookup_eq_some.mp hrunl).2.1

/-- A frame that is held after others were marked was held before and has no number in common with
them. -/
theorem Marked.held (h : Marked b fs b') {g : RtpFrameObject} (hg : Held b' g) :
    Held b g ∧ ∀ f ∈ fs, Disjoint f g := by
  have hunmarked : ∀ x, Covers g x → ∃ c p, lookup b x = some (c, p) ∧
      ¬ (c.frameCreated ∨ ∃ f ∈ fs, Covers f x) := by
    intro x hx
    obtain ⟨c', p, hl', hc'⟩ := hg x hx
    obtain ⟨c, hl, _, _⟩ := h.same.lookup_some hl'
    obtain ⟨c'', hl'', hcreated⟩ := h.created x c p hl
    rw [hl'] at hl''
    cases hl''
    exact ⟨c, p, hl, fun hmark => by rw [hcreated.mpr hmark] at hc'; cases hc'⟩
  refine ⟨fun x hx => ?_, fun f hf x hfx hgx => ?_⟩
  · obtain ⟨c, p, hl, hc⟩ := hunmarked x hx
    exact ⟨c, p, hl, by simpa using fun hcr => hc (.inl hcr)⟩
  · obtain ⟨c, p, _, hc⟩ := hunmarked x hgx
    exact hc (.inr ⟨f, hf, hfx⟩)

/-- A held frame without a marked number is held afterwards. -/
theorem Marked.still_held (h : Marked b fs b') {g : RtpFrameObject} (hg : Held b g)
    (hdisj : ∀ f ∈ fs, Disjoint f g) : Held b' g := by
  intro x hx
  obtain ⟨c, p, hl, hc⟩ := hg x hx
  obtain ⟨c', hl', hcreated⟩ := h.created x c p hl
  refine ⟨c', p, hl', ?_⟩
  by_contra hc'
  rcases hcreated.mp (by simpa using hc') with hcr | ⟨f, hf, hfx⟩
  · rw [hc] at hcr
    cases hcr
  · exact hdisj f hf x hfx hx

/-! ## No frame end is overlooked -/

/-- Every candidate is open already, but for the slot that holds `s`. Between two calls there is no
such slot: a packet that could end a frame has ended one. -/
def ClosedBut (b : PacketBuffer) (s : BitVec 16) : Prop :=
  ∀ i, Candidate b i → Open (b.info i) ∨ (i = s.toNat % b.size ∧ (b.info i).seqNum = s)

def Closed (b : PacketBuffer) : Prop := ∀ i, Candidate b i → Open (b.info i)

/-- Slots that keep what they hold have the candidates they had. -/
theorem Candidate.of_kept (h : Candidate b' i) (hsize : b'.size = b.size)
    (hi : b'.info i = b.info i) (hprev : Open (b'.info (prevIndex b.size i)) →
      b'.info (prevIndex b.size i) = b.info (prevIndex b.size i)) : Candidate b i := by
  have hused := h.used
  have hfresh := h.fresh
  have hsource := h.source
  rw [hi, hsize] at hsource
  rw [hi] at hused hfresh
  refine ⟨hsize ▸ h.lt, hused, hfresh, hsource.imp_right fun ⟨hb, ho, hseq⟩ => ⟨hb, ?_, ?_⟩⟩
  · rw [← hprev ho]
    exact ho
  · rw [← hprev ho]
    exact hseq

theorem Freed.closed (h : Freed b b') (hc : Closed b) : Closed b' := by
  intro i hcand
  have hi := h.info_eq hcand.used
  have := hc i (hcand.of_kept h.size hi fun ho => h.info_eq ho.1)
  rw [hi]
  exact this

theorem Expanded.closed (h : Expanded b b') (hw : WellFormed b) (hsmall : b.size < 65536)
    (hc : Closed b) : Closed b' := by
  intro j hcand
  obtain ⟨i, hi, hui, rfl⟩ := h.origin j hcand.used
  have hm := (h.moved i hi hui).1
  have hfresh := hcand.fresh
  have hsource := hcand.source
  rw [hm] at hfresh hsource ⊢
  refine hc i ⟨hi, hui, hfresh, hsource.imp_right fun ⟨hb, ho, hseq⟩ => ?_⟩
  -- the slot before holds the number before, in both rings
  obtain ⟨i', hi', hui', hpos⟩ := h.origin _ ho.1
  have hm' := (h.moved i' hi' hui').1
  rw [hpos] at hm'
  rw [hm'] at ho hseq
  obtain ⟨k, hk16, hk⟩ := hw.exponent hsmall
  have hprev : prevIndex b.size i = i' := by
    rw [← hw.slot i hi hui, ← hw.slot i' hi' hui', hseq, hk]
    exact prevIndex_seqNum _ (Nat.le_of_lt hk16)
  rw [hprev]
  exact ⟨hb, ho, hseq⟩

theorem storeAt_closedBut (hw : WellFormed b) (hc : Closed b) (hi : i < b.size)
    {p : VCMPacket} (hslot : p.seqNum.toNat % b.size = i) : ClosedBut (storeAt b i p) p.seqNum := by
  intro j hcand
  have hinfo := fun k => storeAt_info hw.shaped hi k p
  by_cases hji : j = i
  · exact .inr ⟨hji.trans hslot.symm, by rw [hinfo, if_pos hji]; rfl⟩
  left
  have hj : (storeAt b i p).info j = b.info j := by rw [hinfo, if_neg hji]
  rw [hj]
  refine hc j (hcand.of_kept rfl hj fun ho => ?_)
  rw [hinfo] at ho ⊢
  split at ho
  · exact Bool.noConfusion ho.2.1
  · next h => rw [if_neg h]

/-- In the middle of a frame, the only new candidate is the slot of the next number. -/
theorem setContinuous_closedBut (hw : WellFormed b) (hc : ClosedBut b s)
    (he : s.toNat % b.size = e) (hcand : Candidate b e) : ClosedBut (setContinuous b e) (s + 1) := by
  have hs := hw.shaped
  have hinfo := setContinuous_info hs hcand.lt
  have hsame := setContinuous_sameSlots hs hcand.lt
  intro i hi
  by_cases hie : i = e
  · left
    rw [hinfo, if_pos hie]
    exact ⟨hcand.used, rfl, hcand.fresh⟩
  have hii : (setContinuous b e).info i = b.info i := by rw [hinfo, if_neg hie]
  have hold : Candidate b i → Open ((setContinuous b e).info i) := by
    intro h
    rw [hii]
    exact (hc i h).resolve_right fun h => hie (h.1.trans he)
  by_cases hprev : prevIndex b.size i = e
  · by_cases hopen : Open (b.info e)
    · -- the slot was open before, so nothing has changed
      refine .inl (hold (hi.of_kept rfl hii fun _ => ?_))
      rw [hinfo, if_pos hprev, hprev]
      generalize b.info e = c at hopen
      obtain ⟨_, _, _, _, _, _⟩ := c
      obtain ⟨_, rfl, _⟩ := hopen
      rfl
    · -- the slot held `s`, so this one holds the next number
      have hse := ((hc _ hcand).resolve_left hopen).2
      have hused := hi.used
      have hsource := hi.source
      rw [hii] at hused hsource
      rcases hsource with hb | ⟨hb, _, hseq⟩
      · exact .inl (hold ⟨hi.lt, hused, hii ▸ hi.fresh, .inl hb⟩)
      · rw [show prevIndex (setContinuous b e).size i = e from hprev, hsame.seqNum, hse] at hseq
        have hnum : (b.info i).seqNum = s + 1 := by
          bv_omega
        refine .inr ⟨?_, by rw [hii]; exact hnum⟩
        rw [← hnum]
        exact (hw.slot i hi.lt hused).symm
  · refine .inl (hold (hi.of_kept rfl hii fun _ => ?_))
    rw [hinfo, if_neg hprev]

/-- At the end of a frame the candidates become fewer. -/
theorem markFrame_closed (hw : WellFormed b) (hc : ClosedBut b s)
    (he : s.toNat % b.size = e) (hcand : Candidate b e) (n : Nat) : Closed (markFrame n e b) := by
  -- a slot that is in no frame was not marked
  have hkeep : ∀ j, ((markFrame n e b).info j).frameCreated = false →
      j ≠ e ∧ (markFrame n e b).info j = b.info j := by
    intro j hj
    rcases markFrame_info hw.shaped hcand.lt n j with ⟨hno, h⟩ | ⟨_, _, _, h⟩
    · exact ⟨fun hje => hno 0 (Nat.succ_pos n) hje.symm, h⟩
    · rw [hj] at h
      cases h
  intro i hi
  obtain ⟨hie, hii⟩ := hkeep i hi.fresh
  rw [hii]
  refine (hc i (hi.of_kept (markFrame_sameSlots hw.shaped hcand.lt n).size hii fun ho =>
    (hkeep _ ho.2.2).2)).resolve_right fun h => hie (h.1.trans he)

/-! ## A call of `FindFrames` -/

theorem Candidate.potentialNewFrame (h : Candidate b (s.toNat % b.size)) :
    potentialNewFrame b s := by
  unfold Packets.potentialNewFrame
  rcases h.source with hb | ⟨hb, ⟨hu, hc, hf⟩, hseq⟩
  · simp [h.used, h.fresh, hb]
  · simp [h.used, h.fresh, hb, hu, hc, hf, hseq]

/-- A frame found in `b`: its last packet is a candidate in slot `e` that ends a frame, and the
search from there visits `n + 1` slots. -/
structure FoundFrame (b : PacketBuffer) (e n : Nat) (f : RtpFrameObject) : Prop where
  inv : Inv b
  slot : f.lastSeqNum.toNat % b.size = e
  candidate : Candidate b e
  frameEnd : (b.info e).frameEnd = true
  seqNum : (b.info e).seqNum = f.lastSeqNum
  firstSeqNum : f.firstSeqNum = f.lastSeqNum - BitVec.ofNat 16 n
  frameSize : f.frameSize = sizesBack b e (n + 1)
  lt_size : n < b.size
  stop : stopsAt ((b.packet e).codec == .h264) (b.packet e).timestamp e (setContinuous b e)
    (backBy b.size n e) = true
  pass : ∀ m, m < n → stopsAt ((b.packet e).codec == .h264) (b.packet e).timestamp e
    (setContinuous b e) (backBy b.size m e) = false

/-- The passes of `FindFrames`, with the frames they find. -/
inductive Emits : PacketBuffer → List RtpFrameObject → PacketBuffer → Prop
  | done {b : PacketBuffer} : Shaped b → Emits b [] b
  | middle {b b' : PacketBuffer} {e : Nat} {fs : List RtpFrameObject} : Shaped b → e < b.size →
      Emits (setContinuous b e) fs b' → Emits b fs b'
  | frame {b b' : PacketBuffer} {e n : Nat} {f : RtpFrameObject} {fs : List RtpFrameObject} :
      FoundFrame b e n f → Emits (markFrame n e b) fs b' → Emits b (f :: fs) b'

theorem foundFrame_of_search (hinv : Inv b) (hclosed : ClosedBut b s)
    (hcand : Candidate b (s.toNat % b.size)) (hend : (b.info (s.toNat % b.size)).frameEnd)
    {r : Search} (h : searchFrom fuel b s = some r) :
    ∃ n, FoundFrame b (s.toNat % b.size) n ⟨r.startSeqNum, s, r.frameSize, r.maxNackCount⟩ ∧
      r.buffer = markFrame n (s.toNat % b.size) b := by
  have hs := hinv.wf.shaped
  obtain ⟨n, hn⟩ := searchBack_visited (s := searchStart b s) (hs.modifyInfo _ _) hcand.lt h
  -- an open slot does not end a frame, so the slot is the one that holds `s`
  have hseq : (b.info (s.toNat % b.size)).seqNum = s := by
    refine ((hclosed _ hcand).resolve_left fun ho => ?_).2
    rw [hinv.unfinished _ hcand.lt ho] at hend
    cases hend
  refine ⟨n, ⟨hinv, rfl, hcand, hend, hseq, hn.startSeqNum, ?_, hn.lt_size hcand.lt, hn.stop,
    hn.pass⟩, hn.buffer⟩
  rw [hn.frameSize]
  exact Nat.zero_add _

theorem setContinuous_continuous (hs : Shaped b) (he : e < b.size) (i : Nat) :
    ((setContinuous b e).info i).continuous ↔ (b.info i).continuous ∨ i = e := by
  rw [setContinuous_info hs he]
  split
  · next h => simp [h]
  · next h => simp [h]

theorem markBack_continuous (hs : Shaped b) (he : e < b.size) (n i : Nat) :
    ((markBack n e b).info i).continuous = (b.info i).continuous := by
  rcases markBack_info n hs he i with ⟨_, h⟩ | ⟨_, _, _, h⟩ <;> rw [h]

/-- The passes of `FindFrames` emit their frames and leave no candidate behind. The slot `first`,
where the loop began, is the one it would come back to after a whole turn. -/
theorem findFramesLoop_emits {left first : Nat} {found found' : List RtpFrameObject}
    (hinv : Inv b) (hclosed : ClosedBut b s)
    (hturn : (s + BitVec.ofNat 16 left).toNat % b.size = first)
    (hfirst : (b.info first).continuous ∨ (s.toNat % b.size = first ∧ 0 < left))
    (h : findFramesLoop fuel left b s found = some (b', found')) :
    Inv b' ∧ Closed b' ∧ ∃ frames, found' = found ++ frames ∧ Emits b frames b' := by
  induction left generalizing b s found with
  | zero =>
    cases h
    refine ⟨hinv, fun i hi => (hclosed i hi).elim id fun hslot => ?_, [], by simp,
      .done hinv.wf.shaped⟩
    have hcont := hfirst.resolve_right fun h => absurd h.2 (Nat.lt_irrefl 0)
    rw [← hturn, show s + BitVec.ofNat 16 0 = s by simp, ← hslot.1] at hcont
    exact ⟨hi.used, hcont, hi.fresh⟩
  | succ left ih =>
    have hs := hinv.wf.shaped
    have hturn' : (s + 1 + BitVec.ofNat 16 left).toNat % b.size = first := by
      rw [← hturn, BitVec.ofNat_add, BitVec.add_assoc, BitVec.add_comm 1]
      rfl
    obtain ⟨hp, hstop⟩ | ⟨hc, hpass⟩ := findFramesLoop_cases hinv.wf s
    · rw [hstop] at h
      cases h
      refine ⟨hinv, fun i hi => (hclosed i hi).resolve_right fun hslot => ?_, [], by simp, .done hs⟩
      rw [hslot.1] at hi
      rw [hi.potentialNewFrame] at hp
      cases hp
    have hcont := setContinuous_continuous hs hc.lt first
    have hfirst' : ((setContinuous b (s.toNat % b.size)).info first).continuous :=
      hcont.mpr (hfirst.imp_right fun h => h.1.symm)
    obtain ⟨hend, hnext⟩ | ⟨hend, hnext⟩ := hpass
    · rw [hnext] at h
      obtain ⟨hinv', hclosed', frames, hfound, hemits⟩ := ih (setContinuous_inv hinv hc hend)
        (setContinuous_closedBut hinv.wf hclosed rfl hc) hturn' (.inl hfirst') h
      exact ⟨hinv', hclosed', frames, hfound, .middle hs hc.lt hemits⟩
    · rw [hnext] at h
      obtain ⟨r, hr, h⟩ := Option.bind_eq_some_iff.mp h
      obtain ⟨n, hframe, hbuffer⟩ := foundFrame_of_search hinv hclosed hc hend hr
      have hmark := markFrame_sameSlots hs hc.lt n
      have hclosed1 := markFrame_closed hinv.wf hclosed rfl hc n
      rw [hbuffer] at h
      obtain ⟨hinv', hclosed', frames, hfound, hemits⟩ := ih (markFrame_inv hinv hc hend n)
        (fun i hi => .inl (hclosed1 i hi)) (by rw [hmark.size]; exact hturn')
        (.inl ((markBack_continuous (hs.modifyInfo _ _) hc.lt _ _).trans hfirst')) h
      refine ⟨hinv', hclosed', _ :: frames, by rw [hfound, append_assoc]; rfl, .frame hframe hemits⟩

theorem findFrames_emits {frames : List RtpFrameObject} (hinv : Inv b)
    (hclosed : ClosedBut b s) (h : findFrames fuel b s = some (b', frames)) :
    Inv b' ∧ Closed b' ∧ Emits b frames b' := by
  have hturn : (s + BitVec.ofNat 16 b.size).toNat % b.size = s.toNat % b.size := by
    obtain ⟨k, hk⟩ := hinv.wf.pow
    rw [BitVec.toNat_add, BitVec.toNat_ofNat, Nat.add_mod_mod]
    rcases Nat.le_total k 16 with hle | hle
    · rw [Nat.mod_mod_of_dvd _ (hk ▸ Nat.pow_dvd_pow 2 hle), Nat.add_mod_right]
    · obtain ⟨d, hd⟩ : 2 ^ 16 ∣ b.size := hk ▸ Nat.pow_dvd_pow 2 hle
      rw [hd, Nat.add_mul_mod_self_left, Nat.mod_eq_of_lt s.isLt]
  obtain ⟨hinv', hclosed', frames', hfound, hemits⟩ := findFramesLoop_emits hinv hclosed hturn
    (.inr ⟨rfl, hinv.wf.pos⟩) h
  rw [hfound]
  exact ⟨hinv', hclosed', hemits⟩

/-! ## The frames of a call -/

theorem RunBack.of_same (h : SameSlots b b') (hr : RunBack b e s n) : RunBack b' e s n := by
  intro m hm
  obtain ⟨hslot, hl⟩ := hr m hm
  rw [h.size, h.packet, ← hslot]
  rw [← hslot] at hl
  exact ⟨rfl, h.lookup_eq hl⟩

/-- Used slots, one before the other, are the slots of the numbers down from `s`. -/
theorem slots_of_used (hw : WellFormed b) (he : s.toNat % b.size = e)
    (hused : ∀ m ≤ n, (b.info (backBy b.size m e)).used) (m : Nat) (hm : m ≤ n) :
    (s - BitVec.ofNat 16 m).toNat % b.size = backBy b.size m e := by
  subst he
  obtain ⟨k, hk⟩ := hw.pow
  rcases Nat.lt_or_ge 16 k with hlarge | hsmall
  · have hsize : 65536 < b.size := by
      rw [hk]
      exact Nat.pow_lt_pow_right (show 1 < 2 by decide) hlarge
    have hmod : s.toNat % b.size = s.toNat := Nat.mod_eq_of_lt (by omega)
    have hle : m ≤ s.toNat := by
      by_contra hgt
      have hu := hused (s.toNat + 1) (by omega)
      have hlast : backBy b.size (s.toNat + 1) (s.toNat % b.size) = b.size - 1 := by
        rw [hmod, backBy_succ, backBy_le (Nat.le_refl _), Nat.sub_self]
        rfl
      rw [hlast] at hu
      have hslot := hw.slot (b.size - 1) (by omega) hu
      rw [Nat.mod_eq_of_lt (by omega)] at hslot
      omega
    rw [hmod, backBy_le hle, Nat.mod_eq_of_lt (by have := (s - BitVec.ofNat 16 m).isLt; omega)]
    bv_omega
  · induction m with
    | zero => simp [backBy]
    | succ m ih =>
      rw [backBy_succ, ← ih (by omega), hk, prevIndex_seqNum _ hsmall, BitVec.ofNat_add]
      congr 2
      bv_omega

/-- The last packet of the frame is one of an H.264 frame. -/
def OfH264 (b : PacketBuffer) (f : RtpFrameObject) : Prop :=
  ∃ c p, lookup b f.lastSeqNum = some (c, p) ∧ p.codec = .h264

theorem FoundFrame.lookup_last (h : FoundFrame b e n f) :
    lookup b f.lastSeqNum = some (b.info e, b.packet e) := by
  rw [lookup_eq_some, h.slot]
  exact ⟨h.candidate.used, h.seqNum, rfl, rfl⟩

/-- A frame of any other codec is complete: the search goes back over the open slots up to the
packet that begins the frame. -/
theorem FoundFrame.complete (h : FoundFrame b e n f) (hcodec : ¬ OfH264 b f) :
    RunBack b e f.lastSeqNum n ∧ Held b f ∧ Delimited b f := by
  have hs := h.inv.wf.shaped
  have hsame := setContinuous_sameSlots hs h.candidate.lt
  have hne : (b.packet e).codec ≠ .h264 :=
    fun he => hcodec ⟨_, _, h.lookup_last, he⟩
  have hnot : ((b.packet e).codec == VideoCodecType.h264) = false := by
    simpa using hne
  have hstop := h.stop
  have hpass := h.pass
  simp only [hnot, stopsAt, Bool.false_eq_true, ↓reduceIte, hsame.frameBegin] at hstop hpass
  have hwalk := (h.candidate.rooted h.inv).walk (n := n)
    (fun m hm => by rw [hsame.frameBegin]; exact hpass m hm)
  have hseq : ∀ m ≤ n, (b.info (backBy b.size m e)).seqNum =
      f.lastSeqNum - BitVec.ofNat 16 m := by
    intro m hm
    have := (hwalk m hm).2
    rwa [hsame.seqNum, hsame.seqNum, h.seqNum] at this
  have hused : ∀ m, m ≤ n →
      (b.info (backBy b.size m e)).used := by
    intro m hm
    have := (hwalk m hm).1.open.1
    rwa [hsame.used] at this
  have hfresh : ∀ m, m ≤ n →
      (b.info (backBy b.size m e)).frameCreated = false := by
    intro m hm
    have := (hwalk m hm).1.open.2.2
    rw [setContinuous_info hs h.candidate.lt] at this
    split at this
    · next he => rw [he]; exact this
    · exact this
  have hslots := slots_of_used h.inv.wf h.slot hused
  have hrun : RunBack b e f.lastSeqNum n := by
    refine fun m hm => ⟨hslots m hm, ?_⟩
    rw [lookup_eq_some, hslots m hm]
    exact ⟨hused m hm, hseq m hm, rfl, rfl⟩
  have hlt := lt_of_slots hslots h.lt_size
  have hcovers := covers_iff hlt h.firstSeqNum
  refine ⟨hrun, fun x hx => ?_, fun x c p hx hl => ?_, fun c p hl => ?_⟩
  · obtain ⟨m, hm, rfl⟩ := (hcovers x).mp hx
    exact ⟨_, _, (hrun m hm).2, hfresh m hm⟩
  · obtain ⟨m, hm, rfl⟩ := (hcovers x).mp hx
    rw [(hrun m hm).2] at hl
    cases hl
    rw [h.firstSeqNum]
    rcases Nat.lt_or_eq_of_le hm with hmn | rfl
    · rw [hpass m hmn]
      exact iff_of_false Bool.false_ne_true (by bv_omega)
    · exact iff_of_true hstop rfl
  · rw [h.lookup_last] at hl
    cases hl
    exact h.frameEnd

/-- An H.264 frame whose packets are all buffered is a run of slots as well. -/
theorem FoundFrame.runBack_of_held (h : FoundFrame b e n f) (hcodec : OfH264 b f) (hheld : Held b f) :
    RunBack b e f.lastSeqNum n := by
  have hs := h.inv.wf.shaped
  have hsame := setContinuous_sameSlots hs h.candidate.lt
  have hcodec' : (b.packet e).codec = .h264 := by
    obtain ⟨c, p, hl, hp⟩ := hcodec
    rw [h.lookup_last] at hl
    cases hl
    exact hp
  have his : ((b.packet e).codec == VideoCodecType.h264) := by
    simp [hcodec']
  have hpass := h.pass
  have hused : ∀ m, m ≤ n →
      (b.info (backBy b.size m e)).used := by
    intro m hm
    cases m with
    | zero => exact h.candidate.used
    | succ m =>
      have hp := hpass m (by omega)
      rw [his] at hp
      simp only [stopsAt, ↓reduceIte, hsame.size, hsame.used, ← backBy_succ, Bool.and_eq_false_iff,
        bne_eq_false_iff_eq, Bool.or_eq_false_iff, Bool.not_eq_false'] at hp
      rcases hp with he | ⟨hu, _⟩
      · rw [he]
        exact h.candidate.used
      · exact hu
  have hslots := slots_of_used h.inv.wf h.slot hused
  have hcovers := covers_iff (lt_of_slots hslots h.lt_size) h.firstSeqNum
  intro m hm
  obtain ⟨c, p, hl, _⟩ := hheld _ ((hcovers _).mpr ⟨m, hm, rfl⟩)
  obtain ⟨_, _, rfl, rfl⟩ := lookup_eq_some.mp hl
  rw [hslots m hm] at hl
  exact ⟨hslots m hm, hl⟩

/-- A frame as it is handed out: its packets stand in `n + 1` slots, one after the other. -/
structure HandedFrame (b : PacketBuffer) (e n : Nat) (f : RtpFrameObject) : Prop where
  run : RunBack b e f.lastSeqNum n
  lt_size : n < b.size
  firstSeqNum : f.firstSeqNum = f.lastSeqNum - BitVec.ofNat 16 n
  frameSize : f.frameSize = sizesBack b e (n + 1)

theorem HandedFrame.lt (h : HandedFrame b e n f) : n < 65536 :=
  lt_of_slots (fun m hm => (h.run m hm).1) h.lt_size

theorem HandedFrame.of_same (hs : SameSlots b b') (h : HandedFrame b e n f) :
    HandedFrame b' e n f := by
  refine ⟨h.run.of_same hs, by rw [hs.size]; exact h.lt_size, h.firstSeqNum, ?_⟩
  rw [h.frameSize]
  unfold sizesBack
  simp only [hs.size, hs.packet]

theorem OfH264.of_same (hs : SameSlots b b') (h : OfH264 b' f) : OfH264 b f := by
  obtain ⟨c, p, hl, hp⟩ := h
  obtain ⟨c', hl', _⟩ := hs.lookup_some hl
  exact ⟨c', p, hl', hp⟩

/-- What the frames of a call have in common. -/
structure HandedOut (b : PacketBuffer) (frames : List RtpFrameObject) (b' : PacketBuffer) :
    Prop where
  marked : Marked b frames b'
  handed : ∀ f, f ∈ frames → ∃ e n, HandedFrame b e n f
  held : ∀ f, f ∈ frames → Held b f
  disjoint : frames.Pairwise Disjoint
  delimited : ∀ f, f ∈ frames → ¬ OfH264 b f → Delimited b f

/-- The frames are handed out one after the other, each with packets of its own. For H.264 this is
an assumption, since that search does not look at sequence numbers. -/
theorem Emits.handedOut {frames : List RtpFrameObject} (h : Emits b frames b')
    (hheld : ∀ f ∈ frames, OfH264 b f → Held b f)
    (hdisj : frames.Pairwise fun f g => OfH264 b g → Disjoint f g) : HandedOut b frames b' := by
  induction h with
  | done hs =>
    exact ⟨.refl hs, (fun _ hf => nomatch hf), (fun _ hf => nomatch hf), .nil,
      (fun _ hf => nomatch hf)⟩
  | @middle b b' e fs hs he _ ih =>
    have hmark := Marked.setContinuous hs he
    have hback := hmark.same.symm hs
    have h1 := ih
      (fun f hf h264 => hmark.still_held (hheld f hf (h264.of_same hmark.same))
        fun _ hf => nomatch hf)
      (hdisj.imp fun hfg h264 => hfg (h264.of_same hmark.same))
    refine ⟨hmark.trans h1.marked, fun f hf => ?_, fun f hf => (hmark.held (h1.held f hf)).1,
      h1.disjoint, fun f hf hn => hback.delimited (h1.delimited f hf fun h264 =>
        hn (h264.of_same hmark.same))⟩
    obtain ⟨e, n, hn⟩ := h1.handed f hf
    exact ⟨e, n, hn.of_same hback⟩
  | @frame b b' e n f fs hfound _ ih =>
    have hs := hfound.inv.wf.shaped
    have hown : RunBack b e f.lastSeqNum n ∧ Held b f := by
      by_cases h264 : OfH264 b f
      · have hf := hheld f (.head _) h264
        exact ⟨hfound.runBack_of_held h264 hf, hf⟩
      · exact ⟨(hfound.complete h264).1, (hfound.complete h264).2.1⟩
    have hframe : HandedFrame b e n f :=
      ⟨hown.1, hfound.lt_size, hfound.firstSeqNum, hfound.frameSize⟩
    have hmark := Marked.markFrame hs hfound.candidate.lt hframe.lt hfound.firstSeqNum hown.1
    have hback := hmark.same.symm hs
    obtain ⟨hfirst, hrest⟩ := pairwise_cons.mp hdisj
    have h1 := ih
      (fun g hg h264 => hmark.still_held (hheld g (.tail _ hg)
        (h264.of_same hmark.same)) fun f' hf' => by
          rw [mem_singleton.mp hf']
          exact hfirst g hg (h264.of_same hmark.same))
      (hrest.imp fun hfg h264 => hfg (h264.of_same hmark.same))
    refine ⟨hmark.trans h1.marked, fun g hg => ?_, fun g hg => ?_,
      pairwise_cons.mpr ⟨fun g hg => (hmark.held (h1.held g hg)).2 f (.head _),
        h1.disjoint⟩, fun g hg hn => ?_⟩
    · rcases mem_cons.mp hg with rfl | hg
      · exact ⟨e, n, hframe⟩
      · obtain ⟨e', m, hm⟩ := h1.handed g hg
        exact ⟨e', m, hm.of_same hback⟩
    · rcases mem_cons.mp hg with rfl | hg
      · exact hown.2
      · exact (hmark.held (h1.held g hg)).1
    rcases mem_cons.mp hg with rfl | hg
    · exact (hfound.complete hn).2.2
    · exact hback.delimited (h1.delimited g hg fun h264 => hn (h264.of_same hmark.same))

end WebRtc.Video.Packets
