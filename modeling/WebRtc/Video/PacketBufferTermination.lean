import WebRtc.Video.PacketBufferRuns

/-! Termination of `FindFrames`. In a run whose calls never cut an unfinished frame and
never fill the ring with one H.264 timestamp, every call returns; the two runs at the
end of the module show both ways in which the search goes round for ever. -/

namespace WebRtc.Video.Packets
open SequenceNumber Transition

variable {b b' : PacketBuffer} {s : BitVec 16} {fuel : Nat} {op : Op}

/-! ## `InsertPacket` up to `FindFrames` -/

/-- No buffered packet has the sequence number `s`. -/
def Fresh (b : PacketBuffer) (s : BitVec 16) : Prop :=
  ∀ i, i < b.size → (b.info i).used = true → (b.info i).seqNum ≠ s

/-- A collision with a different sequence number happens only in a small ring. -/
theorem Fresh.size_lt (hw : WellFormed b) (hf : Fresh b s)
    (hu : (b.info (s.toNat % b.size)).used) : b.size < 65536 := by
  by_contra hge
  have hi := Nat.mod_lt s.toNat hw.pos
  have hslot := hw.slot _ hi hu
  have h1 : s.toNat % b.size = s.toNat := Nat.mod_eq_of_lt (by have := s.isLt; omega)
  rw [Nat.mod_eq_of_lt (by have := (b.info (s.toNat % b.size)).seqNum.isLt; omega)] at hslot
  exact hf _ hi hu (BitVec.eq_of_toNat_eq (hslot.trans h1))

theorem Expanded.fresh (h : Expanded b b') (hf : Fresh b s) : Fresh b' s := by
  intro j _ hu
  obtain ⟨i, hi, hui, rfl⟩ := h.origin j hu
  rw [(h.moved i hi hui).1]
  exact hf i hi hui

/-- A property that survives expanding a small ring survives the expansion loop. -/
theorem expandWhileUsed_induct (P : PacketBuffer → Prop)
    (hexpand : ∀ b b', WellFormed b → P b → Expanded b b' → b.size < 65536 → P b') (s : BitVec 16)
    (fuel : Nat) (hw : WellFormed b) (hf : Fresh b s) (hu : (b.info (s.toNat % b.size)).used)
    (hP : P b) :
    WellFormed (expandWhileUsed s fuel b) ∧ P (expandWhileUsed s fuel b) ∧
      (expandWhileUsed s fuel b).maxSize = b.maxSize := by
  induction fuel generalizing b with
  | zero => exact ⟨hw, hP, rfl⟩
  | succ fuel ih =>
    unfold expandWhileUsed
    by_cases hne : b.size = b.maxSize
    · rw [show expandBufferSize b = (false, b) by unfold expandBufferSize; rw [if_pos hne]]
      exact ⟨hw, hP, rfl⟩
    have hexp := expandBufferSize_expanded hw hne
    have hfst : (expandBufferSize b).1 := by rw [expandBufferSize_eq hw hne]
    have hP' := hexpand b _ hw hP hexp (hf.size_lt hw hu)
    generalize expandBufferSize b = r at hexp hfst hP'
    obtain ⟨_, b'⟩ := r
    cases hfst
    dsimp only at hexp hP' ⊢
    split
    · next hu' =>
      obtain ⟨h1, h2, h3⟩ := ih (hexp.wellFormed hw) (hexp.fresh hf) hu' hP'
      exact ⟨h1, h2, h3.trans hexp.maxSize⟩
    · exact ⟨hexp.wellFormed hw, hP', hexp.maxSize⟩

/-- `first_seq_num_` is not part of the ring. -/
theorem noteSeqNum_eq (b : PacketBuffer) (s : BitVec 16) :
    ∃ first, noteSeqNum b s = { b with firstSeqNum := first, firstPacketReceived := true } := by
  unfold noteSeqNum
  split
  · exact ⟨s, rfl⟩
  rename_i h
  have hr : b.firstPacketReceived = true := by simpa using h
  split
  · exact ⟨s, by rw [← hr]⟩
  · exact ⟨b.firstSeqNum, by rw [← hr]⟩

theorem noteSeqNum_wellFormed (h : WellFormed b) (s : BitVec 16) : WellFormed (noteSeqNum b s) := by
  obtain ⟨_, he⟩ := noteSeqNum_eq b s
  rw [he]
  exact ⟨⟨h.shaped.1, h.shaped.2⟩, h.pow, h.maxPow, h.le_max, h.slot, h.data⟩

theorem noteSeqNum_inv (h : Inv b) (s : BitVec 16) : Inv (noteSeqNum b s) := by
  have hw := noteSeqNum_wellFormed h.wf s
  obtain ⟨_, he⟩ := noteSeqNum_eq b s
  rw [he] at hw ⊢
  exact ⟨hw, h.rooted, h.unfinished⟩

/-- A slot taken by another packet means that the packet is new to the ring. -/
theorem fresh_of_collision (hw : WellFormed b) (hne : (b.packet (s.toNat % b.size)).seqNum ≠ s) :
    Fresh b s := by
  rintro i hi hu rfl
  have hslot := hw.slot i hi hu
  rw [hslot] at hne
  exact hne (hw.data i hi hu)

section Storing

variable (P : PacketBuffer → Prop) (p : VCMPacket) (hnote : ∀ b, P b → P (noteSeqNum b p.seqNum))
  (hexpand : ∀ b b', WellFormed b → P b → Expanded b b' → b.size < 65536 → P b')
include hnote hexpand

/-- `InsertPacket` up to `FindFrames` notes the number and expands the ring; then it returns, or it
stores the packet in a free slot. -/
theorem storePacket_split (hw : WellFormed b) (hP : P b) :
    ∃ b1, WellFormed b1 ∧ P b1 ∧ b1.maxSize = b.maxSize ∧
      ((∃ ret, storePacket b p = (b1, some ret)) ∨
        ((b1.info (p.seqNum.toNat % b1.size)).used = false ∧
          storePacket b p = (storeAt b1 (p.seqNum.toNat % b1.size) p, none))) := by
  unfold storePacket
  dsimp only
  split
  · exact ⟨b, hw, hP, rfl, .inl ⟨_, rfl⟩⟩
  have hw1 := noteSeqNum_wellFormed hw p.seqNum
  have hP1 := hnote b hP
  have hmax1 : (noteSeqNum b p.seqNum).maxSize = b.maxSize := by
    obtain ⟨_, he⟩ := noteSeqNum_eq b p.seqNum
    rw [he]
  generalize noteSeqNum b p.seqNum = b1 at hw1 hP1 hmax1
  split
  · next hu =>
    split
    · exact ⟨b1, hw1, hP1, hmax1, .inl ⟨_, rfl⟩⟩
    rename_i hne
    obtain ⟨hw2, hP2, hmax2⟩ := expandWhileUsed_induct P hexpand p.seqNum b1.maxSize hw1
      (fresh_of_collision hw1 hne) hu hP1
    generalize expandWhileUsed p.seqNum b1.maxSize b1 = b2 at hw2 hP2 hmax2
    split
    · exact ⟨b2, hw2, hP2, hmax2.trans hmax1, .inl ⟨_, rfl⟩⟩
    · next hfree =>
      exact ⟨b2, hw2, hP2, hmax2.trans hmax1, .inr ⟨by simpa using hfree, rfl⟩⟩
  · next hfree => exact ⟨b1, hw1, hP1, hmax1, .inr ⟨by simpa using hfree, rfl⟩⟩

/-- What holds of a buffer through the three things `InsertPacket` does before
`FindFrames` (noting the number, expanding, storing) holds when it is done with them. -/
theorem storePacket_induct
    (hstore : ∀ b i, WellFormed b → P b → i < b.size → (b.info i).used = false →
      p.seqNum.toNat % b.size = i → P (storeAt b i p)) (hw : WellFormed b) (hP : P b) :
    WellFormed (storePacket b p).1 ∧ P (storePacket b p).1 ∧
      (storePacket b p).1.maxSize = b.maxSize := by
  obtain ⟨b1, hw1, hP1, hmax, ⟨_, h⟩ | ⟨hfree, h⟩⟩ := storePacket_split P p hnote hexpand hw hP
  · rw [h]
    exact ⟨hw1, hP1, hmax⟩
  have hi := Nat.mod_lt p.seqNum.toNat hw1.pos
  rw [h]
  exact ⟨storeAt_wellFormed hw1 hi p rfl, hstore b1 _ hw1 hP1 hi hfree rfl, hmax⟩

end Storing

theorem storePacket_wellFormed (hw : WellFormed b) (p : VCMPacket) :
    WellFormed (storePacket b p).1 ∧ (storePacket b p).1.maxSize = b.maxSize := by
  obtain ⟨h1, _, h2⟩ := storePacket_induct (fun _ => True) p (fun _ _ => trivial)
    (fun _ _ _ _ _ _ => trivial) (fun _ _ _ _ _ _ _ => trivial) hw trivial
  exact ⟨h1, h2⟩

theorem storePacket_inv (hinv : Inv b) (p : VCMPacket) : Inv (storePacket b p).1 :=
  (storePacket_induct Inv p (fun _ h => noteSeqNum_inv h p.seqNum)
    (fun _ _ _ h hexp hsmall => hexp.inv h hsmall)
    (fun _ _ _ h hi hfree hslot => storeAt_inv h hi hfree p hslot) hinv.wf hinv).2.1

/-! ## `FindFrames` -/

/-- The start of the search from the frame end at `s`. -/
def searchStart (b : PacketBuffer) (s : BitVec 16) : Search :=
  ⟨setContinuous b (s.toNat % b.size), s.toNat % b.size, s, 0, -1⟩

/-- The search from the frame end at `s`. -/
def searchFrom (fuel : Nat) (b : PacketBuffer) (s : BitVec 16) : Option Search :=
  searchBack ((b.packet (s.toNat % b.size)).codec == .h264) (b.packet (s.toNat % b.size)).timestamp
    (s.toNat % b.size) fuel (searchStart b s)

/-- What the search from `s` leaves behind: some number of slots marked, the start among them. -/
theorem searchFrom_marked (hw : WellFormed b) {r : Search} (h : searchFrom fuel b s = some r) :
    ∃ n, r.buffer = markFrame n (s.toNat % b.size) b ∧ SameSlots b r.buffer := by
  have hi := Nat.mod_lt s.toNat hw.pos
  obtain ⟨n, hn⟩ := searchBack_visited (s := searchStart b s) (hw.shaped.modifyInfo _ _) hi h
  exact ⟨n, hn.buffer, hn.buffer ▸ markFrame_sameSlots hw.shaped hi n⟩

/-- One pass of `FindFrames`: it stops, goes on behind a packet in the middle of a frame, or
searches back from the end of one. -/
theorem findFramesLoop_cases (hw : WellFormed b) (s : BitVec 16) :
    (potentialNewFrame b s = false ∧
      ∀ fuel left found, findFramesLoop fuel (left + 1) b s found = some (b, found)) ∨
    (Candidate b (s.toNat % b.size) ∧
      (((b.info (s.toNat % b.size)).frameEnd = false ∧ ∀ fuel left found,
          findFramesLoop fuel (left + 1) b s found =
            findFramesLoop fuel left (setContinuous b (s.toNat % b.size)) (s + 1) found) ∨
        ((b.info (s.toNat % b.size)).frameEnd ∧ ∀ fuel left found,
          findFramesLoop fuel (left + 1) b s found = (searchFrom fuel b s).bind fun r =>
            findFramesLoop fuel left r.buffer (s + 1)
              (found ++ [⟨r.startSeqNum, s, r.frameSize, r.maxNackCount⟩])))) := by
  have he := (setContinuous_sameSlots hw.shaped (Nat.mod_lt s.toNat hw.pos)).frameEnd
    (s.toNat % b.size)
  cases hp : potentialNewFrame b s with
  | false => exact .inl ⟨rfl, fun _ _ _ => by simp [findFramesLoop, hp]⟩
  | true =>
    refine .inr ⟨potentialNewFrame_candidate hw.pos hp, ?_⟩
    cases hend : (b.info (s.toNat % b.size)).frameEnd with
    | false =>
      refine .inl ⟨rfl, fun fuel left found => ?_⟩
      conv_lhs => unfold findFramesLoop
      simp only [hp, he, hend, Bool.false_eq_true, ↓reduceIte]
    | true =>
      refine .inr ⟨rfl, fun fuel left found => ?_⟩
      conv_lhs => unfold findFramesLoop
      simp only [hp, he, hend, ↓reduceIte]
      cases hr : searchFrom fuel b s <;> (unfold searchFrom at hr; erw [hr]; rfl)

/-- What each packet of `FindFrames` keeps, in the middle of a frame and at its end, the
whole call keeps. The call writes only the two flags it owns. -/
theorem findFramesLoop_induct (P : PacketBuffer → Prop)
    (hmiddle : ∀ b e, P b → Candidate b e → (b.info e).frameEnd = false → P (setContinuous b e))
    (hlast : ∀ b e n, P b → Candidate b e → (b.info e).frameEnd → P (markFrame n e b))
    (fuel left : Nat) (hw : WellFormed b) (hP : P b) (s : BitVec 16)
    {found found' : List RtpFrameObject}
    (h : findFramesLoop fuel left b s found = some (b', found')) : SameSlots b b' ∧ P b' := by
  induction left generalizing b s found with
  | zero => cases h; exact ⟨SameSlots.refl hw.shaped, hP⟩
  | succ left ih =>
    obtain ⟨_, hstop⟩ | ⟨hc, ⟨hend, hnext⟩ | ⟨hend, hnext⟩⟩ := findFramesLoop_cases hw s
    · rw [hstop] at h
      cases h
      exact ⟨SameSlots.refl hw.shaped, hP⟩
    · rw [hnext] at h
      have hset := setContinuous_sameSlots hw.shaped hc.lt
      obtain ⟨h1, h2⟩ := ih (hset.wellFormed hw) (hmiddle b _ hP hc hend) _ h
      exact ⟨hset.trans h1, h2⟩
    · rw [hnext] at h
      obtain ⟨r, hr, h⟩ := Option.bind_eq_some_iff.mp h
      obtain ⟨n, hn, hmark⟩ := searchFrom_marked hw hr
      obtain ⟨h1, h2⟩ := ih (hmark.wellFormed hw) (hn ▸ hlast b _ n hP hc hend) _ h
      exact ⟨hmark.trans h1, h2⟩

/-! ## Fuel -/

theorem searchFrom_turn {turn : Nat} (hw : WellFormed b) (hturn : b.size ≤ turn) {r : Search}
    (h : searchFrom fuel b s = some r) : searchFrom turn b s = some r :=
  searchBack_turn (s := searchStart b s) (hw.shaped.modifyInfo _ _) (Nat.mod_lt s.toNat hw.pos) hturn h

theorem findFramesLoop_turn {turn : Nat} (left : Nat) (hw : WellFormed b) (hturn : b.size ≤ turn)
    (s : BitVec 16) {found : List RtpFrameObject} {res : PacketBuffer × List RtpFrameObject}
    (h : findFramesLoop fuel left b s found = some res) :
    findFramesLoop turn left b s found = some res := by
  induction left generalizing b s found with
  | zero => exact h
  | succ left ih =>
    obtain ⟨_, hstop⟩ | ⟨hc, ⟨_, hnext⟩ | ⟨_, hnext⟩⟩ := findFramesLoop_cases hw s
    · rw [hstop] at h ⊢
      exact h
    · rw [hnext] at h ⊢
      exact ih ((setContinuous_sameSlots hw.shaped hc.lt).wellFormed hw) hturn _ h
    · rw [hnext] at h ⊢
      obtain ⟨r, hr, h⟩ := Option.bind_eq_some_iff.mp h
      obtain ⟨_, _, hmark⟩ := searchFrom_marked hw hr
      rw [searchFrom_turn hw hturn hr]
      exact ih (hmark.wellFormed hw) (hmark.size ▸ hturn) _ h

/-- `InsertPacket` returns before `FindFrames`, or with what that leaves. -/
theorem step_insertPacket {p : VCMPacket} (h : step fuel b (.insertPacket p) = some b') :
    (storePacket b p).1 = b' ∨
      ∃ found, findFrames fuel (storePacket b p).1 p.seqNum = some (b', found) := by
  simp only [step, insertPacket, Option.map_eq_some_iff] at h
  obtain ⟨r, hr, rfl⟩ := h
  generalize storePacket b p = st at hr
  obtain ⟨_, _ | _⟩ := st
  · dsimp only at hr
    split at hr
    · cases hr
    · next hf => cases hr; exact .inr ⟨_, hf⟩
  · cases hr
    exact .inl rfl

theorem step_wellFormed (hw : WellFormed b) (h : step fuel b op = some b') :
    WellFormed b' ∧ b'.maxSize = b.maxSize := by
  cases op with
  | insertPacket p =>
    have hst := storePacket_wellFormed hw p
    obtain rfl | ⟨_, hf⟩ := step_insertPacket h
    · exact hst
    obtain ⟨hsame, _⟩ := findFramesLoop_induct (fun _ => True) (fun _ _ _ _ _ => trivial)
      (fun _ _ _ _ _ _ => trivial) fuel _ hst.1 trivial p.seqNum hf
    exact ⟨hsame.wellFormed hst.1, hsame.maxSize.trans hst.2⟩
  | clearTo s =>
    cases h
    have hf := clearTo_freed hw.shaped hw.pos s
    exact ⟨hf.wellFormed hw, hf.maxSize⟩
  | returnFrame first last =>
    cases h
    have hf := returnFrame_freed hw.shaped hw.pos first last
    exact ⟨hf.wellFormed hw, hf.maxSize⟩
  | clear =>
    cases h
    have hf := (clear_freed hw.shaped).1
    exact ⟨hf.wellFormed hw, hf.maxSize⟩

/-- `max_size_` passes are enough fuel for a call, if any amount is. -/
theorem step_turn (hw : WellFormed b) (h : step fuel b op = some b') :
    step b.maxSize b op = some b' := by
  cases op with
  | insertPacket p =>
    have hst := storePacket_wellFormed hw p
    simp only [step, insertPacket, Option.map_eq_some_iff] at h ⊢
    obtain ⟨r, hr, rfl⟩ := h
    refine ⟨r, ?_, rfl⟩
    generalize storePacket b p = st at hst hr
    obtain ⟨_, _ | _⟩ := st
    · dsimp only at hr ⊢
      split at hr
      · cases hr
      rename_i hf
      have := findFramesLoop_turn _ hst.1 (hst.2 ▸ hst.1.le_max : _ ≤ b.maxSize) _ hf
      unfold findFrames
      rw [this]
      exact hr
    · exact hr
  | clearTo s => exact h
  | returnFrame _ _ => exact h
  | clear => exact h

theorem run_wellFormed {r : PacketBuffer} (hw : WellFormed b) (ops : List Op)
    (h : run fuel b ops = some r) : WellFormed r ∧ r.maxSize = b.maxSize := by
  induction ops generalizing b with
  | nil => cases h; exact ⟨hw, rfl⟩
  | cons _ ops ih =>
    unfold run at h
    split at h
    · cases h
    rename_i _ hb'
    obtain ⟨hw', hmax⟩ := step_wellFormed hw hb'
    obtain ⟨hwr, hmaxr⟩ := ih hw' h
    exact ⟨hwr, hmaxr.trans hmax⟩

/-! ## Every harmless call returns -/

/-- The ring is full of packets of one timestamp and one of them ends an H.264 frame. -/
def FilledByOneTimestamp (b : PacketBuffer) : Prop :=
  ∃ i, i < b.size ∧ (b.info i).frameEnd = true ∧ (b.packet i).codec = .h264 ∧
    ∀ j, j < b.size → (b.info j).used = true ∧ (b.packet j).timestamp = (b.packet i).timestamp

theorem SameSlots.filledByOneTimestamp (h : SameSlots b b') (hf : FilledByOneTimestamp b') :
    FilledByOneTimestamp b := by
  obtain ⟨i, hi, hend, hcodec, hall⟩ := hf
  rw [h.size] at hi
  rw [h.frameEnd] at hend
  rw [h.packet] at hcodec
  refine ⟨i, hi, hend, hcodec, fun j hj => ?_⟩
  have hj' := hall j (h.size ▸ hj)
  rwa [h.used, h.packet, h.packet] at hj'

/-- From a frame end the search stops: an H.264 frame meets a free slot or another
timestamp, any other frame meets the `frame_begin` that made its packets continuous. -/
theorem searchFrom_returns (hinv : Inv b) (hfill : ¬ FilledByOneTimestamp b)
    (hc : Candidate b (s.toNat % b.size)) (hend : (b.info (s.toNat % b.size)).frameEnd)
    {turn : Nat} (hturn : b.size ≤ turn) : ∃ r, searchFrom turn b s = some r := by
  have hs := hinv.wf.shaped
  have hset := setContinuous_sameSlots hs hc.lt
  have hi : (searchStart b s).startIndex < (searchStart b s).buffer.size := hc.lt
  suffices h : ∃ fuel, (searchFrom fuel b s).isSome by
    obtain ⟨fuel, h⟩ := h
    obtain ⟨r, hr⟩ := Option.isSome_iff_exists.mp h
    exact ⟨r, searchFrom_turn hinv.wf hturn hr⟩
  unfold searchFrom
  by_cases hcodec : (b.packet (s.toNat % b.size)).codec = .h264
  · rw [show ((b.packet (s.toNat % b.size)).codec == VideoCodecType.h264) = true by simp [hcodec]]
    refine (h264_search_returns_iff (s := searchStart b s) hset.shaped hi).mpr ?_
    by_contra hnone
    refine hfill ⟨_, hc.lt, hend, hcodec, fun j hj => ?_⟩
    by_cases hj' : j = s.toNat % b.size
    · rw [hj']; exact ⟨hc.used, rfl⟩
    by_contra hstop
    refine hnone ⟨j, hj, hj', ?_⟩
    have hu : ((searchStart b s).buffer.info j).used = (b.info j).used := hset.used j
    have hp : (searchStart b s).buffer.packet j = b.packet j := hset.packet j
    rw [hu, hp]
    by_cases huj : (b.info j).used
    · exact .inr fun ht => hstop ⟨huj, ht⟩
    · exact .inl (by simpa using huj)
  · rw [show ((b.packet (s.toNat % b.size)).codec == VideoCodecType.h264) = false by simp [hcodec]]
    exact (other_search_returns_iff (s := searchStart b s) hset.shaped hi).mpr
      (hc.rooted hinv).exists_begin

theorem findFramesLoop_returns (fuel left : Nat) (hinv : Inv b) (hfill : ¬ FilledByOneTimestamp b)
    (hfuel : b.size ≤ fuel) (s : BitVec 16) (found : List RtpFrameObject) :
    ∃ res, findFramesLoop fuel left b s found = some res := by
  induction left generalizing b s found with
  | zero => exact ⟨_, rfl⟩
  | succ left ih =>
    obtain ⟨_, hstop⟩ | ⟨hc, ⟨hend, hnext⟩ | ⟨hend, hnext⟩⟩ := findFramesLoop_cases hinv.wf s
    · exact ⟨_, hstop _ _ _⟩
    · have hset := setContinuous_sameSlots hinv.wf.shaped hc.lt
      rw [hnext]
      exact ih (setContinuous_inv hinv hc hend) (fun h => hfill (hset.filledByOneTimestamp h))
        hfuel _ _
    · obtain ⟨r, hr⟩ := searchFrom_returns hinv hfill hc hend hfuel
      obtain ⟨n, hn, hmark⟩ := searchFrom_marked hinv.wf hr
      rw [hnext, hr]
      exact ih (hn ▸ markFrame_inv hinv hc hend n)
        (fun h => hfill (hmark.filledByOneTimestamp h)) (hmark.size ▸ hfuel) _ _

/-- The calls that leave every later search an end: a packet that is stored does not
fill the ring with one H.264 timestamp, and what is freed does not cut an unfinished
frame. -/
def Harmless (b : PacketBuffer) : Op → Prop
  | .insertPacket packet => (storePacket b packet).2 = none →
      ¬ FilledByOneTimestamp (storePacket b packet).1
  | .clearTo seqNum => ¬ CutsFrame b (clearTo b seqNum)
  | .returnFrame first last => ¬ CutsFrame b (returnFrame b first last)
  | .clear => True

theorem step_inv (hinv : Inv b) (hok : Harmless b op) (h : step fuel b op = some b') : Inv b' := by
  cases op with
  | insertPacket p =>
    have hst := storePacket_inv hinv p
    obtain rfl | ⟨_, hf⟩ := step_insertPacket h
    · exact hst
    exact (findFramesLoop_induct Inv (fun _ _ h hc he => setContinuous_inv h hc he)
      (fun _ _ n h hc he => markFrame_inv h hc he n) fuel _ hst.wf hst p.seqNum hf).2
  | clearTo s => cases h; exact (clearTo_freed hinv.wf.shaped hinv.wf.pos s).inv hinv hok
  | returnFrame first last =>
    cases h
    exact (returnFrame_freed hinv.wf.shaped hinv.wf.pos first last).inv hinv hok
  | clear => cases h; exact clear_inv hinv

theorem step_returns (hinv : Inv b) (hok : Harmless b op) : ∃ b', Returns b op b' := by
  cases op with
  | insertPacket p =>
    have hst := storePacket_inv hinv p
    simp only [Returns, step, insertPacket]
    simp only [Harmless] at hok
    generalize storePacket b p = st at hst hok
    obtain ⟨b1, _ | _⟩ := st
    · obtain ⟨res, hres⟩ := findFramesLoop_returns b1.size b1.size hst (hok rfl)
        (Nat.le_refl _) p.seqNum []
      refine ⟨res.1, b1.size, ?_⟩
      dsimp only
      unfold findFrames
      rw [hres]
      rfl
    · exact ⟨b1, 0, rfl⟩
  | clearTo s => exact ⟨_, 0, rfl⟩
  | returnFrame _ _ => exact ⟨_, 0, rfl⟩
  | clear => exact ⟨_, 0, rfl⟩

theorem create_info (start max i : Nat) : (create start max).info i = {} := by
  simp only [create, PacketBuffer.info, List.getD_eq_getElem?_getD, List.getElem?_replicate]
  split <;> rfl

theorem create_inv {start max : Nat} (hstart : ∃ k, start = 2 ^ k) (hmax : ∃ k, max = 2 ^ k)
    (hle : start ≤ max) : Inv (create start max) := by
  have hfree : ∀ i, ¬ ((create start max).info i).used := by
    intro i
    rw [create_info]
    exact Bool.false_ne_true
  have hwf : WellFormed (create start max) :=
    ⟨⟨List.length_replicate, List.length_replicate⟩, hstart, hmax, hle,
      fun i _ hu => absurd hu (hfree i), fun i _ hu => absurd hu (hfree i)⟩
  exact ⟨hwf, fun i _ ho => absurd ho.1 (hfree i), fun i _ ho => absurd ho.1 (hfree i)⟩

/-- **Termination.** From every state reached by harmless calls, every harmless call
returns; in particular the backward search of `FindFrames` reaches a break. -/
theorem findFrames_returns {start max : Nat} (hstart : ∃ k, start = 2 ^ k)
    (hmax : ∃ k, max = 2 ^ k) (hle : start ≤ max) {b : PacketBuffer}
    (hr : Reaches (Guarded Harmless Returns) (create start max) b) (op : Op)
    (hok : Harmless b op) : ∃ b', Returns b op b' := by
  have hinv : Inv b := hr.invariant Inv (create_inv hstart hmax hle)
    fun _ _ _ hu ⟨hoku, _, hs⟩ => step_inv hu hoku hs
  exact step_returns hinv hok

instance (b : PacketBuffer) : Decidable (FilledByOneTimestamp b) :=
  inferInstanceAs (Decidable (∃ i, i < b.size ∧ (b.info i).frameEnd = true ∧
    (b.packet i).codec = .h264 ∧ ∀ j, j < b.size →
      (b.info j).used = true ∧ (b.packet j).timestamp = (b.packet i).timestamp))

/-- Two packets of an H.264 frame in a ring of four slots. -/
theorem findFrames_returns_two_packets :
    let p0 : VCMPacket := { seqNum := 0, timestamp := 7, isFirstPacketInFrame := true, codec := .h264 }
    let p1 : VCMPacket := { seqNum := 1, timestamp := 7, markerBit := true, codec := .h264 }
    ∃ b b', Reaches (Guarded Harmless Returns) (create 4 4) b ∧
      b = (storePacket (create 4 4) p0).1.modifyInfo 0 (fun c => { c with continuous := true }) ∧
      Returns b (.insertPacket p1) b' := by
  intro p0 p1
  have hr : Reaches (Guarded Harmless Returns) (create 4 4)
      ((storePacket (create 4 4) p0).1.modifyInfo 0 (fun c => { c with continuous := true })) := by
    refine .next (.insertPacket p0) .refl ⟨?_, 4, by decide⟩
    exact fun _ => by decide
  obtain ⟨b', hb'⟩ := findFrames_returns ⟨2, rfl⟩ ⟨2, rfl⟩ (Nat.le_refl 4) hr
    (.insertPacket p1) (fun _ => by decide)
  exact ⟨_, b', hr, rfl, hb'⟩

theorem not_returns_of_turn {start max : Nat} (hinv : Inv (create start max)) (fuel : Nat)
    (ops : List Op) (hrun : run fuel (create start max) ops = some b) (hturn : step max b op = none) :
    ¬ ∃ b', Returns b op b' := by
  rintro ⟨b', _, h⟩
  obtain ⟨hw, hmax⟩ := run_wellFormed hinv.wf ops hrun
  have h' := step_turn hw h
  rw [hmax, show (create start max).maxSize = max from rfl, hturn] at h'
  cases h'

/-- The search goes round for ever from two reachable states: in a ring filled by one
H.264 frame, and in a ring from which `ClearTo` took the first packet of an unfinished
frame before another packet took its slot. -/
theorem findFrames_loops_forever :
    let h264 (s : BitVec 16) (first marker : Bool) : Op := .insertPacket
      { seqNum := s, timestamp := 7, isFirstPacketInFrame := first, markerBit := marker,
        codec := .h264 }
    let vp8 (s : BitVec 16) (first marker : Bool) : Op := .insertPacket
      { seqNum := s, timestamp := 7, isFirstPacketInFrame := first, markerBit := marker,
        codec := .vp8 }
    (∃ b, run 2 (create 2 2) [h264 0 true false] = some b ∧
      ¬ ∃ b', Returns b (h264 1 false true) b') ∧
    (∃ b, run 4 (create 4 4) [vp8 0 true false, vp8 1 false false, .clearTo 0,
        vp8 4 false false] = some b ∧
      ¬ ∃ b', Returns b (vp8 2 false true) b') := by
  intro h264 vp8
  refine ⟨⟨_, rfl, ?_⟩, ⟨_, rfl, ?_⟩⟩
  · exact not_returns_of_turn (create_inv ⟨1, rfl⟩ ⟨1, rfl⟩ (Nat.le_refl 2)) 2
      [h264 0 true false] rfl (by decide)
  · exact not_returns_of_turn (create_inv ⟨2, rfl⟩ ⟨2, rfl⟩ (Nat.le_refl 4)) 4
      [vp8 0 true false, vp8 1 false false, .clearTo 0, vp8 4 false false] rfl (by decide)

end WebRtc.Video.Packets
