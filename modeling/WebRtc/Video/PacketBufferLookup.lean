import WebRtc.Video.PacketBufferTermination

/-! The packet ring read as a map from sequence numbers to packets, and the effect of each part of
a call on that map: storing adds one number, expanding changes nothing, freeing removes numbers. -/

namespace WebRtc.Video.Packets
open SequenceNumber PacketBuffer

variable {b b' : PacketBuffer} {s : BitVec 16}

/-- The used slot that holds the sequence number `s`. -/
def lookup (b : PacketBuffer) (s : BitVec 16) : Option (ContinuityInfo × VCMPacket) :=
  if (b.info (s.toNat % b.size)).used = true ∧ (b.info (s.toNat % b.size)).seqNum = s then
    some (b.info (s.toNat % b.size), b.packet (s.toNat % b.size))
  else none

theorem lookup_eq_some {c : ContinuityInfo} {p : VCMPacket} : lookup b s = some (c, p) ↔
      (b.info (s.toNat % b.size)).used ∧ (b.info (s.toNat % b.size)).seqNum = s ∧
        b.info (s.toNat % b.size) = c ∧ b.packet (s.toNat % b.size) = p := by
  unfold lookup
  split
  · next h => simp [h.1, h.2]
  · next h => simp only [reduceCtorEq, false_iff]; exact fun h' => h ⟨h'.1, h'.2.1⟩

theorem lookup_eq_none : lookup b s = none ↔
      ¬ ((b.info (s.toNat % b.size)).used ∧ (b.info (s.toNat % b.size)).seqNum = s) := by
  unfold lookup
  split
  · next h => simp [h]
  · next h => simp [h]

/-- Every used slot is the slot of its number. -/
theorem WellFormed.lookup_slot (hw : WellFormed b) {i : Nat} (hi : i < b.size)
    (hu : (b.info i).used) : lookup b (b.info i).seqNum = some (b.info i, b.packet i) := by
  have hslot := hw.slot i hi hu
  rw [lookup_eq_some, hslot]
  exact ⟨hu, rfl, rfl, rfl⟩

theorem lookup_noteSeqNum (b : PacketBuffer) (s x : BitVec 16) :
    lookup (noteSeqNum b s) x = lookup b x := by
  obtain ⟨_, he⟩ := noteSeqNum_eq b s
  rw [he]
  rfl

/-- A new packet in a free slot. -/
theorem lookup_storeAt (hw : WellFormed b) {i : Nat} (hi : i < b.size)
    (hfree : (b.info i).used = false) {p : VCMPacket} (hslot : p.seqNum.toNat % b.size = i)
    (s : BitVec 16) :
    lookup (storeAt b i p) s = if s = p.seqNum then some (storedInfo p, p) else lookup b s := by
  have hsize : (storeAt b i p).size = b.size := rfl
  unfold lookup
  rw [hsize, storeAt_info hw.shaped hi, storeAt_packet hw.shaped hi]
  by_cases hs : s = p.seqNum
  · subst hs
    simp [hslot, storedInfo]
  by_cases hsi : s.toNat % b.size = i
  · simp [hsi, hs, hfree, storedInfo, Ne.symm hs]
  · simp [hsi, hs]

theorem Expanded.lookup_eq (h : Expanded b b') (hw : WellFormed b) (s : BitVec 16) :
    lookup b' s = lookup b s := by
  cases hb : lookup b s with
  | some cp =>
    obtain ⟨c, p⟩ := cp
    obtain ⟨hu, hs, rfl, rfl⟩ := lookup_eq_some.mp hb
    have hm := h.moved _ (Nat.mod_lt _ hw.pos) hu
    rw [hs] at hm
    exact lookup_eq_some.mpr ⟨by rw [hm.1]; exact hu, by rw [hm.1]; exact hs, hm.1, hm.2⟩
  | none =>
    rw [lookup_eq_none] at hb ⊢
    rintro ⟨hu, hs⟩
    obtain ⟨i, hi, hui, hi'⟩ := h.origin _ hu
    have hm := (h.moved i hi hui).1
    rw [hi'] at hm
    rw [hm] at hs
    have hslot := hw.slot i hi hui
    rw [hs] at hslot
    exact hb (by rw [hslot]; exact ⟨hui, hs⟩)

theorem lookup_freeSlot (hs : Shaped b) {i : Nat} (hi : i < b.size) (s : BitVec 16) :
    lookup (b.freeSlot i) s = if s.toNat % b.size = i then none else lookup b s := by
  unfold lookup
  rw [freeSlot_size, freeSlot_info hs hi, freeSlot_packet hs hi]
  by_cases hsi : s.toNat % b.size = i
  · simp [hsi]
  · simp [hsi]

theorem lookup_create (start max : Nat) (s : BitVec 16) : lookup (create start max) s = none := by
  rw [lookup_eq_none, create_info]
  exact fun h => Bool.noConfusion h.1

theorem lookup_clear (hw : WellFormed b) (s : BitVec 16) : lookup (clear b) s = none := by
  obtain ⟨hf, hu⟩ := clear_freed hw.shaped
  rw [lookup_eq_none, hf.size, hu _ (Nat.mod_lt _ hw.pos)]
  exact fun h => Bool.noConfusion h.1

/-! ## `ClearTo` -/

/-- Some number from `first_seq_num_` to `s` has the slot `i`. -/
def Walked (b : PacketBuffer) (s : BitVec 16) (i : Nat) : Prop :=
  aheadOrAt s b.firstSeqNum = true ∧
    ∃ j, j < (s - b.firstSeqNum).toNat + 1 ∧
      (b.firstSeqNum + BitVec.ofNat 16 j).toNat % b.size = i

instance (b : PacketBuffer) (s : BitVec 16) (i : Nat) : Decidable (Walked b s i) :=
  inferInstanceAs (Decidable (_ ∧ ∃ j, j < (s - b.firstSeqNum).toNat + 1 ∧ _))

/-- One pass takes the first number off the walk. -/
theorem walked_step (hat : aheadOrAt s b.firstSeqNum) (hsize : b'.size = b.size)
    (hfirst : b'.firstSeqNum = b.firstSeqNum + 1) (i : Nat) :
    Walked b s i ↔ b.firstSeqNum.toNat % b.size = i ∨ Walked b' s i := by
  have hd := (aheadOrAt_iff s b.firstSeqNum).mp hat
  have hat' := aheadOrAt_iff s b'.firstSeqNum
  unfold Walked
  rw [hat', hsize, hfirst]
  generalize b.firstSeqNum = f at *
  constructor
  · rintro ⟨_, j, hj, hji⟩
    cases j with
    | zero => exact .inl (by simpa using hji)
    | succ j =>
      refine .inr ⟨.inl (by bv_omega), j, by bv_omega, ?_⟩
      rwa [show f + 1 + BitVec.ofNat 16 j = f + BitVec.ofNat 16 (j + 1) by
        rw [BitVec.ofNat_add, BitVec.add_assoc, BitVec.add_comm 1]; rfl]
  · rintro (hi | ⟨hat1, j, hj, hji⟩)
    · exact ⟨hat, 0, by omega, by simpa using hi⟩
    refine ⟨hat, j + 1, by bv_omega, ?_⟩
    rwa [show f + BitVec.ofNat 16 (j + 1) = f + 1 + BitVec.ofNat 16 j by
      rw [BitVec.ofNat_add, BitVec.add_assoc, BitVec.add_comm 1]; rfl]

/-- **The loop of `ClearTo`:** the slots of the numbers it walks are freed, whatever they hold. -/
theorem clearToLoop_slots (s : BitVec 16) (fuel : Nat) (hs : Shaped b) (hpos : 0 < b.size)
    (hfuel : aheadOrAt s b.firstSeqNum → (s - b.firstSeqNum).toNat + 1 ≤ fuel) (i : Nat) :
    (clearToLoop s fuel b).info i =
        (if Walked b s i then { b.info i with used := false } else b.info i) ∧
      (¬ Walked b s i → (clearToLoop s fuel b).packet i = b.packet i) := by
  induction fuel generalizing b with
  | zero =>
    have hnot : ¬ Walked b s i := fun h => by
      have := hfuel h.1
      omega
    exact ⟨by rw [if_neg hnot]; rfl, fun _ => rfl⟩
  | succ fuel ih =>
    unfold clearToLoop
    by_cases hat : aheadOrAt s b.firstSeqNum
    · rw [if_pos hat]
      dsimp only
      have hi := Nat.mod_lt b.firstSeqNum.toNat hpos
      have hinfo := freeSlot_info hs hi i
      have hpacket := freeSlot_packet hs hi i
      have hshaped := hs.freeSlot (b.firstSeqNum.toNat % b.size)
      generalize hb1 : ({ b.freeSlot (b.firstSeqNum.toNat % b.size) with
        firstSeqNum := b.firstSeqNum + 1 } : PacketBuffer) = b1
      have hsize : b1.size = b.size := by rw [← hb1]; rfl
      have hfirst : b1.firstSeqNum = b.firstSeqNum + 1 := by rw [← hb1]
      have hwalk := walked_step hat hsize hfirst i
      obtain ⟨ihinfo, ihpacket⟩ := @ih b1 (by rw [← hb1]; exact ⟨hshaped.1, hshaped.2⟩)
        (by rw [hsize]; exact hpos) (by
          intro hat1
          have hd1 := (aheadOrAt_iff _ _).mp hat1
          have := hfuel hat
          bv_omega)
      have hinfo1 : b1.info i = if i = b.firstSeqNum.toNat % b.size then
          { b.info (b.firstSeqNum.toNat % b.size) with used := false } else b.info i := by
        rw [← hb1]
        exact hinfo
      have hpacket1 : b1.packet i = if i = b.firstSeqNum.toNat % b.size then
          { b.packet (b.firstSeqNum.toNat % b.size) with dataPtr := none } else b.packet i := by
        rw [← hb1]
        exact hpacket
      rw [ihinfo, hinfo1]
      by_cases hii : i = b.firstSeqNum.toNat % b.size
      · rw [if_pos (hwalk.mpr (.inl hii.symm)), if_pos hii, ← hii]
        exact ⟨by split <;> rfl, fun h => absurd (hwalk.mpr (.inl hii.symm)) h⟩
      rw [if_neg hii]
      have hiff : Walked b s i ↔ Walked b1 s i :=
        hwalk.trans (or_iff_right fun h => hii h.symm)
      simp only [hiff, true_and]
      intro hnot
      rw [ihpacket hnot, hpacket1, if_neg hii]
    · rw [if_neg hat]
      have hnot : ¬ Walked b s i := fun h => hat h.1
      exact ⟨by rw [if_neg hnot], fun _ => rfl⟩

theorem clearToLoop_firstSeqNum (s : BitVec 16) (fuel : Nat) (b : PacketBuffer)
    (hfuel : aheadOrAt s b.firstSeqNum → (s - b.firstSeqNum).toNat + 1 ≤ fuel) :
    (clearToLoop s fuel b).firstSeqNum =
      if aheadOrAt s b.firstSeqNum = true then s + 1 else b.firstSeqNum := by
  induction fuel generalizing b with
  | zero =>
    rw [if_neg fun hat => by have := hfuel hat; omega]
    rfl
  | succ fuel ih =>
    unfold clearToLoop
    by_cases hat : aheadOrAt s b.firstSeqNum
    · rw [if_pos hat, if_pos hat, ih]
      · have hd := (aheadOrAt_iff _ _).mp hat
        split
        · rfl
        rename_i hat1
        rw [aheadOrAt_iff] at hat1
        bv_omega
      · intro hat1
        have hd1 := (aheadOrAt_iff _ _).mp hat1
        have := hfuel hat
        bv_omega
    · rw [if_neg hat, if_neg hat]

/-- `2 ^ 15 + 1` passes are enough. -/
theorem clearTo_fuel (s first : BitVec 16) (h : aheadOrAt s first) :
    (s - first).toNat + 1 ≤ 2 ^ 15 + 1 := by
  have := (aheadOrAt_iff s first).mp h
  omega

theorem clearTo_slots (hs : Shaped b) (hpos : 0 < b.size) (hreceived : b.firstPacketReceived)
    (s : BitVec 16) (i : Nat) :
    (clearTo b s).info i = (if Walked b s i then { b.info i with used := false } else b.info i) ∧
      (¬ Walked b s i → (clearTo b s).packet i = b.packet i) := by
  unfold clearTo
  rw [if_neg (by simp [hreceived])]
  exact clearToLoop_slots s _ (b := { b with isClearedToFirstSeqNum := true }) ⟨hs.1, hs.2⟩ hpos
    (clearTo_fuel s b.firstSeqNum) i

end WebRtc.Video.Packets
