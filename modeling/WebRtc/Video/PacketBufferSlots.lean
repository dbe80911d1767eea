import WebRtc.Video.PacketBuffer

/-! Slot-level facts about the packet buffer: what each write does to each slot, the
shape of a well-formed ring, and walking the ring backwards. -/

namespace WebRtc.Video.Packets
open SequenceNumber

variable {b : PacketBuffer} {i size : Nat}

/-! ## Reading a slot after a write -/

theorem getD_modify {α : Type} (l : List α) (i j : Nat) (f : α → α) (d : α) (hi : i < l.length) :
    (l.modify i f).getD j d = if j = i then f (l.getD i d) else l.getD j d := by
  by_cases h : j = i
  · subst h
    simp [List.getElem?_eq_getElem hi]
  · simp [h, Ne.symm h]

theorem getD_set {α : Type} (l : List α) (i j : Nat) (a d : α) (hi : i < l.length) :
    (l.set i a).getD j d = if j = i then a else l.getD j d := by
  by_cases h : j = i
  · subst h
    simp [hi]
  · simp [h, Ne.symm h]

/-- Shape of the two vectors; every operation keeps it. -/
structure Shaped (b : PacketBuffer) : Prop where
  sequence_length : b.sequenceBuffer.length = b.size
  data_length : b.dataBuffer.length = b.size

namespace PacketBuffer

@[simp] theorem modifyInfo_size (b : PacketBuffer) (i : Nat) (f : ContinuityInfo → ContinuityInfo) :
    (b.modifyInfo i f).size = b.size := rfl
@[simp] theorem modifyInfo_packet (b : PacketBuffer) (i j : Nat)
    (f : ContinuityInfo → ContinuityInfo) : (b.modifyInfo i f).packet j = b.packet j := rfl
@[simp] theorem freeSlot_size (b : PacketBuffer) (i : Nat) : (b.freeSlot i).size = b.size := rfl
theorem modifyInfo_info (hs : Shaped b) (hi : i < b.size) (j : Nat)
    (f : ContinuityInfo → ContinuityInfo) :
    (b.modifyInfo i f).info j = if j = i then f (b.info i) else b.info j :=
  getD_modify _ _ _ _ _ (by rw [hs.sequence_length]; exact hi)

theorem freeSlot_info (hs : Shaped b) (hi : i < b.size) (j : Nat) :
    (b.freeSlot i).info j = if j = i then { b.info i with used := false } else b.info j :=
  getD_modify _ _ _ _ _ (by rw [hs.sequence_length]; exact hi)

theorem freeSlot_packet (hs : Shaped b) (hi : i < b.size) (j : Nat) :
    (b.freeSlot i).packet j = if j = i then { b.packet i with dataPtr := none } else b.packet j :=
  getD_modify _ _ _ _ _ (by rw [hs.data_length]; exact hi)

end PacketBuffer

theorem Shaped.modifyInfo (hs : Shaped b) (i : Nat) (f : ContinuityInfo → ContinuityInfo) :
    Shaped (b.modifyInfo i f) :=
  ⟨by simp [PacketBuffer.modifyInfo, hs.sequence_length],
    by simp [PacketBuffer.modifyInfo, hs.data_length]⟩

theorem Shaped.freeSlot (hs : Shaped b) (i : Nat) : Shaped (b.freeSlot i) :=
  ⟨by simp [PacketBuffer.freeSlot, hs.sequence_length], by simp [PacketBuffer.freeSlot, hs.data_length]⟩

theorem Shaped.storeAt (hs : Shaped b) (i : Nat) (p : VCMPacket) : Shaped (storeAt b i p) :=
  ⟨by simp [Packets.storeAt, hs.sequence_length], by simp [Packets.storeAt, hs.data_length]⟩

/-- The slot written by `InsertPacket`. -/
def storedInfo (p : VCMPacket) : ContinuityInfo :=
  { seqNum := p.seqNum, frameBegin := p.isFirstPacketInFrame, frameEnd := p.markerBit,
    used := true, continuous := false, frameCreated := false }

theorem storeAt_info (hs : Shaped b) (hi : i < b.size) (j : Nat) (p : VCMPacket) :
    (storeAt b i p).info j = if j = i then storedInfo p else b.info j :=
  getD_set _ _ _ _ _ (by rw [hs.sequence_length]; exact hi)

theorem storeAt_packet (hs : Shaped b) (hi : i < b.size) (j : Nat) (p : VCMPacket) :
    (storeAt b i p).packet j = if j = i then p else b.packet j :=
  getD_set _ _ _ _ _ (by rw [hs.data_length]; exact hi)

/-! ## Walking backwards -/

/-- The slot `n` places before `i`. -/
def backBy (size : Nat) : Nat → Nat → Nat
  | 0, i => i
  | n + 1, i => backBy size n (prevIndex size i)

theorem prevIndex_lt (hi : i < size) : prevIndex size i < size := by
  unfold prevIndex; split <;> omega

theorem prevIndex_inj {j : Nat} (hi : i < size) (hj : j < size)
    (h : prevIndex size i = prevIndex size j) : i = j := by
  unfold prevIndex at h
  split at h <;> split at h <;> omega

theorem backBy_lt (n : Nat) (hi : i < size) : backBy size n i < size := by
  induction n generalizing i with
  | zero => exact hi
  | succ n ih => exact ih (prevIndex_lt hi)

theorem backBy_succ (size n i : Nat) :
    backBy size (n + 1) i = prevIndex size (backBy size n i) := by
  induction n generalizing i with
  | zero => rfl
  | succ n ih => exact ih _

theorem backBy_le {n : Nat} (hn : n ≤ i) : backBy size n i = i - n := by
  induction n with
  | zero => rfl
  | succ n ih =>
    rw [backBy_succ, ih (by omega), prevIndex, if_pos (by omega)]
    omega

theorem backBy_add (size m n i : Nat) :
    backBy size (m + n) i = backBy size n (backBy size m i) := by
  induction m generalizing i with
  | zero => simp [backBy]
  | succ m ih => rw [Nat.succ_add]; exact ih _

/-- Walking backwards from `i` meets every slot of the ring within one turn. -/
theorem exists_backBy {j : Nat} (hi : i < size) (hj : j < size) :
    ∃ n < size, backBy size n i = j := by
  rcases Nat.lt_or_ge i j with h | h
  · -- down to slot 0, across the end of the vector, then down to `j`
    refine ⟨i + (1 + (size - 1 - j)), by omega, ?_⟩
    rw [backBy_add, backBy_le (Nat.le_refl i), backBy_add, Nat.sub_self]
    have h0 : backBy size 1 0 = size - 1 := rfl
    rw [h0, backBy_le (by omega)]
    omega
  · exact ⟨i - j, by omega, by rw [backBy_le (by omega)]; omega⟩

end WebRtc.Video.Packets
