import WebRtc.Rtp.FecRecovery

/-! One walk of `AttemptRecovery` over the FEC packets: which packets stay, which number is
recovered, and what that does to the packets that are left. -/

namespace WebRtc.Rtp.Fec

open SequenceNumber List

variable {f : ReceivedFecPacket} {s : BitVec 16} {e : Fault} {qs : List ProtectedPacket}
  {before rest : List ReceivedFecPacket}

/-! ## The packets that a FEC packet protects -/

/-- The numbers of the packets that a FEC packet protects. -/
def ReceivedFecPacket.protectedNumbers (f : ReceivedFecPacket) : List (BitVec 16) :=
  f.protectedPackets.map (·.seqNum)

/-- The protected packets that are missing. -/
def ReceivedFecPacket.missing (f : ReceivedFecPacket) : List (BitVec 16) :=
  (f.protectedPackets.filter fun q => q.pkt.isNone).map (·.seqNum)

theorem mem_missing : s ∈ f.missing ↔ ∃ q ∈ f.protectedPackets, q.pkt = none ∧ q.seqNum = s := by
  simp [ReceivedFecPacket.missing, and_assoc]

theorem missing_subset (f : ReceivedFecPacket) : f.missing ⊆ f.protectedNumbers := by
  intro s hs
  obtain ⟨q, hq, -, rfl⟩ := mem_missing.mp hs
  exact mem_map_of_mem hq

theorem numCoveredPacketsMissing_eq (f : ReceivedFecPacket) :
    numCoveredPacketsMissing f = min 2 f.missing.length := by
  rw [numCoveredPacketsMissing, ReceivedFecPacket.missing, length_map, countP_eq_length_filter]

theorem map_modify_comm {α β : Type} {f : α → α} {e : β → β} {g : α → β}
    (h : ∀ a, g (f a) = e (g a)) (l : List α) (k : Nat) :
    (l.modify k f).map g = (l.map g).modify k e := by
  induction l generalizing k with
  | nil => simp
  | cons a l ih => cases k <;> simp [h, ih]

@[simp] theorem protectedNumbers_updateCovering (packet : RecoveredPacket) (f : ReceivedFecPacket) :
    (updateCovering packet f).protectedNumbers = f.protectedNumbers := by
  refine (map_modify_comm (e := id) (fun q => ?_) _ _).trans (modify_id _ _)
  split <;> rfl

/-- Links do not change the numbers. -/
theorem assignFrom_seqNum (qs : List ProtectedPacket) (rs : List RecoveredPacket) :
    (assignFrom qs rs).map (·.seqNum) = qs.map (·.seqNum) := by
  induction qs generalizing rs with
  | nil => rfl
  | cons q qs ihq =>
    rw [assignFrom]
    induction rs with
    | nil => rfl
    | cons r rs ihr =>
      rw [assignFrom.walk]
      split
      · simp [ihq]
      split
      · exact ihr
      · simp [ihq]

/-! ## One recovery -/

/-- The number to start from does not matter when a packet is missing. -/
theorem xorProtectedPackets_start (h : ∃ q ∈ qs, q.pkt = none) (s s' : BitVec 16) (p : Packet) :
    xorProtectedPackets qs s p = xorProtectedPackets qs s' p := by
  induction qs generalizing s s' p with
  | nil => simp at h
  | cons q qs ih =>
    rw [xorProtectedPackets, xorProtectedPackets]
    split
    · rfl
    rename_i m hm
    have htail : ∃ q ∈ qs, q.pkt = none := by
      obtain ⟨q', hq', hnone⟩ := h
      rcases mem_cons.mp hq' with rfl | hq'
      · rw [hm] at hnone
        cases hnone
      · exact ⟨q', hq', hnone⟩
    split
    · rfl
    · exact ih htail s s' _

theorem xorProtectedPackets_missing {s' : BitVec 16} {p p' : Packet}
    (h : xorProtectedPackets qs s p = .ok (s', p')) :
    s' = s ∨ ∃ q ∈ qs, q.pkt = none ∧ q.seqNum = s' := by
  induction qs generalizing s p with
  | nil =>
    cases h
    exact .inl rfl
  | cons q qs ih =>
    rw [xorProtectedPackets] at h
    split at h
    · next hnone =>
      rcases ih h with rfl | ⟨q', hq', hmissing⟩
      · exact .inr ⟨q, .head _, hnone, rfl⟩
      · exact .inr ⟨q', .tail _ hq', hmissing⟩
    split at h
    · cases h
    rcases ih h with heq | ⟨q', hq', hmissing⟩
    · exact .inl heq
    · exact .inr ⟨q', .tail _ hq', hmissing⟩

theorem exists_missing (h : numCoveredPacketsMissing f = 1) :
    ∃ q ∈ f.protectedPackets, q.pkt = none := by
  have hpos : 0 < f.protectedPackets.countP fun q => q.pkt.isNone := by
    rw [numCoveredPacketsMissing] at h
    omega
  simpa using countP_pos_iff.mp hpos

/-- What is recovered was missing. -/
theorem recoverPacket_missing (h : numCoveredPacketsMissing f = 1) {packet : RecoveredPacket}
    (hr : recoverPacket f = .ok (some packet)) : packet.seqNum ∈ f.missing := by
  obtain ⟨q, hq, hnone⟩ := exists_missing h
  rw [recoverPacket] at hr
  split at hr
  · cases hr
  · cases hr
  -- start from a number that is missing
  rw [xorProtectedPackets_start ⟨q, hq, hnone⟩ 0 q.seqNum] at hr
  split at hr
  · cases hr
  rename_i s _ hxor
  obtain ⟨_, -, rfl⟩ := Option.map_eq_some_iff.mp (Except.ok.inj hr)
  rcases xorProtectedPackets_missing hxor with rfl | hmissing
  · exact mem_missing.mpr ⟨q, hq, hnone, rfl⟩
  · exact mem_missing.mpr hmissing

theorem xorPayloadsFrom_fault {src : Packet} {dstOffset n i : Nat} {dst : Packet}
    (h : xorPayloadsFrom src dstOffset n i dst = .error e) : e = .outOfBounds := by
  induction n generalizing i dst with
  | zero => cases h
  | succ n ih =>
    rw [xorPayloadsFrom] at h
    split at h
    · exact ih h
    · cases h
      rfl

theorem xorProtectedPackets_error {p : Packet} (h : xorProtectedPackets qs s p = .error e) :
    e = .outOfBounds := by
  induction qs generalizing s p with
  | nil => cases h
  | cons q qs ih =>
    rw [xorProtectedPackets] at h
    split at h
    · exact ih h
    split at h
    · next hxor =>
      cases h
      exact xorPayloadsFrom_fault hxor
    · exact ih h

theorem startPacketRecovery_error (h : startPacketRecovery f = .error e) : e = .outOfBounds := by
  simp only [startPacketRecovery, Packet.memcpy] at h
  split at h
  · cases h
  split at h
  · cases h
  split at h
  · next hcopy =>
    split at hcopy
    · cases hcopy
    cases hcopy
    cases h
    rfl
  · cases h

/-- A recovery fails with an access outside of a packet only. -/
theorem recoverPacket_error (h : recoverPacket f = .error e) : e = .outOfBounds := by
  rw [recoverPacket] at h
  split at h
  · next hstart =>
    cases h
    exact startPacketRecovery_error hstart
  · cases h
  split at h
  · next hxor =>
    cases h
    exact xorProtectedPackets_error hxor
  · cases h

/-! ## One walk -/

/-- A walk that recovers a packet takes away the FEC packet it used. -/
theorem scan_recovered {packet : RecoveredPacket} {fecPackets : List ReceivedFecPacket}
    (h : scan before rest = .ok (.recovered packet fecPackets)) :
    (∃ f ∈ rest, numCoveredPacketsMissing f = 1 ∧ recoverPacket f = .ok (some packet)) ∧
      fecPackets ⊆ before ++ rest ∧ fecPackets.length < before.length + rest.length := by
  induction rest generalizing before with
  | nil => cases h
  | cons f rest ih =>
    have hskip : scan before rest = .ok (.recovered packet fecPackets) →
        (∃ g ∈ f :: rest, numCoveredPacketsMissing g = 1 ∧ recoverPacket g = .ok (some packet)) ∧
          fecPackets ⊆ before ++ f :: rest ∧
          fecPackets.length < before.length + (f :: rest).length := by
      intro hrest
      obtain ⟨⟨g, hg, hmem⟩, hsub, hlt⟩ := ih hrest
      refine ⟨⟨g, .tail _ hg, hmem⟩, List.Subset.trans hsub (by simp), ?_⟩
      rw [length_cons]
      omega
    rw [scan] at h
    split at h
    · exact hskip h
    · next hone =>
      split at h
      · cases h
      · exact hskip h
      rename_i hrecover
      cases h
      exact ⟨⟨f, .head _, hone, hrecover⟩, by simp, by simp⟩
    · obtain ⟨⟨g, hg, hmem⟩, hsub, hlt⟩ := ih h
      refine ⟨⟨g, .tail _ hg, hmem⟩, by simpa using hsub, ?_⟩
      simpa [Nat.add_assoc, Nat.add_comm 1] using hlt

/-- A walk that reaches the end leaves FEC packets with two missing packets. -/
theorem scan_finished {fecPackets : List ReceivedFecPacket}
    (h : scan before rest = .ok (.finished fecPackets)) :
    fecPackets ⊆ before ++ rest ∧ ∀ f ∈ fecPackets, f ∈ before ∨ 2 ≤ f.missing.length := by
  induction rest generalizing before with
  | nil =>
    cases h
    simp
    tauto
  | cons f rest ih =>
    have hskip : scan before rest = .ok (.finished fecPackets) →
        fecPackets ⊆ before ++ f :: rest ∧
          ∀ f ∈ fecPackets, f ∈ before ∨ 2 ≤ f.missing.length := fun hrest =>
      ⟨List.Subset.trans (ih hrest).1 (by simp), (ih hrest).2⟩
    rw [scan] at h
    split at h
    · exact hskip h
    · split at h
      · cases h
      · exact hskip h
      · cases h
    rename_i hzero hone
    obtain ⟨hsub, hleft⟩ := ih h
    refine ⟨by simpa using hsub, fun g hg => ?_⟩
    rcases hleft g hg with hbefore | htwo
    · rcases mem_append.mp hbefore with hbefore | hlast
      · exact .inl hbefore
      rw [mem_singleton.mp hlast]
      have hcount := numCoveredPacketsMissing_eq f
      have hzero' : numCoveredPacketsMissing f ≠ 0 := hzero
      have hone' : numCoveredPacketsMissing f ≠ 1 := hone
      exact .inr (by omega)
    · exact .inr htwo

theorem scan_error (h : scan before rest = .error e) : e = .outOfBounds := by
  induction rest generalizing before with
  | nil => cases h
  | cons f rest ih =>
    rw [scan] at h
    split at h
    · exact ih h
    · split at h
      · next hrecover =>
        cases h
        exact recoverPacket_error hrecover
      · exact ih h
      · cases h
    · exact ih h

/-- The decoder after a recovery that left `fecPackets`. -/
def withRecovered (d : Decoder) (packet : RecoveredPacket) (fecPackets : List ReceivedFecPacket) :
    Decoder where
  receivedFecPackets := fecPackets.map (updateCovering packet)
  recoveredPackets := discardOldRecoveredPackets
    (sortBySeqNum (·.seqNum) (d.recoveredPackets ++ [packet]))

end WebRtc.Rtp.Fec
