import WebRtc.Base.SequenceNumberUnwrapper
import WebRtc.Rtcp.TransportFeedback

/-! What adding a packet to a `TransportFeedback` does to its packets, and when the first packet
can be added: its time always fits the base time, so only its number decides. -/

namespace WebRtc.Rtcp.TransportFeedback

open SequenceNumber BitVec

variable {fb fb' : TransportFeedback} {added : Bool}

/-! ## The packets added -/

/-- The packets and the times of `fb` are those of `fb'`. -/
structure Keeps (fb fb' : TransportFeedback) : Prop where
  packets : fb'.packets = fb.packets
  base : fb'.baseTimeTicks = fb.baseTimeTicks
  last : fb'.lastTimestampUs = fb.lastTimestampUs

theorem keeps_addDeltaSize {deltaSize : Nat} (h : fb.addDeltaSize deltaSize = some fb') :
    Keeps fb fb' := by
  unfold addDeltaSize at h
  split_ifs at h <;> cases h <;> exact ⟨rfl, rfl, rfl⟩

theorem keeps_addMissing {count : Nat} (h : fb.addMissing count = (added, fb')) : Keeps fb fb' := by
  induction count generalizing fb with
  | zero => cases h; exact ⟨rfl, rfl, rfl⟩
  | succ count ih =>
    unfold addMissing at h
    split at h
    · cases h; exact ⟨rfl, rfl, rfl⟩
    rename_i g hadd
    obtain ⟨hp, hb, hl⟩ := keeps_addDeltaSize hadd
    obtain ⟨hp', hb', hl'⟩ := ih h
    exact ⟨hp'.trans hp, hb'.trans hb, hl'.trans hl⟩

/-- `fb'` reports one packet more than `fb`, and its last time is the delta later. -/
structure Appends (fb fb' : TransportFeedback) (sequenceNumber delta : BitVec 16) : Prop where
  packets : fb'.packets = fb.packets ++ [⟨sequenceNumber, delta⟩]
  base : fb'.baseTimeTicks = fb.baseTimeTicks
  last : fb'.lastTimestampUs = fb.lastTimestampUs + delta.toInt * kDeltaScaleFactor

theorem addReceived_cases {sequenceNumber delta : BitVec 16}
    (h : fb.addReceived sequenceNumber delta = (added, fb')) :
    added = false ∧ Keeps fb fb' ∨ added ∧ Appends fb fb' sequenceNumber delta := by
  unfold addReceived at h
  dsimp only at h
  generalize (if isSmall delta then 1 else 2) = deltaSize at h
  cases hadd : fb.addDeltaSize deltaSize with
  | none =>
    rw [hadd] at h
    cases h
    exact .inl ⟨rfl, rfl, rfl, rfl⟩
  | some g =>
    rw [hadd] at h
    cases h
    obtain ⟨hp, hb, hl⟩ := keeps_addDeltaSize hadd
    exact .inr ⟨rfl, congrArg (· ++ _) hp, hb, congrArg (· + _) hl⟩

/-- The tick delta `AddReceivedPacket` computes, as the `int16_t` it is stored in. -/
def tickDelta (fb : TransportFeedback) (timestampUs : Int) : BitVec 16 :=
  BitVec.ofInt 16 (deltaFull timestampUs fb.lastTimestampUs)

/-- What `AddReceivedPacket` does: a refusal keeps the packets and the times, and a packet is
accepted only if its delta fits. -/
theorem addReceivedPacket_cases {sequenceNumber : BitVec 16} {timestampUs : Int}
    (h : fb.addReceivedPacket sequenceNumber timestampUs = (added, fb')) :
    added = false ∧ Keeps fb fb' ∨ added ∧
        (fb.tickDelta timestampUs).toInt = deltaFull timestampUs fb.lastTimestampUs ∧
        Appends fb fb' sequenceNumber (fb.tickDelta timestampUs) := by
  unfold addReceivedPacket at h
  dsimp only at h
  split at h
  · cases h
    exact .inl ⟨rfl, rfl, rfl, rfl⟩
  rename_i hfits
  have hfits := not_not.mp hfits
  split at h
  · split at h
    · split at h
      · next g hmissing =>
        cases h
        exact .inl ⟨rfl, keeps_addMissing hmissing⟩
      rename_i g hmissing
      obtain ⟨hp, hb, hl⟩ := keeps_addMissing hmissing
      rcases addReceived_cases h with ⟨ha, hp', hb', hl'⟩ | ⟨ha, hp', hb', hl'⟩
      · exact .inl ⟨ha, hp'.trans hp, hb'.trans hb, hl'.trans hl⟩
      rw [hp] at hp'
      rw [hl] at hl'
      exact .inr ⟨ha, hfits, hp', hb'.trans hb, hl'⟩
    · cases h
      exact .inl ⟨rfl, rfl, rfl, rfl⟩
  · exact (addReceived_cases h).imp_right fun hr => ⟨hr.1, hfits, hr.2⟩

/-- The sequence numbers reported. -/
def numbers (fb : TransportFeedback) : List (BitVec 16) := fb.packets.map ReceivedPacket.sequenceNumber

/-- A packet that is accepted is the last one reported; a refusal reports nothing. -/
theorem numbers_addReceivedPacket {sequenceNumber : BitVec 16} {timestampUs : Int}
    (h : fb.addReceivedPacket sequenceNumber timestampUs = (added, fb')) :
    fb'.numbers = fb.numbers ++ if added then [sequenceNumber] else [] := by
  rcases addReceivedPacket_cases h with ⟨rfl, hkeeps⟩ | ⟨rfl, _, happends⟩
  · simp [numbers, hkeeps.packets]
  · simp [numbers, happends.packets]

/-! ## Room for the first packet -/

/-- `fb` has room for `n` more packets. -/
structure Room (fb : TransportFeedback) (n : Nat) : Prop where
  count : fb.numSeqNo + n ≤ kMaxReportedPackets
  size : fb.sizeBytes + 2 * n + 2 ≤ kMaxSizeBytes

theorem addDeltaSize_of_room {n : Nat} (h : fb.Room (n + 1)) {deltaSize : Nat} (hd : deltaSize ≤ 2) :
    ∃ fb', fb.addDeltaSize deltaSize = some fb' ∧ fb'.Room n := by
  obtain ⟨hc, hs⟩ := h
  have hchunk : fb.addChunkSize ≤ 2 := by
    unfold addChunkSize
    split <;> decide
  have hk : kChunkSizeBytes = 2 := rfl
  unfold addDeltaSize
  rw [if_neg (by omega), if_neg (by omega)]
  split
  · exact ⟨_, rfl, by dsimp only; omega, by dsimp only; omega⟩
  · rw [if_neg (by omega)]
    exact ⟨_, rfl, by dsimp only; omega, by dsimp only; omega⟩

theorem addMissing_of_room {count n : Nat} (h : fb.Room (count + n)) :
    ∃ fb', fb.addMissing count = (true, fb') ∧ fb'.Room n := by
  induction count generalizing fb with
  | zero => exact ⟨fb, rfl, by rwa [Nat.zero_add] at h⟩
  | succ count ih =>
    obtain ⟨fb', hadd, hroom⟩ := addDeltaSize_of_room (n := count + n)
      (by rwa [Nat.add_right_comm] at h) (Nat.zero_le 2)
    unfold addMissing
    rw [hadd]
    exact ih hroom

theorem addReceived_of_room {n : Nat} (h : fb.Room (n + 1)) (sequenceNumber delta : BitVec 16) :
    (fb.addReceived sequenceNumber delta).1 := by
  have hsize : (if isSmall delta then 1 else 2) ≤ 2 := by split <;> decide
  obtain ⟨_, hadd, _⟩ := addDeltaSize_of_room h hsize
  unfold addReceived
  dsimp only
  rw [hadd]

/-! ## The time of the first packet -/

theorem baseTicks_eq {us : Int} (h : 0 ≤ us) : baseTicks us = us % 1073741824000 / 64000 := by
  have hw : kTimeWrapPeriodUs = 1073741824000 := rfl
  have hb : kBaseScaleFactor.toNat = 64000 := rfl
  unfold baseTicks
  dsimp only
  rw [if_neg (Nat.lt_irrefl 64), hw, hb, Int.tmod_eq_emod_of_nonneg h]
  have h64 : ((BitVec.ofInt 64 (us % 1073741824000)).toNat : Int) = us % 1073741824000 := by
    rw [toNat_ofInt]
    omega
  rw [toInt_eq_toNat_of_lt]
  · rw [toNat_ofNat]
    omega
  · rw [toNat_ofNat]
    omega

/-- The time a packet is reported with when its own time is the base time. -/
theorem deltaFull_base {us : Int} (h : 0 ≤ us) :
    0 ≤ deltaFull us (baseTicks us * kBaseScaleFactor) ∧
      deltaFull us (baseTicks us * kBaseScaleFactor) ≤ 256 := by
  have hw : kTimeWrapPeriodUs = 1073741824000 := rfl
  have hb : kBaseScaleFactor = 64000 := rfl
  have hd : kDeltaScaleFactor = 250 := rfl
  unfold deltaFull
  rw [baseTicks_eq h, hw, hb, hd]
  have hsub : 0 ≤ us - us % 1073741824000 / 64000 * 64000 := by omega
  rw [Int.tmod_eq_emod_of_nonneg hsub]
  dsimp only
  rw [if_neg (by omega), if_neg (by omega), Int.tdiv_eq_ediv_of_nonneg (by omega)]
  omega

/-- The first packet is accepted exactly when its number is not behind the base. -/
theorem addReceivedPacket_first (h0 : fb.numSeqNo = 0)
    (hsize : fb.sizeBytes = kTransportFeedbackHeaderSizeBytes) {us : Int} (hus : 0 ≤ us)
    (hlast : fb.lastTimestampUs = baseTicks us * kBaseScaleFactor) (sequenceNumber : BitVec 16) :
    (fb.addReceivedPacket sequenceNumber us).1 =
      isNewerSequenceNumber sequenceNumber (fb.baseSeqNo - 1#16) := by
  have hdelta := deltaFull_base hus
  unfold addReceivedPacket
  rw [hlast]
  generalize deltaFull us (baseTicks us * kBaseScaleFactor) = full at hdelta
  have hfits : (BitVec.ofInt 16 full).toInt = full := by
    rw [toInt_ofInt]
    apply Int.bmod_eq_of_le <;> omega
  have hnext : fb.baseSeqNo + BitVec.ofNat 16 fb.numSeqNo = fb.baseSeqNo := by
    rw [h0]
    exact BitVec.add_zero _
  rw [if_neg (not_not.mpr hfits), hnext]
  have hroom : ∀ count < 32768, fb.Room (count + 1) := by
    intro count hcount
    have hk : kMaxReportedPackets = 65535 := rfl
    have hm : kMaxSizeBytes = 262144 := rfl
    have hh : kTransportFeedbackHeaderSizeBytes = 20 := rfl
    exact ⟨by omega, by omega⟩
  by_cases he : sequenceNumber = fb.baseSeqNo
  · rw [if_neg (not_not.mpr he), addReceived_of_room (hroom 0 (by decide)), he, Eq.comm,
      isNewer_iff]
    left
    have : fb.baseSeqNo - (fb.baseSeqNo - 1#16) = 1#16 := by bv_omega
    rw [this]
    decide
  · rw [if_pos he]
    cases hnew : isNewerSequenceNumber sequenceNumber (fb.baseSeqNo - 1#16) with
    | false => rfl
    | true =>
      have hcount : (sequenceNumber - fb.baseSeqNo).toNat < 32768 := by
        have := (isNewer_iff _ _).mp hnew
        bv_omega
      obtain ⟨_, hmissing, hroom'⟩ := addMissing_of_room (hroom _ hcount)
      rw [if_pos rfl, hmissing]
      exact addReceived_of_room hroom' _ _

end WebRtc.Rtcp.TransportFeedback
