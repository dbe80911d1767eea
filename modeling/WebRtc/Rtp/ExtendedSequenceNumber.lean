import WebRtc.Rtp.ReceiveStatistics

/-! The extended highest sequence number of `StreamStatisticianImpl` against the true, unwrapped
numbers of the packets. -/

namespace WebRtc.Rtp.ReceiveStatistics

open SequenceNumber RtpUtility StreamStatisticianImpl BitVec

/-- An `IncomingPacket` call for the packet with this true sequence number. -/
structure Arrival where
  number : Int
  header : RTPHeader
  packetLength : Nat
  retransmitted : Bool
  clock : Clock
  sequenceNumber : header.sequenceNumber = BitVec.ofInt 16 number
  positive : 0 < clock.timeInMilliseconds

namespace StreamStatisticianImpl

variable {s : StreamStatisticianImpl} {a : Arrival}

def receive (s : StreamStatisticianImpl) (a : Arrival) : StreamStatisticianImpl :=
  s.updateCounters a.header a.packetLength a.retransmitted a.clock

theorem receive_counts (s : StreamStatisticianImpl) (a : Arrival) :
    (s.receive a).maxReorderingThreshold = s.maxReorderingThreshold ∧
      (s.receive a).receiveCounters.transmitted.packets =
        s.receiveCounters.transmitted.packets + 1#32 := by
  simp only [receive, updateCounters]
  split
  · rw [advance_eq]
    exact ⟨rfl, rfl⟩
  · exact ⟨rfl, rfl⟩

/-- A packet that is not in order leaves the maximum alone. -/
theorem receive_ignored (h : s.inOrderPacketInternal a.header.sequenceNumber = false) :
    (s.receive a).receivedSeqMax = s.receivedSeqMax ∧
      (s.receive a).receivedSeqWraps = s.receivedSeqWraps ∧
      (s.receive a).lastReceiveTimeMs = s.lastReceiveTimeMs := by
  simp [receive, updateCounters, countPacket, h]

/-- A packet in order is the new maximum, one turn on if its number is smaller. -/
theorem receive_inOrder (h : s.inOrderPacketInternal a.header.sequenceNumber) :
    (s.receive a).receivedSeqMax = a.header.sequenceNumber ∧ (s.receive a).receivedSeqWraps =
        (if 1#32 < s.receiveCounters.transmitted.packets + 1#32 ∧
            a.header.sequenceNumber < s.receivedSeqMax then s.receivedSeqWraps + 1#16
          else s.receivedSeqWraps) ∧
      (s.receive a).lastReceiveTimeMs = a.clock.timeInMilliseconds := by
  simp only [receive, updateCounters, h, if_true]
  rw [advance_eq]
  exact ⟨rfl, rfl, rfl⟩

end StreamStatisticianImpl

/-! ## The true maximum -/

/-- Each packet is within the reordering threshold of the running maximum and less than half a turn
ahead of it. -/
def Plausible (threshold : Int) : Int → List Arrival → Prop
  | _, [] => True
  | maximum, a :: rest =>
      maximum - threshold < a.number ∧ a.number < maximum + 2 ^ 15 ∧
        Plausible threshold (max maximum a.number) rest

def trueMaximum (first : Arrival) (rest : List Arrival) : Int :=
  rest.foldl (fun maximum a => max maximum a.number) first.number

/-- The statistician has seen `count` packets, the first in turn `turn`, with this maximum. -/
structure Tracks (threshold turn maximum : Int) (count : Nat) (s : StreamStatisticianImpl) :
    Prop where
  threshold : s.maxReorderingThreshold = threshold
  seqMax : s.receivedSeqMax = BitVec.ofInt 16 maximum
  seqWraps : s.receivedSeqWraps = BitVec.ofInt 16 (maximum / 2 ^ 16 - turn)
  heard : s.lastReceiveTimeMs ≠ 0
  packets : s.receiveCounters.transmitted.packets = BitVec.ofNat 32 count

variable {threshold turn maximum : Int} {count : Nat} {s : StreamStatisticianImpl} {a : Arrival}

variable (h : Tracks threshold turn maximum count s)
include h

/-- A packet ahead of the maximum is in order. -/
theorem Tracks.inOrder_of_ahead (hlo : maximum < a.number) (hhi : a.number < maximum + 2 ^ 15) :
    s.inOrderPacketInternal a.header.sequenceNumber := by
  have hnew : isNewerSequenceNumber (BitVec.ofInt 16 a.number) (BitVec.ofInt 16 maximum) := by
    rw [isNewer_iff, toNat_sub, toNat_ofInt, toNat_ofInt]
    omega
  simp [inOrderPacketInternal, h.heard, a.sequenceNumber, h.seqMax, hnew]

/-- A packet behind the maximum is not, unless it has the number of the maximum. -/
theorem Tracks.inOrder_of_behind (hT : threshold ≤ 2 ^ 15) (hlo : maximum - threshold < a.number)
    (hhi : a.number ≤ maximum)
    (hin : s.inOrderPacketInternal a.header.sequenceNumber) : a.number = maximum := by
  by_contra hne
  have hold : isNewerSequenceNumber (BitVec.ofInt 16 a.number) (BitVec.ofInt 16 maximum) =
      false := by
    rw [← Bool.not_eq_true, isNewer_iff, toNat_sub, toNat_ofInt, toNat_ofInt]
    omega
  have hnear : isNewerSequenceNumber (BitVec.ofInt 16 a.number)
      (BitVec.ofInt 16 maximum - BitVec.ofInt 16 threshold) := by
    rw [isNewer_iff, toNat_sub, toNat_sub, toNat_ofInt, toNat_ofInt,
      toNat_ofInt]
    omega
  simp [inOrderPacketInternal, h.heard, a.sequenceNumber, h.seqMax,
    h.threshold, hold, hnear] at hin

/-- One plausible packet. -/
theorem Tracks.receive (hT : threshold ≤ 2 ^ 15)
    (hcount : 1 ≤ count) (hcount' : count + 1 < 2 ^ 32) (hlo : maximum - threshold < a.number)
    (hhi : a.number < maximum + 2 ^ 15) :
    Tracks threshold turn (max maximum a.number) (count + 1) (s.receive a) := by
  have hpackets : (s.receive a).receiveCounters.transmitted.packets = BitVec.ofNat 32 (count + 1) := by
    rw [(s.receive_counts a).2, h.packets]
    exact (ofNat_add ..).symm
  have hthreshold := (s.receive_counts a).1.trans h.threshold
  have htime := a.positive
  by_cases hin : s.inOrderPacketInternal a.header.sequenceNumber
  · obtain ⟨hmax, hwraps, hheard⟩ := receive_inOrder hin
    have hle : maximum ≤ a.number := by
      by_contra hlt
      have := h.inOrder_of_behind hT hlo (by omega) hin
      omega
    rw [Int.max_eq_right hle]
    refine ⟨hthreshold, hmax.trans a.sequenceNumber, ?_, by omega, hpackets⟩
    rw [hwraps, a.sequenceNumber, h.seqMax, h.seqWraps, h.packets]
    have hmany : 1#32 < BitVec.ofNat 32 count + 1#32 := by
      rw [lt_def, toNat_add, toNat_ofNat, toNat_ofNat]
      omega
    have hturn : BitVec.ofInt 16 a.number < BitVec.ofInt 16 maximum ↔
        a.number / 2 ^ 16 = maximum / 2 ^ 16 + 1 := by
      rw [lt_def, toNat_ofInt, toNat_ofInt]
      omega
    by_cases hwrap : BitVec.ofInt 16 a.number < BitVec.ofInt 16 maximum
    · rw [if_pos ⟨hmany, hwrap⟩, hturn.mp hwrap]
      apply eq_of_toNat_eq
      rw [toNat_add, toNat_ofInt, toNat_ofInt, toNat_ofNat]
      omega
    have hsame : a.number / 2 ^ 16 = maximum / 2 ^ 16 := by
      rw [hturn] at hwrap
      omega
    rw [if_neg fun hc => hwrap hc.2, hsame]
  · obtain ⟨hmax, hwraps, hheard⟩ := receive_ignored
      (eq_false_of_ne_true hin)
    have hle : a.number ≤ maximum := by
      by_contra hlt
      exact hin (h.inOrder_of_ahead (by omega) hhi)
    rw [Int.max_eq_left hle]
    exact ⟨hthreshold, hmax.trans h.seqMax, hwraps.trans h.seqWraps, hheard ▸ h.heard, hpackets⟩

omit h

theorem tracks_first (threshold : Int) (first : Arrival) :
    Tracks threshold (first.number / 2 ^ 16) first.number 1
      (receive { maxReorderingThreshold := threshold } first) := by
  have hin : inOrderPacketInternal
      { maxReorderingThreshold := threshold } first.header.sequenceNumber := rfl
  obtain ⟨hmax, hwraps, hheard⟩ := receive_inOrder hin
  have htime := first.positive
  obtain ⟨hthreshold, hpackets⟩ := receive_counts
    { maxReorderingThreshold := threshold } first
  refine ⟨hthreshold, hmax.trans first.sequenceNumber, ?_, by omega, hpackets⟩
  rw [hwraps, Int.sub_self]
  exact if_neg fun h => absurd h.1 (show ¬ 1#32 < 0#32 + 1#32 by decide)

theorem Tracks.run (rest : List Arrival) (hT : threshold ≤ 2 ^ 15)
    (h : Tracks threshold turn maximum count s) (hcount : 1 ≤ count)
    (hlength : count + rest.length < 2 ^ 32) (hrest : Plausible threshold maximum rest) :
    Tracks threshold turn (rest.foldl (fun maximum a => max maximum a.number) maximum)
      (count + rest.length) (rest.foldl StreamStatisticianImpl.receive s) := by
  induction rest generalizing maximum count s with
  | nil => exact h
  | cons a rest ih =>
    obtain ⟨hlo, hhi, hrest⟩ := hrest
    rw [List.length_cons] at hlength ⊢
    have hnext := ih (h.receive hT hcount (by omega) hlo hhi) (by omega) (by omega) hrest
    rwa [show count + 1 + rest.length = count + (rest.length + 1) by omega] at hnext

/-- **The extended highest sequence number.** With a threshold of at most half a turn and fewer than
2^32 packets, a run of plausible packets reports the true maximum, counted in turns from the first
packet. -/
theorem extendedMaxSequenceNumber_eq (threshold : Int) (hT : threshold ≤ 2 ^ 15) (first : Arrival)
    (rest : List Arrival) (hlength : 1 + rest.length < 2 ^ 32)
    (hrest : Plausible threshold first.number rest) :
    ((first :: rest).foldl StreamStatisticianImpl.receive
        { maxReorderingThreshold := threshold }).calculateRtcpStatistics.1.extendedMaxSequenceNumber =
      BitVec.ofInt 32 (trueMaximum first rest - first.number / 2 ^ 16 * 2 ^ 16) := by
  have h := (tracks_first threshold first).run rest hT (Nat.le_refl 1) hlength hrest
  rw [List.foldl_cons]
  simp only [StreamStatisticianImpl.calculateRtcpStatistics, h.seqMax, h.seqWraps, trueMaximum]
  apply BitVec.eq_of_toNat_eq
  rw [BitVec.toNat_add, BitVec.toNat_shiftLeft, BitVec.toNat_setWidth, BitVec.toNat_setWidth,
    BitVec.toNat_ofInt, BitVec.toNat_ofInt, BitVec.toNat_ofInt, Nat.shiftLeft_eq]
  omega

/-- A packet that came at the first millisecond. -/
def arrival (number : Int) : Arrival :=
  ⟨number, { sequenceNumber := BitVec.ofInt 16 number }, 12, false, ⟨1, {}⟩, rfl, by decide⟩

/-- Packets 65535 and 65536, at the default threshold. -/
theorem extendedMaxSequenceNumber_wrap :
    ([arrival 65535, arrival 65536].foldl StreamStatisticianImpl.receive
      {}).calculateRtcpStatistics.1.extendedMaxSequenceNumber = BitVec.ofInt 32 65536 :=
  extendedMaxSequenceNumber_eq 50 (by decide) (arrival 65535) [arrival 65536] (by decide)
    ⟨by decide, by decide, trivial⟩

/-- With a threshold of more than half a turn a plausible packet can be taken for a newer one. -/
theorem extendedMaxSequenceNumber_wideThreshold :
    Plausible 40000 40000 [arrival 5000] ∧ trueMaximum (arrival 40000) [arrival 5000] = 40000 ∧
      ([arrival 40000, arrival 5000].foldl StreamStatisticianImpl.receive
        { maxReorderingThreshold := 40000 }).calculateRtcpStatistics.1.extendedMaxSequenceNumber =
          BitVec.ofInt 32 70536 :=
  ⟨⟨by decide, by decide, trivial⟩, by decide, by decide +kernel⟩

end WebRtc.Rtp.ReceiveStatistics
