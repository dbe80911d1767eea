import WebRtc.Lib.Transition
import WebRtc.Base.SequenceNumber
import WebRtc.Rtp.RtpHeaderParser

/-! `StreamStatisticianImpl` (`receive_statistics_impl.cc`) and what its loss reports depend on. The
bitrate and the callbacks, which no report reads, are left out; a call reads the clock once. -/

namespace WebRtc.Rtp.ReceiveStatistics

open SequenceNumber Rtp.RtpUtility Transition

variable {c : BitVec 16} {s t : StreamStatisticianImpl}

def kDefaultMaxReorderingThreshold : Int := 50

/-- `RtpPacketCounter`. -/
structure RtpPacketCounter where
  headerBytes : BitVec 64 := 0#64
  payloadBytes : BitVec 64 := 0#64
  paddingBytes : BitVec 64 := 0#64
  packets : BitVec 32 := 0#32
  deriving DecidableEq, Repr

/-- `AddPacket(packet_length, header)`. -/
def RtpPacketCounter.addPacket (c : RtpPacketCounter) (packetLength : Nat) (header : RTPHeader) :
    RtpPacketCounter :=
  { headerBytes := c.headerBytes + BitVec.ofNat 64 header.headerLength
    payloadBytes := c.payloadBytes +
      (BitVec.ofNat 64 packetLength - BitVec.ofNat 64 (header.headerLength + header.paddingLength))
    paddingBytes := c.paddingBytes + BitVec.ofNat 64 header.paddingLength
    packets := c.packets + 1#32 }

/-- `StreamDataCounters`. -/
structure StreamDataCounters where
  firstPacketTimeMs : Int := -1
  transmitted : RtpPacketCounter := {}
  retransmitted : RtpPacketCounter := {}
  deriving DecidableEq, Repr

/-- `RtcpStatistics`. -/
structure RtcpStatistics where
  fractionLost : BitVec 8 := 0#8
  cumulativeLost : BitVec 32 := 0#32
  extendedMaxSequenceNumber : BitVec 32 := 0#32
  jitter : BitVec 32 := 0#32
  deriving DecidableEq, Repr

structure NtpTime where
  seconds : BitVec 32 := 0#32
  fractions : BitVec 32 := 0#32
  deriving DecidableEq, Repr

/-- A reading of the clock. -/
structure Clock where
  timeInMilliseconds : Int
  currentNtpTime : NtpTime
  deriving DecidableEq, Repr

/-- `StreamStatisticianImpl` with the values of its constructor. -/
structure StreamStatisticianImpl where
  ssrc : BitVec 32 := 0#32
  maxReorderingThreshold : Int := kDefaultMaxReorderingThreshold
  jitterQ4 : BitVec 32 := 0#32
  cumulativeLoss : BitVec 32 := 0#32
  jitterQ4TransmissionTimeOffset : BitVec 32 := 0#32
  lastReceiveTimeMs : Int := 0
  lastReceiveTimeNtp : NtpTime := {}
  lastReceivedTimestamp : BitVec 32 := 0#32
  lastReceivedTransmissionTimeOffset : BitVec 32 := 0#32
  receivedSeqFirst : BitVec 16 := 0#16
  receivedSeqMax : BitVec 16 := 0#16
  receivedSeqWraps : BitVec 16 := 0#16
  receivedPacketOverhead : BitVec 64 := 12#64
  receiveCounters : StreamDataCounters := {}
  lastReportInorderPackets : BitVec 32 := 0#32
  lastReportOldPackets : BitVec 32 := 0#32
  lastReportSeqMax : BitVec 16 := 0#16
  lastReportedStatistics : RtcpStatistics := {}
  deriving DecidableEq, Repr

/-- `NtpToRtp(ntp, freq)`. -/
def ntpToRtp (ntp : NtpTime) (freq : BitVec 32) : BitVec 32 :=
  ntp.seconds * freq + ((ntp.fractions.setWidth 64 * freq.setWidth 64) >>> 32).setWidth 32

/-- One step of a jitter filter in Q4 by a signed difference in samples. -/
def filterJitter (jitterQ4 timeDiffSamples : BitVec 32) : BitVec 32 :=
  let timeDiff := if timeDiffSamples.slt 0#32 then -timeDiffSamples else timeDiffSamples
  if timeDiff.slt 450000#32 then
    jitterQ4 + ((timeDiff <<< 4 - jitterQ4) + 8#32).sshiftRight 4
  else jitterQ4

namespace StreamStatisticianImpl

/-- `UpdateJitter(header, receive_time)`. -/
def updateJitter (s : StreamStatisticianImpl) (header : RTPHeader) (receiveTime : NtpTime) :
    StreamStatisticianImpl :=
  let frequency := BitVec.ofInt 32 header.payloadTypeFrequency
  let receiveTimeRtp := ntpToRtp receiveTime frequency
  let lastReceiveTimeRtp := ntpToRtp s.lastReceiveTimeNtp frequency
  { s with
    jitterQ4 := filterJitter s.jitterQ4
      ((receiveTimeRtp - lastReceiveTimeRtp) - (header.timestamp - s.lastReceivedTimestamp))
    jitterQ4TransmissionTimeOffset := filterJitter s.jitterQ4TransmissionTimeOffset
      ((receiveTimeRtp - lastReceiveTimeRtp) -
        ((header.timestamp + header.extension.transmissionTimeOffset) -
          (s.lastReceivedTimestamp + s.lastReceivedTransmissionTimeOffset))) }

/-- `InOrderPacketInternal(sequence_number)`. -/
def inOrderPacketInternal (s : StreamStatisticianImpl) (sequenceNumber : BitVec 16) : Bool :=
  if s.lastReceiveTimeMs = 0 then true
  else if isNewerSequenceNumber sequenceNumber s.receivedSeqMax then true
  else
    !isNewerSequenceNumber sequenceNumber
      (s.receivedSeqMax - BitVec.ofInt 16 s.maxReorderingThreshold)

/-- The counters of `UpdateCounters` and the first sequence number. -/
def countPacket (s : StreamStatisticianImpl) (inOrder : Bool) (header : RTPHeader)
    (packetLength : Nat) (retransmitted : Bool) (clock : Clock) : StreamStatisticianImpl :=
  let transmitted := s.receiveCounters.transmitted.addPacket packetLength header
  let first := decide (transmitted.packets = 1#32)
  { s with
    ssrc := header.ssrc
    receiveCounters :=
      { transmitted := transmitted
        retransmitted :=
          if !inOrder && retransmitted then
            s.receiveCounters.retransmitted.addPacket packetLength header
          else s.receiveCounters.retransmitted
        firstPacketTimeMs :=
          if first then clock.timeInMilliseconds else s.receiveCounters.firstPacketTimeMs }
    receivedSeqFirst := if first then header.sequenceNumber else s.receivedSeqFirst }

/-- What `UpdateCounters` does with a packet that is in order. -/
def advance (s : StreamStatisticianImpl) (header : RTPHeader) (clock : Clock) :
    StreamStatisticianImpl :=
  let receiveTime := clock.currentNtpTime
  let counters := s.receiveCounters
  let s :=
    if 1#32 < counters.transmitted.packets ∧ header.sequenceNumber < s.receivedSeqMax then
      { s with receivedSeqWraps := s.receivedSeqWraps + 1#16 }
    else s
  let s := { s with receivedSeqMax := header.sequenceNumber }
  let s :=
    if header.timestamp ≠ s.lastReceivedTimestamp ∧
        1#32 < counters.transmitted.packets - counters.retransmitted.packets then
      s.updateJitter header receiveTime
    else s
  { s with
    lastReceivedTimestamp := header.timestamp
    lastReceiveTimeNtp := receiveTime
    lastReceiveTimeMs := clock.timeInMilliseconds }

/-- `UpdateCounters(header, packet_length, retransmitted)`. -/
def updateCounters (s : StreamStatisticianImpl) (header : RTPHeader) (packetLength : Nat)
    (retransmitted : Bool) (clock : Clock) : StreamStatisticianImpl :=
  let inOrder := s.inOrderPacketInternal header.sequenceNumber
  let s := s.countPacket inOrder header packetLength retransmitted clock
  let s := if inOrder then s.advance header clock else s
  let packetOh := BitVec.ofNat 64 (header.headerLength + header.paddingLength)
  { s with receivedPacketOverhead := (15#64 * s.receivedPacketOverhead + packetOh) >>> 4 }

/-! ## Reports -/

/-- `last_report_seq_max_` as `CalculateRtcpStatistics` uses it: one before the first packet, in
the first report. -/
def reportBase (s : StreamStatisticianImpl) : BitVec 16 :=
  if s.lastReportInorderPackets = 0#32 then s.receivedSeqFirst - 1#16 else s.lastReportSeqMax

/-- `exp_since_last`. -/
def expSinceLast (s : StreamStatisticianImpl) : BitVec 16 :=
  if s.receivedSeqMax < s.reportBase then 0#16 else s.receivedSeqMax - s.reportBase

/-- `transmitted.packets - retransmitted.packets`. -/
def inorderPackets (s : StreamStatisticianImpl) : BitVec 32 :=
  s.receiveCounters.transmitted.packets - s.receiveCounters.retransmitted.packets

/-- `rec_since_last`, with the retransmitted packets. -/
def recSinceLast (s : StreamStatisticianImpl) : BitVec 32 :=
  s.inorderPackets - s.lastReportInorderPackets +
    (s.receiveCounters.retransmitted.packets - s.lastReportOldPackets)

/-- `missing` for these numbers of expected and received packets. -/
def missing (expSinceLast : BitVec 16) (recSinceLast : BitVec 32) : Nat :=
  if expSinceLast.setWidth 32 > recSinceLast then expSinceLast.toNat - recSinceLast.toNat else 0

/-- `local_fraction_lost`. -/
def fractionLost (expSinceLast : BitVec 16) (missing : Nat) : BitVec 8 :=
  if expSinceLast ≠ 0#16 then BitVec.ofNat 8 (255 * missing / expSinceLast.toNat) else 0#8

/-- `CalculateRtcpStatistics()`. -/
def calculateRtcpStatistics (s : StreamStatisticianImpl) :
    RtcpStatistics × StreamStatisticianImpl :=
  let missing := missing s.expSinceLast s.recSinceLast
  let cumulativeLoss := s.cumulativeLoss + BitVec.ofNat 32 missing
  let stats : RtcpStatistics :=
    { fractionLost := fractionLost s.expSinceLast missing
      cumulativeLost := cumulativeLoss
      extendedMaxSequenceNumber :=
        s.receivedSeqWraps.setWidth 32 <<< 16 + s.receivedSeqMax.setWidth 32
      jitter := s.jitterQ4 >>> 4 }
  (stats, { s with
      cumulativeLoss := cumulativeLoss
      lastReportedStatistics := stats
      lastReportInorderPackets := s.inorderPackets
      lastReportOldPackets := s.receiveCounters.retransmitted.packets
      lastReportSeqMax := s.receivedSeqMax })

/-- The first test of `GetStatistics`: nothing was received. -/
def silent (s : StreamStatisticianImpl) : Prop :=
  s.receivedSeqFirst = 0#16 ∧ s.receiveCounters.transmitted.payloadBytes = 0#64

instance (s : StreamStatisticianImpl) : Decidable s.silent := inferInstanceAs (Decidable (_ ∧ _))

/-- `GetStatistics(statistics, reset)`: the statistics, if it returns true. -/
def getStatistics (s : StreamStatisticianImpl) (reset : Bool) :
    Option RtcpStatistics × StreamStatisticianImpl :=
  if s.silent then (none, s)
  else if !reset then
    if s.lastReportInorderPackets = 0#32 then (none, s) else (some s.lastReportedStatistics, s)
  else
    let (stats, s) := s.calculateRtcpStatistics
    (some stats, s)

end StreamStatisticianImpl

open StreamStatisticianImpl

/-! ## Runs -/

/-- A call on a statistician. -/
inductive Call
  | incomingPacket (header : RTPHeader) (packetLength : Nat) (retransmitted : Bool) (clock : Clock)
  | getStatistics (reset : Bool)

/-- The reported loss: `fraction_lost` and `cumulative_lost`. -/
def RtcpStatistics.loss (stats : RtcpStatistics) : BitVec 8 × BitVec 32 :=
  (stats.fractionLost, stats.cumulativeLost)

/-- One call, with the loss it reports. -/
def StreamStatisticianImpl.call (s : StreamStatisticianImpl) :
    Call → StreamStatisticianImpl × Option (BitVec 8 × BitVec 32)
  | .incomingPacket header packetLength retransmitted clock =>
      (s.updateCounters header packetLength retransmitted clock, none)
  | .getStatistics reset => ((s.getStatistics reset).2, (s.getStatistics reset).1.map (·.loss))

/-- The statistician after these calls, and the losses they report. -/
def after (calls : List Call) : StreamStatisticianImpl :=
  final StreamStatisticianImpl.call {} calls
def lossReports (calls : List Call) : List (Option (BitVec 8 × BitVec 32)) :=
  outputs StreamStatisticianImpl.call {} calls

def Call.isPacket : Call → Bool
  | .incomingPacket _ _ _ _ => true
  | .getStatistics _ => false

/-- The same call with `c` added to the sequence number. -/
def Call.shift (c : BitVec 16) : Call → Call
  | .incomingPacket header packetLength retransmitted clock =>
      .incomingPacket { header with sequenceNumber := header.sequenceNumber + c } packetLength
        retransmitted clock
  | .getStatistics reset => .getStatistics reset

/-! ## What a shift of the sequence numbers changes -/

/-- What two runs that differ in the sequence numbers have in common before a packet arrives. The
last report's maximum counts only once there was a report. -/
structure Counted (c : BitVec 16) (s t : StreamStatisticianImpl) : Prop where
  threshold : s.maxReorderingThreshold = kDefaultMaxReorderingThreshold
  threshold' : t.maxReorderingThreshold = kDefaultMaxReorderingThreshold
  counters : t.receiveCounters = s.receiveCounters
  cumulative : t.cumulativeLoss = s.cumulativeLoss
  inorder : t.lastReportInorderPackets = s.lastReportInorderPackets
  old : t.lastReportOldPackets = s.lastReportOldPackets
  base : s.lastReportInorderPackets ≠ 0#32 → t.lastReportSeqMax = s.lastReportSeqMax + c
  reported : t.lastReportedStatistics.loss = s.lastReportedStatistics.loss

/-- The statistician of the run whose sequence numbers are larger by `c`. -/
structure Shifted (c : BitVec 16) (s t : StreamStatisticianImpl) : Prop extends Counted c s t where
  time : t.lastReceiveTimeMs = s.lastReceiveTimeMs
  seqFirst : t.receivedSeqFirst = s.receivedSeqFirst + c
  seqMax : t.receivedSeqMax = s.receivedSeqMax + c

/-- At the default threshold the test reads only the distance: a number 2^15 away, which the first
comparison may call older, is far enough behind to be a restart. -/
theorem inOrder_iff (s : StreamStatisticianImpl) (n : BitVec 16)
    (h : s.maxReorderingThreshold = kDefaultMaxReorderingThreshold) :
    s.inOrderPacketInternal n ↔ s.lastReceiveTimeMs = 0 ∨
        (0 < (n - s.receivedSeqMax).toNat ∧ (n - s.receivedSeqMax).toNat ≤ 65536 - 50) := by
  have h50 : BitVec.ofInt 16 kDefaultMaxReorderingThreshold = 50#16 := by decide
  have hnew := isNewer_iff n s.receivedSeqMax
  have hold := isNewer_iff n (s.receivedSeqMax - 50#16)
  rw [inOrderPacketInternal, h, h50]
  by_cases htime : s.lastReceiveTimeMs = 0
  · simp [htime]
  cases h1 : isNewerSequenceNumber n s.receivedSeqMax <;>
    cases h2 : isNewerSequenceNumber n (s.receivedSeqMax - 50#16) <;>
    simp only [h1, h2, htime, Bool.false_eq_true, false_iff, true_iff, if_true, if_false,
      Bool.not_true, Bool.not_false, false_or] at hnew hold ⊢ <;> bv_omega

theorem Shifted.inOrder (h : Shifted c s t) (n : BitVec 16) :
    t.inOrderPacketInternal (n + c) = s.inOrderPacketInternal n := by
  rw [Bool.eq_iff_iff, inOrder_iff t _ h.threshold', inOrder_iff s _ h.threshold, h.time, h.seqMax,
    show n + c - (s.receivedSeqMax + c) = n - s.receivedSeqMax by bv_omega]

/-- What a packet in order changes; the jitter is what it comes to. -/
theorem advance_eq (s : StreamStatisticianImpl) (header : RTPHeader) (clock : Clock) :
    s.advance header clock = { s with
      receivedSeqWraps :=
        if 1#32 < s.receiveCounters.transmitted.packets ∧ header.sequenceNumber < s.receivedSeqMax
        then s.receivedSeqWraps + 1#16 else s.receivedSeqWraps
      receivedSeqMax := header.sequenceNumber
      jitterQ4 := (s.advance header clock).jitterQ4
      jitterQ4TransmissionTimeOffset := (s.advance header clock).jitterQ4TransmissionTimeOffset
      lastReceivedTimestamp := header.timestamp
      lastReceiveTimeNtp := clock.currentNtpTime
      lastReceiveTimeMs := clock.timeInMilliseconds } := by
  simp only [advance]
  split_ifs <;> rfl

theorem counted_create (c : BitVec 16) : Counted c {} {} :=
  ⟨rfl, rfl, rfl, rfl, rfl, rfl, fun h => absurd rfl h, rfl⟩

/-- A packet in order, in both runs. -/
theorem Counted.advance (h : Counted c s t) (hfirst : t.receivedSeqFirst = s.receivedSeqFirst + c)
    (header : RTPHeader) (clock : Clock) : Shifted c (s.advance header clock)
      (t.advance { header with sequenceNumber := header.sequenceNumber + c } clock) := by
  rw [advance_eq s, advance_eq t]
  exact ⟨⟨h.threshold, h.threshold', h.counters, h.cumulative, h.inorder, h.old, h.base,
    h.reported⟩, rfl, hfirst, rfl⟩

/-- The counters do not read the sequence number. -/
theorem Counted.countPacket (h : Counted c s t) (inOrder : Bool) (header : RTPHeader)
    (packetLength : Nat) (retransmitted : Bool) (clock : Clock) :
    Counted c (s.countPacket inOrder header packetLength retransmitted clock)
      (t.countPacket inOrder { header with sequenceNumber := header.sequenceNumber + c }
        packetLength retransmitted clock) := by
  refine ⟨h.threshold, h.threshold', ?_, h.cumulative, h.inorder, h.old, h.base, h.reported⟩
  simp only [StreamStatisticianImpl.countPacket, h.counters]
  rfl

theorem receivedSeqFirst_countPacket (h : Counted c s t)
    (hfirst : t.receivedSeqFirst = s.receivedSeqFirst + c ∨
      s.receiveCounters.transmitted.packets = 0#32) (inOrder : Bool) (header : RTPHeader)
    (packetLength : Nat) (retransmitted : Bool) (clock : Clock) :
    (t.countPacket inOrder { header with sequenceNumber := header.sequenceNumber + c }
        packetLength retransmitted clock).receivedSeqFirst =
      (s.countPacket inOrder header packetLength retransmitted clock).receivedSeqFirst + c := by
  simp only [countPacket, RtpPacketCounter.addPacket, h.counters]
  by_cases h1 : s.receiveCounters.transmitted.packets + 1#32 = 1#32
  · simp [h1]
  · simpa [h1] using hfirst.resolve_right fun h0 => h1 (by rw [h0]; rfl)

/-- The packet overhead counts for no report. -/
theorem Shifted.withOverhead (h : Shifted c s t) (x y : BitVec 64) :
    Shifted c { s with receivedPacketOverhead := x } { t with receivedPacketOverhead := y } :=
  ⟨⟨h.threshold, h.threshold', h.counters, h.cumulative, h.inorder, h.old, h.base, h.reported⟩,
    h.time, h.seqFirst, h.seqMax⟩

/-- A packet that is in order in both runs or in none. -/
theorem Shifted.updateCounters (h : Counted c s t)
    (hfirst : t.receivedSeqFirst = s.receivedSeqFirst + c ∨
      s.receiveCounters.transmitted.packets = 0#32) (header : RTPHeader)
    (hinOrder : t.inOrderPacketInternal (header.sequenceNumber + c) =
      s.inOrderPacketInternal header.sequenceNumber)
    (hold : s.inOrderPacketInternal header.sequenceNumber = false → Shifted c s t)
    (packetLength : Nat) (retransmitted : Bool) (clock : Clock) :
    Shifted c (s.updateCounters header packetLength retransmitted clock)
      (t.updateCounters { header with sequenceNumber := header.sequenceNumber + c } packetLength
        retransmitted clock) := by
  have hnew := receivedSeqFirst_countPacket h hfirst (s.inOrderPacketInternal header.sequenceNumber)
    header packetLength retransmitted clock
  have hcounted := h.countPacket (s.inOrderPacketInternal header.sequenceNumber) header packetLength
    retransmitted clock
  simp only [StreamStatisticianImpl.updateCounters, hinOrder]
  cases hin : s.inOrderPacketInternal header.sequenceNumber with
  | true =>
    rw [hin] at hnew hcounted
    exact (hcounted.advance hnew header clock).withOverhead _ _
  | false =>
    rw [hin] at hnew hcounted
    exact Shifted.withOverhead ⟨hcounted, (hold hin).time, hnew, (hold hin).seqMax⟩ _ _

/-! ## Reports of the two runs -/

/-- A shift by `c` does not change what a report says about the loss since the last one: the
interval wraps in both numberings or in none, or no packet of it is missing. -/
def SameInterval (c : BitVec 16) (s : StreamStatisticianImpl) : Prop :=
  (s.reportBase ≤ s.receivedSeqMax ↔ s.reportBase + c ≤ s.receivedSeqMax + c) ∨
    (s.receivedSeqMax - s.reportBase).toNat ≤ s.recSinceLast.toNat

/-- A shift by `c` does not change whether a stream without payload counts as received. -/
def SameHearing (c : BitVec 16) (s : StreamStatisticianImpl) : Prop :=
  s.receiveCounters.transmitted.payloadBytes = 0#64 →
    (s.receivedSeqFirst = 0#16 ↔ s.receivedSeqFirst + c = 0#16)

/-- What `GetStatistics(reset)` says about the loss in this state is the same after a shift. -/
def SameLoss (c : BitVec 16) (s : StreamStatisticianImpl) : Bool → Prop
  | true => SameHearing c s ∧ SameInterval c s
  | false => s.lastReportInorderPackets = 0#32 ∨ SameHearing c s

theorem Shifted.reportBase (h : Shifted c s t) : t.reportBase = s.reportBase + c := by
  unfold StreamStatisticianImpl.reportBase
  rw [h.inorder, h.seqFirst]
  split_ifs with h0
  · bv_omega
  · exact h.base h0

theorem Shifted.recSinceLast (h : Shifted c s t) : t.recSinceLast = s.recSinceLast := by
  simp only [StreamStatisticianImpl.recSinceLast, StreamStatisticianImpl.inorderPackets,
    h.counters, h.inorder, h.old]

variable (e : BitVec 16)

theorem missing_lt (r : BitVec 32) :
    missing e r < 65536 := by
  unfold missing
  split_ifs <;> omega

theorem missing_eq_zero_iff (r : BitVec 32) :
    missing e r = 0 ↔ e.toNat ≤ r.toNat := by
  have hw : (e.setWidth 32).toNat = e.toNat := by
    rw [BitVec.toNat_setWidth]
    exact Nat.mod_eq_of_lt (by omega)
  unfold missing
  split_ifs with h <;> rw [gt_iff_lt, BitVec.lt_def, hw] at h <;> omega

theorem fractionLost_zero : fractionLost e 0 = 0#8 := by
  unfold fractionLost
  split_ifs <;> simp

/-- The loss a report states: that of the expected and the received packets. -/
def lossOf (cumulative : BitVec 32) (e : BitVec 16) (r : BitVec 32) : BitVec 8 × BitVec 32 :=
  (StreamStatisticianImpl.fractionLost e (StreamStatisticianImpl.missing e r),
    cumulative + BitVec.ofNat 32 (StreamStatisticianImpl.missing e r))

/-- An interval that counts as empty loses nothing. -/
theorem lossOf_zero_iff (cumulative : BitVec 32) (e : BitVec 16) (r : BitVec 32) :
    lossOf cumulative 0#16 r = lossOf cumulative e r ↔ e.toNat ≤ r.toNat := by
  have h0 : missing 0#16 r = 0 :=
    (missing_eq_zero_iff _ _).mpr (Nat.zero_le _)
  have hlt := missing_lt e r
  rw [← missing_eq_zero_iff, lossOf, lossOf, h0, fractionLost_zero, Prod.mk.injEq]
  constructor
  · rintro ⟨_, hcum⟩
    have hnat : (BitVec.ofNat 32 (missing e r)) = 0#32 := by bv_omega
    have := congrArg BitVec.toNat hnat
    rw [BitVec.toNat_ofNat, Nat.mod_eq_of_lt (by omega)] at this
    exact this
  intro hz
  rw [hz, fractionLost_zero]
  exact ⟨rfl, rfl⟩

/-- The two reports agree exactly if the interval is the same. -/
theorem Shifted.loss_iff (h : Shifted c s t) :
    t.calculateRtcpStatistics.1.loss = s.calculateRtcpStatistics.1.loss ↔ SameInterval c s := by
  have hs : s.calculateRtcpStatistics.1.loss =
    lossOf s.cumulativeLoss s.expSinceLast s.recSinceLast := rfl
  have ht : t.calculateRtcpStatistics.1.loss =
    lossOf t.cumulativeLoss t.expSinceLast t.recSinceLast := rfl
  have hdiff : s.receivedSeqMax + c - (s.reportBase + c) = s.receivedSeqMax - s.reportBase := by
    bv_omega
  rw [hs, ht, h.cumulative, h.recSinceLast, SameInterval]
  unfold expSinceLast
  rw [h.reportBase, h.seqMax, hdiff, ← BitVec.not_lt, ← BitVec.not_lt]
  by_cases h1 : s.receivedSeqMax < s.reportBase <;>
    by_cases h2 : s.receivedSeqMax + c < s.reportBase + c
  · simp [h1, h2]
  · rw [if_pos h1, if_neg h2, eq_comm, lossOf_zero_iff]
    simp [h1, h2]
  · rw [if_neg h1, if_pos h2, lossOf_zero_iff]
    simp [h1, h2]
  · simp [h1, h2]

theorem Shifted.silent_iff (h : Shifted c s t) : SameHearing c s ↔ (t.silent ↔ s.silent) := by
  rw [SameHearing, silent, silent, h.seqFirst,
    h.counters]
  constructor
  · intro hsame
    constructor <;> rintro ⟨hfirst, hpayload⟩
    · exact ⟨(hsame hpayload).mpr hfirst, hpayload⟩
    · exact ⟨(hsame hpayload).mp hfirst, hpayload⟩
  intro hiff hpayload
  exact ⟨fun hfirst => (hiff.mpr ⟨hfirst, hpayload⟩).1,
    fun hfirst => (hiff.mp ⟨hfirst, hpayload⟩).1⟩

/-- A stream that is silent in both runs is not shifted at all. -/
theorem Shifted.sameInterval_of_silent (h : Shifted c s t) (hs : s.silent) (ht : t.silent) :
    SameInterval c s := by
  have hc : c = 0#16 := by
    have hfirst := h.seqFirst
    rw [ht.1, hs.1] at hfirst
    bv_omega
  subst hc
  simp [SameInterval]

/-- What one `GetStatistics` call reports in the two runs. -/
theorem Shifted.getStatistics_iff (h : Shifted c s t) (reset : Bool) :
    (t.getStatistics reset).1.map (·.loss) = (s.getStatistics reset).1.map (·.loss) ↔
      SameLoss c s reset := by
  cases reset with
  | true =>
    rw [SameLoss, h.silent_iff]
    simp only [getStatistics]
    by_cases hs : s.silent <;> by_cases ht : t.silent
    · simp [hs, ht, h.sameInterval_of_silent hs ht]
    · simp [hs, ht]
    · simp [hs, ht]
    · simp [hs, ht, h.loss_iff]
  | false =>
    rw [SameLoss, h.silent_iff]
    simp only [getStatistics, h.inorder]
    by_cases hs : s.silent <;> by_cases ht : t.silent <;>
      by_cases h0 : s.lastReportInorderPackets = 0#32 <;>
      simp [hs, ht, h0, h.reported]

/-- A repeated report changes nothing; a new one is stored unless the stream is silent. -/
theorem getStatistics_false_snd (s : StreamStatisticianImpl) : (s.getStatistics false).2 = s := by
  simp only [getStatistics, Bool.not_false, if_true]
  split_ifs <;> rfl

theorem getStatistics_true_snd (s : StreamStatisticianImpl) :
    (s.getStatistics true).2 = if s.silent then s else s.calculateRtcpStatistics.2 := by
  simp only [getStatistics, Bool.not_true, Bool.false_eq_true, if_false]
  split_ifs <;> rfl

/-- The next state of the two runs, as long as the reports agree. -/
theorem Shifted.getStatistics (h : Shifted c s t) (reset : Bool) (hsame : SameLoss c s reset) :
    Shifted c (s.getStatistics reset).2 (t.getStatistics reset).2 := by
  cases reset with
  | false =>
    rw [getStatistics_false_snd, getStatistics_false_snd]
    exact h
  | true =>
    obtain ⟨hhear, hinterval⟩ := hsame
    have hiff := h.silent_iff.mp hhear
    have hloss := h.loss_iff.mpr hinterval
    have hinorder : t.inorderPackets = s.inorderPackets := by
      simp only [inorderPackets, h.counters]
    rw [getStatistics_true_snd, getStatistics_true_snd]
    by_cases hs : s.silent
    · rw [if_pos hs, if_pos (hiff.mpr hs)]
      exact h
    rw [if_neg hs, if_neg (mt hiff.mp hs)]
    exact ⟨⟨h.threshold, h.threshold', h.counters, (Prod.mk.inj hloss).2, hinorder,
      congrArg (·.retransmitted.packets) h.counters, fun _ => h.seqMax, hloss⟩,
      h.time, h.seqFirst, h.seqMax⟩

/-! ## Whole runs -/

/-- A statistician and whether a packet has come in. -/
def observe (x : StreamStatisticianImpl × Bool) (call : Call) :
    (StreamStatisticianImpl × Bool) × Option (BitVec 8 × BitVec 32) :=
  (((x.1.call call).1, x.2 || call.isPacket), (x.1.call call).2)

theorem outputs_observe (calls : List Call) (s : StreamStatisticianImpl) (received : Bool) :
    outputs observe (s, received) calls = outputs call s calls := by
  induction calls generalizing s received with
  | nil => rfl
  | cons _ calls ih => simp [outputs, observe, ih]

theorem final_observe (calls : List Call) (s : StreamStatisticianImpl) (received : Bool) :
    final observe (s, received) calls =
      (final call s calls, received || calls.any (·.isPacket)) := by
  induction calls generalizing s received with
  | nil => simp [final]
  | cons _ calls ih =>
    simp only [final, List.foldl_cons, List.any_cons] at ih ⊢
    rw [observe, ih, Bool.or_assoc]

/-- The two runs side by side: alike before the first packet, shifted after it. -/
def Paired (c : BitVec 16) (x : StreamStatisticianImpl × Bool) (t : StreamStatisticianImpl) :
    Prop :=
  if x.2 then Shifted c x.1 t else x.1 = {} ∧ t = {}

/-- A call whose report the shift leaves alone. -/
def Unaffected (c : BitVec 16) (x : StreamStatisticianImpl × Bool) : Call → Prop
  | .incomingPacket _ _ _ _ => True
  | .getStatistics reset => x.2 = true → SameLoss c x.1 reset

theorem paired_output (x : StreamStatisticianImpl × Bool) (t : StreamStatisticianImpl) (call : Call)
    (h : Paired c x t) : (t.call (call.shift c)).2 = (observe x call).2 ↔ Unaffected c x call := by
  obtain ⟨s, received⟩ := x
  cases call with
  | incomingPacket header _ _ _ =>
    exact ⟨fun _ => trivial, fun _ => rfl⟩
  | getStatistics reset =>
    cases received with
    | true =>
      simp only [Unaffected, true_implies]
      exact h.getStatistics_iff reset
    | false =>
      obtain ⟨rfl, rfl⟩ := h
      simp [Unaffected, observe, Call.shift]

theorem paired_next (x : StreamStatisticianImpl × Bool) (t : StreamStatisticianImpl) (call : Call)
    (h : Paired c x t) (hok : Unaffected c x call) :
    Paired c (observe x call).1 (t.call (call.shift c)).1 := by
  obtain ⟨s, received⟩ := x
  cases call with
  | incomingPacket header packetLength retransmitted clock =>
    cases received with
    | true =>
      exact Shifted.updateCounters h.toCounted (.inl h.seqFirst) header
        (h.inOrder header.sequenceNumber) (fun _ => h) packetLength retransmitted clock
    | false =>
      obtain ⟨rfl, rfl⟩ := h
      exact Shifted.updateCounters (counted_create c) (.inr rfl) header rfl
        (fun hold => Bool.noConfusion hold) packetLength retransmitted clock
  | getStatistics reset =>
    cases received with
    | true =>
      simp only [Unaffected, true_implies] at hok
      exact h.getStatistics reset hok
    | false =>
      obtain ⟨rfl, rfl⟩ := h
      cases reset <;> exact ⟨rfl, rfl⟩

/-- **Loss reports and the start of the sequence numbers.** Adding `c` to every sequence number
leaves all reported losses as they are exactly if no report made after the first packet sees an
interval with missing packets that wraps in one of the numberings only, nor a stream without
payload that starts at 0 in one of them only. -/
theorem lossReports_shift_iff (c : BitVec 16) (calls : List Call) :
    lossReports (calls.map (Call.shift c)) = lossReports calls ↔
      ∀ before reset rest, calls = before ++ .getStatistics reset :: rest →
        (∃ call ∈ before, call.isPacket = true) → SameLoss c (after before) reset := by
  have hruns := outputs_eq_iff (Paired c) (Unaffected c) paired_output paired_next calls
    ({}, false) {} ⟨rfl, rfl⟩
  rw [outputs_observe] at hruns
  rw [lossReports, lossReports, hruns]
  constructor
  · intro hall before reset rest heq hpacket
    have hok := hall before (.getStatistics reset) rest heq
    rw [final_observe] at hok
    exact hok (by simpa using hpacket)
  intro hall before call rest heq
  cases call with
  | incomingPacket header _ _ _ => trivial
  | getStatistics reset =>
    intro hpacket
    rw [final_observe] at hpacket ⊢
    exact hall before reset rest heq (by simpa using hpacket)

/-- A packet with this sequence number and a byte of payload. -/
def packetNumbered (n : BitVec 16) : Call :=
  .incomingPacket { sequenceNumber := n, headerLength := 12 } 13 false
    { timeInMilliseconds := 1, currentNtpTime := {} }

/-- Packets 10 and 13: two of four are lost. As packets 65535 and 2 they are not. -/
theorem lossReports_wrapped :
    lossReports [packetNumbered 10#16, packetNumbered 13#16, .getStatistics true] =
        [none, none, some (127#8, 2#32)] ∧
      lossReports ([packetNumbered 10#16, packetNumbered 13#16, .getStatistics true].map
        (Call.shift 65525#16)) = [none, none, some (0#8, 0#32)] := by
  decide +kernel

end WebRtc.Rtp.ReceiveStatistics
