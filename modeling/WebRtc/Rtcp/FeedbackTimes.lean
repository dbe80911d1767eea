import WebRtc.Rtcp.FeedbackReports

/-! The times a `TransportFeedback` reports. Each delta is taken against the time already
reported, so the rounding errors do not add up: along every run the reconstructed time of an
accepted packet is within half a tick of its own, modulo the wrap period. A packet is refused for
its time although a delta would do in two cases: the wrap correction is missing for differences
below minus half a period, and the ticks of a time halfway between two are rounded away from
zero. -/

namespace WebRtc.Rtcp.TransportFeedback

variable {fb : TransportFeedback}

/-! ## One difference -/

/-- The difference `AddReceivedPacket` rounds, after the wrap correction. -/
def corrected (difference : Int) : Int :=
  let wrapped := Int.tmod difference kTimeWrapPeriodUs
  if wrapped > kTimeWrapPeriodUs / 2 then wrapped - kTimeWrapPeriodUs else wrapped

theorem corrected_spec (difference : Int) :
    -kTimeWrapPeriodUs < corrected difference ∧ corrected difference ≤ kTimeWrapPeriodUs / 2 ∧
      ∃ periods : Int, corrected difference = difference + periods * kTimeWrapPeriodUs := by
  have hP : 0 < kTimeWrapPeriodUs := by decide
  have hlow := Int.lt_tmod_of_pos difference hP
  have hhigh := Int.tmod_lt_of_pos difference hP
  have heq := Int.tmod_add_mul_tdiv difference kTimeWrapPeriodUs
  generalize difference.tdiv kTimeWrapPeriodUs = q at heq
  unfold corrected
  dsimp only
  have hk : kTimeWrapPeriodUs = 1073741824000 := rfl
  rw [hk] at hlow hhigh heq ⊢
  split
  · exact ⟨by omega, by omega, -q - 1, by omega⟩
  · exact ⟨by omega, by omega, -q, by omega⟩

/-- The rounding of `AddReceivedPacket`: halves go away from zero. -/
theorem deltaFull_spec (timestampUs last : Int) : let x := corrected (timestampUs - last)
    let full := deltaFull timestampUs last
    (0 ≤ x → 250 * full - 125 ≤ x ∧ x < 250 * full + 125) ∧
      (x < 0 → 250 * full - 125 < x ∧ x ≤ 250 * full + 125) := by
  have heq : deltaFull timestampUs last = Int.tdiv (corrected (timestampUs - last) +
      if corrected (timestampUs - last) < 0 then -125 else 125) 250 := rfl
  rw [heq]
  generalize corrected (timestampUs - last) = x
  constructor
  · intro hx
    rw [if_neg (by omega), Int.tdiv_eq_ediv_of_nonneg (by omega)]
    omega
  intro hx
  rw [if_pos hx, ← Int.neg_neg (x + -125), Int.neg_tdiv, Int.tdiv_eq_ediv_of_nonneg (by omega)]
  omega

/-- The narrowing cast to `int16_t` keeps exactly the values in its range. -/
theorem toInt_ofInt_eq_iff (full : Int) :
    (BitVec.ofInt 16 full).toInt = full ↔ -32768 ≤ full ∧ full ≤ 32767 := by
  rw [BitVec.toInt_ofInt, Int.bmod]
  omega

/-- Two times agree to half a tick, modulo the wrap period. -/
def Near (a b : Int) : Prop :=
  ∃ periods : Int, (a - b + periods * kTimeWrapPeriodUs).natAbs ≤ 125

/-- The differences refused although a delta is near enough. -/
def Missed (difference : Int) : Prop :=
  corrected difference = 8191875 ∨ corrected difference = -8192125 ∨
    corrected difference ≤ 8191875 - kTimeWrapPeriodUs

instance : DecidablePred Missed := fun _ => inferInstanceAs (Decidable (_ ∨ _ ∨ _))

/-- A delta that fits gives a time near enough. -/
theorem near_deltaFull (timestampUs last : Int) :
    Near (last + deltaFull timestampUs last * kDeltaScaleFactor) timestampUs := by
  obtain ⟨_, _, periods, hperiods⟩ := corrected_spec (timestampUs - last)
  have hspec := deltaFull_spec timestampUs last
  have hk : kDeltaScaleFactor = 250 := rfl
  rw [hk]
  refine ⟨-periods, ?_⟩
  rw [Int.neg_mul]
  omega

/-- A time refused has no delta near enough, exactly if it is not one of those missed. -/
theorem refused_iff (timestampUs last : Int) :
    ((BitVec.ofInt 16 (deltaFull timestampUs last)).toInt ≠ deltaFull timestampUs last →
        ∀ delta : BitVec 16, ¬ Near (last + delta.toInt * kDeltaScaleFactor) timestampUs) ↔
      ¬ Missed (timestampUs - last) := by
  obtain ⟨hlow, hhigh, periods, hperiods⟩ := corrected_spec (timestampUs - last)
  have hspec := deltaFull_spec timestampUs last
  unfold Missed
  rw [ne_eq, toInt_ofInt_eq_iff]
  have hk : kDeltaScaleFactor = 250 := rfl
  have hP : kTimeWrapPeriodUs = 1073741824000 := rfl
  rw [hP] at hlow hhigh hperiods ⊢
  constructor
  · intro hnone hmissed
    have hout : ¬ (-32768 ≤ deltaFull timestampUs last ∧ deltaFull timestampUs last ≤ 32767) := by
      omega
    obtain ⟨d, hd, shift, hshift⟩ : ∃ d : Int, (-32768 ≤ d ∧ d ≤ 32767) ∧ ∃ shift : Int,
        (d * 250 - corrected (timestampUs - last) + shift * 1073741824000).natAbs ≤ 125 := by
      rcases hmissed with hx | hx | hx
      · exact ⟨32767, by omega, 0, by omega⟩
      · exact ⟨-32768, by omega, 0, by omega⟩
      · exact ⟨(corrected (timestampUs - last) + 1073741824000 + 124) / 250, by omega, -1, by omega⟩
    refine hnone hout (BitVec.ofInt 16 d) ⟨shift - periods, ?_⟩
    rw [(toInt_ofInt_eq_iff d).mpr hd, hk, hP]
    omega
  · intro hmissed hout delta ⟨shift, hshift⟩
    rw [hk, hP] at hshift
    have hd := BitVec.toInt_lt (x := delta)
    have hd' := BitVec.le_toInt delta
    omega

/-! ## Runs -/

/-- The time the receiver of the feedback computes for the last packet. -/
def reconstructedUs (fb : TransportFeedback) : Int :=
  fb.getBaseTimeUs + (fb.packets.map ReceivedPacket.deltaUs).sum

/-- The state after a call of `AddReceivedPacket`. -/
def receive (fb : TransportFeedback) (call : BitVec 16 × Int) : TransportFeedback :=
  (fb.addReceivedPacket call.1 call.2).2

theorem receive_cases (fb : TransportFeedback) (call : BitVec 16 × Int) :
    (fb.addReceivedPacket call.1 call.2).1 = false ∧ Keeps fb (fb.receive call) ∨
      (fb.addReceivedPacket call.1 call.2).1 ∧
        (fb.tickDelta call.2).toInt = deltaFull call.2 fb.lastTimestampUs ∧
        Appends fb (fb.receive call) call.1 (fb.tickDelta call.2) :=
  addReceivedPacket_cases rfl

theorem Appends.reconstructedUs {fb' : TransportFeedback} {sequenceNumber delta : BitVec 16}
    (h : Appends fb fb' sequenceNumber delta) :
    fb'.reconstructedUs = fb.reconstructedUs + delta.toInt * kDeltaScaleFactor := by
  simp [TransportFeedback.reconstructedUs, getBaseTimeUs, h.packets, h.base, ReceivedPacket.deltaUs,
    Int.add_assoc]

variable (h : fb.lastTimestampUs = fb.reconstructedUs)
include h

/-- The last time kept is the one reconstructed. -/
theorem reconstructedUs_receive (call : BitVec 16 × Int) :
    (fb.receive call).lastTimestampUs = (fb.receive call).reconstructedUs := by
  rcases fb.receive_cases call with ⟨_, hkeeps⟩ | ⟨_, _, happends⟩
  · rw [hkeeps.last, h]
    simp [reconstructedUs, getBaseTimeUs, hkeeps.packets, hkeeps.base]
  · rw [happends.last, happends.reconstructedUs, h]

theorem reconstructedUs_run (calls : List (BitVec 16 × Int)) :
    (calls.foldl receive fb).lastTimestampUs = (calls.foldl receive fb).reconstructedUs := by
  induction calls generalizing fb with
  | nil => exact h
  | cons call calls ih => exact ih (reconstructedUs_receive h call)

omit h in
/-- What is required of a call: an accepted packet is reported with a delta that reconstructs its
time, and a packet is refused for its time only if no delta does. -/
def TimeExact (fb : TransportFeedback) (call : BitVec 16 × Int) : Prop :=
  ((fb.addReceivedPacket call.1 call.2).1 = true →
      (∃ delta, (fb.receive call).packets = fb.packets ++ [⟨call.1, delta⟩]) ∧
        Near (fb.receive call).reconstructedUs call.2) ∧
    ((fb.tickDelta call.2).toInt ≠ deltaFull call.2 fb.lastTimestampUs →
      ∀ delta : BitVec 16, ¬ Near (fb.reconstructedUs + delta.toInt * kDeltaScaleFactor) call.2)

theorem timeExact_iff (call : BitVec 16 × Int) :
    TimeExact fb call ↔ ¬ Missed (call.2 - fb.lastTimestampUs) := by
  rw [← refused_iff]
  unfold TimeExact
  rw [← h]
  refine and_iff_right fun hadded => ?_
  rcases fb.receive_cases call with ⟨hrefused, _⟩ | ⟨_, hfits, happends⟩
  · rw [hrefused] at hadded
    cases hadded
  refine ⟨⟨_, happends.packets⟩, ?_⟩
  have heq : (fb.receive call).reconstructedUs =
      fb.lastTimestampUs + deltaFull call.2 fb.lastTimestampUs * kDeltaScaleFactor := by
    rw [happends.reconstructedUs, ← h, hfits]
  rw [heq]
  exact near_deltaFull call.2 fb.lastTimestampUs

omit h

/-- After `SetBase`, every call of a run is exact in its time if and only if no call has a time
that is missed. -/
theorem timeExact_run_iff (h : fb.packets = []) (baseSequence : BitVec 16) (refTimestampUs : Int)
    (calls : List (BitVec 16 × Int)) : (∀ before call after, calls = before ++ call :: after →
        TimeExact (before.foldl receive (fb.setBase baseSequence refTimestampUs)) call) ↔
      ∀ before call after, calls = before ++ call :: after → ¬ Missed (call.2 -
          (before.foldl receive (fb.setBase baseSequence refTimestampUs)).lastTimestampUs) := by
  have hbase : (fb.setBase baseSequence refTimestampUs).lastTimestampUs =
      (fb.setBase baseSequence refTimestampUs).reconstructedUs := by
    simp [setBase, reconstructedUs, getBaseTimeUs, h]
  have hcall := fun before => timeExact_iff (reconstructedUs_run hbase before)
  constructor
  · intro hexact before call after heq
    exact (hcall before call).mp (hexact before call after heq)
  · intro hmissed before call after heq
    exact (hcall before call).mpr (hmissed before call after heq)

/-- A packet one millisecond after the base is reported exactly. -/
theorem timeExact_run_millisecond :
    TimeExact (({} : TransportFeedback).setBase 0#16 0) (0#16, 1000) :=
  (@timeExact_run_iff {} rfl 0#16 0 [(0#16, 1000)]).mpr
    (by
      intro before _ _ heq
      cases before with
      | nil =>
        cases heq
        decide
      | cons _ before => simp at heq)
    [] (0#16, 1000) [] rfl

/-- A packet whose time has wrapped since the base, and one in the middle between the largest delta
and the next, are refused although a delta reconstructs their times. -/
theorem timeExact_missed :
    ¬ TimeExact (({} : TransportFeedback).setBase 0#16 (kTimeWrapPeriodUs - 64000)) (0#16, 0) ∧
      ¬ TimeExact (({} : TransportFeedback).setBase 0#16 0) (0#16, 8191875) := by
  constructor
  · exact fun hexact => hexact.2 (by decide) 256#16 ⟨-1, by decide⟩
  · exact fun hexact => hexact.2 (by decide) 32767#16 ⟨0, by decide⟩

end WebRtc.Rtcp.TransportFeedback
