import WebRtc.Lib.Outcome
import WebRtc.Rtp.FecRenumber
import WebRtc.Rtp.FlexfecReceiver

/-! The numbering of the FlexFEC stream is independent of that of the media it protects, but the
decoder compares both: it drops the oldest FEC packet by its distance to any received packet, and
resets by the distance of any received packet to the last media packet. What is recovered does not
depend on where the FEC stream starts as long as these tests come out the same. -/

namespace WebRtc.Rtp.Flexfec

open Rtp.Fec FlexfecReceiver List Outcome

variable {c : BitVec 16} {s s' : FlexfecReceiver} {packet : RtpPacketReceived}
  {accept : List Packet → Packet → Bool}

/-- The packet with `c` added to its number, if it belongs to the FEC stream. -/
def RtpPacketReceived.renumberFec (ssrc : BitVec 32) (c : BitVec 16) (packet : RtpPacketReceived) :
    RtpPacketReceived :=
  if packet.ssrc = ssrc then
    { packet.setSequenceNumber (packet.sequenceNumber + c) with headerFits := packet.headerFits }
  else packet

/-- Only the numbers of FEC packets change. -/
def fecOnly (c : BitVec 16) : Renumbering := ⟨0#16, c⟩

theorem fits_fecOnly (c : BitVec 16) : (fecOnly c).Fits .flexfec := rfl

namespace FlexfecReceiver

def renumberFec (c : BitVec 16) (s : FlexfecReceiver) : FlexfecReceiver :=
  { s with
    receivedPackets := s.receivedPackets.map (·.renumber (fecOnly c))
    decoder := s.decoder.renumber (fecOnly c) }

end FlexfecReceiver

/-! ## One packet -/

theorem payload_renumberFec (ssrc : BitVec 32) (c : BitVec 16) (packet : RtpPacketReceived)
    (i : Nat) : (packet.renumberFec ssrc c).byte ((packet.renumberFec ssrc c).payloadOffset + i) =
      packet.byte (packet.payloadOffset + i) := by
  rw [RtpPacketReceived.renumberFec]
  split
  · refine RtpPacket.Buffer.write_outside _ (.inr ?_)
    have hheader : 12 ≤ packet.payloadOffset := packet.headerFits
    have hlength : (BigEndian.write16 (packet.sequenceNumber + c)).length = 2 := rfl
    change 2 + _ ≤ packet.payloadOffset + i
    omega
  · rfl

@[simp] theorem renumber_recovered (c : BitVec 16) (r : RecoveredPacket) :
    r.renumber (fecOnly c).media = r := by
  simp [RecoveredPacket.renumber, fecOnly]

theorem recoveredPackets_renumber (c : BitVec 16) (d : Decoder) :
    (d.renumber (fecOnly c)).recoveredPackets = d.recoveredPackets :=
  (map_congr_left fun r _ => renumber_recovered c r).trans (map_id _)

theorem renumber_received (c seqNum : BitVec 16) (ssrc : BitVec 32) (isFec : Bool) (pkt : Packet) :
    (⟨seqNum, ssrc, isFec, pkt⟩ : ReceivedPacket).renumber (fecOnly c) =
      ⟨if isFec then seqNum + c else seqNum, ssrc, isFec, pkt⟩ := by
  cases isFec <;> simp [ReceivedPacket.renumber, fecOnly]

theorem pushReceived_renumberFec (c : BitVec 16) (s : FlexfecReceiver) (r : ReceivedPacket) :
    (s.renumberFec c).pushReceived (r.renumber (fecOnly c)) = (s.pushReceived r).renumberFec c := by
  simp only [pushReceived, renumberFec, map_append, map_singleton]
  rfl

theorem received_renumberFec (c : BitVec 16) (s : FlexfecReceiver) (packet : RtpPacketReceived) :
    (s.renumberFec c).received (packet.renumberFec s.ssrc c) =
      (s.received packet).map (Option.map (·.renumber (fecOnly c))) := by
  have hpayload := payload_renumberFec s.ssrc c packet
  have hown : (s.renumberFec c).ssrc = s.ssrc := rfl
  have hmedia : (s.renumberFec c).protectedMediaSsrc = s.protectedMediaSsrc := rfl
  by_cases hssrc : packet.ssrc = s.ssrc
  · -- a packet of the FEC stream keeps its payload
    obtain ⟨hkeep, hsize, hnumber⟩ : (packet.renumberFec s.ssrc c).ssrc = packet.ssrc ∧
        (packet.renumberFec s.ssrc c).payloadSize = packet.payloadSize ∧
        (packet.renumberFec s.ssrc c).sequenceNumber = packet.sequenceNumber + c := by
      rw [RtpPacketReceived.renumberFec, if_pos hssrc]
      exact ⟨rfl, rfl, rfl⟩
    simp only [received, hpayload, hown, hkeep, hsize, hnumber]
    rw [if_pos hssrc, if_pos hssrc]
    split
    · rfl
    cases copied packet.payloadSize fun i => packet.byte (packet.payloadOffset + i) with
    | error e => rfl
    | ok pkt =>
      have hpush := renumber_received c packet.sequenceNumber packet.ssrc true pkt
      exact congrArg (fun x => Except.ok (some x)) hpush.symm
  · have hsame : packet.renumberFec s.ssrc c = packet := if_neg hssrc
    simp only [received, hsame, hown, hmedia]
    rw [if_neg hssrc]
    split
    · rfl
    cases copied packet.size packet.byte with
    | error e => rfl
    | ok pkt =>
      have hpush := renumber_received c packet.sequenceNumber packet.ssrc false pkt
      exact congrArg (fun x => Except.ok (some x)) hpush.symm

theorem addReceivedPacket_renumberFec (c : BitVec 16) (s : FlexfecReceiver)
    (packet : RtpPacketReceived) :
    (s.renumberFec c).addReceivedPacket (packet.renumberFec s.ssrc c) =
      (s.addReceivedPacket packet).map fun r => (r.1.renumberFec c, r.2) := by
  rw [addReceivedPacket, addReceivedPacket, received_renumberFec]
  cases s.received packet with
  | error e => rfl
  | ok r =>
    cases r with
    | none => rfl
    | some r => exact congrArg (fun x => Except.ok (x, true)) (pushReceived_renumberFec c s r)

theorem decode_renumberFec (h : TestsKept .flexfec (fecOnly c) s.receivedPackets s.decoder) :
    (s.renumberFec c).decode = s.decode.map (·.renumberFec c) := by
  have hempty : (s.renumberFec c).receivedPackets.isEmpty = s.receivedPackets.isEmpty :=
    isEmpty_map
  have hdecode : decodeFec .flexfec (s.renumberFec c).receivedPackets (s.renumberFec c).decoder =
      (decodeFec .flexfec s.receivedPackets s.decoder).map (Decoder.renumber (fecOnly c)) :=
    decodeFec_renumber (fits_fecOnly c) h
  rw [decode, decode, hempty, hdecode]
  split
  · rfl
  · cases decodeFec .flexfec s.receivedPackets s.decoder <;> rfl

theorem returnPackets_renumberFec (accept : List Packet → Packet → Bool) (c : BitVec 16)
    (s : FlexfecReceiver) : (s.renumberFec c).returnPackets accept =
      ((s.returnPackets accept).1.renumberFec c, (s.returnPackets accept).2) := by
  have hrecovered : (s.renumberFec c).decoder.recoveredPackets = s.decoder.recoveredPackets :=
    recoveredPackets_renumber c s.decoder
  have hgiven : (s.renumberFec c).recovered = s.recovered := rfl
  simp only [returnPackets, hrecovered, hgiven]
  generalize returnRecovered accept s.recovered s.decoder.recoveredPackets = r
  have hpackets : r.1.map (RecoveredPacket.renumber (fecOnly c).media) = r.1 :=
    (map_congr_left fun r _ => renumber_recovered c r).trans (map_id _)
  simp only [renumberFec, Decoder.renumber, hpackets]

/-! ## Runs -/

/-- The comparisons of the decoder come out the same for a packet. -/
def PacketKept (c : BitVec 16) (s : FlexfecReceiver) (packet : RtpPacketReceived) : Prop :=
  ∀ r, s.received packet = .ok (some r) →
    TestsKept .flexfec (fecOnly c) (s.receivedPackets ++ [r]) s.decoder

/-- The comparisons come out the same for all packets of a run. -/
def RunKept (accept : List Packet → Packet → Bool) (c : BitVec 16) :
    List RtpPacketReceived → FlexfecReceiver → Prop
  | [], _ => True
  | packet :: packets, s => PacketKept c s packet ∧
      ∀ s' ∈ (s.onRtpPacket accept packet).toOption, RunKept accept c packets s'

instance : Decidable (PacketKept c s packet) :=
  match h : s.received packet with
  | .ok (some r) =>
    decidable_of_iff (TestsKept .flexfec (fecOnly c) (s.receivedPackets ++ [r]) s.decoder)
      ⟨fun hkept p hp => by cases h.symm.trans hp; exact hkept, fun hall => hall r h⟩
  | .ok none => .isTrue fun p hp => by cases h.symm.trans hp
  | .error e => .isTrue fun p hp => by cases h.symm.trans hp

instance RunKept.decidable : (packets : List RtpPacketReceived) → (s : FlexfecReceiver) →
    Decidable (RunKept accept c packets s)
  | [], _ => .isTrue trivial
  | packet :: packets, s =>
    have := decidable packets
    inferInstanceAs (Decidable (_ ∧ ∀ s' ∈ (s.onRtpPacket accept packet).toOption, _))

/-- `AddReceivedPacket` leaves a packet out, or appends what it received. -/
theorem addReceivedPacket_cases {r : FlexfecReceiver × Bool}
    (h : s.addReceivedPacket packet = .ok r) : r = (s, false) ∨
      ∃ p, s.received packet = .ok (some p) ∧ r = (s.pushReceived p, true) := by
  obtain ⟨p, hreceived, hr⟩ := bind_eq_ok.mp h
  cases p with
  | none =>
    cases hr
    exact .inl rfl
  | some p =>
    cases hr
    exact .inr ⟨p, hreceived, rfl⟩

theorem onRtpPacket_renumberFec (h : PacketKept c s packet) :
    (s.renumberFec c).onRtpPacket accept (packet.renumberFec s.ssrc c) =
      (s.onRtpPacket accept packet).map (·.renumberFec c) := by
  rw [onRtpPacket, onRtpPacket, addReceivedPacket_renumberFec]
  cases hadd : s.addReceivedPacket packet with
  | error e => rfl
  | ok r =>
    rcases addReceivedPacket_cases hadd with rfl | ⟨p, hp, rfl⟩
    · rfl
    have hkept : TestsKept .flexfec (fecOnly c) (s.pushReceived p).receivedPackets
        (s.pushReceived p).decoder := h p hp
    change (((s.pushReceived p).renumberFec c).processReceivedPackets accept >>=
        fun r => pure r.1) =
      ((s.pushReceived p).processReceivedPackets accept >>= fun r => pure r.1).map
        (·.renumberFec c)
    rw [processReceivedPackets, processReceivedPackets, decode_renumberFec hkept]
    cases (s.pushReceived p).decode with
    | error e => rfl
    | ok s' => exact congrArg (fun r => Except.ok r.1) (returnPackets_renumberFec accept c s')

theorem ssrc_decode (h : s.decode = .ok s') : s'.ssrc = s.ssrc := by
  rw [decode] at h
  split at h
  · cases h
    rfl
  · obtain ⟨_, -, hs⟩ := bind_eq_ok.mp h
    cases hs
    rfl

theorem ssrc_onRtpPacket (h : s.onRtpPacket accept packet = .ok s') : s'.ssrc = s.ssrc := by
  obtain ⟨_, hadd, h⟩ := bind_eq_ok.mp h
  rcases addReceivedPacket_cases hadd with rfl | ⟨p, -, rfl⟩
  · cases h
    rfl
  obtain ⟨_, hprocess, h⟩ := bind_eq_ok.mp h
  obtain ⟨_, hdecode, hreturn⟩ := bind_eq_ok.mp hprocess
  have hssrc := ssrc_decode hdecode
  cases hreturn
  cases h
  exact hssrc

theorem run_renumberFec (packets : List RtpPacketReceived) (h : RunKept accept c packets s) :
    (s.renumberFec c).run accept (packets.map (·.renumberFec s.ssrc c)) =
      (s.run accept packets).map (·.renumberFec c) := by
  induction packets generalizing s with
  | nil => rfl
  | cons packet packets ih =>
    rw [map_cons, run, run, onRtpPacket_renumberFec h.1]
    cases hpacket : s.onRtpPacket accept packet with
    | error e => rfl
    | ok s' =>
      have hrest := ih (h.2 s' (by simp [hpacket, Except.toOption]))
      rw [ssrc_onRtpPacket hpacket] at hrest
      exact hrest

/-- **What a FlexFEC receiver recovers does not depend on the numbers of the FEC stream**, in every
run in which the decoder's comparisons do not. -/
theorem recovered_renumberFec (accept : List Packet → Packet → Bool) (ssrc mediaSsrc : BitVec 32)
    (c : BitVec 16) (packets : List RtpPacketReceived)
    (h : RunKept accept c packets { ssrc := ssrc, protectedMediaSsrc := mediaSsrc }) :
    (FlexfecReceiver.run accept { ssrc := ssrc, protectedMediaSsrc := mediaSsrc }
        (packets.map (·.renumberFec ssrc c))).map (·.recovered) =
      (FlexfecReceiver.run accept { ssrc := ssrc, protectedMediaSsrc := mediaSsrc }
        packets).map (·.recovered) := by
  have hrun := run_renumberFec packets h
  have hstart : renumberFec c
      { ssrc := ssrc, protectedMediaSsrc := mediaSsrc } =
      { ssrc := ssrc, protectedMediaSsrc := mediaSsrc } := rfl
  rw [hstart] at hrun
  rw [hrun]
  cases run accept { ssrc := ssrc, protectedMediaSsrc := mediaSsrc } packets <;> rfl

/-! ## A FEC stream far from the media -/

def rtpPacket (ssrc : BitVec 32) (sequenceNumber : BitVec 16) (payload : List (BitVec 8)) :
    RtpPacketReceived where
  marker := false
  payloadType := 0
  paddingSize := 0
  sequenceNumber := sequenceNumber
  timestamp := 0
  ssrc := ssrc
  payloadOffset := 12
  payloadSize := payload.length
  extensionEntries := []
  extensionsSize := 0
  buffer := ⟨fun i => if i < 12 then 0 else payload.getD (i - 12) 0, 12 + payload.length, 1500⟩
  headerFits := Nat.le_refl _

/-- A FlexFEC packet for the packets 1 and 2 of the stream with SSRC 1, then the packet 1. -/
def protectedPair : List RtpPacketReceived :=
  [rtpPacket 9 200 [0, 0, 0, 0, 0, 0, 0, 0, 1, 0, 0, 0, 0, 0, 0, 1, 0, 1, 0xE0, 0],
    rtpPacket 1 1 []]

/-- The numbers of the packets given to the callback. -/
def recoveredNumbers (r : Except Fault FlexfecReceiver) : Option (List (BitVec 16)) :=
  r.toOption.map fun s => s.recovered.map (·.parseSequenceNumber)

theorem recovered_renumberFec_near : recoveredNumbers (FlexfecReceiver.run (fun _ _ => true)
        { ssrc := 9, protectedMediaSsrc := 1 } protectedPair) = some [2] ∧
      (FlexfecReceiver.run (fun _ _ => true) { ssrc := 9, protectedMediaSsrc := 1 }
          (protectedPair.map (·.renumberFec 9 100))).map (·.recovered) =
        (FlexfecReceiver.run (fun _ _ => true) { ssrc := 9, protectedMediaSsrc := 1 }
          protectedPair).map (·.recovered) :=
  ⟨by decide +kernel, recovered_renumberFec _ 9 1 100 protectedPair (by decide +kernel)⟩

theorem recovered_renumberFec_far : recoveredNumbers (FlexfecReceiver.run (fun _ _ => true)
        { ssrc := 9, protectedMediaSsrc := 1 } protectedPair) = some [2] ∧
      recoveredNumbers (FlexfecReceiver.run (fun _ _ => true)
        { ssrc := 9, protectedMediaSsrc := 1 } (protectedPair.map (·.renumberFec 9 30000))) =
        some [] := by
  constructor <;> decide +kernel

end WebRtc.Rtp.Flexfec
