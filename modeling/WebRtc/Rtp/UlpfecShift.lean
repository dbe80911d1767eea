import WebRtc.Rtp.FecBounds
import WebRtc.Rtp.FecRenumber

/-! A ULPFEC stream whose sequence numbers are all shifted by one constant. Media and FEC packets
share one numbering. The decoder recovers the shifted packets as long as its tests of age and
distance, which take numbers as integers, come out the same; a shift over the wrap of the sequence
number changes them. -/

namespace WebRtc.Rtp.Fec

variable {scheme : FecScheme} {d : Decoder}

def Call.renumber (n : Renumbering) : Call → Call
  | .decode received => .decode (received.map (·.renumber n))
  | .returnRecovered => .returnRecovered

/-- A call as a function. -/
def perform (scheme : FecScheme) (d : Decoder) : Call → Except Fault Decoder
  | .decode received => decodeFec scheme received d
  | .returnRecovered => .ok { d with
      recoveredPackets := d.recoveredPackets.map fun r => { r with returned := true } }

/-- What a sequence of calls leads to, call by call, up to an undefined one. -/
def results (scheme : FecScheme) : List Call → Decoder → List (Except Fault Decoder)
  | [], _ => []
  | call :: calls, d =>
    match perform scheme d call with
    | .error e => [.error e]
    | .ok d' => .ok d' :: results scheme calls d'

/-- The comparisons of a call come out the same after a renumbering. -/
def CallKept (scheme : FecScheme) (n : Renumbering) (d : Decoder) : Call → Prop
  | .decode received => TestsKept scheme n received d
  | .returnRecovered => True

/-- The comparisons of all calls come out the same. -/
def RunKept (scheme : FecScheme) (n : Renumbering) : List Call → Decoder → Prop
  | [], _ => True
  | call :: calls, d => CallKept scheme n d call ∧
      ∀ d' ∈ (perform scheme d call).toOption, RunKept scheme n calls d'

instance RunKept.decidable {n : Renumbering} : (calls : List Call) → (d : Decoder) →
    Decidable (RunKept scheme n calls d)
  | [], _ => .isTrue trivial
  | call :: calls, d =>
    have : Decidable (CallKept scheme n d call) :=
      match call with
      | .decode received => inferInstanceAs (Decidable (TestsKept scheme n received d))
      | .returnRecovered => .isTrue trivial
    have (d' : Decoder) : Decidable (RunKept scheme n calls d') := decidable calls d'
    inferInstanceAs (Decidable (_ ∧ ∀ d' ∈ (perform scheme d call).toOption, _))

theorem perform_renumber {n : Renumbering} (hn : n.Fits scheme) {call : Call}
    (h : CallKept scheme n d call) : perform scheme (d.renumber n) (call.renumber n) =
      (perform scheme d call).map (Decoder.renumber n) := by
  cases call with
  | decode _ => exact decodeFec_renumber hn h
  | returnRecovered =>
    simp [perform, Call.renumber, Decoder.renumber, Except.map, RecoveredPacket.renumber,
      Function.comp_def]

theorem results_renumber {n : Renumbering} (hn : n.Fits scheme) (calls : List Call)
    (h : RunKept scheme n calls d) : results scheme (calls.map (·.renumber n)) (d.renumber n) =
      (results scheme calls d).map (Except.map (Decoder.renumber n)) := by
  induction calls generalizing d with
  | nil => rfl
  | cons call calls ih =>
    rw [List.map_cons, results, results, perform_renumber hn h.1]
    cases hcall : perform scheme d call with
    | error e => rfl
    | ok d' =>
      have hrest := ih (h.2 d' (by simp [hcall, Except.toOption]))
      exact congrArg (Except.ok (d'.renumber n) :: ·) hrest

/-- **A shifted ULPFEC stream is decoded to the shifted packets** in every run in which each call
keeps its comparisons. -/
theorem results_shift (c : BitVec 16) (calls : List Call) (h : RunKept .ulpfec ⟨c, c⟩ calls {}) :
    results .ulpfec (calls.map (·.renumber ⟨c, c⟩)) {} =
      (results .ulpfec calls {}).map (Except.map (Decoder.renumber ⟨c, c⟩)) := by
  have hfits : (⟨c, c⟩ : Renumbering).Fits .ulpfec := trivial
  exact results_renumber hfits calls h

/-! ## A shift over the wrap -/

/-- The numbers of the packets that were recovered. -/
def recoveredNumbers (r : Except Fault Decoder) : Option (List (BitVec 16)) :=
  r.toOption.map fun d => (d.recoveredPackets.filter (·.wasRecovered)).map (·.seqNum)

def emptyMedia (seqNum : BitVec 16) : ReceivedPacket :=
  ⟨seqNum, 0, false, (⟨kRtpHeaderSize, fun _ => 0⟩ : Packet).write16 2 seqNum⟩

/-- A FEC packet for the packets 1 and 2, a later packet, then the packet 1. -/
def lateFirst : List Call :=
  [.decode [⟨9, 0, true, fecPacketForTwo⟩], .decode [emptyMedia 10], .decode [emptyMedia 1]]

theorem results_shift_lateFirst :
    (results .ulpfec lateFirst {}).map recoveredNumbers = [some [], some [], some [2]] ∧
      results .ulpfec (lateFirst.map (·.renumber ⟨100, 100⟩)) {} =
        (results .ulpfec lateFirst {}).map (Except.map (Decoder.renumber ⟨100, 100⟩)) :=
  ⟨by decide +kernel, results_shift 100 lateFirst (by decide +kernel)⟩

theorem results_shift_loses :
    (results .ulpfec lateFirst {}).map recoveredNumbers = [some [], some [], some [2]] ∧
      (results .ulpfec (lateFirst.map (·.renumber ⟨65526, 65526⟩)) {}).map recoveredNumbers =
        [some [], some [], some []] := by
  constructor <;> decide +kernel

end WebRtc.Rtp.Fec
