import WebRtc.Lib.OrderedMap
import WebRtc.Base.SequenceNumberUnwrapper
import WebRtc.Rtcp.TransportFeedback

/-! `RemoteEstimatorProxy` (`remote_estimator_proxy.cc`): arrival times are kept per unwrapped
sequence number until they are reported in a `TransportFeedback`. An `int64_t` is an `Int`, the
`std::map` a list of entries in key order. A failed `RTC_CHECK` ends the program. -/

namespace WebRtc.Bwe

open SequenceNumber Rtcp

def kBackWindowMs : Int := 500
/-- `std::numeric_limits<int64_t>::max() / 1000`. -/
def kMaxTimeMs : Int := (2 ^ 63 - 1) / 1000

/-- The failure of an `RTC_CHECK`. -/
inductive Abort | checkFailed
  deriving DecidableEq, Repr

/-- The order of the map's keys. -/
def before (a b : Int) : Bool := decide (a < b)

structure RemoteEstimatorProxy where
  mediaSsrc : BitVec 32 := 0
  feedbackSequence : BitVec 8 := 0
  unwrapper : SequenceNumberUnwrapper := {}
  windowStartSeq : Int := -1
  packetArrivalTimes : List (Int × Int) := []
  deriving DecidableEq, Repr

namespace RemoteEstimatorProxy

/-- The entries from `lower_bound(window_start_seq_)` on. -/
def waiting (s : RemoteEstimatorProxy) : List (Int × Int) :=
  OrderedMap.fromLowerBound before s.windowStartSeq s.packetArrivalTimes

/-- The loop that culls old packets in front of `seq`. -/
def cull (seq arrivalTime : Int) (times : List (Int × Int)) : List (Int × Int) :=
  times.dropWhile fun e => decide (e.1 < seq ∧ arrivalTime - e.2 ≥ kBackWindowMs)

/-- `OnPacketArrival(sequence_number, arrival_time)`. -/
def onPacketArrival (s : RemoteEstimatorProxy) (sequenceNumber : BitVec 16) (arrivalTime : Int) :
    RemoteEstimatorProxy :=
  if arrivalTime < 0 ∨ arrivalTime > kMaxTimeMs then s
  else
    let (unwrapper, seq) := s.unwrapper.unwrap sequenceNumber
    let s := { s with unwrapper := unwrapper }
    if seq > s.windowStartSeq + 0xFFFF / 2 then s
    else
      let times :=
        if s.waiting.isEmpty then cull seq arrivalTime s.packetArrivalTimes
        else s.packetArrivalTimes
      let windowStartSeq : Int :=
        if s.windowStartSeq = -1 then sequenceNumber.toNat
        else if seq < s.windowStartSeq then seq
        else s.windowStartSeq
      { s with
        windowStartSeq := windowStartSeq
        packetArrivalTimes := OrderedMap.insertNew before seq arrivalTime times }

/-- `IncomingPacket(arrival_time_ms, payload_size, header)`; the number is there if the header has
the extension. -/
def incomingPacket (s : RemoteEstimatorProxy) (arrivalTimeMs : Int) (ssrc : BitVec 32)
    (transportSequenceNumber : Option (BitVec 16)) : RemoteEstimatorProxy :=
  match transportSequenceNumber with
  | none => s
  | some sequenceNumber =>
    ({ s with mediaSsrc := ssrc } : RemoteEstimatorProxy).onPacketArrival sequenceNumber
      arrivalTimeMs

/-- The loop of `BuildFeedbackPacket`: the window start and the packet after it. -/
def addPackets (firstSequence : Int) :
    List (Int × Int) → Int → TransportFeedback → Except Abort (Int × TransportFeedback)
  | [], windowStartSeq, feedback => .ok (windowStartSeq, feedback)
  | (seq, time) :: times, windowStartSeq, feedback =>
    match feedback.addReceivedPacket (wrapped seq) (time * 1000) with
    | (false, feedback) =>
      if firstSequence = seq then .error .checkFailed else .ok (windowStartSeq, feedback)
    | (true, feedback) => addPackets firstSequence times (seq + 1) feedback

/-- `BuildFeedbackPacket(feedback_packet)`; `none` when everything is sent. -/
def buildFeedbackPacket (s : RemoteEstimatorProxy) :
    Except Abort (Option (RemoteEstimatorProxy × TransportFeedback)) :=
  match s.waiting with
  | [] => .ok none
  | (firstSequence, time) :: times => do
    let feedback : TransportFeedback := { mediaSsrc := s.mediaSsrc }
    let feedback := (feedback.setBase (wrapped s.windowStartSeq) (time * 1000)
      ).setFeedbackSequenceNumber s.feedbackSequence
    let (windowStartSeq, feedback) ←
      addPackets firstSequence ((firstSequence, time) :: times) s.windowStartSeq feedback
    return some ({ s with
      feedbackSequence := s.feedbackSequence + 1
      windowStartSeq := windowStartSeq }, feedback)

/-- The loop of `Process`, with the packets given to `SendFeedback`. -/
def processLoop : Nat → RemoteEstimatorProxy → List TransportFeedback →
    Except Abort (RemoteEstimatorProxy × List TransportFeedback)
  | 0, s, sent => .ok (s, sent)
  | fuel + 1, s, sent => do
    match ← s.buildFeedbackPacket with
    | none => return (s, sent)
    | some (s, feedback) => processLoop fuel s (sent ++ [feedback])

/-- `Process()`. Each round reports at least one entry, so the fuel is enough. -/
def process (s : RemoteEstimatorProxy) :
    Except Abort (RemoteEstimatorProxy × List TransportFeedback) :=
  processLoop (s.packetArrivalTimes.length + 1) s []

end RemoteEstimatorProxy

end WebRtc.Bwe
