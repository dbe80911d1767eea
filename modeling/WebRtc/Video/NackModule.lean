import WebRtc.Lib.OrderedMap
import WebRtc.Base.SequenceNumber

/-! `NackModule` (`nack_module.cc`). A `std::map` or `std::set` is a list of entries in the order of
`DescendingSeqNumComp`, a set being a map to `Unit`. The reordering histogram is left out: every
packet counts as retransmitted, so the histogram stays empty and `WaitNumberOfPackets` is zero. -/

namespace WebRtc.Video.Nack

open OrderedMap SequenceNumber

def kMaxPacketAge : BitVec 16 := 10000
def kMaxNackPackets : Nat := 1000
def kDefaultRttMs : Int := 100
def kMaxNackRetries : Nat := 10
def kProcessIntervalMs : Int := 1000 / 50

structure NackInfo where
  seqNum : BitVec 16
  sendAtSeqNum : BitVec 16
  sentAtTime : Int := -1
  retries : Nat := 0
  deriving DecidableEq, Repr

/-- The fields of `VCMPacket` that are read. -/
structure Packet where
  seqNum : BitVec 16
  isFirstPacketInFrame : Bool
  isKeyFrame : Bool
  deriving DecidableEq, Repr

abbrev NackList := List (BitVec 16 × NackInfo)
abbrev KeyframeList := List (BitVec 16 × Unit)

structure NackModule where
  nackList : NackList := []
  keyframeList : KeyframeList := []
  running : Bool := true
  initialized : Bool := false
  rttMs : Int := kDefaultRttMs
  newestSeqNum : BitVec 16 := 0
  nextProcessTimeMs : Int := -1
  deriving DecidableEq, Repr

/-- `DescendingSeqNumComp<uint16_t>`. -/
def comp (a b : BitVec 16) : Bool := aheadOf b a

/-- `WaitNumberOfPackets(0.5)` with an empty histogram. -/
def waitNumberOfPackets : BitVec 16 := 0

/-! ## Room in the nack list -/

/-- `RemovePacketsUntilKeyFrame()`: whether packets were removed, with both lists afterwards. -/
def removePacketsUntilKeyFrame (nackList : NackList) :
    KeyframeList → Bool × NackList × KeyframeList
  | [] => (false, nackList, [])
  | (keyframe, u) :: keyframes =>
    let newer := fromLowerBound comp keyframe nackList
    if newer.length < nackList.length then (true, newer, (keyframe, u) :: keyframes)
    -- a keyframe that removes nothing is too old
    else removePacketsUntilKeyFrame nackList keyframes

theorem removePacketsUntilKeyFrame_lt {nackList : NackList} {keyframes : KeyframeList}
    (h : (removePacketsUntilKeyFrame nackList keyframes).1) :
    (removePacketsUntilKeyFrame nackList keyframes).2.1.length < nackList.length := by
  induction keyframes with
  | nil => cases h
  | cons e keyframes ih =>
    unfold removePacketsUntilKeyFrame at h ⊢
    dsimp only at h ⊢
    split
    · assumption
    · rw [if_neg ‹_›] at h
      exact ih h

/-- The loop of `AddPacketsToNack` that removes packets until there is room. -/
def makeRoom (numNewNacks : Nat) (nackList : NackList) (keyframes : KeyframeList) :
    NackList × KeyframeList :=
  let removed := removePacketsUntilKeyFrame nackList keyframes
  if removed.1 = true ∧ removed.2.1.length + numNewNacks > kMaxNackPackets then
    makeRoom numNewNacks removed.2.1 removed.2.2
  else removed.2
termination_by nackList.length
decreasing_by exact removePacketsUntilKeyFrame_lt (by tauto)

/-- `nack_list_[seq_num] = nack_info`. -/
def assign (seqNum : BitVec 16) (info : NackInfo) (nackList : NackList) : NackList :=
  modify seqNum (fun _ => info) (insertNew comp seqNum info nackList)

/-- The loop of `AddPacketsToNack` over the new numbers. -/
def addFrom : Nat → BitVec 16 → NackList → NackList
  | 0, _, nackList => nackList
  | count + 1, seqNum, nackList =>
    addFrom count (seqNum + 1) (assign seqNum ⟨seqNum, seqNum + waitNumberOfPackets, -1, 0⟩ nackList)

namespace NackModule

/-- `AddPacketsToNack(seq_num_start, seq_num_end)`; the flag is a call of `RequestKeyFrame`. -/
def addPacketsToNack (m : NackModule) (seqNumStart seqNumEnd : BitVec 16) : NackModule × Bool :=
  let nackList := fromLowerBound comp (seqNumEnd - kMaxPacketAge) m.nackList
  let numNewNacks := (forwardDiff seqNumStart seqNumEnd).toNat
  if nackList.length + numNewNacks > kMaxNackPackets then
    let (nackList, keyframeList) := makeRoom numNewNacks nackList m.keyframeList
    if nackList.length + numNewNacks > kMaxNackPackets then
      ({ m with nackList := [], keyframeList := keyframeList }, true)
    else
      ({ m with nackList := addFrom numNewNacks seqNumStart nackList,
                keyframeList := keyframeList }, false)
  else ({ m with nackList := addFrom numNewNacks seqNumStart nackList }, false)

/-! ## Batches -/

inductive NackFilterOptions | seqNumOnly | timeOnly | seqNumAndTime
  deriving DecidableEq, Repr

/-- The two conditions under which `GetNackBatch` takes an entry. -/
def due (m : NackModule) (options : NackFilterOptions) (nowMs : Int) (info : NackInfo) : Bool :=
  (options ≠ .timeOnly && info.sentAtTime = -1 && aheadOrAt m.newestSeqNum info.sendAtSeqNum) ||
    (options ≠ .seqNumOnly && info.sentAtTime + m.rttMs ≤ nowMs)

/-- The loop of `GetNackBatch`: the batch and what stays in the list. -/
def batchFrom (m : NackModule) (options : NackFilterOptions) (nowMs : Int) :
    NackList → List (BitVec 16) × NackList
  | [] => ([], [])
  | (key, info) :: rest =>
    let (batch, kept) := batchFrom m options nowMs rest
    if m.due options nowMs info then
      let sent := { info with retries := info.retries + 1, sentAtTime := nowMs }
      if sent.retries ≥ kMaxNackRetries then (info.seqNum :: batch, kept)
      else (info.seqNum :: batch, (key, sent) :: kept)
    else (batch, (key, info) :: kept)

/-- `GetNackBatch(options)`. -/
def getNackBatch (m : NackModule) (options : NackFilterOptions) (nowMs : Int) :
    List (BitVec 16) × NackModule :=
  let (batch, nackList) := m.batchFrom options nowMs m.nackList
  (batch, { m with nackList := nackList })

/-! ## Calls -/

/-- What a call returns and does: the batch given to `SendNack`, which is not called for an empty
one, and whether `RequestKeyFrame` is called. -/
structure Result where
  module : NackModule
  batch : List (BitVec 16) := []
  keyframeRequested : Bool := false
  returns : Int := 0

/-- `OnReceivedPacket` for a packet ahead of the newest one, up to its batch. -/
def advance (m : NackModule) (packet : Packet) : NackModule × Bool :=
  let (m, requested) := m.addPacketsToNack (m.newestSeqNum + 1) packet.seqNum
  let keyframes :=
    if packet.isFirstPacketInFrame && packet.isKeyFrame then
      insertNew comp packet.seqNum () m.keyframeList
    else m.keyframeList
  ({ m with newestSeqNum := packet.seqNum,
            keyframeList := fromLowerBound comp (packet.seqNum - kMaxPacketAge) keyframes },
    requested)

/-- `OnReceivedPacket(packet)`. -/
def onReceivedPacket (m : NackModule) (nowMs : Int) (packet : Packet) : Result :=
  if !m.running then { module := m, returns := -1 }
  else if !m.initialized then
    let keyframes :=
      if packet.isFirstPacketInFrame && packet.isKeyFrame then
        insertNew comp packet.seqNum () m.keyframeList
      else m.keyframeList
    { module := { m with newestSeqNum := packet.seqNum, keyframeList := keyframes,
                         initialized := true } }
  else if packet.seqNum = m.newestSeqNum then { module := m }
  else if aheadOf m.newestSeqNum packet.seqNum then
    { module := { m with nackList := erase packet.seqNum m.nackList }
      returns := ((find packet.seqNum m.nackList).map fun info => (info.retries : Int)).getD 0 }
  else
    let (m, requested) := m.advance packet
    let (batch, m) := m.getNackBatch .seqNumOnly nowMs
    { module := m, batch := batch, keyframeRequested := requested }

/-- `ClearUpTo(seq_num)`. -/
def clearUpTo (m : NackModule) (seqNum : BitVec 16) : NackModule :=
  { m with nackList := fromLowerBound comp seqNum m.nackList
           keyframeList := fromLowerBound comp seqNum m.keyframeList }

/-- `UpdateRtt(rtt_ms)`. -/
def updateRtt (m : NackModule) (rttMs : Int) : NackModule := { m with rttMs := rttMs }

/-- `Clear()`. -/
def clear (m : NackModule) : NackModule := { m with nackList := [], keyframeList := [] }

/-- `Stop()`. -/
def stop (m : NackModule) : NackModule := { m with running := false }

/-- `Process()`. -/
def process (m : NackModule) (nowMs : Int) : Result :=
  if !m.running then { module := m }
  else
    let next :=
      if m.nextProcessTimeMs = -1 then nowMs + kProcessIntervalMs
      else m.nextProcessTimeMs + kProcessIntervalMs +
        (nowMs - m.nextProcessTimeMs).tdiv kProcessIntervalMs * kProcessIntervalMs
    let (batch, m) := { m with nextProcessTimeMs := next }.getNackBatch .timeOnly nowMs
    { module := m, batch := batch }

end NackModule
end WebRtc.Video.Nack
