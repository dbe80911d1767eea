import WebRtc.Lib.OrderedMap
import WebRtc.Rtcp.Bye

/-! `RTCPReceiver` (`rtcp_receiver.cc`): the per-sender store `received_infos_` and every entry
point that changes it. The handlers of the other packet types do not touch the store and are left
out; within one call the clock is read once. -/

namespace WebRtc.Rtcp

open OrderedMap TransportFeedback

/-- `rtcp::TmmbItem`. -/
structure TmmbItem where
  ssrc : BitVec 32
  bitrateBps : BitVec 64
  packetOverhead : BitVec 16
  deriving DecidableEq, Repr

/-- `TmmbItem::kLength`. -/
def tmmbItemLength : Nat := 8

/-- `TmmbItem::Parse(buffer)`: a mantissa of 17 bits, an exponent of 6 and an overhead of 9. -/
def TmmbItem.parse (buffer : List Byte) : Option TmmbItem :=
  let compact := readUInt32 buffer 4
  let exponent := (compact >>> 26).toNat
  let mantissa := ((compact >>> 9) &&& 0x1ffff#32).setWidth 64
  let bitrateBps := mantissa <<< exponent
  if bitrateBps >>> exponent ≠ mantissa then none
  else some ⟨readUInt32 buffer 0, bitrateBps, (compact &&& 0x1ff#32).setWidth 16⟩

/-- The loop over the items of `Tmmbr` and `Tmmbn`: `count` items from `bytes`. -/
def parseTmmbItems : Nat → List Byte → Option (List TmmbItem)
  | 0, _ => some []
  | count + 1, bytes => do
    let item ← TmmbItem.parse bytes
    let items ← parseTmmbItems count (bytes.drop tmmbItemLength)
    return item :: items

/-- `Tmmbr` and `Tmmbn`, which differ in how many items they ask for. -/
structure TmmbPacket where
  senderSsrc : BitVec 32
  mediaSsrc : BitVec 32
  items : List TmmbItem
  deriving DecidableEq, Repr

/-- The common body of `Tmmbr::Parse` and `Tmmbn::Parse`. -/
def parseTmmb (minItems : Nat) (packet : CommonHeader) : Option TmmbPacket :=
  let payload := packet.payload
  if payload.length < kCommonFeedbackLength + minItems * tmmbItemLength then none
  else
    let itemsSizeBytes := payload.length - kCommonFeedbackLength
    if itemsSizeBytes % tmmbItemLength ≠ 0 then none
    else do
      let items ← parseTmmbItems (itemsSizeBytes / tmmbItemLength)
        (payload.drop kCommonFeedbackLength)
      return ⟨readUInt32 payload 0, readUInt32 payload 4, items⟩

/-- `Tmmbr::Parse(packet)`: one item at least. -/
def parseTmmbr : CommonHeader → Option TmmbPacket := parseTmmb 1

/-- `Tmmbn::Parse(packet)`. -/
def parseTmmbn : CommonHeader → Option TmmbPacket := parseTmmb 0

/-- `Fir::Request`. -/
structure FirRequest where
  ssrc : BitVec 32
  seqNr : Byte
  deriving DecidableEq, Repr

/-- `Fir::Parse(packet)`: the sender and the requests, eight bytes each. -/
def parseFir (packet : CommonHeader) : Option (BitVec 32 × List FirRequest) :=
  let payload := packet.payload
  if payload.length < kCommonFeedbackLength + 8 then none
  else if (payload.length - kCommonFeedbackLength) % 8 ≠ 0 then none
  else
    let request := fun i => FirRequest.mk (readUInt32 payload (kCommonFeedbackLength + 8 * i))
      (payload.getD (kCommonFeedbackLength + 8 * i + 4) 0)
    some (readUInt32 payload 0,
      (List.range ((payload.length - kCommonFeedbackLength) / 8)).map request)

/-- `SenderReport::Parse` and `ReceiverReport::Parse` up to the sender; a report block has 24
bytes. -/
def parseReport (baseLength : Nat) (packet : CommonHeader) : Option (BitVec 32) :=
  if packet.payload.length < baseLength + packet.countOrFormat.toNat * 24 then none
  else some (readUInt32 packet.payload 0)

/-- `kSenderBaseLength`. -/
def parseSenderReport : CommonHeader → Option (BitVec 32) := parseReport 24

/-- `kRrBaseLength`. -/
def parseReceiverReport : CommonHeader → Option (BitVec 32) := parseReport 4

/-! ## The receiver -/

structure TimedTmmbrItem where
  tmmbrItem : TmmbItem
  lastUpdatedMs : Int
  deriving DecidableEq, Repr

structure ReceiveInformation where
  lastTimeReceivedMs : Int := 0
  lastFirRequestMs : Int := 0
  lastFirSequenceNumber : Int := -1
  readyForDelete : Bool := false
  tmmbn : List TmmbItem := []
  tmmbr : List (BitVec 32 × TimedTmmbrItem) := []
  deriving DecidableEq, Repr

/-- The constructor leaves `oldest_received_info_ms_` without a value. -/
structure RtcpReceiver where
  mainSsrc : BitVec 32 := 0
  remoteSsrc : BitVec 32 := 0
  receivedInfos : List (BitVec 32 × ReceiveInformation) := []
  oldestReceivedInfoMs : Int
  deriving DecidableEq, Repr

/-- `5 * RTCP_INTERVAL_AUDIO_MS`. -/
def kReceiveInfoTimeoutMs : Int := 5 * 5000
/-- `RTCP_MIN_FRAME_LENGTH_MS`. -/
def kMinFrameLengthMs : Int := 17

/-- `std::less<uint32_t>`. -/
def ssrcLess (a b : BitVec 32) : Bool := decide (a < b)

namespace RtcpReceiver

/-- `GetReceiveInformation(remote_ssrc)`. -/
def getReceiveInformation (s : RtcpReceiver) (remoteSsrc : BitVec 32) :
    Option ReceiveInformation :=
  find remoteSsrc s.receivedInfos

/-- Change the entry that `GetReceiveInformation` points to. -/
def updateInfo (s : RtcpReceiver) (remoteSsrc : BitVec 32)
    (f : ReceiveInformation → ReceiveInformation) : RtcpReceiver :=
  { s with receivedInfos := modify remoteSsrc f s.receivedInfos }

/-- `CreateReceiveInformation(remote_ssrc)`. -/
def createReceiveInformation (nowMs : Int) (remoteSsrc : BitVec 32) (s : RtcpReceiver) :
    RtcpReceiver :=
  { s with receivedInfos := insertNew ssrcLess remoteSsrc {} s.receivedInfos }.updateInfo
    remoteSsrc fun info => { info with lastTimeReceivedMs := nowMs }

/-- `HandleSenderReport` and `HandleReceiverReport`, for the store. -/
def handleReport (nowMs : Int) (sender : Option (BitVec 32)) (s : RtcpReceiver) : RtcpReceiver :=
  match sender with
  | none => s
  | some remoteSsrc => s.createReceiveInformation nowMs remoteSsrc

/-- `HandleBye(rtcp_block)`. -/
def handleBye (block : CommonHeader) (s : RtcpReceiver) : RtcpReceiver :=
  match Bye.parse block with
  | none => s
  | some bye => s.updateInfo bye.senderSsrc fun info => { info with readyForDelete := true }

/-- One request of `HandleTmmbr`, with the sender it is stored under. -/
def storeTmmbr (nowMs : Int) (mainSsrc senderSsrc : BitVec 32) (info : ReceiveInformation)
    (request : TmmbItem) : ReceiveInformation :=
  if mainSsrc = request.ssrc ∧ request.bitrateBps ≠ 0 then
    let entry : TimedTmmbrItem :=
      ⟨⟨senderSsrc, request.bitrateBps, request.packetOverhead⟩, nowMs⟩
    let entries := insertNew ssrcLess senderSsrc entry info.tmmbr
    { info with tmmbr := modify senderSsrc (fun _ => entry) entries }
  else info

/-- `HandleTmmbr(rtcp_block, ...)`; the flag is `kRtcpTmmbr`. -/
def handleTmmbr (nowMs : Int) (block : CommonHeader) (s : RtcpReceiver) : RtcpReceiver × Bool :=
  match parseTmmbr block with
  | none => (s, false)
  | some tmmbr =>
    if (s.getReceiveInformation tmmbr.senderSsrc).isNone then (s, false)
    else
      -- in relay mode the media ssrc is the sender
      let senderSsrc := if tmmbr.mediaSsrc ≠ 0 then tmmbr.mediaSsrc else tmmbr.senderSsrc
      (s.updateInfo tmmbr.senderSsrc fun info =>
          tmmbr.items.foldl (storeTmmbr nowMs s.mainSsrc senderSsrc) info,
        tmmbr.items.any fun request => s.mainSsrc = request.ssrc ∧ request.bitrateBps ≠ 0)

/-- `HandleTmmbn(rtcp_block, ...)`. -/
def handleTmmbn (block : CommonHeader) (s : RtcpReceiver) : RtcpReceiver :=
  match parseTmmbn block with
  | none => s
  | some tmmbn =>
    s.updateInfo tmmbn.senderSsrc fun info =>
      { info with tmmbn := tmmbn.items.foldl (fun stored item => stored ++ [item]) info.tmmbn }

/-- One request of `HandleFir` for a sender that is known. -/
def storeFir (nowMs : Int) (mainSsrc : BitVec 32) (info : ReceiveInformation)
    (request : FirRequest) : ReceiveInformation :=
  if mainSsrc ≠ request.ssrc then info
  else if (request.seqNr.toNat : Int) = info.lastFirSequenceNumber then info
  else if nowMs - info.lastFirRequestMs < kMinFrameLengthMs then info
  else { info with lastFirRequestMs := nowMs, lastFirSequenceNumber := request.seqNr.toNat }

/-- `HandleFir(rtcp_block, ...)`. -/
def handleFir (nowMs : Int) (block : CommonHeader) (s : RtcpReceiver) : RtcpReceiver :=
  match parseFir block with
  | none => s
  | some (senderSsrc, requests) =>
    s.updateInfo senderSsrc fun info => requests.foldl (storeFir nowMs s.mainSsrc) info

/-- The block types and formats that `ParseCompoundPacket` passes to a handler of the store. -/
inductive BlockKind
  | senderReport
  | receiverReport
  | bye
  | tmmbr
  | tmmbn
  | fir
  | other
  deriving DecidableEq, Repr

/-- The switches of `ParseCompoundPacket`. -/
def blockKind (block : CommonHeader) : BlockKind :=
  if block.packetType = 200#8 then .senderReport
  else if block.packetType = 201#8 then .receiverReport
  else if block.packetType = Bye.packetType then .bye
  else if block.packetType = 205#8 then
    if block.countOrFormat = 3#8 then .tmmbr
    else if block.countOrFormat = 4#8 then .tmmbn
    else .other
  else if block.packetType = 206#8 then
    if block.countOrFormat = 4#8 then .fir else .other
  else .other

/-- One round of `ParseCompoundPacket`; the flag collects `kRtcpTmmbr`. -/
def handleBlock (nowMs : Int) (acc : RtcpReceiver × Bool) (block : CommonHeader) :
    RtcpReceiver × Bool :=
  let (s, tmmbr) := acc
  match blockKind block with
  | .senderReport => (s.handleReport nowMs (parseSenderReport block), tmmbr)
  | .receiverReport => (s.handleReport nowMs (parseReceiverReport block), tmmbr)
  | .bye => (s.handleBye block, tmmbr)
  | .tmmbr =>
    let (s, accepted) := s.handleTmmbr nowMs block
    (s, tmmbr || accepted)
  | .tmmbn => (s.handleTmmbn block, tmmbr)
  | .fir => (s.handleFir nowMs block, tmmbr)
  | .other => (s, tmmbr)

/-- `TmmbrReceived()`: the entries that have not timed out, the others are erased. -/
def tmmbrReceived (nowMs : Int) (s : RtcpReceiver) : List TmmbItem × RtcpReceiver :=
  let live := fun entry : BitVec 32 × TimedTmmbrItem =>
    !decide (entry.2.lastUpdatedMs < nowMs - kReceiveInfoTimeoutMs)
  (s.receivedInfos.flatMap fun kv => (kv.2.tmmbr.filter live).map fun e => e.2.tmmbrItem,
    { s with receivedInfos := s.receivedInfos.map fun kv =>
        (kv.1, { kv.2 with tmmbr := kv.2.tmmbr.filter live }) })

/-- `IncomingPacket(packet, packet_size)`: `false` for an empty packet and for one whose first
header is invalid. An accepted TMMBR makes the callbacks ask for the received ones. -/
def incomingPacket (nowMs : Int) (packet : List Byte) (s : RtcpReceiver) : Bool × RtcpReceiver :=
  if packet.isEmpty then (false, s)
  else
    let (headers, ended) := blocks packet
    if headers.isEmpty ∧ ended = false then (false, s)
    else
      let (s, tmmbr) := headers.foldl (handleBlock nowMs) (s, false)
      (true, if tmmbr then (s.tmmbrReceived nowMs).2 else s)

/-- The loop of `UpdateRTCPReceiveInformationTimers`: the entries that stay, the oldest time of a
live entry and whether one timed out. -/
def sweepInfos (timeoutMs : Int) : List (BitVec 32 × ReceiveInformation) → Int → Bool →
    List (BitVec 32 × ReceiveInformation) × Int × Bool
  | [], oldest, update => ([], oldest, update)
  | (ssrc, info) :: infos, oldest, update =>
    if info.lastTimeReceivedMs > 0 then
      if info.lastTimeReceivedMs < timeoutMs then
        let (kept, oldest, update) := sweepInfos timeoutMs infos oldest true
        ((ssrc, { info with tmmbr := [], lastTimeReceivedMs := 0 }) :: kept, oldest, update)
      else
        let oldest :=
          if oldest = -1 ∨ info.lastTimeReceivedMs < oldest then info.lastTimeReceivedMs
          else oldest
        let (kept, oldest, update) := sweepInfos timeoutMs infos oldest update
        ((ssrc, info) :: kept, oldest, update)
    else if info.readyForDelete then sweepInfos timeoutMs infos oldest update
    else
      let (kept, oldest, update) := sweepInfos timeoutMs infos oldest update
      ((ssrc, info) :: kept, oldest, update)

/-- `UpdateRTCPReceiveInformationTimers()`. -/
def updateReceiveInformationTimers (nowMs : Int) (s : RtcpReceiver) : Bool × RtcpReceiver :=
  let timeoutMs := nowMs - kReceiveInfoTimeoutMs
  if s.oldestReceivedInfoMs ≥ timeoutMs then (false, s)
  else
    let (infos, oldest, update) := sweepInfos timeoutMs s.receivedInfos (-1) false
    (update, { s with receivedInfos := infos, oldestReceivedInfoMs := oldest })

def setRemoteSsrc (ssrc : BitVec 32) (s : RtcpReceiver) : RtcpReceiver :=
  { s with remoteSsrc := ssrc }

/-- `SetSsrcs(main_ssrc, ...)`; the registered ssrcs filter report blocks only. -/
def setSsrcs (mainSsrc : BitVec 32) (s : RtcpReceiver) : RtcpReceiver :=
  { s with mainSsrc := mainSsrc }

/-- `TMMBRHelp::IsOwner(bounding, ssrc)`. -/
def isOwner (bounding : List TmmbItem) (ssrc : BitVec 32) : Bool :=
  bounding.any fun item => item.ssrc = ssrc

/-- `BoundingSet(tmmbr_owner)`; without an entry `*tmmbr_owner` is not written. -/
def boundingSet (s : RtcpReceiver) : List TmmbItem × Option Bool :=
  match s.getReceiveInformation s.remoteSsrc with
  | none => ([], none)
  | some info => (info.tmmbn, some (isOwner info.tmmbn s.mainSsrc))

end RtcpReceiver
end WebRtc.Rtcp
