import WebRtc.Base.SequenceNumber
import WebRtc.Lib.BigEndian
import WebRtc.Rtcp.LastChunk

/-! `rtcp::TransportFeedback` (`transport_feedback.cc`), with the common header it is read from.
`size_t` has 64 bits unless a width is given. A time in microseconds is an `Int`; a buffer is the list of its bytes. -/

namespace WebRtc.Rtcp

open BigEndian SequenceNumber

abbrev Byte := BitVec 8

def kDeltaScaleFactor : Int := 250
def kBaseScaleFactor : Int := 64000
/-- `kTimeWrapPeriodUs`: 2^24 base ticks. -/
def kTimeWrapPeriodUs : Int := 2 ^ 24 * kBaseScaleFactor
def kTransportFeedbackHeaderSizeBytes : Nat := 4 + 8 + 8
def kChunkSizeBytes : Nat := 2
def kMaxSizeBytes : Nat := 2 ^ 16 * 4
def kMaxReportedPackets : Nat := 0xffff
/-- `RtcpPacket::kHeaderLength`. -/
def kHeaderLength : Nat := 4
def kFeedbackMessageType : Byte := 15#8
/-- `Rtpfb::kPacketType`. -/
def kPacketType : Byte := 205#8

/-- `TransportFeedback::ReceivedPacket`; the delta is an `int16_t`. -/
structure ReceivedPacket where
  sequenceNumber : BitVec 16
  deltaTicks : BitVec 16
  deriving DecidableEq, Repr

def ReceivedPacket.deltaUs (p : ReceivedPacket) : Int := p.deltaTicks.toInt * kDeltaScaleFactor

/-- `delta >= 0 && delta <= 0xff`. -/
def isSmall (delta : BitVec 16) : Bool := decide (0 ≤ delta.toInt ∧ delta.toInt ≤ 0xff)

structure TransportFeedback where
  senderSsrc : BitVec 32 := 0#32
  mediaSsrc : BitVec 32 := 0#32
  baseSeqNo : BitVec 16 := 0#16
  numSeqNo : Nat := 0
  baseTimeTicks : Int := 0
  feedbackSeq : Byte := 0#8
  lastTimestampUs : Int := 0
  packets : List ReceivedPacket := []
  encodedChunks : List (BitVec 16) := []
  lastChunk : LastChunk := LastChunk.new
  sizeBytes : Nat := kTransportFeedbackHeaderSizeBytes
  deriving DecidableEq, Repr

namespace TransportFeedback

/-- `GetBaseTimeUs()`. -/
def getBaseTimeUs (fb : TransportFeedback) : Int := fb.baseTimeTicks * kBaseScaleFactor

/-- The base ticks `SetBase` stores in an `int32_t`: the remainder is divided by a `size_t`, as an
unsigned number if that has 64 bits and as an `int64_t` if it has fewer. -/
def baseTicks (refTimestampUs : Int) (sizeBits : Nat := 64) : Int :=
  let remainder := Int.tmod refTimestampUs kTimeWrapPeriodUs
  if sizeBits < 64 then (BitVec.ofInt 32 (Int.tdiv remainder kBaseScaleFactor)).toInt
  else (BitVec.ofNat 32 ((BitVec.ofInt 64 remainder).toNat / kBaseScaleFactor.toNat)).toInt

/-- `SetBase(base_sequence, ref_timestamp_us)`. -/
def setBase (fb : TransportFeedback) (baseSequence : BitVec 16) (refTimestampUs : Int)
    (sizeBits : Nat := 64) : TransportFeedback :=
  { fb with
    baseSeqNo := baseSequence
    baseTimeTicks := baseTicks refTimestampUs sizeBits
    lastTimestampUs := baseTicks refTimestampUs sizeBits * kBaseScaleFactor }

/-- `SetFeedbackSequenceNumber(feedback_sequence)`. -/
def setFeedbackSequenceNumber (fb : TransportFeedback) (feedbackSequence : Byte) :
    TransportFeedback :=
  { fb with feedbackSeq := feedbackSequence }

/-- `Clear()`. -/
def clear (fb : TransportFeedback) : TransportFeedback :=
  { fb with
    numSeqNo := 0
    lastTimestampUs := fb.getBaseTimeUs
    packets := []
    encodedChunks := []
    lastChunk := fb.lastChunk.clear
    sizeBytes := kTransportFeedbackHeaderSizeBytes }

/-! ## Adding packets -/

/-- `add_chunk_size`. -/
def addChunkSize (fb : TransportFeedback) : Nat :=
  if fb.lastChunk.empty then kChunkSizeBytes else 0

/-- `AddDeltaSize(delta_size)`; a refusal changes nothing. -/
def addDeltaSize (fb : TransportFeedback) (deltaSize : Nat) : Option TransportFeedback :=
  if fb.numSeqNo = kMaxReportedPackets then none
  else if fb.sizeBytes + deltaSize + fb.addChunkSize > kMaxSizeBytes then none
  else if fb.lastChunk.canAdd deltaSize then
    some { fb with
      sizeBytes := fb.sizeBytes + fb.addChunkSize
      lastChunk := fb.lastChunk.add deltaSize
      numSeqNo := fb.numSeqNo + 1 }
  else if fb.sizeBytes + deltaSize + kChunkSizeBytes > kMaxSizeBytes then none
  else
    some { fb with
      encodedChunks := fb.encodedChunks ++ [fb.lastChunk.emit.1]
      sizeBytes := fb.sizeBytes + kChunkSizeBytes
      lastChunk := fb.lastChunk.emit.2.add deltaSize
      numSeqNo := fb.numSeqNo + 1 }

/-- The difference of two times in ticks, rounded; `%` and `/` truncate. -/
def deltaFull (timestampUs lastTimestampUs : Int) : Int :=
  let wrapped := Int.tmod (timestampUs - lastTimestampUs) kTimeWrapPeriodUs
  let delta :=
    if wrapped > kTimeWrapPeriodUs / 2 then wrapped - kTimeWrapPeriodUs else wrapped
  Int.tdiv (delta + if delta < 0 then -(kDeltaScaleFactor / 2) else kDeltaScaleFactor / 2)
    kDeltaScaleFactor

/-- The loop that reports a gap of `count` packets. A refusal keeps what was added before it. -/
def addMissing (fb : TransportFeedback) : Nat → Bool × TransportFeedback
  | 0 => (true, fb)
  | count + 1 =>
      match fb.addDeltaSize 0 with
      | none => (false, fb)
      | some fb' => fb'.addMissing count

/-- The end of `AddReceivedPacket`, where all packets before this one are reported. -/
def addReceived (fb : TransportFeedback) (sequenceNumber delta : BitVec 16) :
    Bool × TransportFeedback :=
  let deltaSize := if isSmall delta then 1 else 2
  match fb.addDeltaSize deltaSize with
  | none => (false, fb)
  | some fb' =>
      (true, { fb' with
          packets := fb'.packets ++ [⟨sequenceNumber, delta⟩]
          lastTimestampUs := fb'.lastTimestampUs + delta.toInt * kDeltaScaleFactor
          sizeBytes := fb'.sizeBytes + deltaSize })

/-- `AddReceivedPacket(sequence_number, timestamp_us)`. -/
def addReceivedPacket (fb : TransportFeedback) (sequenceNumber : BitVec 16) (timestampUs : Int) :
    Bool × TransportFeedback :=
  let full := deltaFull timestampUs fb.lastTimestampUs
  let delta := BitVec.ofInt 16 full
  if delta.toInt ≠ full then (false, fb)
  else
    let nextSeqNo := fb.baseSeqNo + BitVec.ofNat 16 fb.numSeqNo
    if sequenceNumber ≠ nextSeqNo then
      if isNewerSequenceNumber sequenceNumber (nextSeqNo - 1#16) then
        match fb.addMissing (sequenceNumber - nextSeqNo).toNat with
        | (false, fb') => (false, fb')
        | (true, fb') => fb'.addReceived sequenceNumber delta
      else (false, fb)
    else fb.addReceived sequenceNumber delta

/-! ## Parsing -/

/-- What the chunk loop of `Parse` has read. -/
structure ChunkReader where
  deltaSizes : List Nat
  encodedChunks : List (BitVec 16)
  lastChunk : LastChunk

/-- The body of the chunk loop. -/
def ChunkReader.read (r : ChunkReader) (statusCount : Nat) (chunk : BitVec 16) : ChunkReader :=
  let lastChunk := r.lastChunk.decode chunk (statusCount - r.deltaSizes.length)
  { deltaSizes := r.deltaSizes ++ lastChunk.content
    encodedChunks := r.encodedChunks ++ [chunk]
    lastChunk := lastChunk }

/-- The chunk loop of `Parse`: what it has read, and the bytes after it unless they ran out. -/
def readChunks (statusCount : Nat) : List Byte → ChunkReader → ChunkReader × Option (List Byte)
  | hi :: lo :: rest, r =>
      if r.deltaSizes.length < statusCount then
        readChunks statusCount rest (r.read statusCount (be16 hi lo))
      else (r, some (hi :: lo :: rest))
  | rest, r => (r, if r.deltaSizes.length < statusCount then none else some rest)

/-- The delta loop of `Parse`: the packets and the bytes after them. -/
def readDeltas : List Nat → BitVec 16 → List Byte → Option (List ReceivedPacket × List Byte)
  | [], _, rest => some ([], rest)
  | deltaSize :: deltaSizes, seqNo, rest =>
      match deltaSize, rest with
      | 1, b :: rest =>
          (readDeltas deltaSizes (seqNo + 1#16) rest).map fun r =>
            (⟨seqNo, be16 0#8 b⟩ :: r.1, r.2)
      | 2, hi :: lo :: rest =>
          (readDeltas deltaSizes (seqNo + 1#16) rest).map fun r =>
            (⟨seqNo, be16 hi lo⟩ :: r.1, r.2)
      | 0, rest => readDeltas deltaSizes (seqNo + 1#16) rest
      -- too few bytes for the delta, or the reserved symbol
      | _, _ => none

/-- The part of `Parse` behind the fixed fields; `bytes` starts at index 16. -/
def parseStatuses (fb : TransportFeedback) (statusCount : Nat) (bytes : List Byte) :
    Bool × TransportFeedback :=
  if statusCount = 0 then (false, fb)
  else
    match readChunks statusCount bytes ⟨[], [], fb.lastChunk⟩ with
    | (r, none) => (false, { fb with lastChunk := r.lastChunk.clear })
    | (r, some deltas) =>
        match readDeltas r.deltaSizes fb.baseSeqNo deltas with
        | none => (false, { fb with lastChunk := r.lastChunk.clear })
        | some (packets, unread) =>
            let index := 16 + (bytes.length - unread.length)
            (true, { fb with
                numSeqNo := statusCount
                packets := packets
                lastTimestampUs := fb.lastTimestampUs + (packets.map ReceivedPacket.deltaUs).sum
                encodedChunks := r.encodedChunks.dropLast
                lastChunk := r.lastChunk
                sizeBytes := kHeaderLength + index })

/-- `Parse(packet)` on the payload behind the common header. -/
def parse (fb : TransportFeedback) : List Byte → Bool × TransportFeedback
  | s0 :: s1 :: s2 :: s3 :: m0 :: m1 :: m2 :: m3 :: b0 :: b1 :: n0 :: n1 :: t0 :: t1 :: t2 :: f ::
      c0 :: c1 :: rest =>
      let fb := clear { fb with
        senderSsrc := be32 (be16 s0 s1) (be16 s2 s3)
        mediaSsrc := be32 (be16 m0 m1) (be16 m2 m3)
        baseSeqNo := be16 b0 b1
        baseTimeTicks := (be24 t0 (be16 t1 t2)).toInt
        feedbackSeq := f }
      fb.parseStatuses (be16 n0 n1).toNat (c0 :: c1 :: rest)
  -- fewer than the 18 bytes of kMinPayloadSizeBytes
  | _ => (false, fb)

/-- `CommonHeader`, with the payload in place of its pointer and size. -/
structure CommonHeader where
  packetType : Byte
  countOrFormat : Byte
  payload : List Byte
  deriving DecidableEq, Repr

/-- `CommonHeader::Parse(buffer, size_bytes)`. -/
def CommonHeader.parse : List Byte → Option CommonHeader
  | b0 :: b1 :: b2 :: b3 :: rest =>
      let payloadSize := (be16 b2 b3).toNat * 4
      if b0 >>> 6 ≠ 2#8 then none
      else if rest.length < payloadSize then none
      else if b0 &&& 0x20#8 ≠ 0#8 then
        let paddingSize := (rest.getD (payloadSize - 1) 0#8).toNat
        if payloadSize = 0 then none
        else if paddingSize = 0 then none
        else if paddingSize > payloadSize then none
        else some ⟨b1, b0 &&& 0x1f#8, rest.take (payloadSize - paddingSize)⟩
      else some ⟨b1, b0 &&& 0x1f#8, rest.take payloadSize⟩
  | _ => none

/-- The common header announces fewer than 2^18 bytes. -/
theorem CommonHeader.length_payload_le {buffer : List Byte} {header : CommonHeader}
    (h : CommonHeader.parse buffer = some header) : header.payload.length ≤ 4 * 0xffff := by
  unfold CommonHeader.parse at h
  split at h
  · dsimp only at h
    split at h
    · cases h
    split at h
    · cases h
    split at h
    · split at h
      · cases h
      split at h
      · cases h
      split at h
      · cases h
      cases h
      rw [List.length_take]
      omega
    · cases h
      rw [List.length_take]
      omega
  · cases h

/-- `ParseFrom(buffer, length)`. -/
def parseFrom (buffer : List Byte) : Option TransportFeedback :=
  match CommonHeader.parse buffer with
  | none => none
  | some header =>
      if header.packetType ≠ kPacketType ∨ header.countOrFormat ≠ kFeedbackMessageType then none
      else
        match parse {} header.payload with
        | (true, fb) => some fb
        | (false, _) => none

/-! ## Creating -/

/-- `BlockLength()`: the size rounded up to whole words. -/
def blockLength (fb : TransportFeedback) : Nat := (fb.sizeBytes + 3) / 4 * 4

/-- `HeaderLength()`. -/
def headerLength (fb : TransportFeedback) : Nat := (fb.blockLength - kHeaderLength) / 4

/-- The bytes `Create` writes for a delta: its width follows from its value. -/
def writeDelta (delta : BitVec 16) : List Byte :=
  if isSmall delta then [lo16 delta] else write16 delta

/-- The chunks `Create` writes. -/
def chunks (fb : TransportFeedback) : List (BitVec 16) :=
  fb.encodedChunks ++ if fb.lastChunk.empty then [] else [fb.lastChunk.encodeLast]

/-- What `Create` writes after the 20 bytes of headers, without the padding. -/
def body (fb : TransportFeedback) : List Byte :=
  fb.chunks.flatMap write16 ++ fb.packets.flatMap fun p => writeDelta p.deltaTicks

/-- `CreateHeader(...)` with a length below 2^16. -/
def createHeader (countOrFormat packetType : Byte) (length : Nat) : List Byte :=
  [0x80#8 ||| countOrFormat, packetType] ++ write16 (BitVec.ofNat 16 length)

/-- The headers `Create` writes. -/
def headers (fb : TransportFeedback) : List Byte :=
  createHeader kFeedbackMessageType kPacketType fb.headerLength ++
    write32 fb.senderSsrc ++ write32 fb.mediaSsrc ++ write16 fb.baseSeqNo ++
    write16 (BitVec.ofNat 16 fb.numSeqNo) ++ write24 (BitVec.ofInt 24 fb.baseTimeTicks) ++
    [fb.feedbackSeq]

/-- The loop that writes zeros until the position is a multiple of four. -/
def padding (position : Nat) : List Byte := List.replicate ((4 - position % 4) % 4) 0#8

/-- `Create(packet, &position, max_length, nullptr)` with position 0: the bytes it writes. -/
def create (fb : TransportFeedback) (maxLength : Nat) : Option (List Byte) :=
  if fb.numSeqNo = 0 then none
  else if fb.blockLength > maxLength then none
  else
    let written := fb.headers ++ fb.body
    some (written ++ padding written.length)

/-! ## `IsConsistent` -/

/-- The statuses one decoder reads from a list of chunks. -/
def decodeChunks (decoder : LastChunk) : List (BitVec 16) → List Nat
  | [] => []
  | chunk :: chunks =>
      (decoder.decode chunk kMaxReportedPackets).content ++
        decodeChunks (decoder.decode chunk kMaxReportedPackets) chunks

/-- The loop over the decoded statuses: the packets left, the time and the size after it. -/
def checkDeltas : List Nat → BitVec 16 → List ReceivedPacket → Int → Nat →
    Option (List ReceivedPacket × Int × Nat)
  | [], _, packets, timestampUs, size => some (packets, timestampUs, size)
  | deltaSize :: deltaSizes, seqNo, packets, timestampUs, size =>
      if deltaSize > 0 then
        match packets with
        | [] => none
        | p :: packets =>
            if p.sequenceNumber ≠ seqNo then none
            else if deltaSize = 1 ∧ isSmall p.deltaTicks = false then none
            else
              checkDeltas deltaSizes (seqNo + 1#16) packets (timestampUs + p.deltaUs)
                (size + deltaSize)
      else checkDeltas deltaSizes (seqNo + 1#16) packets timestampUs (size + deltaSize)

/-- `int64_t timestamp_us = base_time_ticks_ * kBaseScaleFactor`: the product is a `size_t`. -/
def firstTimestampUs (sizeBits : Nat) (fb : TransportFeedback) : Int :=
  (BitVec.ofNat 64 (BitVec.ofInt sizeBits (fb.baseTimeTicks * kBaseScaleFactor)).toNat).toInt

/-- `IsConsistent()`. -/
def isConsistent (sizeBits : Nat) (fb : TransportFeedback) : Bool :=
  let size := kTransportFeedbackHeaderSizeBytes + kChunkSizeBytes * fb.encodedChunks.length +
    if fb.lastChunk.empty then 0 else kChunkSizeBytes
  let deltaSizes := decodeChunks LastChunk.new fb.encodedChunks ++
    if fb.lastChunk.empty then [] else fb.lastChunk.content
  if fb.numSeqNo ≠ deltaSizes.length then false
  else
    match checkDeltas deltaSizes fb.baseSeqNo fb.packets (fb.firstTimestampUs sizeBits) size with
    | some ([], timestampUs, size) =>
        decide (timestampUs = fb.lastTimestampUs ∧ fb.sizeBytes = size)
    | _ => false

end TransportFeedback
end WebRtc.Rtcp
