import WebRtc.Lib.Transition
import WebRtc.Rtcp.FeedbackReports

/-! `TransportFeedback::IsConsistent` holds after every sequence of public calls. The chunks are
read as the statuses they stand for; every call keeps the statuses in step with the packets. -/

namespace WebRtc.Rtcp.TransportFeedback

open BigEndian SequenceNumber Transition LastChunk List

variable {seqNo : BitVec 16} {packets : List ReceivedPacket} {fb fb' : TransportFeedback}
  {deltaSize statusCount : Nat} {r : ChunkReader}

/-- The statuses an object reports, from its base sequence number on. -/
def statuses (fb : TransportFeedback) : List Nat :=
  fb.encodedChunks.flatMap decodeChunk ++ fb.lastChunk.content

/-- The encoded size without the deltas. -/
def overhead (fb : TransportFeedback) : Nat :=
  kTransportFeedbackHeaderSizeBytes + kChunkSizeBytes * fb.encodedChunks.length +
    if fb.lastChunk.empty then 0 else kChunkSizeBytes

/-- `Reports seqNo deltaSizes packets`: the statuses, counted from `seqNo`, are those of the
packets, and each delta fits into the bytes its status gives it. -/
inductive Reports : BitVec 16 → List Nat → List ReceivedPacket → Prop
  | nil (seqNo : BitVec 16) : Reports seqNo [] []
  | missing {seqNo : BitVec 16} {deltaSizes : List Nat} {packets : List ReceivedPacket} :
      Reports (seqNo + 1#16) deltaSizes packets → Reports seqNo (0 :: deltaSizes) packets
  | received {seqNo : BitVec 16} {deltaSizes : List Nat} {packets : List ReceivedPacket}
      (deltaSize : Nat) (delta : BitVec 16)
      (hfits : deltaSize = 1 ∧ isSmall delta = true ∨ deltaSize = 2) :
      Reports (seqNo + 1#16) deltaSizes packets →
      Reports seqNo (deltaSize :: deltaSizes) (⟨seqNo, delta⟩ :: packets)

theorem Reports.nil_inv (h : Reports seqNo [] packets) : packets = [] := by
  cases h
  rfl

theorem add_length_cons (seqNo : BitVec 16) (deltaSize : Nat) (deltaSizes : List Nat) :
    seqNo + BitVec.ofNat 16 (deltaSize :: deltaSizes).length =
      seqNo + 1#16 + BitVec.ofNat 16 deltaSizes.length := by
  rw [length_cons, BitVec.ofNat_add]
  bv_omega

theorem Reports.append {a b : List Nat} {p q : List ReceivedPacket} (ha : Reports seqNo a p)
    (hb : Reports (seqNo + BitVec.ofNat 16 a.length) b q) : Reports seqNo (a ++ b) (p ++ q) := by
  induction ha with
  | nil seqNo =>
    have h0 : seqNo + BitVec.ofNat 16 ([] : List Nat).length = seqNo := by simp
    rwa [h0] at hb
  | missing _ ih =>
    rw [add_length_cons] at hb
    exact .missing (ih hb)
  | received deltaSize delta hfits _ ih =>
    rw [add_length_cons] at hb
    exact .received deltaSize delta hfits (ih hb)

/-- The time the deltas add up to. -/
def elapsedUs (packets : List ReceivedPacket) : Int := (packets.map ReceivedPacket.deltaUs).sum

theorem elapsedUs_append (p q : List ReceivedPacket) :
    elapsedUs (p ++ q) = elapsedUs p + elapsedUs q := by
  unfold elapsedUs
  rw [map_append, sum_append]

theorem elapsedUs_cons (p : ReceivedPacket) (ps : List ReceivedPacket) :
    elapsedUs (p :: ps) = p.deltaUs + elapsedUs ps := by
  unfold elapsedUs
  rw [map_cons, sum_cons]

theorem checkDeltas_of_reports {deltaSizes : List Nat} (h : Reports seqNo deltaSizes packets)
    (timestampUs : Int) (size : Nat) : checkDeltas deltaSizes seqNo packets timestampUs size =
      some ([], timestampUs + elapsedUs packets, size + deltaSizes.sum) := by
  induction h generalizing timestampUs size with
  | nil seqNo => simp [checkDeltas, elapsedUs]
  | missing _ ih =>
    unfold checkDeltas
    rw [if_neg (by decide), ih, sum_cons, Nat.zero_add, Nat.add_zero]
  | received deltaSize delta hfits _ ih =>
    have hpos : deltaSize > 0 := by omega
    have hok : ¬ (deltaSize = 1 ∧ isSmall delta = false) := by
      rintro ⟨h1, hlarge⟩
      rcases hfits with ⟨_, hsmall⟩ | h2
      · exact absurd (hsmall.symm.trans hlarge) (by decide)
      · omega
    unfold checkDeltas
    rw [if_pos hpos]
    dsimp only
    rw [if_neg (fun hne => hne rfl), if_neg hok, ih, elapsedUs_cons, sum_cons,
      Int.add_assoc, Nat.add_assoc]

/-! ## The invariant -/

structure Consistent (fb : TransportFeedback) : Prop where
  chunk : fb.lastChunk.WF
  last : fb.lastChunk.size = 0 → fb.encodedChunks = []
  count : fb.statuses.length = fb.numSeqNo
  count_le : fb.numSeqNo ≤ kMaxReportedPackets
  reports : Reports fb.baseSeqNo fb.statuses fb.packets
  time : fb.lastTimestampUs = fb.getBaseTimeUs + elapsedUs fb.packets
  size : fb.sizeBytes = fb.overhead + fb.statuses.sum

theorem decodeChunk_length_le (chunk : BitVec 16) : (decodeChunk chunk).length ≤ 8191 := by
  unfold decodeChunk
  split
  · rw [length_replicate, runLength_eq]
    omega
  split
  · rw [length_map, length_range]
    decide
  · rw [length_map, length_range]
    decide

/-- One decoder that reads all chunks gives the statuses of each. -/
theorem decodeChunks_eq (chunks : List (BitVec 16)) (decoder : LastChunk) :
    decodeChunks decoder chunks = chunks.flatMap decodeChunk := by
  induction chunks generalizing decoder with
  | nil => rfl
  | cons chunk chunks ih =>
    have hfull : (decodeChunk chunk).take kMaxReportedPackets = decodeChunk chunk :=
      take_of_length_le (Nat.le_trans (decodeChunk_length_le chunk) (by decide))
    rw [decodeChunks, ih, content_decode, hfull, flatMap_cons]

theorem content_of_empty {c : LastChunk} (h : c.WF) (he : c.empty) : c.content = [] := by
  have h0 : c.size = 0 := by simpa [LastChunk.empty] using he
  exact eq_nil_of_length_eq_zero ((content_length h).trans h0)

/-- What is left to check in a consistent object is the product that is the first time. -/
theorem isConsistent_of_consistent (h : fb.Consistent) (sizeBits : Nat) :
    fb.isConsistent sizeBits = true ↔ fb.firstTimestampUs sizeBits = fb.getBaseTimeUs := by
  have hstatuses : decodeChunks LastChunk.new fb.encodedChunks ++
      (if fb.lastChunk.empty then [] else fb.lastChunk.content) = fb.statuses := by
    rw [decodeChunks_eq]
    congr 1
    split
    · next he => exact (content_of_empty h.chunk he).symm
    · rfl
  have hcount : ¬ fb.numSeqNo ≠ fb.statuses.length := fun hne => hne h.count.symm
  unfold isConsistent
  rw [hstatuses, if_neg hcount, checkDeltas_of_reports h.reports]
  rw [decide_eq_true_iff, h.time]
  exact (and_iff_left h.size).trans (add_left_inj _)

/-! ## The calls -/

theorem consistent_empty (hc : fb.lastChunk.deltaSizes.length = 14) (hsize : fb.lastChunk.size = 0)
    (hsame : fb.lastChunk.allSame) (hn : fb.numSeqNo = 0) (hp : fb.packets = [])
    (he : fb.encodedChunks = []) (ht : fb.lastTimestampUs = fb.getBaseTimeUs)
    (hs : fb.sizeBytes = kTransportFeedbackHeaderSizeBytes) : fb.Consistent := by
  have hcontent : fb.lastChunk.content = [] := by simp [content, hsame, hsize]
  have hst : fb.statuses = [] := by simp [statuses, he, hcontent]
  refine ⟨?_, fun _ => he, ?_, by omega, ?_, ?_, ?_⟩
  · refine ⟨hc, ?_, ?_, ?_, ?_, ?_, ?_⟩ <;> simp [hsize, hsame]
  · rw [hst, hn]
    rfl
  · rw [hst, hp]
    exact .nil _
  · rw [ht, hp]
    simp [elapsedUs]
  · rw [hs, hst]
    simp [overhead, he, LastChunk.empty, hsize]

theorem consistent_new : Consistent {} :=
  consistent_empty rfl rfl rfl rfl rfl rfl rfl rfl

theorem consistent_clear (h : fb.lastChunk.deltaSizes.length = 14) : fb.clear.Consistent :=
  consistent_empty h rfl rfl rfl rfl rfl rfl rfl

/-- An object without statuses has no packets and no chunks. -/
theorem Consistent.of_numSeqNo_zero (h : fb.Consistent) (hn : fb.numSeqNo = 0) :
    fb.lastChunk.size = 0 ∧ fb.encodedChunks = [] ∧ fb.packets = [] := by
  have hnil : fb.statuses = [] := eq_nil_of_length_eq_zero (h.count.trans hn)
  have hsize : fb.lastChunk.size = 0 := by
    rw [← content_length h.chunk, (append_eq_nil_iff.mp hnil).2]
    rfl
  refine ⟨hsize, h.last hsize, ?_⟩
  have hr := h.reports
  rw [hnil] at hr
  exact hr.nil_inv

theorem consistent_setBase (h : fb.Consistent) (hn : fb.numSeqNo = 0) (baseSequence : BitVec 16)
    (refTimestampUs : Int) (sizeBits : Nat) :
    (fb.setBase baseSequence refTimestampUs sizeBits).Consistent := by
  obtain ⟨hsize, -, hp⟩ := h.of_numSeqNo_zero hn
  have hnil : fb.statuses = [] := eq_nil_of_length_eq_zero (h.count.trans hn)
  have hp' : (fb.setBase baseSequence refTimestampUs sizeBits).packets = [] := hp
  have hst : (fb.setBase baseSequence refTimestampUs sizeBits).statuses = [] := hnil
  refine ⟨h.chunk, h.last, h.count, h.count_le, ?_, ?_, h.size⟩
  · rw [hst, hp']
    exact .nil _
  · rw [hp']
    simp [setBase, getBaseTimeUs, elapsedUs]

/-- What a successful `AddDeltaSize` does: one more status, its delta not yet counted. -/
structure Extended (fb : TransportFeedback) (deltaSize : Nat) (fb' : TransportFeedback) : Prop
    extends Keeps fb fb' where
  chunk : fb'.lastChunk.WF
  nonempty : 0 < fb'.lastChunk.size
  statuses : fb'.statuses = fb.statuses ++ [deltaSize]
  count : fb'.numSeqNo = fb.numSeqNo + 1
  count_le : fb'.numSeqNo ≤ kMaxReportedPackets
  size : fb'.sizeBytes = fb'.overhead + fb.statuses.sum
  size_le : fb'.sizeBytes + deltaSize ≤ kMaxSizeBytes
  baseSeqNo : fb'.baseSeqNo = fb.baseSeqNo

theorem overhead_add (fb : TransportFeedback) : fb.overhead + fb.addChunkSize =
    kTransportFeedbackHeaderSizeBytes + kChunkSizeBytes * fb.encodedChunks.length +
      kChunkSizeBytes := by
  unfold overhead addChunkSize
  split <;> omega

/-- The size of an object whose last chunk is in use. -/
theorem overhead_of_nonempty (h : 0 < fb.lastChunk.size) :
    fb.overhead = kTransportFeedbackHeaderSizeBytes +
      kChunkSizeBytes * fb.encodedChunks.length + kChunkSizeBytes := by
  unfold overhead LastChunk.empty
  rw [if_neg]
  simp only [beq_iff_eq]
  omega

theorem extended_add (h : fb.Consistent) (hd : deltaSize ≤ 2)
    (hn : fb.numSeqNo < kMaxReportedPackets)
    (hfit : fb.sizeBytes + deltaSize + fb.addChunkSize ≤ kMaxSizeBytes)
    (hcan : fb.lastChunk.canAdd deltaSize) : Extended fb deltaSize { fb with
      sizeBytes := fb.sizeBytes + fb.addChunkSize
      lastChunk := fb.lastChunk.add deltaSize
      numSeqNo := fb.numSeqNo + 1 } := by
  refine ⟨⟨rfl, rfl, rfl⟩, wf_add h.chunk hd hcan, Nat.succ_pos _, ?_, rfl, hn, ?_, ?_, rfl⟩
  · unfold statuses
    rw [content_add h.chunk hd hcan, append_assoc]
  · have hadd := overhead_add fb
    have hs := h.size
    rw [overhead_of_nonempty (Nat.succ_pos _)]
    dsimp only
    omega
  · dsimp only
    omega

theorem extended_emit (h : fb.Consistent) (hd : deltaSize ≤ 2)
    (hn : fb.numSeqNo < kMaxReportedPackets) (hcan : fb.lastChunk.canAdd deltaSize = false)
    (hfit : fb.sizeBytes + deltaSize + kChunkSizeBytes ≤ kMaxSizeBytes) :
    Extended fb deltaSize { fb with
      encodedChunks := fb.encodedChunks ++ [fb.lastChunk.emit.1]
      sizeBytes := fb.sizeBytes + kChunkSizeBytes
      lastChunk := fb.lastChunk.emit.2.add deltaSize
      numSeqNo := fb.numSeqNo + 1 } := by
  have hem := emitted_emit h.chunk hcan
  have hroom := canAdd_of_room hem.room deltaSize
  refine ⟨⟨rfl, rfl, rfl⟩, wf_add hem.wf hd hroom, Nat.succ_pos _, ?_, rfl, hn, ?_, ?_, rfl⟩
  · unfold statuses
    rw [content_add hem.wf hd hroom, flatMap_append, ← hem.split]
    simp
  · -- the old last chunk was counted, the new one is counted in its place
    have hfull := size_of_not_canAdd hcan
    have hs := h.size
    rw [overhead_of_nonempty (by omega)] at hs
    rw [overhead_of_nonempty (Nat.succ_pos _)]
    dsimp only [kChunkSizeBytes] at hs ⊢
    rw [length_append, length_singleton]
    omega
  · dsimp only
    omega

theorem extended_addDeltaSize (h : fb.Consistent) (hd : deltaSize ≤ 2)
    (ha : fb.addDeltaSize deltaSize = some fb') : Extended fb deltaSize fb' := by
  have hn := h.count_le
  unfold addDeltaSize at ha
  split at ha
  · cases ha
  split at ha
  · cases ha
  split at ha
  · next hcan =>
    obtain rfl := Option.some.inj ha
    exact extended_add h hd (by omega) (by omega) hcan
  rename_i hcan
  split at ha
  · cases ha
  obtain rfl := Option.some.inj ha
  exact extended_emit h hd (by omega) (by simpa using hcan) (by omega)

/-- A status of a packet that was not received. -/
theorem Extended.consistent_missing (h : fb.Consistent) (he : Extended fb 0 fb') :
    fb'.Consistent := by
  refine ⟨he.chunk, fun h0 => absurd he.nonempty (by omega), ?_, he.count_le, ?_, ?_, ?_⟩
  · rw [he.statuses, length_append, h.count, he.count]
    rfl
  · have hr := h.reports.append (.missing (.nil _))
    rw [he.baseSeqNo, he.statuses, he.packets]
    rwa [append_nil] at hr
  · rw [he.last, h.time, he.packets]
    unfold getBaseTimeUs
    rw [he.base]
  · rw [he.size, he.statuses, sum_append]
    rfl

/-- The sequence number the next status belongs to. -/
def nextSeqNo (fb : TransportFeedback) : BitVec 16 := fb.baseSeqNo + BitVec.ofNat 16 fb.numSeqNo

/-- The bytes a delta needs. -/
def deltaWidth (delta : BitVec 16) : Nat := if isSmall delta then 1 else 2

theorem deltaWidth_le (delta : BitVec 16) : deltaWidth delta ≤ 2 := by
  unfold deltaWidth
  split <;> decide

/-- The object after a received packet has been added to `fb'`. -/
def push (fb' : TransportFeedback) (sequenceNumber delta : BitVec 16) : TransportFeedback :=
  { fb' with
    packets := fb'.packets ++ [⟨sequenceNumber, delta⟩]
    lastTimestampUs := fb'.lastTimestampUs + delta.toInt * kDeltaScaleFactor
    sizeBytes := fb'.sizeBytes + deltaWidth delta }

theorem Extended.push {n : Nat} (he : Extended fb n fb') (seqNo delta : BitVec 16) :
    (fb'.push seqNo delta).statuses = fb.statuses ++ [n] ∧
      (fb'.push seqNo delta).packets = fb.packets ++ [⟨seqNo, delta⟩] := by
  refine ⟨he.statuses, ?_⟩
  rw [← he.packets]
  rfl

theorem Extended.consistent_received (h : fb.Consistent) {delta : BitVec 16}
    (he : Extended fb (deltaWidth delta) fb') : (fb'.push fb.nextSeqNo delta).Consistent := by
  obtain ⟨hstatuses, hpackets⟩ := he.push fb.nextSeqNo delta
  refine ⟨he.chunk, fun h0 => absurd he.nonempty (Nat.not_lt.mpr (Nat.le_of_eq h0)), ?_,
    he.count_le, ?_, ?_, ?_⟩
  · rw [hstatuses, length_append, h.count]
    exact he.count.symm
  · have hfits : deltaWidth delta = 1 ∧ isSmall delta ∨ deltaWidth delta = 2 := by
      unfold deltaWidth
      split
      · exact .inl ⟨rfl, ‹_›⟩
      · exact .inr rfl
    have hr := h.reports.append (.received (deltaWidth delta) delta hfits (.nil _))
    rw [hstatuses, hpackets]
    rw [h.count] at hr
    rw [show (fb'.push fb.nextSeqNo delta).baseSeqNo = fb.baseSeqNo from he.baseSeqNo]
    exact hr
  · show fb'.lastTimestampUs + delta.toInt * kDeltaScaleFactor =
      fb'.baseTimeTicks * kBaseScaleFactor + elapsedUs (fb'.push fb.nextSeqNo delta).packets
    rw [hpackets, elapsedUs_append, he.last, h.time, he.base]
    simp only [getBaseTimeUs, elapsedUs, ReceivedPacket.deltaUs, map_cons, map_nil,
      sum_cons, sum_nil]
    omega
  · have hs := he.size
    rw [hstatuses, sum_append]
    show fb'.sizeBytes + deltaWidth delta = fb'.overhead + _
    simp only [sum_cons, sum_nil]
    omega

/-- One status that `AddReceivedPacket` adds: of a packet in a gap, or of the packet itself. -/
inductive Adds (fb : TransportFeedback) : Unit → TransportFeedback → Prop
  | missing {fb' : TransportFeedback} : fb.addDeltaSize 0 = some fb' → Adds fb () fb'
  | received {fb' : TransportFeedback} (delta : BitVec 16) :
      fb.addDeltaSize (deltaWidth delta) = some fb' → Adds fb () (fb'.push fb.nextSeqNo delta)

theorem consistent_adds (h : fb.Consistent) (ha : Adds fb () fb') : fb'.Consistent := by
  cases ha with
  | missing ha => exact (extended_addDeltaSize h (by decide) ha).consistent_missing h
  | received delta ha =>
    exact (extended_addDeltaSize h (deltaWidth_le delta) ha).consistent_received h

theorem Extended.nextSeqNo_eq (he : Extended fb deltaSize fb') :
    fb'.nextSeqNo = fb.nextSeqNo + 1#16 := by
  unfold nextSeqNo
  rw [he.baseSeqNo, he.count, BitVec.ofNat_add]
  bv_omega

/-- The gap loop adds one status after the other; if none is refused, the next sequence number
has moved over the gap. -/
theorem reaches_addMissing {start : TransportFeedback} (hr : Reaches Adds start fb)
    (h : fb.Consistent) (count : Nat) : Reaches Adds start (fb.addMissing count).2 ∧
      ((fb.addMissing count).1 →
        (fb.addMissing count).2.nextSeqNo = fb.nextSeqNo + BitVec.ofNat 16 count) := by
  induction count generalizing fb with
  | zero =>
    refine ⟨hr, fun _ => ?_⟩
    simp [addMissing]
  | succ count ih =>
    unfold addMissing
    cases ha : fb.addDeltaSize 0 with
    | none => exact ⟨hr, fun hf => absurd hf (by simp)⟩
    | some _ =>
      have he := extended_addDeltaSize h (by decide) ha
      obtain ⟨hreach, hnext⟩ := ih (hr.next () (.missing ha)) (he.consistent_missing h)
      refine ⟨hreach, fun ht => ?_⟩
      rw [hnext ht, he.nextSeqNo_eq, BitVec.ofNat_add]
      bv_omega

theorem reaches_addReceived {start : TransportFeedback} (hr : Reaches Adds start fb)
    (delta : BitVec 16) : Reaches Adds start (fb.addReceived fb.nextSeqNo delta).2 := by
  unfold addReceived
  dsimp only
  cases ha : fb.addDeltaSize (if isSmall delta = true then 1 else 2) with
  | none => exact hr
  | some _ => exact hr.next () (.received delta ha)

/-- Whether it accepts the packet or refuses it, `AddReceivedPacket` adds statuses only. -/
theorem reaches_addReceivedPacket (h : fb.Consistent) (sequenceNumber : BitVec 16)
    (timestampUs : Int) : Reaches Adds fb (fb.addReceivedPacket sequenceNumber timestampUs).2 := by
  unfold addReceivedPacket
  dsimp only
  split
  · exact .refl
  split
  · next hgap =>
    split
    · obtain ⟨hreach, hnext⟩ :=
        reaches_addMissing .refl h (sequenceNumber - fb.nextSeqNo).toNat
      split
      · next fb' hadd =>
        change fb.addMissing (sequenceNumber - fb.nextSeqNo).toNat = (false, fb') at hadd
        rw [hadd] at hreach
        exact hreach
      rename_i fb' hadd
      change fb.addMissing (sequenceNumber - fb.nextSeqNo).toNat = (true, fb') at hadd
      rw [hadd] at hreach hnext
      have hseq : fb'.nextSeqNo = sequenceNumber := by
        rw [hnext rfl, BitVec.ofNat_toNat, BitVec.setWidth_eq]
        bv_omega
      rw [← hseq]
      exact reaches_addReceived hreach _
    · exact .refl
  · next hgap =>
    have hseq : sequenceNumber = fb.nextSeqNo := not_not.mp hgap
    rw [hseq]
    exact reaches_addReceived .refl _

theorem consistent_addReceivedPacket (h : fb.Consistent) (sequenceNumber : BitVec 16)
    (timestampUs : Int) : (fb.addReceivedPacket sequenceNumber timestampUs).2.Consistent :=
  (reaches_addReceivedPacket h sequenceNumber timestampUs).invariant Consistent h
    fun _ _ _ hc ha => consistent_adds hc ha

/-! ## Parsing -/

/-- A delta fits into one byte if its high byte is zero. -/
theorem isSmall_iff {delta : BitVec 16} : isSmall delta ↔ hi16 delta = 0#8 := by
  have hhi : hi16 delta = 0#8 ↔ delta.toNat / 256 = 0 := by
    rw [← toNat_hi16]
    exact ⟨fun h => by rw [h]; rfl, fun h => BitVec.eq_of_toNat_eq h⟩
  unfold isSmall
  rw [decide_eq_true_eq, hhi, BitVec.toInt_eq_toNat_cond]
  split <;> omega

/-- What the delta loop accepts. -/
theorem readDeltas_reports {deltaSizes : List Nat} {bytes rest : List Byte}
    (h : readDeltas deltaSizes seqNo bytes = some (packets, rest)) :
    Reports seqNo deltaSizes packets ∧ (∀ d ∈ deltaSizes, d ≤ 2) ∧
      bytes.length = deltaSizes.sum + rest.length := by
  induction deltaSizes generalizing seqNo bytes packets with
  | nil =>
    obtain ⟨rfl, rfl⟩ := Prod.mk.inj (Option.some.inj h)
    exact ⟨.nil _, by simp, by simp⟩
  | cons _ deltaSizes ih =>
    unfold readDeltas at h
    split at h
    · next b bytes =>
      obtain ⟨⟨ps, r⟩, hrest, hp⟩ := Option.map_eq_some_iff.mp h
      obtain ⟨rfl, rfl⟩ := Prod.mk.inj hp
      obtain ⟨hr, hd, hl⟩ := ih hrest
      have hsmall : isSmall (be16 0#8 b) := isSmall_iff.mpr (hi16_be16 0#8 b)
      refine ⟨.received 1 _ (.inl ⟨rfl, hsmall⟩) hr, ?_, ?_⟩
      · simpa using hd
      · simp only [length_cons, sum_cons, hl]
        omega
    · next hi _ bytes =>
      obtain ⟨⟨ps, r⟩, hrest, hp⟩ := Option.map_eq_some_iff.mp h
      obtain ⟨rfl, rfl⟩ := Prod.mk.inj hp
      obtain ⟨hr, hd, hl⟩ := ih hrest
      refine ⟨.received 2 _ (.inr rfl) hr, ?_, ?_⟩
      · simpa using hd
      · simp only [length_cons, sum_cons, hl]
        omega
    · obtain ⟨hr, hd, hl⟩ := ih h
      refine ⟨.missing hr, ?_, ?_⟩
      · simpa using hd
      · rw [hl, sum_cons, Nat.zero_add]
    · cases h

/-- What the chunk loop has read when it stops: chunks that are all full, and a last one cut at
the number of statuses. -/
structure ChunksRead (statusCount : Nat) (r : ChunkReader) (full : List (BitVec 16))
    (last : BitVec 16) (before : LastChunk) : Prop where
  encodedChunks : r.encodedChunks = full ++ [last]
  room : (full.flatMap decodeChunk).length < statusCount
  lastChunk : r.lastChunk =
    before.decode last (statusCount - (full.flatMap decodeChunk).length)
  array : before.deltaSizes.length = 14
  deltaSizes : r.deltaSizes = full.flatMap decodeChunk ++ r.lastChunk.content
  count : r.deltaSizes.length = statusCount

theorem length_read_le (chunk : BitVec 16) (hlt : r.deltaSizes.length < statusCount) :
    (r.read statusCount chunk).deltaSizes.length ≤ statusCount := by
  unfold ChunkReader.read
  dsimp only
  rw [content_decode, length_append, length_take]
  omega

/-- As long as statuses are missing, the chunk just read was used whole. -/
theorem deltaSizes_read {chunk : BitVec 16}
    (hd : r.deltaSizes = r.encodedChunks.flatMap decodeChunk)
    (hmore : (r.read statusCount chunk).deltaSizes.length < statusCount) :
    (r.read statusCount chunk).deltaSizes =
      (r.read statusCount chunk).encodedChunks.flatMap decodeChunk := by
  unfold ChunkReader.read at hmore ⊢
  dsimp only at hmore ⊢
  rw [content_decode, length_append, length_take] at hmore
  rw [content_decode, take_of_length_le (by omega), flatMap_append, hd]
  simp

theorem chunksRead_read {chunk : BitVec 16} (harray : r.lastChunk.deltaSizes.length = 14)
    (hd : r.deltaSizes = r.encodedChunks.flatMap decodeChunk)
    (hlt : r.deltaSizes.length < statusCount)
    (hdone : ¬ (r.read statusCount chunk).deltaSizes.length < statusCount) :
    ChunksRead statusCount (r.read statusCount chunk) r.encodedChunks chunk r.lastChunk := by
  have hle := length_read_le chunk hlt
  refine ⟨rfl, by rw [← hd]; exact hlt, ?_, harray, ?_, by omega⟩
  · rw [← hd]
    rfl
  · rw [← hd]
    rfl

theorem readChunks_done (bytes : List Byte) (hdone : ¬ r.deltaSizes.length < statusCount) :
    readChunks statusCount bytes r = (r, some bytes) := by
  unfold readChunks
  split
  · rw [if_neg hdone]
  · rw [if_neg hdone]

/-- The chunk loop, entered with statuses missing. -/
theorem chunksRead_readChunks (statusCount : Nat) (bytes : List Byte) (r : ChunkReader)
    (harray : r.lastChunk.deltaSizes.length = 14)
    (hd : r.deltaSizes = r.encodedChunks.flatMap decodeChunk)
    (hlt : r.deltaSizes.length < statusCount) :
    (readChunks statusCount bytes r).1.lastChunk.deltaSizes.length = 14 ∧
      ∀ rest, (readChunks statusCount bytes r).2 = some rest → ∃ full last before,
          ChunksRead statusCount (readChunks statusCount bytes r).1 full last before ∧
          bytes.length + 2 * r.encodedChunks.length = 2 * (full.length + 1) + rest.length := by
  fun_induction readChunks statusCount bytes r with
  | case1 hi lo bytes r hmore ih =>
    have hchunks : (r.read statusCount (be16 hi lo)).encodedChunks.length =
        r.encodedChunks.length + 1 := by simp [ChunkReader.read]
    have harray' : (r.read statusCount (be16 hi lo)).lastChunk.deltaSizes.length = 14 :=
      decode_length harray _ _
    by_cases hdone : (r.read statusCount (be16 hi lo)).deltaSizes.length < statusCount
    · obtain ⟨hlen, hsome⟩ := ih harray' (deltaSizes_read hd hdone) hdone
      refine ⟨hlen, fun rest hrest => ?_⟩
      obtain ⟨full, last, before, hread, hcount⟩ := hsome rest hrest
      refine ⟨full, last, before, hread, ?_⟩
      simp only [length_cons]
      omega
    · rw [readChunks_done bytes hdone]
      refine ⟨harray', fun rest hrest => ?_⟩
      obtain rfl := Option.some.inj hrest
      refine ⟨_, _, _, chunksRead_read harray hd hlt hdone, ?_⟩
      simp only [length_cons]
      omega
  | case2 hi lo bytes r hdone => exact absurd hlt hdone
  | case3 bytes r hshort =>
    refine ⟨harray, fun rest hrest => ?_⟩
    rw [if_pos hlt] at hrest
    exact absurd hrest (by simp)

/-- What a `Parse` that returns true leaves. -/
structure Parsed (base : TransportFeedback) (statusCount : Nat) (bytes : List Byte)
    (fb : TransportFeedback) : Prop where
  consistent : fb.Consistent
  count : fb.numSeqNo = statusCount
  pos : 0 < statusCount
  size_le : fb.sizeBytes ≤ kTransportFeedbackHeaderSizeBytes + bytes.length
  baseSeqNo : fb.baseSeqNo = base.baseSeqNo
  baseTimeTicks : fb.baseTimeTicks = base.baseTimeTicks

theorem parsed_of_read {base : TransportFeedback} {bytes : List Byte} {full : List (BitVec 16)}
    {last : BitVec 16} {before : LastChunk} {deltas unread : List Byte}
    (hcount : statusCount ≤ kMaxReportedPackets) (hread : ChunksRead statusCount r full last before)
    (hchunks : bytes.length = 2 * (full.length + 1) + deltas.length)
    (hdeltas : readDeltas r.deltaSizes base.baseSeqNo deltas = some (packets, unread)) :
    Parsed base statusCount bytes { base.clear with
      numSeqNo := statusCount
      packets := packets
      lastTimestampUs := base.clear.lastTimestampUs + elapsedUs packets
      encodedChunks := r.encodedChunks.dropLast
      lastChunk := r.lastChunk
      sizeBytes := kHeaderLength + (16 + (bytes.length - unread.length)) } := by
  obtain ⟨hreports, hsym, hlen⟩ := readDeltas_reports hdeltas
  have hroom := hread.room
  have hchunk : r.lastChunk.WF := by
    rw [hread.lastChunk]
    refine wf_decode hread.array fun d hd => hsym d ?_
    rw [hread.deltaSizes, hread.lastChunk, content_decode]
    exact mem_append_right _ hd
  have hfull : r.encodedChunks.dropLast = full := by
    rw [hread.encodedChunks, dropLast_concat]
  have hsize : 0 < r.lastChunk.size := by
    have hc := congrArg length hread.deltaSizes
    rw [length_append, content_length hchunk, hread.count] at hc
    omega
  -- the statuses of the new object are those the chunk loop has collected
  have hst : ∀ fb : TransportFeedback, fb.encodedChunks = full → fb.lastChunk = r.lastChunk →
      fb.statuses = r.deltaSizes := by
    intro fb he hl
    unfold statuses
    rw [he, hl, hread.deltaSizes]
  rw [hfull]
  refine ⟨⟨hchunk, fun h0 => absurd hsize (Nat.not_lt.mpr (Nat.le_of_eq h0)), ?_, hcount, ?_,
    ?_, ?_⟩, rfl, by omega, ?_, rfl, rfl⟩
  · rw [hst _ rfl rfl]
    exact hread.count
  · rw [hst _ rfl rfl]
    exact hreports
  · rfl
  · rw [hst _ rfl rfl, overhead_of_nonempty hsize]
    simp only [kHeaderLength, kTransportFeedbackHeaderSizeBytes, kChunkSizeBytes]
    omega
  · simp only [kHeaderLength, kTransportFeedbackHeaderSizeBytes]
    omega

/-- `Parse` behind the fixed fields fails with a cleared object, or has read one. -/
theorem parseStatuses_cases (base : TransportFeedback)
    (harray : base.lastChunk.deltaSizes.length = 14) (hcount : statusCount ≤ kMaxReportedPackets)
    (bytes : List Byte) : ((base.clear.parseStatuses statusCount bytes).1 = false ∧
      (base.clear.parseStatuses statusCount bytes).2.Consistent) ∨
    ((base.clear.parseStatuses statusCount bytes).1 ∧
      Parsed base statusCount bytes (base.clear.parseStatuses statusCount bytes).2) := by
  have hfail : ∀ c : LastChunk, c.deltaSizes.length = 14 →
      Consistent { base.clear with lastChunk := c.clear } :=
    fun c hc => consistent_empty hc rfl rfl rfl rfl rfl rfl rfl
  unfold parseStatuses
  split
  · exact .inl ⟨rfl, consistent_clear harray⟩
  rename_i hpos
  obtain ⟨hlen, hsome⟩ := chunksRead_readChunks statusCount bytes ⟨[], [], base.clear.lastChunk⟩
    harray rfl (Nat.pos_of_ne_zero hpos)
  generalize readChunks statusCount bytes ⟨[], [], base.clear.lastChunk⟩ = out at hlen hsome ⊢
  obtain ⟨r, o⟩ := out
  cases o with
  | none => exact .inl ⟨rfl, hfail _ hlen⟩
  | some deltas =>
    obtain ⟨_, _, _, hread, hchunks⟩ := hsome deltas rfl
    dsimp only
    cases hd : readDeltas r.deltaSizes base.clear.baseSeqNo deltas with
    | none => exact .inl ⟨rfl, hfail _ hlen⟩
    | some out =>
      exact .inr ⟨rfl, parsed_of_read hcount hread hchunks hd⟩

/-- `Parse` refuses a short payload, or goes on behind the fixed fields. -/
theorem parse_cases (fb : TransportFeedback) (payload : List Byte) :
    fb.parse payload = (false, fb) ∨ ∃ (base : TransportFeedback) (count : BitVec 16)
      (ticks : BitVec 24) (bytes : List Byte),
        fb.parse payload = base.clear.parseStatuses count.toNat bytes ∧
        base.lastChunk = fb.lastChunk ∧ base.baseTimeTicks = ticks.toInt ∧
        payload.length = 16 + bytes.length := by
  unfold parse
  split
  · exact .inr ⟨_, _, _, _, rfl, rfl, rfl, by simp only [length_cons]; omega⟩
  · exact .inl rfl

theorem consistent_parse (h : fb.Consistent) (payload : List Byte) :
    (fb.parse payload).2.Consistent := by
  obtain heq | ⟨base, count, _, bytes, heq, hlast, -⟩ := fb.parse_cases payload <;> rw [heq]
  · exact h
  rcases parseStatuses_cases base (hlast ▸ h.chunk.length) (Nat.le_of_lt_succ count.isLt) bytes with
    ⟨-, hc⟩ | ⟨-, hp⟩
  · exact hc
  · exact hp.consistent

/-! ## Runs -/

/-- The public calls that change an object. -/
inductive Call
  | setBase (baseSequence : BitVec 16) (refTimestampUs : Int)
  | setFeedbackSequenceNumber (feedbackSequence : Byte)
  | addReceivedPacket (sequenceNumber : BitVec 16) (timestampUs : Int)
  | parse (payload : List Byte)

section

variable (sizeBits : Nat)

/-- The object after a call. -/
def Call.apply (fb : TransportFeedback) : Call → TransportFeedback
  | .setBase baseSequence refTimestampUs => fb.setBase baseSequence refTimestampUs sizeBits
  | .setFeedbackSequenceNumber feedbackSequence => fb.setFeedbackSequenceNumber feedbackSequence
  | .addReceivedPacket sequenceNumber timestampUs =>
      (fb.addReceivedPacket sequenceNumber timestampUs).2
  | .parse payload => (fb.parse payload).2

/-- A call as the interface allows it: the base is set while the object is empty. -/
def Calls (fb : TransportFeedback) (call : Call) (fb' : TransportFeedback) : Prop :=
  (∀ baseSequence refTimestampUs, call = .setBase baseSequence refTimestampUs → fb.numSeqNo = 0) ∧
    fb' = call.apply sizeBits fb

theorem consistent_calls {call : Call} (h : fb.Consistent) (hc : Calls sizeBits fb call fb') :
    fb'.Consistent := by
  obtain ⟨hempty, rfl⟩ := hc
  cases call with
  | setBase baseSequence refTimestampUs =>
    exact consistent_setBase h (hempty _ _ rfl) baseSequence refTimestampUs sizeBits
  | setFeedbackSequenceNumber _ =>
    exact ⟨h.chunk, h.last, h.count, h.count_le, h.reports, h.time, h.size⟩
  | addReceivedPacket sequenceNumber timestampUs =>
    exact consistent_addReceivedPacket h sequenceNumber timestampUs
  | parse payload => exact consistent_parse h payload

omit sizeBits in
/-- `Parse` reads 24 bits of base ticks. -/
theorem parse_base (payload : List Byte) : (fb.parse payload).2.baseTimeTicks = fb.baseTimeTicks ∨
    ∃ ticks : BitVec 24, (fb.parse payload).2.baseTimeTicks = ticks.toInt := by
  have hstatuses (fb : TransportFeedback) (n : Nat) (bytes : List Byte) :
      (fb.parseStatuses n bytes).2.baseTimeTicks = fb.baseTimeTicks := by
    unfold parseStatuses
    split
    · rfl
    split
    · rfl
    split <;> rfl
  obtain heq | ⟨_, _, ticks, _, heq, -, hticks, -⟩ := fb.parse_cases payload <;> rw [heq]
  · exact .inl rfl
  · exact .inr ⟨ticks, (hstatuses ..).trans hticks⟩

/-- The base ticks are those of an `int32_t`. -/
def Narrow (fb : TransportFeedback) : Prop :=
  -2 ^ 31 ≤ fb.baseTimeTicks ∧ fb.baseTimeTicks < 2 ^ 31

theorem narrow_calls {call : Call} (h : fb.Narrow) (hc : Calls sizeBits fb call fb') :
    fb'.Narrow := by
  obtain ⟨-, rfl⟩ := hc
  cases call with
  | setBase baseSequence refTimestampUs =>
    unfold Narrow Call.apply setBase baseTicks
    dsimp only
    split
    · exact ⟨BitVec.le_toInt _, BitVec.toInt_lt⟩
    · exact ⟨BitVec.le_toInt _, BitVec.toInt_lt⟩
  | setFeedbackSequenceNumber _ => exact h
  | addReceivedPacket sequenceNumber timestampUs =>
    have hbase : (fb.addReceivedPacket sequenceNumber timestampUs).2.baseTimeTicks =
        fb.baseTimeTicks := by
      rcases addReceivedPacket_cases rfl with ⟨-, hkeeps⟩ | ⟨-, -, happends⟩
      · exact hkeeps.base
      · exact happends.base
    unfold Narrow Call.apply
    rw [hbase]
    exact h
  | parse payload =>
    unfold Narrow Call.apply
    rcases parse_base payload with hbase | ⟨ticks, hbase⟩ <;> rw [hbase]
    · exact h
    · have hle := ticks.le_toInt
      have hlt := ticks.toInt_lt
      omega

end

/-- A product of 32 bits, read as an `int64_t`. -/
theorem toInt_product (product : Int) :
    (BitVec.ofNat 64 (BitVec.ofInt 32 product).toNat).toInt = product % 2 ^ 32 := by
  have hsmall : (BitVec.ofInt 32 product).toNat < 2 ^ 32 := (BitVec.ofInt 32 product).isLt
  rw [BitVec.toInt_eq_toNat_of_lt] <;> rw [BitVec.toNat_ofNat, Nat.mod_eq_of_lt (by omega)]
  · rw [BitVec.toNat_ofInt]
    exact Int.toNat_of_nonneg (Int.emod_nonneg _ (by decide))
  · omega

/-- **What `IsConsistent` sees.** Every object that a sequence of public calls leads to is
consistent, and `IsConsistent` says so exactly if the product of the base time does not wrap: always
where `size_t` has 64 bits, and below 2^32 where it has 32. -/
theorem isConsistent_iff (sizeBits : Nat) (hbits : sizeBits = 32 ∨ sizeBits = 64)
    (fb : TransportFeedback) (hr : Reaches (Calls sizeBits) {} fb) :
    fb.Consistent ∧ (fb.isConsistent sizeBits = true ↔ sizeBits = 64 ∨
      0 ≤ fb.baseTimeTicks ∧ fb.baseTimeTicks * kBaseScaleFactor < 2 ^ 32) := by
  have hconsistent := hr.invariant Consistent consistent_new
    fun _ _ _ h hc => consistent_calls sizeBits h hc
  obtain ⟨hle, hlt⟩ := hr.invariant Narrow ⟨by decide, by decide⟩
    fun _ _ _ h hc => narrow_calls sizeBits h hc
  refine ⟨hconsistent, ?_⟩
  have hk : kBaseScaleFactor = 64000 := rfl
  rw [isConsistent_of_consistent hconsistent, firstTimestampUs, getBaseTimeUs, hk]
  generalize fb.baseTimeTicks = ticks at *
  rcases hbits with rfl | rfl
  · rw [toInt_product]
    omega
  · simp only [true_or, iff_true, BitVec.ofNat_toNat, BitVec.setWidth_eq, BitVec.toInt_ofInt]
    apply Int.bmod_eq_of_le <;> omega

/-- A one-bit chunk is parsed and cut after three statuses; adding a packet after a gap goes on
from there. -/
theorem isConsistent_parse_then_add : (Call.apply 32
      (Call.apply 32 {} (.parse [0, 0, 0, 0, 0, 0, 0, 0, 0, 5, 0, 3, 0, 0, 0, 1, 0xa8, 0, 4, 7]))
      (.addReceivedPacket 10 3000)).isConsistent 32 = true :=
  (isConsistent_iff 32 (.inl rfl) _ ((Reaches.refl.next (.parse _) ⟨(fun _ _ h => nomatch h),
    rfl⟩).next (.addReceivedPacket 10 3000) ⟨(fun _ _ h => nomatch h), rfl⟩)).2.mpr
      (.inr (by decide +kernel))

/-- A base time of 67109 ticks is 8704 microseconds in a product of 32 bits. -/
theorem isConsistent_wraps :
    let fb := Call.apply 32 {} (.setBase 0#16 4294976000)
    Reaches (Calls 32) {} fb ∧ fb.isConsistent 32 = false :=
  ⟨Reaches.refl.next (.setBase 0#16 4294976000) ⟨fun _ _ _ => rfl, rfl⟩, by decide +kernel⟩

end WebRtc.Rtcp.TransportFeedback
