import WebRtc.Rtcp.FeedbackConsistency

/-! `Create` followed by `ParseFrom`. What is read back depends on the deltas only: the headers and
the chunks always come back, and the deltas do if each is written in the bytes its status gives
it. -/

namespace WebRtc.Rtcp.TransportFeedback

open BigEndian SequenceNumber Transition LastChunk List Option

variable {fb : TransportFeedback} {delta seqNo : BitVec 16} {bytes : List Byte}
  {deltaSizes : List Nat} {packets : List ReceivedPacket}

/-! ## Chunks -/

/-- The chunk loop uses every chunk whole as long as statuses are missing after it. -/
theorem readChunks_full (statusCount : Nat) (full : List (BitVec 16)) (bytes : List Byte)
    (r : ChunkReader)
    (hlt : r.deltaSizes.length + (full.flatMap decodeChunk).length < statusCount) :
    ∃ r', readChunks statusCount (full.flatMap write16 ++ bytes) r =
        readChunks statusCount bytes r' ∧
      r'.deltaSizes = r.deltaSizes ++ full.flatMap decodeChunk := by
  induction full generalizing r with
  | nil => exact ⟨r, rfl, by simp⟩
  | cons chunk full ih =>
    rw [flatMap_cons, length_append] at hlt
    have hread : (r.read statusCount chunk).deltaSizes = r.deltaSizes ++ decodeChunk chunk := by
      unfold ChunkReader.read
      dsimp only
      rw [content_decode, take_of_length_le (by omega)]
    obtain ⟨r', hr, hd⟩ := ih (r.read statusCount chunk) (by
      rw [hread, length_append]
      omega)
    refine ⟨r', ?_, ?_⟩
    · rw [← hr]
      show readChunks statusCount (hi16 chunk :: lo16 chunk :: (full.flatMap write16 ++ bytes)) r = _
      rw [readChunks, if_pos (by omega), be16_hi_lo]
    · rw [hd, hread, flatMap_cons, append_assoc]

theorem chunks_eq (hs : 0 < fb.lastChunk.size) :
    fb.chunks = fb.encodedChunks ++ [fb.lastChunk.encodeLast] := by
  unfold chunks LastChunk.empty
  rw [if_neg]
  simp only [beq_iff_eq]
  omega

theorem Consistent.lastChunk_pos (h : fb.Consistent) (hn : 0 < fb.numSeqNo) :
    0 < fb.lastChunk.size := by
  rcases Nat.eq_zero_or_pos fb.lastChunk.size with h0 | hpos
  · have hst : fb.statuses.length = 0 := by
      unfold statuses
      rw [h.last h0, length_append, content_length h.chunk, h0]
      rfl
    rw [h.count] at hst
    omega
  · exact hpos

/-- The chunks `Create` writes are read back as the statuses they were written for. -/
theorem readChunks_chunks (h : fb.Consistent) (hn : 0 < fb.numSeqNo) (bytes : List Byte)
    (before : LastChunk) :
    ∃ r, readChunks fb.numSeqNo (fb.chunks.flatMap write16 ++ bytes) ⟨[], [], before⟩ =
        (r, some bytes) ∧ r.deltaSizes = fb.statuses := by
  have hpos := h.lastChunk_pos hn
  have hcount := h.count
  unfold statuses at hcount
  rw [length_append, content_length h.chunk] at hcount
  obtain ⟨r, hr, hd⟩ := readChunks_full fb.numSeqNo fb.encodedChunks
    (write16 fb.lastChunk.encodeLast ++ bytes) ⟨[], [], before⟩ (by
      show 0 + _ < _
      omega)
  rw [nil_append] at hd
  have hread : (r.read fb.numSeqNo fb.lastChunk.encodeLast).deltaSizes = fb.statuses := by
    unfold ChunkReader.read statuses
    dsimp only
    rw [content_decode, hd, show fb.numSeqNo - (fb.encodedChunks.flatMap decodeChunk).length =
      fb.lastChunk.size by omega, take_decodeChunk_encodeLast h.chunk hpos]
  refine ⟨r.read fb.numSeqNo fb.lastChunk.encodeLast, ?_, hread⟩
  rw [chunks_eq hpos, flatMap_append, append_assoc]
  have hlast : [fb.lastChunk.encodeLast].flatMap write16 = write16 fb.lastChunk.encodeLast := by simp
  rw [hlast, hr]
  show readChunks fb.numSeqNo (hi16 _ :: lo16 _ :: bytes) r = _
  rw [readChunks, if_pos (by rw [hd]; omega), be16_hi_lo,
    readChunks_done bytes (by rw [hread, h.count]; omega)]

/-! ## Headers -/

/-- The bytes of the deltas `Create` writes. -/
def deltaBytes (packets : List ReceivedPacket) : List Byte :=
  packets.flatMap fun p => writeDelta p.deltaTicks

/-- All bytes `Create` writes. -/
def written (fb : TransportFeedback) : List Byte :=
  fb.headers ++ fb.body ++ padding (fb.headers ++ fb.body).length

/-- What follows the chunks. -/
def deltaArea (fb : TransportFeedback) : List Byte :=
  deltaBytes fb.packets ++ padding (fb.headers ++ fb.body).length

theorem create_eq (hn : 0 < fb.numSeqNo) {maxLength : Nat} (hm : fb.blockLength ≤ maxLength) :
    fb.create maxLength = some fb.written := by
  unfold create
  rw [if_neg (by omega), if_neg (by omega)]
  rfl

/-- What follows the common header. -/
def payload (fb : TransportFeedback) : List Byte :=
  write32 fb.senderSsrc ++ write32 fb.mediaSsrc ++ write16 fb.baseSeqNo ++
    write16 (BitVec.ofNat 16 fb.numSeqNo) ++ write24 (BitVec.ofInt 24 fb.baseTimeTicks) ++
    [fb.feedbackSeq] ++ (fb.chunks.flatMap write16 ++ fb.deltaArea)

theorem written_eq (fb : TransportFeedback) :
    fb.written = createHeader kFeedbackMessageType kPacketType fb.headerLength ++ fb.payload := by
  unfold written payload deltaArea deltaBytes
  unfold headers body
  simp only [append_assoc]

theorem length_written (fb : TransportFeedback) :
    fb.written.length = (fb.headers.length + fb.body.length + 3) / 4 * 4 := by
  unfold written padding
  rw [length_append, length_append, length_replicate]
  omega

theorem length_headers (fb : TransportFeedback) : fb.headers.length = 20 := rfl

/-- A written packet of the announced length is taken apart as it was put together. -/
theorem commonHeader_written (hs : fb.sizeBytes ≤ kMaxSizeBytes)
    (hlen : fb.written.length = fb.blockLength) :
    CommonHeader.parse fb.written = some ⟨kPacketType, kFeedbackMessageType, fb.payload⟩ := by
  have hs' : fb.sizeBytes ≤ 262144 := hs
  have hlow := length_written fb
  have hpayload : fb.payload.length + 4 = fb.blockLength := by
    rw [← hlen, written_eq]
    show _ = (_ :: _ :: _ :: _ :: fb.payload).length
    simp only [length_cons]
  have hheader : fb.headerLength * 4 = fb.payload.length ∧ fb.headerLength < 65536 := by
    have hb : fb.blockLength ≤ 262144 := by
      unfold blockLength
      omega
    unfold headerLength kHeaderLength
    omega
  have hsize : (BitVec.ofNat 16 fb.headerLength).toNat * 4 = fb.payload.length := by
    rw [BitVec.toNat_ofNat, Nat.mod_eq_of_lt hheader.2, hheader.1]
  rw [written_eq]
  show CommonHeader.parse ((0x80#8 ||| kFeedbackMessageType) :: kPacketType ::
    hi16 (BitVec.ofNat 16 fb.headerLength) :: lo16 (BitVec.ofNat 16 fb.headerLength) ::
      fb.payload) = _
  unfold CommonHeader.parse
  dsimp only
  rw [be16_hi_lo, hsize, if_neg (by decide), if_neg (by omega), if_neg (by decide), take_length]
  rfl

/-- `Parse` reads the fixed fields back; the reference time comes back as 24 signed bits. -/
theorem parse_payload (hn : fb.numSeqNo ≤ kMaxReportedPackets) {chunk : BitVec 16}
    {chunks : List (BitVec 16)} (hc : fb.chunks = chunk :: chunks) :
    ∃ base : TransportFeedback, parse {} fb.payload =
        base.parseStatuses fb.numSeqNo (fb.chunks.flatMap write16 ++ fb.deltaArea) ∧
      base.baseSeqNo = fb.baseSeqNo ∧
      base.baseTimeTicks = (BitVec.ofInt 24 fb.baseTimeTicks).toInt ∧
      base.feedbackSeq = fb.feedbackSeq := by
  have hnum : (BitVec.ofNat 16 fb.numSeqNo).toNat = fb.numSeqNo := by
    exact Nat.mod_eq_of_lt (Nat.lt_succ_of_le hn)
  refine ⟨clear {
    senderSsrc := fb.senderSsrc
    mediaSsrc := fb.mediaSsrc
    baseSeqNo := fb.baseSeqNo
    baseTimeTicks := (BitVec.ofInt 24 fb.baseTimeTicks).toInt
    feedbackSeq := fb.feedbackSeq }, ?_, rfl, rfl, rfl⟩
  unfold payload
  rw [hc]
  unfold parse
  simp only [flatMap_cons, write16, write24, write32, cons_append, nil_append,
    be16_hi_lo, be24_hi_lo, be32_hi_lo, hnum]

/-- `fb'` has the headers of `fb`, as far as they fit on the wire. -/
structure SameHeaders (fb fb' : TransportFeedback) : Prop where
  baseSeqNo : fb'.baseSeqNo = fb.baseSeqNo
  baseTimeTicks : fb'.baseTimeTicks = (BitVec.ofInt 24 fb.baseTimeTicks).toInt
  feedbackSeq : fb'.feedbackSeq = fb.feedbackSeq
  numSeqNo : fb'.numSeqNo = fb.numSeqNo

/-- **What is read back**: the headers, and the packets that the delta loop reads from the delta
area. -/
theorem parseFrom_written (h : fb.Consistent) (hn : 0 < fb.numSeqNo)
    (hs : fb.sizeBytes ≤ kMaxSizeBytes) (hlen : fb.written.length = fb.blockLength) :
    (∀ fb', parseFrom fb.written = some fb' → SameHeaders fb fb') ∧
      ∀ packets, (∃ fb', parseFrom fb.written = some fb' ∧ fb'.packets = packets) ↔
        ∃ unread, readDeltas fb.statuses fb.baseSeqNo fb.deltaArea = some (packets, unread) := by
  have hpos := h.lastChunk_pos hn
  have hne : fb.chunks ≠ [] := by simp [chunks_eq hpos]
  obtain ⟨chunk, chunks, hc⟩ := exists_cons_of_ne_nil hne
  obtain ⟨base, hparse, hseq, hticks, hfeedback⟩ := parse_payload h.count_le hc
  obtain ⟨r, hr, hd⟩ := readChunks_chunks h hn fb.deltaArea base.lastChunk
  unfold parseStatuses at hparse
  rw [if_neg (by omega), hr] at hparse
  dsimp only at hparse
  rw [hd, hseq] at hparse
  unfold parseFrom
  rw [commonHeader_written hs hlen]
  dsimp only
  rw [if_neg (by simp), hparse]
  cases hread : readDeltas fb.statuses fb.baseSeqNo fb.deltaArea with
  | none => simp
  | some out =>
    obtain ⟨_, unread⟩ := out
    refine ⟨fun fb' hfb => ?_, fun packets => ⟨?_, ?_⟩⟩
    · cases hfb
      exact ⟨rfl, hticks, hfeedback, rfl⟩
    · rintro ⟨fb', hfb, rfl⟩
      cases hfb
      exact ⟨unread, rfl⟩
    rintro ⟨_, hout⟩
    cases hout
    exact ⟨_, rfl, rfl⟩

/-! ## Deltas -/

theorem writeDelta_small (h : isSmall delta) : writeDelta delta = [lo16 delta] := if_pos h

theorem writeDelta_large (h : ¬ isSmall delta) :
    writeDelta delta = [hi16 delta, lo16 delta] := if_neg h

theorem length_writeDelta (delta : BitVec 16) : (writeDelta delta).length = deltaWidth delta := by
  unfold writeDelta deltaWidth
  split <;> rfl

theorem eq_of_small (h : isSmall delta) : be16 0#8 (lo16 delta) = delta := by
  rw [← isSmall_iff.mp h, be16_hi_lo]

/-- A delta that is read in the bytes it was written in is read back. -/
theorem readDeltas_cons (delta seqNo : BitVec 16) (deltaSizes : List Nat) (bytes : List Byte) :
    readDeltas (deltaWidth delta :: deltaSizes) seqNo (writeDelta delta ++ bytes) =
      (readDeltas deltaSizes (seqNo + 1#16) bytes).map fun r => (⟨seqNo, delta⟩ :: r.1, r.2) := by
  by_cases hs : isSmall delta
  · rw [writeDelta_small hs, show deltaWidth delta = 1 from if_pos hs]
    show (readDeltas deltaSizes (seqNo + 1#16) bytes).map _ = _
    rw [eq_of_small hs]
  rw [writeDelta_large hs, show deltaWidth delta = 2 from if_neg hs]
  show (readDeltas deltaSizes (seqNo + 1#16) bytes).map _ = _
  rw [be16_hi_lo]

/-- The packets from the first one on whose status gives its delta more bytes than it needs. -/
def wideSuffix : List Nat → List ReceivedPacket → List ReceivedPacket
  | [], _ => []
  | 0 :: deltaSizes, packets => wideSuffix deltaSizes packets
  | _ :: _, [] => []
  | deltaSize :: deltaSizes, p :: packets =>
      if deltaSize = deltaWidth p.deltaTicks then wideSuffix deltaSizes packets else p :: packets

theorem map_cons_eq_some {p q : ReceivedPacket} {o : Option (List ReceivedPacket × List Byte)} :
    (∃ unread, (o.map fun r => (p :: r.1, r.2)) = some (q :: packets, unread)) ↔
      p = q ∧ ∃ unread, o = some (packets, unread) := by
  constructor
  · rintro ⟨unread, h⟩
    obtain ⟨⟨_, r⟩, rfl, hout⟩ := map_eq_some_iff.mp h
    obtain ⟨hps, rfl⟩ := Prod.mk.inj hout
    obtain ⟨rfl, rfl⟩ := cons.inj hps
    exact ⟨rfl, r, rfl⟩
  · rintro ⟨rfl, unread, rfl⟩
    exact ⟨unread, rfl⟩

/-- A delta that starts with a zero byte is written in one byte, and is zero. -/
theorem zero_of_writeDelta {b : Byte} {rest : List Byte} (hb : b = 0#8)
    (h : writeDelta delta ++ rest = b :: bytes) : delta = 0#16 ∧ rest = bytes := by
  by_cases hs : isSmall delta
  · rw [writeDelta_small hs, singleton_append, hb] at h
    obtain ⟨hlo, hrest⟩ := cons.inj h
    have hd := eq_of_small hs
    rw [hlo] at hd
    exact ⟨hd.symm, hrest⟩
  · rw [writeDelta_large hs, hb] at h
    exact absurd (isSmall_iff.mpr (cons.inj h).1) hs

/-- A reader that is ahead of the writer, and has met zeros only, finds each delta as it was
written only if all are zero. -/
theorem zero_of_readDeltas_ahead (h : Reports seqNo deltaSizes packets) {tail unread : List Byte}
    (passed : List Byte) (hne : passed ≠ []) (hzero : ∀ b ∈ passed, b = 0#8)
    (hbytes : deltaBytes packets ++ tail = passed ++ bytes)
    (hread : readDeltas deltaSizes seqNo bytes = some (packets, unread)) :
    ∀ p ∈ packets, p.deltaTicks = 0#16 := by
  induction h generalizing passed bytes unread with
  | nil => simp
  | missing _ ih => exact ih passed hne hzero hbytes hread
  | @received seqNo deltaSizes packets _ delta hfits _ ih =>
    obtain ⟨b, passed, rfl⟩ := exists_cons_of_ne_nil hne
    have hpassed : ∀ b ∈ passed, b = 0#8 := fun b hb => hzero b (.tail _ hb)
    have hsplit : writeDelta delta ++ (deltaBytes packets ++ tail) = b :: (passed ++ bytes) := by
      rw [← append_assoc]
      exact hbytes
    obtain ⟨rfl, hrest⟩ := zero_of_writeDelta (hzero b (.head _)) hsplit
    -- the reader takes one or two more bytes, which have to be zero
    have hstep : ∀ (more bytes' : List Byte), more ≠ [] → (∀ b ∈ more, b = 0#8) →
        bytes = more ++ bytes' → ∀ {unread},
        readDeltas deltaSizes (seqNo + 1#16) bytes' = some (packets, unread) →
        ∀ p ∈ packets, p.deltaTicks = 0#16 := by
      intro more bytes' hmore hz hb _ hr
      refine ih (passed ++ more) (by simp [hmore]) ?_ ?_ hr
      · intro b hb
        rcases mem_append.mp hb with hb | hb
        · exact hpassed b hb
        · exact hz b hb
      · rw [hrest, hb, append_assoc]
    refine forall_mem_cons.mpr ⟨rfl, ?_⟩
    unfold readDeltas at hread
    split at hread
    · next b bytes' =>
      obtain ⟨hd, _, hr⟩ := map_cons_eq_some.mp ⟨unread, hread⟩
      have hb0 := (eq_zero_of_be16 (ReceivedPacket.mk.inj hd).2).2
      exact hstep [b] bytes' (by simp) (by simpa using hb0) rfl hr
    · next hi lo bytes' =>
      obtain ⟨hd, _, hr⟩ := map_cons_eq_some.mp ⟨unread, hread⟩
      obtain ⟨hhi, hlo⟩ := eq_zero_of_be16 (ReceivedPacket.mk.inj hd).2
      exact hstep [hi, lo] bytes' (by simp) (by simp [hhi, hlo]) rfl hr
    · exact absurd hfits (by decide)
    · cases hread

/-- Zero deltas are read from zeros, whatever the statuses. -/
theorem readDeltas_zeros (h : Reports seqNo deltaSizes packets)
    (hzero : ∀ p ∈ packets, p.deltaTicks = 0#16) {n : Nat} (hn : deltaSizes.sum ≤ n) :
    ∃ unread, readDeltas deltaSizes seqNo (replicate n 0#8) = some (packets, unread) := by
  induction h generalizing n with
  | nil => exact ⟨_, rfl⟩
  | missing _ ih =>
    rw [sum_cons, Nat.zero_add] at hn
    exact ih hzero hn
  | @received seqNo deltaSizes packets deltaSize delta hfits _ ih =>
    rw [sum_cons] at hn
    obtain ⟨unread, hr⟩ := ih (fun p hp => hzero p (.tail _ hp))
      (show deltaSizes.sum ≤ n - deltaSize by omega)
    have hd : delta = 0#16 := hzero _ (.head _)
    subst hd
    refine ⟨unread, ?_⟩
    obtain ⟨m, rfl⟩ : ∃ m, n = m + deltaSize := ⟨n - deltaSize, by omega⟩
    rw [Nat.add_sub_cancel] at hr
    rcases hfits with ⟨rfl, -⟩ | rfl
    all_goals
      show (readDeltas deltaSizes (seqNo + 1#16) (replicate m 0#8)).map _ = _
      rw [hr]
      rfl

theorem deltaBytes_zeros (h : ∀ p ∈ packets, p.deltaTicks = 0#16) :
    deltaBytes packets = replicate packets.length 0#8 := by
  unfold deltaBytes
  induction packets with
  | nil => rfl
  | cons p packets ih =>
    rw [flatMap_cons, ih fun q hq => h q (.tail _ hq), h p (.head _), length_cons, replicate_succ]
    rfl

theorem wideSuffix_cons {deltaSize : Nat} (hpos : 0 < deltaSize) (deltaSizes : List Nat)
    (p : ReceivedPacket) (packets : List ReceivedPacket) :
    wideSuffix (deltaSize :: deltaSizes) (p :: packets) =
      if deltaSize = deltaWidth p.deltaTicks then wideSuffix deltaSizes packets
      else p :: packets := by
  cases deltaSize with
  | zero => exact absurd hpos (Nat.lt_irrefl 0)
  | succ k => rfl

/-- A delta in two bytes that fits into one: the reader gets ahead of the writer. -/
theorem readDeltas_wide (h : Reports (seqNo + 1#16) deltaSizes packets)
    (hsmall : isSmall delta) {unread : List Byte} {tail : List Byte}
    (hbytes : deltaBytes packets ++ tail = bytes)
    (hread : readDeltas (2 :: deltaSizes) seqNo (lo16 delta :: bytes) =
      some (⟨seqNo, delta⟩ :: packets, unread)) :
    ∀ p, p ∈ (⟨seqNo, delta⟩ :: packets : List ReceivedPacket) → p.deltaTicks = 0#16 := by
  cases bytes with
  | nil => exact absurd hread (by simp [readDeltas])
  | cons b bytes =>
    obtain ⟨hp, _, hrest⟩ := map_cons_eq_some.mp ⟨unread, hread⟩
    have hd : be16 (lo16 delta) b = delta := (ReceivedPacket.mk.inj hp).2
    have hlo : lo16 delta = 0#8 := by
      rw [← isSmall_iff.mp hsmall]
      conv_rhs => rw [← hd, hi16_be16]
    have hdelta : delta = 0#16 := by
      have he := eq_of_small hsmall
      rw [hlo] at he
      exact he.symm
    rw [hdelta] at hd
    have hb : b = 0#8 := (eq_zero_of_be16 hd).2
    have hrest0 := zero_of_readDeltas_ahead h [b] (by simp) (by simpa using hb) hbytes
      hrest
    exact forall_mem_cons.mpr ⟨hdelta, hrest0⟩

/-- **When the deltas are read back**: no delta is written in fewer bytes than are read for it,
unless it and all after it are zero. -/
theorem readDeltas_deltaBytes (h : Reports seqNo deltaSizes packets) {pad : Nat}
    (hroom : deltaSizes.sum ≤ (deltaBytes packets).length + pad) :
    (∃ unread, readDeltas deltaSizes seqNo (deltaBytes packets ++ replicate pad 0#8) =
        some (packets, unread)) ↔ ∀ p ∈ wideSuffix deltaSizes packets, p.deltaTicks = 0#16 := by
  induction h with
  | nil => simp [readDeltas, wideSuffix, deltaBytes]
  | missing _ ih =>
    rw [sum_cons, Nat.zero_add] at hroom
    exact ih hroom
  | @received seqNo deltaSizes packets deltaSize delta hfits hrep ih =>
    have hbytes : deltaBytes (⟨seqNo, delta⟩ :: packets) =
        writeDelta delta ++ deltaBytes packets := rfl
    rw [wideSuffix_cons (by omega)]
    by_cases hw : deltaSize = deltaWidth delta
    · have hrest : deltaSizes.sum ≤ (deltaBytes packets).length + pad := by
        rw [hbytes, sum_cons, length_append, length_writeDelta, hw] at hroom
        omega
      rw [if_pos hw, hw, hbytes, append_assoc, readDeltas_cons, map_cons_eq_some, ← ih hrest]
      exact and_iff_right rfl
    rw [if_neg hw]
    have hwide : deltaSize = 2 ∧ isSmall delta := by
      rcases hfits with ⟨rfl, hs⟩ | rfl
      · exact absurd (if_pos hs).symm hw
      by_cases hs : isSmall delta
      · exact ⟨rfl, hs⟩
      · exact absurd (if_neg hs).symm hw
    obtain ⟨rfl, hsmall⟩ := hwide
    constructor
    · rintro ⟨unread, hread⟩
      rw [hbytes, writeDelta_small hsmall] at hread
      exact readDeltas_wide hrep hsmall rfl hread
    intro hzero
    rw [deltaBytes_zeros hzero, length_replicate] at hroom
    rw [deltaBytes_zeros hzero, replicate_append_replicate]
    exact readDeltas_zeros (.received 2 delta hfits hrep) hzero hroom

/-! ## A parsed packet, written again -/

/-- The size `Create` needs, with each delta in the bytes it needs. -/
def writtenSize (fb : TransportFeedback) : Nat :=
  fb.overhead + (fb.packets.map fun p => deltaWidth p.deltaTicks).sum

theorem length_deltaBytes (packets : List ReceivedPacket) :
    (deltaBytes packets).length = (packets.map fun p => deltaWidth p.deltaTicks).sum := by
  unfold deltaBytes
  rw [length_flatMap]
  congr 1
  exact map_congr_left fun p _ => length_writeDelta p.deltaTicks

theorem length_flatMap_write16 (chunks : List (BitVec 16)) :
    (chunks.flatMap write16).length = 2 * chunks.length := by
  induction chunks with
  | nil => rfl
  | cons _ chunks ih =>
    rw [flatMap_cons, length_append, ih, length_cons]
    show 2 + _ = _
    omega

theorem length_body (hs : 0 < fb.lastChunk.size) :
    fb.headers.length + fb.body.length = fb.writtenSize := by
  have hchunks := length_flatMap_write16 fb.chunks
  have hlen : fb.chunks.length = fb.encodedChunks.length + 1 := by simp [chunks_eq hs]
  have hdeltas := length_deltaBytes fb.packets
  unfold deltaBytes at hdeltas
  unfold body writtenSize
  rw [length_headers, length_append, hchunks, hlen, hdeltas, overhead_of_nonempty hs]
  simp only [kTransportFeedbackHeaderSizeBytes, kChunkSizeBytes]
  omega

/-- What is written has the length of the block if it fills as many words. -/
theorem length_written_iff (hs : 0 < fb.lastChunk.size) :
    fb.written.length = fb.blockLength ↔ (fb.writtenSize + 3) / 4 = (fb.sizeBytes + 3) / 4 := by
  rw [length_written, length_body hs]
  unfold blockLength
  omega

theorem deltaArea_eq (fb : TransportFeedback) :
    ∃ pad, fb.deltaArea = deltaBytes fb.packets ++ replicate pad 0#8 := ⟨_, rfl⟩

/-- A written packet of the announced length has room for all deltas as its statuses count them. -/
theorem sum_statuses_le (h : fb.Consistent) (hs : 0 < fb.lastChunk.size)
    (hlen : fb.written.length = fb.blockLength) : fb.statuses.sum ≤ fb.deltaArea.length := by
  have hbody := length_body hs
  have hsize := h.size
  have harea : fb.deltaArea.length + fb.overhead = fb.written.length := by
    unfold written deltaArea
    generalize padding (fb.headers ++ fb.body).length = pad
    unfold writtenSize at hbody
    rw [length_append, length_append, length_append, length_deltaBytes]
    omega
  have hblock : fb.sizeBytes ≤ fb.blockLength := by
    unfold blockLength
    omega
  omega

/-- When a packet that was parsed can be written and parsed again. -/
structure Rewritable (fb : TransportFeedback) : Prop where
  zero : ∀ p, p ∈ wideSuffix fb.statuses fb.packets → p.deltaTicks = 0#16
  words : (fb.writtenSize + 3) / 4 = (fb.sizeBytes + 3) / 4

/-- `Create` fills the block, and `ParseFrom` gives the same packets. -/
def ReadsBack (fb : TransportFeedback) : Prop :=
  fb.written.length = fb.blockLength ∧
    ∃ fb', parseFrom fb.written = some fb' ∧ fb'.packets = fb.packets

theorem readsBack_iff (h : fb.Consistent) (hn : 0 < fb.numSeqNo) (hs : fb.sizeBytes ≤ kMaxSizeBytes) :
    ReadsBack fb ↔ Rewritable fb := by
  have hpos := h.lastChunk_pos hn
  obtain ⟨_, hpad⟩ := deltaArea_eq fb
  have hdeltas : fb.written.length = fb.blockLength →
      ((∃ fb', parseFrom fb.written = some fb' ∧ fb'.packets = fb.packets) ↔
        ∀ p ∈ wideSuffix fb.statuses fb.packets, p.deltaTicks = 0#16) := by
    intro hlen
    have hroom := sum_statuses_le h hpos hlen
    rw [hpad, length_append, length_replicate] at hroom
    rw [(parseFrom_written h hn hs hlen).2, hpad]
    exact readDeltas_deltaBytes h.reports hroom
  constructor
  · rintro ⟨hlen, hread⟩
    exact ⟨(hdeltas hlen).mp hread, (length_written_iff hpos).mp hlen⟩
  rintro ⟨hzero, hwords⟩
  have hlen := (length_written_iff hpos).mpr hwords
  exact ⟨hlen, (hdeltas hlen).mpr hzero⟩

/-- What `ParseFrom` accepts. -/
structure Accepted (fb : TransportFeedback) : Prop where
  consistent : fb.Consistent
  pos : 0 < fb.numSeqNo
  size_le : fb.sizeBytes ≤ kMaxSizeBytes
  ticks : (BitVec.ofInt 24 fb.baseTimeTicks).toInt = fb.baseTimeTicks

theorem accepted_of_parse {payload : List Byte} (hlen : payload.length ≤ 262140)
    (h : parse {} payload = (true, fb)) : Accepted fb := by
  obtain heq | ⟨base, count, ticks, bytes, heq, hlast, hticks, hbytes⟩ := parse_cases {} payload
  · cases heq.symm.trans h
  have hcases := parseStatuses_cases base (hlast ▸ rfl) (Nat.le_of_lt_succ count.isLt) bytes
  rw [← heq, h] at hcases
  obtain ⟨hf, -⟩ | ⟨-, hp⟩ := hcases
  · cases hf
  refine ⟨hp.consistent, hp.count.symm ▸ hp.pos, ?_, ?_⟩
  · have hsize := hp.size_le
    simp only [kTransportFeedbackHeaderSizeBytes, kMaxSizeBytes] at hsize ⊢
    omega
  · rw [hp.baseTimeTicks, hticks, BitVec.ofInt_toInt]

theorem accepted_of_parseFrom {buffer : List Byte} (h : parseFrom buffer = some fb) :
    Accepted fb := by
  unfold parseFrom at h
  split at h
  · cases h
  rename_i header hheader
  split at h
  · cases h
  split at h
  · next _ hparse =>
    obtain rfl := some.inj h
    exact accepted_of_parse (CommonHeader.length_payload_le hheader) hparse
  · cases h

/-- **Re-serialising a parsed packet** is lossless exactly when no delta was received in more bytes
than it needs, or all from the first such one on are zero and the block keeps its length. -/
theorem rewrite_parsed_iff (buffer : List Byte) (fb : TransportFeedback)
    (h : parseFrom buffer = some fb) :
    (∃ bytes fb', fb.create fb.blockLength = some bytes ∧ bytes.length = fb.blockLength ∧
        parseFrom bytes = some fb' ∧ fb'.baseSeqNo = fb.baseSeqNo ∧
        fb'.baseTimeTicks = fb.baseTimeTicks ∧ fb'.feedbackSeq = fb.feedbackSeq ∧
        fb'.numSeqNo = fb.numSeqNo ∧ fb'.packets = fb.packets) ↔ Rewritable fb := by
  have ha := accepted_of_parseFrom h
  have hcreate := create_eq ha.pos (Nat.le_refl fb.blockLength)
  rw [← readsBack_iff ha.consistent ha.pos ha.size_le]
  constructor
  · rintro ⟨bytes, fb', hbytes, hlen, hparse, -, -, -, -, hpackets⟩
    obtain rfl := Option.some.inj (hcreate.symm.trans hbytes)
    exact ⟨hlen, fb', hparse, hpackets⟩
  rintro ⟨hlen, fb', hparse, hpackets⟩
  have hh := (parseFrom_written ha.consistent ha.pos ha.size_le hlen).1 fb' hparse
  exact ⟨_, fb', hcreate, hlen, hparse, hh.baseSeqNo, hh.baseTimeTicks.trans ha.ticks,
    hh.feedbackSeq, hh.numSeqNo, hpackets⟩

/-- One packet, received with the delta 1 in two bytes. -/
def wideDelta : List Byte :=
  [0x8f, 205, 0, 5, 0, 0, 0, 0, 0, 0, 0, 0, 0, 0, 0, 1, 0, 0, 0, 0, 0x40, 1, 0, 1]

/-- The delta 300 needs its two bytes: the packet is written and read back. -/
def largeDelta : List Byte :=
  [0x8f, 205, 0, 5, 0, 0, 0, 0, 0, 0, 0, 0, 0, 0, 0, 1, 0, 0, 0, 0, 0x40, 1, 1, 44]

theorem isSome_parseFrom_largeDelta : (parseFrom largeDelta).isSome := by decide +kernel

theorem rewrite_largeDelta :
    ∃ fb bytes fb', parseFrom largeDelta = some fb ∧ fb.create fb.blockLength = some bytes ∧
      bytes.length = fb.blockLength ∧ parseFrom bytes = some fb' ∧ fb'.packets = fb.packets := by
  have hfb := (Option.some_get isSome_parseFrom_largeDelta).symm
  have hr : Rewritable ((parseFrom largeDelta).get isSome_parseFrom_largeDelta) :=
    ⟨by decide +kernel, by decide +kernel⟩
  obtain ⟨bytes, fb', hc, hl, hp, -, -, -, -, hpackets⟩ :=
    (rewrite_parsed_iff largeDelta _ hfb).mpr hr
  exact ⟨_, bytes, fb', hfb, hc, hl, hp, hpackets⟩

/-- `wideDelta` is accepted with delta 1; what `Create` writes for it is read back as delta 256. -/
theorem rewrite_wideDelta : (parseFrom wideDelta).map (fun fb => fb.packets) = some [⟨0#16, 1#16⟩] ∧
      ((parseFrom wideDelta).bind fun fb => (fb.create fb.blockLength).bind fun bytes =>
        (parseFrom bytes).map fun fb' => fb'.packets) = some [⟨0#16, 256#16⟩] := by
  decide +kernel

/-! ## A packet built from arrivals -/

/-- The object after `SetBase`, `SetFeedbackSequenceNumber` and a sequence of `AddReceivedPacket`
calls, accepted or refused. -/
def ofArrivals (baseSequence : BitVec 16) (refTimestampUs : Int) (feedbackSequence : Byte)
    (arrivals : List (BitVec 16 × Int)) : TransportFeedback :=
  arrivals.foldl (fun fb arrival => (fb.addReceivedPacket arrival.1 arrival.2).2)
    ((setBase {} baseSequence refTimestampUs).setFeedbackSequenceNumber feedbackSequence)

/-- What `AddReceivedPacket` builds: every status gives its delta the bytes it needs, and the size
stays within the limit. -/
structure Built (fb : TransportFeedback) : Prop where
  consistent : fb.Consistent
  compact : fb.statuses.filter (fun d => decide (0 < d)) =
    fb.packets.map fun p => deltaWidth p.deltaTicks
  size_le : fb.sizeBytes ≤ kMaxSizeBytes

theorem deltaWidth_pos (delta : BitVec 16) : 0 < deltaWidth delta := by
  unfold deltaWidth
  split <;> decide

theorem built_adds {fb' : TransportFeedback} (h : Built fb) (ha : Adds fb () fb') : Built fb' := by
  have hc := consistent_adds h.consistent ha
  cases ha with
  | missing ha =>
    have he := extended_addDeltaSize h.consistent (by decide) ha
    refine ⟨hc, ?_, he.size_le⟩
    rw [he.statuses, he.packets, filter_append, h.compact]
    simp
  | @received fb' delta ha =>
    have he := extended_addDeltaSize h.consistent (deltaWidth_le delta) ha
    refine ⟨hc, ?_, he.size_le⟩
    obtain ⟨hstatuses, hpackets⟩ := he.push fb.nextSeqNo delta
    rw [hstatuses, hpackets, filter_append, map_append, h.compact]
    simp [deltaWidth_pos delta]

theorem built_foldl (h : Built fb) (arrivals : List (BitVec 16 × Int)) :
    Built (arrivals.foldl (fun fb arrival => (fb.addReceivedPacket arrival.1 arrival.2).2) fb) := by
  induction arrivals generalizing fb with
  | nil => exact h
  | cons arrival arrivals ih =>
    refine ih ?_
    exact (reaches_addReceivedPacket h.consistent arrival.1 arrival.2).invariant Built h
      fun _ _ _ hb ha => built_adds hb ha

theorem built_ofArrivals (baseSequence : BitVec 16) (refTimestampUs : Int)
    (feedbackSequence : Byte) (arrivals : List (BitVec 16 × Int)) :
    Built (ofArrivals baseSequence refTimestampUs feedbackSequence arrivals) := by
  refine built_foldl ⟨consistent_empty rfl rfl rfl rfl rfl rfl rfl rfl, rfl, ?_⟩ arrivals
  show 20 ≤ 262144
  decide

/-- With every delta in the bytes it needs, there is no wide one. -/
theorem wideSuffix_of_compact (h : Reports seqNo deltaSizes packets)
    (hc : deltaSizes.filter (fun d => decide (0 < d)) =
      packets.map fun p => deltaWidth p.deltaTicks) : wideSuffix deltaSizes packets = [] := by
  induction h with
  | nil => rfl
  | missing _ ih => exact ih hc
  | received deltaSize _ hfits _ ih =>
    have hpos : 0 < deltaSize := by omega
    simp only [filter_cons, hpos, decide_true, if_true, map_cons] at hc
    obtain ⟨hw, hrest⟩ := cons.inj hc
    rw [wideSuffix_cons hpos, if_pos hw]
    exact ih hrest

theorem sum_filter_pos (deltaSizes : List Nat) :
    (deltaSizes.filter fun d => decide (0 < d)).sum = deltaSizes.sum := by
  induction deltaSizes with
  | nil => rfl
  | cons d deltaSizes ih =>
    by_cases hd : 0 < d
    · simp [hd, ih]
    · simp [hd, ih]
      omega

theorem Built.rewritable (h : Built fb) : Rewritable fb := by
  constructor
  · rw [wideSuffix_of_compact h.consistent.reports h.compact]
    simp
  · unfold writtenSize
    rw [h.consistent.size, ← h.compact, sum_filter_pos]

/-- **Round trip**: what `Create` writes for a packet with at least one status is parsed back, and
the base time may differ by whole wrap periods only. -/
theorem create_then_parseFrom (baseSequence : BitVec 16) (refTimestampUs : Int)
    (feedbackSequence : Byte) (arrivals : List (BitVec 16 × Int)) (fb : TransportFeedback)
    (hfb : fb = ofArrivals baseSequence refTimestampUs feedbackSequence arrivals)
    (hn : 0 < fb.numSeqNo) (maxLength : Nat) (hm : fb.blockLength ≤ maxLength) :
    ∃ bytes fb', fb.create maxLength = some bytes ∧ parseFrom bytes = some fb' ∧
      fb'.baseSeqNo = fb.baseSeqNo ∧ fb'.feedbackSeq = fb.feedbackSeq ∧
      fb'.numSeqNo = fb.numSeqNo ∧ fb'.packets = fb.packets ∧
      fb'.getBaseTimeUs % kTimeWrapPeriodUs = fb.getBaseTimeUs % kTimeWrapPeriodUs := by
  have hb : Built fb := by
    rw [hfb]
    exact built_ofArrivals baseSequence refTimestampUs feedbackSequence arrivals
  obtain ⟨hlen, fb', hparse, hpackets⟩ :=
    (readsBack_iff hb.consistent hn hb.size_le).mpr hb.rewritable
  have hh := (parseFrom_written hb.consistent hn hb.size_le hlen).1 fb' hparse
  refine ⟨_, fb', create_eq hn hm, hparse, hh.baseSeqNo, hh.feedbackSeq, hh.numSeqNo, hpackets, ?_⟩
  -- the 24 bits on the wire fix the ticks modulo 2^24
  have hticks : fb'.baseTimeTicks % 16777216 = fb.baseTimeTicks % 16777216 := by
    rw [hh.baseTimeTicks, BitVec.toInt_ofInt]
    exact Int.bmod_emod
  unfold getBaseTimeUs kTimeWrapPeriodUs kBaseScaleFactor
  omega

/-- A gap, a large delta and a refused packet, with a base time that comes back negative. -/
theorem create_then_parseFrom_gap : ∃ fb bytes fb', fb = ofArrivals 65534 1000000000000 7
        [(65535, 1000000000000), (3, 1000000100000), (2, 1000000000000)] ∧
      fb.numSeqNo = 6 ∧ fb.create 1500 = some bytes ∧ parseFrom bytes = some fb' ∧
      fb'.packets = fb.packets := by
  obtain ⟨bytes, fb', hc, hp, -, -, -, hpackets, -⟩ :=
    create_then_parseFrom 65534 1000000000000 7
      [(65535, 1000000000000), (3, 1000000100000), (2, 1000000000000)] _ rfl
      (by decide +kernel) 1500 (by decide +kernel)
  exact ⟨_, bytes, fb', rfl, by decide +kernel, hc, hp, hpackets⟩

end WebRtc.Rtcp.TransportFeedback
