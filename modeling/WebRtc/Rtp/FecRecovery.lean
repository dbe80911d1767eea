import WebRtc.Rtp.FecHeaderRoundTrip
import WebRtc.Rtp.FecPayload

/-! A media packet that one FEC packet protects is recovered as it was sent. -/

namespace WebRtc.Rtp.Fec

open BigEndian Parity List Packet

variable {scheme : FecScheme} {row : MaskRow} {base : BitVec 16} {fecPacket m first : Packet}
  {f : ReceivedFecPacket} {media rest : List Packet}

/-! ## The XOR of the present packets -/

/-- The protected packets of `l` when the one with the sequence number `lost` is missing. -/
def protectedBut (lost : BitVec 16) (l : List Packet) : List ProtectedPacket :=
  l.map fun m =>
    ⟨m.parseSequenceNumber, if m.parseSequenceNumber = lost then none else some m⟩

theorem xorProtectedPackets_ok (lost : BitVec 16) :
    ∀ (l : List Packet) (s : BitVec 16) (p : Packet),
      (∀ m ∈ l, m.ZeroPadded ∧ kRtpHeaderSize + m.length ≤ ipPacketSize) →
      ∃ q, xorProtectedPackets (protectedBut lost l) s p =
          .ok (if lost ∈ l.map (·.parseSequenceNumber) then lost else s, q) ∧
        ∀ i < ipPacketSize, q.byteAt i = p.byteAt i ^^^
          parity (fun m => if m.parseSequenceNumber = lost then 0#8
            else contribution kRtpHeaderSize m i) l := by
  intro l
  induction l with
  | nil =>
    intro s p _
    exact ⟨p, rfl, fun i _ => BitVec.xor_zero.symm⟩
  | cons m l ih =>
    intro s p hl
    have htail := fun m' hm' => hl m' (.tail _ hm')
    unfold protectedBut at ih ⊢
    rw [map_cons, xorProtectedPackets]
    by_cases he : m.parseSequenceNumber = lost
    · obtain ⟨q, hq, hb⟩ := ih lost p htail
      refine ⟨q, ?_, fun i hi => ?_⟩
      · simp only [he, if_true]
        rw [hq]
        simp [he]
      · rw [hb i hi, parity_cons, if_pos he, BitVec.zero_xor]
    · obtain ⟨hpad, hlen⟩ := hl m (by simp)
      obtain ⟨p', hx, _, hb'⟩ := xor_ok p hpad (Nat.le_add_left _ _)
        (show 8 ≤ kRtpHeaderSize by decide) hlen hlen
      obtain ⟨q, hq, hb⟩ := ih s p' htail
      refine ⟨q, ?_, fun i hi => ?_⟩
      · simp only [he, if_false, hx]
        rw [hq]
        simp [Ne.symm he]
      · rw [hb i hi, hb' i hi, parity_cons, if_neg he, BitVec.xor_assoc]

/-! ## The FEC packet as a parity -/

/-- The FEC packet `f`, as it was read, stands for the media packets `l`: what its recovery
starts from is their parity, up to the bytes that are set at the end. -/
structure Covers (l : List Packet) (p : Packet) : Prop where
  first : p.byteAt 0 &&& 0x3f = parity (fun m => contribution kRtpHeaderSize m 0) l &&& 0x3f
  bytes : ∀ i < ipPacketSize, 1 ≤ i → ¬ (8 ≤ i ∧ i < kRtpHeaderSize) →
    p.byteAt i = parity (fun m => contribution kRtpHeaderSize m i) l

theorem startPacketRecovery_covers {size : Nat} {ssrc : BitVec 32} {l : List Packet}
    (hf : ReadBack scheme row size ssrc base fecPacket f) (h8 : 8 ≤ f.fecHeaderSize)
    (h : Holds f.fecHeaderSize l fecPacket) (hne : l ≠ []) (hfits : ∀ m ∈ l, Fits f.fecHeaderSize m) :
    ∃ p, startPacketRecovery f = .ok (some p) ∧ Covers l p := by
  obtain ⟨m₀, hm₀, hlen⟩ := h.length_mem hne
  have hge := (hfits m₀ hm₀).length_ge
  have hle := (hfits m₀ hm₀).length_le
  have hle' := (hfits m₀ hm₀).length_le'
  have hprot : f.protectionLength = m₀.length - kRtpHeaderSize := by
    rw [hf.protectionLength, hlen, Nat.add_sub_cancel_left]
  have hstart : startPacketRecovery f = .ok (some
      ((empty.copy 0 kRtpHeaderSize f.pkt.byteAt).copy kRtpHeaderSize f.protectionLength
        fun i => f.pkt.byteAt (f.fecHeaderSize + i))) := by
    unfold startPacketRecovery
    rw [if_neg (by rw [hf.length, hlen]; omega)]
    rw [if_neg (by rw [hprot]; omega), memcpy_ok (by omega) (by omega)]
  have hhead : ∀ i < kRtpHeaderSize,
      ((empty.copy 0 kRtpHeaderSize f.pkt.byteAt).copy kRtpHeaderSize f.protectionLength
        fun i => f.pkt.byteAt (f.fecHeaderSize + i)).byteAt i = f.pkt.byteAt i := by
    intro i hi
    rw [byteAt_copy_outside (by omega),
      byteAt_copy_inside (by omega) (Nat.lt_trans hi (by decide)), Nat.sub_zero]
  have hcontr : ∀ i < 8, fecPacket.byteAt i =
      parity (fun m => contribution kRtpHeaderSize m i) l := by
    intro i hi
    rw [h.bytes i (Nat.lt_trans hi (by decide))]
    exact parity_congr fun m _ => contribution_header m hi h8 (by decide)
  refine ⟨_, hstart, ?_, fun i hi h1 hgap => ?_⟩
  · rw [hhead 0 (by decide), hf.first, hcontr 0 (by omega)]
  rcases Nat.lt_or_ge i 8 with hi8 | hi8
  · rw [hhead i (Nat.lt_trans hi8 (by decide)), hf.header i h1 hi8, hcontr i hi8]
  have h12 : kRtpHeaderSize ≤ i := by omega
  have hpay : ∀ m, contribution kRtpHeaderSize m i = m.byteAt i := fun m => by
    rw [contribution_payload m hi8 h12, Nat.add_sub_cancel' h12]
  rw [byteAt_copy hi]
  split
  · have hidx : f.fecHeaderSize + (i - kRtpHeaderSize) < ipPacketSize := by omega
    rw [hf.payload _ (Nat.le_add_right _ _) hidx, h.bytes _ hidx]
    refine parity_congr fun m _ => ?_
    rw [contribution_payload m (by omega) (Nat.le_add_right _ _), Nat.add_sub_cancel_left,
      Nat.add_sub_cancel' h12, hpay]
  rw [byteAt_copy_outside (by omega), byteAt_empty]
  -- behind the protected part all packets are zero
  refine (parity_zero fun m hm => ?_).symm
  have hml := h.length_le m hm
  rw [hpay, (hfits m hm).padded i (by omega)]

/-! ## The end of the recovery -/

theorem hi16_read16 (p : Packet) (i : Nat) : hi16 (p.read16 i) = p.byteAt i := hi16_be16 _ _
theorem lo16_read16 (p : Packet) (i : Nat) : lo16 (p.read16 i) = p.byteAt (i + 1) := lo16_be16 _ _

theorem byteAt_write16_read16 (p q : Packet) {i j : Nat} (hi : i ≤ j ∧ j < i + 2)
    (hj : j < ipPacketSize) : (p.write16 i (q.read16 i)).byteAt j = q.byteAt j := by
  rw [byteAt_write16 hj, hi16_read16, lo16_read16]
  split
  · rename_i h; rw [h]
  rw [if_pos (by omega)]
  congr 1
  omega

theorem byteAt_write32_read32 (p q : Packet) {i j : Nat} (hi : i ≤ j ∧ j < i + 4)
    (hj : j < ipPacketSize) : (p.write32 i (q.read32 i)).byteAt j = q.byteAt j := by
  unfold Packet.write32 Packet.read32
  rw [hi32_be32, lo32_be32]
  rcases Nat.lt_or_ge j (i + 2) with h | h
  · rw [byteAt_write16_outside (by omega), byteAt_write16_read16 _ _ (by omega) hj]
  · rw [byteAt_write16_read16 _ _ (by omega) hj]

theorem xor_and (a b c : BitVec 8) : (a ^^^ b) &&& c = (a &&& c) ^^^ (b &&& c) := by
  ext i hi
  simp [Bool.and_xor_distrib_right]

/-- The version bits that the end of the recovery sets are those of RTP version 2. -/
theorem version_bits (x m : BitVec 8) (hx : x &&& 0x3f = m &&& 0x3f) (hm : m &&& 0xc0 = 0x80) :
    (x ||| 0x80) &&& 0xbf = m := by
  rw [(ByteMasks.topBits x).or_and, hx, (ByteMasks.topBits m).low_or hm]

theorem toNat_payloadLengthField (h : kRtpHeaderSize ≤ m.length) (h' : m.length ≤ ipPacketSize) :
    (payloadLengthField m).toNat = m.length - kRtpHeaderSize := by
  unfold payloadLengthField kRtpHeaderSize ipPacketSize at *
  rw [BitVec.toNat_sub, BitVec.toNat_ofNat, BitVec.toNat_ofNat]
  omega

/-- When the XOR has left one packet, the end of the recovery gives that packet. -/
theorem finishPacketRecovery_eq {p : Packet} (hssrc : f.protectedSsrc = m.parseSsrc)
    (hge : kRtpHeaderSize ≤ m.length) (hle : m.length ≤ ipPacketSize - kRtpHeaderSize)
    (hversion : m.byteAt 0 &&& 0xc0 = 0x80) (hfirst : p.byteAt 0 &&& 0x3f = m.byteAt 0 &&& 0x3f)
    (hbytes : ∀ i < ipPacketSize, 1 ≤ i → ¬ (8 ≤ i ∧ i < kRtpHeaderSize) →
      p.byteAt i = contribution kRtpHeaderSize m i) :
    finishPacketRecovery f m.parseSequenceNumber p = some m := by
  have hlen : p.read16 2 = payloadLengthField m := by
    unfold read16
    rw [hbytes 2 (by decide) (by omega) (by omega), hbytes 3 (by decide) (by omega) (by omega)]
    exact be16_hi_lo _
  unfold finishPacketRecovery
  dsimp only
  rw [byteAt_set_same (by decide),
    read16_congr (fun j _ _ => byteAt_set_ne (show j ≠ 0 by omega)),
    read16_congr (fun j _ _ => byteAt_set_ne (show j ≠ 0 by omega)), hlen,
    toNat_payloadLengthField hge (by omega), Nat.sub_add_cancel hge, if_neg (by omega),
    Option.some_inj]
  have hq : ∀ (q : Packet) (n i : Nat), ({ q with length := n } : Packet).byteAt i = q.byteAt i :=
    fun _ _ _ => rfl
  refine ext_byteAt rfl fun i hi => ?_
  rw [hssrc]
  unfold parseSsrc parseSequenceNumber
  by_cases h8 : 8 ≤ i ∧ i < 8 + 4
  · rw [byteAt_write32_read32 _ _ h8 hi]
  rw [byteAt_write32_outside h8]
  by_cases h2 : 2 ≤ i ∧ i < 2 + 2
  · rw [byteAt_write16_read16 _ _ h2 hi]
  rw [byteAt_write16_outside h2, hq]
  rcases Nat.eq_zero_or_pos i with rfl | hpos
  · rw [byteAt_set_same (by decide), version_bits _ _ hfirst hversion]
  rw [byteAt_set_ne (by omega), byteAt_set_ne (by omega), hbytes i hi hpos h8]
  rcases Nat.lt_or_ge i 8 with hlt | hge
  · unfold contribution
    rw [if_pos (by omega)]
  · have h12 : kRtpHeaderSize ≤ i := by unfold kRtpHeaderSize; omega
    rw [contribution_payload m hge h12, Nat.add_sub_cancel' h12]

/-! ## The protected packets -/

/-- A byte of the mask stands for the sequence numbers of its bits. -/
theorem parseMaskByte_seqNums (row : MaskRow) (base : BitVec 16) (byteIdx : Nat) :
    (parseMaskByte base byteIdx (row.byte byteIdx)).map (·.seqNum) =
      (((range 8).map (8 * byteIdx + ·)).filter row.bit).map
        fun j => base + BitVec.ofNat 16 j := by
  unfold parseMaskByte
  have hlt : ∀ b ∈ range 8, b < 8 := fun b hb => mem_range.1 hb
  generalize range 8 = l at hlt ⊢
  induction l with
  | nil => rfl
  | cons b l ih =>
    have hb : row.bit (8 * byteIdx + b) = (row.byte byteIdx).getMsbD b :=
      row.bit_index (hlt b (by simp))
    have ih := ih fun b' hb' => hlt b' (by simp [hb'])
    by_cases hbit : (row.byte byteIdx).getMsbD b
    · rw [map_cons, filter_cons_of_pos (by rw [hb, hbit]),
        filterMap_cons_some (by rw [if_pos hbit]), map_cons, map_cons, ih, Nat.mul_comm]
    · rw [map_cons, filter_cons_of_neg (by rw [hb]; exact hbit),
        filterMap_cons_none (by rw [if_neg hbit]), ih]

/-- The mask of a read header stands for the sequence numbers of its bits. -/
theorem parseProtectedPackets_seqNums
    (hmask : ∀ i < f.packetMaskSize, f.pkt.byteAt (f.packetMaskOffset + i) = row.byte i) :
    (parseProtectedPackets f).map (·.seqNum) =
      ((range (8 * f.packetMaskSize)).filter row.bit).map
        fun j => f.seqNumBase + BitVec.ofNat 16 j := by
  unfold parseProtectedPackets
  generalize f.packetMaskSize = n at hmask ⊢
  induction n with
  | zero => rfl
  | succ n ih =>
    rw [range_succ, flatMap_append, map_append, ih fun i hi => hmask i (by omega),
      Nat.mul_succ, range_add, filter_append, map_append, flatMap_singleton,
      hmask n (by omega), parseMaskByte_seqNums]

theorem base_add_offset (base : BitVec 16) (m : Packet) :
    base + BitVec.ofNat 16 (offset base m) = m.parseSequenceNumber := by
  unfold offset
  bv_omega

variable (hsorted : media.Pairwise fun p q => offset base p < offset base q)
include hsorted

/-- They are the sequence numbers of the selected packets. -/
theorem seqNums_eq_selected {n : Nat} 
    (hmem : ∀ j, row.bit j → ∃ m ∈ media, offset base m = j)
    (hend : ∀ i, n ≤ i → row.byte i = 0#8) :
    ((range (8 * n)).filter row.bit).map (fun j => base + BitVec.ofNat 16 j) =
      (selected base row media).map (·.parseSequenceNumber) := by
  have hlist : (range (8 * n)).filter row.bit = (selected base row media).map (offset base) := by
    refine List.Pairwise.eq_of_mem_iff (r := (· < ·)) ?_ ?_ fun j => ?_
    · exact List.Pairwise.filter _ pairwise_lt_range
    · exact (List.Pairwise.filter _ hsorted).map _ fun _ _ h => h
    simp only [mem_filter, mem_range, mem_map, selected]
    constructor
    · rintro ⟨_, hbit⟩
      obtain ⟨m, hm, rfl⟩ := hmem j hbit
      exact ⟨m, ⟨hm, hbit⟩, rfl⟩
    rintro ⟨m, ⟨_, hbit⟩, rfl⟩
    refine ⟨?_, hbit⟩
    by_contra hge
    have hzero : row.bit (offset base m) = false := by
      unfold MaskRow.bit
      rw [hend _ (by omega)]
      exact BitVec.getMsbD_zero
    rw [hzero] at hbit
    exact Bool.false_ne_true hbit
  rw [hlist, map_map]
  exact map_congr_left fun m _ => base_add_offset base m

/-- Packets with increasing offsets have different sequence numbers. -/
theorem seqNum_injective {m' : Packet} (hm : m ∈ media) (hm' : m' ∈ media)
    (he : m.parseSequenceNumber = m'.parseSequenceNumber) : m = m' := by
  have hoff : offset base m = offset base m' := by unfold offset; rw [he]
  obtain ⟨i, rfl⟩ := get_of_mem hm
  obtain ⟨j, rfl⟩ := get_of_mem hm'
  rcases lt_trichotomy i j with hlt | rfl | hgt
  · have := pairwise_iff_get.1 hsorted i j hlt
    omega
  · rfl
  · have := pairwise_iff_get.1 hsorted j i hgt
    omega

/-- The list of the protected packets is known once its sequence numbers are. -/
theorem eq_protectedBut {lost : BitVec 16} :
    ∀ (l : List Packet) (L : List ProtectedPacket), (∀ m ∈ l, m ∈ media) →
      L.map (·.seqNum) = l.map (·.parseSequenceNumber) → (∀ q ∈ L, q.seqNum = lost → q.pkt = none) →
      (∀ q ∈ L, q.seqNum ≠ lost → ∃ m ∈ media, m.parseSequenceNumber = q.seqNum ∧ q.pkt = some m) →
      L = protectedBut lost l := by
  intro l
  induction l with
  | nil =>
    intro L _ hL _ _
    exact map_eq_nil_iff.1 hL
  | cons m l ih =>
    intro L hl hL hlost hpresent
    obtain ⟨q, L, rfl, hq, hL⟩ := map_eq_cons_iff.1 hL
    unfold protectedBut
    rw [map_cons]
    change q.seqNum = m.parseSequenceNumber at hq
    congr 1
    · by_cases he : m.parseSequenceNumber = lost
      · rw [if_pos he]
        have := hlost q (by simp) (hq.trans he)
        rw [← hq, ← this]
      obtain ⟨m', hm', hseq, hpkt⟩ := hpresent q (by simp) (hq ▸ he)
      have hmm : m' = m := seqNum_injective hsorted hm' (hl m (by simp)) (hseq.trans hq)
      rw [if_neg he, ← hmm, hseq, ← hpkt]
    · exact ih L (fun m' hm' => hl m' (by simp [hm'])) hL (fun q' hq' => hlost q' (by simp [hq']))
        fun q' hq' => hpresent q' (by simp [hq'])

/-! ## Recovery from one FEC packet -/

omit hsorted

theorem recoverPacket_covered {size : Nat} {ssrc : BitVec 32} {l : List Packet} {lost : Packet}
    (hf : ReadBack scheme row size ssrc base fecPacket f) (h8 : 8 ≤ f.fecHeaderSize)
    (h : Holds f.fecHeaderSize l fecPacket) (hfits : ∀ m ∈ l, Fits f.fecHeaderSize m)
    (hshort : ∀ m ∈ l, m.length ≤ ipPacketSize - kRtpHeaderSize)
    (hnodup : (l.map (·.parseSequenceNumber)).Nodup) (hlost : lost ∈ l)
    (hssrc : lost.parseSsrc = ssrc) (hversion : lost.byteAt 0 &&& 0xc0 = 0x80) :
    recoverPacket { f with protectedPackets := protectedBut lost.parseSequenceNumber l } =
      .ok (some ⟨lost.parseSequenceNumber, true, false, lost⟩) := by
  obtain ⟨p, hstart, hcov⟩ := startPacketRecovery_covers hf h8 h (ne_nil_of_mem hlost) hfits
  obtain ⟨q, hxor, hbytes⟩ := xorProtectedPackets_ok lost.parseSequenceNumber l 0 p fun m hm =>
    ⟨(hfits m hm).padded, by have := hshort m hm; have := (hfits m hm).length_ge; omega⟩
  rw [if_pos (mem_map_of_mem hlost)] at hxor
  have herased := fun i => parity_erased (·.parseSequenceNumber)
    (fun m => contribution kRtpHeaderSize m i) hnodup hlost
  have hfinish : finishPacketRecovery f lost.parseSequenceNumber q = some lost := by
    refine finishPacketRecovery_eq (hf.protectedSsrc.trans hssrc.symm) (hfits lost hlost).length_ge
      (hshort lost hlost) hversion ?_ fun i hi h1 hgap => ?_
    · rw [hbytes 0 (by decide), xor_and, hcov.first, ← xor_and, herased 0]
      rfl
    · rw [hbytes i hi, hcov.bytes i hi h1 hgap, herased i]
  have hs : startPacketRecovery
      { f with protectedPackets := protectedBut lost.parseSequenceNumber l } = .ok (some p) := hstart
  have hfin : finishPacketRecovery
      { f with protectedPackets := protectedBut lost.parseSequenceNumber l }
      lost.parseSequenceNumber q = some lost := hfinish
  unfold recoverPacket
  rw [hs]
  dsimp only
  rw [hxor]
  dsimp only
  rw [hfin]
  rfl

/-! ## The encoder -/

theorem ulpfecHeaderSize_cases (size : Nat) :
    ulpfecHeaderSize size = 14 ∨ ulpfecHeaderSize size = 18 := by
  unfold ulpfecHeaderSize
  split
  · exact .inl rfl
  · exact .inr rfl

theorem flexfecHeaderSize_cases (size : Nat) : flexfecHeaderSize size = 20 ∨
    flexfecHeaderSize size = 24 ∨ flexfecHeaderSize size = 32 := by
  unfold flexfecHeaderSize
  split
  · exact .inl rfl
  split
  · exact .inr (.inl rfl)
  · exact .inr (.inr rfl)

theorem fecHeaderSize_bounds (scheme : FecScheme) (size : Nat) :
    fecHeaderSize scheme kUlpfecPacketMaskSizeLBitClear ≤ fecHeaderSize scheme size ∧
      fecHeaderSize scheme size ≤ fecHeaderSize scheme kUlpfecPacketMaskSizeLBitClear + 12 := by
  cases scheme with
  | ulpfec =>
    have := ulpfecHeaderSize_cases size
    change 14 ≤ ulpfecHeaderSize size ∧ ulpfecHeaderSize size ≤ 26
    omega
  | flexfec =>
    have := flexfecHeaderSize_cases size
    change 20 ≤ flexfecHeaderSize size ∧ flexfecHeaderSize size ≤ 32
    omega

theorem fecHeaderSize_ge (scheme : FecScheme) (size : Nat) : 14 ≤ fecHeaderSize scheme size :=
  Nat.le_trans (by cases scheme <;> decide) (fecHeaderSize_bounds scheme size).1

variable (hm : Protectable scheme first rest)
include hm

theorem Protectable.fits (size : Nat)
    (hmem : m ∈ first :: rest) : Fits (fecHeaderSize scheme size) m := by
  have hge := hm.length_ge m hmem
  have hle := hm.length_le m hmem
  have hb := fecHeaderSize_bounds scheme size
  unfold ipPacketSize kRtpHeaderSize at *
  exact ⟨hm.padded m hmem, hge, by unfold ipPacketSize kRtpHeaderSize; omega,
    by unfold ipPacketSize; omega⟩

omit hm in
theorem packetMaskSize_cases (n : Nat) : packetMaskSize n = 2 ∨ packetMaskSize n = 6 := by
  unfold packetMaskSize
  split
  · exact .inr rfl
  · exact .inl rfl

/-- The packet made from a row: its payload holds the packets that the moved row selects. -/
theorem encodeRow_ok (hrow : ValidRow (first :: rest).length row) :
    ∃ row' size fecPacket, (size = 2 ∨ size = 6) ∧ row'.length = size ∧
      encodeRow scheme (first :: rest) first row = .ok (some (finalizeFecHeader scheme
        first.parseSsrc first.parseSequenceNumber row' size fecPacket)) ∧
      Holds (fecHeaderSize scheme (minPacketMaskSize scheme row' size))
        (selected first.parseSequenceNumber row' (first :: rest)) fecPacket ∧
      Spread first rest row row'.bit := by
  obtain ⟨row', n, hins, hlen, hspread⟩ := insertZerosInPacketMask_spec hm.ascending fun _ => hrow
  obtain ⟨fecPacket, hgen, hholds⟩ := generateFecPayloadFrom_ok first.parseSequenceNumber row'
    (Nat.le_trans (by decide) (fecHeaderSize_ge scheme
      (minPacketMaskSize scheme row' (packetMaskSize n))))
    (first :: rest) 0 0 [] empty hm.increasing (fun m hmem => hm.fits _ hmem) (by omega)
    (fun m he => by
      have : first = m := by simpa using he
      rw [← this, offset_first])
    (Holds.empty _)
  refine ⟨row', packetMaskSize n, fecPacket, packetMaskSize_cases n, hlen, ?_, hholds, hspread⟩
  unfold encodeRow
  rw [hins]
  dsimp only
  unfold generateFecPayload
  rw [hgen]

omit hm in
theorem encodeRows_ok (scheme : FecScheme) (media : List Packet) (first : Packet)
    (rows : List MaskRow)
    (h : ∀ row ∈ rows, ∃ fecPacket, encodeRow scheme media first row = .ok (some fecPacket)) :
    ∃ fecPackets, encodeRows scheme media first rows = .ok (some fecPackets) ∧
      List.Forall₂ (fun row fecPacket => encodeRow scheme media first row = .ok (some fecPacket))
        rows fecPackets := by
  induction rows with
  | nil => exact ⟨[], rfl, .nil⟩
  | cons row rows ih =>
    obtain ⟨fecPacket, hrow⟩ := h row (by simp)
    obtain ⟨fecPackets, hrows, hall⟩ := ih fun r hr => h r (by simp [hr])
    refine ⟨fecPacket :: fecPackets, ?_, .cons hrow hall⟩
    unfold encodeRows
    rw [hrow]
    rw [hrows]

theorem Protectable.length_le_max :
    (first :: rest).length ≤ kMaxMediaPackets := by
  have hlast : rest.length < (first :: rest).length := by simp
  have h := index_le_offset hm.increasing (Nat.zero_le rest.length) hlast
  have hspan := hm.span _ (get_mem (first :: rest) ⟨rest.length, hlast⟩)
  rw [length_cons]
  omega

/-- On packets that can be protected the encoder makes a packet from each row. -/
theorem encodeFec_ok (generatePacketMasks : Nat → Nat → Nat → MaskRow) (protectionFactor : BitVec 8)
    {rows : List MaskRow} (hrows : packetMasks generatePacketMasks (first :: rest).length
      (numFecPackets (first :: rest).length protectionFactor) = rows)
    (hvalid : ∀ row ∈ rows, ValidRow (first :: rest).length row) : ∃ fecPackets,
      encodeFec scheme generatePacketMasks (first :: rest) protectionFactor =
        .ok (some fecPackets) ∧ List.Forall₂ (fun row fecPacket =>
        encodeRow scheme (first :: rest) first row = .ok (some fecPacket)) rows fecPackets := by
  obtain ⟨fecPackets, hrun, hall⟩ := encodeRows_ok scheme (first :: rest) first rows
    fun row hrow => by
      obtain ⟨_, _, _, _, _, hok, _⟩ := encodeRow_ok hm (hvalid row hrow)
      exact ⟨_, hok⟩
  refine ⟨fecPackets, ?_, hall⟩
  have hlong : ¬ ((first :: rest).any fun p => p.length < kRtpHeaderSize) := by
    rw [any_eq_true]
    rintro ⟨p, hp, hlt⟩
    have := hm.length_ge p hp
    exact absurd (of_decide_eq_true hlt) (by omega)
  unfold encodeFec
  dsimp only
  rw [if_neg (Nat.not_lt.2 hm.length_le_max), if_neg hlong, hrows, hrun]
  split
  · rename_i h0
    rw [h0] at hrows
    subst hrows
    cases hall
    rfl
  · rfl

omit hm in
/-- The media packets that a row of the masks selects, before zeros are inserted into it. -/
def protectedBy (row : MaskRow) (media : List Packet) : List Packet :=
  (media.zipIdx.filter fun p => row.bit p.2).map (·.1)

omit hm in
theorem filter_eq_filter_zipIdx (p : Packet → Bool) (q : Nat → Bool) :
    ∀ (l : List Packet) (k : Nat), (∀ i (hi : i < l.length), p (l.get ⟨i, hi⟩) = q (k + i)) →
      l.filter p = ((l.zipIdx k).filter fun x => q x.2).map (·.1) := by
  intro l
  induction l with
  | nil => intro k _; rfl
  | cons m l ih =>
    intro k hl
    have ih := ih (k + 1) fun i hi => by
      rw [Nat.add_assoc, Nat.add_comm 1 i]
      exact hl (i + 1) (by simpa using hi)
    have hm : p m = q k := hl 0 (by simp)
    rw [zipIdx_cons, filter_cons, filter_cons, ih, hm]
    split <;> rfl

omit hm in
/-- The packets that the FEC packet of a row protects, when all of them but `lost` are present,
give back `lost`. -/
def Recovers (scheme : FecScheme) (mediaSsrc : BitVec 32) (media : List Packet) (row : MaskRow)
    (fecPacket : Packet) : Prop :=
  protectedBy row media ≠ [] →
  ∀ (seqNum : BitVec 16) (ssrc : BitVec 32), (scheme = .ulpfec → ssrc = mediaSsrc) →
  ∃ f, readFecHeader scheme (.unread seqNum ssrc fecPacket) = some f ∧
    (parseProtectedPackets f).map (·.seqNum) =
      (protectedBy row media).map (·.parseSequenceNumber) ∧
    ∀ lost ∈ protectedBy row media, lost.byteAt 0 &&& 0xc0 = 0x80 →
      ∀ present : List ProtectedPacket,
        present.map (·.seqNum) = (parseProtectedPackets f).map (·.seqNum) →
        (∀ q ∈ present, q.seqNum = lost.parseSequenceNumber → q.pkt = none) →
        (∀ q ∈ present, q.seqNum ≠ lost.parseSequenceNumber →
          ∃ m ∈ media, m.parseSequenceNumber = q.seqNum ∧ q.pkt = some m) →
        recoverPacket { f with protectedPackets := present } =
          .ok (some ⟨lost.parseSequenceNumber, true, false, lost⟩)

theorem encodeRow_recovers (hrow : ValidRow (first :: rest).length row)
    (henc : encodeRow scheme (first :: rest) first row = .ok (some fecPacket)) :
    Recovers scheme first.parseSsrc (first :: rest) row fecPacket := by
  intro hne seqNum ssrc hssrc
  obtain ⟨row', size, payload, hsize, hlen, hok, hholds, hspread⟩ := encodeRow_ok hm hrow
  obtain rfl : fecPacket = finalizeFecHeader scheme first.parseSsrc first.parseSequenceNumber row'
      size payload := by simpa [hok] using henc.symm
  have hsel : selected first.parseSequenceNumber row' (first :: rest) =
      protectedBy row (first :: rest) :=
    filter_eq_filter_zipIdx _ _ _ 0 fun i hi => by rw [hspread.bits i hi, Nat.zero_add]
  rw [hsel] at hholds
  have hsub : ∀ m ∈ protectedBy row (first :: rest), m ∈ first :: rest := fun m hmem => by
    rw [← hsel] at hmem
    exact (mem_filter.1 hmem).1
  have hfits : ∀ k, ∀ m ∈ protectedBy row (first :: rest), Fits (fecHeaderSize scheme k) m :=
    fun k m hmem => hm.fits k (hsub m hmem)
  have hshort : ∀ m ∈ protectedBy row (first :: rest), m.length ≤ ipPacketSize - kRtpHeaderSize :=
    fun m hmem => Nat.le_trans (hm.length_le m (hsub m hmem)) (Nat.sub_le _ _)
  have hnodup : ((protectedBy row (first :: rest)).map (·.parseSequenceNumber)).Nodup := by
    rw [← hsel]
    refine (List.Pairwise.filter _ hm.increasing).map _ fun p q hlt he => ?_
    unfold offset at hlt
    rw [he] at hlt
    exact absurd hlt (Nat.lt_irrefl _)
  obtain ⟨m₀, hm₀, hpay⟩ := hholds.length_mem hne
  obtain ⟨f, hread, hback⟩ := readFecHeader_finalize scheme payload seqNum
    first.parseSequenceNumber ssrc first.parseSsrc hsize hlen hssrc (by rw [hpay]; omega)
    (by rw [hpay]; exact (hfits _ m₀ hm₀).length_le)
  have hseq : (parseProtectedPackets f).map (·.seqNum) =
      (protectedBy row (first :: rest)).map (·.parseSequenceNumber) := by
    rw [parseProtectedPackets_seqNums hback.mask, hback.seqNumBase,
      seqNums_eq_selected hm.increasing hspread.only hback.mask_end, hsel]
  refine ⟨f, hread, hseq, fun lost hlost hversion present hmap hnone hsome => ?_⟩
  rw [eq_protectedBut hm.increasing _ present hsub (hmap.trans hseq) hnone hsome]
  rw [← hback.headerSize] at hholds
  refine recoverPacket_covered hback ?_ hholds ?_ hshort hnodup hlost
    (hm.ssrc lost (hsub lost hlost)) hversion
  · rw [hback.headerSize]
    exact Nat.le_trans (by decide) (fecHeaderSize_ge _ _)
  · rw [hback.headerSize]
    exact hfits _

omit hm

/-- **FEC recovery is exact.** The encoder makes one FEC packet from each row of the masks, and
each of them gives back any packet of RTP version 2 that it protects, in its length, in all bytes
and in its sequence number. -/
theorem recovery_exact {scheme : FecScheme} {first : Packet} {rest : List Packet}
    (hm : Protectable scheme first rest) (generatePacketMasks : Nat → Nat → Nat → MaskRow)
    (protectionFactor : BitVec 8)
    (hvalid : ∀ row ∈ packetMasks generatePacketMasks (first :: rest).length
      (numFecPackets (first :: rest).length protectionFactor),
      ValidRow (first :: rest).length row) : ∃ fecPackets,
      encodeFec scheme generatePacketMasks (first :: rest) protectionFactor =
        .ok (some fecPackets) ∧ List.Forall₂ (Recovers scheme first.parseSsrc (first :: rest))
        (packetMasks generatePacketMasks (first :: rest).length
          (numFecPackets (first :: rest).length protectionFactor)) fecPackets := by
  obtain ⟨fecPackets, hrun, hall⟩ := encodeFec_ok hm generatePacketMasks protectionFactor rfl hvalid
  refine ⟨fecPackets, hrun, ?_⟩
  have hmem := (forall₂_and_left _ _).2 ⟨hvalid, hall⟩
  exact hmem.imp fun row fecPacket h => encodeRow_recovers hm h.1 h.2

/-! ## Packets with given headers -/

/-- A packet of `length` bytes that are zero but for the first one, the sequence number and the
byte behind the RTP header. -/
def samplePacket (firstByte payload : BitVec 8) (seqNum : BitVec 16) (length : Nat) : Packet :=
  ⟨length, fun i => if i.val = 0 then firstByte else if i.val = 2 then hi16 seqNum
    else if i.val = 3 then lo16 seqNum else if i.val = 12 ∧ 12 < length then payload else 0#8⟩

theorem samplePacket_padded (firstByte payload : BitVec 8) (seqNum : BitVec 16) {length : Nat}
    (h : kRtpHeaderSize ≤ length) : (samplePacket firstByte payload seqNum length).ZeroPadded := by
  intro i hi
  have hle : length ≤ i := hi
  unfold kRtpHeaderSize at h
  unfold byteAt
  split
  · change (if i = 0 then _ else if i = 2 then _ else if i = 3 then _
      else if i = 12 ∧ 12 < length then _ else _) = _
    rw [if_neg (by omega), if_neg (by omega), if_neg (by omega), if_neg (by omega)]
  · rfl

/-- Two packets around a wrap of the sequence numbers, with a hole between them. -/
theorem protectable_two_packets : Protectable .flexfec (samplePacket 0x80 0 0xffff 12)
    [samplePacket 0x80 0x55 1 14] where
  increasing := by decide
  span := by decide
  ssrc := by decide
  length_ge := by decide
  length_le := by decide
  padded := by
    intro m hm
    rcases mem_cons.1 hm with rfl | hm
    · exact samplePacket_padded _ _ _ (by decide)
    · rw [mem_singleton.1 hm]
      exact samplePacket_padded _ _ _ (by decide)

theorem validRow_of_bits {n : Nat} (hn : n ≤ 16) (hlen : row.length = 2)
    (hbits : ∀ j : Fin 16, n ≤ j.val → row.bit j = false) : ValidRow n row where
  length := by
    rw [hlen]
    exact (if_neg (Nat.not_lt.2 hn)).symm
  bits j hj := by
    by_cases hlt : j < 16
    · exact hbits ⟨j, hlt⟩ hj
    unfold MaskRow.bit
    rw [MaskRow.byte_of_le (by omega)]
    exact BitVec.getMsbD_zero

theorem recovery_exact_two_packets : ∃ fecPacket f, encodeFec .flexfec (fun _ _ _ => [0xc0, 0])
      [samplePacket 0x80 0 0xffff 12, samplePacket 0x80 0x55 1 14] 128 = .ok (some [fecPacket]) ∧
      readFecHeader .flexfec (.unread 7 9 fecPacket) = some f ∧ recoverPacket { f with
        protectedPackets := [⟨0xffff, some (samplePacket 0x80 0 0xffff 12)⟩, ⟨1, none⟩] } =
        .ok (some ⟨1, true, false, samplePacket 0x80 0x55 1 14⟩) := by
  obtain ⟨_, hrun, hall⟩ := recovery_exact protectable_two_packets
    (fun _ _ _ => [0xc0, 0]) 128 (fun row hrow => by
      rw [mem_singleton.1 hrow]
      exact validRow_of_bits (by decide) rfl (by decide))
  obtain ⟨fecPacket, _, hrec, hnil, rfl⟩ := forall₂_cons_left_iff.1 hall
  obtain rfl := forall₂_nil_left_iff.1 hnil
  obtain ⟨f, hread, hseq, hlost⟩ := hrec (by decide +kernel) 7 9 (by decide)
  refine ⟨fecPacket, f, hrun, hread, hlost (samplePacket 0x80 0x55 1 14) ?_ (by decide) _ ?_ ?_ ?_⟩
  · exact mem_of_getElem? (i := 1) rfl
  · rw [hseq]
    decide
  · decide
  intro q hq hne
  rcases mem_cons.1 hq with rfl | hq
  · exact ⟨_, by simp, by decide, rfl⟩
  · rw [mem_singleton.1 hq] at hne
    exact absurd (by decide) hne

/-- A packet of RTP version 0 comes back with version 2. -/
theorem recovery_sets_version : Protectable .ulpfec (samplePacket 0 0 5 12) [] ∧
    ValidRow 1 [0x80, 0] ∧ ∃ fecPacket f r,
      encodeFec .ulpfec (fun _ _ _ => [0x80, 0]) [samplePacket 0 0 5 12] 128 =
        .ok (some [fecPacket]) ∧ readFecHeader .ulpfec (.unread 7 0 fecPacket) = some f ∧
      (parseProtectedPackets f).map (·.seqNum) = [5] ∧
      recoverPacket { f with protectedPackets := [⟨5, none⟩] } = .ok (some r) ∧
      r.pkt.byteAt 0 = 0x80 ∧ (samplePacket 0 0 5 12).byteAt 0 = 0 := by
  refine ⟨⟨by decide, by decide, by decide, by decide, by decide, fun m hm => ?_⟩,
    validRow_of_bits (by decide) rfl (by decide), _, _, _, rfl, rfl, by decide +kernel, rfl,
    by decide +kernel, by decide⟩
  rw [mem_singleton.1 hm]
  exact samplePacket_padded _ _ _ (by decide)

end WebRtc.Rtp.Fec
