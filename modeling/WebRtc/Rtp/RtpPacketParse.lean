import WebRtc.Rtp.RtpPacketRuns

/-! `ParseBuffer` reads back every packet that has the layout, and so every packet built within its
buffer. -/

namespace WebRtc.Rtp.RtpPacket

open BigEndian Transition List ExtensionInfo Packet

variable {built : Prop} {elements : List Element} {p q : Packet}

/-! ## Packets with the layout -/

theorem Layout.payloadOffset_le_size (h : Layout built p elements) : headerEnd p.byte ≤ p.size := by
  rw [← h.payloadOffset]
  unfold Packet.size
  omega

/-- The extension part of `ParseBuffer` finds the headers of the packet. -/
theorem Layout.parseHeaderEnd_eq (h : Layout built p elements) (htypes : q.types = p.types)
    {fuel : Nat} (hfuel : p.size < fuel) :
    ∃ extensionsSize, parseHeaderEnd fuel p.byte p.size (kFixedHeaderSize + p.numCsrc * 4)
      (q.extensionEntries.map reset) =
        .accepted ⟨p.payloadOffset, extensionsSize, p.extensionEntries⟩ := by
  have hshort : headerEnd p.byte ≤ 65535 := h.payloadOffset ▸ h.short
  obtain ⟨⟨offset, extensionsSize, entries⟩, hok⟩ :=
    @parseHeaderEnd_ok p.byte (q.extensionEntries.map reset) hshort _ _ h.payloadOffset_le_size hfuel
  obtain ⟨hoffset, hentries, -⟩ := found_of_accepted hshort hok
  rw [h.extensionElements_eq, map_reset_congr htypes, ← h.entries] at hentries
  rw [← h.payloadOffset] at hoffset
  cases hoffset
  cases hentries
  exact ⟨extensionsSize, hok⟩

/-- What a reader of the packet sees. -/
structure SameContent (q p : Packet) : Prop where
  marker : q.marker = p.marker
  payloadType : q.payloadType = p.payloadType
  sequenceNumber : q.sequenceNumber = p.sequenceNumber
  timestamp : q.timestamp = p.timestamp
  ssrc : q.ssrc = p.ssrc
  csrcs : q.csrcs = p.csrcs
  extensions : ∀ type, q.getExtension type = p.getExtension type
  payload : q.payload = p.payload
  paddingSize : q.paddingSize = p.paddingSize

/-- The CSRCs and the extensions lie in the headers. -/
theorem Layout.sameHeaders (h : Layout built p elements)
    (hbytes : ∀ i, i < p.payloadOffset → q.byte i = p.byte i)
    (he : q.extensionEntries = p.extensionEntries) :
    q.csrcs = p.csrcs ∧ ∀ type, q.getExtension type = p.getExtension type := by
  have hcsrcs : 12 + p.numCsrc * 4 ≤ p.payloadOffset := h.csrcEnd_le
  have hnum : q.numCsrc = p.numCsrc :=
    congrArg (fun b : Byte => (b &&& 0x0f#8).toNat) (hbytes 0 (by omega))
  refine ⟨?_, fun type => ?_⟩
  · unfold csrcs
    rw [hnum]
    refine map_congr_left fun i hi => read32_congr fun j _ hj => hbytes j ?_
    have := mem_range.mp hi
    unfold kFixedHeaderSize at hj
    omega
  unfold getExtension
  have hfind : q.findExtension type type.valueSizeBytes =
      p.findExtension type type.valueSizeBytes := by
    unfold findExtension
    rw [he]
  rw [hfind]
  cases hfound : p.findExtension type type.valueSizeBytes with
  | none => rfl
  | some offset =>
    refine congrArg some (map_congr_left fun i hi => hbytes _ ?_)
    have hi' := mem_range.mp hi
    unfold findExtension at hfound
    split at hfound
    · cases hfound
    rename_i e hfinde
    split at hfound
    · cases hfound
    rename_i hset
    split at hfound
    · cases hfound
    obtain ⟨idx, hidx⟩ := mem_iff_getElem?.mp (mem_of_find?_eq_some hfinde)
    obtain ⟨x, hx, hxoff, hxlen⟩ := h.value_of_entry hidx hset
    have hrange := h.value_range hx
    have heq : e.offset = offset := Option.some.inj hfound
    omega

/-- Equal bytes up to the size are seen as equal. -/
theorem Layout.sameContent (h : Layout built p elements) {n : Nat} {b : Buffer}
    (hbytes : ∀ i, i < p.size → b.bytes i = p.byte i) :
    SameContent { p with extensionsSize := n, buffer := b } p := by
  have hsize : p.size = p.payloadOffset + p.payloadSize + p.paddingSize := rfl
  obtain ⟨hcsrcs, hext⟩ := h.sameHeaders (q := { p with extensionsSize := n, buffer := b })
    (fun i hi => hbytes i (by omega)) rfl
  refine ⟨rfl, rfl, rfl, rfl, rfl, hcsrcs, hext, map_congr_left fun i hi => hbytes _ ?_, rfl⟩
  have := mem_range.mp hi
  dsimp only at *
  omega

/-- A packet with the layout is parsed back if the padding bit says whether it has padding. -/
theorem Layout.parse_eq (h : Layout built p elements) (fresh : Nat → Byte)
    (hbit : p.byte 0 &&& 0x20#8 ≠ 0#8 ↔ 0 < p.paddingSize)
    (hlast : 0 < p.paddingSize → (p.byte (p.size - 1)).toNat = p.paddingSize)
    (htypes : q.types = p.types) {fuel : Nat} (hfuel : p.size < fuel) :
    ∃ q', q.parse fresh fuel p.byte p.size = some (true, q') ∧ SameContent q' p := by
  have hge := h.payloadOffset_ge
  have hsize : p.size = p.payloadOffset + p.payloadSize + p.paddingSize := rfl
  have hcsrcs : 12 + p.numCsrc * 4 ≤ p.payloadOffset := h.csrcEnd_le
  have hpadding : (if p.byte 0 &&& 0x20#8 ≠ 0#8 then (p.byte (p.size - 1)).toNat else 0) =
      p.paddingSize := by
    split
    · next hset => exact hlast (hbit.mp hset)
    rename_i hclear
    rw [hbit] at hclear
    omega
  obtain ⟨extensionsSize, hheader⟩ := h.parseHeaderEnd_eq htypes hfuel
  have hbuffer : q.parseBuffer fuel p.byte p.size =
      .accepted { p with extensionsSize := extensionsSize, buffer := q.buffer } := by
    unfold parseBuffer
    rw [hpadding]
    rw [if_neg (by unfold kFixedHeaderSize; omega), if_neg (not_not.mpr h.header.version),
      if_neg (by unfold numCsrc at hcsrcs; unfold kFixedHeaderSize; omega),
      if_neg (by rw [hbit]; omega)]
    unfold numCsrc at hheader
    rw [hheader]
    dsimp only
    rw [if_neg (by omega), ← h.header.marker, ← h.header.payloadType, ← h.header.sequenceNumber,
      ← h.header.timestamp, ← h.header.ssrc,
      show p.size - p.payloadOffset - p.paddingSize = p.payloadSize by omega]
  exact ⟨_, by unfold parse; rw [hbuffer], h.sameContent fun i hi => if_pos hi⟩

/-! ## Parsed packets -/

/-- The padding of a packet. -/
def paddingOf (data : Nat → Byte) (size : Nat) : Nat :=
  if data 0 &&& 0x20#8 ≠ 0#8 then (data (size - 1)).toNat else 0

/-- What `ParseBuffer` has checked and `Parse` has stored when it returns true. -/
structure Accepted (p : Packet) (data : Nat → Byte) (size : Nat) (q : Packet) : Prop where
  minimum : 12 ≤ size
  version : data 0 >>> 6 = 2#8
  csrcs : csrcEnd data ≤ size
  header : headerEnd data ≤ size
  padding : headerEnd data + paddingOf data size ≤ size
  paddingBit : data 0 &&& 0x20#8 ≠ 0#8 → paddingOf data size ≠ 0
  marker : q.marker = decide (data 1 &&& 0x80#8 ≠ 0#8)
  payloadType : q.payloadType = data 1 &&& 0x7f#8
  sequenceNumber : q.sequenceNumber = read16 data 2
  timestamp : q.timestamp = read32 data 4
  ssrc : q.ssrc = read32 data 8
  paddingSize : q.paddingSize = paddingOf data size
  wholeSize : q.size = size
  found : Found data (p.extensionEntries.map reset)
    ⟨q.payloadOffset, q.extensionsSize, q.extensionEntries⟩
  bytes : ∀ i < size, q.byte i = data i
  stored : q.buffer.size = size ∧ size ≤ q.buffer.capacity

/-- Both `Parse` store the bytes after `ParseBuffer`. -/
theorem accepted_of_parseBuffer {fuel size : Nat} {data : Nat → Byte} {b : Buffer}
    (hshort : headerEnd data ≤ size → headerEnd data ≤ 65535)
    (h : p.parseBuffer fuel data size = .accepted q)
    (hbytes : ∀ i < size, b.bytes i = data i) (hstored : b.size = size ∧ size ≤ b.capacity) :
    Accepted p data size { q with buffer := b } := by
  have hk : kFixedHeaderSize = 12 := rfl
  have hend : kFixedHeaderSize + (data 0 &&& 0x0f#8).toNat * 4 = csrcEnd data := rfl
  have hof : (if data 0 &&& 0x20#8 ≠ 0#8 then (data (size - 1)).toNat else 0) =
    paddingOf data size := rfl
  simp only [parseBuffer, hend, hof] at h
  split_ifs at h with hmin hver hcs hpad
  split at h
  · cases h
  · cases h
  rename_i found hok
  have hheader := headerEnd_le_of_accepted (by omega) hok
  have hfound := found_of_accepted (hshort hheader) hok
  have hoffset := hfound.payloadOffset
  split_ifs at h with hroom
  cases h
  exact
    { minimum := by omega
      version := Decidable.not_not.mp hver
      csrcs := by omega
      header := hheader
      padding := by omega
      paddingBit := fun hbit h0 => hpad ⟨hbit, h0⟩
      marker := rfl
      payloadType := rfl
      sequenceNumber := rfl
      timestamp := rfl
      ssrc := rfl
      paddingSize := rfl
      wholeSize := by unfold Packet.size; dsimp only; omega
      found := hfound
      bytes := hbytes
      stored := hstored }

theorem accepted_of_parse {fresh : Nat → Byte} {fuel size : Nat} {data : Nat → Byte}
    (hshort : headerEnd data ≤ size → headerEnd data ≤ 65535)
    (h : p.parse fresh fuel data size = some (true, q)) :
    Accepted p data size q := by
  unfold parse at h
  split at h
  · cases h
  · cases h
  rename_i r hr
  cases h
  refine accepted_of_parseBuffer hshort hr (fun i hi => if_pos hi) ⟨rfl, ?_⟩
  unfold Buffer.setData Buffer.ensureCapacity
  split
  · assumption
  · exact Nat.le_max_left _ _

theorem Accepted.entries {size : Nat} {data : Nat → Byte} (h : Accepted p data size q) :
    q.extensionEntries = (extensionElements data).foldl store (p.extensionEntries.map reset) :=
  h.found.entries

/-- **Build and parse agree.** Every run of the calls within the buffer, from `Clear()`, gives a
packet whose size is the size of its buffer, whose getters agree with the buffer, and which is
parsed back by any packet with the same map. -/
theorem parse_of_built (fresh fresh' : Nat → Byte) (sizeBits : Nat) (p₀ p q : Packet) (fuel : Nat)
    (hentries : p₀.extensionEntries.length = kMaxExtensionHeaders)
    (hcap : kFixedHeaderSize ≤ p₀.buffer.capacity)
    (hrun : Reaches (Guarded (fun p call => call.Fits sizeBits p) (Step fresh sizeBits))
      (p₀.clear fresh) p)
    (hmap : q.types = p₀.types) (hfuel : p.size < fuel) : p.size = p.buffer.size ∧ HeaderAgrees p ∧
      ∃ q', q.parse fresh' fuel p.byte p.size = some (true, q') ∧ SameContent q' p := by
  obtain ⟨⟨_, h⟩, htypes⟩ := layout_of_reaches fresh sizeBits hentries hcap hrun
  have hown := h.ownBits trivial
  exact ⟨h.size.symm, h.header,
    h.parse_eq fresh' hown.paddingBit hown.padding (hmap.trans htypes.symm) hfuel⟩

/-- A new packet with a map that has the transport sequence number as its first extension. -/
def newPacket (capacity : Nat) : Packet :=
  { marker := false
    payloadType := 0#8
    paddingSize := 0
    sequenceNumber := 0#16
    timestamp := 0#32
    ssrc := 0#32
    payloadOffset := 0
    payloadSize := 0
    extensionEntries := ⟨.transportSequenceNumber, 0, 0⟩ :: List.replicate 13 ⟨.none, 0, 0⟩
    extensionsSize := 0
    buffer := ⟨fun _ => 0#8, 0, capacity⟩ }

/-- The transport sequence number set in a new packet. -/
def numbered (capacity : Nat) : Packet :=
  ((newPacket capacity).clear fun _ => 0#8).setExtension (fun _ => 0#8) .transportSequenceNumber
    [0x12#8, 0x34#8]

/-- In a buffer of twenty bytes the extension comes back. -/
theorem parse_numbered_twenty :
    ∃ q', (newPacket 100).parse (fun _ => 0#8) 32 (numbered 20).byte (numbered 20).size =
      some (true, q') ∧ SameContent q' (numbered 20) := by
  have hstep : Guarded (fun p call => Call.Fits 32 p call) (Step (fun _ => 0#8) 32)
      ((newPacket 20).clear fun _ => 0#8)
      (.setExtension .transportSequenceNumber [0x12#8, 0x34#8]) (numbered 20) :=
    ⟨extensionFits_of_words (by decide) _, ⟨by decide, rfl⟩, rfl⟩
  exact (parse_of_built (fun _ => 0#8) (fun _ => 0#8) 32 (newPacket 20) (numbered 20)
    (newPacket 100) 32 rfl (by decide) (Reaches.refl.next _ hstep) rfl (by decide)).2.2

/-- With one byte less the padding does not fit: the buffer is reallocated and the extension
header is lost. -/
theorem parse_numbered_nineteen :
    Reaches (Step (fun _ => 0#8) 32) ((newPacket 19).clear fun _ => 0#8) (numbered 19) ∧
      (numbered 19).getExtension .transportSequenceNumber = some [0x12#8, 0x34#8] ∧
      ((newPacket 100).parse (fun _ => 0#8) 32 (numbered 19).byte (numbered 19).size).map
        (fun r => (r.1, r.2.getExtension .transportSequenceNumber)) = some (true, none) := by
  refine ⟨Reaches.refl.next (.setExtension .transportSequenceNumber [0x12#8, 0x34#8])
    ⟨⟨by decide, rfl⟩, rfl⟩, by decide +kernel, by decide +kernel⟩

end WebRtc.Rtp.RtpPacket
