import WebRtc.Lib.ByteMasks
import WebRtc.Rtp.RtpExtensionElements

/-! What the operations of `rtp::Packet` keep: the fixed header agrees with the cached fields, and
the entries are the places of the elements of the extension block. -/

namespace WebRtc.Rtp.RtpPacket

open BigEndian ByteMasks Buffer List Packet

variable {b : Buffer} {offset i idx : Nat} {m m' : Nat → Byte} {elements : List Element}
  {e : ExtensionInfo} {p p' : Packet} {built : Prop}

/-! ## Writes to the buffer -/

namespace Buffer

@[simp] theorem writeAt_size (b : Buffer) (offset : Nat) (byte : Byte) :
    (b.writeAt offset byte).size = b.size := by
  unfold writeAt
  split <;> rfl

@[simp] theorem writeAt_capacity (b : Buffer) (offset : Nat) (byte : Byte) :
    (b.writeAt offset byte).capacity = b.capacity := by
  unfold writeAt
  split <;> rfl

@[simp] theorem write_size (b : Buffer) (offset : Nat) (bytes : List Byte) :
    (b.write offset bytes).size = b.size := by
  induction bytes generalizing b offset with
  | nil => rfl
  | cons _ bytes ih => rw [write, ih, writeAt_size]

@[simp] theorem write_capacity (b : Buffer) (offset : Nat) (bytes : List Byte) :
    (b.write offset bytes).capacity = b.capacity := by
  induction bytes generalizing b offset with
  | nil => rfl
  | cons _ bytes ih => rw [write, ih, writeAt_capacity]

theorem writeAt_same (h : offset < b.capacity) (byte : Byte) :
    (b.writeAt offset byte).bytes offset = byte := by
  unfold writeAt
  rw [if_pos h]
  exact if_pos rfl

theorem write_inside {k : Nat} {bytes : List Byte} {byte : Byte} (hk : bytes[k]? = some byte)
    (h : offset + bytes.length ≤ b.capacity) : (b.write offset bytes).bytes (offset + k) = byte := by
  induction bytes generalizing b offset k with
  | nil => simp at hk
  | cons head bytes ih =>
    rw [length_cons] at h
    rw [write]
    cases k with
    | zero =>
      rw [write_outside bytes (by omega), Nat.add_zero, writeAt_same (by omega)]
      simpa using hk
    | succ k =>
      rw [show offset + (k + 1) = offset + 1 + k by omega]
      exact ih (by simpa using hk) (by rw [writeAt_capacity]; omega)

theorem setSize_of_le (fresh : Nat → Byte) {size : Nat} (h : size ≤ b.capacity) :
    b.setSize fresh size = { b with size := size } := by
  unfold setSize ensureCapacity
  rw [if_pos h]

theorem size_le_setSize (fresh : Nat → Byte) (b : Buffer) (size : Nat) :
    size ≤ (b.setSize fresh size).capacity := by
  unfold setSize ensureCapacity
  split
  · assumption
  · exact Nat.le_max_left _ _

end Buffer

/-! ## Reads that depend on their bytes only -/

theorem read16_congr (h : ∀ j, i ≤ j → j < i + 2 → m' j = m j) : read16 m' i = read16 m i := by
  unfold read16
  rw [h i (by omega) (by omega), h (i + 1) (by omega) (by omega)]

theorem read32_congr (h : ∀ j, i ≤ j → j < i + 4 → m' j = m j) : read32 m' i = read32 m i := by
  unfold read32
  rw [read16_congr fun j hj hj' => h j hj (by omega),
    read16_congr fun j hj hj' => h j (by omega) (by omega)]

theorem read16_write16 (v : BitVec 16) (h : i + 2 ≤ b.capacity) :
    read16 (b.write i (write16 v)).bytes i = v := by
  unfold read16
  have h0 : (b.write i (write16 v)).bytes (i + 0) = hi16 v := write_inside rfl h
  rw [Nat.add_zero] at h0
  rw [h0, write_inside (show (write16 v)[1]? = some (lo16 v) from rfl) h, be16_hi_lo]

theorem read32_write32 (v : BitVec 32) (h : i + 4 ≤ b.capacity) :
    read32 (b.write i (write32 v)).bytes i = v := by
  unfold read32 read16
  have h0 : (b.write i (write32 v)).bytes (i + 0) = hi16 (hi32 v) := write_inside rfl h
  rw [Nat.add_zero] at h0
  rw [h0, write_inside (show (write32 v)[1]? = some (lo16 (hi32 v)) from rfl) h,
    show i + 2 + 1 = i + 3 by omega,
    write_inside (show (write32 v)[2]? = some (hi16 (lo32 v)) from rfl) h,
    write_inside (show (write32 v)[3]? = some (lo16 (lo32 v)) from rfl) h,
    be16_hi_lo, be16_hi_lo, be32_hi_lo]

theorem le_four_mul_extensionsWords (n : Nat) : n ≤ 4 * extensionsWords n := by
  unfold extensionsWords
  omega

/-! ## The packet -/

/-- Each cached field of the fixed header equals what is encoded in the buffer. -/
structure HeaderAgrees (p : Packet) : Prop where
  version : p.byte 0 >>> 6 = kRtpVersion
  marker : p.marker = decide (p.byte 1 &&& 0x80#8 ≠ 0#8)
  payloadType : p.payloadType = p.byte 1 &&& 0x7f#8
  sequenceNumber : p.sequenceNumber = read16 p.byte 2
  timestamp : p.timestamp = read32 p.byte 4
  ssrc : p.ssrc = read32 p.byte 8

/-- What only the setters of a packet keep: its bits say whether it has padding and extensions, and
each extension was allocated once. -/
structure OwnBits (p : Packet) : Prop where
  paddingBit : p.byte 0 &&& 0x20#8 ≠ 0#8 ↔ 0 < p.paddingSize
  padding : 0 < p.paddingSize → (p.byte (p.size - 1)).toNat = p.paddingSize
  extensionBit : p.byte 0 &&& 0x10#8 ≠ 0#8 ↔ 0 < p.extensionsSize
  few : p.extensionsSize ≤ 17 * p.extensionEntries.countP (0 < ·.length)

/-- The layout of a packet with these extension elements. It is `built` if it was not parsed or
copied. -/
structure Layout (built : Prop) (p : Packet) (elements : List Element) : Prop where
  header : HeaderAgrees p
  count : p.extensionEntries.length = kMaxExtensionHeaders
  size : p.buffer.size = p.size
  size_le : p.buffer.size ≤ p.buffer.capacity
  payloadOffset : p.payloadOffset = headerEnd p.byte
  short : p.payloadOffset ≤ 65535
  entries : p.extensionEntries = elements.foldl store (p.extensionEntries.map ExtensionInfo.reset)
  block : 0 < p.extensionsSize → HasOneByteBlock p.byte ∧
    p.extensionsOffset + p.extensionsSize ≤ p.payloadOffset
  walk : Walk p.byte p.extensionsOffset (p.extensionsOffset + p.extensionsSize) elements
  rest : HasOneByteBlock p.byte → ∀ n,
    oneByteElements p.byte p.payloadOffset n (p.extensionsOffset + p.extensionsSize) = []
  ownBits : built → OwnBits p

theorem HeaderAgrees.congr (h : HeaderAgrees p) (hm : p'.marker = p.marker)
    (ht : p'.payloadType = p.payloadType) (hs : p'.sequenceNumber = p.sequenceNumber)
    (hts : p'.timestamp = p.timestamp) (hss : p'.ssrc = p.ssrc)
    (h0 : p'.byte 0 >>> 6 = p.byte 0 >>> 6) (hbytes : ∀ i, 1 ≤ i → i < 12 → p'.byte i = p.byte i) :
    HeaderAgrees p' := by
  refine ⟨h0.trans h.version, ?_, ?_, ?_, ?_, ?_⟩
  · rw [hm, hbytes 1 (by omega) (by omega), h.marker]
  · rw [ht, hbytes 1 (by omega) (by omega), h.payloadType]
  · rw [hs, h.sequenceNumber, read16_congr fun j hj hj' => hbytes j (by omega) (by omega)]
  · rw [hts, h.timestamp, read32_congr fun j hj hj' => hbytes j (by omega) (by omega)]
  · rw [hss, h.ssrc, read32_congr fun j hj hj' => hbytes j (by omega) (by omega)]

theorem csrcEnd_le_headerEnd (m : Nat → Byte) : csrcEnd m ≤ headerEnd m := by
  unfold headerEnd
  split <;> omega

theorem Packet.extensionsOffset_ge (p : Packet) : 16 ≤ p.extensionsOffset := by
  unfold extensionsOffset kFixedHeaderSize
  omega

theorem csrcEnd_congr (h : m' 0 &&& 0x0f#8 = m 0 &&& 0x0f#8) : csrcEnd m' = csrcEnd m :=
  congrArg (fun b : Byte => 12 + b.toNat * 4) h

section

variable (h : Layout built p elements)
include h

theorem Layout.csrcEnd_le : csrcEnd p.byte ≤ p.payloadOffset :=
  h.payloadOffset ▸ csrcEnd_le_headerEnd p.byte

theorem Layout.payloadOffset_ge : 12 ≤ p.payloadOffset :=
  Nat.le_trans (Nat.le_add_right 12 _) h.csrcEnd_le

/-- The elements of the layout are those of the packet. -/
theorem Layout.extensionElements_eq : extensionElements p.byte = elements := by
  unfold extensionElements
  have hstart : p.extensionsOffset = csrcEnd p.byte + 4 := rfl
  have hwalk := h.walk
  have hoff := h.payloadOffset
  by_cases hb : HasOneByteBlock p.byte
  · rw [headerEnd_of_block hb, ← hstart] at hoff
    rw [if_pos hb, ← hstart, ← hoff]
    refine hwalk.oneByteElements_eq ?_ (by omega) (h.rest hb)
    rcases Nat.eq_zero_or_pos p.extensionsSize with h0 | hpos
    · omega
    · exact (h.block hpos).2
  · rw [if_neg hb]
    have h0 : p.extensionsSize = 0 := Nat.eq_zero_of_not_pos fun hpos => hb (h.block hpos).1
    rw [h0] at hwalk
    exact hwalk.eq_nil.symm

/-- The value of an element lies in the headers, behind the fixed ones. -/
theorem Layout.value_range {x : Element} (hx : x ∈ elements) :
    16 < x.offset ∧ x.offset + x.length ≤ p.payloadOffset := by
  have hrange := h.walk.value_range x hx
  have hge := p.extensionsOffset_ge
  have hend := (h.block (by omega)).2
  omega

/-- An entry with a length is the place of an element. -/
theorem Layout.value_of_entry {idx : Nat} {e : ExtensionInfo}
    (he : p.extensionEntries[idx]? = some e) (hset : e.length ≠ 0) :
    ∃ x ∈ elements, x.offset = e.offset ∧ x.length = e.length := by
  rw [h.entries] at he
  refine (mem_of_foldl_store elements he).resolve_left fun hreset => hset ?_
  rw [getElem?_map] at hreset
  obtain ⟨_, -, rfl⟩ := Option.map_eq_some_iff.mp hreset
  rfl

/-- The number of sources and the extensions as they were; the values of the extensions may be
other ones. -/
theorem Layout.of_area {built' : Prop} (hh : HeaderAgrees p')
    (hentries : p'.extensionEntries = p.extensionEntries)
    (hext : p'.extensionsSize = p.extensionsSize) (hoff : p'.payloadOffset = p.payloadOffset)
    (hbit : p'.byte 0 &&& 0x10#8 = p.byte 0 &&& 0x10#8)
    (hcsrc : p'.byte 0 &&& 0x0f#8 = p.byte 0 &&& 0x0f#8)
    (hbytes : ∀ i, 12 ≤ i → i < p.payloadOffset →
      (∀ x ∈ elements, i < x.offset ∨ x.offset + x.length ≤ i) → p'.byte i = p.byte i)
    (hsize : p'.buffer.size = p'.size) (hle : p'.buffer.size ≤ p'.buffer.capacity)
    (hbuilt : built' → built)
    (hpaddingBit : built' → (p'.byte 0 &&& 0x20#8 ≠ 0#8 ↔ 0 < p'.paddingSize))
    (hpadding : built' → 0 < p'.paddingSize → (p'.byte (p'.size - 1)).toNat = p'.paddingSize) :
    Layout built' p' elements := by
  have hend : csrcEnd p'.byte = csrcEnd p.byte := csrcEnd_congr hcsrc
  have hstart' : p'.extensionsOffset = csrcEnd p'.byte + 4 := rfl
  have hstart : p'.extensionsOffset = p.extensionsOffset := congrArg (· + 4) hend
  have hp : p.extensionsOffset = csrcEnd p.byte + 4 := rfl
  have hge : 12 ≤ csrcEnd p.byte := Nat.le_add_right 12 _
  have hrange := h.walk.value_range
  -- the profile and the length of the block
  have hblock : p.byte 0 &&& 0x10#8 ≠ 0#8 → ∀ i, csrcEnd p.byte ≤ i → i < csrcEnd p.byte + 4 →
      p'.byte i = p.byte i := by
    intro hx i hi hi'
    have hoff := h.payloadOffset
    unfold headerEnd at hoff
    rw [if_pos hx] at hoff
    exact hbytes i (by omega) (by omega) fun x hx => .inl (by have := hrange x hx; omega)
  have hone : HasOneByteBlock p'.byte ↔ HasOneByteBlock p.byte := by
    unfold HasOneByteBlock
    rw [hbit, hend]
    refine and_congr_right fun hx => ?_
    rw [read16_congr fun j hj hj' => hblock hx j hj (by omega)]
  refine ⟨hh, hentries ▸ h.count, hsize, hle, ?_, hoff ▸ h.short, hentries ▸ h.entries, ?_, ?_, ?_,
    fun hb => ⟨hpaddingBit hb, hpadding hb, ?_, ?_⟩⟩
  · rw [hoff, h.payloadOffset]
    unfold headerEnd
    rw [hbit, hend]
    split
    · next hx => rw [read16_congr fun j hj hj' => hblock hx j (by omega) (by omega)]
    · rfl
  · rw [hext, hone, hstart, hoff]
    exact h.block
  · rw [hstart, hext]
    refine h.walk.congr fun i hi hi' hout => hbytes i (by omega) ?_ hout
    have := (h.block (by omega)).2
    omega
  · rw [hone, hstart, hext, hoff]
    intro hb n
    rw [oneByteElements_congr fun i hi hi' => hbytes i (by omega) hi' fun x hx =>
      .inr (by have := hrange x hx; omega)]
    exact h.rest hb n
  · rw [hbit, hext]
    exact (h.ownBits (hbuilt hb)).extensionBit
  · rw [hext, hentries]
    exact (h.ownBits (hbuilt hb)).few

/-- The setters of the fixed header: nothing else moves. -/
theorem Layout.of_header {m t sn ts r} (hp : p' = { p with
      buffer := b, marker := m, payloadType := t, sequenceNumber := sn, timestamp := ts, ssrc := r })
    (hsize : b.size = p.buffer.size) (hcap : b.capacity = p.buffer.capacity)
    (h0 : b.bytes 0 = p.byte 0) (hbytes : ∀ i, 12 ≤ i → b.bytes i = p.byte i)
    (hh : HeaderAgrees p') : Layout built p' elements := by
  subst hp
  refine h.of_area hh rfl rfl rfl (congrArg (· &&& 0x10#8) h0) (congrArg (· &&& 0x0f#8) h0)
    (fun i hi _ _ => hbytes i hi) (hsize.trans h.size) (hsize.trans_le (hcap ▸ h.size_le)) id
    (fun hb => ?_) fun hb hp => ?_
  · rw [← (h.ownBits hb).paddingBit, ← h0]
    rfl
  have hge := h.payloadOffset_ge
  have hpos : 0 < p.paddingSize := hp
  exact (congrArg BitVec.toNat (hbytes _ (by unfold Packet.size; dsimp only; omega))).trans
    ((h.ownBits hb).padding hp)

/-- Every packet has room for its headers. -/
theorem Layout.payloadOffset_le : p.payloadOffset ≤ p.buffer.capacity := by
  have hsize := h.size
  have hle := h.size_le
  unfold Packet.size at hsize
  omega

theorem Layout.capacity_ge : 12 ≤ p.buffer.capacity :=
  Nat.le_trans h.payloadOffset_ge h.payloadOffset_le

/-! ## The setters -/

/-- The setters that write the second byte. -/
theorem Layout.of_second {byte t : Byte} {m : Bool}
    (hm : m = decide (byte &&& 0x80#8 ≠ 0#8)) (ht : t = byte &&& 0x7f#8) :
    Layout built { p with buffer := p.buffer.writeAt 1 byte, marker := m, payloadType := t } elements := by
  have hcap := h.capacity_ge
  have h1 : (p.buffer.writeAt 1 byte).bytes 1 = byte := writeAt_same (by omega) byte
  have hother : ∀ i ≠ 1, (p.buffer.writeAt 1 byte).bytes i = p.byte i := fun i hi =>
    writeAt_ne _ hi
  refine h.of_header rfl (writeAt_size _ _ _) (writeAt_capacity _ _ _) (hother 0 (by decide))
    (fun i hi => hother i (by omega)) ⟨?_, ?_, ?_, ?_, ?_, ?_⟩ <;> unfold Packet.byte
  · rw [hother 0 (by decide), h.header.version]
  · rw [h1, hm]
  · rw [h1, ht]
  · exact h.header.sequenceNumber.trans (read16_congr fun j hj _ => hother j (by omega)).symm
  · exact h.header.timestamp.trans (read32_congr fun j hj _ => hother j (by omega)).symm
  · exact h.header.ssrc.trans (read32_congr fun j hj _ => hother j (by omega)).symm

theorem layout_setMarker (markerBit : Bool) :
    Layout built (p.setMarker markerBit) elements := by
  obtain ⟨hset, hclear, htype, htype'⟩ := (fieldBits (p.byte 1)).top_bit
  refine h.of_second ?_ (h.header.payloadType.trans ?_)
  · cases markerBit with
    | true => exact hset.symm
    | false => exact hclear.symm
  cases markerBit with
  | true => exact htype.symm
  | false => exact htype'.symm

theorem layout_setPayloadType {payloadType : Byte} (ht : payloadType ≤ 0x7f#8) :
    Layout built (p.setPayloadType payloadType) elements := by
  obtain ⟨hmarker, htype⟩ := replace_number (p.byte 1) payloadType
  rw [(fieldBits _).number ht] at hmarker htype
  refine h.of_second ?_ htype.symm
  rw [hmarker]
  exact h.header.marker

/-- The setters that write a whole word of the fixed header. -/
theorem Layout.of_word (offset : Nat) (bytes : List Byte) (hoff : 2 ≤ offset)
    (hend : offset + bytes.length ≤ 12) {sn ts r}
    (hs : sn = read16 (p.buffer.write offset bytes).bytes 2)
    (hts : ts = read32 (p.buffer.write offset bytes).bytes 4)
    (hss : r = read32 (p.buffer.write offset bytes).bytes 8) : Layout built { p with
      buffer := p.buffer.write offset bytes, sequenceNumber := sn, timestamp := ts, ssrc :=
        r } elements := by
  have hother : ∀ i, i < offset ∨ offset + bytes.length ≤ i →
      (p.buffer.write offset bytes).bytes i = p.byte i := fun i hi => write_outside bytes hi
  refine h.of_header rfl (write_size _ _ _) (write_capacity _ _ _) (hother 0 (by omega))
    (fun i hi => hother i (by omega)) ⟨?_, ?_, ?_, hs, hts, hss⟩ <;> unfold byte
  · rw [hother 0 (by omega), h.header.version]
  · rw [hother 1 (by omega), h.header.marker]
  · rw [hother 1 (by omega), h.header.payloadType]

theorem layout_setSequenceNumber (seqNo : BitVec 16) :
    Layout built (p.setSequenceNumber seqNo) elements := by
  have hcap := h.capacity_ge
  have hother : ∀ i, 4 ≤ i → (p.setSequenceNumber seqNo).byte i = p.byte i :=
    fun i hi => write_outside _ (.inr hi)
  refine h.of_word 2 (write16 seqNo) (by decide) (by decide : 2 + 2 ≤ 12)
    (read16_write16 seqNo (by omega)).symm ?_ ?_
  · exact h.header.timestamp.trans (read32_congr fun j hj _ => hother j (by omega)).symm
  · exact h.header.ssrc.trans (read32_congr fun j hj _ => hother j (by omega)).symm

theorem layout_setTimestamp (timestamp : BitVec 32) :
    Layout built (p.setTimestamp timestamp) elements := by
  have hcap := h.capacity_ge
  have hother : ∀ i, i < 4 ∨ 8 ≤ i → (p.setTimestamp timestamp).byte i = p.byte i :=
    fun i hi => write_outside _ hi
  refine h.of_word 4 (write32 timestamp) (by decide) (by decide : 4 + 4 ≤ 12) ?_
    (read32_write32 timestamp (by omega)).symm ?_
  · exact h.header.sequenceNumber.trans (read16_congr fun j hj _ => hother j (by omega)).symm
  · exact h.header.ssrc.trans (read32_congr fun j hj _ => hother j (by omega)).symm

theorem layout_setSsrc (ssrc : BitVec 32) : Layout built (p.setSsrc ssrc) elements := by
  have hcap := h.capacity_ge
  have hother : ∀ i < 8, (p.setSsrc ssrc).byte i = p.byte i :=
    fun i hi => write_outside _ (.inl hi)
  refine h.of_word 8 (write32 ssrc) (by decide) (by decide : 8 + 4 ≤ 12) ?_ ?_
    (read32_write32 ssrc (by omega)).symm
  · exact h.header.sequenceNumber.trans (read16_congr fun j hj _ => hother j (by omega)).symm
  · exact h.header.timestamp.trans (read32_congr fun j hj _ => hother j (by omega)).symm

/-! ## The payload and the padding -/

/-- A packet that differs behind its headers only, and in the padding bit of its first byte. -/
theorem Layout.of_payload {n k : Nat} {byte : Byte} (hzero : b.bytes 0 = byte)
    (hversion : byte >>> 6 = p.byte 0 >>> 6) (hbit : byte &&& 0x10#8 = p.byte 0 &&& 0x10#8)
    (hcsrc : byte &&& 0x0f#8 = p.byte 0 &&& 0x0f#8)
    (hbytes : ∀ i, 1 ≤ i → i < p.payloadOffset → b.bytes i = p.byte i)
    (hsize : b.size = p.payloadOffset + n + k) (hle : b.size ≤ b.capacity)
    (hpaddingBit : built → (byte &&& 0x20#8 ≠ 0#8 ↔ 0 < k))
    (hpadding : built → 0 < k → (b.bytes (p.payloadOffset + n + k - 1)).toNat = k) :
    Layout built { p with buffer := b, payloadSize := n, paddingSize := k } elements := by
  subst hzero
  have hge := h.payloadOffset_ge
  exact h.of_area (h.header.congr rfl rfl rfl rfl rfl hversion fun i hi hi' =>
    hbytes i hi (by omega)) rfl rfl rfl hbit hcsrc (fun i hi hi' _ => hbytes i (by omega) hi') hsize
    hle id hpaddingBit hpadding

end

section
variable (fresh : Nat → Byte)

section

variable (h : Layout built p elements)
include h

theorem layout_allocatePayload {sizeBits sizeBytes : Nat} (hp : p.paddingSize = 0)
    (hfit : p.payloadOffset + sizeBytes < 2 ^ sizeBits) :
    Layout built (p.allocatePayload fresh sizeBits sizeBytes) elements := by
  unfold allocatePayload
  rw [Nat.mod_eq_of_lt hfit]
  split
  · exact h
  rename_i hcap
  have hle : p.payloadOffset + sizeBytes ≤ p.buffer.capacity := Nat.le_of_not_lt hcap
  have hbuffer : (p.buffer.setSize fresh p.payloadOffset).setSize fresh
      (p.payloadOffset + sizeBytes) = { p.buffer with size := p.payloadOffset + sizeBytes } := by
    rw [setSize_of_le fresh (by omega : p.payloadOffset ≤ p.buffer.capacity)]
    exact setSize_of_le fresh hle
  rw [hbuffer]
  refine h.of_payload rfl rfl rfl rfl (fun _ _ _ => rfl) ?_ hle (fun hb => (h.ownBits hb).paddingBit)
    fun _ hpos => absurd hpos (by simp [hp])
  simp [hp]

theorem layout_writePayload (hi : i < p.payloadSize) (byte : Byte) :
    Layout built (p.writePayload i byte) elements := by
  have hge := h.payloadOffset_ge
  have hother : ∀ j, j < p.payloadOffset ∨ p.payloadOffset + p.payloadSize ≤ j →
      (p.writePayload i byte).byte j = p.byte j :=
    fun j hj => writeAt_ne _ (by omega)
  refine h.of_payload (hother 0 (by omega)) rfl rfl rfl (fun j _ hj => hother j (.inl hj))
    ((writeAt_size _ _ _).trans h.size) ?_ (fun hb => (h.ownBits hb).paddingBit) fun hb hpos => ?_
  · rw [writeAt_size, writeAt_capacity]
    exact h.size_le
  · exact (congrArg BitVec.toNat (hother _ (.inr (by omega)))).trans ((h.ownBits hb).padding hpos)

theorem layout_setPayloadSize {sizeBytes : Nat} (hp : p.paddingSize = 0)
    (hle : sizeBytes ≤ p.payloadSize) : Layout built (p.setPayloadSize fresh sizeBytes) elements := by
  have hsize := h.size
  have hcap := h.size_le
  unfold Packet.size at hsize
  unfold setPayloadSize
  rw [setSize_of_le fresh (by omega : p.payloadOffset + sizeBytes ≤ p.buffer.capacity)]
  refine h.of_payload rfl rfl rfl rfl (fun _ _ _ => rfl) ?_ ?_
    (fun hb => (h.ownBits hb).paddingBit) fun _ hpos => absurd hpos (by simp [hp])
  · simp [hp]
  · show p.payloadOffset + sizeBytes ≤ p.buffer.capacity
    omega

theorem layout_setPadding (sizeBytes : Byte) (random : Nat → Byte) :
    Layout built (p.setPadding fresh sizeBytes random) elements := by
  have hge := h.payloadOffset_ge
  obtain ⟨hv, he, hc, hb, hv', he', hc', hb'⟩ := (fieldBits (p.byte 0)).flag_20
  unfold setPadding
  dsimp only
  split
  · exact h
  rename_i hfit
  have hle : p.payloadOffset + p.payloadSize + sizeBytes.toNat ≤ p.buffer.capacity :=
    Nat.le_of_not_lt hfit
  rw [setSize_of_le fresh hle]
  generalize hsized : ({ p.buffer with
    size := p.payloadOffset + p.payloadSize + sizeBytes.toNat } : Buffer) = sized
  have hbytes : sized.bytes = p.buffer.bytes := by rw [← hsized]
  have hsize : sized.size = p.payloadOffset + p.payloadSize + sizeBytes.toNat := by rw [← hsized]
  have hcap : sized.capacity = p.buffer.capacity := by rw [← hsized]
  split
  · next hpos =>
    generalize hfilled : sized.write (p.payloadOffset + p.payloadSize)
      ((range (sizeBytes.toNat - 1)).map random) = filled
    have hfcap : filled.capacity = p.buffer.capacity := by
      rw [← hfilled, write_capacity, hcap]
    have hfsize : filled.size = p.payloadOffset + p.payloadSize + sizeBytes.toNat := by
      rw [← hfilled, write_size, hsize]
    refine h.of_payload (writeAt_same (by rw [writeAt_capacity]; omega) _) hv he hc ?_
      (by simp only [writeAt_size, hfsize]) (by simp only [writeAt_size, writeAt_capacity]; omega)
      (fun _ => iff_of_true hb hpos) fun _ _ => ?_
    · intro i hi hi'
      rw [writeAt_ne _ (by omega), writeAt_ne _ (by omega), ← hfilled,
        write_outside _ (by omega), hbytes]
      rfl
    · rw [writeAt_ne _ (by omega), writeAt_same (by omega)]
  · next hnone =>
    refine h.of_payload (writeAt_same (by omega) _) hv' he' hc' ?_
      (by rw [writeAt_size, hsize]) (by rw [writeAt_size, writeAt_capacity]; omega)
      (fun _ => iff_of_false (not_not.mpr hb') hnone) fun _ hpos => absurd hpos hnone
    intro i hi _
    rw [writeAt_ne _ (by omega), hbytes]
    rfl

/-! ## The contributing sources -/

/-- The sources of a packet without an extension block. -/
theorem layout_setCsrcs {csrcs : List (BitVec 32)} (hext : p.extensionsSize = 0)
    (hbit : p.byte 0 &&& 0x10#8 = 0#8) (hpay : p.payloadSize = 0) (hpad : p.paddingSize = 0)
    (hn : csrcs.length ≤ 15) (hfit : kFixedHeaderSize + 4 * csrcs.length ≤ p.buffer.capacity) :
    Layout built (p.setCsrcs fresh csrcs) elements := by
  have hcap := h.capacity_ge
  obtain ⟨hv, hp, he, hc⟩ := replace_count (p.byte 0) ⟨csrcs.length, by omega⟩
  have hbuffer : (p.setCsrcs fresh csrcs).buffer =
      { (p.buffer.writeAt 0 ((p.byte 0 &&& 0xf0#8) ||| BitVec.ofNat 8 csrcs.length)).write
        kFixedHeaderSize (csrcs.flatMap write32) with
        size := kFixedHeaderSize + 4 * csrcs.length } :=
    setSize_of_le fresh (by simpa using hfit)
  have hzero : (p.setCsrcs fresh csrcs).byte 0 =
      (p.byte 0 &&& 0xf0#8) ||| BitVec.ofNat 8 csrcs.length := by
    unfold Packet.byte
    rw [hbuffer]
    rw [write_outside _ (.inl (by decide)), writeAt_same (by omega)]
    rfl
  have hfixed : ∀ i, 1 ≤ i → i < 12 → (p.setCsrcs fresh csrcs).byte i = p.byte i := by
    intro i hi hi'
    unfold Packet.byte
    rw [hbuffer]
    rw [write_outside _ (.inl (show i < kFixedHeaderSize from hi')), writeAt_ne _ (by omega)]
  have hbit' : ¬(p.setCsrcs fresh csrcs).byte 0 &&& 0x10#8 ≠ 0#8 := by
    rw [hzero, he]
    exact not_not.mpr hbit
  have hoff : (p.setCsrcs fresh csrcs).payloadOffset = 12 + 4 * csrcs.length := rfl
  have hext' : (p.setCsrcs fresh csrcs).extensionsSize = 0 := hext
  have hnil := h.walk
  rw [hext] at hnil
  refine ⟨h.header.congr rfl rfl rfl rfl rfl (by rw [hzero, hv]) hfixed, h.count, ?_, ?_, ?_, ?_,
    h.entries, fun hpos => absurd hpos (by omega), ?_, fun hb => absurd hb.1 hbit',
    fun hb => ⟨?_, fun hpos => absurd hpos (by simp [Packet.setCsrcs, hpad]), ?_,
      (h.ownBits hb).few⟩⟩
  · rw [hbuffer]
    simp [Packet.size, Packet.setCsrcs, hpay, hpad]
  · rw [hbuffer]
    simpa using hfit
  · unfold headerEnd csrcEnd csrcCount
    rw [if_neg hbit', hoff, hzero, hc]
    dsimp only
    omega
  · omega
  · rw [hext', hnil.eq_nil]
    exact .refl _
  · rw [hzero, hp]
    exact (h.ownBits hb).paddingBit
  · rw [hext']
    exact iff_of_false hbit' (Nat.lt_irrefl 0)

end

/-- The packet after `Clear`. -/
theorem layout_clear (hentries : p.extensionEntries.length = kMaxExtensionHeaders)
    (hcap : kFixedHeaderSize ≤ p.buffer.capacity) : Layout built (p.clear fresh) [] := by
  have hcap' : 12 ≤ p.buffer.capacity := hcap
  generalize hcleared : p.buffer.write 0 (replicate kFixedHeaderSize 0#8) = cleared
  have hccap : cleared.capacity = p.buffer.capacity := by
    rw [← hcleared, write_capacity]
  have hbuffer : (p.clear fresh).buffer =
      writeAt { cleared with size := kFixedHeaderSize } 0 0x80#8 := by
    have hversion : kRtpVersion <<< 6 = 0x80#8 := by decide
    unfold clear
    rw [hcleared, setSize_of_le fresh (by rw [hccap]; exact hcap), hversion]
  have hzero : (p.clear fresh).byte 0 = 0x80#8 := by
    unfold byte
    rw [hbuffer, writeAt_same]
    show 0 < cleared.capacity
    omega
  have hfixed : ∀ i, 1 ≤ i → i < 12 → (p.clear fresh).byte i = 0#8 := by
    intro i hi hi'
    unfold byte
    rw [hbuffer, writeAt_ne _ (by omega)]
    have hget : (replicate kFixedHeaderSize 0#8)[i]? = some 0#8 :=
      getElem?_replicate_of_lt hi'
    have hin : (p.buffer.write 0 (replicate kFixedHeaderSize 0#8)).bytes (0 + i) = 0#8 :=
      write_inside hget (by simpa using hcap)
    rw [hcleared, Nat.zero_add] at hin
    exact hin
  have hread16 : ∀ i, 1 ≤ i → i + 2 ≤ 12 → read16 (p.clear fresh).byte i = 0#16 := by
    intro i hi hi'
    unfold read16
    rw [hfixed i hi (by omega), hfixed (i + 1) (by omega) (by omega)]
    rfl
  have hread32 : ∀ i, 1 ≤ i → i + 4 ≤ 12 → read32 (p.clear fresh).byte i = 0#32 := by
    intro i hi hi'
    unfold read32
    rw [hread16 i hi (by omega), hread16 (i + 2) (by omega) (by omega)]
    rfl
  have hbit : ¬(p.clear fresh).byte 0 &&& 0x10#8 ≠ 0#8 := by
    rw [hzero]
    decide
  refine ⟨⟨?_, ?_, ?_, ?_, ?_, ?_⟩, ?_, ?_, ?_, ?_,
    show 12 ≤ 65535 by decide, ?_,
    fun hpos => absurd hpos (Nat.lt_irrefl 0), .refl _, fun hb => absurd hb.1 hbit,
    fun _ => ⟨?_, fun hpos => absurd hpos (Nat.lt_irrefl 0), iff_of_false hbit (Nat.lt_irrefl 0),
      Nat.zero_le _⟩⟩
  · rw [hzero]
    rfl
  · rw [hfixed 1 (by omega) (by omega)]
    rfl
  · rw [hfixed 1 (by omega) (by omega)]
    rfl
  · exact (hread16 2 (by omega) (by omega)).symm
  · exact (hread32 4 (by omega) (by omega)).symm
  · exact (hread32 8 (by omega) (by omega)).symm
  · exact (length_map _).trans hentries
  · rw [hbuffer, writeAt_size]
    rfl
  · rw [hbuffer, writeAt_size, writeAt_capacity]
    rw [hccap]
    exact hcap
  · unfold headerEnd csrcEnd csrcCount
    rw [if_neg hbit, hzero]
    rfl
  · simp [Packet.clear, ExtensionInfo.reset]
  · rw [hzero]
    exact iff_of_false (by decide) (Nat.lt_irrefl 0)

end

end WebRtc.Rtp.RtpPacket
