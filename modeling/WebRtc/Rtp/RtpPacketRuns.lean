import WebRtc.Lib.Transition
import WebRtc.Rtp.RtpPacketLayout

/-! Extensions, and runs of the setters of `rtp::Packet`: every packet that is built within its
capacity has the layout. -/

namespace WebRtc.Rtp.RtpPacket

open BigEndian ByteMasks Transition Packet

variable {p : Packet} {built : Prop} {elements : List Element} {length : Nat} {type : ExtensionType}

section
variable (fresh : Nat → Byte)

/-! ## Allocating an extension -/

/-- The extension bit and the profile are set, whether or not this is the first extension. -/
structure Opened (p : Packet) (b : Buffer) : Prop where
  capacity : b.capacity = p.buffer.capacity
  version : b.bytes 0 >>> 6 = p.byte 0 >>> 6
  paddingBit : b.bytes 0 &&& 0x20#8 = p.byte 0 &&& 0x20#8
  csrcs : b.bytes 0 &&& 0x0f#8 = p.byte 0 &&& 0x0f#8
  extensionBit : b.bytes 0 &&& 0x10#8 ≠ 0#8
  profile : read16 b.bytes (p.extensionsOffset - 4) = kOneByteExtensionId
  fixed : ∀ i, 1 ≤ i → i < 12 → b.bytes i = p.byte i
  elements : ∀ i, p.extensionsOffset ≤ i → i < p.extensionsOffset + p.extensionsSize →
    b.bytes i = p.byte i

theorem opened_openExtensions (h : Layout built p elements)
    (hfit : p.extensionsOffset ≤ p.buffer.capacity) : Opened p p.openExtensions := by
  have h16 := p.extensionsOffset_ge
  unfold openExtensions
  split
  · obtain ⟨hv, hp, hc, he⟩ := (fieldBits (p.byte 0)).flag_10
    have hlen : (write16 kOneByteExtensionId).length = 2 := rfl
    have hzero : ((p.buffer.writeAt 0 (p.byte 0 ||| 0x10#8)).write (p.extensionsOffset - 4)
        (write16 kOneByteExtensionId)).bytes 0 = p.byte 0 ||| 0x10#8 := by
      rw [Buffer.write_outside _ (.inl (by omega)), Buffer.writeAt_same (by omega)]
    have hother : ∀ i, 1 ≤ i → i < 12 ∨ p.extensionsOffset ≤ i →
        ((p.buffer.writeAt 0 (p.byte 0 ||| 0x10#8)).write (p.extensionsOffset - 4)
          (write16 kOneByteExtensionId)).bytes i = p.byte i := by
      intro i hi hi'
      rw [Buffer.write_outside _ (by omega), Buffer.writeAt_ne _ (by omega)]
      rfl
    refine ⟨by simp, by rw [hzero, hv], by rw [hzero, hp], by rw [hzero, hc], ?_, ?_,
      fun i hi hi' => hother i hi (.inl hi'), fun i hi _ => hother i (by omega) (.inr hi)⟩
    · rw [hzero]
      exact he
    · exact read16_write16 _ (by rw [Buffer.writeAt_capacity]; omega)
  · next hpos =>
    obtain ⟨hbit, hprofile⟩ := (h.block (by omega)).1
    exact ⟨rfl, rfl, rfl, rfl, hbit, hprofile, fun _ _ _ => rfl, fun _ _ _ => rfl⟩

/-- What `AllocateExtension` has written. -/
structure Appended (p : Packet) (idx length : Nat) (b : Buffer) : Prop extends Opened p b where
  header : b.bytes (p.extensionsOffset + p.extensionsSize) = Packet.elementHeader idx length
  words : read16 b.bytes (p.extensionsOffset - 2) =
    BitVec.ofNat 16 (Packet.extensionsWords (p.extensionsSize + 1 + length))
  zeros : ∀ i, p.extensionsOffset + (p.extensionsSize + 1 + length) ≤ i →
    i < p.extensionsOffset + 4 * Packet.extensionsWords (p.extensionsSize + 1 + length) →
    b.bytes i = 0#8

theorem appended_writeElement (h : Layout built p elements) (idx : Nat) (hfit : p.extensionsOffset +
      4 * extensionsWords (p.extensionsSize + 1 + length) ≤ p.buffer.capacity) :
    Appended p idx length (p.writeElement idx length) := by
  have h16 := p.extensionsOffset_ge
  have hw := le_four_mul_extensionsWords (p.extensionsSize + 1 + length)
  have hopen := opened_openExtensions h (by omega)
  have hcap := hopen.capacity
  unfold writeElement
  dsimp only [kOneByteHeaderSize]
  generalize p.openExtensions = opened at hopen hcap ⊢
  generalize hwords : extensionsWords (p.extensionsSize + 1 + length) = words at hfit hw ⊢
  generalize hheaded : opened.writeAt (p.extensionsOffset + p.extensionsSize)
    (elementHeader idx length) = headed
  have hheadedCap : headed.capacity = p.buffer.capacity := by
    rw [← hheaded, Buffer.writeAt_capacity, hcap]
  generalize hcounted : headed.write (p.extensionsOffset - 2)
    (write16 (BitVec.ofNat 16 words)) = counted
  have hcountedCap : counted.capacity = p.buffer.capacity := by
    rw [← hcounted, Buffer.write_capacity, hheadedCap]
  have hlen2 : (write16 (BitVec.ofNat 16 words)).length = 2 := rfl
  have hlen0 : (List.replicate (4 * words - (p.extensionsSize + 1 + length)) 0#8).length =
      4 * words - (p.extensionsSize + 1 + length) := List.length_replicate
  -- away from the header byte, the length field and the zeros nothing is written
  have hsame : ∀ i, i < p.extensionsOffset + p.extensionsSize →
      i < p.extensionsOffset - 2 ∨ p.extensionsOffset ≤ i →
      (counted.write (p.extensionsOffset + (p.extensionsSize + 1 + length))
        (List.replicate (4 * words - (p.extensionsSize + 1 + length)) 0#8)).bytes i =
          opened.bytes i := by
    intro i hi hi'
    rw [Buffer.write_outside _ (.inl (by omega)), ← hcounted,
      Buffer.write_outside _ (by omega), ← hheaded, Buffer.writeAt_ne _ (by omega)]
  have h0 := hsame 0 (by omega) (.inl (by omega))
  refine ⟨⟨?_, ?_, ?_, ?_, ?_, ?_, ?_, ?_⟩, ?_, ?_, ?_⟩
  · rw [Buffer.write_capacity, hcountedCap]
  · rw [h0, hopen.version]
  · rw [h0, hopen.paddingBit]
  · rw [h0, hopen.csrcs]
  · rw [h0]
    exact hopen.extensionBit
  · rw [read16_congr fun j hj hj' => hsame j (by omega) (.inl (by omega))]
    exact hopen.profile
  · intro i hi hi'
    rw [hsame i (by omega) (.inl (by omega)), hopen.fixed i hi hi']
  · intro i hi hi'
    rw [hsame i hi' (.inr hi), hopen.elements i hi hi']
  · rw [Buffer.write_outside _ (.inl (by omega)), ← hcounted, Buffer.write_outside _ (by omega),
      ← hheaded, Buffer.writeAt_same (by omega)]
  · rw [hwords, read16_congr fun j hj hj' => Buffer.write_outside _ (.inl (by omega)), ← hcounted]
    exact read16_write16 _ (by omega)
  intro i hi hi'
  obtain ⟨k, rfl⟩ : ∃ k, i = p.extensionsOffset + (p.extensionsSize + 1 + length) + k :=
    ⟨i - (p.extensionsOffset + (p.extensionsSize + 1 + length)), by omega⟩
  exact Buffer.write_inside (List.getElem?_replicate_of_lt (by omega)) (by omega)

theorem elementHeader_fields {idx : Nat} (hidx : idx < 14) (h1 : 1 ≤ length) (h16 : length ≤ 16) :
    (elementHeader idx length >>> 4).toNat = idx + 1 ∧
      (elementHeader idx length &&& 0x0f#8).toNat + 1 = length := by
  have hall : ∀ (i : Fin 14) (l : Fin 16),
      (elementHeader i.val (l.val + 1) >>> 4).toNat = i.val + 1 ∧
        (elementHeader i.val (l.val + 1) &&& 0x0f#8).toNat + 1 = l.val + 1 := by
    decide +kernel
  have h := hall ⟨idx, hidx⟩ ⟨length - 1, by omega⟩
  rwa [show length - 1 + 1 = length by omega] at h

theorem map_reset_congr {entries entries' : List ExtensionInfo}
    (h : entries'.map (·.type) = entries.map (·.type)) :
    entries'.map ExtensionInfo.reset = entries.map ExtensionInfo.reset := by
  have hreset (es : List ExtensionInfo) :
      es.map ExtensionInfo.reset = (es.map (·.type)).map (⟨·, 0, 0⟩) := by
    simp [ExtensionInfo.reset]
  rw [hreset, h, ← hreset]

/-- An entry that gets a length is one more entry with a length. -/
theorem countP_modify {entries : List ExtensionInfo} {idx : Nat} {e : ExtensionInfo}
    (he : entries[idx]? = some e) (h0 : e.length = 0) {f : ExtensionInfo → ExtensionInfo}
    (hf : 0 < (f e).length) :
    (entries.modify idx f).countP (0 < ·.length) = entries.countP (0 < ·.length) + 1 := by
  induction entries generalizing idx with
  | nil => cases he
  | cons x entries ih =>
    cases idx with
    | zero =>
      cases he
      simp [hf, h0]
    | succ idx =>
      rw [List.modify_succ_cons, List.countP_cons, List.countP_cons, ih he]
      omega

theorem layout_appendExtension (h : Layout built p elements) {idx : Nat} {e : ExtensionInfo}
    (he : p.extensionEntries[idx]? = some e) (h0 : e.length = 0) (hpos : 1 ≤ length)
    (hlen : length ≤ 16) (hpay : p.payloadSize = 0) (hpad : p.paddingSize = 0)
    (hfit : (p.appendExtension fresh idx length).payloadOffset ≤ p.buffer.capacity)
    (hshort : (p.appendExtension fresh idx length).payloadOffset ≤ 65535) :
    Layout built (p.appendExtension fresh idx length)
      (elements ++ [⟨idx + 1, p.extensionsOffset + p.extensionsSize + 1, length⟩]) := by
  have hoff : (p.appendExtension fresh idx length).payloadOffset = p.extensionsOffset +
      4 * extensionsWords (p.extensionsSize + 1 + length) := rfl
  have hidx : idx < 14 := (List.getElem?_eq_some_iff.mp he).1.trans_eq h.count
  obtain ⟨hid, hlength⟩ := elementHeader_fields hidx hpos hlen
  have hel := appended_writeElement h idx (hoff ▸ hfit)
  have hbuffer : (p.appendExtension fresh idx length).buffer =
      { p.writeElement idx length with
        size := (p.appendExtension fresh idx length).payloadOffset } :=
    Buffer.setSize_of_le fresh (by rw [hel.capacity]; exact hfit)
  have hbyte : (p.appendExtension fresh idx length).byte = (p.writeElement idx length).bytes := by
    unfold byte
    rw [hbuffer]
  have hcsrc : csrcEnd (p.appendExtension fresh idx length).byte = csrcEnd p.byte :=
    csrcEnd_congr (by rw [hbyte, hel.csrcs])
  have hend : p.extensionsOffset = csrcEnd p.byte + 4 := rfl
  have hstart : (p.appendExtension fresh idx length).extensionsOffset = p.extensionsOffset :=
    congrArg (· + 4) hcsrc
  have hsize : (p.appendExtension fresh idx length).extensionsSize =
      p.extensionsSize + 1 + length := rfl
  have hw := le_four_mul_extensionsWords (p.extensionsSize + 1 + length)
  have hblock : HasOneByteBlock (p.appendExtension fresh idx length).byte := by
    unfold HasOneByteBlock
    rw [hcsrc, hbyte]
    exact ⟨hel.extensionBit, hel.profile⟩
  have hentries : (p.appendExtension fresh idx length).extensionEntries.map ExtensionInfo.reset =
      p.extensionEntries.map ExtensionInfo.reset :=
    map_reset_congr (types_modify _ _ _ fun _ => rfl)
  refine ⟨h.header.congr rfl rfl rfl rfl rfl (by rw [hbyte, hel.version])
    (fun i hi hi' => by rw [hbyte, hel.fixed i hi hi']), (List.length_modify _ _ _).trans h.count,
    ?_, ?_, ?_, hshort, ?_, fun _ => ⟨hblock, ?_⟩, ?_, fun _ => ?_, fun hb => ⟨?_,
      fun hp => absurd hp (by simp [appendExtension, hpad]), ?_, ?_⟩⟩
  · rw [hbuffer]
    simp [size, appendExtension, hpay, hpad, kOneByteHeaderSize]
  · rw [hbuffer]
    rw [hel.capacity]
    exact hfit
  · have hwords : read16 (p.writeElement idx length).bytes (csrcEnd p.byte + 2) =
        BitVec.ofNat 16 (extensionsWords (p.extensionsSize + 1 + length)) := hel.words
    rw [headerEnd_of_block hblock, hcsrc, hbyte, hwords, BitVec.toNat_ofNat,
      Nat.mod_eq_of_lt (by omega), hoff, hend]
    omega
  · rw [hentries, List.foldl_append, ← h.entries, Nat.add_right_comm]
    rfl
  · rw [hstart, hsize, hoff]
    omega
  · rw [hstart, hsize]
    have hwalk : Walk (p.appendExtension fresh idx length).byte p.extensionsOffset
        (p.extensionsOffset + p.extensionsSize) elements :=
      h.walk.congr fun i hi hi' _ => by rw [hbyte, hel.elements i hi hi']
    have happended := hwalk.append
    rw [hbyte, hel.header, hid, hlength] at happended
    rw [hbyte, show p.extensionsOffset + (p.extensionsSize + 1 + length) =
      p.extensionsOffset + p.extensionsSize + 1 + length by omega]
    exact happended (by omega) (by omega)
  · rw [hstart, hsize, hoff, hbyte]
    exact oneByteElements_zeros hel.zeros
  · rw [hbyte, hel.paddingBit]
    exact (h.ownBits hb).paddingBit
  · rw [hbyte, hsize]
    exact iff_of_true hel.extensionBit (by omega)
  · have hcount := countP_modify he h0 (f := fun e => { e with
      offset := p.extensionsOffset + kOneByteHeaderSize + p.extensionsSize, length := length }) hpos
    have hfew := (h.ownBits hb).few
    rw [hsize, appendExtension, hcount]
    omega

/-- The value of an allocated extension may be written at any time. -/
theorem layout_writeValue (h : Layout built p elements) {idx : Nat} {e : ExtensionInfo}
    (he : p.extensionEntries[idx]? = some e) (hset : e.length ≠ 0) {value : List Byte}
    (hval : value.length = e.length) :
    Layout built { p with buffer := p.buffer.write e.offset value } elements := by
  obtain ⟨x, hx, hxoff, hxlen⟩ := h.value_of_entry he hset
  have hrange := h.value_range hx
  have hout : ∀ i, i < e.offset ∨ e.offset + e.length ≤ i →
      (p.buffer.write e.offset value).bytes i = p.byte i :=
    fun i hi => Buffer.write_outside value (by omega)
  have h0 := hout 0 (by omega)
  refine h.of_area (h.header.congr rfl rfl rfl rfl rfl (congrArg (fun b : Byte => b >>> 6) h0)
    (fun i hi hi' => hout i (by omega))) rfl rfl rfl (congrArg (· &&& 0x10#8) h0)
    (congrArg (· &&& 0x0f#8) h0)
    (fun i _ _ hi => hout i (by have := hi x hx; omega))
    ((Buffer.write_size _ _ _).trans h.size) ?_ id
    (fun hb => (iff_of_eq (congrArg (fun b : Byte => b &&& 0x20#8 ≠ 0#8) h0)).trans
      (h.ownBits hb).paddingBit) fun hb hp => ?_
  · rw [Buffer.write_size, Buffer.write_capacity]
    exact h.size_le
  have hp' : 0 < p.paddingSize := hp
  have hlast : (p.buffer.write e.offset value).bytes (p.size - 1) = p.byte (p.size - 1) :=
    hout _ (.inr (by unfold size; omega))
  show ((p.buffer.write e.offset value).bytes (p.size - 1)).toNat = p.paddingSize
  rw [hlast, (h.ownBits hb).padding hp]

/-- The arguments of a call of `AllocateExtension`. -/
structure Allocation where
  type : ExtensionType
  length : Nat
  range : 1 ≤ length ∧ length ≤ 16

namespace Packet

/-- The checks of `AllocateExtension`: the extension is registered and not in the packet, nothing
follows the headers, and the element fits. -/
def appends (p : Packet) (a : Allocation) : Bool :=
  match p.extensionEntries.findIdx? (fun e => e.type = a.type) with
  | none => false
  | some idx =>
      match p.extensionEntries[idx]? with
      | none => false
      | some entry =>
          decide (entry.length = 0 ∧ p.payloadSize = 0 ∧ p.paddingSize = 0 ∧
            p.extensionsOffset + p.extensionsSize + kOneByteHeaderSize + a.length ≤
              p.buffer.capacity)

/-- An element that is appended fits with the rest of its last word. -/
def WordFits (p : Packet) (a : Allocation) : Prop :=
  p.appends a = true →
    p.extensionsOffset + 4 * extensionsWords (p.extensionsSize + 1 + a.length) ≤ p.buffer.capacity

theorem fits_of_appends {a : Allocation} (h : p.appends a = true) :
    p.extensionsOffset + p.extensionsSize + 1 + a.length ≤ p.buffer.capacity := by
  unfold appends at h
  split at h
  · cases h
  split at h
  · cases h
  · exact (of_decide_eq_true h).2.2.2

end Packet

/-- A call of `AllocateExtension` that returned true found the extension or appended it. -/
theorem allocateExtension_cases {p' : Packet} {offset : Nat}
    (h : p.allocateExtension fresh type length = some (offset, p')) :
    ∃ idx e, p.extensionEntries[idx]? = some e ∧
      ((e.length ≠ 0 ∧ length = e.length ∧ offset = e.offset ∧ p' = p) ∨
        (e.length = 0 ∧ p.payloadSize = 0 ∧ p.paddingSize = 0 ∧
          (∀ a : Allocation, a.type = type → a.length = length → p.appends a = true) ∧
          offset = p.extensionsOffset + 1 + p.extensionsSize ∧
          p' = p.appendExtension fresh idx length)) := by
  unfold allocateExtension at h
  split at h
  · cases h
  rename_i idx hidx
  split at h
  · cases h
  rename_i e he
  refine ⟨idx, e, he, ?_⟩
  split at h
  · next hset =>
    split at h
    · cases h
    rename_i hlen
    cases h
    exact .inl ⟨hset, not_not.mp hlen, rfl, rfl⟩
  · next hunset =>
    split at h
    · cases h
    split at h
    · cases h
    split at h
    · cases h
    rename_i hpay hpad hfit
    cases h
    refine .inr ⟨not_not.mp hunset, Nat.eq_zero_of_not_pos hpay,
      Nat.eq_zero_of_not_pos hpad, ?_, rfl, rfl⟩
    rintro a rfl rfl
    simp only [appends, hidx, he]
    exact decide_eq_true (by omega)

theorem valueSizeBytes_range (h : type ≠ .none) :
    1 ≤ type.valueSizeBytes ∧ type.valueSizeBytes ≤ 16 := by
  cases type <;> simp_all [ExtensionType.valueSizeBytes]

/-- The extension, if it is appended, fits with the rest of its last word. -/
def Call.ExtensionFits (p : Packet) (type : ExtensionType) : Prop :=
  ∀ a : Allocation, a.type = type → a.length = type.valueSizeBytes → p.WordFits a

/-- The headers of a packet stay below 2^16 bytes: it has each extension once, or its buffer is as
small. -/
theorem Layout.short_append (h : Layout built p elements)
    (hsmall : built ∨ p.buffer.capacity ≤ 65535) (hlen : length ≤ 16)
    (hfit : p.extensionsOffset + 4 * extensionsWords (p.extensionsSize + 1 + length) ≤
      p.buffer.capacity) :
    p.extensionsOffset + 4 * extensionsWords (p.extensionsSize + 1 + length) ≤ 65535 := by
  rcases hsmall with hb | hsmall
  case inr => omega
  have hfew := (h.ownBits hb).few
  have hcount : p.extensionEntries.countP (0 < ·.length) ≤ 14 :=
    List.countP_le_length.trans_eq h.count
  have hnum : p.numCsrc ≤ 15 := Nat.and_le_right
  unfold extensionsOffset extensionsWords kFixedHeaderSize
  omega

theorem layout_setExtension (h : Layout built p elements) (htype : type ≠ .none)
    {value : List Byte} (hval : value.length = type.valueSizeBytes)
    (hsmall : built ∨ p.buffer.capacity ≤ 65535) (hfit : Call.ExtensionFits p type) :
    ∃ elements', Layout built (p.setExtension fresh type value) elements' := by
  have hlen := valueSizeBytes_range htype
  unfold setExtension
  split
  · exact ⟨elements, h⟩
  rename_i offset p' halloc
  obtain ⟨idx, e, he, ⟨hset, hlength, rfl, rfl⟩ | ⟨hunset, hpay, hpad, happ, rfl, rfl⟩⟩ :=
    allocateExtension_cases fresh halloc
  · exact ⟨elements, layout_writeValue h he hset (hval.trans hlength)⟩
  have hword := hfit ⟨type, _, hlen⟩ rfl rfl (happ ⟨type, _, hlen⟩ rfl rfl)
  have happended := layout_appendExtension fresh h he hunset hlen.1 hlen.2 hpay hpad hword
    (h.short_append hsmall hlen.2 hword)
  have hentry : (p.appendExtension fresh idx type.valueSizeBytes).extensionEntries[idx]? =
      some { e with offset := p.extensionsOffset + 1 + p.extensionsSize,
                    length := type.valueSizeBytes } := by
    simp [appendExtension, kOneByteHeaderSize, he]
  exact ⟨_, layout_writeValue happended hentry (by simp; omega) hval⟩

/-! ## Runs -/

/-- The calls that build a packet. -/
inductive Call
  | setMarker (markerBit : Bool)
  | setPayloadType (payloadType : Byte)
  | setSequenceNumber (seqNo : BitVec 16)
  | setTimestamp (timestamp : BitVec 32)
  | setSsrc (ssrc : BitVec 32)
  | setCsrcs (csrcs : List (BitVec 32))
  | setExtension (type : ExtensionType) (value : List Byte)
  | reserveExtension (type : ExtensionType)
  | allocatePayload (sizeBytes : Nat)
  | writePayload (i : Nat) (byte : Byte)
  | setPayloadSize (sizeBytes : Nat)
  | setPadding (sizeBytes : Byte) (random : Nat → Byte)

variable (sizeBits : Nat)

namespace Call

def apply (p : Packet) : Call → Packet
  | setMarker markerBit => p.setMarker markerBit
  | setPayloadType payloadType => p.setPayloadType payloadType
  | setSequenceNumber seqNo => p.setSequenceNumber seqNo
  | setTimestamp timestamp => p.setTimestamp timestamp
  | setSsrc ssrc => p.setSsrc ssrc
  | setCsrcs csrcs => p.setCsrcs fresh csrcs
  | setExtension type value => p.setExtension fresh type value
  | reserveExtension type => p.reserveExtension fresh type
  | allocatePayload sizeBytes => p.allocatePayload fresh sizeBits sizeBytes
  | writePayload i byte => p.writePayload i byte
  | setPayloadSize sizeBytes => p.setPayloadSize fresh sizeBytes
  | setPadding sizeBytes random => p.setPadding fresh sizeBytes random

/-- What the `RTC_DCHECK`s of the call ask for; payload is written where it was allocated. -/
def Pre (p : Packet) : Call → Prop
  | setPayloadType payloadType => payloadType ≤ 0x7f#8
  | setCsrcs csrcs => p.extensionsSize = 0 ∧ p.payloadSize = 0 ∧ p.paddingSize = 0 ∧
      csrcs.length ≤ 15 ∧ kFixedHeaderSize + 4 * csrcs.length ≤ p.buffer.capacity
  | setExtension type value => type ≠ .none ∧ value.length = type.valueSizeBytes
  | reserveExtension type => type ≠ .none
  | allocatePayload _ => p.paddingSize = 0
  | writePayload i _ => i < p.payloadSize
  | setPayloadSize sizeBytes => p.paddingSize = 0 ∧ sizeBytes ≤ p.payloadSize
  | _ => True

/-- The call stays within the buffer: an extension with its padding, and a payload whose end does
not wrap. -/
def Fits (p : Packet) : Call → Prop
  | setExtension type _ => ExtensionFits p type
  | reserveExtension type => ExtensionFits p type
  | allocatePayload sizeBytes => p.payloadOffset + sizeBytes < 2 ^ sizeBits
  | _ => True

/-- For a packet that was parsed or copied: the sources are set where there is no extension block,
and an extension in a buffer of less than 2^16 bytes. -/
def Plain (p : Packet) : Call → Prop
  | setCsrcs _ => p.byte 0 &&& 0x10#8 = 0#8
  | setExtension _ _ => p.buffer.capacity ≤ 65535
  | reserveExtension _ => p.buffer.capacity ≤ 65535
  | _ => True

end Call

def Step (p : Packet) (call : Call) (p' : Packet) : Prop :=
  call.Pre p ∧ p' = call.apply fresh sizeBits p

/-- The types of the entries: the extension map the packet was made with. -/
def Packet.types (p : Packet) : List ExtensionType := p.extensionEntries.map (·.type)

theorem layout_apply (h : Layout built p elements) {call : Call} (hpre : call.Pre p)
    (hfits : call.Fits sizeBits p) (hplain : built ∨ call.Plain p) :
    ∃ elements', Layout built (call.apply fresh sizeBits p) elements' := by
  cases call with
  | setMarker markerBit => exact ⟨_, layout_setMarker h markerBit⟩
  | setPayloadType _ => exact ⟨_, layout_setPayloadType h hpre⟩
  | setSequenceNumber seqNo => exact ⟨_, layout_setSequenceNumber h seqNo⟩
  | setTimestamp timestamp => exact ⟨_, layout_setTimestamp h timestamp⟩
  | setSsrc ssrc => exact ⟨_, layout_setSsrc h ssrc⟩
  | setCsrcs _ =>
    obtain ⟨hext, hpay, hpad, hn, hcap⟩ := hpre
    have hbit : p.byte 0 &&& 0x10#8 = 0#8 := by
      rcases hplain with hb | hbit
      · by_contra hbit
        have := (h.ownBits hb).extensionBit.mp hbit
        omega
      · exact hbit
    exact ⟨_, layout_setCsrcs fresh h hext hbit hpay hpad hn hcap⟩
  | setExtension type _ => exact layout_setExtension fresh h hpre.1 hpre.2 hplain hfits
  | reserveExtension type =>
    exact layout_setExtension fresh h hpre List.length_replicate hplain hfits
  | allocatePayload sizeBytes => exact ⟨_, layout_allocatePayload fresh h hpre hfits⟩
  | writePayload i byte => exact ⟨_, layout_writePayload h hpre byte⟩
  | setPayloadSize sizeBytes => exact ⟨_, layout_setPayloadSize fresh h hpre.1 hpre.2⟩
  | setPadding sizeBytes random => exact ⟨_, layout_setPadding fresh h sizeBytes random⟩

theorem types_setExtension (p : Packet) (type : ExtensionType) (value : List Byte) :
    (p.setExtension fresh type value).types = p.types := by
  unfold setExtension
  split
  · rfl
  rename_i _ _ halloc
  obtain ⟨_, e, _, ⟨_, _, _, rfl⟩ | ⟨_, _, _, _, _, rfl⟩⟩ :=
    allocateExtension_cases fresh halloc
  · rfl
  · exact types_modify _ _ _ fun _ => rfl

theorem types_apply (p : Packet) (call : Call) : (call.apply fresh sizeBits p).types = p.types := by
  cases call with
  | setExtension type value => exact types_setExtension fresh p type value
  | reserveExtension type => exact types_setExtension fresh p type _
  | allocatePayload sizeBytes =>
    show (p.allocatePayload fresh sizeBits sizeBytes).types = p.types
    unfold allocatePayload
    split <;> rfl
  | setPadding sizeBytes random =>
    show (p.setPadding fresh sizeBytes random).types = p.types
    unfold setPadding
    dsimp only
    split <;> rfl
  | _ => rfl

/-- **Every run within the buffer keeps the layout and the map.** -/
theorem layout_of_reaches {p₀ : Packet}
    (hentries : p₀.extensionEntries.length = kMaxExtensionHeaders)
    (hcap : kFixedHeaderSize ≤ p₀.buffer.capacity)
    (hrun : Reaches (Guarded (fun p call => call.Fits sizeBits p) (Step fresh sizeBits))
      (p₀.clear fresh) p) :
    (∃ elements, Layout True p elements) ∧ p.types = p₀.types := by
  refine hrun.invariant (fun p => (∃ elements, Layout True p elements) ∧ p.types = p₀.types)
    ⟨⟨[], layout_clear fresh hentries hcap⟩, ?_⟩ ?_
  · simp [types, clear, ExtensionInfo.reset]
  · rintro p call _ ⟨⟨elements, h⟩, htypes⟩ ⟨hfits, hpre, rfl⟩
    exact ⟨layout_apply fresh sizeBits h hpre hfits (.inl trivial),
      (types_apply fresh sizeBits p call).trans htypes⟩

end

/-- In a buffer of whole words every extension that is allocated fits. -/
theorem extensionFits_of_words (hwords : p.buffer.capacity % 4 = 0) (type : ExtensionType) :
    Call.ExtensionFits p type := by
  intro a _ _ happ
  have hfit := fits_of_appends happ
  unfold extensionsWords extensionsOffset kFixedHeaderSize at *
  omega

end WebRtc.Rtp.RtpPacket
