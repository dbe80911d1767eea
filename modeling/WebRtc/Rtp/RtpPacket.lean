import WebRtc.Lib.BigEndian

/-! `rtp::Packet` (`rtp_packet.cc`) over the buffer it is built in (`buffer.h`). The buffer has one
owner. What a fresh allocation holds is the parameter `fresh`; a byte written past the allocation
is lost. Sizes are `Nat`, with the wrap of `size_t` and `uint16_t` where an argument or an input can
reach it. -/

namespace WebRtc.Rtp.RtpPacket

open BigEndian

abbrev Byte := BitVec 8

def kFixedHeaderSize : Nat := 12
def kRtpVersion : Byte := 2#8
def kOneByteExtensionId : BitVec 16 := 0xBEDE#16
def kOneByteHeaderSize : Nat := 1
def kMaxExtensionHeaders : Nat := 14

/-! ## The buffer -/

/-- `rtc::Buffer`: an allocation of `capacity` bytes, of which `size` are in use. -/
structure Buffer where
  bytes : Nat → Byte
  size : Nat
  capacity : Nat

namespace Buffer

/-- `buffer_.data()[offset] = byte`. -/
def writeAt (b : Buffer) (offset : Nat) (byte : Byte) : Buffer :=
  if offset < b.capacity then { b with bytes := fun i => if i = offset then byte else b.bytes i }
  else b

/-- A write of consecutive bytes: `memset`, `ByteWriter`, a loop of `WriteAt`. -/
def write (b : Buffer) (offset : Nat) : List Byte → Buffer
  | [] => b
  | byte :: bytes => (b.writeAt offset byte).write (offset + 1) bytes

theorem writeAt_ne {b : Buffer} {offset i : Nat} (byte : Byte) (h : i ≠ offset) :
    (b.writeAt offset byte).bytes i = b.bytes i := by
  unfold writeAt
  split
  · exact if_neg h
  · rfl

theorem write_outside {b : Buffer} {offset i : Nat} (bytes : List Byte)
    (h : i < offset ∨ offset + bytes.length ≤ i) : (b.write offset bytes).bytes i = b.bytes i := by
  induction bytes generalizing b offset with
  | nil => rfl
  | cons byte bytes ih =>
    rw [List.length_cons] at h
    rw [write, ih (by omega), writeAt_ne byte (by omega)]

/-- `EnsureCapacityWithHeadroom(capacity, true)`: a new allocation gets the bytes in use. -/
def ensureCapacity (fresh : Nat → Byte) (b : Buffer) (capacity : Nat) : Buffer :=
  if capacity ≤ b.capacity then b
  else
    { b with
      bytes := fun i => if i < b.size then b.bytes i else fresh i
      capacity := max capacity (b.capacity + b.capacity / 2) }

/-- `SetSize(size)`. -/
def setSize (fresh : Nat → Byte) (b : Buffer) (size : Nat) : Buffer :=
  { b.ensureCapacity fresh size with size := size }

/-- `SetData(data, size)`. -/
def setData (fresh : Nat → Byte) (b : Buffer) (data : Nat → Byte) (size : Nat) : Buffer :=
  let grown := ({ b with size := 0 } : Buffer).ensureCapacity fresh size
  { grown with bytes := fun i => if i < size then data i else grown.bytes i, size := size }

end Buffer

/-! ## The packet -/

/-- `RTPExtensionType`. -/
inductive ExtensionType
  | none
  | transmissionTimeOffset
  | audioLevel
  | absoluteSendTime
  | videoRotation
  | transportSequenceNumber
  | playoutDelay
  deriving DecidableEq, Repr

/-- `Extension::kValueSizeBytes` of the class with this `kId`. -/
def ExtensionType.valueSizeBytes : ExtensionType → Nat
  | .none => 0
  | .transmissionTimeOffset => 3
  | .audioLevel => 1
  | .absoluteSendTime => 3
  | .videoRotation => 1
  | .transportSequenceNumber => 2
  | .playoutDelay => 3

structure ExtensionInfo where
  type : ExtensionType
  offset : Nat
  length : Nat
  deriving DecidableEq, Repr

structure Packet where
  marker : Bool
  payloadType : Byte
  paddingSize : Nat
  sequenceNumber : BitVec 16
  timestamp : BitVec 32
  ssrc : BitVec 32
  payloadOffset : Nat
  payloadSize : Nat
  extensionEntries : List ExtensionInfo
  extensionsSize : Nat
  buffer : Buffer

/-- `ByteReader<...>::ReadBigEndian(&data[i])`. -/
def read16 (data : Nat → Byte) (i : Nat) : BitVec 16 := be16 (data i) (data (i + 1))
def read32 (data : Nat → Byte) (i : Nat) : BitVec 32 := be32 (read16 data i) (read16 data (i + 2))

/-- `location.offset = 0; location.length = 0`. -/
def ExtensionInfo.reset (e : ExtensionInfo) : ExtensionInfo := { e with offset := 0, length := 0 }

namespace Packet

/-- `data()[i]`. -/
def byte (p : Packet) (i : Nat) : Byte := p.buffer.bytes i

/-- `data()[0] & 0x0F`. -/
def numCsrc (p : Packet) : Nat := (p.byte 0 &&& 0x0f#8).toNat

/-- `size()`. -/
def size (p : Packet) : Nat := p.payloadOffset + p.payloadSize + p.paddingSize

/-- `Csrcs()`. -/
def csrcs (p : Packet) : List (BitVec 32) :=
  (List.range p.numCsrc).map fun i => read32 p.byte (kFixedHeaderSize + i * 4)

/-- `payload()`. -/
def payload (p : Packet) : List Byte :=
  (List.range p.payloadSize).map fun i => p.byte (p.payloadOffset + i)

/-- `FindExtension(type, length, &offset)`. -/
def findExtension (p : Packet) (type : ExtensionType) (length : Nat) : Option Nat :=
  match p.extensionEntries.find? (fun e => e.type = type) with
  | none => none
  | some e => if e.length = 0 then none else if length ≠ e.length then none else some e.offset

/-- The bytes `GetExtension` hands to `Extension::Parse`. -/
def getExtension (p : Packet) (type : ExtensionType) : Option (List Byte) :=
  (p.findExtension type type.valueSizeBytes).map fun offset =>
    (List.range type.valueSizeBytes).map fun i => p.byte (offset + i)

/-! ## Building -/

variable (fresh : Nat → Byte)

/-- `Clear()`. -/
def clear (p : Packet) : Packet :=
  { marker := false
    payloadType := 0#8
    paddingSize := 0
    sequenceNumber := 0#16
    timestamp := 0#32
    ssrc := 0#32
    payloadOffset := kFixedHeaderSize
    payloadSize := 0
    extensionEntries := p.extensionEntries.map ExtensionInfo.reset
    extensionsSize := 0
    buffer :=
      ((p.buffer.write 0 (List.replicate kFixedHeaderSize 0#8)).setSize fresh
        kFixedHeaderSize).writeAt 0 (kRtpVersion <<< 6) }

/-- `SetMarker(marker_bit)`. -/
def setMarker (p : Packet) (markerBit : Bool) : Packet :=
  { p with
    marker := markerBit
    buffer := p.buffer.writeAt 1 (if markerBit then p.byte 1 ||| 0x80#8 else p.byte 1 &&& 0x7f#8) }

/-- `SetPayloadType(payload_type)`. -/
def setPayloadType (p : Packet) (payloadType : Byte) : Packet :=
  { p with
    payloadType := payloadType
    buffer := p.buffer.writeAt 1 ((p.byte 1 &&& 0x80#8) ||| payloadType) }

/-- `SetSequenceNumber(seq_no)`. -/
def setSequenceNumber (p : Packet) (seqNo : BitVec 16) : Packet :=
  { p with sequenceNumber := seqNo, buffer := p.buffer.write 2 (write16 seqNo) }

/-- `SetTimestamp(timestamp)`. -/
def setTimestamp (p : Packet) (timestamp : BitVec 32) : Packet :=
  { p with timestamp := timestamp, buffer := p.buffer.write 4 (write32 timestamp) }

/-- `SetSsrc(ssrc)`. -/
def setSsrc (p : Packet) (ssrc : BitVec 32) : Packet :=
  { p with ssrc := ssrc, buffer := p.buffer.write 8 (write32 ssrc) }

/-- `SetCsrcs(csrcs)`. -/
def setCsrcs (p : Packet) (csrcs : List (BitVec 32)) : Packet :=
  let payloadOffset := kFixedHeaderSize + 4 * csrcs.length
  let counted := p.buffer.writeAt 0 ((p.byte 0 &&& 0xf0#8) ||| BitVec.ofNat 8 csrcs.length)
  { p with
    payloadOffset := payloadOffset
    buffer :=
      (counted.write kFixedHeaderSize (csrcs.flatMap write32)).setSize fresh payloadOffset }

/-- `AllocatePayload(size_bytes)`, where `size_t` has `sizeBits` bits; the packet is unchanged if it
returns null. -/
def allocatePayload (sizeBits : Nat) (p : Packet) (sizeBytes : Nat) : Packet :=
  if (p.payloadOffset + sizeBytes) % 2 ^ sizeBits > p.buffer.capacity then p
  else
    { p with
      payloadSize := sizeBytes
      buffer := (p.buffer.setSize fresh p.payloadOffset).setSize fresh
        ((p.payloadOffset + sizeBytes) % 2 ^ sizeBits) }

/-- A write through the pointer `AllocatePayload` returned. -/
def writePayload (p : Packet) (i : Nat) (byte : Byte) : Packet :=
  { p with buffer := p.buffer.writeAt (p.payloadOffset + i) byte }

/-- `SetPayloadSize(size_bytes)`. -/
def setPayloadSize (p : Packet) (sizeBytes : Nat) : Packet :=
  { p with
    payloadSize := sizeBytes
    buffer := p.buffer.setSize fresh (p.payloadOffset + sizeBytes) }

/-- `SetPadding(size_bytes, random)`; byte `i` of the padding is `random i`. -/
def setPadding (p : Packet) (sizeBytes : Byte) (random : Nat → Byte) : Packet :=
  let paddingOffset := p.payloadOffset + p.payloadSize
  let paddingSize := sizeBytes.toNat
  if paddingOffset + paddingSize > p.buffer.capacity then p
  else
    let sized := p.buffer.setSize fresh (paddingOffset + paddingSize)
    { p with
      paddingSize := paddingSize
      buffer :=
        if 0 < paddingSize then
          ((sized.write paddingOffset ((List.range (paddingSize - 1)).map random)).writeAt
            (paddingOffset + paddingSize - 1) sizeBytes).writeAt 0 (p.byte 0 ||| 0x20#8)
        else sized.writeAt 0 (p.byte 0 &&& ~~~0x20#8) }

/-! ## Extensions -/

/-- `extensions_offset`. -/
def extensionsOffset (p : Packet) : Nat := kFixedHeaderSize + p.numCsrc * 4 + 4

/-- `extensions_words` for extensions of this size. -/
def extensionsWords (extensionsSize : Nat) : Nat := (extensionsSize + 3) / 4

/-- The first writes of `AllocateExtension`: with the first extension come the extension bit and
the profile. -/
def openExtensions (p : Packet) : Buffer :=
  if p.extensionsSize = 0 then
    (p.buffer.writeAt 0 (p.byte 0 ||| 0x10#8)).write (p.extensionsOffset - 4)
      (write16 kOneByteExtensionId)
  else p.buffer

/-- The header byte of the element with this index and length. -/
def elementHeader (idx length : Nat) : Byte :=
  BitVec.ofNat 8 (idx + 1) <<< 4 ||| BitVec.ofNat 8 (length - 1)

/-- All writes of `AllocateExtension`: the header of the element, the length in words and the zeros
behind the element. -/
def writeElement (p : Packet) (idx length : Nat) : Buffer :=
  let newExtensionsSize := p.extensionsSize + kOneByteHeaderSize + length
  let words := extensionsWords newExtensionsSize
  let headed := p.openExtensions.writeAt (p.extensionsOffset + p.extensionsSize)
    (elementHeader idx length)
  let counted := headed.write (p.extensionsOffset - 2) (write16 (BitVec.ofNat 16 words))
  counted.write (p.extensionsOffset + newExtensionsSize)
    (List.replicate (4 * words - newExtensionsSize) 0#8)

/-- The end of `AllocateExtension`: all checks passed, write down the extension. At most 14
elements of 17 bytes keep `extensions_size_` within 16 bits. -/
def appendExtension (p : Packet) (idx length : Nat) : Packet :=
  let newExtensionsSize := p.extensionsSize + kOneByteHeaderSize + length
  let payloadOffset := p.extensionsOffset + 4 * extensionsWords newExtensionsSize
  { p with
    extensionEntries := p.extensionEntries.modify idx fun e =>
      { e with offset := p.extensionsOffset + kOneByteHeaderSize + p.extensionsSize,
               length := length }
    extensionsSize := newExtensionsSize
    payloadOffset := payloadOffset
    buffer := (p.writeElement idx length).setSize fresh payloadOffset }

/-- `AllocateExtension(type, length, &offset)`: the offset and the packet, or `none` if it returns
false. -/
def allocateExtension (p : Packet) (type : ExtensionType) (length : Nat) : Option (Nat × Packet) :=
  match p.extensionEntries.findIdx? (fun e => e.type = type) with
  | none => none
  | some idx =>
      match p.extensionEntries[idx]? with
      | none => none
      | some entry =>
          if entry.length ≠ 0 then
            if length ≠ entry.length then none else some (entry.offset, p)
          else if p.payloadSize > 0 then none
          else if p.paddingSize > 0 then none
          else if p.extensionsOffset + p.extensionsSize + kOneByteHeaderSize + length >
              p.buffer.capacity then none
          else
            some (p.extensionsOffset + kOneByteHeaderSize + p.extensionsSize,
              p.appendExtension fresh idx length)

/-- `SetExtension<Extension>(values)`, where `value` is what `Extension::Write` writes. -/
def setExtension (p : Packet) (type : ExtensionType) (value : List Byte) : Packet :=
  match p.allocateExtension fresh type type.valueSizeBytes with
  | none => p
  | some (offset, p') => { p' with buffer := p'.buffer.write offset value }

/-- `ReserveExtension<Extension>()`. -/
def reserveExtension (p : Packet) (type : ExtensionType) : Packet :=
  p.setExtension fresh type (List.replicate type.valueSizeBytes 0#8)

end Packet

/-! ## Parsing -/

/-- The extension loop of `ParseBuffer`. `extensions_size_` and the offsets are `uint16_t`. -/
def parseExtensions (buffer : Nat → Byte) (extensionOffset extensionsCapacity : Nat) :
    Nat → Nat → List ExtensionInfo → Option (Nat × List ExtensionInfo)
  | 0, _, _ => none
  | fuel + 1, extensionsSize, entries =>
      if extensionsSize + kOneByteHeaderSize < extensionsCapacity then
        let header := buffer (extensionOffset + extensionsSize)
        let id := (header >>> 4).toNat
        if id = 15 then some (extensionsSize, entries)
        else if id = 0 then
          parseExtensions buffer extensionOffset extensionsCapacity fuel
            ((extensionsSize + 1) % 2 ^ 16) entries
        else
          let length := 1 + (header &&& 0x0f#8).toNat
          if extensionsSize + kOneByteHeaderSize + length > extensionsCapacity then
            some (extensionsSize, entries)
          else
            let begin := (extensionsSize + kOneByteHeaderSize) % 2 ^ 16
            parseExtensions buffer extensionOffset extensionsCapacity fuel
              ((begin + length) % 2 ^ 16)
              (entries.modify (id - 1) fun e =>
                { e with offset := (extensionOffset + begin) % 2 ^ 16, length := length })
      else some (extensionsSize, entries)

/-- What `ParseBuffer` finds behind the CSRC list: the offset of the payload and the extensions. -/
structure HeaderEnd where
  payloadOffset : Nat
  extensionsSize : Nat
  extensionEntries : List ExtensionInfo

/-- The outcome of a parse; `outOfFuel` if the extension loop has not ended. -/
inductive Outcome (α : Type)
  | outOfFuel
  | rejected
  | accepted (value : α)

/-- The extension part of `ParseBuffer`. -/
def parseHeaderEnd (fuel : Nat) (buffer : Nat → Byte) (size payloadOffset : Nat)
    (entries : List ExtensionInfo) : Outcome HeaderEnd :=
  if buffer 0 &&& 0x10#8 ≠ 0#8 then
    let extensionOffset := payloadOffset + 4
    let extensionsCapacity := (read16 buffer (payloadOffset + 2)).toNat * 4
    if extensionOffset > size then .rejected
    else if extensionOffset + extensionsCapacity > size then .rejected
    else if read16 buffer payloadOffset ≠ kOneByteExtensionId then
      .accepted ⟨extensionOffset + extensionsCapacity, 0, entries⟩
    else
      match parseExtensions buffer extensionOffset extensionsCapacity fuel 0 entries with
      | none => .outOfFuel
      | some (extensionsSize, entries) =>
          .accepted ⟨extensionOffset + extensionsCapacity, extensionsSize, entries⟩
  else .accepted ⟨payloadOffset, 0, entries⟩

/-- `ParseBuffer(buffer, size)`. -/
def Packet.parseBuffer (fuel : Nat) (p : Packet) (buffer : Nat → Byte) (size : Nat) :
    Outcome Packet :=
  if size < kFixedHeaderSize then .rejected
  else if buffer 0 >>> 6 ≠ kRtpVersion then .rejected
  else
    let numberOfCsrcs := (buffer 0 &&& 0x0f#8).toNat
    let paddingSize := if buffer 0 &&& 0x20#8 ≠ 0#8 then (buffer (size - 1)).toNat else 0
    if size < kFixedHeaderSize + numberOfCsrcs * 4 then .rejected
    else if buffer 0 &&& 0x20#8 ≠ 0#8 ∧ paddingSize = 0 then .rejected
    else
      match parseHeaderEnd fuel buffer size (kFixedHeaderSize + numberOfCsrcs * 4)
        (p.extensionEntries.map ExtensionInfo.reset) with
      | .outOfFuel => .outOfFuel
      | .rejected => .rejected
      | .accepted e =>
          if e.payloadOffset + paddingSize > size then .rejected
          else
            .accepted
              { marker := decide (buffer 1 &&& 0x80#8 ≠ 0#8)
                payloadType := buffer 1 &&& 0x7f#8
                paddingSize := paddingSize
                sequenceNumber := read16 buffer 2
                timestamp := read32 buffer 4
                ssrc := read32 buffer 8
                payloadOffset := e.payloadOffset
                payloadSize := size - e.payloadOffset - paddingSize
                extensionEntries := e.extensionEntries
                extensionsSize := e.extensionsSize
                buffer := p.buffer }

/-- `Parse(buffer, size)`. -/
def Packet.parse (fresh : Nat → Byte) (fuel : Nat) (p : Packet) (buffer : Nat → Byte)
    (size : Nat) : Option (Bool × Packet) :=
  match p.parseBuffer fuel buffer size with
  | .outOfFuel => none
  | .rejected => some (false, p.clear fresh)
  | .accepted q => some (true, { q with buffer := q.buffer.setData fresh buffer size })

end WebRtc.Rtp.RtpPacket
