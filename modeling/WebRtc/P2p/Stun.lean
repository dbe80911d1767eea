import WebRtc.Base.ByteBuffer

/-! `StunMessage` and its attributes (`stun.h`, `stun.cc`): writing, reading, and the validation of
MESSAGE-INTEGRITY and FINGERPRINT. Addresses and transaction ids are kept as words in network
order. Which value type an attribute type has is virtual in the source and a parameter here. -/

namespace WebRtc.Stun

open BigEndian ByteBuffer

/-! ## Constants -/

def STUN_ATTR_MESSAGE_INTEGRITY : BitVec 16 := 0x0008
def STUN_ATTR_ERROR_CODE : BitVec 16 := 0x0009
def STUN_ATTR_FINGERPRINT : BitVec 16 := 0x8028

def kStunAttributeHeaderSize : Nat := 4
def kStunHeaderSize : Nat := 20
def kStunMagicCookie : BitVec 32 := 0x2112A442
def kStunMessageIntegritySize : Nat := 20
def STUN_FINGERPRINT_XOR_VALUE : BitVec 32 := 0x5354554E

/-- `StunAttributeValueType`. -/
inductive ValueType where
  | unknown
  | address
  | xorAddress
  | uint32
  | uint64
  | byteString
  | errorCode
  | uint16List
  deriving DecidableEq, Repr

/-- `StunMessage::GetAttributeValueType`. -/
def getAttributeValueType (type : BitVec 16) : ValueType :=
  match type.toNat with
  | 0x0001 => .address
  | 0x0006 => .byteString
  | 0x0008 => .byteString
  | 0x0009 => .errorCode
  | 0x000a => .uint16List
  | 0x0014 => .byteString
  | 0x0015 => .byteString
  | 0x0020 => .xorAddress
  | 0x8022 => .byteString
  | 0x8023 => .address
  | 0x8028 => .uint32
  | 0x802F => .byteString
  | 0xFF00 => .uint32
  | _ => .unknown

/-- `RelayMessage::GetAttributeValueType`. -/
def relayAttributeValueType (type : BitVec 16) : ValueType :=
  match type.toNat with
  | 0x000d => .uint32
  | 0x000f => .byteString
  | 0x0010 => .uint32
  | 0x0011 => .address
  | 0x0012 => .address
  | 0x0013 => .byteString
  | 0x8001 => .uint32
  | _ => getAttributeValueType type

/-- `TurnMessage::GetAttributeValueType`. -/
def turnAttributeValueType (type : BitVec 16) : ValueType :=
  match type.toNat with
  | 0x000C => .uint32
  | 0x000d => .uint32
  | 0x0012 => .xorAddress
  | 0x0013 => .byteString
  | 0x0016 => .xorAddress
  | 0x0018 => .byteString
  | 0x0019 => .uint32
  | 0x001A => .byteString
  | 0x0022 => .byteString
  | _ => getAttributeValueType type

/-- `IceMessage::GetAttributeValueType`. -/
def iceAttributeValueType (type : BitVec 16) : ValueType :=
  match type.toNat with
  | 0x0024 => .uint32
  | 0x0025 => .byteString
  | 0x8029 => .uint64
  | 0x802A => .uint64
  | 0xC001 => .uint32
  | 0xC057 => .uint32
  | _ => getAttributeValueType type

/-! ## Addresses and transaction ids -/

inductive IPAddress where
  | unspec
  | v4 (addr : BitVec 32)
  | v6 (w0 w1 w2 w3 : BitVec 32)
  deriving DecidableEq, Repr

structure SocketAddress where
  ip : IPAddress
  port : BitVec 16
  deriving DecidableEq, Repr

/-- A transaction id of 12 bytes, or of 16 bytes in a legacy message. -/
inductive TransactionId where
  | rfc5389 (w0 w1 w2 : BitVec 32)
  | legacy (w0 w1 w2 w3 : BitVec 32)
  deriving DecidableEq, Repr

/-- The magic cookie, if any, and the transaction id as they are written. -/
def TransactionId.write : TransactionId → List Byte
  | .rfc5389 w0 w1 w2 => write32 kStunMagicCookie ++ write32 w0 ++ write32 w1 ++ write32 w2
  | .legacy w0 w1 w2 w3 => write32 w0 ++ write32 w1 ++ write32 w2 ++ write32 w3

/-- `GetXoredIP` for an attribute that has an owner. -/
def getXoredIP (id : TransactionId) : IPAddress → IPAddress
  | .unspec => .unspec
  | .v4 addr => .v4 (addr ^^^ kStunMagicCookie)
  | .v6 w0 w1 w2 w3 =>
    match id with
    | .rfc5389 t0 t1 t2 => .v6 (w0 ^^^ kStunMagicCookie) (w1 ^^^ t0) (w2 ^^^ t1) (w3 ^^^ t2)
    | .legacy .. => .unspec

/-- `port() ^ (kStunMagicCookie >> 16)`. -/
def xoredPort (port : BitVec 16) : BitVec 16 := port ^^^ 0x2112

/-! ## Attributes -/

inductive AttributeValue where
  | address (address : SocketAddress)
  | xorAddress (address : SocketAddress)
  | uint32 (bits : BitVec 32)
  | uint64 (bits : BitVec 64)
  | byteString (bytes : List Byte)
  | errorCode (eclass number : Byte) (reason : List Byte)
  | uint16List (attrTypes : List (BitVec 16))
  deriving DecidableEq, Repr

structure StunAttribute where
  type : BitVec 16
  length : BitVec 16
  value : AttributeValue
  deriving DecidableEq, Repr

def AttributeValue.valueType : AttributeValue → ValueType
  | .address _ => .address
  | .xorAddress _ => .xorAddress
  | .uint32 _ => .uint32
  | .uint64 _ => .uint64
  | .byteString _ => .byteString
  | .errorCode .. => .errorCode
  | .uint16List _ => .uint16List

/-- `EnsureAddressLength`. -/
def addressLength : IPAddress → BitVec 16
  | .unspec => 0
  | .v4 _ => 8
  | .v6 .. => 20

def stunAddressAttribute (type : BitVec 16) (addr : SocketAddress) : StunAttribute :=
  ⟨type, addressLength addr.ip, .address addr⟩

def stunXorAddressAttribute (type : BitVec 16) (addr : SocketAddress) : StunAttribute :=
  ⟨type, addressLength addr.ip, .xorAddress addr⟩

def stunUInt32Attribute (type : BitVec 16) (value : BitVec 32) : StunAttribute :=
  ⟨type, 4, .uint32 value⟩

def stunUInt64Attribute (type : BitVec 16) (value : BitVec 64) : StunAttribute :=
  ⟨type, 8, .uint64 value⟩

def stunByteStringAttribute (type : BitVec 16) (bytes : List Byte) : StunAttribute :=
  ⟨type, BitVec.ofNat 16 bytes.length, .byteString bytes⟩

def stunErrorCodeAttribute (type : BitVec 16) (code : Int) (reason : List Byte) : StunAttribute :=
  ⟨type, 4 + BitVec.ofNat 16 reason.length,
    .errorCode (BitVec.ofInt 8 (code.tdiv 100)) (BitVec.ofInt 8 (code.tmod 100)) reason⟩

/-- `AddType`. -/
def addType (attr : StunAttribute) (value : BitVec 16) : StunAttribute :=
  match attr.value with
  | .uint16List attrTypes =>
    ⟨attr.type, BitVec.ofNat 16 ((attrTypes ++ [value]).length * 2),
      .uint16List (attrTypes ++ [value])⟩
  | _ => attr

/-- A list attribute made empty and filled with `AddType`. -/
def stunUInt16ListAttribute (type : BitVec 16) (values : List (BitVec 16)) : StunAttribute :=
  values.foldl addType ⟨type, 0, .uint16List []⟩

/-! ## Writing -/

/-- What `length_ % 4` lacks to a multiple of 4. -/
def paddingOf (length : BitVec 16) : Nat := if length.toNat % 4 > 0 then 4 - length.toNat % 4 else 0

/-- `WritePadding`. -/
def writePadding (length : BitVec 16) : List Byte := List.replicate (paddingOf length) 0

/-- `StunAddressAttribute::Write` of an address. -/
def writeAddress (port : BitVec 16) : IPAddress → Option (List Byte)
  | .unspec => none
  | .v4 addr => some ([0, 1] ++ write16 port ++ write32 addr)
  | .v6 w0 w1 w2 w3 =>
    some ([0, 2] ++ write16 port ++ write32 w0 ++ write32 w1 ++ write32 w2 ++ write32 w3)

/-- `class_ << 8 | number_`. -/
def errorWord (eclass number : Byte) : BitVec 32 :=
  eclass.zeroExtend 32 <<< 8 ||| number.zeroExtend 32

/-- The bodies that the attributes write; `none` when `Write` returns false, or reads behind the
bytes of a byte string. -/
def StunAttribute.write (id : TransactionId) (attr : StunAttribute) : Option (List Byte) :=
  match attr.value with
  | .address addr => writeAddress addr.port addr.ip
  | .xorAddress addr => writeAddress (xoredPort addr.port) (getXoredIP id addr.ip)
  | .uint32 bits => some (write32 bits)
  | .uint64 bits => some (write64 bits)
  | .byteString bytes =>
    if attr.length.toNat ≤ bytes.length then
      some (bytes.take attr.length.toNat ++ writePadding attr.length)
    else none
  | .errorCode eclass number reason =>
    some (write32 (errorWord eclass number) ++ reason ++ writePadding attr.length)
  | .uint16List attrTypes => some (attrTypes.flatMap write16 ++ writePadding attr.length)

structure StunMessage where
  type : BitVec 16 := 0
  length : BitVec 16 := 0
  transactionId : TransactionId
  attrs : List StunAttribute := []
  deriving DecidableEq, Repr

/-- A length rounded up to a multiple of 4. -/
def paddedLength (length : Nat) : Nat :=
  if length % 4 ≠ 0 then length + (4 - length % 4) else length

/-- `AddAttribute`. -/
def addAttribute (message : StunMessage) (attr : StunAttribute) : StunMessage :=
  { message with
    length := message.length + BitVec.ofNat 16 (paddedLength attr.length.toNat + 4)
    attrs := message.attrs ++ [attr] }

/-- The loop of `Write` over the attributes. -/
def writeAttributes (id : TransactionId) : List StunAttribute → Option (List Byte)
  | [] => some []
  | attr :: attrs => do
    let body ← attr.write id
    let rest ← writeAttributes id attrs
    return write16 attr.type ++ write16 attr.length ++ body ++ rest

/-- `StunMessage::Write`. -/
def StunMessage.write (message : StunMessage) : Option (List Byte) := do
  let attributes ← writeAttributes message.transactionId message.attrs
  return write16 message.type ++ write16 message.length ++ message.transactionId.write ++ attributes

/-! ## Reading -/

/-- `StunAttribute::Create`. -/
def createAttribute (valueType : ValueType) (type length : BitVec 16) : Option StunAttribute :=
  match valueType with
  | .address => some ⟨type, length, .address ⟨.unspec, 0⟩⟩
  | .xorAddress => some ⟨type, length, .xorAddress ⟨.unspec, 0⟩⟩
  | .uint32 => some ⟨type, 4, .uint32 0⟩
  | .uint64 => some ⟨type, 8, .uint64 0⟩
  | .byteString => some ⟨type, length, .byteString []⟩
  | .errorCode => some ⟨type, length, .errorCode 0 0 []⟩
  | .uint16List => some ⟨type, length, .uint16List []⟩
  | .unknown => none

/-- `ConsumePadding`, which does not look at what `Consume` returns. -/
def consumePadding (length : BitVec 16) (buf : List Byte) : List Byte :=
  match consume (paddingOf length) buf with
  | some (_, buf) => buf
  | none => buf

/-- `StunAddressAttribute::Read`. -/
def readAddress (length : BitVec 16) (buf : List Byte) : Option (SocketAddress × List Byte) := do
  let (_dummy, buf) ← readUInt8 buf
  let (stunFamily, buf) ← readUInt8 buf
  let (port, buf) ← readUInt16 buf
  if stunFamily = 1 then
    if length = 8 then
      let (addr, buf) ← readUInt32 buf
      return (⟨.v4 addr, port⟩, buf)
    else none
  else if stunFamily = 2 then
    if length = 20 then
      let (w0, buf) ← readUInt32 buf
      let (w1, buf) ← readUInt32 buf
      let (w2, buf) ← readUInt32 buf
      let (w3, buf) ← readUInt32 buf
      return (⟨.v6 w0 w1 w2 w3, port⟩, buf)
    else none
  else none

/-- The loop of `StunUInt16ListAttribute::Read`. -/
def readUInt16s : Nat → List Byte → Option (List (BitVec 16) × List Byte)
  | 0, buf => some ([], buf)
  | n + 1, buf => do
    let (attr, buf) ← readUInt16 buf
    let (attrs, buf) ← readUInt16s n buf
    return (attr :: attrs, buf)

/-- `Read` of an attribute that `Create` has made. -/
def StunAttribute.read (id : TransactionId) (attr : StunAttribute) (buf : List Byte) :
    Option (StunAttribute × List Byte) :=
  match attr.value with
  | .address _ => do
    let (addr, buf) ← readAddress attr.length buf
    return (stunAddressAttribute attr.type addr, buf)
  | .xorAddress _ => do
    let (addr, buf) ← readAddress attr.length buf
    return (stunXorAddressAttribute attr.type ⟨getXoredIP id addr.ip, xoredPort addr.port⟩, buf)
  | .uint32 _ => do
    if attr.length ≠ 4 then none
    else
      let (bits, buf) ← readUInt32 buf
      return (⟨attr.type, attr.length, .uint32 bits⟩, buf)
  | .uint64 _ => do
    if attr.length ≠ 8 then none
    else
      let (bits, buf) ← readUInt64 buf
      return (⟨attr.type, attr.length, .uint64 bits⟩, buf)
  | .byteString _ => do
    let (bytes, buf) ← readBytes attr.length.toNat buf
    return (⟨attr.type, attr.length, .byteString bytes⟩, consumePadding attr.length buf)
  | .errorCode _ _ reason => do
    if attr.length.toNat < 4 then none
    else
      let (val, buf) ← readUInt32 buf
      let (bytes, buf) ← readBytes (attr.length.toNat - 4) buf
      return (⟨attr.type, attr.length, .errorCode ((val >>> 8 &&& 0x7).setWidth 8)
        ((val &&& 0xff).setWidth 8) (reason ++ bytes)⟩, consumePadding attr.length buf)
  | .uint16List attrTypes => do
    if attr.length.toNat % 2 ≠ 0 then none
    else
      let (values, buf) ← readUInt16s (attr.length.toNat / 2) buf
      return (⟨attr.type, attr.length, .uint16List (attrTypes ++ values)⟩,
        consumePadding attr.length buf)

/-- One turn of the loop of `StunMessage::Read`: where it starts, what the wire says, and the
attribute unless it is skipped. -/
structure Entry where
  position : Nat
  type : BitVec 16
  wireLength : BitVec 16
  attr : Option StunAttribute
  deriving DecidableEq, Repr

section Read

variable (valueTypeOf : BitVec 16 → ValueType)

def readEntry (id : TransactionId) (position : Nat) (buf : List Byte) :
    Option (Entry × List Byte) := do
  let (attrType, buf) ← readUInt16 buf
  let (attrLength, buf) ← readUInt16 buf
  match createAttribute (valueTypeOf attrType) attrType attrLength with
  | none =>
    -- The rounded length is assigned back to a `uint16_t`.
    let (_, buf) ← consume (paddedLength attrLength.toNat % 2 ^ 16) buf
    return (⟨position, attrType, attrLength, none⟩, buf)
  | some attr =>
    let (attr, buf) ← attr.read id buf
    return (⟨position, attrType, attrLength, some attr⟩, buf)

/-- The loop, with a bound on its turns that `readEntries_fuel` shows to be none. -/
def readEntries (id : TransactionId) : (fuel position : Nat) → List Byte → Option (List Entry)
  | fuel, position, buf =>
    if buf.isEmpty then some []
    else
      match fuel with
      | 0 => none
      | fuel + 1 => do
        let (entry, rest) ← readEntry valueTypeOf id position buf
        let entries ← readEntries id fuel (position + (buf.length - rest.length)) rest
        return entry :: entries

/-- The magic cookie and the transaction id. -/
def readTransactionId (buf : List Byte) : Option (TransactionId × List Byte) := do
  let (magicCookie, buf) ← readUInt32 buf
  let (w0, buf) ← readUInt32 buf
  let (w1, buf) ← readUInt32 buf
  let (w2, buf) ← readUInt32 buf
  return (if magicCookie ≠ kStunMagicCookie then .legacy magicCookie w0 w1 w2
    else .rfc5389 w0 w1 w2, buf)

/-- `StunMessage::Read`, with the turns of its loop. -/
def readMessage (data : List Byte) : Option (StunMessage × List Entry) := do
  let (type, buf) ← readUInt16 data
  if type &&& 0x8000 ≠ 0 then none
  else
    let (length, buf) ← readUInt16 buf
    let (id, buf) ← readTransactionId buf
    if length.toNat ≠ buf.length then none
    else
      let entries ← readEntries valueTypeOf id buf.length kStunHeaderSize buf
      return (⟨type, length, id, entries.filterMap Entry.attr⟩, entries)

end Read

/-! ## Validation -/

/-- `GetBE16(&data[pos])`. -/
def getBE16 (data : List Byte) (pos : Nat) : BitVec 16 :=
  match data.drop pos with
  | a :: b :: _ => be16 a b
  | _ => 0

/-- `GetBE32(&data[pos])`. -/
def getBE32 (data : List Byte) (pos : Nat) : BitVec 32 :=
  be32 (getBE16 data pos) (getBE16 data (pos + 2))

/-- The walk of `ValidateMessageIntegrity` over the attributes: the positions it visits, and the
one of MESSAGE-INTEGRITY if there is any. -/
def attributeWalk (data : List Byte) : (fuel currentPos : Nat) → List Nat × Option Nat
  | 0, _ => ([], none)
  | fuel + 1, currentPos =>
    if currentPos + 4 ≤ data.length then
      if getBE16 data currentPos = STUN_ATTR_MESSAGE_INTEGRITY then ([currentPos], some currentPos)
      else
        let rest := attributeWalk data fuel
          (currentPos + 4 + paddedLength (getBE16 data (currentPos + 2)).toNat)
        (currentPos :: rest.1, rest.2)
    else ([], none)

/-- The checks of `ValidateMessageIntegrity` on the size and the length of the header. -/
def sizesAgree (data : List Byte) : Bool :=
  data.length % 4 = 0 && kStunHeaderSize ≤ data.length &&
    data.length = (getBE16 data 2).toNat + kStunHeaderSize

/-- `SetBE16(temp_data + 2, length)`. -/
def setHeaderLength (data : List Byte) (length : BitVec 16) : List Byte :=
  data.take 2 ++ write16 length ++ data.drop 4

section Validate

variable (hmac : List Byte → List Byte → List Byte) (crc32 : List Byte → BitVec 32)

/-- `ValidateMessageIntegrity(data, size, password)`. -/
def validateMessageIntegrity (data password : List Byte) : Bool :=
  if !sizesAgree data then false
  else
    match (attributeWalk data data.length kStunHeaderSize).2 with
    | none => false
    | some miPos =>
      let attrLength := (getBE16 data (miPos + 2)).toNat
      if attrLength ≠ kStunMessageIntegritySize || miPos + 4 + attrLength > data.length then false
      else
        let miEnd := miPos + kStunAttributeHeaderSize + kStunMessageIntegritySize
        let tempData :=
          if data.length > miEnd then
            setHeaderLength (data.take miPos)
              (BitVec.ofNat 16 (data.length - (data.length - miEnd) - kStunHeaderSize))
          else data.take miPos
        (data.drop (miPos + kStunAttributeHeaderSize)).take kStunMessageIntegritySize =
          hmac password tempData

/-- `AddMessageIntegrity(key)`: the value is filled in after the message was written with a dummy
value; `none` when it returns false. -/
def addMessageIntegrity (message : StunMessage) (key : List Byte) : Option StunMessage := do
  let dummy := stunByteStringAttribute STUN_ATTR_MESSAGE_INTEGRITY
    (List.replicate kStunMessageIntegritySize 0x30)
  let buf ← (addAttribute message dummy).write
  let msgLenForHmac := buf.length - kStunAttributeHeaderSize - dummy.length.toNat
  let digest := hmac key (buf.take msgLenForHmac)
  return { addAttribute message dummy with
    attrs := message.attrs ++ [stunByteStringAttribute STUN_ATTR_MESSAGE_INTEGRITY digest] }

/-- `ValidateFingerprint(data, size)`. -/
def validateFingerprint (data : List Byte) : Bool :=
  let fingerprintAttrSize := kStunAttributeHeaderSize + 4
  if data.length % 4 ≠ 0 || data.length < kStunHeaderSize + fingerprintAttrSize then false
  else if getBE32 data 4 ≠ kStunMagicCookie then false
  else
    let start := data.length - fingerprintAttrSize
    if getBE16 data start ≠ STUN_ATTR_FINGERPRINT || getBE16 data (start + 2) ≠ 4 then false
    else
      getBE32 data (start + kStunAttributeHeaderSize) ^^^ STUN_FINGERPRINT_XOR_VALUE =
        crc32 (data.take start)

/-- `AddFingerprint()`. -/
def addFingerprint (message : StunMessage) : Option StunMessage := do
  let dummy := stunUInt32Attribute STUN_ATTR_FINGERPRINT 0
  let buf ← (addAttribute message dummy).write
  let msgLenForCrc32 := buf.length - kStunAttributeHeaderSize - dummy.length.toNat
  let c := crc32 (buf.take msgLenForCrc32)
  return { addAttribute message dummy with
    attrs := message.attrs ++
      [stunUInt32Attribute STUN_ATTR_FINGERPRINT (c ^^^ STUN_FINGERPRINT_XOR_VALUE)] }

end Validate

end WebRtc.Stun
