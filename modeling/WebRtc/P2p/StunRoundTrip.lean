import WebRtc.P2p.StunBoundaries

/-! What `StunMessage::Write` writes, `StunMessage::Read` reads back: one lemma for the body of each
kind of attribute, the list by induction, the header last. -/

namespace WebRtc.Stun

open BigEndian ByteBuffer List

variable {attr : StunAttribute} {ip : IPAddress} {type length : BitVec 16}

/-! ## Attributes as their constructors make them -/

/-- The attributes made by a constructor that is given the value, in a message with this id. -/
inductive Built (id : TransactionId) : StunAttribute → Prop where
  | addressV4 (type : BitVec 16) (addr : BitVec 32) (port : BitVec 16) :
      Built id (stunAddressAttribute type ⟨.v4 addr, port⟩)
  | addressV6 (type : BitVec 16) (w0 w1 w2 w3 : BitVec 32) (port : BitVec 16) :
      Built id (stunAddressAttribute type ⟨.v6 w0 w1 w2 w3, port⟩)
  | xorAddressV4 (type : BitVec 16) (addr : BitVec 32) (port : BitVec 16) :
      Built id (stunXorAddressAttribute type ⟨.v4 addr, port⟩)
  | xorAddressV6 (type : BitVec 16) (w0 w1 w2 w3 : BitVec 32) (port : BitVec 16)
      (t0 t1 t2 : BitVec 32) (hid : id = .rfc5389 t0 t1 t2) :
      Built id (stunXorAddressAttribute type ⟨.v6 w0 w1 w2 w3, port⟩)
  | uint32 (type : BitVec 16) (value : BitVec 32) : Built id (stunUInt32Attribute type value)
  | uint64 (type : BitVec 16) (value : BitVec 64) : Built id (stunUInt64Attribute type value)
  | byteString (type : BitVec 16) (bytes : List Byte) :
      Built id (stunByteStringAttribute type bytes)
  | errorCode (type : BitVec 16) (code : Int) (reason : List Byte) (hlow : 0 ≤ code)
      (hhigh : code ≤ 799) : Built id (stunErrorCodeAttribute type code reason)
  | uint16List (type : BitVec 16) (values : List (BitVec 16)) :
      Built id (stunUInt16ListAttribute type values)

/-- The bytes of a value, without padding. -/
def valueSize : AttributeValue → Nat
  | .address addr => (addressLength addr.ip).toNat
  | .xorAddress addr => (addressLength addr.ip).toNat
  | .uint32 _ => 4
  | .uint64 _ => 8
  | .byteString bytes => bytes.length
  | .errorCode _ _ reason => 4 + reason.length
  | .uint16List attrTypes => attrTypes.length * 2

/-- The bytes of all attributes with their headers and padding. -/
def attributesSize (attrs : List StunAttribute) : Nat :=
  (attrs.map fun attr => paddedLength (valueSize attr.value) + 4).sum

theorem foldl_addType (type : BitVec 16) (values done : List (BitVec 16)) :
    values.foldl addType ⟨type, BitVec.ofNat 16 (done.length * 2), .uint16List done⟩ =
      ⟨type, BitVec.ofNat 16 ((done ++ values).length * 2), .uint16List (done ++ values)⟩ := by
  induction values generalizing done with
  | nil => simp
  | cons _ values ih =>
    rw [foldl_cons, addType, ih, append_assoc, singleton_append]

theorem stunUInt16ListAttribute_eq (type : BitVec 16) (values : List (BitVec 16)) :
    stunUInt16ListAttribute type values =
      ⟨type, BitVec.ofNat 16 (values.length * 2), .uint16List values⟩ :=
  foldl_addType type values []

/-- The length of an attribute is the size of its value, in 16 bits. -/
theorem Built.length_eq {id : TransactionId} (h : Built id attr) :
    attr.length = BitVec.ofNat 16 (valueSize attr.value) := by
  cases h with
  | addressV4 | addressV6 | xorAddressV4 | xorAddressV6 | uint32 | uint64 => rfl
  | byteString => rfl
  | errorCode =>
    simp only [stunErrorCodeAttribute, valueSize, BitVec.ofNat_add]
    rfl
  | uint16List _ _ => rw [stunUInt16ListAttribute_eq]; rfl

/-! ## Padding and words -/

@[simp] theorem length_writePadding (length : BitVec 16) :
    (writePadding length).length = paddingOf length :=
  length_replicate

@[simp] theorem consumePadding_writePadding (length : BitVec 16) (rest : List Byte) :
    consumePadding length (writePadding length ++ rest) = rest := by
  have hconsume : consume (paddingOf length) (writePadding length ++ rest) = some ((), rest) := by
    rw [consume, if_neg (by simp), drop_left' (length_writePadding length)]
  rw [consumePadding, hconsume]

theorem toNat_errorWord (eclass number : Byte) :
    (errorWord eclass number).toNat = eclass.toNat * 256 + number.toNat := by
  have hclass : (eclass.zeroExtend 32 <<< 8).toNat = eclass.toNat <<< 8 := by
    simp only [BitVec.toNat_shiftLeft, BitVec.toNat_setWidth, Nat.shiftLeft_eq]
    omega
  have hnumber : (number.zeroExtend 32).toNat = number.toNat := by
    simp only [BitVec.toNat_setWidth]
    omega
  rw [errorWord, BitVec.toNat_or, hclass, hnumber, ← Nat.shiftLeft_add_eq_or_of_lt number.isLt,
    Nat.shiftLeft_eq]

theorem eclass_errorWord {eclass : Byte} (number : Byte) (h : eclass.toNat < 8) :
    (errorWord eclass number >>> 8 &&& 0x7).setWidth 8 = eclass := by
  apply BitVec.eq_of_toNat_eq
  have hseven : (0x7 : BitVec 32).toNat = 2 ^ 3 - 1 := rfl
  rw [BitVec.toNat_setWidth, BitVec.toNat_and, BitVec.toNat_ushiftRight, toNat_errorWord, hseven,
    Nat.and_two_pow_sub_one_eq_mod, Nat.shiftRight_eq_div_pow]
  omega

theorem number_errorWord (eclass number : Byte) :
    (errorWord eclass number &&& 0xff).setWidth 8 = number := by
  apply BitVec.eq_of_toNat_eq
  have hff : (0xff : BitVec 32).toNat = 2 ^ 8 - 1 := rfl
  rw [BitVec.toNat_setWidth, BitVec.toNat_and, toNat_errorWord, hff, Nat.and_two_pow_sub_one_eq_mod]
  omega

theorem length_flatMap_write16 (values : List (BitVec 16)) :
    (values.flatMap write16).length = values.length * 2 := by
  induction values with
  | nil => rfl
  | cons _ values ih =>
    rw [flatMap_cons, length_append, ih, length_write16, length_cons]
    omega

theorem readUInt16s_write (values : List (BitVec 16)) (rest : List Byte) :
    readUInt16s values.length (values.flatMap write16 ++ rest) = some (values, rest) := by
  induction values with
  | nil => rfl
  | cons _ values ih => simp [readUInt16s, ih]

/-- Xor with the same bits twice undoes itself. -/
theorem xor_xor_cancel {w : Nat} (a b : BitVec w) : a ^^^ b ^^^ b = a := by
  rw [BitVec.xor_assoc, BitVec.xor_self, BitVec.xor_zero]

@[simp] theorem xoredPort_xoredPort (port : BitVec 16) : xoredPort (xoredPort port) = port :=
  xor_xor_cancel port _

/-! ## One attribute -/

variable {valueTypeOf : BitVec 16 → ValueType} {id : TransactionId}

/-- The attribute is written as a body of its padded length and read back from it. -/
def RoundTrips (valueTypeOf : BitVec 16 → ValueType) (id : TransactionId) (attr : StunAttribute) :
    Prop :=
  ∃ body, attr.write id = some body ∧ body.length = paddedLength attr.length.toNat ∧
    ∀ position rest, readEntry valueTypeOf id position
      (write16 attr.type ++ write16 attr.length ++ body ++ rest) =
        some (⟨position, attr.type, attr.length, some attr⟩, rest)

/-- The header is read back, so that only the body is left to show. -/
theorem roundTrips_of_body (made : StunAttribute) (body : List Byte)
    (hmade : createAttribute (valueTypeOf attr.type) attr.type attr.length = some made)
    (hwrite : attr.write id = some body) (hlength : body.length = paddedLength attr.length.toNat)
    (hread : ∀ rest, made.read id (body ++ rest) = some (attr, rest)) :
    RoundTrips valueTypeOf id attr := by
  refine ⟨body, hwrite, hlength, fun position rest => ?_⟩
  simp [readEntry, hmade, hread]

theorem readAddress_write {body : List Byte} (port : BitVec 16)
    (hbody : writeAddress port ip = some body) (rest : List Byte) :
    readAddress (addressLength ip) (body ++ rest) = some (⟨ip, port⟩, rest) := by
  cases ip with
  | unspec => cases hbody
  | v4 _ | v6 _ _ _ _ =>
    cases hbody
    simp [readAddress, addressLength]

theorem length_writeAddress {body : List Byte} {port : BitVec 16}
    (hbody : writeAddress port ip = some body) :
    body.length = paddedLength (addressLength ip).toNat := by
  cases ip with
  | unspec => cases hbody
  | v4 _ | v6 _ _ _ _ =>
    cases hbody
    simp [addressLength, paddedLength]

/-- A family that the xor keeps can be undone. -/
theorem getXoredIP_getXoredIP (h : getXoredIP id ip ≠ .unspec) :
    getXoredIP id (getXoredIP id ip) = ip ∧
      addressLength (getXoredIP id ip) = addressLength ip := by
  cases ip with
  | unspec => exact absurd rfl h
  | v4 _ => simp only [getXoredIP, addressLength, xor_xor_cancel, and_self]
  | v6 _ _ _ _ =>
    cases id with
    | legacy => exact absurd rfl h
    | rfc5389 _ _ _ => simp only [getXoredIP, addressLength, xor_xor_cancel, and_self]

theorem writeAddress_isSome (hip : ip ≠ .unspec) (port : BitVec 16) :
    ∃ body, writeAddress port ip = some body := by
  cases ip with
  | unspec => exact absurd rfl hip
  | v4 | v6 => exact ⟨_, rfl⟩

theorem roundTrips_address {addr : SocketAddress} (hip : addr.ip ≠ .unspec)
    (htype : valueTypeOf type = .address) :
    RoundTrips valueTypeOf id (stunAddressAttribute type addr) := by
  obtain ⟨body, hbody⟩ := writeAddress_isSome hip addr.port
  refine roundTrips_of_body ⟨type, addressLength addr.ip, .address ⟨.unspec, 0⟩⟩ body ?_ hbody
    (length_writeAddress hbody) fun rest => ?_
  · simp [stunAddressAttribute, htype, createAttribute]
  · simp [StunAttribute.read, readAddress_write addr.port hbody]

theorem roundTrips_xorAddress {addr : SocketAddress} (hip : getXoredIP id addr.ip ≠ .unspec)
    (htype : valueTypeOf type = .xorAddress) :
    RoundTrips valueTypeOf id (stunXorAddressAttribute type addr) := by
  obtain ⟨hundo, hlength⟩ := getXoredIP_getXoredIP hip
  obtain ⟨body, hbody⟩ := writeAddress_isSome hip (xoredPort addr.port)
  refine roundTrips_of_body ⟨type, addressLength addr.ip, .xorAddress ⟨.unspec, 0⟩⟩ body ?_ hbody
    ?_ fun rest => ?_
  · simp [stunXorAddressAttribute, htype, createAttribute]
  · rw [length_writeAddress hbody, hlength]
    rfl
  have hread := readAddress_write (xoredPort addr.port) hbody rest
  rw [hlength] at hread
  simp [StunAttribute.read, hread, hundo]

theorem roundTrips_uint32 (type : BitVec 16) (value : BitVec 32)
    (htype : valueTypeOf type = .uint32) :
    RoundTrips valueTypeOf id (stunUInt32Attribute type value) := by
  refine roundTrips_of_body ⟨type, 4, .uint32 0⟩ (write32 value) ?_ rfl
    (by simp [stunUInt32Attribute, paddedLength]) fun rest => ?_
  · simp [stunUInt32Attribute, htype, createAttribute]
  · simp [StunAttribute.read, stunUInt32Attribute]

theorem roundTrips_uint64 (type : BitVec 16) (value : BitVec 64)
    (htype : valueTypeOf type = .uint64) :
    RoundTrips valueTypeOf id (stunUInt64Attribute type value) := by
  refine roundTrips_of_body ⟨type, 8, .uint64 0⟩ (write64 value) ?_ rfl
    (by simp [stunUInt64Attribute, paddedLength]) fun rest => ?_
  · simp [stunUInt64Attribute, htype, createAttribute]
  · simp [StunAttribute.read, stunUInt64Attribute]

/-! For the last three kinds the length is not a constant; `length` is what 16 bits hold of it. -/

theorem roundTrips_byteString {bytes : List Byte} (hlength : length.toNat = bytes.length)
    (htype : valueTypeOf type = .byteString) :
    RoundTrips valueTypeOf id ⟨type, length, .byteString bytes⟩ := by
  refine roundTrips_of_body ⟨type, length, .byteString []⟩ (bytes ++ writePadding length) ?_ ?_ ?_
    fun rest => ?_
  · simp [htype, createAttribute]
  · simp [StunAttribute.write, hlength]
  · rw [paddedLength_eq, hlength, length_append, length_writePadding]
  · simp [StunAttribute.read, hlength]

theorem roundTrips_errorCode {eclass number : Byte} {reason : List Byte} (hclass : eclass.toNat < 8)
    (hlength : length.toNat = 4 + reason.length) (htype : valueTypeOf type = .errorCode) :
    RoundTrips valueTypeOf id ⟨type, length, .errorCode eclass number reason⟩ := by
  refine roundTrips_of_body ⟨type, length, .errorCode 0 0 []⟩
    (write32 (errorWord eclass number) ++ reason ++ writePadding length) ?_ rfl ?_ fun rest => ?_
  · simp [htype, createAttribute]
  · rw [paddedLength_eq, hlength, length_append, length_append, length_writePadding, length_write32]
  have hrest : length.toNat - 4 = reason.length := by omega
  simp only [StunAttribute.read, append_assoc, readUInt32_write32, hrest, readBytes_append,
    Option.bind_eq_bind, Option.bind_some, consumePadding_writePadding, nil_append,
    eclass_errorWord number hclass, number_errorWord]
  rw [if_neg (by omega)]
  rfl

theorem roundTrips_uint16List {values : List (BitVec 16)}
    (hlength : length.toNat = values.length * 2) (htype : valueTypeOf type = .uint16List) :
    RoundTrips valueTypeOf id ⟨type, length, .uint16List values⟩ := by
  refine roundTrips_of_body ⟨type, length, .uint16List []⟩
    (values.flatMap write16 ++ writePadding length) ?_ rfl ?_ fun rest => ?_
  · simp [htype, createAttribute]
  · rw [paddedLength_eq, hlength, length_append, length_writePadding, length_flatMap_write16]
  · simp [StunAttribute.read, hlength, readUInt16s_write]

/-- The class of an error code up to 799 has three bits. -/
theorem toNat_eclass_lt {code : Int} (hlow : 0 ≤ code) (hhigh : code ≤ 799) :
    (BitVec.ofInt 8 (code.tdiv 100)).toNat < 8 := by
  rw [BitVec.toNat_ofInt, Int.tdiv_eq_ediv_of_nonneg hlow]
  omega

theorem Built.roundTrips (h : Built id attr) (htype : valueTypeOf attr.type = attr.value.valueType)
    (hsize : valueSize attr.value < 2 ^ 16) : RoundTrips valueTypeOf id attr := by
  have hlength : attr.length.toNat = valueSize attr.value := by
    rw [h.length_eq, BitVec.toNat_ofNat, Nat.mod_eq_of_lt hsize]
  cases h with
  | addressV4 type addr port => exact roundTrips_address (by simp) htype
  | addressV6 type w0 w1 w2 w3 port => exact roundTrips_address (by simp) htype
  | xorAddressV4 type addr port => exact roundTrips_xorAddress (by simp [getXoredIP]) htype
  | xorAddressV6 type w0 w1 w2 w3 port _ _ _ hid =>
    subst hid
    exact roundTrips_xorAddress (by simp [getXoredIP]) htype
  | uint32 type value => exact roundTrips_uint32 type value htype
  | uint64 type value => exact roundTrips_uint64 type value htype
  | byteString type _ => exact roundTrips_byteString hlength htype
  | errorCode type _ _ hlow hhigh =>
    exact roundTrips_errorCode (toNat_eclass_lt hlow hhigh) hlength htype
  | uint16List type _ =>
    rw [stunUInt16ListAttribute_eq] at htype hlength ⊢
    exact roundTrips_uint16List hlength htype

/-! ## All attributes -/

theorem paddedLength_le_attributesSize {attrs : List StunAttribute} (hmem : attr ∈ attrs) :
    paddedLength (valueSize attr.value) + 4 ≤ attributesSize attrs := by
  induction attrs with
  | nil => cases hmem
  | cons _ attrs ih =>
    simp only [attributesSize, map_cons, sum_cons] at ih ⊢
    rcases mem_cons.mp hmem with rfl | hmem
    · omega
    · have := ih hmem
      omega

theorem le_paddedLength (length : Nat) : length ≤ paddedLength length := by
  unfold paddedLength
  split <;> omega

/-- A new message that was given its type, its transaction id and its attributes. -/
def messageOf (type : BitVec 16) (id : TransactionId) (attrs : List StunAttribute) : StunMessage :=
  attrs.foldl addAttribute { type := type, transactionId := id }

theorem foldl_addAttribute (message : StunMessage) (attrs : List StunAttribute) :
    attrs.foldl addAttribute message = { message with
      length := message.length +
        BitVec.ofNat 16 (attrs.map fun attr => paddedLength attr.length.toNat + 4).sum
      attrs := message.attrs ++ attrs } := by
  induction attrs generalizing message with
  | nil => simp
  | cons attr attrs ih =>
    rw [foldl_cons, ih]
    simp [addAttribute, BitVec.ofNat_add, BitVec.add_assoc]

/-- `AddAttribute` counts what the attributes will take. -/
theorem messageOf_eq (type : BitVec 16) (id : TransactionId) (attrs : List StunAttribute) :
    messageOf type id attrs = ⟨type,
      BitVec.ofNat 16 (attrs.map fun attr => paddedLength attr.length.toNat + 4).sum, id, attrs⟩ := by
  simp [messageOf, foldl_addAttribute]

/-- The list is written in as many bytes as were counted and read back entry by entry. -/
theorem writeAttributes_roundTrip (attrs : List StunAttribute)
    (hattrs : ∀ attr ∈ attrs, RoundTrips valueTypeOf id attr) :
    ∃ bytes, writeAttributes id attrs = some bytes ∧
      bytes.length = (attrs.map fun attr => paddedLength attr.length.toNat + 4).sum ∧
      ∀ position fuel, bytes.length ≤ fuel → ∃ entries,
        readEntries valueTypeOf id fuel position bytes = some entries ∧
          entries.filterMap Entry.attr = attrs := by
  induction attrs with
  | nil =>
    refine ⟨[], rfl, rfl, fun position fuel _ => ⟨[], ?_, rfl⟩⟩
    unfold readEntries
    rfl
  | cons attr attrs ih =>
    obtain ⟨rest, hrest, hlength, hread⟩ := ih fun a ha => hattrs a (.tail _ ha)
    obtain ⟨body, hbody, hbodyLength, hentry⟩ := hattrs attr (.head _)
    refine ⟨write16 attr.type ++ write16 attr.length ++ body ++ rest, ?_, ?_, ?_⟩
    · simp [writeAttributes, hbody, hrest]
    · simp [hbodyLength, hlength]
      omega
    intro position fuel hfuel
    simp only [length_append, length_write16] at hfuel
    cases fuel with
    | zero => omega
    | succ fuel =>
      obtain ⟨entries, hentries, hattrs⟩ := hread (position +
        ((write16 attr.type ++ write16 attr.length ++ body ++ rest).length - rest.length)) fuel
        (by omega)
      refine ⟨⟨position, attr.type, attr.length, some attr⟩ :: entries, ?_, ?_⟩
      · unfold readEntries
        simp only [hentry, Option.bind_eq_bind, Option.bind_some, hentries]
        rfl
      · simp [hattrs]

/-! ## The message -/

theorem length_writeTransactionId (id : TransactionId) : id.write.length = 16 := by
  cases id <;> simp [TransactionId.write]

/-- A legacy id that starts with the magic cookie would be read as one of 12 bytes. -/
def IdReadable : TransactionId → Prop
  | .rfc5389 .. => True
  | .legacy w0 _ _ _ => w0 ≠ kStunMagicCookie

theorem readTransactionId_write {id : TransactionId} (hid : IdReadable id) (rest : List Byte) :
    readTransactionId (id.write ++ rest) = some (id, rest) := by
  cases id with
  | rfc5389 w0 w1 w2 => simp [readTransactionId, TransactionId.write]
  | legacy w0 w1 w2 _ =>
    have hne : w0 ≠ kStunMagicCookie := hid
    simp [readTransactionId, TransactionId.write, hne]

theorem type_and_eq_zero (h : type.toNat < 0x8000) : type &&& 0x8000 = 0 := by
  have hbit : (0x8000 : BitVec 16) = BitVec.twoPow 16 15 := rfl
  have hclear : type.getLsbD 15 = false := Nat.testBit_lt_two_pow h
  rw [hbit, BitVec.and_twoPow, hclear]
  rfl

theorem counted_eq_attributesSize {attrs : List StunAttribute}
    (hlengths : ∀ attr ∈ attrs, attr.length.toNat = valueSize attr.value) :
    (attrs.map fun attr => paddedLength attr.length.toNat + 4).sum = attributesSize attrs := by
  rw [attributesSize, map_congr_left fun attr hmem => by rw [hlengths attr hmem]]

/-- A message made with `AddAttribute` from attributes as their constructors make them is written
in as many bytes as its header and its length say, and read back as it is. -/
theorem message_round_trip (valueTypeOf : BitVec 16 → ValueType) (type : BitVec 16)
    (id : TransactionId) (attrs : List StunAttribute) (htype : type.toNat < 0x8000)
    (hid : IdReadable id)
    (hattrs : ∀ attr ∈ attrs, Built id attr ∧ valueTypeOf attr.type = attr.value.valueType)
    (hsize : attributesSize attrs < 2 ^ 16) :
    ∃ bytes message entries, (messageOf type id attrs).write = some bytes ∧
      bytes.length = kStunHeaderSize + (messageOf type id attrs).length.toNat ∧
      readMessage valueTypeOf bytes = some (message, entries) ∧
      message.type = type ∧ message.transactionId = id ∧ message.attrs = attrs := by
  have hfits (attr : StunAttribute) (hmem : attr ∈ attrs) : valueSize attr.value < 2 ^ 16 := by
    have hle := paddedLength_le_attributesSize hmem
    have := le_paddedLength (valueSize attr.value)
    omega
  have hcounted : (attrs.map fun attr => paddedLength attr.length.toNat + 4).sum < 2 ^ 16 := by
    rw [counted_eq_attributesSize fun attr hmem => ?_]
    · exact hsize
    · rw [(hattrs attr hmem).1.length_eq, BitVec.toNat_ofNat, Nat.mod_eq_of_lt (hfits attr hmem)]
  obtain ⟨body, hbody, hlength, hread⟩ := writeAttributes_roundTrip attrs fun attr hmem =>
    (hattrs attr hmem).1.roundTrips (hattrs attr hmem).2 (hfits attr hmem)
  obtain ⟨entries, hentries, hfilter⟩ := hread kStunHeaderSize body.length (Nat.le_refl _)
  rw [messageOf_eq]
  generalize (attrs.map fun attr => paddedLength attr.length.toNat + 4).sum = counted at *
  have htoNat : (BitVec.ofNat 16 counted).toNat = counted := by
    rw [BitVec.toNat_ofNat, Nat.mod_eq_of_lt hcounted]
  refine ⟨write16 type ++ write16 (BitVec.ofNat 16 counted) ++ id.write ++ body,
    ⟨type, BitVec.ofNat 16 counted, id, attrs⟩, entries, ?_, ?_, ?_, rfl, rfl, rfl⟩
  · simp [StunMessage.write, hbody]
  · simp only [length_append, length_write16, length_writeTransactionId, hlength, htoNat,
      kStunHeaderSize]
  rw [hlength] at hentries
  simp only [readMessage, append_assoc, readUInt16_write16, readTransactionId_write hid,
    Option.bind_eq_bind, Option.bind_some, type_and_eq_zero htype, htoNat, hlength]
  simp [hentries, hfilter]

/-- A binding response with an xor address, an error code, a list and a text. -/
theorem message_round_trip_mixed : ∃ bytes message entries,
      (messageOf 0x0101 (.rfc5389 1 2 3) [stunXorAddressAttribute 0x0020 ⟨.v6 4 5 6 7, 80⟩,
        stunErrorCodeAttribute 0x0009 487 [0x61, 0x62, 0x63],
        stunUInt16ListAttribute 0x000a [0x7F00], stunByteStringAttribute 0x8022 [0x61]]).write =
          some bytes ∧ bytes.length = kStunHeaderSize + (messageOf 0x0101 (.rfc5389 1 2 3)
        [stunXorAddressAttribute 0x0020 ⟨.v6 4 5 6 7, 80⟩,
          stunErrorCodeAttribute 0x0009 487 [0x61, 0x62, 0x63],
          stunUInt16ListAttribute 0x000a [0x7F00],
          stunByteStringAttribute 0x8022 [0x61]]).length.toNat ∧
      readMessage getAttributeValueType bytes = some (message, entries) ∧
      message.type = 0x0101 ∧ message.transactionId = .rfc5389 1 2 3 ∧
      message.attrs = [stunXorAddressAttribute 0x0020 ⟨.v6 4 5 6 7, 80⟩,
        stunErrorCodeAttribute 0x0009 487 [0x61, 0x62, 0x63],
        stunUInt16ListAttribute 0x000a [0x7F00], stunByteStringAttribute 0x8022 [0x61]] := by
  refine message_round_trip getAttributeValueType 0x0101 (.rfc5389 1 2 3) _ (by decide) trivial ?_
    (by decide)
  simp only [forall_mem_cons]
  exact ⟨⟨.xorAddressV6 _ _ _ _ _ _ 1 2 3 rfl, rfl⟩,
    ⟨.errorCode _ _ _ (by decide) (by decide), rfl⟩, ⟨.uint16List _ _, rfl⟩,
    ⟨.byteString _ _, rfl⟩, by simp⟩

end WebRtc.Stun
