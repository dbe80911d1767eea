import WebRtc.P2p.StunRoundTrip

/-! A message that `AddMessageIntegrity` and `AddFingerprint` have completed passes
`ValidateMessageIntegrity` and `ValidateFingerprint`. The HMAC is computed over a serialisation
whose header counts MESSAGE-INTEGRITY and nothing behind it; the validator has to find the same
bytes again. -/

namespace WebRtc.Stun

open BigEndian ByteBuffer List Option

variable {id : TransactionId} {attrs : List StunAttribute}
variable {bytes data rest : List Byte} {pos : Nat}

/-! ## What is written -/

/-- What is written for an attribute is its length rounded up, as `AddAttribute` counts it. -/
def WritesItsLength (id : TransactionId) (attr : StunAttribute) : Prop :=
  ∀ body, attr.write id = some body → body.length = paddedLength attr.length.toNat

/-- An attribute made from a value of less than 2^16 bytes writes the length it has. -/
theorem Built.writesItsLength {attr : StunAttribute} (h : Built id attr)
    (hsize : valueSize attr.value < 2 ^ 16) : WritesItsLength id attr := by
  have hround : RoundTrips (fun _ => attr.value.valueType) id attr := h.roundTrips rfl hsize
  obtain ⟨written, hwrite, hlength, -⟩ := hround
  intro body hbody
  rw [hwrite] at hbody
  cases hbody
  exact hlength

/-- The bytes that `AddAttribute` counts for the attributes. -/
def countedLength (attrs : List StunAttribute) : Nat :=
  (attrs.map fun attr => paddedLength attr.length.toNat + 4).sum

/-- The 20 bytes in front of the attributes. -/
def headerBytes (type : BitVec 16) (length : Nat) (id : TransactionId) : List Byte :=
  write16 type ++ write16 (BitVec.ofNat 16 length) ++ id.write

@[simp] theorem length_headerBytes (type : BitVec 16) (length : Nat) (id : TransactionId) :
    (headerBytes type length id).length = 20 := by
  simp [headerBytes, length_writeTransactionId]

theorem countedLength_mod (attrs : List StunAttribute) : countedLength attrs % 4 = 0 := by
  induction attrs with
  | nil => rfl
  | cons attr attrs ih =>
    have := paddedLength_mod attr.length.toNat
    simp only [countedLength, map_cons, sum_cons] at ih ⊢
    omega

theorem writeAttributes_cons {attr : StunAttribute}
    (h : writeAttributes id (attr :: attrs) = some bytes) :
    ∃ body rest, attr.write id = some body ∧ writeAttributes id attrs = some rest ∧
      write16 attr.type ++ write16 attr.length ++ body ++ rest = bytes := by
  obtain ⟨body, hbody, h⟩ := bind_eq_some_iff.mp h
  obtain ⟨rest, hrest, h⟩ := bind_eq_some_iff.mp h
  exact ⟨body, rest, hbody, hrest, some.inj h⟩

section Written

variable (hbytes : writeAttributes id attrs = some bytes)
include hbytes

theorem length_writeAttributes (hsized : ∀ attr ∈ attrs, WritesItsLength id attr) :
    bytes.length = countedLength attrs := by
  induction attrs generalizing bytes with
  | nil =>
    cases hbytes
    rfl
  | cons attr attrs ih =>
    obtain ⟨body, _, hbody, hrest, rfl⟩ := writeAttributes_cons hbytes
    have hlength := hsized attr (.head _) body hbody
    have hih := ih hrest fun a ha => hsized a (.tail _ ha)
    simp only [countedLength, map_cons, sum_cons, length_append, length_write16] at hih ⊢
    omega

theorem writeAttributes_append {more : List Byte} {moreAttrs : List StunAttribute}
    (hmore : writeAttributes id moreAttrs = some more) :
    writeAttributes id (attrs ++ moreAttrs) = some (bytes ++ more) := by
  induction attrs generalizing bytes with
  | nil =>
    cases hbytes
    exact hmore
  | cons _ attrs ih =>
    obtain ⟨_, _, hbody, hrest, rfl⟩ := writeAttributes_cons hbytes
    simp [writeAttributes, hbody, ih hrest]

/-- The bytes of a message whose length is what was counted. -/
theorem write_eq (type : BitVec 16) (length : Nat) :
    (StunMessage.mk type (BitVec.ofNat 16 length) id attrs).write =
      some (headerBytes type length id ++ bytes) := by
  simp [StunMessage.write, hbytes, headerBytes]

end Written

/-- What is written in front of an attribute. -/
theorem take_written (type : BitVec 16) (length : Nat) (id : TransactionId)
    (bytes more : List Byte) :
    (headerBytes type length id ++ (bytes ++ more)).take (20 + bytes.length) =
      headerBytes type length id ++ bytes := by
  rw [← append_assoc]
  exact take_left' (by simp)

/-! ## The walk of the validator -/

theorem getBE16_of_drop {v : BitVec 16}
    (h : data.drop pos = write16 v ++ rest) : getBE16 data pos = v := by
  simp [getBE16, h, write16]

theorem getBE32_of_drop {v : BitVec 32}
    (h : data.drop pos = write32 v ++ rest) : getBE32 data pos = v := by
  have hhi : data.drop pos = write16 (hi32 v) ++ (write16 (lo32 v) ++ rest) := by
    rw [h, write32, append_assoc]
  have hlo : data.drop (pos + 2) = write16 (lo32 v) ++ rest := by
    rw [← drop_drop, hhi]
    rfl
  rw [getBE32, getBE16_of_drop hhi, getBE16_of_drop hlo, be32_hi_lo]

/-- Behind a part of the data comes what follows it. -/
theorem drop_add_of_drop {part : List Byte}
    (h : data.drop pos = part ++ rest) : data.drop (pos + part.length) = rest := by
  rw [← drop_drop, h, drop_left]

variable (hbytes : writeAttributes id attrs = some bytes)
  (hsized : ∀ attr ∈ attrs, WritesItsLength id attr)
  (hnone : ∀ attr ∈ attrs, attr.type ≠ STUN_ATTR_MESSAGE_INTEGRITY)

include hbytes hsized hnone in
/-- The walk passes over what was written for attributes other than MESSAGE-INTEGRITY. -/
theorem attributeWalk_written (fuel pos : Nat)
    (hdata : data.drop pos = bytes ++ rest) (hfuel : data.length ≤ fuel + pos) :
    ∃ fuel', data.length ≤ fuel' + (pos + bytes.length) ∧
      (attributeWalk data fuel pos).2 = (attributeWalk data fuel' (pos + bytes.length)).2 := by
  induction attrs generalizing bytes fuel pos with
  | nil =>
    cases hbytes
    exact ⟨fuel, hfuel, rfl⟩
  | cons attr attrs ih =>
    obtain ⟨body, tail, hbody, htail, rfl⟩ := writeAttributes_cons hbytes
    have hlength := hsized attr (.head _) body hbody
    have htype : data.drop pos = write16 attr.type ++
        (write16 attr.length ++ (body ++ (tail ++ rest))) := by
      simpa only [append_assoc] using hdata
    have hwire := drop_add_of_drop htype
    rw [length_write16] at hwire
    have hbodyAt := drop_add_of_drop hwire
    rw [length_write16] at hbodyAt
    have hnext := drop_add_of_drop hbodyAt
    have hinside : pos + 4 ≤ data.length := by
      have := congrArg List.length htype
      simp only [length_drop, length_append, length_write16] at this
      omega
    cases fuel with
    | zero => omega
    | succ fuel =>
      rw [attributeWalk, if_pos hinside, getBE16_of_drop htype,
        if_neg (hnone attr (.head _)), getBE16_of_drop hwire]
      dsimp only
      rw [← hlength, show pos + 4 + body.length = pos + 2 + 2 + body.length by omega]
      obtain ⟨fuel', hfuel', hwalk⟩ := ih htail (fun a ha => hsized a (.tail _ ha))
        (fun a ha => hnone a (.tail _ ha)) fuel (pos + 2 + 2 + body.length) hnext
        (by omega)
      refine ⟨fuel', ?_, ?_⟩
      · simp only [length_append, length_write16]
        omega
      rw [hwalk]
      congr 2
      simp only [length_append, length_write16]
      omega

theorem attributeWalk_integrity {fuel : Nat}
    (hdata : data.drop pos = write16 STUN_ATTR_MESSAGE_INTEGRITY ++ rest)
    (hinside : pos + 4 ≤ data.length) (hfuel : data.length ≤ fuel + pos) :
    (attributeWalk data fuel pos).2 = some pos := by
  cases fuel with
  | zero => omega
  | succ fuel => rw [attributeWalk, if_pos hinside, getBE16_of_drop hdata, if_pos rfl]

/-! ## MESSAGE-INTEGRITY -/

section Integrity

variable {type : BitVec 16} {digest tail : List Byte}

/-- MESSAGE-INTEGRITY as it is written. -/
def integrityBytes (digest : List Byte) : List Byte :=
  write16 STUN_ATTR_MESSAGE_INTEGRITY ++ write16 20 ++ digest

theorem setHeaderLength_headerBytes (length : Nat) (newLength : Nat) (rest : List Byte) :
    setHeaderLength (headerBytes type length id ++ rest) (BitVec.ofNat 16 newLength) =
      headerBytes type newLength id ++ rest := by
  simp [setHeaderLength, headerBytes, write16]

/-- The data of a message with MESSAGE-INTEGRITY behind the attributes `bytes` and in front of
`tail`, the header counting all of it. -/
def signedData (type : BitVec 16) (id : TransactionId) (bytes digest tail : List Byte) :
    List Byte :=
  headerBytes type (bytes.length + 24 + tail.length) id ++ (bytes ++ (integrityBytes digest ++ tail))

theorem length_signedData (hdigest : digest.length = 20) :
    (signedData type id bytes digest tail).length = 20 + (bytes.length + 24 + tail.length) := by
  simp only [signedData, integrityBytes, length_append, length_headerBytes, length_write16, hdigest]
  omega

theorem drop_signedData (type : BitVec 16) (id : TransactionId) (bytes digest tail : List Byte) :
    (signedData type id bytes digest tail).drop 20 = bytes ++ (integrityBytes digest ++ tail) := by
  rw [signedData, drop_left' (length_headerBytes ..)]

theorem sizesAgree_signedData (hdigest : digest.length = 20)
    (haligned : (bytes.length + 24 + tail.length) % 4 = 0)
    (hlength : bytes.length + 24 + tail.length < 2 ^ 16) :
    sizesAgree (signedData type id bytes digest tail) := by
  have hfield : getBE16 (signedData type id bytes digest tail) 2 =
      BitVec.ofNat 16 (bytes.length + 24 + tail.length) := by
    apply getBE16_of_drop
    exact drop_left' (length_write16 type)
  rw [sizesAgree, length_signedData hdigest, hfield, BitVec.toNat_ofNat, Nat.mod_eq_of_lt hlength]
  rw [Bool.and_eq_true, Bool.and_eq_true]
  exact ⟨⟨decide_eq_true (by omega), decide_eq_true (Nat.le_add_right _ _)⟩,
    decide_eq_true (Nat.add_comm _ _)⟩

include hbytes hsized hnone

/-- The validator finds MESSAGE-INTEGRITY where it was written. -/
theorem attributeWalk_signedData (hdigest : digest.length = 20) :
    (attributeWalk (signedData type id bytes digest tail)
      (signedData type id bytes digest tail).length 20).2 = some (20 + bytes.length) := by
  have hdrop := drop_signedData type id bytes digest tail
  obtain ⟨_, hfuel, hwalk⟩ := attributeWalk_written hbytes hsized hnone
    (signedData type id bytes digest tail).length 20 hdrop (Nat.le_add_right _ _)
  rw [hwalk]
  have hintegrity := drop_add_of_drop hdrop
  refine attributeWalk_integrity hintegrity ?_ hfuel
  rw [length_signedData hdigest]
  omega

/-- What the validator computes the HMAC of is what was written when the header counted nothing
behind MESSAGE-INTEGRITY. -/
theorem validateMessageIntegrity_signedData (hmac : List Byte → List Byte → List Byte)
    (key : List Byte) (hdigest : digest.length = 20)
    (hhmac : digest = hmac key (headerBytes type (bytes.length + 24) id ++ bytes))
    (haligned : (bytes.length + 24 + tail.length) % 4 = 0)
    (hlength : bytes.length + 24 + tail.length < 2 ^ 16) :
    validateMessageIntegrity hmac (signedData type id bytes digest tail) key := by
  have hintegrity := drop_add_of_drop (drop_signedData type id bytes digest tail)
  rw [integrityBytes, append_assoc, append_assoc] at hintegrity
  have hwire := drop_add_of_drop hintegrity
  have hvalue := drop_add_of_drop hwire
  rw [length_write16] at hwire hvalue
  rw [length_write16, show 20 + bytes.length + 2 + 2 = 20 + bytes.length + 4 by omega] at hvalue
  have htake : (signedData type id bytes digest tail).take (20 + bytes.length) =
      headerBytes type (bytes.length + 24 + tail.length) id ++ bytes :=
    take_written ..
  have hwalk : (attributeWalk (signedData type id bytes digest tail) _ 20).2 = _ :=
    attributeWalk_signedData hbytes hsized hnone hdigest
  have hsize : (signedData type id bytes digest tail).length = _ := length_signedData hdigest
  have htwenty : (20 : BitVec 16).toNat = 20 := rfl
  have hfits : ¬ 20 + bytes.length + 4 + 20 > 20 + (bytes.length + 24 + tail.length) := by omega
  -- The bytes that the HMAC is computed of, whether or not something follows.
  have htemp : (if 20 + (bytes.length + 24 + tail.length) > 20 + bytes.length + 4 + 20 then
      setHeaderLength (headerBytes type (bytes.length + 24 + tail.length) id ++ bytes)
        (BitVec.ofNat 16 (20 + (bytes.length + 24 + tail.length) -
          (20 + (bytes.length + 24 + tail.length) - (20 + bytes.length + 4 + 20)) - 20))
      else headerBytes type (bytes.length + 24 + tail.length) id ++ bytes) =
        headerBytes type (bytes.length + 24) id ++ bytes := by
    split
    · rw [setHeaderLength_headerBytes]
      congr 2
      omega
    · rw [show bytes.length + 24 + tail.length = bytes.length + 24 by omega]
  rw [validateMessageIntegrity, sizesAgree_signedData hdigest haligned hlength, kStunHeaderSize,
    hwalk]
  simp only [kStunAttributeHeaderSize, kStunMessageIntegritySize, hsize, getBE16_of_drop hwire,
    htwenty, htake, hvalue, htemp, ← hhmac, take_left' hdigest]
  simp [hfits]

end Integrity

/-! ## FINGERPRINT -/

/-- FINGERPRINT as it is written. -/
def fingerprintBytes (value : BitVec 32) : List Byte :=
  write16 STUN_ATTR_FINGERPRINT ++ write16 4 ++ write32 value

theorem validateFingerprint_append (crc32 : List Byte → BitVec 32) {type : BitVec 16}
    {length : Nat} {t0 t1 t2 : BitVec 32} {body : List Byte} (haligned : body.length % 4 = 0) :
    validateFingerprint crc32 (headerBytes type length (.rfc5389 t0 t1 t2) ++ body ++
      fingerprintBytes (crc32 (headerBytes type length (.rfc5389 t0 t1 t2) ++ body) ^^^
        STUN_FINGERPRINT_XOR_VALUE)) := by
  generalize hfront : headerBytes type length (.rfc5389 t0 t1 t2) ++ body = front
  have hlength : front.length = 20 + body.length := by
    rw [← hfront, length_append, length_headerBytes]
  have hsize (value : BitVec 32) : (front ++ fingerprintBytes value).length =
      front.length + 8 := by
    simp [fingerprintBytes]
  have hcookie (value : BitVec 32) :
      getBE32 (front ++ fingerprintBytes value) 4 = kStunMagicCookie := by
    apply getBE32_of_drop
    rw [← hfront, headerBytes, TransactionId.write]
    rfl
  have htype (value : BitVec 32) : (front ++ fingerprintBytes value).drop front.length =
      write16 STUN_ATTR_FINGERPRINT ++ (write16 4 ++ (write32 value ++ [])) := by
    rw [drop_left, fingerprintBytes, append_nil, append_assoc]
  have hwire := fun value => drop_add_of_drop (htype value)
  have hvalue := fun value => drop_add_of_drop (hwire value)
  simp only [length_write16, Nat.add_assoc, Nat.reduceAdd] at hwire hvalue
  have hstart : front.length + 8 - 8 = front.length := by omega
  have hshort : ¬ front.length + 8 < 28 := by omega
  have hmod : (front.length + 8) % 4 = 0 := by omega
  simp only [validateFingerprint, kStunAttributeHeaderSize, kStunHeaderSize, hsize, hcookie,
    Nat.reduceAdd, hstart, hshort, hmod, getBE16_of_drop (htype _), getBE16_of_drop (hwire _),
    getBE32_of_drop (hvalue _), take_left' rfl, xor_xor_cancel]
  simp

/-! ## The completed message -/

theorem writeAttributes_integrity {digest : List Byte} (hdigest : digest.length = 20) :
    writeAttributes id [stunByteStringAttribute STUN_ATTR_MESSAGE_INTEGRITY digest] =
      some (integrityBytes digest) := by
  simp [writeAttributes, stunByteStringAttribute, StunAttribute.write, hdigest, integrityBytes,
    writePadding, paddingOf, take_of_length_le (Nat.le_of_eq hdigest)]

theorem writeAttributes_fingerprint (value : BitVec 32) :
    writeAttributes id [stunUInt32Attribute STUN_ATTR_FINGERPRINT value] =
      some (fingerprintBytes value) := by
  simp [writeAttributes, stunUInt32Attribute, StunAttribute.write, fingerprintBytes]

section Complete

variable (hmac : List Byte → List Byte → List Byte) (crc32 : List Byte → BitVec 32)
  {type : BitVec 16}
include hbytes

/-- What is hashed: the message written with a dummy attribute, up to that attribute. -/
theorem addAttribute_written (type : BitVec 16) (length : Nat) {dummy : StunAttribute}
    {tail : List Byte} (hdummy : writeAttributes id [dummy] = some tail)
    (htail : tail.length = dummy.length.toNat + 4) :
    ∃ buf, (addAttribute ⟨type, BitVec.ofNat 16 length, id, attrs⟩ dummy).write = some buf ∧
      buf.take (buf.length - kStunAttributeHeaderSize - dummy.length.toNat) =
        headerBytes type (length + (paddedLength dummy.length.toNat + 4)) id ++ bytes := by
  have hwritten := write_eq (writeAttributes_append hbytes hdummy) type
    (length + (paddedLength dummy.length.toNat + 4))
  rw [BitVec.ofNat_add] at hwritten
  refine ⟨_, hwritten, ?_⟩
  rw [length_append, length_append, length_headerBytes, htail, kStunAttributeHeaderSize,
    show 20 + (bytes.length + (dummy.length.toNat + 4)) - 4 - dummy.length.toNat =
      20 + bytes.length by omega, take_written]

/-- `AddMessageIntegrity` fills in the HMAC of the message written with the dummy value. -/
theorem addMessageIntegrity_eq (key : List Byte) (length : Nat) :
    addMessageIntegrity hmac ⟨type, BitVec.ofNat 16 length, id, attrs⟩ key = some ⟨type,
      BitVec.ofNat 16 (length + 24), id,
      attrs ++ [stunByteStringAttribute STUN_ATTR_MESSAGE_INTEGRITY
        (hmac key (headerBytes type (length + 24) id ++ bytes))]⟩ := by
  obtain ⟨buf, hbuf, htake⟩ := addAttribute_written hbytes type length
    (@writeAttributes_integrity id (List.replicate kStunMessageIntegritySize 0x30) rfl) rfl
  rw [addMessageIntegrity, hbuf, BitVec.ofNat_add]
  simp only [bind_eq_bind, bind_some, htake]
  rfl

theorem addFingerprint_eq (length : Nat) :
    addFingerprint crc32 ⟨type, BitVec.ofNat 16 length, id, attrs⟩ = some ⟨type,
      BitVec.ofNat 16 (length + 8), id, attrs ++ [stunUInt32Attribute STUN_ATTR_FINGERPRINT
        (crc32 (headerBytes type (length + 8) id ++ bytes) ^^^ STUN_FINGERPRINT_XOR_VALUE)]⟩ := by
  obtain ⟨buf, hbuf, htake⟩ := addAttribute_written hbytes type length
    (@writeAttributes_fingerprint id 0) rfl
  rw [addFingerprint, hbuf, BitVec.ofNat_add]
  simp only [bind_eq_bind, bind_some, htake]
  rfl

end Complete

/-- A message of the newer kind without MESSAGE-INTEGRITY, whose attributes write the length they
have, passes both validations after it was completed. -/
theorem completed_message_validates (hmac : List Byte → List Byte → List Byte)
    (crc32 : List Byte → BitVec 32) (type : BitVec 16) (t0 t1 t2 : BitVec 32)
    (attrs : List StunAttribute) (key : List Byte) (withFingerprint : Bool)
    (hhmac : ∀ key data, (hmac key data).length = 20)
    (hnone : ∀ attr ∈ attrs, attr.type ≠ STUN_ATTR_MESSAGE_INTEGRITY)
    (hsized : ∀ attr ∈ attrs, WritesItsLength (.rfc5389 t0 t1 t2) attr)
    (hwrite : (messageOf type (.rfc5389 t0 t1 t2) attrs).write ≠ none)
    (hlength : countedLength attrs + 24 + (if withFingerprint then 8 else 0) < 2 ^ 16) :
    ∃ signed completed bytes,
      addMessageIntegrity hmac (messageOf type (.rfc5389 t0 t1 t2) attrs) key = some signed ∧
      (if withFingerprint then addFingerprint crc32 signed else some signed) = some completed ∧
      completed.write = some bytes ∧ validateMessageIntegrity hmac bytes key = true ∧
      (withFingerprint = true → validateFingerprint crc32 bytes = true) := by
  obtain ⟨bytes, hbytes⟩ : ∃ bytes, writeAttributes (.rfc5389 t0 t1 t2) attrs = some bytes := by
    cases hcase : writeAttributes (.rfc5389 t0 t1 t2) attrs with
    | some bytes => exact ⟨bytes, rfl⟩
    | none => exact absurd (by simp [messageOf_eq, StunMessage.write, hcase]) hwrite
  have hcounted := length_writeAttributes hbytes hsized
  have haligned := countedLength_mod attrs
  generalize hdigest : hmac key
    (headerBytes type (bytes.length + 24) (.rfc5389 t0 t1 t2) ++ bytes) = digest
  have hdigestLength : digest.length = 20 := hdigest ▸ hhmac _ _
  have hsignedBytes := writeAttributes_append hbytes (writeAttributes_integrity hdigestLength)
  have hmessage : messageOf type (.rfc5389 t0 t1 t2) attrs =
      ⟨type, BitVec.ofNat 16 bytes.length, .rfc5389 t0 t1 t2, attrs⟩ := by
    rw [messageOf_eq, hcounted]
    rfl
  rw [hmessage, addMessageIntegrity_eq hbytes hmac key bytes.length, hdigest]
  cases withFingerprint with
  | false =>
    have hshort : bytes.length + 24 + ([] : List Byte).length < 2 ^ 16 := by
      simp at hlength ⊢
      omega
    refine ⟨_, _, _, rfl, rfl, write_eq hsignedBytes type (bytes.length + 24), ?_, by simp⟩
    have hvalid := validateMessageIntegrity_signedData hbytes hsized hnone hmac key hdigestLength
      hdigest.symm (by simp; omega) hshort
    simpa [signedData] using hvalid
  | true =>
    have hadded : addFingerprint crc32 ⟨type, BitVec.ofNat 16 (bytes.length + 24), _, _⟩ = _ :=
      addFingerprint_eq hsignedBytes crc32 (bytes.length + 24)
    generalize hvalue : crc32 (headerBytes type (bytes.length + 24 + 8) (.rfc5389 t0 t1 t2) ++
      (bytes ++ integrityBytes digest)) ^^^ STUN_FINGERPRINT_XOR_VALUE = value at hadded
    have htail : (fingerprintBytes value).length = 8 := by simp [fingerprintBytes]
    have hintegrity : (integrityBytes digest).length = 24 := by
      simp [integrityBytes, hdigestLength]
    refine ⟨_, _, _, rfl, hadded, write_eq (writeAttributes_append hsignedBytes
      (writeAttributes_fingerprint value)) type (bytes.length + 24 + 8), ?_, fun _ => ?_⟩
    · have hvalid := validateMessageIntegrity_signedData hbytes hsized hnone hmac key hdigestLength
        hdigest.symm (by rw [htail]; omega) (by rw [htail, hcounted]; exact hlength)
      rw [signedData, htail, ← append_assoc bytes] at hvalid
      exact hvalid
    · rw [← hvalue, ← append_assoc]
      exact validateFingerprint_append crc32 (by rw [length_append, hintegrity]; omega)

/-- A message with a USERNAME, signed with a function that is not constant. -/
theorem completed_message_validates_username : ∃ signed completed bytes,
      addMessageIntegrity (fun key data => (key ++ data ++ List.replicate 20 0).take 20)
        (messageOf 1 (.rfc5389 1 2 3) [stunByteStringAttribute 6 [0x61]]) [0x6b] = some signed ∧
      (if true then addFingerprint (fun data => BitVec.ofNat 32 data.length) signed
        else some signed) = some completed ∧ completed.write = some bytes ∧
      validateMessageIntegrity (fun key data => (key ++ data ++ List.replicate 20 0).take 20)
        bytes [0x6b] = true ∧
      (true = true → validateFingerprint (fun data => BitVec.ofNat 32 data.length) bytes = true) :=
  completed_message_validates _ _ 1 1 2 3 [stunByteStringAttribute 6 [0x61]] [0x6b] true
    (by intro key data; simp; omega) (by simp; decide)
    (by
      intro _ hattr
      rw [mem_singleton] at hattr
      exact hattr ▸ (Built.byteString 6 [0x61]).writesItsLength (by decide)) (by decide) (by decide)

/-- An ERROR-CODE made with the constructor that is given a length and no value is counted with
eight bytes and writes four: the header no longer says the size of the message. -/
theorem completed_message_fails_unset_error_code :
    ((addMessageIntegrity (fun _ _ => List.replicate 20 0)
      (messageOf 1 (.rfc5389 1 2 3) [⟨STUN_ATTR_ERROR_CODE, 8, .errorCode 0 0 []⟩]) [0x6b]).bind
        StunMessage.write).map
      (fun bytes => validateMessageIntegrity (fun _ _ => List.replicate 20 0) bytes [0x6b]) =
        some false := by
  decide +kernel

end WebRtc.Stun
