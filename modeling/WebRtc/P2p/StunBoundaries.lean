import WebRtc.P2p.Stun

/-! Where `StunMessage::Read` starts its attributes and where the walk of
`ValidateMessageIntegrity` does. The walk goes by the length on the wire; `Read` goes by what the
attribute's own `Read` takes, which for the fixed-size types has nothing to do with that length. -/

namespace WebRtc.Stun

open BigEndian ByteBuffer List Option

variable {buf rest data : List Byte} {fuel pos : Nat} {entries : List Entry}

/-! ## What one attribute takes -/

theorem paddedLength_eq (length : BitVec 16) :
    paddedLength length.toNat = length.toNat + paddingOf length := by
  unfold paddedLength paddingOf
  split <;> split <;> omega

theorem paddedLength_mod (length : Nat) : paddedLength length % 4 = 0 := by
  unfold paddedLength
  split <;> omega

/-- In a buffer of whole words the padding is always there. -/
theorem consumePadding_takes {length : BitVec 16} (htaken : Takes length.toNat buf rest) :
    ∃ n, Takes n buf (consumePadding length rest) ∧
      (buf.length % 4 = 0 → n = paddedLength length.toNat) := by
  have hlen := htaken.length
  by_cases hpad : paddingOf length ≤ rest.length
  · have hconsume : consume (paddingOf length) rest = some ((), rest.drop (paddingOf length)) :=
      if_neg (Nat.not_lt.mpr hpad)
    rw [consumePadding, hconsume]
    exact ⟨_, htaken.trans ⟨hpad, rfl⟩, fun _ => (paddedLength_eq length).symm⟩
  have hconsume : consume (paddingOf length) rest = none := if_pos (Nat.not_le.mp hpad)
  rw [consumePadding, hconsume]
  refine ⟨_, htaken, fun haligned => absurd ?_ hpad⟩
  unfold paddingOf
  split <;> omega

theorem readAddress_takes {length : BitVec 16} {addr : SocketAddress}
    (h : readAddress length buf = some (addr, rest)) :
    Takes (paddedLength length.toNat) buf rest := by
  obtain ⟨⟨_, _⟩, hdummy, h⟩ := bind_eq_some_iff.mp h
  obtain ⟨⟨_, _⟩, hfamily, h⟩ := bind_eq_some_iff.mp h
  obtain ⟨⟨_, _⟩, hport, h⟩ := bind_eq_some_iff.mp h
  have hhead := ((readUInt8_takes hdummy).trans (readUInt8_takes hfamily)).trans
    (readUInt16_takes hport)
  dsimp only at h
  split at h
  · split at h
    · next hlength =>
      obtain ⟨⟨w, buf4⟩, hw, h⟩ := bind_eq_some_iff.mp h
      cases h
      subst hlength
      exact hhead.trans (readUInt32_takes hw)
    · cases h
  · split at h
    · split at h
      · next hlength =>
        obtain ⟨⟨_, buf4⟩, hw0, h⟩ := bind_eq_some_iff.mp h
        obtain ⟨⟨_, _⟩, hw1, h⟩ := bind_eq_some_iff.mp h
        obtain ⟨⟨_, _⟩, hw2, h⟩ := bind_eq_some_iff.mp h
        obtain ⟨⟨_, _⟩, hw3, h⟩ := bind_eq_some_iff.mp h
        cases h
        subst hlength
        exact (((hhead.trans (readUInt32_takes hw0)).trans (readUInt32_takes hw1)).trans
          (readUInt32_takes hw2)).trans (readUInt32_takes hw3)
      · cases h
    · cases h

theorem readUInt16s_takes {n : Nat} {values : List (BitVec 16)}
    (h : readUInt16s n buf = some (values, rest)) : Takes (2 * n) buf rest := by
  induction n generalizing buf values with
  | zero =>
    cases h
    exact ⟨Nat.zero_le _, rfl⟩
  | succ n ih =>
    obtain ⟨⟨v, _⟩, hv, h⟩ := bind_eq_some_iff.mp h
    obtain ⟨⟨_, _⟩, hvs, h⟩ := bind_eq_some_iff.mp h
    cases h
    rw [Nat.mul_succ, Nat.add_comm]
    exact (readUInt16_takes hv).trans (ih hvs)

/-- The bytes that `Read` takes for the body of an attribute. -/
def bodyTaken (valueType : ValueType) (wireLength : BitVec 16) : Nat :=
  match valueType with
  | .uint32 => 4
  | .uint64 => 8
  | .unknown => paddedLength wireLength.toNat % 2 ^ 16
  | _ => paddedLength wireLength.toNat

theorem read_takes {valueType : ValueType} {type wireLength : BitVec 16} {id : TransactionId}
    {made attr : StunAttribute} (hmade : createAttribute valueType type wireLength = some made)
    (hread : made.read id buf = some (attr, rest)) :
    ∃ n, Takes n buf rest ∧ (buf.length % 4 = 0 → n = bodyTaken valueType wireLength) := by
  cases valueType with
  | unknown => cases hmade
  | address | xorAddress =>
    cases hmade
    obtain ⟨⟨addr, buf1⟩, haddr, h⟩ := bind_eq_some_iff.mp hread
    cases h
    exact ⟨_, readAddress_takes haddr, fun _ => rfl⟩
  | uint32 =>
    cases hmade
    obtain ⟨⟨bits, buf1⟩, hbits, h⟩ := bind_eq_some_iff.mp hread
    cases h
    exact ⟨_, readUInt32_takes hbits, fun _ => rfl⟩
  | uint64 =>
    cases hmade
    obtain ⟨⟨bits, buf1⟩, hbits, h⟩ := bind_eq_some_iff.mp hread
    cases h
    exact ⟨_, readUInt64_takes hbits, fun _ => rfl⟩
  | byteString =>
    cases hmade
    obtain ⟨⟨bytes, buf1⟩, hbytes, h⟩ := bind_eq_some_iff.mp hread
    cases h
    exact consumePadding_takes (readBytes_takes hbytes)
  | errorCode =>
    cases hmade
    simp only [StunAttribute.read] at hread
    split at hread
    · cases hread
    rename_i hmin
    obtain ⟨⟨_, buf1⟩, hval, h⟩ := bind_eq_some_iff.mp hread
    obtain ⟨⟨bytes, _⟩, hbytes, h⟩ := bind_eq_some_iff.mp h
    cases h
    have htaken := (readUInt32_takes hval).trans (readBytes_takes hbytes)
    rw [Nat.add_sub_cancel' (Nat.not_lt.mp hmin)] at htaken
    exact consumePadding_takes htaken
  | uint16List =>
    cases hmade
    simp only [StunAttribute.read] at hread
    split at hread
    · cases hread
    obtain ⟨⟨_, buf1⟩, hvalues, h⟩ := bind_eq_some_iff.mp hread
    cases h
    have htaken := readUInt16s_takes hvalues
    rw [show 2 * (wireLength.toNat / 2) = wireLength.toNat by omega] at htaken
    exact consumePadding_takes htaken

/-! ## One turn of the loop -/

theorem getBE16_drop (data : List Byte) (pos offset : Nat) :
    getBE16 (data.drop pos) offset = getBE16 data (pos + offset) := by
  simp [getBE16, drop_drop]

theorem getBE16_of_readUInt16 {v : BitVec 16} (h : readUInt16 buf = some (v, rest)) :
    getBE16 buf 0 = v := by
  rcases buf with _ | ⟨a, _ | ⟨b, buf⟩⟩
  · cases h
  · cases h
  · cases h
    rfl

variable {valueTypeOf : BitVec 16 → ValueType} {id : TransactionId}

/-- The bytes that `Read` takes for an attribute, header included. -/
def Entry.taken (valueTypeOf : BitVec 16 → ValueType) (entry : Entry) : Nat :=
  4 + bodyTaken (valueTypeOf entry.type) entry.wireLength

/-- One turn reads the header at its position and takes it and the body. -/
structure EntrySpec (valueTypeOf : BitVec 16 → ValueType) (position : Nat) (buf : List Byte)
    (entry : Entry) (rest : List Byte) : Prop where
  position_eq : entry.position = position
  type_eq : entry.type = getBE16 buf 0
  wireLength_eq : entry.wireLength = getBE16 buf 2
  shrinks : rest.length + 4 ≤ buf.length
  takes : buf.length % 4 = 0 → Takes (entry.taken valueTypeOf) buf rest

theorem readEntry_spec {position : Nat} {entry : Entry}
    (h : readEntry valueTypeOf id position buf = some (entry, rest)) :
    EntrySpec valueTypeOf position buf entry rest := by
  obtain ⟨⟨type, _⟩, htype, h⟩ := bind_eq_some_iff.mp h
  obtain ⟨⟨length, _⟩, hlength, h⟩ := bind_eq_some_iff.mp h
  have hhead := (readUInt16_takes htype).trans (readUInt16_takes hlength)
  have hheadLength := hhead.length
  have hsecond : getBE16 buf 2 = length := by
    rw [← getBE16_of_readUInt16 hlength, (readUInt16_takes htype).eq_drop, getBE16_drop]
  dsimp only at h
  split at h
  · next hnone =>
    obtain ⟨⟨u, buf3⟩, hconsume, h⟩ := bind_eq_some_iff.mp h
    cases h
    have htaken := consume_takes hconsume
    have htakenLength := htaken.length
    refine ⟨rfl, (getBE16_of_readUInt16 htype).symm, hsecond.symm, by dsimp only; omega,
      fun _ => hhead.trans ?_⟩
    have hunknown : valueTypeOf type = .unknown := by
      cases hvalue : valueTypeOf type <;> rw [hvalue] at hnone <;> simp [createAttribute] at hnone
    rw [hunknown]
    exact htaken
  · next _ hmade =>
    obtain ⟨⟨_, buf3⟩, hattr, h⟩ := bind_eq_some_iff.mp h
    cases h
    obtain ⟨n, htaken, hn⟩ := read_takes hmade hattr
    have htakenLength := htaken.length
    exact ⟨rfl, (getBE16_of_readUInt16 htype).symm, hsecond.symm, by dsimp only; omega,
      fun haligned => hhead.trans (hn (by omega) ▸ htaken)⟩

theorem bodyTaken_mod (valueType : ValueType) (wireLength : BitVec 16) :
    bodyTaken valueType wireLength % 4 = 0 := by
  have hpadded := paddedLength_mod wireLength.toNat
  cases valueType <;> simp only [bodyTaken] <;> omega

/-- Each turn takes four bytes or more, so that the length of the buffer is enough of a bound. -/
theorem readEntries_fuel {fuel' position : Nat} (h : buf.length ≤ fuel) (h' : buf.length ≤ fuel') :
    readEntries valueTypeOf id fuel position buf = readEntries valueTypeOf id fuel' position buf := by
  induction fuel generalizing fuel' position buf with
  | zero =>
    cases length_eq_zero_iff.mp (Nat.le_zero.mp h)
    unfold readEntries
    rfl
  | succ fuel ih =>
    cases fuel' with
    | zero =>
      cases length_eq_zero_iff.mp (Nat.le_zero.mp h')
      rfl
    | succ fuel' =>
      unfold readEntries
      split
      · rfl
      refine bind_congr fun entryRest hentry => ?_
      obtain ⟨_, rest⟩ := entryRest
      have hshrinks := (readEntry_spec hentry).shrinks
      dsimp only
      rw [ih (by omega) (by omega : rest.length ≤ fuel')]

/-! ## The two walks -/

/-- The positions of the attributes up to the first MESSAGE-INTEGRITY. -/
def boundaries : List Entry → List Nat
  | [] => []
  | entry :: entries =>
    if entry.type = STUN_ATTR_MESSAGE_INTEGRITY then [entry.position]
    else entry.position :: boundaries entries

/-- The attributes in front of the first MESSAGE-INTEGRITY. -/
def beforeIntegrity (entries : List Entry) : List Entry :=
  entries.takeWhile fun entry => entry.type ≠ STUN_ATTR_MESSAGE_INTEGRITY

/-- The attribute ends for `Read` where its length on the wire says, or at the end of the message
if that is behind it. -/
def EndsAlike (valueTypeOf : BitVec 16 → ValueType) (size : Nat) (entry : Entry) : Prop :=
  min size (entry.position + 4 + paddedLength entry.wireLength.toNat) =
    entry.position + entry.taken valueTypeOf

instance (valueTypeOf : BitVec 16 → ValueType) (size : Nat) (entry : Entry) :
    Decidable (EndsAlike valueTypeOf size entry) :=
  inferInstanceAs (Decidable (_ = _))

theorem attributeWalk_end (hend : data.length ≤ pos) (fuel : Nat) :
    (attributeWalk data fuel pos).1 = [] := by
  cases fuel with
  | zero => rfl
  | succ fuel => rw [attributeWalk, if_neg (by omega)]

/-- Inside the message the walk visits the position it has come to. -/
theorem attributeWalk_inside (hinside : pos + 4 ≤ data.length) (hfuel : data.length ≤ fuel + pos) :
    ∃ visited, (attributeWalk data fuel pos).1 = pos :: visited := by
  cases fuel with
  | zero => omega
  | succ fuel =>
    rw [attributeWalk, if_pos hinside]
    split
    · exact ⟨[], rfl⟩
    · exact ⟨_, rfl⟩

theorem readEntries_nil (h : readEntries valueTypeOf id fuel pos [] = some entries) :
    entries = [] := by
  unfold readEntries at h
  simpa using h.symm

section Head

variable (haligned : data.length % 4 = 0) (hpos : pos % 4 = 0) (hinside : pos < data.length)
  (h : readEntries valueTypeOf id fuel pos (data.drop pos) = some entries)
include haligned hpos hinside h

/-- The entries that `Read` finds from a position on. -/
theorem readEntries_head :
    ∃ entry rest fuel', entries = entry :: rest ∧ fuel = fuel' + 1 ∧
      entry.position = pos ∧ entry.type = getBE16 data pos ∧
      entry.wireLength = getBE16 data (pos + 2) ∧ pos + entry.taken valueTypeOf ≤ data.length ∧
      readEntries valueTypeOf id fuel' (pos + entry.taken valueTypeOf)
        (data.drop (pos + entry.taken valueTypeOf)) = some rest := by
  have hlength : (data.drop pos).length = data.length - pos := length_drop
  unfold readEntries at h
  rw [if_neg (by rw [isEmpty_iff_length_eq_zero]; omega)] at h
  cases fuel with
  | zero => cases h
  | succ fuel' =>
    obtain ⟨⟨entry, buf⟩, hentry, h⟩ := bind_eq_some_iff.mp h
    obtain ⟨rest, hrest, h⟩ := bind_eq_some_iff.mp h
    cases h
    have hspec := readEntry_spec hentry
    have htakes := hspec.takes (by omega)
    have htaken := htakes.length
    refine ⟨entry, rest, fuel', rfl, rfl, hspec.position_eq, ?_, ?_, by omega, ?_⟩
    · rw [hspec.type_eq, getBE16_drop, Nat.add_zero]
    · rw [hspec.wireLength_eq, getBE16_drop]
    rw [show pos + ((data.drop pos).length - buf.length) = pos + entry.taken valueTypeOf by omega,
      htakes.eq_drop, drop_drop] at hrest
    exact hrest

theorem boundaries_head : ∃ rest, boundaries entries = pos :: rest := by
  obtain ⟨_, rest, -, rfl, -, hposition, -⟩ := readEntries_head haligned hpos hinside h
  unfold boundaries
  split
  · exact ⟨[], by rw [hposition]⟩
  · exact ⟨_, by rw [hposition]⟩

end Head

theorem entries_nil_of_end (hend : data.length ≤ pos)
    (h : readEntries valueTypeOf id fuel pos (data.drop pos) = some entries) : entries = [] := by
  rw [drop_eq_nil_of_le hend] at h
  exact readEntries_nil h

/-- From two positions with different next attributes nothing more agrees. -/
theorem boundaries_ne (haligned : data.length % 4 = 0) {walkFuel readPos walkPos : Nat}
    (hread : readPos % 4 = 0) (hwalk : walkPos % 4 = 0) (hfits : readPos ≤ data.length)
    (hfuel : data.length ≤ walkFuel + walkPos)
    (h : readEntries valueTypeOf id fuel readPos (data.drop readPos) = some entries)
    (hdiffer : min data.length walkPos ≠ readPos) :
    boundaries entries ≠ (attributeWalk data walkFuel walkPos).1 := by
  intro heq
  by_cases hin : walkPos < data.length
  · obtain ⟨_, hvisited⟩ := attributeWalk_inside (by omega : walkPos + 4 ≤ data.length) hfuel
    rw [hvisited] at heq
    by_cases hlt : readPos < data.length
    · obtain ⟨rest, hrest⟩ := boundaries_head haligned hread hlt h
      rw [hrest] at heq
      cases heq
      omega
    · rw [entries_nil_of_end (by omega) h] at heq
      cases heq
  · rw [attributeWalk_end (by omega)] at heq
    obtain ⟨rest, hrest⟩ := boundaries_head haligned hread (by omega) h
    rw [hrest] at heq
    cases heq

/-- From any position that both have come to, the walks visit the same positions up to
MESSAGE-INTEGRITY exactly when all attributes in front of it end alike. -/
theorem boundaries_eq_iff (haligned : data.length % 4 = 0) (entries : List Entry)
    (fuel walkFuel pos : Nat) (hpos : pos % 4 = 0) (hinside : pos ≤ data.length)
    (hfuel : data.length ≤ walkFuel + pos)
    (h : readEntries valueTypeOf id fuel pos (data.drop pos) = some entries) :
    boundaries entries = (attributeWalk data walkFuel pos).1 ↔
      ∀ entry ∈ beforeIntegrity entries, EndsAlike valueTypeOf data.length entry := by
  induction entries generalizing fuel walkFuel pos with
  | nil =>
    have hend : data.length ≤ pos := by
      by_contra hlt
      obtain ⟨_, _, _, hcons, -⟩ := readEntries_head haligned hpos (by omega) h
      cases hcons
    simp [boundaries, beforeIntegrity, attributeWalk_end hend]
  | cons entry entries ih =>
    have hlt : pos < data.length := by
      by_contra hge
      cases entries_nil_of_end (by omega) h
    obtain ⟨_, _, fuel', hcons, -, hposition, htype, hwire, hfits, hrest⟩ :=
      readEntries_head haligned hpos hlt h
    cases hcons
    cases walkFuel with
    | zero => omega
    | succ walkFuel =>
      rw [attributeWalk, if_pos (by omega), ← htype, ← hwire, boundaries, beforeIntegrity,
        takeWhile_cons]
      by_cases hintegrity : entry.type = STUN_ATTR_MESSAGE_INTEGRITY
      · simp [hintegrity, hposition]
      have htaken : entry.taken valueTypeOf % 4 = 0 := by
        have := bodyTaken_mod (valueTypeOf entry.type) entry.wireLength
        unfold Entry.taken
        omega
      have hpadded := paddedLength_mod entry.wireLength.toNat
      rw [if_neg hintegrity, if_neg hintegrity, if_pos (by simpa using hintegrity),
        forall_mem_cons, hposition, cons.injEq, EndsAlike, hposition]
      simp only [true_and]
      by_cases hends : min data.length (pos + 4 + paddedLength entry.wireLength.toNat) =
          pos + entry.taken valueTypeOf
      · rw [and_iff_right hends]
        by_cases hsame : pos + 4 + paddedLength entry.wireLength.toNat =
            pos + entry.taken valueTypeOf
        · rw [hsame]
          exact ih fuel' walkFuel _ (by omega) hfits (by omega) hrest
        -- The length on the wire runs past the end, where `Read` stops too.
        rw [entries_nil_of_end (by omega) hrest, attributeWalk_end (by omega)]
        simp [boundaries]
      · refine iff_of_false ?_ fun hall => hends hall.1
        exact boundaries_ne haligned (by omega) (by omega) hfits (by omega) hrest hends

/-! ## The message -/

theorem readTransactionId_takes {id : TransactionId} (h : readTransactionId buf = some (id, rest)) :
    Takes 16 buf rest := by
  obtain ⟨⟨_, _⟩, hcookie, h⟩ := bind_eq_some_iff.mp h
  obtain ⟨⟨_, _⟩, hw0, h⟩ := bind_eq_some_iff.mp h
  obtain ⟨⟨_, _⟩, hw1, h⟩ := bind_eq_some_iff.mp h
  obtain ⟨⟨_, _⟩, hw2, h⟩ := bind_eq_some_iff.mp h
  cases h
  exact (((readUInt32_takes hcookie).trans (readUInt32_takes hw0)).trans
    (readUInt32_takes hw1)).trans (readUInt32_takes hw2)

theorem readMessage_entries {message : StunMessage}
    (h : readMessage valueTypeOf data = some (message, entries)) :
    kStunHeaderSize ≤ data.length ∧ ∃ id fuel,
      readEntries valueTypeOf id fuel kStunHeaderSize (data.drop kStunHeaderSize) =
        some entries := by
  obtain ⟨⟨_, _⟩, htype, h⟩ := bind_eq_some_iff.mp h
  dsimp only at h
  split at h
  · cases h
  obtain ⟨⟨_, _⟩, hlength, h⟩ := bind_eq_some_iff.mp h
  obtain ⟨⟨id, _⟩, hid, h⟩ := bind_eq_some_iff.mp h
  have hhead := ((readUInt16_takes htype).trans (readUInt16_takes hlength)).trans
    (readTransactionId_takes hid)
  split at h
  · cases h
  obtain ⟨_, hentries, h⟩ := bind_eq_some_iff.mp h
  cases h
  rw [hhead.eq_drop] at hentries
  exact ⟨hhead.inside, id, _, hentries⟩

/-- `Read` and `ValidateMessageIntegrity` agree on the positions of the attributes, up to the first
MESSAGE-INTEGRITY, exactly when every attribute in front of it ends for `Read` where its length on
the wire says. -/
theorem attribute_boundaries_agree_iff (valueTypeOf : BitVec 16 → ValueType) (data : List Byte)
    (message : StunMessage) (entries : List Entry)
    (hread : readMessage valueTypeOf data = some (message, entries)) (hsizes : sizesAgree data) :
    boundaries entries = (attributeWalk data data.length kStunHeaderSize).1 ↔
      ∀ entry ∈ beforeIntegrity entries, EndsAlike valueTypeOf data.length entry := by
  have haligned : data.length % 4 = 0 := by
    simp only [sizesAgree, Bool.and_eq_true, decide_eq_true_eq] at hsizes
    exact hsizes.1.1
  obtain ⟨hheader, _, fuel, hentries⟩ := readMessage_entries hread
  exact boundaries_eq_iff haligned entries fuel data.length kStunHeaderSize rfl hheader (by omega)
    hentries

/-- A USERNAME of five bytes in front of MESSAGE-INTEGRITY. -/
def wellFormed : List Byte :=
  [0, 1, 0, 36, 0x21, 0x12, 0xA4, 0x42, 1, 2, 3, 4, 5, 6, 7, 8, 9, 10, 11, 12,
    0, 6, 0, 5, 0x61, 0x62, 0x63, 0x64, 0x65, 0, 0, 0,
    0, 8, 0, 20, 1, 2, 3, 4, 5, 6, 7, 8, 9, 10, 11, 12, 13, 14, 15, 16, 17, 18, 19, 20]

theorem attribute_boundaries_agree_username :
    ∃ message entries, readMessage getAttributeValueType wellFormed = some (message, entries) ∧
      boundaries entries = (attributeWalk wellFormed wellFormed.length kStunHeaderSize).1 := by
  obtain ⟨message, entries, hread, hends⟩ : ∃ message entries,
      readMessage getAttributeValueType wellFormed = some (message, entries) ∧
      ∀ entry ∈ beforeIntegrity entries,
        EndsAlike getAttributeValueType wellFormed.length entry :=
    ⟨_, _, rfl, by decide⟩
  exact ⟨message, entries, hread, (attribute_boundaries_agree_iff getAttributeValueType wellFormed
    message entries hread (by decide)).mpr hends⟩

/-- A RETRANSMIT-COUNT with length 12 on the wire: `Read` takes 4 bytes of it and finds a USERNAME
behind them, which the walk passes over. -/
def hiddenUsername : List Byte :=
  [0, 1, 0, 40, 0x21, 0x12, 0xA4, 0x42, 1, 2, 3, 4, 5, 6, 7, 8, 9, 10, 11, 12,
    0xFF, 0, 0, 12, 0, 0, 0, 1, 0, 6, 0, 4, 0x61, 0x62, 0x63, 0x64,
    0, 8, 0, 20, 1, 2, 3, 4, 5, 6, 7, 8, 9, 10, 11, 12, 13, 14, 15, 16, 17, 18, 19, 20]

theorem attribute_boundaries_differ : sizesAgree hiddenUsername = true ∧
      (readMessage getAttributeValueType hiddenUsername).map (fun read => boundaries read.2) =
        some [20, 28, 36] ∧
      (attributeWalk hiddenUsername hiddenUsername.length kStunHeaderSize).1 = [20, 36] := by
  decide +kernel

end WebRtc.Stun
