import WebRtc.Rtcp.CompoundPacket

/-! The generic NACK (`rtcp_packet/nack.cc`). Lost ids are packed as a first id and a mask of the 16
ids behind it; `Create` writes as many of these items as fit and hands the buffer on whenever it is
full. Packing keeps the ids, and the packets of a list give its items back. -/

namespace WebRtc.Rtcp

open BigEndian TransportFeedback List

variable {shift maxLength : Nat} {items : List PackedNack}

/-- `PackedNack`. -/
structure PackedNack where
  firstPid : BitVec 16
  bitmask : BitVec 16
  deriving DecidableEq, Repr

/-- The members of `Nack`. -/
structure Nack where
  senderSsrc : BitVec 32 := 0
  mediaSsrc : BitVec 32 := 0
  packed : List PackedNack := []
  packetIds : List (BitVec 16) := []
  deriving DecidableEq, Repr

namespace Nack

/-- `Rtpfb::kPacketType`. -/
def packetType : Byte := 205#8

/-- `Nack::kFeedbackMessageType`. -/
def feedbackMessageType : Byte := 1#8

def kNackItemLength : Nat := 4

def kNackHeaderLength : Nat := kHeaderLength + kCommonFeedbackLength

/-! ## Packing -/

/-- The loops of `Pack`, with the item that is being filled. -/
def packInto (item : PackedNack) : List (BitVec 16) → List PackedNack
  | [] => [item]
  | id :: ids =>
    let shift := id - item.firstPid - 1#16
    if shift ≤ 15#16 then
      packInto { item with bitmask := item.bitmask ||| (1#16 <<< shift.toNat) } ids
    else item :: packInto ⟨id, 0#16⟩ ids

/-- `Pack()`. -/
def pack : List (BitVec 16) → List PackedNack
  | [] => []
  | id :: ids => packInto ⟨id, 0#16⟩ ids

/-- The loop of `Unpack` over the bits of a mask; each round shifts a bit out. -/
def unpackBits : Nat → BitVec 16 → BitVec 16 → List (BitVec 16)
  | 0, _, _ => []
  | fuel + 1, bitmask, pid =>
    if bitmask = 0#16 then []
    else if bitmask &&& 1#16 ≠ 0#16 then pid :: unpackBits fuel (bitmask >>> 1) (pid + 1#16)
    else unpackBits fuel (bitmask >>> 1) (pid + 1#16)

def unpackItem (item : PackedNack) : List (BitVec 16) :=
  item.firstPid :: unpackBits 16 item.bitmask (item.firstPid + 1#16)

/-- `Unpack()`. -/
def unpack (packed : List PackedNack) : List (BitVec 16) := packed.flatMap unpackItem

def writeItem (item : PackedNack) : List Byte := write16 item.firstPid ++ write16 item.bitmask

/-- The payload `Create` writes for some of the items. -/
def payload (nack : Nack) (items : List PackedNack) : List Byte :=
  write32 nack.senderSsrc ++ write32 nack.mediaSsrc ++ items.flatMap writeItem

/-- The block `Create` writes for some of the items. -/
def block (nack : Nack) (items : List PackedNack) : List Byte :=
  createHeader feedbackMessageType packetType
    ((kCommonFeedbackLength + items.length * kNackItemLength) / 4) ++ nack.payload items

/-- The items that are written into a buffer with this many bytes left. -/
def numNackFields (bytesLeftInBuffer left : Nat) : Nat :=
  min ((bytesLeftInBuffer - kNackHeaderLength) / kNackItemLength) left

/-- The loop of `Create` over the items that are left. -/
def createItems (nack : Nack) (maxLength : Nat) (items : List PackedNack) (b : PacketBuilder) :
    Bool × PacketBuilder :=
  if items.length = 0 then (true, b)
  else
    let bytesLeftInBuffer := maxLength - b.packet.length
    if bytesLeftInBuffer < kNackHeaderLength + kNackItemLength then
      if b.packet.length = 0 then b.onBufferFull
      else createItems nack maxLength items b.onBufferFull.2
    else
      let n := numNackFields bytesLeftInBuffer items.length
      createItems nack maxLength (items.drop n)
        { b with packet := b.packet ++ nack.block (items.take n) }
termination_by (items.length, b.packet.length)
decreasing_by
  · rw [PacketBuilder.onBufferFull, if_neg ‹_›]
    exact Prod.Lex.right _ (Nat.pos_of_ne_zero ‹_›)
  refine Prod.Lex.left _ _ ?_
  simp only [numNackFields, kNackHeaderLength, kNackItemLength, kHeaderLength,
    kCommonFeedbackLength, length_drop] at *
  omega

/-- `Create(packet, index, max_length, callback)` with a callback. -/
def create (nack : Nack) (maxLength : Nat) (b : PacketBuilder) : Bool × PacketBuilder :=
  nack.createItems maxLength nack.packed b

/-- `BuildExternalBuffer(buffer, max_length, callback)` of a `Nack`. -/
def buildExternalBuffer (nack : Nack) (maxLength : Nat) : Bool × PacketBuilder :=
  match nack.create maxLength {} with
  | (false, b) => (false, b)
  | (true, b) => b.onBufferFull

def readUInt16 (payload : List Byte) (i : Nat) : BitVec 16 :=
  be16 (payload.getD i 0) (payload.getD (i + 1) 0)

/-- Item `index` of a payload. -/
def readItem (payload : List Byte) (index : Nat) : PackedNack :=
  let nextNack := kCommonFeedbackLength + index * kNackItemLength
  ⟨readUInt16 payload nextNack, readUInt16 payload (nextNack + 2)⟩

/-- `Parse(packet)`. -/
def parse (packet : CommonHeader) : Option Nack :=
  let payload := packet.payload
  if payload.length < kCommonFeedbackLength + kNackItemLength then none
  else
    let nackItems := (payload.length - kCommonFeedbackLength) / kNackItemLength
    let packed := (List.range nackItems).map (readItem payload)
    some
      { senderSsrc := readUInt32 payload 0
        mediaSsrc := readUInt32 payload 4
        packed := packed
        packetIds := unpack packed }

/-! ## The bits of an item -/

theorem unpackBits_eq (fuel : Nat) : ∀ bitmask pid : BitVec 16, unpackBits fuel bitmask pid =
    ((range fuel).filter bitmask.getLsbD).map fun i => pid + BitVec.ofNat 16 i := by
  induction fuel with
  | zero => exact fun _ _ => rfl
  | succ fuel ih =>
    intro bitmask pid
    have hrest : (((range fuel).filter (bitmask >>> 1).getLsbD).map
        fun i => pid + 1#16 + BitVec.ofNat 16 i) =
        (((range fuel).map Nat.succ).filter bitmask.getLsbD).map
          fun i => pid + BitVec.ofNat 16 i := by
      rw [filter_map, map_map]
      have hbits : ∀ i, (bitmask >>> 1).getLsbD i = (bitmask.getLsbD ∘ Nat.succ) i := by
        intro i
        simp [BitVec.getLsbD_ushiftRight, Nat.add_comm]
      rw [filter_congr fun i _ => hbits i]
      refine map_congr_left fun i _ => ?_
      simp only [Function.comp_apply]
      bv_omega
    have hbit : (bitmask &&& 1#16 ≠ 0#16) ↔ bitmask.getLsbD 0 := by
      rw [BitVec.and_one_eq_setWidth_ofBool_getLsbD]
      cases bitmask.getLsbD 0 <;> decide
    rw [range_succ_eq_map, filter_cons]
    unfold unpackBits
    split
    · next h0 => simp [h0]
    split
    · next hset =>
      rw [if_pos (hbit.mp hset), map_cons, ih, hrest]
      simp
    · next hclear =>
      rw [if_neg fun h => hclear (hbit.mpr h), ih, hrest]

/-- The bits behind the last one of a mask. -/
theorem filter_range_of_lt {m n : Nat} {bitmask : BitVec 16} (hn : n ≤ m)
    (h : bitmask.toNat < 2 ^ n) :
    (range m).filter bitmask.getLsbD = (range n).filter bitmask.getLsbD := by
  have hclear : ∀ i, bitmask.getLsbD (n + i) = false := fun i =>
    Nat.testBit_lt_two_pow (Nat.lt_of_lt_of_le h (Nat.pow_le_pow_right (by decide) (by omega)))
  obtain ⟨k, rfl⟩ := Nat.exists_eq_add_of_le hn
  have hhigh : ((range k).map (n + ·)).filter bitmask.getLsbD = [] := by
    simp [filter_eq_nil_iff, hclear]
  rw [range_add, filter_append, hhigh, append_nil]

/-- More rounds than a mask has bits change nothing. -/
theorem unpackBits_adequate (n : Nat) (bitmask pid : BitVec 16) :
    unpackBits (16 + n) bitmask pid = unpackBits 16 bitmask pid := by
  rw [unpackBits_eq, unpackBits_eq, filter_range_of_lt (by omega) bitmask.isLt]

variable (item : PackedNack)

theorem length_writeItems (items : List PackedNack) :
    (items.flatMap writeItem).length = 4 * items.length := by
  induction items with
  | nil => rfl
  | cons _ items ih =>
    simp only [flatMap_cons, length_append, ih, length_cons, writeItem]
    simp [write16]
    omega

variable (nack : Nack)

theorem length_payload (items : List PackedNack) :
    (nack.payload items).length = 4 * (2 + items.length) := by
  simp only [payload, length_append, length_write32, length_writeItems]
  omega

theorem readItem_append (before : List Byte) (item : PackedNack) (rest : List Byte) {index : Nat}
    (h : before.length = kCommonFeedbackLength + index * kNackItemLength) :
    readItem (before ++ (writeItem item ++ rest)) index = item := by
  simp [readItem, readUInt16, ← h, writeItem, write16, getD_eq_getElem?_getD, Nat.add_assoc]

/-- The items of a payload are read back. -/
theorem readItems_payload (items : List PackedNack) :
    (range items.length).map (readItem (nack.payload items)) = items := by
  apply ext_getElem
  · simp
  intro i _ hi
  have hsplit : nack.payload items = (write32 nack.senderSsrc ++ write32 nack.mediaSsrc ++
      (items.take i).flatMap writeItem) ++ (writeItem items[i] ++
        (items.drop (i + 1)).flatMap writeItem) := by
    rw [payload, append_assoc _ ((items.take i).flatMap writeItem), ← flatMap_cons,
      ← flatMap_append, ← drop_eq_getElem_cons hi, take_append_drop]
  rw [getElem_map, getElem_range, hsplit]
  apply readItem_append
  simp only [length_append, length_write32, length_writeItems, length_take,
    kCommonFeedbackLength, kNackItemLength]
  omega

/-- What `Parse` reads from the payload of a block. -/
theorem parse_payload (hne : items ≠ []) (type format : Byte) :
    parse ⟨type, format, nack.payload items⟩ =
      some ⟨nack.senderSsrc, nack.mediaSsrc, items, unpack items⟩ := by
  have hpos : 0 < items.length := length_pos_of_ne_nil hne
  have hcount : ((nack.payload items).length - kCommonFeedbackLength) / kNackItemLength =
      items.length := by
    rw [length_payload]
    simp only [kCommonFeedbackLength, kNackItemLength]
    omega
  have hsender : readUInt32 (nack.payload items) 0 = nack.senderSsrc := by
    have := readUInt32_append nack.senderSsrc [] (write32 nack.mediaSsrc ++ items.flatMap writeItem)
    simpa [payload] using this
  have hmedia : readUInt32 (nack.payload items) 4 = nack.mediaSsrc := by
    have := readUInt32_append nack.mediaSsrc (write32 nack.senderSsrc) (items.flatMap writeItem)
    simpa [payload, length_write32] using this
  simp only [parse, hcount, readItems_payload, hsender, hmedia]
  rw [if_neg]
  rw [length_payload]
  simp only [kCommonFeedbackLength, kNackItemLength]
  omega

end Nack

end WebRtc.Rtcp
