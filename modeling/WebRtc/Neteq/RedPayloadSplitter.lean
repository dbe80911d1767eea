import Mathlib.Algebra.BigOperators.Ring.Nat
import WebRtc.Lib.Outcome

/-! `RedPayloadSplitter::SplitRed` (`red_payload_splitter.cc`). A pointer into a payload is its
offset; a read at an offset outside the payload is a fault. The loop over the headers follows the
continuation bit with no look at the size, the loop over the blocks compares with the size. -/

namespace WebRtc.Red

open Outcome List

variable {b : Byte} {rest : List Byte}

abbrev Byte := BitVec 8

inductive Fault where
  | outOfBounds
  deriving DecidableEq, Repr

/-- `Packet`, without the stopwatch and the parsed frame. -/
structure Packet where
  timestamp : BitVec 32
  sequenceNumber : BitVec 16
  payloadType : Byte
  payload : List Byte
  codecLevel : Nat := 0
  redLevel : Nat := 0
  deriving DecidableEq, Repr

structure RedHeader where
  payloadType : Byte
  timestamp : BitVec 32
  payloadLength : Nat
  deriving DecidableEq, Repr

def kMaxRedBlocks : Nat := 32

section Sizes

variable (sizeBits : Nat)

/-- A `size_t` subtraction. -/
def subSize (a b : Nat) : Nat := (a + (2 ^ sizeBits - b % 2 ^ sizeBits)) % 2 ^ sizeBits

/-- The header of the last block, with what is left of the payload for its length. -/
def lastHeader (red : Packet) (sumLength : Nat) (b0 : Byte) : RedHeader where
  payloadType := b0 &&& 0x7F
  timestamp := red.timestamp
  payloadLength := subSize sizeBits red.payload.length sumLength

/-- The header of a block that another one follows. -/
def longHeader (red : Packet) (b0 b1 b2 b3 : Byte) : RedHeader where
  payloadType := b0 &&& 0x7F
  timestamp := red.timestamp - BitVec.ofNat 32 (b1.toNat * 64 + (b2 &&& 0xFC).toNat / 4)
  payloadLength := (b2 &&& 0x03).toNat * 256 + b3.toNat

/-- The loop that reads the headers: `unread` are the bytes of the payload from `payloadPtr` on.
The result holds the headers and the offset of the first byte after them. -/
def readHeaders (red : Packet) (payloadPtr sumLength : Nat) :
    List Byte → Except Fault (List RedHeader × Nat)
  | [] => .error .outOfBounds
  | b0 :: unread =>
    if b0 &&& 0x80 = 0 then
      .ok ([lastHeader sizeBits red (sumLength + 1) b0], payloadPtr + 1)
    else
      match unread with
      | b1 :: b2 :: b3 :: unread => do
        let (newHeaders, ptr) ← readHeaders red (payloadPtr + 4)
          (sumLength + (longHeader red b0 b1 b2 b3).payloadLength + 4) unread
        return (longHeader red b0 b1 b2 b3 :: newHeaders, ptr)
      | _ => .error .outOfBounds

/-- `SetData(payload_ptr, payload_length)`. -/
def sliceOf (red : Packet) (payloadPtr payloadLength : Nat) : Except Fault (List Byte) :=
  if payloadPtr + payloadLength ≤ red.payload.length then
    .ok ((red.payload.drop payloadPtr).take payloadLength)
  else .error .outOfBounds

/-- The loop that fills the new packets, `i` being the index of the first of `headers` among the
`count` headers of the packet. -/
def fillPackets (red : Packet) (count : Nat) : (headers : List RedHeader) → (i payloadPtr : Nat) →
    (newPackets : List Packet) → Except Fault (List Packet × Bool)
  | [], _, _, newPackets => .ok (newPackets, true)
  | newHeader :: headers, i, payloadPtr, newPackets =>
    if payloadPtr + newHeader.payloadLength > red.payload.length then
      -- SplitRed length mismatch
      .ok (newPackets, false)
    else do
      let payload ← sliceOf red payloadPtr newHeader.payloadLength
      let newPacket : Packet := {
        timestamp := newHeader.timestamp
        sequenceNumber := red.sequenceNumber
        payloadType := newHeader.payloadType
        payload := payload
        redLevel := count - 1 - i }
      fillPackets red count headers (i + 1) (payloadPtr + newHeader.payloadLength)
        (newPacket :: newPackets)

/-- One turn of the loop over the packets: what replaces the packet. -/
def splitPacket (red : Packet) : Except Fault (List Packet × Bool) := do
  let (newHeaders, payloadPtr) ← readHeaders sizeBits red 0 0 red.payload
  if newHeaders.length ≤ kMaxRedBlocks then
    fillPackets red newHeaders.length newHeaders 0 payloadPtr []
  else
    return ([], false)

def splitRed : List Packet → Except Fault (List Packet × Bool)
  | [] => .ok ([], true)
  | red :: packetList => do
    let (newPackets, matched) ← splitPacket sizeBits red
    let (split, ret) ← splitRed packetList
    return (newPackets ++ split, matched && ret)

end Sizes

/-! ## The chain of headers -/

/-- The headers of the payload are `k` long ones and the short one at offset `4 * k`. -/
def ChainEndsAt (payload : List Byte) (k : Nat) : Prop :=
  (∀ j < k, ∃ b, payload[4 * j]? = some b ∧ b &&& 0x80 ≠ 0) ∧
    ∃ b, payload[4 * k]? = some b ∧ b &&& 0x80 = 0

/-- The chain ends inside the payload. -/
def ChainEnds (payload : List Byte) : Prop := ∃ k, ChainEndsAt payload k

theorem chainEndsAt_zero : ChainEndsAt (b :: rest) 0 ↔ b &&& 0x80 = 0 := by
  simp [ChainEndsAt]

theorem not_chainEndsAt_of_last {k : Nat} (hb : b &&& 0x80 = 0) :
    ¬ ChainEndsAt (b :: rest) (k + 1) := by
  rintro ⟨hlong, -⟩
  obtain ⟨c, hc, hne⟩ := hlong 0 (Nat.zero_lt_succ k)
  simp only [Nat.mul_zero, List.getElem?_cons_zero, Option.some.injEq] at hc
  exact hne (hc ▸ hb)

theorem chainEndsAt_succ {b1 b2 b3 : Byte} {k : Nat} (hb : b &&& 0x80 ≠ 0) :
    ChainEndsAt (b :: b1 :: b2 :: b3 :: rest) (k + 1) ↔ ChainEndsAt rest k := by
  have hnext (j : Nat) : (b :: b1 :: b2 :: b3 :: rest)[4 * (j + 1)]? = rest[4 * j]? := by
    simp [Nat.mul_add]
  refine and_congr_left fun _ => ⟨fun h j hj => ?_, fun h j hj => ?_⟩
  · simpa only [hnext] using h (j + 1) (Nat.succ_lt_succ hj)
  cases j with
  | zero => exact ⟨b, rfl, hb⟩
  | succ j => simpa only [hnext] using h j (Nat.lt_of_succ_lt_succ hj)

/-- A long header needs four bytes and another header. -/
theorem not_chainEnds_short (hb : b &&& 0x80 ≠ 0)
    (hshort : rest.length < 4) : ¬ ChainEnds (b :: rest) := by
  rintro ⟨k, -, c, hc, hc0⟩
  cases k with
  | zero =>
    simp only [Nat.mul_zero, List.getElem?_cons_zero, Option.some.injEq] at hc
    exact hb (hc ▸ hc0)
  | succ k =>
    have hlt := (List.getElem?_eq_some_iff.mp hc).1
    simp only [length_cons] at hlt
    omega

variable {sizeBits : Nat} (red : Packet)

theorem readHeaders_last (ptr sum : Nat) (rest : List Byte) (hb : b &&& 0x80 = 0) :
    readHeaders sizeBits red ptr sum (b :: rest) =
      .ok ([lastHeader sizeBits red (sum + 1) b], ptr + 1) := by
  rcases rest with _ | ⟨b1, _ | ⟨b2, _ | ⟨b3, rest⟩⟩⟩ <;> exact if_pos hb

/-- The loop returns when the chain ends inside the payload, with a header for each of its links. -/
theorem readHeaders_ok {k : Nat} {unread : List Byte} (hchain : ChainEndsAt unread k)
    (ptr sum : Nat) : ∃ headers, headers.length = k + 1 ∧
      readHeaders sizeBits red ptr sum unread = .ok (headers, ptr + 4 * k + 1) := by
  induction k generalizing unread ptr sum with
  | zero =>
    cases unread with
    | nil => simp [ChainEndsAt] at hchain
    | cons b rest => exact ⟨_, rfl, readHeaders_last red ptr sum rest (chainEndsAt_zero.mp hchain)⟩
  | succ k ih =>
    cases unread with
    | nil => simp [ChainEndsAt] at hchain
    | cons b rest =>
      have hb : b &&& 0x80 ≠ 0 := fun h => not_chainEndsAt_of_last h hchain
      rcases rest with _ | ⟨b1, _ | ⟨b2, _ | ⟨b3, rest⟩⟩⟩
      iterate 3 exact absurd ⟨_, hchain⟩ (not_chainEnds_short hb (by simp))
      obtain ⟨headers, hlen, hread⟩ := ih ((chainEndsAt_succ hb).mp hchain) (ptr + 4)
        (sum + (longHeader red b b1 b2 b3).payloadLength + 4)
      refine ⟨longHeader red b b1 b2 b3 :: headers, congrArg (· + 1) hlen, ?_⟩
      rw [readHeaders, if_neg hb, hread]
      rw [show ptr + 4 * (k + 1) + 1 = ptr + 4 + 4 * k + 1 by omega]
      rfl

theorem chainEnds_of_readHeaders (ptr sum : Nat) (unread : List Byte)
    {result : List RedHeader × Nat} (h : readHeaders sizeBits red ptr sum unread = .ok result) :
    ChainEnds unread := by
  fun_induction readHeaders sizeBits red ptr sum unread generalizing result with
  | case1 => cases h
  | case2 ptr sum b rest hb => exact ⟨0, chainEndsAt_zero.mpr hb⟩
  | case3 ptr sum b hb b1 b2 b3 rest ih =>
    obtain ⟨inner, hinner, -⟩ := bind_eq_ok.mp h
    obtain ⟨k, hk⟩ := ih hinner
    exact ⟨k + 1, (chainEndsAt_succ hb).mpr hk⟩
  | case4 => cases h

/-! ## The blocks -/

/-- The payloads of the packets made from one payload, in the order of their blocks: each new
packet is put in front of the others. -/
def blocks (packets : List Packet) : List Byte := (packets.reverse.map Packet.payload).flatten

@[simp] theorem blocks_cons (packet : Packet) (packets : List Packet) :
    blocks (packet :: packets) = blocks packets ++ packet.payload := by
  simp [blocks]

/-- The loop over the blocks returns, and what it adds to the slices taken before are the bytes
that follow them. -/
theorem fillPackets_ok (count : Nat) (headers : List RedHeader) (i ptr start : Nat)
    (made : List Packet) (hptr : ptr ≤ red.payload.length) (hstart : start ≤ ptr)
    (hmade : blocks made = (red.payload.drop start).take (ptr - start)) :
    ∃ packets matched, fillPackets red count headers i ptr made = .ok (packets, matched) ∧
      blocks packets <+: red.payload.drop start := by
  induction headers generalizing i ptr made with
  | nil => exact ⟨made, true, rfl, hmade ▸ take_prefix _ _⟩
  | cons header headers ih =>
    rw [fillPackets]
    split
    · exact ⟨made, false, rfl, hmade ▸ take_prefix _ _⟩
    rename_i hfits
    have hend : ptr + header.payloadLength ≤ red.payload.length := Nat.not_lt.mp hfits
    rw [sliceOf, if_pos hend, ok_bind]
    apply ih _ _ _ hend (by omega)
    rw [blocks_cons, hmade, show ptr + header.payloadLength - start =
      ptr - start + header.payloadLength by omega, take_add, drop_drop,
      show start + (ptr - start) = ptr by omega]

/-! ## The packets -/

/-- `made` are consecutive slices of the payload that follow its headers. -/
def FollowHeaders (red : Packet) (made : List Packet) : Prop :=
  ∃ k, ChainEndsAt red.payload k ∧ blocks made <+: red.payload.drop (4 * k + 1)

theorem splitPacket_ok {red : Packet} (hchain : ChainEnds red.payload) :
    ∃ packets matched, splitPacket sizeBits red = .ok (packets, matched) ∧
      FollowHeaders red packets := by
  obtain ⟨k, hk⟩ := hchain
  obtain ⟨headers, -, hread⟩ := readHeaders_ok red hk 0 0
  rw [Nat.zero_add] at hread
  rw [splitPacket, hread, ok_bind]
  dsimp only
  split
  · have hinside : 4 * k + 1 ≤ red.payload.length := by
      obtain ⟨b, hb, -⟩ := hk.2
      exact (List.getElem?_eq_some_iff.mp hb).1
    obtain ⟨packets, matched, hfill, hblocks⟩ := fillPackets_ok red headers.length headers 0
      (4 * k + 1) (4 * k + 1) [] hinside (Nat.le_refl _) (by simp [blocks])
    exact ⟨packets, matched, hfill, k, hk, hblocks⟩
  · exact ⟨[], false, rfl, k, hk, nil_prefix⟩

theorem chainEnds_of_splitPacket {red : Packet} {result : List Packet × Bool}
    (h : splitPacket sizeBits red = .ok result) : ChainEnds red.payload := by
  obtain ⟨inner, hread, -⟩ := bind_eq_ok.mp h
  exact chainEnds_of_readHeaders red 0 0 red.payload hread

theorem splitRed_of_chainEnds (packets : List Packet)
    (hchains : ∀ red ∈ packets, ChainEnds red.payload) :
    ∃ groups ret, splitRed sizeBits packets = .ok (groups.flatten, ret) ∧
      List.Forall₂ FollowHeaders packets groups := by
  induction packets with
  | nil => exact ⟨[], true, rfl, .nil⟩
  | cons red packets ih =>
    obtain ⟨groups, ret, hsplit, hgroups⟩ := ih fun p hp => hchains p (.tail _ hp)
    obtain ⟨made, matched, hmade, hfollow⟩ := splitPacket_ok (hchains red (.head _))
    refine ⟨made :: groups, matched && ret, ?_, .cons hfollow hgroups⟩
    rw [splitRed, hmade, ok_bind, hsplit]
    rfl

theorem chainEnds_of_splitRed (packets : List Packet) {result : List Packet × Bool}
    (h : splitRed sizeBits packets = .ok result) : ∀ red ∈ packets, ChainEnds red.payload := by
  induction packets generalizing result with
  | nil => simp
  | cons red packets ih =>
    obtain ⟨made, hmade, h⟩ := bind_eq_ok.mp h
    obtain ⟨split, hsplit, -⟩ := bind_eq_ok.mp h
    exact forall_mem_cons.mpr ⟨chainEnds_of_splitPacket hmade, ih hsplit⟩

/-- Every read is inside its payload exactly when each chain of headers ends inside; each packet is
then replaced by consecutive slices of its payload that follow the headers. -/
theorem splitRed_inside_payload (sizeBits : Nat) (packets : List Packet) :
    ((∃ result, splitRed sizeBits packets = .ok result) ↔ ∀ red ∈ packets, ChainEnds red.payload) ∧
      ∀ out ret, splitRed sizeBits packets = .ok (out, ret) →
        ∃ groups, out = groups.flatten ∧ List.Forall₂ FollowHeaders packets groups := by
  constructor
  · constructor
    · rintro ⟨result, h⟩
      exact chainEnds_of_splitRed packets h
    intro hchains
    obtain ⟨groups, ret, hsplit, -⟩ := splitRed_of_chainEnds packets hchains
    exact ⟨_, hsplit⟩
  · intro out ret h
    obtain ⟨groups, ret', hsplit, hgroups⟩ :=
      splitRed_of_chainEnds packets (chainEnds_of_splitRed packets h)
    rw [h] at hsplit
    cases hsplit
    exact ⟨groups, rfl, hgroups⟩

theorem splitRed_inside_payload_two_blocks :
    ∃ groups, [⟨100, 7, 6, [3], 0, 0⟩, ⟨99, 7, 5, [1, 2], 0, 1⟩] = List.flatten groups ∧
      List.Forall₂ FollowHeaders [⟨100, 7, 0, [0x85, 0, 0x04, 2, 6, 1, 2, 3], 0, 0⟩] groups :=
  (splitRed_inside_payload 32 [⟨100, 7, 0, [0x85, 0, 0x04, 2, 6, 1, 2, 3], 0, 0⟩]).2 _ true (by decide)

/-- One byte with the continuation bit: the three bytes behind it are not there. -/
theorem splitRed_reads_past_end : splitRed 32 [⟨0, 0, 0, [0x80], 0, 0⟩] = .error .outOfBounds := by
  decide

end WebRtc.Red
