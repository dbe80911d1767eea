import WebRtc.Lib.Parity
import WebRtc.Rtp.FecDecoder

/-! What the XOR operations do to a packet, byte by byte: each adds the contribution of a media
packet, whose payload is laid out behind a header of a given size. -/

namespace WebRtc.Rtp.Fec

open BigEndian

open Parity

variable {dstOffset n i hs : Nat}

namespace Packet

theorem memcpy_ok {dst src : Packet} {srcOffset : Nat}
    (hd : dstOffset + n ≤ ipPacketSize) (hs : srcOffset + n ≤ ipPacketSize) :
    dst.memcpy dstOffset src srcOffset n =
      .ok (dst.copy dstOffset n fun i => src.byteAt (srcOffset + i)) :=
  if_pos ⟨hd, hs⟩

end Packet

/-! ## XOR of a payload -/

variable (src : Packet)

theorem xorPayloadsFrom_ok (dstOffset : Nat) :
    ∀ (n i : Nat) (dst : Packet), dstOffset + i + n ≤ ipPacketSize →
      kRtpHeaderSize + i + n ≤ ipPacketSize →
      ∃ dst', xorPayloadsFrom src dstOffset n i dst = .ok dst' ∧ dst'.length = dst.length ∧
        ∀ j < ipPacketSize, dst'.byteAt j = if dstOffset + i ≤ j ∧ j < dstOffset + i + n then
            dst.byteAt j ^^^ src.byteAt (kRtpHeaderSize + (j - dstOffset)) else dst.byteAt j := by
  intro n
  induction n with
  | zero =>
    intro i dst _ _
    refine ⟨dst, rfl, rfl, fun j _ => ?_⟩
    rw [if_neg (by omega)]
  | succ n ih =>
    intro i dst hd hs
    obtain ⟨dst', hx, hl, hb⟩ := ih (i + 1)
      (dst.set (dstOffset + i) (dst.byteAt (dstOffset + i) ^^^ src.byteAt (kRtpHeaderSize + i)))
      (by omega) (by omega)
    refine ⟨dst', ?_, hl, fun j hj => ?_⟩
    · rw [xorPayloadsFrom, if_pos ⟨by omega, by omega⟩, hx]
    rw [hb j hj, Packet.byteAt_set hj]
    -- the byte of this round is not touched again
    by_cases hji : j = dstOffset + i
    · subst hji
      rw [if_neg (by omega), if_pos rfl, if_pos ⟨Nat.le_refl _, by omega⟩, Nat.add_sub_cancel_left]
    rw [if_neg hji]
    by_cases hin : dstOffset + (i + 1) ≤ j ∧ j < dstOffset + (i + 1) + n
    · rw [if_pos hin, if_pos ⟨by omega, by omega⟩]
    · rw [if_neg hin, if_neg (by omega)]

theorem xorPayloads_ok (dst : Packet)
    (hd : dstOffset + n ≤ ipPacketSize) (hs : kRtpHeaderSize + n ≤ ipPacketSize) :
    ∃ dst', xorPayloads src n dstOffset dst = .ok dst' ∧ dst'.length = dst.length ∧
      ∀ j < ipPacketSize, dst'.byteAt j = if dstOffset ≤ j ∧ j < dstOffset + n then
          dst.byteAt j ^^^ src.byteAt (kRtpHeaderSize + (j - dstOffset)) else dst.byteAt j :=
  xorPayloadsFrom_ok src dstOffset n 0 dst hd hs

/-- An XOR that runs over the end of an array is a fault. -/
theorem xorPayloadsFrom_error (dstOffset : Nat) :
    ∀ (n i : Nat) (dst : Packet), 0 < n →
      ipPacketSize < dstOffset + i + n ∨ ipPacketSize < kRtpHeaderSize + i + n →
      xorPayloadsFrom src dstOffset n i dst = .error .outOfBounds := by
  intro n
  induction n with
  | zero => intro i dst hn; omega
  | succ n ih =>
    intro i dst _ hout
    rw [xorPayloadsFrom]
    split
    · exact ih (i + 1) _ (by omega) (by omega)
    · rfl

/-! ## Contributions -/

/-- What a media packet adds to the byte `i` of a packet with a header of `headerSize` bytes. -/
def contribution (headerSize : Nat) (m : Packet) (i : Nat) : BitVec 8 :=
  if i < 2 ∨ 4 ≤ i ∧ i < 8 then m.byteAt i
  else if i = 2 then hi16 (payloadLengthField m)
  else if i = 3 then lo16 (payloadLengthField m)
  else if i < headerSize then 0#8
  else m.byteAt (kRtpHeaderSize + (i - headerSize))

theorem byteAt_xorHeaders (src dst : Packet) (hi : i < ipPacketSize) :
    (xorHeaders src dst).byteAt i =
      if i < 8 then dst.byteAt i ^^^ contribution 8 src i else dst.byteAt i := by
  unfold xorHeaders contribution
  rw [Packet.byteAt_withBytes hi]
  by_cases h1 : i < 2 ∨ 4 ≤ i ∧ i < 8
  · rw [if_pos h1, if_pos (by omega), if_pos h1]
  rw [if_neg h1]
  by_cases h2 : i = 2
  · subst h2
    simp
  rw [if_neg h2]
  by_cases h3 : i = 3
  · subst h3
    simp
  · rw [if_neg h3, if_neg (by omega)]

variable (m : Packet)

/-- The header of a contribution does not depend on the size of the header. -/
theorem contribution_header {hs' : Nat} (hi : i < 8) (h : 8 ≤ hs)
    (h' : 8 ≤ hs') : contribution hs m i = contribution hs' m i := by
  unfold contribution
  rw [if_pos (show i < hs by omega), if_pos (show i < hs' by omega)]

theorem contribution_gap (hi : 8 ≤ i) (h : i < hs) : contribution hs m i = 0#8 := by
  unfold contribution
  rw [if_neg (by omega), if_neg (by omega), if_neg (by omega), if_pos h]

theorem contribution_payload (hi : 8 ≤ i) (h : hs ≤ i) :
    contribution hs m i = m.byteAt (kRtpHeaderSize + (i - hs)) := by
  unfold contribution
  rw [if_neg (by omega), if_neg (by omega), if_neg (by omega), if_neg (by omega)]

/-- XOR of the header and of at least the whole payload adds the contribution. -/
theorem xor_ok {src : Packet} (dst : Packet) (hpad : src.ZeroPadded)
    (hn : src.length ≤ kRtpHeaderSize + n) (h8 : 8 ≤ dstOffset)
    (hd : dstOffset + n ≤ ipPacketSize) (hs : kRtpHeaderSize + n ≤ ipPacketSize) :
    ∃ dst', xorPayloads src n dstOffset (xorHeaders src dst) = .ok dst' ∧
      dst'.length = dst.length ∧ ∀ j < ipPacketSize,
        dst'.byteAt j = dst.byteAt j ^^^ contribution dstOffset src j := by
  obtain ⟨dst', hx, hl, hb⟩ := xorPayloads_ok src (xorHeaders src dst) hd hs
  refine ⟨dst', hx, hl, fun j hj => ?_⟩
  rw [hb j hj, byteAt_xorHeaders _ _ hj]
  rcases Nat.lt_or_ge j 8 with hj8 | hj8
  · rw [if_neg (by omega), if_pos hj8, contribution_header src hj8 (Nat.le_refl 8) h8]
  rw [if_neg (show ¬ j < 8 by omega)]
  rcases Nat.lt_or_ge j dstOffset with hjd | hjd
  · rw [if_neg (by omega), contribution_gap src hj8 hjd, BitVec.xor_zero]
  rw [contribution_payload src hj8 hjd]
  split
  · rfl
  · rw [hpad _ (by omega), BitVec.xor_zero]

/-! ## A FEC packet under construction -/

/-- The FEC packet holds the media packets `l`, behind a header of `headerSize` bytes. -/
structure Holds (headerSize : Nat) (l : List Packet) (fecPacket : Packet) : Prop where
  bytes : ∀ i < ipPacketSize, fecPacket.byteAt i = parity (fun m => contribution headerSize m i) l
  length_empty : l = [] → fecPacket.length = 0
  length_le : ∀ m ∈ l, headerSize + (m.length - kRtpHeaderSize) ≤ fecPacket.length
  length_mem : l ≠ [] → ∃ m ∈ l, fecPacket.length = headerSize + (m.length - kRtpHeaderSize)

theorem Holds.empty (headerSize : Nat) : Holds headerSize [] Packet.empty where
  bytes i _ := by rw [Packet.byteAt_empty, parity_nil]
  length_empty _ := rfl
  length_le m hm := by simp at hm
  length_mem h := absurd rfl h

end WebRtc.Rtp.Fec
