import WebRtc.Rtp.FecMasks
import WebRtc.Rtp.FecXor

/-! The payload of a FEC packet: the parity of the media packets its row selects. -/

namespace WebRtc.Rtp.Fec

open Parity List

/-- What a media packet needs to go behind a header of `headerSize` bytes. -/
structure Fits (headerSize : Nat) (m : Packet) : Prop where
  padded : m.ZeroPadded
  length_ge : kRtpHeaderSize ≤ m.length
  length_le : headerSize + (m.length - kRtpHeaderSize) ≤ ipPacketSize
  length_le' : m.length ≤ ipPacketSize

theorem byteAt_write_header (m : Packet) {p : Packet} (hp : ∀ i, p.byteAt i = 0#8)
    {i : Nat} (hi : i < ipPacketSize) :
    (((p.copy 0 2 m.byteAt).write16 2 (payloadLengthField m)).copy 4 4
      fun i => m.byteAt (4 + i)).byteAt i = if i < 8 then contribution 8 m i else 0#8 := by
  rw [Packet.byteAt_copy hi, Packet.byteAt_write16 hi, Packet.byteAt_copy hi, hp]
  unfold contribution
  by_cases h4 : 4 ≤ i ∧ i < 4 + 4
  · rw [if_pos h4, if_pos (by omega), if_pos (by omega), Nat.add_sub_cancel' h4.1]
  rw [if_neg h4]
  by_cases h3 : i = 3
  · subst h3; rfl
  by_cases h2 : i = 2
  · subst h2; rfl
  by_cases h1 : i < 2
  · rw [if_neg h3, if_neg h2, if_pos (by omega), if_pos (by omega), if_pos (by omega), Nat.sub_zero]
  · rw [if_neg h3, if_neg h2, if_neg (by omega), if_neg (by omega)]

/-- The length that makes room for the payload of a media packet. -/
theorem length_grow (fecPacket : Packet) (n : Nat) :
    (if n > fecPacket.length then { fecPacket with length := n } else fecPacket).length =
      max n fecPacket.length := by
  split
  · exact (Nat.max_eq_left (Nat.le_of_lt ‹_›)).symm
  · exact (Nat.max_eq_right (Nat.le_of_not_lt ‹_›)).symm

theorem byteAt_grow (fecPacket : Packet) (n i : Nat) :
    (if n > fecPacket.length then { fecPacket with length := n } else fecPacket).byteAt i =
      fecPacket.byteAt i := by
  split <;> rfl

theorem Holds.append {hs : Nat} {l : List Packet} {m fecPacket fecPacket' : Packet} (h8 : 8 ≤ hs)
    (h : Holds hs l fecPacket)
    (hlen : fecPacket'.length = max (hs + (m.length - kRtpHeaderSize)) fecPacket.length)
    (hbytes : ∀ i < ipPacketSize,
      fecPacket'.byteAt i = fecPacket.byteAt i ^^^ contribution hs m i) :
    Holds hs (l ++ [m]) fecPacket' where
  bytes i hi := by
    rw [hbytes i hi, h.bytes i hi, parity_append, parity_cons, parity_nil, BitVec.xor_zero]
  length_empty he := by simp at he
  length_le m' hm' := by
    rw [hlen]
    rcases mem_append.1 hm' with hm' | hm'
    · exact Nat.le_trans (h.length_le m' hm') (Nat.le_max_right _ _)
    · rw [mem_singleton.1 hm']
      exact Nat.le_max_left _ _
  length_mem _ := by
    rcases Nat.le_total fecPacket.length (hs + (m.length - kRtpHeaderSize)) with hle | hle
    · exact ⟨m, by simp, by rw [hlen, Nat.max_eq_left hle]⟩
    have hne : l ≠ [] := fun he => by
      have := h.length_empty he
      omega
    obtain ⟨m', hm', he⟩ := h.length_mem hne
    exact ⟨m', by simp [hm'], by rw [hlen, Nat.max_eq_right hle, he]⟩

/-- Adding a media packet adds its contribution and makes room for its payload. -/
theorem addMediaPacket_ok {hs : Nat} {l : List Packet} {m fecPacket : Packet} (h8 : 8 ≤ hs)
    (h : Holds hs l fecPacket) (hm : Fits hs m) :
    ∃ fecPacket', addMediaPacket hs m fecPacket = .ok fecPacket' ∧
      Holds hs (l ++ [m]) fecPacket' := by
  have hge := hm.length_ge
  have hle := hm.length_le
  have hle' := hm.length_le'
  unfold addMediaPacket
  dsimp only
  split
  next hfirst =>
    have hl : l = [] := by
      by_contra hne
      obtain ⟨_, _, he⟩ := h.length_mem hne
      omega
    have hzero : ∀ i, fecPacket.byteAt i = 0#8 := by
      intro i
      rcases Nat.lt_or_ge i ipPacketSize with hi | hi
      · rw [h.bytes i hi, hl, parity_nil]
      · exact Packet.byteAt_of_le hi
    rw [Packet.memcpy_ok hle (by omega)]
    refine ⟨_, rfl, h.append h8 (length_grow _ _) fun i hi => ?_⟩
    rw [Packet.byteAt_copy hi,
      byteAt_write_header m (fun i => (byteAt_grow _ _ _).trans (hzero i)) hi, hzero,
      BitVec.zero_xor]
    rcases Nat.lt_or_ge i hs with hih | hih
    · rw [if_neg (by omega)]
      rcases Nat.lt_or_ge i 8 with hi8 | hi8
      · rw [if_pos hi8, contribution_header m hi8 (Nat.le_refl 8) h8]
      · rw [if_neg (by omega), contribution_gap m hi8 hih]
    rw [contribution_payload m (by omega) hih]
    split
    · rfl
    · rw [if_neg (by omega), hm.padded _ (by omega)]
  next hfirst =>
    obtain ⟨fecPacket', hx, hlen, hbytes⟩ := xor_ok
      (if hs + (m.length - kRtpHeaderSize) > fecPacket.length then
        { fecPacket with length := hs + (m.length - kRtpHeaderSize) } else fecPacket)
      hm.padded (show m.length ≤ kRtpHeaderSize + (m.length - kRtpHeaderSize) by omega) h8 hle
      (by omega)
    refine ⟨fecPacket', hx, h.append h8 (hlen.trans (length_grow _ _)) fun i hi => ?_⟩
    rw [hbytes i hi, byteAt_grow]

/-! ## The loop over the media packets -/

theorem MaskRow.bit_index (row : MaskRow) {a b : Nat} (hb : b < 8) :
    row.bit (8 * a + b) = (row.byte a).getMsbD b := by
  unfold MaskRow.bit
  rw [show (8 * a + b) / 8 = a by omega, show (8 * a + b) % 8 = b by omega]

/-- The media packets that a row selects, once its bits stand for sequence numbers. -/
def selected (base : BitVec 16) (row : MaskRow) (l : List Packet) : List Packet :=
  l.filter fun m => row.bit (offset base m)

/-- The index into the mask follows the sequence numbers. -/
theorem generateFecPayloadFrom_ok (base : BitVec 16) (row : MaskRow) {hs : Nat} (h8 : 8 ≤ hs) :
    ∀ (media : List Packet) (a b : Nat) (l : List Packet) (fecPacket : Packet),
      media.Pairwise (fun p q => offset base p < offset base q) → (∀ m ∈ media, Fits hs m) →
      b < 8 → (∀ m ∈ media.head?, offset base m = 8 * a + b) → Holds hs l fecPacket →
      ∃ fecPacket', generateFecPayloadFrom row hs a b media fecPacket = .ok fecPacket' ∧
        Holds hs (l ++ selected base row media) fecPacket' := by
  intro media
  induction media with
  | nil =>
    intro a b l fecPacket _ _ _ _ h
    exact ⟨fecPacket, rfl, by simpa [selected] using h⟩
  | cons m rest ih =>
    intro a b l fecPacket hsorted hfits hb hoff h
    have hm : offset base m = 8 * a + b := hoff m rfl
    rw [pairwise_cons] at hsorted
    obtain ⟨fecPacket₁, hadd, h₁⟩ : ∃ fecPacket₁,
        (if (row.byte a).getMsbD b then addMediaPacket hs m fecPacket else .ok fecPacket) =
          .ok fecPacket₁ ∧ Holds hs (l ++ selected base row [m]) fecPacket₁ := by
      rw [← row.bit_index hb, ← hm]
      by_cases hbit : row.bit (offset base m)
      · rw [if_pos hbit, show selected base row [m] = [m] by simp [selected, hbit]]
        exact addMediaPacket_ok h8 h (hfits m (by simp))
      · rw [if_neg hbit, show selected base row [m] = [] by simp [selected, hbit], append_nil]
        exact ⟨fecPacket, rfl, h⟩
    have hsel : l ++ selected base row (m :: rest) =
        (l ++ selected base row [m]) ++ selected base row rest := by
      unfold selected
      rw [append_assoc, ← filter_append]
      rfl
    rw [hsel]
    unfold generateFecPayloadFrom
    simp only [hadd]
    refine ih _ _ _ _ hsorted.2 (fun m' hm' => hfits m' (by simp [hm']))
      (Nat.mod_lt _ (by decide)) ?_ h₁
    intro m' hm'
    cases rest with
    | nil => simp at hm'
    | cons next rest =>
      have hnext := hsorted.1 next (by simp)
      have he : next = m' := by simpa using hm'
      subst he
      simp only [offset_sub hnext]
      omega

end WebRtc.Rtp.Fec
