import WebRtc.Rtp.RtpPacketParse

/-! Where `AllocateExtension` writes. It checks that the element fits, and then fills up to the
next word: the last word may end up to three bytes past the allocation. -/

namespace WebRtc.Rtp.RtpPacket

open BigEndian List

namespace Packet

variable (fresh : Nat → Byte) {p : Packet} {a : Allocation}

/-- The packet after a call, whatever it returned. -/
def allocate (p : Packet) (a : Allocation) : Packet :=
  ((p.allocateExtension fresh a.type a.length).map (·.2)).getD p

/-- The offsets `AllocateExtension` writes to, in its order: the extension bit and the profile, the
header of the element, the length in words, and the zeros behind the element. -/
def allocateWrites (p : Packet) (a : Allocation) : List Nat :=
  if p.appends a then
    let newExtensionsSize := p.extensionsSize + kOneByteHeaderSize + a.length
    (if p.extensionsSize = 0 then [0, p.extensionsOffset - 4, p.extensionsOffset - 3] else []) ++
      [p.extensionsOffset + p.extensionsSize, p.extensionsOffset - 2, p.extensionsOffset - 1] ++
      (List.range (4 * extensionsWords newExtensionsSize - newExtensionsSize)).map
        (p.extensionsOffset + newExtensionsSize + ·)
  else []

theorem allocate_cases (p : Packet) (a : Allocation) :
    (p.appends a ∧ ∃ idx, p.allocate fresh a = p.appendExtension fresh idx a.length) ∨
      (p.appends a = false ∧ p.allocate fresh a = p) := by
  unfold allocate allocateExtension appends
  cases p.extensionEntries.findIdx? (fun e => e.type = a.type) with
  | none => exact .inr ⟨rfl, rfl⟩
  | some idx =>
    cases he : p.extensionEntries[idx]? with
    | none => exact .inr (by simp [he])
    | some _ =>
      simp only [he]
      split_ifs with h1 h2 h3 h4 h5 <;>
        first
        | exact .inr ⟨decide_eq_false (by omega), rfl⟩
        | exact .inl ⟨decide_eq_true (by omega), idx, rfl⟩

/-- One call writes within the allocation exactly if its last word fits. -/
theorem allocateWrites_lt_iff (p : Packet) (a : Allocation) :
    (∀ i ∈ p.allocateWrites a, i < p.buffer.capacity) ↔ p.WordFits a := by
  have hk : kOneByteHeaderSize = 1 := rfl
  by_cases happ : p.appends a
  case neg => simp [allocateWrites, WordFits, happ]
  have hfit := fits_of_appends happ
  simp only [allocateWrites, WordFits, happ, if_true, mem_append, mem_map,
    mem_range, hk, true_imp_iff]
  constructor
  · intro hall
    by_contra hpast
    have hlast := hall _ (.inr ⟨4 * extensionsWords (p.extensionsSize + 1 + a.length) -
      (p.extensionsSize + 1 + a.length) - 1, by omega, rfl⟩)
    omega
  rintro hword i ((hi | hi) | ⟨j, hj, rfl⟩)
  · split_ifs at hi
    · simp only [mem_cons, not_mem_nil, or_false] at hi
      omega
    · cases hi
  · simp only [mem_cons, not_mem_nil, or_false] at hi
    omega
  · omega

/-- `SetSize` grows the allocation, so the payload never starts behind it. -/
theorem payloadOffset_le_allocate (h : p.payloadOffset ≤ p.buffer.capacity) (a : Allocation) :
    (p.allocate fresh a).payloadOffset ≤ (p.allocate fresh a).buffer.capacity := by
  obtain ⟨-, _, heq⟩ | ⟨-, heq⟩ := allocate_cases fresh p a <;> rw [heq]
  · exact Buffer.size_le_setSize fresh _ _
  · exact h

end Packet

/-- **Room for extensions.** Along a run of calls on a packet with any sources, every call writes
within the capacity, and leaves the payload there, exactly if the last word of each element that
is appended fits. -/
theorem allocations_in_buffer_iff (fresh : Nat → Byte) (p : Packet) (csrcs : List (BitVec 32))
    (calls : List Allocation) : (∀ before a after, calls = before ++ a :: after →
      let q := before.foldl (Packet.allocate fresh) ((p.clear fresh).setCsrcs fresh csrcs)
      (∀ i ∈ q.allocateWrites a, i < q.buffer.capacity) ∧
        (q.allocate fresh a).payloadOffset ≤ (q.allocate fresh a).buffer.capacity) ↔
    ∀ before a after, calls = before ++ a :: after →
      (before.foldl (Packet.allocate fresh) ((p.clear fresh).setCsrcs fresh csrcs)).WordFits a := by
  have hroom (before : List Allocation) (q : Packet) (h : q.payloadOffset ≤ q.buffer.capacity) :
      (before.foldl (Packet.allocate fresh) q).payloadOffset ≤
        (before.foldl (Packet.allocate fresh) q).buffer.capacity := by
    induction before generalizing q with
    | nil => exact h
    | cons a before ih => exact ih _ (Packet.payloadOffset_le_allocate fresh h a)
  have hstart : ((p.clear fresh).setCsrcs fresh csrcs).payloadOffset ≤
      ((p.clear fresh).setCsrcs fresh csrcs).buffer.capacity := Buffer.size_le_setSize fresh _ _
  refine forall_congr' fun before => forall_congr' fun a => forall_congr' fun after =>
    imp_congr_right fun _ => ?_
  rw [← Packet.allocateWrites_lt_iff]
  exact and_iff_left (Packet.payloadOffset_le_allocate fresh (hroom before _ hstart) a)

/-- In a buffer of nineteen bytes the transport sequence number fits with its header, and the zero
behind it does not. -/
theorem allocateWrites_nineteen :
    let q := ((newPacket 19).clear fun _ => 0#8).setCsrcs (fun _ => 0#8) []
    q.buffer.capacity = 19 ∧ 19 ∈ q.allocateWrites ⟨.transportSequenceNumber, 2, by decide⟩ := by
  decide +kernel

end WebRtc.Rtp.RtpPacket
