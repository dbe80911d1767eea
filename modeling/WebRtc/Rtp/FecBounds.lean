import WebRtc.Rtp.FecInvariants

/-! The byte accesses of the recovery, along runs of the decoder. The XOR of a payload runs over
as many bytes as the packet is long, from the end of the RTP header on: it stays in the arrays
when the packet leaves room for one more RTP header, and runs over their end otherwise. -/

namespace WebRtc.Rtp.Fec

open Transition List

variable {f : ReceivedFecPacket} {d : Decoder} {received : List ReceivedPacket} {scheme : FecScheme}

/-- A packet that the recovery may XOR as a payload of its whole length. -/
def Short (p : Packet) : Prop := p.length ≤ ipPacketSize - kRtpHeaderSize

/-- A FEC packet that can be used for a recovery. -/
structure Usable (f : ReceivedFecPacket) : Prop where
  headerSize : f.fecHeaderSize ≤ ipPacketSize
  present : ∀ q ∈ f.protectedPackets, ∀ m ∈ q.pkt, Short m

/-- The packets that the decoder keeps are short. -/
structure Bounded (d : Decoder) : Prop where
  fecPackets : ∀ f ∈ d.receivedFecPackets, Usable f
  recovered : ∀ r ∈ d.recoveredPackets, Short r.pkt

/-! ## One recovery -/

theorem startPacketRecovery_ok (h : f.fecHeaderSize ≤ ipPacketSize) :
    ∃ p, startPacketRecovery f = .ok p := by
  unfold startPacketRecovery
  split
  · exact ⟨_, rfl⟩
  dsimp only
  split
  · exact ⟨_, rfl⟩
  have h12 : kRtpHeaderSize ≤ ipPacketSize := by decide
  rw [Packet.memcpy_ok (by omega) (by omega)]
  exact ⟨_, rfl⟩

theorem xorProtectedPackets_total : ∀ (l : List ProtectedPacket) (s : BitVec 16) (p : Packet),
      (∀ q ∈ l, ∀ m ∈ q.pkt, Short m) → ∃ r, xorProtectedPackets l s p = .ok r := by
  intro l
  induction l with
  | nil => intro s p _; exact ⟨_, rfl⟩
  | cons q l ih =>
    intro s p hl
    have htail : ∀ q' ∈ l, ∀ m ∈ q'.pkt, Short m := fun q' hq' => hl q' (by simp [hq'])
    unfold xorProtectedPackets
    cases hq : q.pkt with
    | none => exact ih _ _ htail
    | some m =>
      have hm : Short m := hl q (by simp) m (by simp [hq])
      have h12 : kRtpHeaderSize ≤ ipPacketSize := by decide
      unfold Short at hm
      obtain ⟨p', hx, _⟩ := xorPayloads_ok m (xorHeaders m p)
        (show kRtpHeaderSize + m.length ≤ ipPacketSize by omega) (by omega)
      dsimp only
      rw [hx]
      exact ih s p' htail

theorem finishPacketRecovery_short {s : BitVec 16} {p q : Packet}
    (h : finishPacketRecovery f s p = some q) : Short q := by
  unfold finishPacketRecovery at h
  dsimp only at h
  split at h
  · cases h
  rename_i hlen
  cases h
  exact Nat.le_of_not_lt hlen

/-- A recovery from a usable FEC packet stays in the arrays, and what it recovers is short. -/
theorem recoverPacket_total (h : Usable f) :
    ∃ r, recoverPacket f = .ok r ∧ ∀ packet ∈ r, Short packet.pkt := by
  obtain ⟨start, hstart⟩ := startPacketRecovery_ok h.headerSize
  unfold recoverPacket
  rw [hstart]
  cases start with
  | none => exact ⟨none, rfl, fun _ hm => by simp at hm⟩
  | some p =>
    obtain ⟨⟨s, _⟩, hx⟩ := xorProtectedPackets_total f.protectedPackets 0 p h.present
    dsimp only
    rw [hx]
    refine ⟨_, rfl, fun packet hpacket => ?_⟩
    obtain ⟨q, hq, rfl⟩ := Option.map_eq_some_iff.1 hpacket
    exact finishPacketRecovery_short hq

/-! ## Inserting packets -/

theorem updateCovering_usable {packet : RecoveredPacket} (hp : Short packet.pkt) (h : Usable f) :
    Usable (updateCovering packet f) := by
  refine ⟨h.headerSize, fun q hq m hm => ?_⟩
  unfold updateCovering at hq
  obtain ⟨i, hi, rfl⟩ := getElem_of_mem hq
  rw [getElem_modify] at hm
  split at hm
  · split at hm
    · have : packet.pkt = m := by simpa using hm
      exact this ▸ hp
    · exact h.present _ (getElem_mem _) m hm
  · exact h.present _ (getElem_mem _) m hm

theorem assignFrom_short : ∀ (l : List ProtectedPacket) (rs : List RecoveredPacket),
    (∀ q ∈ l, ∀ m ∈ q.pkt, Short m) → (∀ r ∈ rs, Short r.pkt) →
    ∀ q ∈ assignFrom l rs, ∀ m ∈ q.pkt, Short m := by
  intro l
  induction l with
  | nil =>
    intro rs _ _ q hq
    simp [assignFrom] at hq
  | cons _ l ih =>
    intro rs hl hrs
    have htail : ∀ q ∈ l, ∀ m ∈ q.pkt, Short m := fun q hq => hl q (by simp [hq])
    unfold assignFrom
    -- the walk goes over the recovered packets
    induction rs with
    | nil => exact hl
    | cons r rs ihr =>
      have hrs' : ∀ r' ∈ rs, Short r'.pkt := fun r' hr' => hrs r' (by simp [hr'])
      intro q hq
      unfold assignFrom.walk at hq
      split at hq
      · rcases mem_cons.1 hq with rfl | hq
        · exact hl q (by simp)
        · exact ih (r :: rs) htail hrs q hq
      split at hq
      · exact ihr hrs' q hq
      rcases mem_cons.1 hq with rfl | hq
      · intro m hm
        have : r.pkt = m := by simpa using hm
        exact this ▸ hrs r (by simp)
      · exact ih rs htail hrs' q hq

theorem fecHeaderSize_le (scheme : FecScheme) (size : Nat) :
    fecHeaderSize scheme size ≤ ipPacketSize := by
  refine Nat.le_trans (fecHeaderSize_bounds scheme size).2 ?_
  cases scheme <;> decide

/-- A header that was read has one of the sizes of its format. -/
theorem readFecHeader_headerSize {p : ReceivedFecPacket} (h : readFecHeader scheme p = some f) :
    f.fecHeaderSize ≤ ipPacketSize := by
  cases scheme with
  | ulpfec =>
    have he : f = _ := (Option.some_inj.1 h).symm
    rw [he]
    exact fecHeaderSize_le .ulpfec _
  | flexfec =>
    change readFlexfecHeader p = some f at h
    unfold readFlexfecHeader at h
    repeat' split at h
    all_goals cases h
    exact fecHeaderSize_le .flexfec _

theorem parseProtectedPackets_none (f : ReceivedFecPacket) :
    ∀ q ∈ parseProtectedPackets f, q.pkt = none := by
  intro q hq
  obtain ⟨_, _, hq⟩ := mem_flatMap.1 hq
  obtain ⟨_, _, hb⟩ := mem_filterMap.1 hq
  split at hb
  · cases hb
    rfl
  · cases hb

theorem stored_usable {p : ReceivedFecPacket} (h : readFecHeader scheme p = some f)
    {recovered : List RecoveredPacket} (hr : ∀ r ∈ recovered, Short r.pkt) :
    Usable (stored recovered f) := by
  have hsize : f.fecHeaderSize ≤ ipPacketSize := readFecHeader_headerSize h
  refine ⟨hsize, assignFrom_short _ _ (fun q hq m hm => ?_) hr⟩
  rw [parseProtectedPackets_none f q hq] at hm
  cases hm

/-- The media packets among the received ones are short. -/
def MediaShort (received : List ReceivedPacket) : Prop :=
  ∀ r ∈ received, r.isFec = false → Short r.pkt

theorem bounded_iff : Bounded d ↔ d.All Usable fun r => Short r.pkt :=
  ⟨fun h => ⟨h.fecPackets, h.recovered⟩, fun h => ⟨h.fecPackets, h.recovered⟩⟩

theorem recoverable_usable : Recoverable Usable fun r => Short r.pkt where
  link _ _ := updateCovering_usable
  recover f r hf _ hr := by
    obtain ⟨_, hr', hshort⟩ := recoverPacket_total hf
    rw [hr] at hr'
    cases hr'
    exact hshort r rfl

theorem MediaShort.brings (scheme : FecScheme) (h : MediaShort received) :
    ∀ r ∈ received, r.Brings scheme Usable fun r => Short r.pkt :=
  fun r hr => ⟨h r hr, fun _ _ hread _ => stored_usable hread⟩

/-! ## The recovery loop -/

/-- A walk over usable FEC packets ends without a fault. -/
theorem scan_total (rest before : List ReceivedFecPacket) (h : ∀ f ∈ rest, Usable f) :
    ∃ result, scan before rest = .ok result := by
  induction rest generalizing before with
  | nil => exact ⟨_, rfl⟩
  | cons f rest ih =>
    have htail := ih (h := fun g hg => h g (.tail _ hg))
    rw [scan]
    split
    · exact htail before
    · obtain ⟨r, hr, -⟩ := recoverPacket_total (h f (.head _))
      rw [hr]
      cases r with
      | none => exact htail before
      | some _ => exact ⟨_, rfl⟩
    · exact htail _

/-- There are enough walks for all recoveries, and none of them faults. -/
theorem attemptRecoveryFrom_total (fuel : Nat) (h : Bounded d)
    (hfuel : d.receivedFecPackets.length ≤ fuel) : ∃ d', attemptRecoveryFrom fuel d = .ok d' := by
  induction fuel generalizing d with
  | zero =>
    have hnil : d.receivedFecPackets = [] := eq_nil_of_length_eq_zero (by omega)
    rw [attemptRecoveryFrom, hnil]
    exact ⟨_, rfl⟩
  | succ fuel ih =>
    obtain ⟨result, hscan⟩ := scan_total d.receivedFecPackets [] h.fecPackets
    rw [attemptRecoveryFrom, hscan]
    cases result with
    | finished fecPackets => exact ⟨_, rfl⟩
    | recovered _ fecPackets =>
      obtain ⟨-, -, hlt⟩ := scan_recovered hscan
      refine ih (bounded_iff.mpr ((bounded_iff.mp h).withRecovered recoverable_usable hscan)) ?_
      rw [length_nil] at hlt
      rw [length_map]
      omega

/-! ## Runs of the decoder -/

theorem resetIfFar_fault {e : Fault} (h : resetIfFar received d = .error e) : e = .emptyList := by
  unfold resetIfFar at h
  split at h
  · split at h
    · split at h <;> cases h
    · cases h
      rfl
  · cases h

/-- The received media packets leave room for one more RTP header. -/
def Call.MediaShort : Call → Prop
  | .decode received => Fec.MediaShort received
  | .returnRecovered => True

/-- **The recovery stays inside the arrays** in every run whose received media packets leave room
for one more RTP header. -/
theorem decodeFec_in_bounds (scheme : FecScheme) {d : Decoder}
    (hrun : Reaches (Guarded (fun _ call => call.MediaShort) (step scheme)) {} d)
    {received : List ReceivedPacket} (hreceived : MediaShort received) :
    decodeFec scheme received d ≠ .error .outOfBounds := by
  have hd := Decoder.All.of_reaches recoverable_usable (fun _ h => h) _
    (fun _ _ hok => MediaShort.brings scheme hok) hrun
  intro hfault
  unfold decodeFec at hfault
  split at hfault
  · rename_i e hreset
    have := resetIfFar_fault hreset
    subst this
    cases hfault
  rename_i _ hreset
  have hd₁ := (hd.resetIfFar hreset).insertPackets recoverable_usable (hreceived.brings scheme)
  obtain ⟨_, hd₂⟩ := attemptRecoveryFrom_total _ (bounded_iff.mpr hd₁) (Nat.le_refl _)
  unfold attemptRecovery at hfault
  rw [hd₂] at hfault
  cases hfault

/-- A ULPFEC packet that protects the sequence numbers 1 and 2. -/
def fecPacketForTwo : Packet :=
  ⟨14, fun i => if i.val = 3 then 1 else if i.val = 12 then 0xc0 else 0⟩

/-- The packet 1 is of the greatest length that is safe, and the packet 2 is lost. -/
theorem decodeFec_in_bounds_lost_packet : decodeFec .ulpfec
    [⟨1, 0, false, samplePacket 0x80 0x55 1 1488⟩, ⟨9, 0, true, fecPacketForTwo⟩] {} ≠
      .error .outOfBounds :=
  decodeFec_in_bounds .ulpfec .refl fun r hr hmedia => by
    rcases mem_cons.1 hr with rfl | hr
    · exact Nat.le_refl _
    · rw [mem_singleton.1 hr] at hmedia
      cases hmedia

/-! ## A longer packet -/

/-- The XOR of a present packet that is too long runs over the end of the array. -/
theorem recoverPacket_outOfBounds {p m : Packet} {s : BitVec 16} {rest : List ProtectedPacket}
    (hstart : startPacketRecovery f = .ok (some p))
    (hprot : f.protectedPackets = ⟨s, some m⟩ :: rest) (hm : ¬ Short m) :
    recoverPacket f = .error .outOfBounds := by
  have hxor : xorPayloads m m.length kRtpHeaderSize (xorHeaders m p) = .error .outOfBounds := by
    unfold Short at hm
    refine xorPayloadsFrom_error m kRtpHeaderSize _ 0 _ ?_ (.inl ?_)
    · omega
    · omega
  unfold recoverPacket
  rw [hstart, hprot]
  unfold xorProtectedPackets
  dsimp only
  rw [hxor]

/-- The packet 1 is 1489 bytes long and the packet 2 is lost. -/
theorem decodeFec_long_packet :
    (∀ r ∈ [⟨1, 0, false, samplePacket 0x80 0x55 1 1489⟩, ⟨9, 0, true, fecPacketForTwo⟩],
      (ReceivedPacket.pkt r).length ≤ ipPacketSize) ∧ decodeFec .ulpfec
      [⟨1, 0, false, samplePacket 0x80 0x55 1 1489⟩, ⟨9, 0, true, fecPacketForTwo⟩] {} =
      .error .outOfBounds := by
  refine ⟨by decide, ?_⟩
  obtain ⟨f, recovered, hins, hprot, p, hstart⟩ : ∃ f recovered, insertPackets .ulpfec
      [⟨1, 0, false, samplePacket 0x80 0x55 1 1489⟩, ⟨9, 0, true, fecPacketForTwo⟩] {} =
        ⟨[f], recovered⟩ ∧
      f.protectedPackets = [⟨1, some (samplePacket 0x80 0x55 1 1489)⟩, ⟨2, none⟩] ∧
      ∃ p, startPacketRecovery f = .ok (some p) := ⟨_, _, rfl, rfl, _, rfl⟩
  have hone : numCoveredPacketsMissing f = 1 := by
    unfold numCoveredPacketsMissing
    rw [hprot]
    rfl
  have hscan : scan [] [f] = .error .outOfBounds := by
    unfold scan
    rw [hone, recoverPacket_outOfBounds hstart hprot (by unfold Short; decide)]
    rfl
  change attemptRecovery (insertPackets _ _ _) = _
  rw [hins]
  unfold attemptRecovery attemptRecoveryFrom
  rw [hscan]

end WebRtc.Rtp.Fec
