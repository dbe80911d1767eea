import WebRtc.Rtp.FecInvariants

/-! Renumbering the streams of the FEC decoder: one constant is added to all media numbers, another
one to the numbers of the FEC packets. The decoder commutes with this as long as its comparisons
come out the same: the order of the numbers, the age of the oldest FEC packet and the distance that
leads to a reset. -/

namespace WebRtc.Rtp.Fec

open BigEndian List ReceivedFecPacket

variable {c : BitVec 16} {l : List ReceivedFecPacket} {packet : RecoveredPacket}
  {f : ReceivedFecPacket} {d d' : Decoder} {scheme : FecScheme}
variable {received r : ReceivedPacket}

/-- What is added to the media numbers and to the numbers of the FEC packets. -/
structure Renumbering where
  media : BitVec 16
  fec : BitVec 16

/-- The number of an RTP packet and the base of a ULPFEC header stand at the same place. -/
def Packet.renumber (c : BitVec 16) (p : Packet) : Packet := p.write16 2 (p.read16 2 + c)

def ReceivedPacket.renumber (n : Renumbering) (r : ReceivedPacket) : ReceivedPacket :=
  { r with
    seqNum := r.seqNum + if r.isFec then n.fec else n.media
    pkt := r.pkt.renumber n.media }

def RecoveredPacket.renumber (c : BitVec 16) (r : RecoveredPacket) : RecoveredPacket :=
  { r with seqNum := r.seqNum + c, pkt := r.pkt.renumber c }

def ProtectedPacket.renumber (c : BitVec 16) (q : ProtectedPacket) : ProtectedPacket :=
  ⟨q.seqNum + c, q.pkt.map (Packet.renumber c)⟩

/-- A FEC packet whose header has been read, so that the base is gone from its bytes. -/
def ReceivedFecPacket.renumber (n : Renumbering) (f : ReceivedFecPacket) : ReceivedFecPacket :=
  { f with
    seqNum := f.seqNum + n.fec
    seqNumBase := f.seqNumBase + n.media
    protectedPackets := f.protectedPackets.map (ProtectedPacket.renumber n.media) }

def Decoder.renumber (n : Renumbering) (d : Decoder) : Decoder where
  receivedFecPackets := d.receivedFecPackets.map (ReceivedFecPacket.renumber n)
  recoveredPackets := d.recoveredPackets.map (RecoveredPacket.renumber n.media)

variable {n : Renumbering} {media fec : List (BitVec 16)}

/-! ## Packets -/

theorem byteAt_renumber (c : BitVec 16) (p : Packet) {i : Nat} (hi : i < 2 ∨ 4 ≤ i) :
    (p.renumber c).byteAt i = p.byteAt i :=
  Packet.byteAt_write16_outside (by omega)

theorem read16_renumber (c : BitVec 16) (p : Packet) : (p.renumber c).read16 2 = p.read16 2 + c :=
  Packet.read16_write16 (by decide)

@[simp] theorem renumber_zero (p : Packet) : p.renumber 0#16 = p := by
  refine Packet.ext_byteAt rfl fun i hi => ?_
  rw [Packet.renumber, BitVec.add_zero, Packet.byteAt_write16 hi]
  split
  · next h => rw [Packet.read16, lo16_be16, h]
  split
  · next h => rw [Packet.read16, hi16_be16, h]
  · rfl

theorem xorHeaders_renumber (c : BitVec 16) (src dst : Packet) :
    xorHeaders (src.renumber c) dst = xorHeaders src dst := by
  refine Packet.ext_byteAt rfl fun i hi => ?_
  rw [xorHeaders, xorHeaders, Packet.byteAt_withBytes hi, Packet.byteAt_withBytes hi]
  split
  · rw [byteAt_renumber _ _ (by omega)]
  · rfl

theorem xorPayloadsFrom_renumber (c : BitVec 16) (src : Packet) (dstOffset n i : Nat)
    (dst : Packet) :
    xorPayloadsFrom (src.renumber c) dstOffset n i dst = xorPayloadsFrom src dstOffset n i dst := by
  induction n generalizing i dst with
  | zero => rfl
  | succ n ih =>
    rw [xorPayloadsFrom, xorPayloadsFrom, byteAt_renumber, ih]
    exact .inr (by simp only [kRtpHeaderSize]; omega)

/-! ## Order -/

/-- Adding `c` keeps the order of the numbers in `s`. It can only change for numbers that are
half the range apart. -/
def OrderKept (c : BitVec 16) (s : List (BitVec 16)) : Prop :=
  ∀ x ∈ s, ∀ y ∈ s, lessThan (x + c) (y + c) = lessThan x y

theorem OrderKept.mono {s t : List (BitVec 16)} (h : OrderKept c s) (hsub : t ⊆ s) : OrderKept c t :=
  fun x hx y hy => h x (hsub hx) y (hsub hy)

instance (c : BitVec 16) (s : List (BitVec 16)) : Decidable (OrderKept c s) :=
  decidable_of_iff (s.all fun x => s.all fun y => lessThan (x + c) (y + c) == lessThan x y)
    (by simp [OrderKept])

theorem sortBySeqNum_renumber {α : Type} (seqNum : α → BitVec 16) (g : α → α)
    (hg : ∀ a, seqNum (g a) = seqNum a + c) {l : List α} (h : OrderKept c (l.map seqNum)) :
    sortBySeqNum seqNum (l.map g) = (sortBySeqNum seqNum l).map g := by
  symm
  refine map_insertionSort _ _ _ _ fun a ha b hb => ?_
  rw [hg, hg, h _ (mem_map_of_mem hb) _ (mem_map_of_mem ha)]

theorem lowerBoundFrom_renumber {l : List (BitVec 16)} {value : BitVec 16}
    (h : OrderKept c (value :: l)) (fuel first len : Nat) (hlen : first + len ≤ l.length) :
    lowerBoundFrom (l.map (· + c)) (value + c) fuel first len =
      lowerBoundFrom l value fuel first len := by
  induction fuel generalizing first len with
  | zero => rfl
  | succ fuel ih =>
    rw [lowerBoundFrom, lowerBoundFrom]
    split
    · rfl
    have hi : first + len / 2 < l.length := by omega
    have hread : (l.map (· + c)).getD (first + len / 2) 0 = l.getD (first + len / 2) 0 + c := by
      simp [getD, hi]
    have hmem : l.getD (first + len / 2) 0 ∈ value :: l := by
      simp [getD, hi]
    rw [hread, h _ hmem _ (.head _), ih _ _ (by omega), ih _ _ (by omega)]

theorem lowerBound_renumber {l : List (BitVec 16)} {value : BitVec 16}
    (h : OrderKept c (value :: l)) :
    lowerBound (l.map (· + c)) (value + c) = lowerBound l value := by
  rw [lowerBound, lowerBound, length_map]
  exact lowerBoundFrom_renumber h _ _ _ (by omega)

/-! ## Numbers -/

/-- The media numbers that the decoder knows. -/
def Decoder.mediaNumbers (d : Decoder) : List (BitVec 16) :=
  d.recoveredPackets.map (·.seqNum) ++ d.receivedFecPackets.flatMap (·.protectedNumbers)

def Decoder.fecNumbers (d : Decoder) : List (BitVec 16) := d.receivedFecPackets.map (·.seqNum)

/-- The media numbers that come with a received packet. -/
def ReceivedPacket.mediaNumbers (scheme : FecScheme) (r : ReceivedPacket) : List (BitVec 16) :=
  if r.isFec then
    match readFecHeader scheme (.unread r.seqNum r.ssrc r.pkt) with
    | none => []
    | some f => (parseProtectedPackets f).map (·.seqNum)
  else [r.seqNum]

def ReceivedPacket.fecNumbers (r : ReceivedPacket) : List (BitVec 16) :=
  if r.isFec then [r.seqNum] else []

/-- All numbers of the decoder are among the given ones. -/
abbrev Within (media fec : List (BitVec 16)) (d : Decoder) : Prop :=
  d.All (fun f => f.protectedNumbers ⊆ media ∧ f.seqNum ∈ fec) (·.seqNum ∈ media)

theorem within_self (hm : d.mediaNumbers ⊆ media) (hf : d.fecNumbers ⊆ fec) : Within media fec d where
  recovered _ hr := hm (mem_append_left _ (mem_map_of_mem hr))
  fecPackets f hf' :=
    ⟨fun _ hx => hm (mem_append_right _ (mem_flatMap.mpr ⟨f, hf', hx⟩)), hf (mem_map_of_mem hf')⟩

theorem recoverable_within (media fec : List (BitVec 16)) :
    Recoverable (fun f => f.protectedNumbers ⊆ media ∧ f.seqNum ∈ fec) (·.seqNum ∈ media) where
  link packet f _ hf := by
    rw [protectedNumbers_updateCovering]
    exact hf
  recover f r hf hone hr := hf.1 (missing_subset f (recoverPacket_missing hone hr))

/-! ## Media packets -/

theorem updateCovering_renumber (h : OrderKept n.media (packet.seqNum :: f.protectedNumbers)) :
    updateCovering (packet.renumber n.media) (f.renumber n) =
      (updateCovering packet f).renumber n := by
  have hnumbers : (f.renumber n).protectedPackets.map (·.seqNum) =
      f.protectedNumbers.map (· + n.media) := by
    simp [renumber, protectedNumbers, ProtectedPacket.renumber]
  have hbound : lowerBound ((f.renumber n).protectedPackets.map (·.seqNum))
      (packet.renumber n.media).seqNum = lowerBound f.protectedNumbers packet.seqNum := by
    rw [hnumbers]
    exact lowerBound_renumber h
  simp only [updateCovering, hbound]
  simp only [renumber, mk.injEq, true_and, and_true]
  refine (map_modify_comm (fun q => ?_) _ _).symm
  simp only [ProtectedPacket.renumber, RecoveredPacket.renumber, BitVec.add_left_inj]
  split
  · simp
  · rfl

theorem map_updateCovering_renumber (h : OrderKept n.media media) (hp : packet.seqNum ∈ media)
    (hl : ∀ f ∈ l, f.protectedNumbers ⊆ media) :
    (l.map (·.renumber n)).map (updateCovering (packet.renumber n.media)) =
      (l.map (updateCovering packet)).map (·.renumber n) := by
  rw [map_map, map_map]
  exact map_congr_left fun f hf =>
    updateCovering_renumber (h.mono (cons_subset.mpr ⟨hp, hl f hf⟩))

/-- Adding a packet to the recovered ones, as received media packets and recovered packets are. -/
theorem addRecovered_renumber (l : List RecoveredPacket) (packet : RecoveredPacket)
    (h : OrderKept n.media (packet.seqNum :: l.map (·.seqNum))) :
    sortBySeqNum (·.seqNum) (l.map (·.renumber n.media) ++ [packet.renumber n.media]) =
      (sortBySeqNum (·.seqNum) (l ++ [packet])).map (·.renumber n.media) := by
  have hsort := sortBySeqNum_renumber RecoveredPacket.seqNum (RecoveredPacket.renumber n.media)
    (fun _ => rfl) (l := l ++ [packet]) (h.mono (by simp))
  rw [map_append] at hsort
  exact hsort

theorem insertMediaPacket_renumber (h : Within media fec d) (hkept : OrderKept n.media media)
    (hmedia : received.isFec = false) (hr : received.seqNum ∈ media) :
    insertMediaPacket (d.renumber n) (received.renumber n) =
      (insertMediaPacket d received).renumber n := by
  have hnumber : (received.renumber n).seqNum = received.seqNum + n.media := by
    simp [ReceivedPacket.renumber, hmedia]
  have hany : ((d.renumber n).recoveredPackets.any fun r =>
      (received.renumber n).seqNum = r.seqNum) =
      d.recoveredPackets.any fun r => received.seqNum = r.seqNum := by
    rw [hnumber]
    simp [Decoder.renumber, RecoveredPacket.renumber, Function.comp_def]
  have hpacket : (⟨(received.renumber n).seqNum, false, true, (received.renumber n).pkt⟩ :
      RecoveredPacket) =
      RecoveredPacket.renumber n.media ⟨received.seqNum, false, true, received.pkt⟩ := by
    rw [hnumber]
    rfl
  rw [insertMediaPacket, insertMediaPacket, hany]
  split
  · rfl
  simp only [hpacket, Decoder.renumber, Decoder.mk.injEq]
  exact ⟨map_updateCovering_renumber hkept hr fun f hf => (h.fecPackets f hf).1,
    addRecovered_renumber _ _ (hkept.mono (cons_subset.mpr ⟨hr, forall_mem_map.mpr h.recovered⟩))⟩

/-! ## FEC packets -/

theorem readUlpfecHeader_renumber (n : Renumbering) (seqNum : BitVec 16) (ssrc : BitVec 32)
    (p : Packet) : readUlpfecHeader (.unread (seqNum + n.fec) ssrc (p.renumber n.media)) =
      (readUlpfecHeader (.unread seqNum ssrc p)).map (·.renumber n) := by
  have hcopy : ((p.renumber n.media).copy 2 2 fun i => (p.renumber n.media).byteAt (8 + i)) =
      p.copy 2 2 fun i => p.byteAt (8 + i) := by
    refine Packet.ext_byteAt rfl fun i hi => ?_
    rw [Packet.byteAt_copy hi, Packet.byteAt_copy hi]
    split
    · exact byteAt_renumber _ _ (by omega)
    · exact byteAt_renumber _ _ (by omega)
  have hread : (p.renumber n.media).read16 10 = p.read16 10 :=
    Packet.read16_congr fun j _ _ => byteAt_renumber _ _ (by omega)
  simp [readUlpfecHeader, unread, renumber, hcopy, hread, read16_renumber, byteAt_renumber]

theorem map_ite_none {α β : Type} {p : Prop} [Decidable p] {f : α → β} {x : Option α}
    {y : Option β} (h : y = x.map f) : (if p then none else y) = (if p then none else x).map f := by
  split
  · rfl
  · exact h

theorem readFlexfecHeader_renumber (fec seqNum : BitVec 16) (ssrc : BitVec 32) (p : Packet) :
    readFlexfecHeader (.unread (seqNum + fec) ssrc p) =
      (readFlexfecHeader (.unread seqNum ssrc p)).map (·.renumber ⟨0, fec⟩) := by
  simp only [readFlexfecHeader, unread]
  refine map_ite_none (map_ite_none (map_ite_none (map_ite_none (map_ite_none ?_))))
  split
  · rfl
  · simp [renumber]

/-- FlexFEC is renumbered in its FEC packets only. -/
def Renumbering.Fits (n : Renumbering) : FecScheme → Prop
  | .ulpfec => True
  | .flexfec => n.media = 0

theorem readFecHeader_renumber (hn : n.Fits scheme) (seqNum : BitVec 16) (ssrc : BitVec 32)
    (p : Packet) : readFecHeader scheme (.unread (seqNum + n.fec) ssrc (p.renumber n.media)) =
      (readFecHeader scheme (.unread seqNum ssrc p)).map (·.renumber n) := by
  cases scheme with
  | ulpfec => exact readUlpfecHeader_renumber n seqNum ssrc p
  | flexfec =>
    obtain ⟨media, fec⟩ := n
    obtain rfl : media = 0 := hn
    rw [show p.renumber 0 = p from renumber_zero p]
    exact readFlexfecHeader_renumber fec seqNum ssrc p

theorem parseMaskByte_renumber (c base : BitVec 16) (byteIdx : Nat) (packetMask : BitVec 8) :
    parseMaskByte (base + c) byteIdx packetMask =
      (parseMaskByte base byteIdx packetMask).map (·.renumber c) := by
  rw [parseMaskByte, parseMaskByte, map_filterMap]
  refine filterMap_congr fun bitIdx _ => ?_
  split
  · simp only [ProtectedPacket.renumber, Option.map_some, Option.map_none, BitVec.add_assoc,
      BitVec.add_comm c]
  · rfl

theorem parseProtectedPackets_renumber (n : Renumbering) (f : ReceivedFecPacket) :
    parseProtectedPackets (f.renumber n) = (parseProtectedPackets f).map (·.renumber n.media) := by
  rw [parseProtectedPackets, parseProtectedPackets, map_flatMap]
  exact flatMap_congr fun byteIdx _ => parseMaskByte_renumber _ _ _ _

theorem assignFrom_renumber (qs : List ProtectedPacket) (rs : List RecoveredPacket)
    (h : OrderKept c (qs.map (·.seqNum) ++ rs.map (·.seqNum))) :
    assignFrom (qs.map (·.renumber c)) (rs.map (·.renumber c)) =
      (assignFrom qs rs).map (·.renumber c) := by
  induction qs generalizing rs with
  | nil => rfl
  | cons q qs ihq =>
    simp only [map_cons, assignFrom]
    induction rs with
    | nil => rfl
    | cons r rs ihr =>
      have hqr : lessThan (q.seqNum + c) (r.seqNum + c) = lessThan q.seqNum r.seqNum :=
        h _ (by simp) _ (by simp)
      have hrq : lessThan (r.seqNum + c) (q.seqNum + c) = lessThan r.seqNum q.seqNum :=
        h _ (by simp) _ (by simp)
      simp only [map_cons, assignFrom.walk]
      have hq : (q.renumber c).seqNum = q.seqNum + c := rfl
      have hr : (r.renumber c).seqNum = r.seqNum + c := rfl
      rw [hq, hr, hqr, hrq]
      split
      · rw [map_cons, ← ihq (r :: rs) (h.mono (by simp)), map_cons]
      split
      · refine ihr (h.mono fun x hx => ?_)
        simp only [map_cons, mem_append, mem_cons] at hx ⊢
        tauto
      have hrest := ihq rs (h.mono fun x hx => by
        simp only [map_cons, mem_append, mem_cons] at hx ⊢
        tauto)
      rw [hrest, map_cons]
      rfl

theorem readFecHeader_seqNum {p : ReceivedFecPacket} (h : readFecHeader scheme p = some f) :
    f.seqNum = p.seqNum := by
  cases scheme with
  | ulpfec =>
    cases h
    rfl
  | flexfec =>
    simp only [readFecHeader, readFlexfecHeader] at h
    repeat' split at h
    all_goals cases h
    rfl

theorem stored_renumber (hkept : OrderKept n.media media) {recovered : List RecoveredPacket}
    (hrecovered : ∀ r ∈ recovered, r.seqNum ∈ media)
    (hf : (parseProtectedPackets f).map (·.seqNum) ⊆ media) :
    stored (recovered.map (·.renumber n.media)) (f.renumber n) =
      (stored recovered f).renumber n := by
  have hassign := assignFrom_renumber (parseProtectedPackets f) recovered (hkept.mono
    (append_subset.mpr ⟨hf, forall_mem_map.mpr hrecovered⟩))
  simp only [stored, assignRecoveredPackets, parseProtectedPackets_renumber, hassign]
  rfl

theorem storeFecPacket_renumber (hkept : OrderKept n.fec fec) (hl : ∀ g ∈ l, g.seqNum ∈ fec)
    (hf : f.seqNum ∈ fec) : storeFecPacket (l.map (·.renumber n)) (f.renumber n) =
      (storeFecPacket l f).map (·.renumber n) := by
  have hall : (l ++ [f]).map seqNum ⊆ fec := by
    intro x hx
    obtain ⟨g, hg, rfl⟩ := mem_map.mp hx
    rcases mem_append.mp hg with hg | hg
    · exact hl g hg
    · rw [mem_singleton.mp hg]
      exact hf
  have hsort := sortBySeqNum_renumber seqNum (renumber n)
    (fun _ => rfl) (hkept.mono hall)
  rw [map_append, map_singleton] at hsort
  simp only [storeFecPacket, hsort, length_map]
  split
  · exact map_tail.symm
  · rfl

theorem insertFecPacket_renumber (hn : n.Fits scheme) (h : Within media fec d)
    (hmedia : OrderKept n.media media) (hfec : OrderKept n.fec fec)
    (hisFec : received.isFec) (hm : received.mediaNumbers scheme ⊆ media)
    (hf : received.seqNum ∈ fec) : insertFecPacket scheme (d.renumber n) (received.renumber n) =
      (insertFecPacket scheme d received).renumber n := by
  have hnumber : (received.renumber n).seqNum = received.seqNum + n.fec := by
    simp [ReceivedPacket.renumber, hisFec]
  have hany : ((d.renumber n).receivedFecPackets.any fun f =>
      (received.renumber n).seqNum = f.seqNum) =
      d.receivedFecPackets.any fun f => received.seqNum = f.seqNum := by
    rw [hnumber]
    simp [Decoder.renumber, renumber, Function.comp_def]
  have hread : readFecHeader scheme (.unread (received.renumber n).seqNum
      (received.renumber n).ssrc (received.renumber n).pkt) =
      (readFecHeader scheme (.unread received.seqNum received.ssrc received.pkt)).map
        (·.renumber n) := by
    rw [hnumber]
    exact readFecHeader_renumber hn _ _ _
  rw [insertFecPacket_eq, insertFecPacket_eq, hany, hread]
  split
  · rfl
  cases hheader : readFecHeader scheme
    (.unread received.seqNum received.ssrc received.pkt) with
  | none => rfl
  | some f =>
    have hprotected : (parseProtectedPackets f).map (·.seqNum) ⊆ media := by
      simpa [ReceivedPacket.mediaNumbers, hisFec, hheader] using hm
    simp only [Option.map_some, parseProtectedPackets_renumber, isEmpty_map]
    split
    · rfl
    have hstored := stored_renumber hmedia h.recovered hprotected
    have hseq : (stored d.recoveredPackets f).seqNum ∈ fec :=
      (readFecHeader_seqNum hheader).symm ▸ hf
    simp only [Decoder.renumber, Decoder.mk.injEq, and_true]
    rw [← storeFecPacket_renumber hfec (fun g hg => (h.fecPackets g hg).2) hseq, ← hstored]

/-! ## Inserting -/

/-- The test for an old FEC packet comes out the same after a renumbering. -/
def AgeKept (n : Renumbering) (d : Decoder) (received : ReceivedPacket) : Prop :=
  ∀ f ∈ d.receivedFecPackets.head?,
    (0x3fff < seqNumDiff (received.renumber n).seqNum (f.renumber n).seqNum ↔
      0x3fff < seqNumDiff received.seqNum f.seqNum)

theorem dropOldFec_renumber (h : AgeKept n d received) :
    dropOldFec (d.renumber n) (received.renumber n) = (dropOldFec d received).renumber n := by
  obtain ⟨fecPackets, _⟩ := d
  cases fecPackets with
  | nil => rfl
  | cons f _ =>
    have hage := h f rfl
    simp only [dropOldFec, Decoder.renumber, map_cons, gt_iff_lt, hage]
    split <;> rfl

/-- The numbers of a received packet are among the given ones. -/
structure ReceivedPacket.Within (scheme : FecScheme) (media fec : List (BitVec 16))
    (r : ReceivedPacket) : Prop where
  media : r.mediaNumbers scheme ⊆ media
  fec : r.fecNumbers ⊆ fec

theorem ReceivedPacket.Within.fec_mem (h : r.Within scheme media fec)
    (hisFec : r.isFec) : r.seqNum ∈ fec :=
  h.fec (by simp [ReceivedPacket.fecNumbers, hisFec])

theorem ReceivedPacket.Within.media_mem (h : r.Within scheme media fec)
    (hisFec : r.isFec = false) : r.seqNum ∈ media :=
  h.media (by simp [ReceivedPacket.mediaNumbers, hisFec])

theorem insertPacket_renumber (hn : n.Fits scheme) (h : Within media fec d)
    (hmedia : OrderKept n.media media) (hfec : OrderKept n.fec fec)
    (hr : received.Within scheme media fec) (hage : AgeKept n d received) :
    insertPacket scheme (d.renumber n) (received.renumber n) =
      (insertPacket scheme d received).renumber n := by
  have hold := h.dropOldFec received
  have hkind : (received.renumber n).isFec = received.isFec := rfl
  rw [insertPacket_eq, insertPacket_eq, dropOldFec_renumber hage, hkind]
  cases hisFec : received.isFec with
  | true => exact insertFecPacket_renumber hn hold hmedia hfec hisFec hr.media (hr.fec_mem hisFec)
  | false => exact insertMediaPacket_renumber hold hmedia hisFec (hr.media_mem hisFec)

theorem ReceivedPacket.Within.brings (h : r.Within scheme media fec) :
    r.Brings scheme (fun f => f.protectedNumbers ⊆ media ∧ f.seqNum ∈ fec) (·.seqNum ∈ media) where
  media := h.media_mem
  fec hisFec f hread recovered _ := by
    rw [protectedNumbers, stored, assignRecoveredPackets, assignFrom_seqNum]
    refine ⟨?_, (readFecHeader_seqNum hread).symm ▸ h.fec_mem hisFec⟩
    simpa [ReceivedPacket.mediaNumbers, hisFec, hread] using h.media

theorem within_insertPacket (h : Within media fec d)
    (hr : received.Within scheme media fec) : Within media fec (insertPacket scheme d received) :=
  h.insertPacket (recoverable_within media fec) hr.brings

/-- The test holds for each packet at its turn. -/
def AgesKept (scheme : FecScheme) (n : Renumbering) : List ReceivedPacket → Decoder → Prop
  | [], _ => True
  | r :: rest, d => AgeKept n d r ∧ AgesKept scheme n rest (insertPacket scheme d r)

theorem insertPackets_renumber (hn : n.Fits scheme) (hmedia : OrderKept n.media media)
    (hfec : OrderKept n.fec fec) {received : List ReceivedPacket}
    (hr : ∀ r ∈ received, r.Within scheme media fec) (h : Within media fec d)
    (hages : AgesKept scheme n received d) :
    insertPackets scheme (received.map (·.renumber n)) (d.renumber n) =
      (insertPackets scheme received d).renumber n := by
  have hfold : (received.map (·.renumber n)).foldl (insertPacket scheme) (d.renumber n) =
      (received.foldl (insertPacket scheme) d).renumber n := by
    induction received generalizing d with
    | nil => rfl
    | cons r _ ih =>
      have hone := hr r (.head _)
      rw [map_cons, foldl_cons, foldl_cons, insertPacket_renumber hn h hmedia hfec hone hages.1]
      exact ih (fun r' hr' => hr r' (.tail _ hr')) (within_insertPacket h hone)
        hages.2
  rw [insertPackets, insertPackets, hfold]
  simp [Decoder.renumber, discardOldRecoveredPackets]

/-! ## Recovery -/

theorem xorProtectedPackets_renumber (c : BitVec 16) (qs : List ProtectedPacket) (s : BitVec 16)
    (p : Packet) : xorProtectedPackets (qs.map (·.renumber c)) (s + c) p =
      (xorProtectedPackets qs s p).map fun r => (r.1 + c, r.2) := by
  induction qs generalizing s p with
  | nil => rfl
  | cons q qs ih =>
    obtain ⟨seqNum, pkt⟩ := q
    cases pkt with
    | none => exact ih seqNum p
    | some m =>
      have hxor : xorPayloads (m.renumber c) (m.renumber c).length kRtpHeaderSize
          (xorHeaders (m.renumber c) p) =
          xorPayloads m m.length kRtpHeaderSize (xorHeaders m p) := by
        rw [xorHeaders_renumber]
        exact xorPayloadsFrom_renumber c m _ _ _ _
      simp only [map_cons, ProtectedPacket.renumber, Option.map_some, xorProtectedPackets, hxor]
      cases xorPayloads m m.length kRtpHeaderSize (xorHeaders m p) with
      | error e => rfl
      | ok p' => exact ih s p'

theorem renumber_write (q : Packet) (s c : BitVec 16) (ssrc : BitVec 32) :
    ((q.write16 2 s).write32 8 ssrc).renumber c = (q.write16 2 (s + c)).write32 8 ssrc := by
  have hread : ((q.write16 2 s).write32 8 ssrc).read16 2 = s := by
    rw [Packet.read16_congr fun j h1 h2 => Packet.byteAt_write32_outside (by omega)]
    exact Packet.read16_write16 (by decide)
  refine Packet.ext_byteAt rfl fun i hi => ?_
  rw [Packet.renumber, hread]
  simp only [Packet.write32, Packet.byteAt_write16 hi]
  split_ifs <;> first | rfl | omega

theorem finishPacketRecovery_renumber (n : Renumbering) (f : ReceivedFecPacket) (s : BitVec 16)
    (p : Packet) : finishPacketRecovery (f.renumber n) (s + n.media) p =
      (finishPacketRecovery f s p).map (Packet.renumber n.media) := by
  refine map_ite_none ?_
  rw [Option.map_some, renumber_write]
  rfl

theorem countP_isNone_renumber (c : BitVec 16) (qs : List ProtectedPacket) :
    (qs.map (·.renumber c)).countP (fun q => q.pkt.isNone) = qs.countP fun q => q.pkt.isNone := by
  rw [countP_map]
  congr 1
  funext q
  simp [ProtectedPacket.renumber]

theorem numCoveredPacketsMissing_renumber (n : Renumbering) (f : ReceivedFecPacket) :
    numCoveredPacketsMissing (f.renumber n) = numCoveredPacketsMissing f :=
  congrArg (min 2) (countP_isNone_renumber n.media f.protectedPackets)

theorem recoverPacket_renumber (n : Renumbering) (h : numCoveredPacketsMissing f = 1) :
    recoverPacket (f.renumber n) =
      (recoverPacket f).map (Option.map (RecoveredPacket.renumber n.media)) := by
  have hmissing : ∃ q ∈ (f.renumber n).protectedPackets, q.pkt = none :=
    exists_missing ((numCoveredPacketsMissing_renumber n f).trans h)
  have hstart : startPacketRecovery (f.renumber n) = startPacketRecovery f := rfl
  rw [recoverPacket, recoverPacket, hstart]
  cases startPacketRecovery f with
  | error e => rfl
  | ok started =>
    cases started with
    | none => rfl
    | some p =>
      dsimp only
      rw [xorProtectedPackets_start hmissing 0 (0 + n.media), renumber,
        xorProtectedPackets_renumber]
      cases xorProtectedPackets f.protectedPackets 0 p with
      | error e => rfl
      | ok r =>
        simp only [Except.map]
        have hfinish := finishPacketRecovery_renumber n f r.1 r.2
        rw [renumber] at hfinish
        rw [hfinish, Option.map_map, Option.map_map]
        rfl

def Scan.renumber (n : Renumbering) : Scan → Scan
  | .finished fecPackets => .finished (fecPackets.map (·.renumber n))
  | .recovered packet fecPackets =>
    .recovered (packet.renumber n.media) (fecPackets.map (·.renumber n))

theorem scan_renumber (n : Renumbering) (before rest : List ReceivedFecPacket) :
    scan (before.map (·.renumber n)) (rest.map (·.renumber n)) =
      (scan before rest).map (Scan.renumber n) := by
  induction rest generalizing before with
  | nil => rfl
  | cons f rest ih =>
    rw [map_cons, scan, scan, numCoveredPacketsMissing_renumber]
    split
    · exact ih before
    · next hone =>
      rw [recoverPacket_renumber n hone]
      cases recoverPacket f with
      | error e => rfl
      | ok r =>
        cases r with
        | none => exact ih before
        | some _ => simp [Except.map, Scan.renumber]
    · have := ih (before ++ [f])
      rw [map_append] at this
      exact this

theorem withRecovered_renumber (hmedia : OrderKept n.media media)
    {fecPackets : List ReceivedFecPacket}
    (h : Within media fec { d with receivedFecPackets := fecPackets }) (hp : packet.seqNum ∈ media) :
    withRecovered (d.renumber n) (packet.renumber n.media) (fecPackets.map (·.renumber n)) =
      (withRecovered d packet fecPackets).renumber n := by
  have hadd := addRecovered_renumber (n := n) d.recoveredPackets packet
    (hmedia.mono (cons_subset.mpr ⟨hp, forall_mem_map.mpr h.recovered⟩))
  have hcover := map_updateCovering_renumber hmedia hp fun f hf => (h.fecPackets f hf).1
  simp only [withRecovered, Decoder.renumber, hadd, hcover, discardOldRecoveredPackets,
    length_map, map_drop]

theorem attemptRecoveryFrom_renumber (hmedia : OrderKept n.media media) (fuel : Nat)
    (h : Within media fec d) : attemptRecoveryFrom fuel (d.renumber n) =
      (attemptRecoveryFrom fuel d).map (Decoder.renumber n) := by
  have hscan (d : Decoder) : scan [] (d.renumber n).receivedFecPackets =
      (scan [] d.receivedFecPackets).map (Scan.renumber n) := scan_renumber n [] _
  induction fuel generalizing d with
  | zero =>
    rw [attemptRecoveryFrom, attemptRecoveryFrom, hscan]
    cases scan [] d.receivedFecPackets with
    | error e => rfl
    | ok s => cases s <;> rfl
  | succ fuel ih =>
    rw [attemptRecoveryFrom, attemptRecoveryFrom, hscan]
    cases hres : scan [] d.receivedFecPackets with
    | error e => rfl
    | ok s =>
      cases s with
      | finished fecPackets => rfl
      | recovered packet fecPackets =>
        obtain ⟨⟨f, hf, hone, hrecover⟩, hsub, -⟩ := scan_recovered hres
        have hp : packet.seqNum ∈ media :=
          (h.fecPackets f hf).1 (missing_subset f (recoverPacket_missing hone hrecover))
        have hleft := h.sub hsub (List.Subset.refl d.recoveredPackets)
        have hnext := h.withRecovered (recoverable_within media fec) hres
        change attemptRecoveryFrom fuel (withRecovered (d.renumber n) (packet.renumber n.media)
          (fecPackets.map (·.renumber n))) =
          (attemptRecoveryFrom fuel (withRecovered d packet fecPackets)).map (Decoder.renumber n)
        rw [withRecovered_renumber hmedia hleft hp]
        exact ih hnext

theorem attemptRecovery_renumber (hmedia : OrderKept n.media media) (h : Within media fec d) :
    attemptRecovery (d.renumber n) = (attemptRecovery d).map (Decoder.renumber n) := by
  have hlength : (d.renumber n).receivedFecPackets.length = d.receivedFecPackets.length :=
    length_map _
  rw [attemptRecovery, attemptRecovery, hlength]
  exact attemptRecoveryFrom_renumber hmedia _ h

/-! ## Calls -/

/-- The test for a reset comes out the same after a renumbering. -/
def ResetKept (n : Renumbering) (received : List ReceivedPacket) (d : Decoder) : Prop :=
  d.recoveredPackets.length = kMaxMediaPackets →
    ∀ r ∈ received.head?, ∀ last ∈ d.recoveredPackets.getLast?,
      (kMaxMediaPackets < seqNumDiff (r.renumber n).seqNum (last.renumber n.media).seqNum ↔
        kMaxMediaPackets < seqNumDiff r.seqNum last.seqNum)

theorem resetIfFar_renumber {received : List ReceivedPacket} (h : ResetKept n received d) :
    resetIfFar (received.map (·.renumber n)) (d.renumber n) =
      (resetIfFar received d).map (Decoder.renumber n) := by
  have hlength : (d.renumber n).recoveredPackets.length = d.recoveredPackets.length :=
    length_map _
  have hlast : (d.renumber n).recoveredPackets.getLast? =
      d.recoveredPackets.getLast?.map (·.renumber n.media) := getLast?_map
  unfold resetIfFar
  rw [hlength, hlast]
  split
  · next hfull =>
    cases received with
    | nil => rfl
    | cons r _ =>
      cases hd : d.recoveredPackets.getLast? with
      | none => rfl
      | some last =>
        have htest := h hfull r rfl last hd
        simp only [map_cons, Option.map_some, gt_iff_lt, htest]
        split <;> rfl
  · rfl

/-- The comparisons that a call of `DecodeFec` makes come out the same after a renumbering. -/
structure TestsKept (scheme : FecScheme) (n : Renumbering) (received : List ReceivedPacket)
    (d : Decoder) : Prop where
  reset : ResetKept n received d
  media : OrderKept n.media (d.mediaNumbers ++ received.flatMap (·.mediaNumbers scheme))
  fec : OrderKept n.fec (d.fecNumbers ++ received.flatMap (·.fecNumbers))
  ages : ∀ d' ∈ (resetIfFar received d).toOption, AgesKept scheme n received d'

instance AgesKept.decidable : (received : List ReceivedPacket) → (d : Decoder) →
    Decidable (AgesKept scheme n received d)
  | [], _ => .isTrue trivial
  | r :: rest, d =>
    have := decidable rest (insertPacket scheme d r)
    inferInstanceAs (Decidable ((∀ f ∈ d.receivedFecPackets.head?, _) ∧ _))

instance (received : List ReceivedPacket) (d : Decoder) :
    Decidable (TestsKept scheme n received d) :=
  have : Decidable (ResetKept n received d) :=
    inferInstanceAs (Decidable (_ → ∀ r ∈ _, ∀ last ∈ _, _))
  decidable_of_iff (_ ∧ _ ∧ _ ∧ ∀ d' ∈ (resetIfFar received d).toOption, _)
    ⟨fun h => ⟨h.1, h.2.1, h.2.2.1, h.2.2.2⟩, fun h => ⟨h.reset, h.media, h.fec, h.ages⟩⟩

theorem decodeFec_renumber (hn : n.Fits scheme) {received : List ReceivedPacket}
    (h : TestsKept scheme n received d) :
    decodeFec scheme (received.map (·.renumber n)) (d.renumber n) =
      (decodeFec scheme received d).map (Decoder.renumber n) := by
  rw [decodeFec, decodeFec, resetIfFar_renumber h.reset]
  cases hreset : resetIfFar received d with
  | error e => rfl
  | ok d' =>
    have hages : AgesKept scheme n received d' := h.ages d' (by simp [hreset, Except.toOption])
    have hreceived : ∀ r ∈ received, r.Within scheme
        (d.mediaNumbers ++ received.flatMap (·.mediaNumbers scheme))
        (d.fecNumbers ++ received.flatMap (·.fecNumbers)) := by
      intro r hr
      exact ⟨fun x hx => mem_append_right _ (mem_flatMap.mpr ⟨r, hr, hx⟩),
        fun x hx => mem_append_right _ (mem_flatMap.mpr ⟨r, hr, hx⟩)⟩
    have hself : Within (d.mediaNumbers ++ received.flatMap (·.mediaNumbers scheme))
        (d.fecNumbers ++ received.flatMap (·.fecNumbers)) d :=
      within_self (subset_append_left _ _) (subset_append_left _ _)
    have hall := hself.resetIfFar hreset
    change attemptRecovery (insertPackets scheme (received.map (·.renumber n)) (d'.renumber n)) =
      (attemptRecovery (insertPackets scheme received d')).map (Decoder.renumber n)
    rw [insertPackets_renumber hn h.media h.fec hreceived hall hages]
    exact attemptRecovery_renumber h.media
      (hall.insertPackets (recoverable_within _ _) fun r hr => (hreceived r hr).brings)

end WebRtc.Rtp.Fec
