import WebRtc.Rtp.FecBounds

/-! `AttemptRecovery` as peeling. Each recovery takes away the FEC packet it used and links the
recovered packet in all others, so that no number is recovered twice; the loop ends when every FEC
packet that is left misses two packets. -/

namespace WebRtc.Rtp.Fec

open SequenceNumber List ReceivedFecPacket

variable {f : ReceivedFecPacket} {d : Decoder} {scheme : FecScheme}

/-! ## Finding a protected packet -/

/-- The protected packets of a FEC packet, in the order of their numbers. -/
def ReceivedFecPacket.Ordered (f : ReceivedFecPacket) : Prop :=
  f.protectedNumbers.Pairwise fun a b => lessThan a b = true

theorem lessThan_asymm {a b : BitVec 16} (h : lessThan a b) : lessThan b a = false := by
  rw [lessThan, isNewerSequenceNumber_eq_aheadOf] at h ⊢
  have hne : b ≠ a := by
    rintro rfl
    rw [aheadOf_irrefl] at h
    cases h
  rw [aheadOf_swap b a hne, h]
  rfl

theorem lessThan_irrefl (a : BitVec 16) : lessThan a a = false := by
  rw [lessThan, isNewerSequenceNumber_eq_aheadOf, aheadOf_irrefl]

/-- The binary search ends where the elements stop to be below the value. -/
theorem lowerBoundFrom_eq {l : List (BitVec 16)} {value : BitVec 16} {k : Nat}
    (hlow : ∀ i < k, lessThan (l.getD i 0) value)
    (hhigh : ∀ i, k ≤ i → i < l.length → lessThan (l.getD i 0) value = false)
    (fuel first len : Nat) (hfuel : len ≤ fuel) (hfirst : first ≤ k) (hk : k ≤ first + len)
    (hlen : first + len ≤ l.length) : lowerBoundFrom l value fuel first len = k := by
  induction fuel generalizing first len with
  | zero =>
    rw [lowerBoundFrom]
    omega
  | succ fuel ih =>
    rw [lowerBoundFrom]
    split
    · omega
    split
    · next hless =>
      refine ih _ _ (by omega) ?_ (by omega) (by omega)
      by_contra hno
      rw [hhigh _ (by omega) (by omega)] at hless
      cases hless
    rename_i hless
    refine ih _ _ (by omega) hfirst ?_ (by omega)
    by_contra hno
    exact hless (hlow _ (by omega))

theorem lowerBound_getElem {l : List (BitVec 16)}
    (h : l.Pairwise fun a b => lessThan a b) {i : Nat} (hi : i < l.length) :
    lowerBound l l[i] = i := by
  refine lowerBoundFrom_eq (fun j hj => ?_) (fun j hj hlen => ?_) _ _ _ (Nat.le_refl _)
    (Nat.zero_le _) (by omega) (by omega)
  · have hget : l.getD j 0 = l[j] := by simp [show j < l.length by omega]
    rw [hget]
    exact pairwise_iff_getElem.mp h j i (by omega) hi hj
  have hget : l.getD j 0 = l[j] := by simp [hlen]
  rw [hget]
  rcases Nat.eq_or_lt_of_le hj with rfl | hlt
  · exact lessThan_irrefl _
  · exact lessThan_asymm (pairwise_iff_getElem.mp h i j hi hlen hlt)

/-- A recovered packet is no longer missing anywhere. -/
theorem mem_missing_updateCovering (hf : f.Ordered) {packet : RecoveredPacket} {s : BitVec 16}
    (h : s ∈ (updateCovering packet f).missing) : s ∈ f.missing ∧ s ≠ packet.seqNum := by
  obtain ⟨q, hq, hnone, rfl⟩ := mem_missing.mp h
  obtain ⟨i, hi, rfl⟩ := getElem_of_mem hq
  simp only [updateCovering, length_modify] at hi
  simp only [updateCovering, getElem_modify] at hnone ⊢
  split at hnone
  · next hk =>
    split at hnone
    · cases hnone
    rename_i hne
    rw [if_pos hk, if_neg hne]
    exact ⟨mem_missing.mpr ⟨_, getElem_mem hi, hnone, rfl⟩, hne⟩
  · next hk =>
    rw [if_neg hk]
    refine ⟨mem_missing.mpr ⟨_, getElem_mem hi, hnone, rfl⟩, fun heq => hk ?_⟩
    -- the search for the number of this packet ends here
    have hfind := lowerBound_getElem hf (i := i) (by simpa [protectedNumbers])
    simpa [protectedNumbers, heq] using hfind

theorem ordered_updateCovering (hf : f.Ordered) (packet : RecoveredPacket) :
    (updateCovering packet f).Ordered := by
  rw [ReceivedFecPacket.Ordered, protectedNumbers_updateCovering]
  exact hf

/-! ## The packets that are added -/

/-- The packets that `AttemptRecovery` adds to the list of recovered packets, in order. -/
def recoveriesFrom : Nat → Decoder → List RecoveredPacket
  | 0, _ => []
  | fuel + 1, d =>
    match scan [] d.receivedFecPackets with
    | .ok (.recovered packet fecPackets) =>
      packet :: recoveriesFrom fuel (withRecovered d packet fecPackets)
    | _ => []

def recoveries (d : Decoder) : List RecoveredPacket := recoveriesFrom d.receivedFecPackets.length d

/-- The list of recovered packets after one recovery. -/
def addRecovered (l : List RecoveredPacket) (packet : RecoveredPacket) : List RecoveredPacket :=
  discardOldRecoveredPackets (sortBySeqNum (·.seqNum) (l ++ [packet]))

theorem ordered_withRecovered (h : ∀ f ∈ d.receivedFecPackets, f.Ordered) (packet : RecoveredPacket)
    {fecPackets : List ReceivedFecPacket} (hsub : fecPackets ⊆ d.receivedFecPackets) :
    ∀ f ∈ (withRecovered d packet fecPackets).receivedFecPackets, f.Ordered := by
  intro f hf
  obtain ⟨g, hg, rfl⟩ := mem_map.mp hf
  exact ordered_updateCovering (h g (hsub hg)) packet

/-- **Step lemma.** What is missing after a recovery was missing before, and is not the number that
was recovered. -/
theorem missing_withRecovered (h : ∀ f ∈ d.receivedFecPackets, f.Ordered) {packet : RecoveredPacket}
    {fecPackets : List ReceivedFecPacket} (hsub : fecPackets ⊆ d.receivedFecPackets) {s : BitVec 16}
    (hs : ∃ f ∈ (withRecovered d packet fecPackets).receivedFecPackets, s ∈ f.missing) :
    (∃ f ∈ d.receivedFecPackets, s ∈ f.missing) ∧ s ≠ packet.seqNum := by
  obtain ⟨f, hf, hmissing⟩ := hs
  obtain ⟨g, hg, rfl⟩ := mem_map.mp hf
  obtain ⟨hmem, hne⟩ := mem_missing_updateCovering (h g (hsub hg)) hmissing
  exact ⟨⟨g, hsub hg, hmem⟩, hne⟩

/-- **Run lemma.** The numbers that are added were missing at the start, and they are distinct. -/
theorem recoveriesFrom_spec (fuel : Nat) (h : ∀ f ∈ d.receivedFecPackets, f.Ordered) :
    ((recoveriesFrom fuel d).map (·.seqNum)).Nodup ∧
      ∀ packet ∈ recoveriesFrom fuel d, ∃ f ∈ d.receivedFecPackets, packet.seqNum ∈ f.missing := by
  induction fuel generalizing d with
  | zero => simp [recoveriesFrom]
  | succ fuel ih =>
    rw [recoveriesFrom]
    split
    · next packet _ hscan =>
      obtain ⟨⟨f, hf, hone, hrecover⟩, hsub, -⟩ := scan_recovered hscan
      obtain ⟨hnodup, hmissing⟩ := ih (ordered_withRecovered h packet hsub)
      have hlater := fun p hp => missing_withRecovered h hsub (hmissing p hp)
      constructor
      · rw [map_cons, nodup_cons]
        refine ⟨fun hmem => ?_, hnodup⟩
        obtain ⟨p, hp, heq⟩ := mem_map.mp hmem
        exact (hlater p hp).2 heq
      intro p hp
      rcases mem_cons.mp hp with rfl | hp
      · exact ⟨f, hf, recoverPacket_missing hone hrecover⟩
      · exact (hlater p hp).1
    · simp

/-- How the loop ends: it adds the packets of `recoveriesFrom` and leaves FEC packets with two
missing packets, unless a recovery accesses memory outside of a packet. -/
theorem attemptRecoveryFrom_cases (fuel : Nat) (hfuel : d.receivedFecPackets.length ≤ fuel) :
    (∃ d', attemptRecoveryFrom fuel d = .ok d' ∧
      d'.recoveredPackets = (recoveriesFrom fuel d).foldl addRecovered d.recoveredPackets ∧
      ∀ f ∈ d'.receivedFecPackets, 2 ≤ f.missing.length) ∨
    attemptRecoveryFrom fuel d = .error .outOfBounds := by
  induction fuel generalizing d with
  | zero =>
    have hnil : d.receivedFecPackets = [] := eq_nil_of_length_eq_zero (by omega)
    rw [attemptRecoveryFrom, hnil]
    exact .inl ⟨_, rfl, rfl, by simp⟩
  | succ fuel ih =>
    rw [attemptRecoveryFrom, recoveriesFrom]
    cases hscan : scan [] d.receivedFecPackets with
    | error e =>
      rw [scan_error hscan]
      exact .inr rfl
    | ok result =>
      cases result with
      | finished fecPackets =>
        refine .inl ⟨_, rfl, rfl, fun f hf => ?_⟩
        exact ((scan_finished hscan).2 f hf).resolve_left (by simp)
      | recovered packet fecPackets =>
        obtain ⟨-, -, hlt⟩ := scan_recovered hscan
        rw [length_nil] at hlt
        exact ih (d := withRecovered d packet fecPackets) (by simp [withRecovered]; omega)

/-! ## The loop -/

/-- **Peeling.** The loop ends. The packets it adds have distinct numbers, which were missing at the
start, and every FEC packet that is left misses two packets; only an access outside of a packet,
which needs a packet that is too long, stops it before. -/
theorem attemptRecovery_peels {d : Decoder} (h : ∀ f ∈ d.receivedFecPackets, f.Ordered) :
    ((recoveries d).map (·.seqNum)).Nodup ∧
      (∀ packet ∈ recoveries d, ∃ f ∈ d.receivedFecPackets, packet.seqNum ∈ f.missing) ∧
      ((∃ d', attemptRecovery d = .ok d' ∧
          d'.recoveredPackets = (recoveries d).foldl addRecovered d.recoveredPackets ∧
          ∀ f ∈ d'.receivedFecPackets, 2 ≤ f.missing.length) ∨
        (attemptRecovery d = .error .outOfBounds ∧ ¬ Bounded d)) := by
  obtain ⟨hnodup, hmissing⟩ := recoveriesFrom_spec d.receivedFecPackets.length h
  refine ⟨hnodup, hmissing, ?_⟩
  rcases attemptRecoveryFrom_cases d.receivedFecPackets.length (Nat.le_refl _) with hok | hfault
  · exact .inl hok
  refine .inr ⟨hfault, fun hb => ?_⟩
  obtain ⟨d', hd'⟩ := attemptRecoveryFrom_total _ hb (Nat.le_refl _)
  rw [hd'] at hfault
  cases hfault

/-- Two FEC packets that miss the same packet: it is recovered once, and none of them is left. -/
def coveredTwice : Decoder where
  receivedFecPackets :=
    [{ seqNum := 7, ssrc := 0, protectedPackets := [⟨1, none⟩], pkt := Packet.empty },
      { seqNum := 8, ssrc := 0, protectedPackets := [⟨1, none⟩], pkt := Packet.empty }]

theorem attemptRecovery_peels_coveredTwice :
    ((recoveries coveredTwice).map (·.seqNum)).Nodup ∧ recoveries coveredTwice ≠ [] ∧
      ∃ d', attemptRecovery coveredTwice = .ok d' ∧
        ∀ f ∈ d'.receivedFecPackets, 2 ≤ f.missing.length := by
  have hordered : ∀ f ∈ coveredTwice.receivedFecPackets, f.Ordered := by
    simp [coveredTwice, ReceivedFecPacket.Ordered, ReceivedFecPacket.protectedNumbers]
  have hbounded : Bounded coveredTwice :=
    ⟨fun f hf => ⟨by simp [coveredTwice] at hf; rcases hf with rfl | rfl <;> decide,
      by simp [coveredTwice] at hf; rcases hf with rfl | rfl <;> simp⟩, by simp [coveredTwice]⟩
  obtain ⟨hnodup, -, hok | ⟨-, hfault⟩⟩ := attemptRecovery_peels hordered
  · obtain ⟨d', hd', -, hleft⟩ := hok
    exact ⟨hnodup, by decide +kernel, d', hd', hleft⟩
  · exact absurd hbounded hfault

/-! ## The FEC packets that a run keeps -/

theorem ordered_of_mask (hsize : f.packetMaskSize ≤ 14) :
    ((parseProtectedPackets f).map (·.seqNum)).Pairwise fun a b => lessThan a b := by
  have hmask : ∀ i < f.packetMaskSize, f.pkt.byteAt (f.packetMaskOffset + i) =
      MaskRow.byte ((range 14).map fun i => f.pkt.byteAt (f.packetMaskOffset + i)) i := by
    intro i hi
    simp [MaskRow.byte, show i < 14 by omega]
  rw [parseProtectedPackets_seqNums hmask, pairwise_map]
  refine (pairwise_lt_range.filter _).imp_of_mem fun {a b} _ hb hab => ?_
  have hlt := mem_range.mp (mem_of_mem_filter hb)
  rw [lessThan, isNewerSequenceNumber_eq_aheadOf, aheadOf_iff]
  left
  bv_omega

theorem readFecHeader_maskSize {p : ReceivedFecPacket} (h : readFecHeader scheme p = some f) :
    f.packetMaskSize ≤ 14 := by
  cases scheme with
  | ulpfec =>
    cases h
    dsimp only
    split <;> decide
  | flexfec =>
    simp only [readFecHeader, readFlexfecHeader, unpackPacketMask] at h
    repeat' split at h
    all_goals cases h
    rename_i hmask
    repeat' split at hmask
    all_goals cases hmask
    all_goals simp

theorem stored_ordered {p : ReceivedFecPacket} (h : readFecHeader scheme p = some f)
    (recovered : List RecoveredPacket) : (stored recovered f).Ordered := by
  rw [ReceivedFecPacket.Ordered, protectedNumbers, stored, assignRecoveredPackets,
    assignFrom_seqNum]
  exact ordered_of_mask (readFecHeader_maskSize h)

theorem two_missing_of_decodeFec {received : List ReceivedPacket} {d' : Decoder}
    (h : decodeFec scheme received d = .ok d') :
    ∀ f ∈ d'.receivedFecPackets, 2 ≤ f.missing.length := by
  unfold decodeFec at h
  split at h
  · cases h
  · rcases attemptRecoveryFrom_cases _ (Nat.le_refl _) with ⟨_, hok, -, hleft⟩ | hfault
    · cases hok.symm.trans h
      exact hleft
    · cases hfault.symm.trans h

/-- In every run of the decoder a FEC packet that is kept has its numbers in order and misses two
packets or more. -/
theorem kept_of_reaches
    (hr : Transition.Reaches (Transition.Guarded (fun _ _ => True) (step scheme)) {} d) :
    ∀ f ∈ d.receivedFecPackets, f.Ordered ∧ 2 ≤ f.missing.length := by
  have htwo := hr.invariant (fun d => ∀ f ∈ d.receivedFecPackets, 2 ≤ f.missing.length) (by simp)
    fun _ call _ hu hs => by
      cases call with
      | decode => exact two_missing_of_decodeFec hs.2
      | returnRecovered =>
        cases hs.2
        exact hu
  refine fun f hf => ⟨(Decoder.All.of_reaches (P := (·.Ordered)) (Q := fun _ => True) ⟨?_, ?_⟩
    (fun _ h => h) _ (fun _ _ _ _ _ => ⟨fun _ => trivial, ?_⟩) hr).fecPackets f hf, htwo f hf⟩
  · exact fun packet _ _ hf => ordered_updateCovering hf packet
  · exact fun _ _ _ _ _ => trivial
  · exact fun _ _ hread recovered _ => stored_ordered hread recovered

theorem kept_of_reaches_two : ∃ d, decodeFec .ulpfec [⟨9, 0, true, fecPacketForTwo⟩] {} = .ok d ∧
    d.receivedFecPackets ≠ [] ∧ ∀ f ∈ d.receivedFecPackets, f.Ordered ∧ 2 ≤ f.missing.length :=
  ⟨_, rfl, by decide +kernel, @kept_of_reaches _ .ulpfec
    (.next (.decode [⟨9, 0, true, fecPacketForTwo⟩]) .refl ⟨trivial, rfl⟩)⟩

end WebRtc.Rtp.Fec
