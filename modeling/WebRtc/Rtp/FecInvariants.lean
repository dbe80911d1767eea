import WebRtc.Lib.Transition
import WebRtc.Rtp.FecScan

/-! Rules for invariants of the FEC decoder. A property of the stored FEC packets and one of the
recovered packets hold along every run when linking and recovering a packet keep them and the
received packets bring them along. -/

namespace WebRtc.Rtp.Fec

open Transition List

variable {l : List ReceivedFecPacket} {f : ReceivedFecPacket} {d d' : Decoder}
  {received : List ReceivedPacket} {scheme : FecScheme}

/-! ## What an insertion does -/

theorem mem_sortBySeqNum {α : Type} (seqNum : α → BitVec 16) (l : List α) (a : α) :
    a ∈ sortBySeqNum seqNum l ↔ a ∈ l :=
  mem_insertionSort _

/-- A FEC packet with its protected packets looked up, as it is stored. -/
def stored (recovered : List RecoveredPacket) (f : ReceivedFecPacket) : ReceivedFecPacket :=
  assignRecoveredPackets recovered { f with protectedPackets := parseProtectedPackets f }

/-- The stored FEC packets with one more. -/
def storeFecPacket (l : List ReceivedFecPacket) (f : ReceivedFecPacket) : List ReceivedFecPacket :=
  let fecPackets := sortBySeqNum (·.seqNum) (l ++ [f])
  if fecPackets.length > kMaxFecPackets then fecPackets.tail else fecPackets

theorem mem_storeFecPacket {g : ReceivedFecPacket} (h : g ∈ storeFecPacket l f) : g ∈ l ∨ g = f := by
  have hsort : g ∈ sortBySeqNum (·.seqNum) (l ++ [f]) := by
    simp only [storeFecPacket] at h
    split at h
    · exact mem_of_mem_tail h
    · exact h
  rw [mem_sortBySeqNum] at hsort
  simpa using hsort

theorem insertFecPacket_eq (scheme : FecScheme) (d : Decoder) (received : ReceivedPacket) :
    insertFecPacket scheme d received =
      if d.receivedFecPackets.any fun f => received.seqNum = f.seqNum then d
      else match readFecHeader scheme (.unread received.seqNum received.ssrc received.pkt) with
        | none => d | some f => if (parseProtectedPackets f).isEmpty then d else { d with
            receivedFecPackets :=
              storeFecPacket d.receivedFecPackets (stored d.recoveredPackets f) } :=
  rfl

/-- The decoder without its oldest FEC packet, where the packet is too old. -/
def dropOldFec (d : Decoder) (received : ReceivedPacket) : Decoder :=
  match d.receivedFecPackets with
  | [] => d
  | f :: fs =>
    if seqNumDiff received.seqNum f.seqNum > 0x3fff then { d with receivedFecPackets := fs } else d

theorem insertPacket_eq (scheme : FecScheme) (d : Decoder) (received : ReceivedPacket) :
    insertPacket scheme d received =
      if received.isFec then insertFecPacket scheme (dropOldFec d received) received
      else insertMediaPacket (dropOldFec d received) received := rfl

theorem resetIfFar_eq (h : resetIfFar received d = .ok d') : d' = d ∨ d' = {} := by
  unfold resetIfFar at h
  split at h
  · split at h
    · split at h
      · cases h
        exact .inr rfl
      · cases h
        exact .inl rfl
    · cases h
  · cases h
    exact .inl rfl

/-- What a user of the decoder does: it hands over received packets, and between two calls it
passes on the recovered packets it has not seen. -/
inductive Call
  | decode (received : List ReceivedPacket)
  | returnRecovered

def step (scheme : FecScheme) (d : Decoder) : Call → Decoder → Prop
  | .decode received, d' => decodeFec scheme received d = .ok d'
  | .returnRecovered, d' => d' = { d with
      recoveredPackets := d.recoveredPackets.map fun r => { r with returned := true } }

/-! ## The rules -/

/-- Every stored FEC packet has `P` and every recovered packet has `Q`. -/
structure Decoder.All (P : ReceivedFecPacket → Prop) (Q : RecoveredPacket → Prop) (d : Decoder) :
    Prop where
  fecPackets : ∀ f ∈ d.receivedFecPackets, P f
  recovered : ∀ r ∈ d.recoveredPackets, Q r

/-- Linking a recovered packet keeps `P`, and what a FEC packet with `P` recovers has `Q`. -/
structure Recoverable (P : ReceivedFecPacket → Prop) (Q : RecoveredPacket → Prop) : Prop where
  link : ∀ r f, Q r → P f → P (updateCovering r f)
  recover : ∀ f r, P f → numCoveredPacketsMissing f = 1 → recoverPacket f = .ok (some r) → Q r

/-- A received packet has `Q`, or it is a FEC packet that has `P` once it is stored. -/
structure ReceivedPacket.Brings (scheme : FecScheme) (P : ReceivedFecPacket → Prop)
    (Q : RecoveredPacket → Prop) (r : ReceivedPacket) : Prop where
  media : r.isFec = false → Q ⟨r.seqNum, false, true, r.pkt⟩
  fec : r.isFec = true → ∀ f, readFecHeader scheme (.unread r.seqNum r.ssrc r.pkt) = some f →
    ∀ recovered, (∀ r ∈ recovered, Q r) → P (stored recovered f)

variable {P : ReceivedFecPacket → Prop} {Q : RecoveredPacket → Prop}

theorem Decoder.all_empty : Decoder.All P Q {} := ⟨by simp, by simp⟩

theorem Decoder.All.sub (h : d.All P Q) (hl : l ⊆ d.receivedFecPackets) {rs : List RecoveredPacket}
    (hrs : rs ⊆ d.recoveredPackets) : Decoder.All P Q ⟨l, rs⟩ :=
  ⟨fun f hf => h.fecPackets f (hl hf), fun r hr => h.recovered r (hrs hr)⟩

variable (hPQ : Recoverable P Q)
include hPQ

theorem Decoder.All.addRecovered (h : d.All P Q) {packet : RecoveredPacket}
    (hp : Q packet) : Decoder.All P Q ⟨d.receivedFecPackets.map (updateCovering packet),
      sortBySeqNum (·.seqNum) (d.recoveredPackets ++ [packet])⟩ where
  fecPackets f hf := by
    obtain ⟨g, hg, rfl⟩ := mem_map.mp hf
    exact hPQ.link packet g hp (h.fecPackets g hg)
  recovered r hr := by
    rw [mem_sortBySeqNum] at hr
    rcases mem_append.mp hr with hr | hr
    · exact h.recovered r hr
    · rw [mem_singleton.mp hr]
      exact hp

omit hPQ in
theorem Decoder.All.dropOldFec (h : d.All P Q) (r : ReceivedPacket) :
    (Fec.dropOldFec d r).All P Q := by
  rw [Fec.dropOldFec]
  split
  · exact h
  rename_i f _ hfs
  split
  · exact h.sub (by simp [hfs]) (List.Subset.refl _)
  · exact h

omit hPQ in
theorem Decoder.All.insertFecPacket (h : d.All P Q) {r : ReceivedPacket}
    (hr : ∀ f, readFecHeader scheme (.unread r.seqNum r.ssrc r.pkt) = some f →
      ∀ recovered, (∀ r ∈ recovered, Q r) → P (stored recovered f)) :
    (Fec.insertFecPacket scheme d r).All P Q := by
  rw [insertFecPacket_eq]
  split
  · exact h
  split
  · exact h
  rename_i f hread
  split
  · exact h
  refine ⟨fun g hg => ?_, h.recovered⟩
  rcases mem_storeFecPacket hg with hg | rfl
  · exact h.fecPackets g hg
  · exact hr f hread _ h.recovered

/-- **Step lemma.** -/
theorem Decoder.All.insertPacket (h : d.All P Q) {r : ReceivedPacket}
    (hr : r.Brings scheme P Q) : (Fec.insertPacket scheme d r).All P Q := by
  have hold := h.dropOldFec r
  rw [insertPacket_eq]
  cases hisFec : r.isFec with
  | true => exact hold.insertFecPacket (hr.fec hisFec)
  | false =>
    show (insertMediaPacket _ r).All P Q
    rw [insertMediaPacket]
    split
    · exact hold
    · exact hold.addRecovered hPQ (hr.media hisFec)

theorem Decoder.All.insertPackets (h : d.All P Q)
    (hr : ∀ r ∈ received, r.Brings scheme P Q) : (Fec.insertPackets scheme received d).All P Q := by
  have hfold : (received.foldl (Fec.insertPacket scheme) d).All P Q := by
    induction received generalizing d with
    | nil => exact h
    | cons r _ ih =>
      exact ih (h.insertPacket hPQ (hr r (.head _)))
        fun r' hr' => hr r' (.tail _ hr')
  exact hfold.sub (List.Subset.refl _) (drop_subset _ _)

omit hPQ in
theorem Decoder.All.resetIfFar (h : d.All P Q) (hd' : Fec.resetIfFar received d = .ok d') :
    d'.All P Q := by
  rcases resetIfFar_eq hd' with rfl | rfl
  · exact h
  · exact Decoder.all_empty

omit hPQ in
/-- How one walk of the recovery goes on. -/
theorem attemptRecoveryFrom_ok {fuel : Nat} (h : attemptRecoveryFrom fuel d = .ok d') :
    (∃ fecPackets, scan [] d.receivedFecPackets = .ok (.finished fecPackets) ∧
      d' = { d with receivedFecPackets := fecPackets }) ∨
    ∃ packet fecPackets fuel', scan [] d.receivedFecPackets = .ok (.recovered packet fecPackets) ∧
      fuel = fuel' + 1 ∧
      attemptRecoveryFrom fuel' (withRecovered d packet fecPackets) = .ok d' := by
  cases fuel with
  | zero =>
    rw [attemptRecoveryFrom] at h
    split at h
    · cases h
    · next fecPackets hscan => exact .inl ⟨fecPackets, hscan, (Except.ok.inj h).symm⟩
    · cases h
  | succ fuel =>
    rw [attemptRecoveryFrom] at h
    split at h
    · cases h
    · next fecPackets hscan => exact .inl ⟨fecPackets, hscan, (Except.ok.inj h).symm⟩
    · next packet fecPackets hscan => exact .inr ⟨packet, fecPackets, fuel, hscan, rfl, h⟩

theorem Decoder.All.withRecovered (h : d.All P Q)
    {packet : RecoveredPacket} (hscan : scan [] d.receivedFecPackets = .ok (.recovered packet l)) :
    (Fec.withRecovered d packet l).All P Q := by
  obtain ⟨⟨f, hf, hone, hrecover⟩, hsub, -⟩ := scan_recovered hscan
  have hleft := h.sub hsub (List.Subset.refl d.recoveredPackets)
  exact (hleft.addRecovered hPQ (hPQ.recover f packet (h.fecPackets f hf) hone hrecover)).sub
    (List.Subset.refl _) (drop_subset _ _)

theorem Decoder.All.attemptRecoveryFrom {fuel : Nat} (h : d.All P Q)
    (hd' : Fec.attemptRecoveryFrom fuel d = .ok d') : d'.All P Q := by
  induction fuel generalizing d with
  | zero =>
    obtain ⟨l, hscan, rfl⟩ | ⟨_, _, _, _, hfuel, _⟩ := attemptRecoveryFrom_ok hd'
    · exact h.sub (scan_finished hscan).1 (List.Subset.refl _)
    · cases hfuel
  | succ fuel ih =>
    obtain ⟨l, hscan, rfl⟩ | ⟨_, l, _, hscan, hfuel, hnext⟩ := attemptRecoveryFrom_ok hd'
    · exact h.sub (scan_finished hscan).1 (List.Subset.refl _)
    · cases hfuel
      exact ih (h.withRecovered hPQ hscan) hnext

theorem Decoder.All.decodeFec (h : d.All P Q)
    (hr : ∀ r ∈ received, r.Brings scheme P Q) (hd' : Fec.decodeFec scheme received d = .ok d') :
    d'.All P Q := by
  rw [Fec.decodeFec] at hd'
  split at hd'
  · cases hd'
  · next hreset => exact ((h.resetIfFar hreset).insertPackets hPQ hr).attemptRecoveryFrom hPQ hd'

/-- **Run lemma.** -/
theorem Decoder.All.of_reaches (hreturned : ∀ r : RecoveredPacket, Q r → Q { r with returned := true })
    (ok : Decoder → Call → Prop)
    (hok : ∀ d received, ok d (.decode received) → ∀ r ∈ received, r.Brings scheme P Q)
    (hrun : Reaches (Guarded ok (step scheme)) {} d) : d.All P Q := by
  refine hrun.invariant (Decoder.All P Q) Decoder.all_empty fun d call d' h hs => ?_
  cases call with
  | decode received => exact h.decodeFec hPQ (hok d received hs.1) hs.2
  | returnRecovered =>
    obtain rfl : d' = _ := hs.2
    refine ⟨h.fecPackets, fun r hr => ?_⟩
    obtain ⟨r', hr', rfl⟩ := mem_map.mp hr
    exact hreturned r' (h.recovered r' hr')

end WebRtc.Rtp.Fec
