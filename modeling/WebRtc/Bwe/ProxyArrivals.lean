import WebRtc.Bwe.ProxyWindow

/-! Arrivals at `RemoteEstimatorProxy`: which ones keep the invariant. The exception is a packet
exactly half a turn ahead of the last one reported, where the 16-bit comparison of
`TransportFeedback` may take it for older. -/

namespace WebRtc.Bwe.RemoteEstimatorProxy

open SequenceNumber Rtcp OrderedMap List SequenceNumberUnwrapper

variable {s : RemoteEstimatorProxy} {arrivalTime seq : Int} {sequenceNumber : BitVec 16}

/-! ## The parts of an arrival -/

/-- `!(arrival_time < 0 || arrival_time > kMaxTimeMs)`. -/
def ValidTime (arrivalTime : Int) : Prop := 0 ≤ arrivalTime ∧ arrivalTime ≤ kMaxTimeMs

/-- The unwrapped number of an arriving packet. -/
def unwrapped (s : RemoteEstimatorProxy) (sequenceNumber : BitVec 16) : Int :=
  s.unwrapper.unwrapWithoutUpdate sequenceNumber

/-- The arrival times once the old ones are culled. -/
def culled (s : RemoteEstimatorProxy) (seq arrivalTime : Int) : List (Int × Int) :=
  if s.waiting.isEmpty then cull seq arrivalTime s.packetArrivalTimes else s.packetArrivalTimes

/-- The window start once a packet `seq` is in it. -/
def openedAt (s : RemoteEstimatorProxy) (seq : Int) : Int :=
  if s.windowStartSeq = -1 then seq else min seq s.windowStartSeq

theorem onPacketArrival_invalid (sequenceNumber : BitVec 16) (h : ¬ ValidTime arrivalTime) :
    s.onPacketArrival sequenceNumber arrivalTime = s := by
  unfold onPacketArrival
  rw [if_pos]
  unfold ValidTime at h
  omega

theorem onPacketArrival_skipped (h : ValidTime arrivalTime)
    (hseq : s.windowStartSeq + 32767 < s.unwrapped sequenceNumber) :
    s.onPacketArrival sequenceNumber arrivalTime =
      { s with unwrapper := ⟨s.unwrapped sequenceNumber⟩ } := by
  unfold onPacketArrival
  rw [if_neg (by unfold ValidTime at h; omega)]
  exact if_pos hseq

theorem onPacketArrival_accepted (hinv : Inv s) (h : ValidTime arrivalTime)
    (hseq : s.unwrapped sequenceNumber ≤ s.windowStartSeq + 32767) :
    s.onPacketArrival sequenceNumber arrivalTime = { s with
        unwrapper := ⟨s.unwrapped sequenceNumber⟩
        windowStartSeq := s.openedAt (s.unwrapped sequenceNumber)
        packetArrivalTimes := insertNew before (s.unwrapped sequenceNumber) arrivalTime
          (s.culled (s.unwrapped sequenceNumber) arrivalTime) } := by
  unfold onPacketArrival
  rw [if_neg (by unfold ValidTime at h; omega)]
  refine (if_neg (Int.not_lt.mpr hseq)).trans ?_
  have hstart : (if s.windowStartSeq = -1 then (sequenceNumber.toNat : Int)
      else if s.unwrapped sequenceNumber < s.windowStartSeq then s.unwrapped sequenceNumber
      else s.windowStartSeq) = s.openedAt (s.unwrapped sequenceNumber) := by
    unfold openedAt
    split
    · -- the number was accepted below half a turn, so it is its own unwrapped number
      next hW =>
      obtain ⟨hwrapped, hnonneg⟩ := unwrap_spec hinv.unwrapped sequenceNumber
      have hmod := toNat_wrapped (s.unwrapped sequenceNumber)
      unfold unwrapped at hmod hseq ⊢
      rw [hwrapped] at hmod
      omega
    · omega
  rw [← hstart]
  rfl

/-! ## Culling -/

theorem culled_split (s : RemoteEstimatorProxy) (seq arrivalTime : Int) :
    ∃ old, s.packetArrivalTimes = old ++ s.culled seq arrivalTime ∧ (∀ e ∈ old, e.1 < seq) ∧
      (s.waiting ≠ [] → old = []) := by
  unfold culled
  split
  · next hempty =>
    refine ⟨_, (takeWhile_append_dropWhile ..).symm, fun e he => ?_, fun hne => ?_⟩
    · have := mem_takeWhile_imp he
      simp only [decide_eq_true_eq] at this
      exact this.1
    · exact absurd (isEmpty_iff.mp hempty) hne
  · exact ⟨[], rfl, (fun e he => nomatch he), fun _ => rfl⟩

/-- The kept numbers that are left after culling are those above some bound below `seq`. -/
theorem Inv.mem_culled (h : Inv s) (seq arrivalTime : Int) : let left := keys (s.culled seq arrivalTime)
    (∀ k ∈ left, k ∈ s.kept) ∧ (∀ k ∈ s.kept, seq ≤ k → k ∈ left) ∧
      (∀ j ∈ left, ∀ k ∈ s.kept, j ≤ k → k ∈ left) := by
  obtain ⟨old, hsplit, hold, _⟩ := s.culled_split seq arrivalTime
  have hsorted := h.sorted
  rw [hsplit] at hsorted
  have hcross := (pairwise_append.mp hsorted).2.2
  have hmem : ∀ k, k ∈ s.kept ↔
      k ∈ keys old ∨ k ∈ keys (s.culled seq arrivalTime) := by
    intro k
    unfold kept OrderedMap.keys
    rw [← mem_append, ← map_append, ← hsplit]
  refine ⟨fun k hk => (hmem k).mpr (.inr hk), fun k hk hle => ?_, fun j hj k hk hle => ?_⟩
  · refine ((hmem k).mp hk).resolve_left fun hk => ?_
    obtain ⟨e, he, rfl⟩ := mem_map.mp hk
    exact absurd (hold e he) (Int.not_lt.mpr hle)
  refine ((hmem k).mp hk).resolve_left fun hk => ?_
  obtain ⟨a, ha, rfl⟩ := mem_map.mp hk
  obtain ⟨b, hb, rfl⟩ := mem_map.mp hj
  have := hcross a ha b hb
  simp only [before, decide_eq_true_eq] at this
  omega

theorem exists_of_waiting (h : s.waiting ≠ []) : ∃ k ∈ s.kept, s.windowStartSeq ≤ k := by
  by_contra hnone
  refine h ((waiting_eq_nil_iff s).mpr fun k hk => ?_)
  by_contra hle
  exact hnone ⟨k, hk, by omega⟩

/-- While something waits, nothing is culled. -/
theorem keys_culled_of_waiting (h : s.waiting ≠ []) (seq arrivalTime : Int) :
    keys (s.culled seq arrivalTime) = s.kept := by
  obtain ⟨_, hsplit, _, hold⟩ := s.culled_split seq arrivalTime
  rw [hold h, nil_append] at hsplit
  unfold kept
  rw [← hsplit]

/-- The numbers left after culling are close to one another. -/
theorem Inv.close_culled (h : Inv s) (seq arrivalTime : Int) :
    ∀ k ∈ keys (s.culled seq arrivalTime), ∀ j ∈ keys (s.culled seq arrivalTime), j < k →
        ∃ p ∈ keys (s.culled seq arrivalTime), Close p k := by
  obtain ⟨hsub, _, hupper⟩ := h.mem_culled seq arrivalTime
  intro k hk j hj hjk
  obtain ⟨p, hp, hpk⟩ := h.close k (hsub k hk) j (hsub j hj) hjk
  by_cases hjp : j ≤ p
  · exact ⟨p, hupper j hj p hp hjp, hpk⟩
  · exact ⟨j, hj, hpk.mono (by omega) hjk (Int.le_refl k)⟩

/-! ## Half a turn -/

/-- Nothing waits, and the packet is exactly half a turn ahead of the number before the window,
which has its high bit set. -/
structure HalfTurn (s : RemoteEstimatorProxy) (seq : Int) : Prop where
  opened : s.windowStartSeq ≠ -1
  idle : s.waiting = []
  distance : seq = s.windowStartSeq + 32767
  high : 32768 ≤ (s.windowStartSeq - 1) % 65536

/-- A packet in the window is close to the number before the window, unless it is half a turn
ahead. -/
theorem close_start (hW : s.windowStartSeq ≠ -1) (hle : s.windowStartSeq ≤ seq)
    (hseq : seq ≤ s.windowStartSeq + 32767) (hturn : ¬ HalfTurn s seq) (hidle : s.waiting = []) :
    Close (s.windowStartSeq - 1) seq := by
  refine ⟨by omega, ?_⟩
  by_cases hd : seq = s.windowStartSeq + 32767
  · right
    refine ⟨by omega, ?_⟩
    by_contra hhigh
    exact hturn ⟨hW, hidle, hd, by omega⟩
  · left
    omega

/-! ## The numbers next to a new one -/

/-- A number between two kept ones has a close one below it. -/
theorem close_between {S : Int → Prop}
    (hclose : ∀ k, S k → ∀ j, S j → j < k → ∃ p, S p ∧ Close p k) {j x : Int} (hj : S j)
    (hjx : j < x) (hx : ¬ S x) (n : Nat) {q : Int} (hq : S q) (hxq : x < q) (hn : q - x ≤ n) :
    ∃ p, S p ∧ Close p x := by
  induction n generalizing q with
  | zero => omega
  | succ n ih =>
    obtain ⟨p, hp, hpq⟩ := hclose q hq j hj (by omega)
    have hlt := hpq.1
    rcases Int.lt_trichotomy p x with hpx | rfl | hpx
    · exact ⟨p, hp, hpq.mono (Int.le_refl p) hpx (Int.le_of_lt hxq)⟩
    · exact absurd hp hx
    · exact ih hp hpx (by omega)

variable (h : Inv s)
include h

/-- The kept number next above a new one is close to it. -/
theorem Inv.close_above (sequenceNumber : BitVec 16) (k : Int) (hk : k ∈ s.kept)
    (hlt : s.unwrapped sequenceNumber < k) (hnew : s.unwrapped sequenceNumber ∉ s.kept)
    (hleast : ∀ q ∈ s.kept, s.unwrapped sequenceNumber < q → k ≤ q) :
    Close (s.unwrapped sequenceNumber) k := by
  have hnonneg := (unwrap_spec h.unwrapped sequenceNumber).2
  generalize hs : s.unwrapped sequenceNumber = seq at *
  by_cases hbelow : ∃ j ∈ s.kept, j < seq
  · obtain ⟨j, hj, hjs⟩ := hbelow
    obtain ⟨p, hp, hpk⟩ := h.close k hk j hj (by omega)
    have hps : p < seq := by
      rcases Int.lt_trichotomy p seq with hps | rfl | hps
      · exact hps
      · exact absurd hp hnew
      · exact absurd (hleast p hp hps) (Int.not_le.mpr hpk.1)
    exact hpk.mono (Int.le_of_lt hps) hlt (Int.le_refl k)
  · have habove : ∀ j ∈ s.kept, seq < j := by
      intro j hj
      rcases Int.lt_trichotomy j seq with hjs | rfl | hjs
      · exact absurd ⟨j, hj, hjs⟩ hbelow
      · exact absurd hj hnew
      · exact hjs
    by_cases hin : s.windowStartSeq ≤ seq
    · -- the packet becomes the first one that waits
      obtain ⟨j, hj, hjW, hclose⟩ := h.first k hk (by omega)
      exact hclose.mono (by omega) hlt (hleast j hj (habove j hj))
    · -- the packet is behind all others, and the unwrapper found it near the last one
      obtain ⟨j, hj, hjL⟩ := h.reached k hk
      have hjs := habove j hj
      have hunwrap : s.unwrapper.unwrapWithoutUpdate sequenceNumber = seq := hs
      have hback := isNewer_of_unwrap_lt (u := s.unwrapper)
        (n := sequenceNumber) (by omega) (by omega)
      rw [hunwrap] at hback
      have hclose : Close seq s.unwrapper.lastSeq := ⟨by omega, hback⟩
      exact hclose.mono (Int.le_refl seq) hlt (Int.le_trans (hleast j hj hjs) hjL)

/-- A packet in the window ahead of all numbers that are left after culling is close to one of
them. -/
theorem Inv.close_below (hseq : seq ≤ s.windowStartSeq + 32767)
    (hturn : ¬ HalfTurn s seq) {j : Int} (hj : j ∈ keys (s.culled seq arrivalTime))
    (htop : ∀ k ∈ keys (s.culled seq arrivalTime), k < seq) :
    ∃ p ∈ keys (s.culled seq arrivalTime), Close p seq := by
  obtain ⟨hsub, _, hupper⟩ := h.mem_culled seq arrivalTime
  have hopen : s.windowStartSeq ≠ -1 := by
    intro hW
    have hj' := hsub j hj
    unfold kept at hj'
    rw [h.fresh hW] at hj'
    cases hj'
  by_cases hidle : s.waiting = []
  · have hall := (waiting_eq_nil_iff s).mp hidle
    have hlast : s.windowStartSeq - 1 ∈ s.kept := (h.idle hall).resolve_left hopen
    have hmem := hupper j hj _ hlast (by have := hall j (hsub j hj); omega)
    have hlt := htop _ hmem
    exact ⟨_, hmem, close_start hopen (by omega) hseq hturn hidle⟩
  obtain ⟨k, hk, hkW⟩ := exists_of_waiting hidle
  rw [keys_culled_of_waiting hidle] at htop ⊢
  have hlt := htop k hk
  exact ⟨k, hk, hlt, .inl (by omega)⟩

/-! ## Arrivals keep the invariant -/

theorem Inv.skipped (hseq : s.windowStartSeq + 32767 < seq) :
    Inv { s with unwrapper := ⟨seq⟩ } := by
  have hstart := h.start
  refine ⟨by dsimp only; omega, h.sorted, h.times, fun k hk => ?_, h.close, h.first, h.idle,
    h.start, h.fresh⟩
  by_cases hle : s.windowStartSeq ≤ k
  · obtain ⟨j, hj, hjW, hclose⟩ := h.first k hk hle
    have := hclose.2
    exact ⟨j, hj, by dsimp only; omega⟩
  · exact ⟨k, hk, by dsimp only; omega⟩

/-- The kept numbers and an accepted one are close to one another. -/
theorem Inv.close_accepted (hs : s.unwrapped sequenceNumber = seq)
    (hseq : seq ≤ s.windowStartSeq + 32767) (hturn : ¬ HalfTurn s seq) {S : Int → Prop}
    (hS : ∀ k, S k ↔ k = seq ∨ k ∈ keys (s.culled seq arrivalTime)) {k j : Int}
    (hk : S k) (hj : S j) (hjk : j < k) : ∃ p, S p ∧ Close p k := by
  obtain ⟨hsub, hkeep, _⟩ := h.mem_culled seq arrivalTime
  have hleft := h.close_culled seq arrivalTime
  by_cases hmem : seq ∈ keys (s.culled seq arrivalTime)
  · -- the packet was known
    have hin : ∀ x, S x → x ∈ keys (s.culled seq arrivalTime) := by
      intro x hx
      rcases (hS x).mp hx with rfl | hx
      · exact hmem
      · exact hx
    obtain ⟨p, hp, hpk⟩ := hleft k (hin k hk) j (hin j hj) hjk
    exact ⟨p, (hS p).mpr (.inr hp), hpk⟩
  · have hnew : seq ∉ s.kept := fun hs => hmem (hkeep seq hs (Int.le_refl seq))
    rcases (hS k).mp hk with rfl | hk'
    · have hj' := ((hS j).mp hj).resolve_left (by omega)
      by_cases htop : ∃ q ∈ keys (s.culled k arrivalTime), k < q
      · obtain ⟨q, hq, hkq⟩ := htop
        obtain ⟨p, hp, hpk⟩ := close_between hleft hj' hjk hmem (q - k).toNat hq hkq (by omega)
        exact ⟨p, (hS p).mpr (.inr hp), hpk⟩
      obtain ⟨p, hp, hpk⟩ := h.close_below hseq hturn hj' fun x hx => by
        by_contra hle
        have hne : x ≠ k := fun he => hmem (he ▸ hx)
        exact htop ⟨x, hx, by omega⟩
      exact ⟨p, (hS p).mpr (.inr hp), hpk⟩
    · by_cases hsmaller : ∃ i ∈ keys (s.culled seq arrivalTime), i < k
      · obtain ⟨i, hi, hik⟩ := hsmaller
        obtain ⟨p, hp, hpk⟩ := hleft k hk' i hi hik
        exact ⟨p, (hS p).mpr (.inr hp), hpk⟩
      have hjseq : j = seq := ((hS j).mp hj).resolve_right fun hj' => hsmaller ⟨j, hj', hjk⟩
      have habove := h.close_above sequenceNumber k (hsub k hk')
      rw [hs] at habove
      refine ⟨seq, (hS seq).mpr (.inl rfl), habove (hjseq ▸ hjk) hnew fun q hq hlt => ?_⟩
      by_contra hle
      exact hsmaller ⟨q, hkeep q hq (by omega), by omega⟩

/-- After an accepted packet, the first number that waits can follow the one before the window. -/
theorem Inv.first_accepted (arrivalTime : Int) (hseq : seq ≤ s.windowStartSeq + 32767)
    (hturn : ¬ HalfTurn s seq) :
    ∃ j, (j = seq ∨ j ∈ keys (s.culled seq arrivalTime)) ∧ s.openedAt seq ≤ j ∧
      Close (s.openedAt seq - 1) j := by
  by_cases hlow : s.windowStartSeq = -1 ∨ seq < s.windowStartSeq
  · have hat : s.openedAt seq = seq := by
      unfold openedAt
      split <;> omega
    rw [hat]
    exact ⟨seq, .inl rfl, Int.le_refl seq, close_self_sub_one seq⟩
  obtain ⟨hopen, hle⟩ := not_or.mp hlow
  have hat : s.openedAt seq = s.windowStartSeq := by
    unfold openedAt
    omega
  rw [hat]
  by_cases hidle : s.waiting = []
  · exact ⟨seq, .inl rfl, by omega, close_start hopen (by omega) hseq hturn hidle⟩
  obtain ⟨i, hi, hiW⟩ := exists_of_waiting hidle
  obtain ⟨q, hq, hqW, hclose⟩ := h.first i hi hiW
  rw [keys_culled_of_waiting hidle]
  exact ⟨q, .inr hq, hqW, hclose⟩

theorem Inv.accepted (ht : ValidTime arrivalTime)
    (hseq : s.unwrapped sequenceNumber ≤ s.windowStartSeq + 32767)
    (hturn : ¬ HalfTurn s (s.unwrapped sequenceNumber)) :
    Inv (s.onPacketArrival sequenceNumber arrivalTime) := by
  rw [onPacketArrival_accepted h ht hseq]
  have hnonneg : 0 ≤ s.unwrapped sequenceNumber :=
    (unwrap_spec h.unwrapped sequenceNumber).2
  generalize hs : s.unwrapped sequenceNumber = seq at *
  have hstart := h.start
  obtain ⟨_, hsplit, _⟩ := s.culled_split seq arrivalTime
  have hsorted : OrderedMap.Sorted before (s.culled seq arrivalTime) := by
    have := h.sorted
    rw [hsplit] at this
    exact (pairwise_append.mp this).2.1
  have hopened : s.openedAt seq ≤ seq ∧ 0 ≤ s.openedAt seq := by
    unfold openedAt
    split <;> omega
  have hkept := mem_keys_insertNew before seq arrivalTime (s.culled seq arrivalTime)
  have hself := (hkept seq).mpr (.inl rfl)
  constructor
  · exact Int.le_trans (by decide) hnonneg
  · exact hsorted.insertNew seq arrivalTime (orderedOn_before _)
  · intro e he
    rcases mem_of_mem_insertNew he with rfl | he
    · exact ht.1
    · exact h.times e (by rw [hsplit]; exact mem_append_right _ he)
  · exact fun _ _ => ⟨seq, hself, Int.le_refl seq⟩
  · exact fun k hk j hj hjk => h.close_accepted hs hseq hturn hkept hk hj hjk
  · intro _ _ _
    obtain ⟨j, hj, hle, hclose⟩ := h.first_accepted arrivalTime hseq hturn
    exact ⟨j, (hkept j).mpr hj, hle, hclose⟩
  · intro hall
    exact absurd (hall seq hself) (Int.not_lt.mpr hopened.1)
  · exact Int.le_trans (by decide) hopened.2
  intro hneg
  dsimp only at hneg
  omega

/-- An accepted packet waits, and so does what waited before. -/
theorem Inv.waits_accepted (ht : ValidTime arrivalTime)
    (hseq : s.unwrapped sequenceNumber ≤ s.windowStartSeq + 32767) :
    let s' := s.onPacketArrival sequenceNumber arrivalTime
    s'.unwrapper.lastSeq = s.unwrapped sequenceNumber ∧
      ∀ k, k = s.unwrapped sequenceNumber ∨ k ∈ s.kept ∧ s.windowStartSeq ≤ k →
        k ∈ s'.kept ∧ s'.windowStartSeq ≤ k := by
  rw [onPacketArrival_accepted h ht hseq]
  generalize s.unwrapped sequenceNumber = seq at *
  have hkept := mem_keys_insertNew before seq arrivalTime (s.culled seq arrivalTime)
  refine ⟨rfl, fun k hk => ?_⟩
  unfold openedAt
  rcases hk with rfl | ⟨hk, hle⟩
  · refine ⟨(hkept k).mpr (.inl rfl), ?_⟩
    dsimp only
    split <;> omega
  have hopen : s.windowStartSeq ≠ -1 := by
    intro hneg
    unfold kept at hk
    rw [h.fresh hneg] at hk
    exact nomatch hk
  have hwait : s.waiting ≠ [] := fun hidle =>
    Int.not_lt.mpr hle ((waiting_eq_nil_iff s).mp hidle k hk)
  refine ⟨(hkept k).mpr (.inr ?_), by dsimp only; omega⟩
  rw [keys_culled_of_waiting hwait]
  exact hk

/-- **One arrival.** Whatever packet arrives, unless it is half a turn ahead, keeps the
invariant. -/
theorem Inv.onPacketArrival
    (hturn : ValidTime arrivalTime → ¬ HalfTurn s (s.unwrapped sequenceNumber)) :
    Inv (s.onPacketArrival sequenceNumber arrivalTime) := by
  by_cases ht : ValidTime arrivalTime
  · by_cases hseq : s.unwrapped sequenceNumber ≤ s.windowStartSeq + 32767
    · exact h.accepted ht hseq (hturn ht)
    · rw [onPacketArrival_skipped ht (by omega)]
      exact h.skipped (by omega)
  · rw [onPacketArrival_invalid sequenceNumber ht]
    exact h

end WebRtc.Bwe.RemoteEstimatorProxy
