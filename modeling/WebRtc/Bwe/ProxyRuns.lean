import WebRtc.Lib.Transition
import WebRtc.Bwe.ProxyArrivals

/-! Runs of `RemoteEstimatorProxy`: packets arrive in between calls of `Process`. The `RTC_CHECK` of
`BuildFeedbackPacket` fails after an arrival half a turn ahead, and after no other. When the
arrivals' true numbers stay in the window, each one is reported by the next call. -/

namespace WebRtc.Bwe.RemoteEstimatorProxy

open SequenceNumber Rtcp Transition List

variable {s : RemoteEstimatorProxy} {o : Observed}

/-! ## Runs of packets and `Process` -/

inductive Event
  | incomingPacket (arrivalTimeMs : Int) (ssrc : BitVec 32)
      (transportSequenceNumber : Option (BitVec 16))
  | process

def next (s : RemoteEstimatorProxy) : Event → Except Abort RemoteEstimatorProxy
  | .incomingPacket arrivalTimeMs ssrc transportSequenceNumber =>
    .ok (s.incomingPacket arrivalTimeMs ssrc transportSequenceNumber)
  | .process => s.process.map Prod.fst

def Steps (s : RemoteEstimatorProxy) (e : Event) (s' : RemoteEstimatorProxy) : Prop :=
  s.next e = .ok s'

def run (s : RemoteEstimatorProxy) : List Event → Except Abort RemoteEstimatorProxy :=
  List.foldlM next s

/-- The packet is not half a turn ahead. -/
def Allowed (s : RemoteEstimatorProxy) : Event → Prop
  | .incomingPacket arrivalTimeMs _ (some sequenceNumber) =>
    ValidTime arrivalTimeMs → ¬ HalfTurn s (s.unwrapped sequenceNumber)
  | .incomingPacket _ _ none => True
  | .process => True

theorem Inv.withSsrc (h : Inv s) (ssrc : BitVec 32) : Inv { s with mediaSsrc := ssrc } :=
  ⟨h.unwrapped, h.sorted, h.times, h.reached, h.close, h.first, h.idle, h.start, h.fresh⟩

theorem Inv.incomingPacket (h : Inv s) {arrivalTimeMs : Int} {ssrc : BitVec 32}
    {transportSequenceNumber : Option (BitVec 16)}
    (ha : Allowed s (.incomingPacket arrivalTimeMs ssrc transportSequenceNumber)) :
    Inv (s.incomingPacket arrivalTimeMs ssrc transportSequenceNumber) := by
  cases transportSequenceNumber with
  | none => exact h
  | some _ =>
    refine (h.withSsrc ssrc).onPacketArrival fun ht hturn => ha ht ?_
    exact ⟨hturn.opened, hturn.idle, hturn.distance, hturn.high⟩

/-- **One step** that is allowed keeps the invariant. -/
theorem Inv.next {s' : RemoteEstimatorProxy} (h : Inv s) {e : Event} (ha : Allowed s e)
    (hs : Steps s e s') : Inv s' := by
  unfold Steps at hs
  cases e with
  | incomingPacket _ _ _ =>
    cases hs
    exact h.incomingPacket ha
  | process =>
    obtain ⟨t, _, hp, hinv, _⟩ := h.process
    unfold RemoteEstimatorProxy.next at hs
    rw [hp] at hs
    cases hs
    exact hinv

theorem Inv.of_reaches (h : Reaches (Guarded Allowed Steps) {} s) : Inv s :=
  h.invariant Inv inv_initial fun _ _ _ hu hs => hu.next hs.1 hs.2

/-! ## After a packet half a turn ahead -/

/-- The first entry that waits is not newer than the number before the window. -/
theorem process_aborts {seq time : Int} {rest : List (Int × Int)}
    (hw : s.waiting = (seq, time) :: rest) (ht : 0 ≤ time)
    (hold : isNewerSequenceNumber (wrapped seq) (wrapped (s.windowStartSeq - 1)) = false) :
    s.process = .error .checkFailed := by
  have hfirst := fresh_addReceivedPacket s seq ht
  rw [hold] at hfirst
  have hbuild : s.buildFeedbackPacket = .error .checkFailed := by
    unfold buildFeedbackPacket
    rw [hw]
    dsimp only
    generalize (TransportFeedback.setBase { mediaSsrc := s.mediaSsrc } (wrapped s.windowStartSeq)
      (time * 1000)).setFeedbackSequenceNumber s.feedbackSequence = fb at hfirst
    unfold addPackets
    cases hadd : fb.addReceivedPacket (wrapped seq) (time * 1000) with
    | mk _ _ =>
      rw [hadd] at hfirst
      cases hfirst
      dsimp only
      rw [if_pos rfl]
      rfl
  unfold process processLoop
  rw [hbuild]
  rfl

/-- The packet half a turn ahead is the only one that waits. -/
theorem Inv.waiting_of_halfTurn (h : Inv s) {sequenceNumber : BitVec 16} {arrivalTime : Int}
    (ht : ValidTime arrivalTime) (hturn : HalfTurn s (s.unwrapped sequenceNumber)) :
    let s' := s.onPacketArrival sequenceNumber arrivalTime
    s'.windowStartSeq = s.windowStartSeq ∧
      ∃ rest, s'.waiting = (s.unwrapped sequenceNumber, arrivalTime) :: rest := by
  obtain ⟨hopen, hidle, hdistance, _⟩ := hturn
  rw [onPacketArrival_accepted h ht (Int.le_of_eq hdistance)]
  generalize s.unwrapped sequenceNumber = seq at *
  have hat : s.openedAt seq = s.windowStartSeq := by
    unfold openedAt
    omega
  refine ⟨hat, ?_⟩
  rw [hat]
  have hbelow : ∀ k ∈ OrderedMap.keys (s.culled seq arrivalTime), k < s.windowStartSeq := fun k hk =>
    (waiting_eq_nil_iff s).mp hidle k ((h.mem_culled seq arrivalTime).1 k hk)
  rw [OrderedMap.insertNew_eq_append]
  · refine ⟨[], OrderedMap.fromLowerBound_append (fun e he => ?_) fun e he => ?_⟩
    · exact decide_eq_true (hbelow e.1 (mem_map_of_mem he))
    cases mem_singleton.mp he
    simp only [before, decide_eq_false_iff_not]
    omega
  · intro hmem
    have := hbelow seq hmem
    omega
  intro k hk
  have := hbelow k hk
  simp only [before, decide_eq_false_iff_not]
  omega

theorem Inv.process_of_halfTurn (h : Inv s) {sequenceNumber : BitVec 16} {arrivalTime : Int}
    (ht : ValidTime arrivalTime) (hturn : HalfTurn s (s.unwrapped sequenceNumber)) :
    (s.onPacketArrival sequenceNumber arrivalTime).process = .error .checkFailed := by
  obtain ⟨hstart, _, hw⟩ := h.waiting_of_halfTurn ht hturn
  refine process_aborts hw ht.1 ?_
  have hdistance := hturn.distance
  have hhigh := hturn.high
  by_contra hnew
  have := (isNewer_wrapped_iff (by omega) (by omega)).mp (eq_true_of_ne_false hnew)
  omega

/-- **When the check fails.** In every state reached without a packet half a turn ahead, `Process`
does not abort, and after one more step it aborts exactly if that step is such a packet. -/
theorem process_never_aborts {s : RemoteEstimatorProxy} (h : Reaches (Guarded Allowed Steps) {} s) :
    (∃ s', s.next .process = .ok s') ∧
      ∀ e s', Steps s e s' → ((∃ s'', s'.next .process = .ok s'') ↔ Allowed s e) := by
  have hinv := Inv.of_reaches h
  have hok : ∀ t : RemoteEstimatorProxy, Inv t → ∃ t', t.next .process = .ok t' := by
    intro t ht
    obtain ⟨t', _, hp, _⟩ := ht.process
    exact ⟨t', by unfold RemoteEstimatorProxy.next; rw [hp]; rfl⟩
  refine ⟨hok s hinv, fun e s' hs => ⟨fun hp => ?_, fun ha => hok s' (hinv.next ha hs)⟩⟩
  obtain ⟨s'', hp⟩ := hp
  cases e with
  | process => trivial
  | incomingPacket arrivalTimeMs ssrc transportSequenceNumber =>
    cases transportSequenceNumber with
    | none => trivial
    | some sequenceNumber =>
      intro ht hturn
      have habort : (s.incomingPacket arrivalTimeMs ssrc (some sequenceNumber)).process =
          .error .checkFailed :=
        (hinv.withSsrc ssrc).process_of_halfTurn ht
          ⟨hturn.opened, hturn.idle, hturn.distance, hturn.high⟩
      cases hs
      unfold RemoteEstimatorProxy.next at hp
      rw [habort] at hp
      cases hp

theorem process_never_aborts_first_packet : Allowed {} (.incomingPacket 10 7 (some 40000#16)) ∧
      ∃ s', (incomingPacket {} 10 7 (some 40000#16)).next .process = .ok s' := by
  have ha : Allowed {} (.incomingPacket 10 7 (some 40000#16)) := fun _ hturn => hturn.opened rfl
  exact ⟨ha, (process_never_aborts (.next _ .refl ⟨ha, rfl⟩)).1⟩

/-- The third packet is beyond the window, so only the unwrapper takes note of it. The last one is
then half a turn ahead of 32768, the last one reported. -/
theorem process_aborts_half_turn :
    run {} [.incomingPacket 0 7 (some 32766#16), .incomingPacket 0 7 (some 32768#16),
      .incomingPacket 0 7 (some 65534#16), .process, .incomingPacket 0 7 (some 0#16), .process] =
      .error .checkFailed := by
  decide +kernel

/-! ## Arrivals with true numbers -/

/-- A run with the true numbers: the last one to arrive, and those since the last `Process`. -/
structure Observed where
  proxy : RemoteEstimatorProxy := {}
  last : Option Int := none
  pending : List Int := []

inductive Observation
  | packet (trueNumber arrivalTimeMs : Int) (ssrc : BitVec 32)
  | process

namespace Observed

/-- A packet carries the low 16 bits of its true number. -/
def next (o : Observed) : Observation → Except Abort Observed
  | .packet trueNumber arrivalTimeMs ssrc =>
    .ok {
      proxy := o.proxy.incomingPacket arrivalTimeMs ssrc (some (wrapped trueNumber))
      last := some trueNumber
      pending := o.pending ++ [trueNumber] }
  | .process => o.proxy.process.map fun r => { o with proxy := r.1, pending := [] }

def Steps (o : Observed) (a : Observation) (o' : Observed) : Prop := o.next a = .ok o'

/-- A start in `0 .. 65535`, then steps of less than `2^14`. -/
def Near : Option Int → Int → Prop
  | none, trueNumber => 0 ≤ trueNumber ∧ trueNumber ≤ 65535
  | some last, trueNumber => trueNumber - last < 16384 ∧ last - trueNumber < 16384

def Valid (o : Observed) : Observation → Prop
  | .packet trueNumber arrivalTimeMs _ => ValidTime arrivalTimeMs ∧ Near o.last trueNumber
  | .process => True

/-- The true number is not below zero and not beyond the window. -/
def InWindow (o : Observed) : Observation → Prop
  | .packet trueNumber _ _ => 0 ≤ trueNumber ∧ trueNumber ≤ o.proxy.windowStartSeq + 32767
  | .process => True

/-- The proxy keeps up with the true numbers, and those not processed yet wait. -/
structure Tracks (o : Observed) : Prop where
  inv : Inv o.proxy
  unseen : o.last = none → o.proxy.unwrapper.lastSeq = -1 ∧ o.proxy.windowStartSeq = -1
  seen : ∀ n, o.last = some n → 0 ≤ n ∧ o.proxy.unwrapper.lastSeq = n ∧ n ∈ o.proxy.kept
  waits : ∀ n ∈ o.pending, n ∈ o.proxy.kept ∧ o.proxy.windowStartSeq ≤ n

theorem tracks_initial : Tracks {} :=
  ⟨inv_initial, fun _ => ⟨rfl, rfl⟩, (fun _ h => nomatch h), (fun _ h => nomatch h)⟩

theorem Tracks.unwrapped (h : Tracks o) {n : Int} (hnear : Near o.last n) (hn : 0 ≤ n) :
    o.proxy.unwrapped (wrapped n) = n := by
  cases hlast : o.last with
  | none =>
    rw [hlast] at hnear
    have hmod := toNat_wrapped n
    refine (SequenceNumberUnwrapper.unwrap_first (h.unseen hlast).1 _).trans ?_
    obtain ⟨_, hle⟩ := hnear
    omega
  | some last =>
    rw [hlast] at hnear
    obtain ⟨hpos, hseq, _⟩ := h.seen last hlast
    obtain ⟨h1, h2⟩ := hnear
    exact SequenceNumberUnwrapper.unwrap_wrapped (by omega) hn ⟨by omega, by omega⟩

theorem Tracks.not_halfTurn (h : Tracks o) {n : Int} (hnear : Near o.last n) :
    ¬ HalfTurn o.proxy n := by
  intro hturn
  cases hlast : o.last with
  | none => exact hturn.opened (h.unseen hlast).2
  | some last =>
    -- the last arrival is kept, so it is below the window when nothing waits
    rw [hlast] at hnear
    have hbelow := (waiting_eq_nil_iff _).mp hturn.idle last (h.seen last hlast).2.2
    have hdistance := hturn.distance
    obtain ⟨h1, h2⟩ := hnear
    omega

theorem Tracks.packet (h : Tracks o) {n arrivalTimeMs : Int} {ssrc : BitVec 32}
    (ht : ValidTime arrivalTimeMs) (hnear : Near o.last n) (hn : 0 ≤ n)
    (hw : n ≤ o.proxy.windowStartSeq + 32767) : Tracks {
      proxy := o.proxy.incomingPacket arrivalTimeMs ssrc (some (wrapped n))
      last := some n
      pending := o.pending ++ [n] } := by
  have hun := h.unwrapped hnear hn
  have hturn := h.not_halfTurn hnear
  have hinv : Inv (o.proxy.incomingPacket arrivalTimeMs ssrc (some (wrapped n))) :=
    h.inv.incomingPacket fun _ => by rwa [hun]
  obtain ⟨hlast, hwaits⟩ := (h.inv.withSsrc ssrc).waits_accepted ht
    (Int.le_trans (Int.le_of_eq hun) hw)
  have hself := hwaits n (.inl hun.symm)
  refine ⟨hinv, (fun hnone => nomatch hnone), fun k hk => ?_, fun k hk => ?_⟩
  · cases hk
    exact ⟨hn, hlast.trans hun, hself.1⟩
  rcases mem_append.mp hk with hk | hk
  · exact hwaits k (.inr (h.waits k hk))
  · cases mem_singleton.mp hk
    exact hself

/-- **One step** keeps up with the true numbers. -/
theorem Tracks.next {o' : Observed} (h : Tracks o) {a : Observation} (hv : Valid o a)
    (hw : InWindow o a) (hs : Steps o a o') : Tracks o' := by
  unfold Steps at hs
  cases a with
  | packet n _ _ =>
    cases hs
    exact h.packet hv.1 hv.2 hw.1 hw.2
  | process =>
    obtain ⟨s', _, hp, hinv, _, hun, htimes, _⟩ := h.inv.process
    unfold Observed.next at hs
    rw [hp] at hs
    cases hs
    refine ⟨hinv, fun hnone => ?_, fun n hn => ?_, (fun _ hn => nomatch hn)⟩
    · -- nothing was kept, so the window has not opened
      obtain ⟨hseq, hstart⟩ := h.unseen hnone
      have hempty : s'.kept = [] := by
        unfold kept
        rw [htimes, h.inv.fresh hstart]
        rfl
      refine ⟨by rw [hun]; exact hseq, (hinv.idle ?_).resolve_right ?_⟩
      · rw [hempty]
        exact fun _ hk => nomatch hk
      · rw [hempty]
        exact not_mem_nil
    · obtain ⟨hpos, hseq, hmem⟩ := h.seen n hn
      unfold kept at hmem ⊢
      exact ⟨hpos, by rw [hun]; exact hseq, by rw [htimes]; exact hmem⟩

/-- **Every arrival is reported.** In every state reached by steps in the window, the next call of
`Process` sends feedback on each packet that arrived since the last one. -/
theorem arrivals_reported {o : Observed}
    (h : Reaches (Guarded (fun o a => Valid o a ∧ InWindow o a) Steps) {} o) :
    ∃ s' sent, o.proxy.process = .ok (s', sent) ∧
      ∀ n ∈ o.pending, ∃ fb ∈ sent, wrapped n ∈ TransportFeedback.numbers fb := by
  have htracks : Tracks o :=
    h.invariant Tracks tracks_initial fun _ _ _ hu hs => hu.next hs.1.1 hs.1.2 hs.2
  obtain ⟨s', sent, hp, _, _, _, _, hsent⟩ := htracks.inv.process
  refine ⟨s', sent, hp, fun n hn => ?_⟩
  have hmem : wrapped n ∈ sent.flatMap TransportFeedback.numbers := by
    rw [hsent]
    exact mem_map_of_mem ((htracks.inv.mem_keys_waiting n).mpr (htracks.waits n hn))
  exact mem_flatMap.mp hmem

theorem arrivals_reported_first_packet :
    ∃ s' sent, (incomingPacket {} 10 7 (some (wrapped 32766))).process = .ok (s', sent) ∧
      ∃ fb ∈ sent, wrapped 32766 ∈ TransportFeedback.numbers fb := by
  obtain ⟨s', sent, hp, hall⟩ := arrivals_reported (.next (.packet 32766 10 7) .refl
    ⟨⟨⟨⟨by decide, by decide⟩, ⟨by decide, by decide⟩⟩, ⟨by decide, by decide⟩⟩, rfl⟩)
  exact ⟨s', sent, hp, hall 32766 (.head _)⟩

/-- A start above 32766 is beyond the window of a fresh proxy. -/
theorem arrivals_not_reported : ∃ o, Reaches (Guarded Valid Steps) {} o ∧ 40000 ∈ o.pending ∧
      o.proxy.process = .ok (o.proxy, []) := by
  refine ⟨_, .next (.packet 40000 10 7) .refl
    ⟨⟨⟨by decide, by decide⟩, ⟨by decide, by decide⟩⟩, rfl⟩, .head _, ?_⟩
  decide +kernel

end Observed

end WebRtc.Bwe.RemoteEstimatorProxy
