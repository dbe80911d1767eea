import Mathlib.Data.List.TakeWhile
import Mathlib.Data.List.Chain
import WebRtc.Bwe.RemoteEstimatorProxy
import WebRtc.Rtcp.FeedbackReports

/-! The invariant of `RemoteEstimatorProxy` and what `Process` does in a state that has it. The
kept sequence numbers are close to one another: each one but the least has one below it that a
`TransportFeedback` takes for older. -/

namespace WebRtc.Bwe

open SequenceNumber Rtcp OrderedMap List TransportFeedback

variable {s : RemoteEstimatorProxy}

/-! ## Numbers a feedback packet can report one after the other -/

/-- `k` is ahead of `p`, also by the 16-bit comparison. -/
def Close (p k : Int) : Prop :=
  p < k ∧ (k - p < 32768 ∨ (k - p = 32768 ∧ p % 65536 < 32768))

theorem Close.isNewer {p k : Int} (h : Close p k) :
    isNewerSequenceNumber (wrapped k) (wrapped p) :=
  (isNewer_wrapped_iff h.1 (by have := h.2; omega)).mpr h.2

theorem Close.mono {p k p' k' : Int} (h : Close p k) (hp : p ≤ p') (hlt : p' < k') (hk : k' ≤ k) :
    Close p' k' := by
  obtain ⟨_, hd⟩ := h
  refine ⟨hlt, ?_⟩
  by_cases he : p' = p ∧ k' = k
  · rw [he.1, he.2]
    exact hd
  · left
    omega

theorem close_self_sub_one (k : Int) : Close (k - 1) k := ⟨by omega, .inl (by omega)⟩

/-- Numbers in order, each with a close one below it, are close one after the other. -/
theorem isChain_of_close {base : Int} {ks : List Int} (hsorted : (base :: ks).Pairwise (· < ·))
    (hclose : ∀ k ∈ ks, ∃ p, (p = base ∨ p ∈ ks) ∧ Close p k) : (base :: ks).IsChain Close := by
  induction ks generalizing base with
  | nil => exact .singleton base
  | cons x ks ih =>
    obtain ⟨hbase, htail⟩ := pairwise_cons.mp hsorted
    obtain ⟨hx, _⟩ := pairwise_cons.mp htail
    have hhead : Close base x := by
      obtain ⟨p, hp, hpx⟩ := hclose x (.head _)
      rcases hp with rfl | hp
      · exact hpx
      rcases mem_cons.mp hp with rfl | hp
      · exact absurd hpx.1 (Int.lt_irrefl _)
      · exact absurd (hx p hp) (Int.not_lt.mpr (Int.le_of_lt hpx.1))
    refine .cons_cons hhead (ih htail fun k hk => ?_)
    have hxk := hx k hk
    obtain ⟨p, hp, hpk⟩ := hclose k (.tail _ hk)
    rcases hp with rfl | hp
    · exact ⟨x, .inl rfl, hpk.mono (Int.le_of_lt (hbase x (.head _))) hxk (Int.le_refl k)⟩
    rcases mem_cons.mp hp with rfl | hp
    · exact ⟨p, .inl rfl, hpk⟩
    · exact ⟨p, .inr hp, hpk⟩

/-! ## The invariant -/

namespace RemoteEstimatorProxy

/-- The unwrapped numbers whose arrival times are kept. -/
def kept (s : RemoteEstimatorProxy) : List Int := keys s.packetArrivalTimes

structure Inv (s : RemoteEstimatorProxy) : Prop where
  unwrapped : -1 ≤ s.unwrapper.lastSeq
  sorted : OrderedMap.Sorted before s.packetArrivalTimes
  times : ∀ e ∈ s.packetArrivalTimes, 0 ≤ e.2
  /-- The last unwrapped number is not behind all kept ones. -/
  reached : ∀ k ∈ s.kept, ∃ j ∈ s.kept, j ≤ s.unwrapper.lastSeq
  close : ∀ k ∈ s.kept, ∀ j ∈ s.kept, j < k → ∃ p ∈ s.kept, Close p k
  /-- The first number that waits can follow the one before the window. -/
  first : ∀ k ∈ s.kept, s.windowStartSeq ≤ k →
    ∃ j ∈ s.kept, s.windowStartSeq ≤ j ∧ Close (s.windowStartSeq - 1) j
  /-- When nothing waits, the window starts behind the last number kept. -/
  idle : (∀ k ∈ s.kept, k < s.windowStartSeq) →
    s.windowStartSeq = -1 ∨ s.windowStartSeq - 1 ∈ s.kept
  start : -1 ≤ s.windowStartSeq
  fresh : s.windowStartSeq = -1 → s.packetArrivalTimes = []

theorem inv_initial : Inv {} := by
  constructor <;> simp [kept, OrderedMap.keys, OrderedMap.Sorted]

theorem orderedOn_before (S : Int → Prop) : OrderedMap.OrderedOn before S := by
  constructor
  · intro a _
    simp [before]
  · intro a b c _ _ _ hab hbc
    simp only [before, decide_eq_true_eq] at *
    omega
  intro a b _ _ hne
  simp only [before, decide_eq_true_eq]
  omega

theorem sorted_iff (m : List (Int × Int)) :
    OrderedMap.Sorted before m ↔ (keys m).Pairwise (· < ·) := by
  unfold OrderedMap.Sorted OrderedMap.keys
  rw [pairwise_map]
  simp only [before, decide_eq_true_eq]

/-! ## What waits -/

theorem waiting_eq_nil_iff (s : RemoteEstimatorProxy) :
    s.waiting = [] ↔ ∀ k ∈ s.kept, k < s.windowStartSeq := by
  unfold waiting fromLowerBound kept OrderedMap.keys
  simp [before]

theorem Inv.mem_waiting (h : Inv s) (e : Int × Int) :
    e ∈ s.waiting ↔ e ∈ s.packetArrivalTimes ∧ s.windowStartSeq ≤ e.1 := by
  unfold waiting
  rw [h.sorted.mem_fromLowerBound (orderedOn_before _)]
  simp [before]

theorem Inv.mem_keys_waiting (h : Inv s) (k : Int) :
    k ∈ keys s.waiting ↔ k ∈ s.kept ∧ s.windowStartSeq ≤ k := by
  constructor
  · intro hk
    obtain ⟨e, he, rfl⟩ := mem_map.mp hk
    obtain ⟨hmem, hle⟩ := (h.mem_waiting e).mp he
    exact ⟨mem_map_of_mem hmem, hle⟩
  rintro ⟨hk, hle⟩
  obtain ⟨e, he, rfl⟩ := mem_map.mp hk
  exact mem_map_of_mem ((h.mem_waiting e).mpr ⟨he, hle⟩)

/-- What waits can be reported one after the other, from the window start on. -/
theorem Inv.isChain_waiting (h : Inv s) :
    ((s.windowStartSeq - 1) :: keys s.waiting).IsChain Close := by
  have hsub : s.waiting.Sublist s.packetArrivalTimes := dropWhile_sublist _
  have hsorted : (keys s.waiting).Pairwise (· < ·) :=
    (sorted_iff _).mp (h.sorted.sublist hsub)
  refine isChain_of_close (pairwise_cons.mpr ⟨fun k hk => ?_, hsorted⟩) fun k hk => ?_
  · have := ((h.mem_keys_waiting k).mp hk).2
    omega
  obtain ⟨hkept, hle⟩ := (h.mem_keys_waiting k).mp hk
  obtain ⟨j, hj, hjle, hclose⟩ := h.first k hkept hle
  by_cases hjk : j < k
  · -- a number below `k` waits, so the close one below `k` or `j` itself waits
    obtain ⟨p, hp, hpk⟩ := h.close k hkept j hj hjk
    by_cases hpj : p < j
    · exact ⟨j, .inr ((h.mem_keys_waiting j).mpr ⟨hj, hjle⟩),
        hpk.mono (Int.le_of_lt hpj) hjk (Int.le_refl k)⟩
    · exact ⟨p, .inr ((h.mem_keys_waiting p).mpr ⟨hp, by omega⟩), hpk⟩
  · exact ⟨s.windowStartSeq - 1, .inl rfl, hclose.mono (Int.le_refl _) (by omega) (by omega)⟩

/-! ## Building a feedback packet -/

/-- Behind the first packet the loop takes as many entries as it can. -/
theorem addPackets_rest (first : Int) (l : List (Int × Int)) (hl : ∀ e ∈ l, first < e.1) (w : Int)
    (fb : TransportFeedback) :
    ∃ pre suf w' fb', l = pre ++ suf ∧ addPackets first l w fb = .ok (w', fb') ∧
      fb'.numbers = fb.numbers ++ (keys pre).map wrapped ∧
      ((w - 1) :: keys pre).getLast? = some (w' - 1) := by
  induction l generalizing w fb with
  | nil => exact ⟨[], [], w, fb, rfl, rfl, (append_nil _).symm, rfl⟩
  | cons e l ih =>
    obtain ⟨seq, time⟩ := e
    unfold addPackets
    cases hadd : fb.addReceivedPacket (wrapped seq) (time * 1000) with
    | mk added fb₁ =>
      have hnumbers := numbers_addReceivedPacket hadd
      cases added with
      | false =>
        have hne : first ≠ seq := Int.ne_of_lt (hl _ (.head _))
        refine ⟨[], (seq, time) :: l, w, fb₁, rfl, ?_, hnumbers, rfl⟩
        exact if_neg hne
      | true =>
        obtain ⟨pre, suf, w', fb', hsplit, hrest, hmore, hlast⟩ :=
          ih (fun e he => hl e (.tail _ he)) (seq + 1) fb₁
        refine ⟨(seq, time) :: pre, suf, w', fb', by rw [hsplit]; rfl, hrest, ?_, ?_⟩
        · rw [hmore, hnumbers, append_assoc]
          rfl
        · rw [Int.add_sub_cancel] at hlast
          exact (getLast?_cons_cons ..).trans hlast

/-- What one call of `BuildFeedbackPacket` reports. -/
structure Reported (s s' : RemoteEstimatorProxy) (fb : TransportFeedback) : Prop where
  unwrapper : s'.unwrapper = s.unwrapper
  times : s'.packetArrivalTimes = s.packetArrivalTimes
  entries : ∃ pre, s.waiting = pre ++ s'.waiting ∧ pre ≠ [] ∧
    fb.numbers = (keys pre).map wrapped

theorem buildFeedbackPacket_idle (h : s.waiting = []) : s.buildFeedbackPacket = .ok none := by
  unfold buildFeedbackPacket
  rw [h]

theorem wrapped_sub_one (w : Int) : wrapped (w - 1) = wrapped w - 1#16 := by
  apply BitVec.eq_of_toNat_eq
  have h1 := toNat_wrapped (w - 1)
  have h2 := toNat_wrapped w
  change _ = (2 ^ 16 - 1 + (wrapped w).toNat) % 2 ^ 16
  omega

/-- The window moved behind a waiting entry `e` keeps the invariant; what is behind `e` waits. -/
theorem Inv.moved (h : Inv s) {pre suf : List (Int × Int)} {e : Int × Int}
    (hw : s.waiting = pre ++ e :: suf) (feedbackSequence : BitVec 8) : let s' :=
    { s with feedbackSequence := feedbackSequence, windowStartSeq := e.1 + 1 }
    s'.waiting = suf ∧ Inv s' := by
  have hmem : e ∈ s.waiting := by rw [hw]; exact mem_append_right _ (.head _)
  obtain ⟨hetimes, heW⟩ := (h.mem_waiting e).mp hmem
  have hekept : e.1 ∈ s.kept := mem_map_of_mem hetimes
  obtain ⟨old, hold⟩ : s.waiting <:+ s.packetArrivalTimes := dropWhile_suffix _
  have hsplit : s.packetArrivalTimes = (old ++ pre ++ [e]) ++ suf := by
    rw [← hold, hw]
    simp
  have hsorted := h.sorted
  rw [hsplit] at hsorted
  obtain ⟨hleft, _, hcross⟩ := pairwise_append.mp hsorted
  obtain ⟨_, _, hbefore⟩ := pairwise_append.mp hleft
  have hnext : ∀ x ∈ suf, e.1 < x.1 := by
    intro x hx
    simpa [before] using hcross e (by simp) x hx
  constructor
  · unfold waiting
    rw [hsplit]
    refine fromLowerBound_append (fun x hx => ?_) fun x hx => ?_
    · rcases mem_append.mp hx with hx | hx
      · have := hbefore x hx e (.head _)
        simp only [before, decide_eq_true_eq] at this ⊢
        omega
      cases mem_singleton.mp hx
      simp only [before, decide_eq_true_eq]
      omega
    · have := hnext x hx
      simp only [before, decide_eq_false_iff_not]
      omega
  · refine ⟨h.unwrapped, h.sorted, h.times, h.reached, h.close, ?_, ?_, ?_, ?_⟩
    · intro k hk hle
      have hchain := h.isChain_waiting
      cases suf with
      | nil =>
        -- nothing is kept behind `e`
        have hkw : k ∈ keys s.waiting :=
          (h.mem_keys_waiting k).mpr ⟨hk, by dsimp only at hle; omega⟩
        obtain ⟨x, hx, rfl⟩ := mem_map.mp hkw
        rw [hw] at hx
        rcases mem_append.mp hx with hx | hx
        · have := hbefore x (mem_append_right _ hx) e (.head _)
          simp only [before, decide_eq_true_eq] at this
          dsimp only at hle
          omega
        cases mem_singleton.mp hx
        dsimp only at hle
        omega
      | cons x suf =>
        rw [hw] at hchain
        unfold OrderedMap.keys at hchain
        rw [map_append, map_cons, map_cons, ← cons_append] at hchain
        have hex : Close e.1 x.1 := (isChain_append_cons_cons.mp hchain).2.1
        have hxtimes : x ∈ s.packetArrivalTimes := by rw [hsplit]; simp
        refine ⟨x.1, mem_map_of_mem hxtimes, hex.1, ?_⟩
        rw [Int.add_sub_cancel]
        exact hex
    · intro _
      right
      rw [Int.add_sub_cancel]
      exact hekept
    · have := h.start
      dsimp only
      omega
    · intro hneg
      have := h.start
      dsimp only at hneg
      have hW : s.windowStartSeq = -1 := by omega
      exact h.fresh hW

/-- The first packet goes into the fresh feedback packet exactly when it is newer than the number
before the window. -/
theorem fresh_addReceivedPacket (s : RemoteEstimatorProxy) (seq : Int) {time : Int}
    (ht : 0 ≤ time) :
    (((setBase { mediaSsrc := s.mediaSsrc } (wrapped s.windowStartSeq)
      (time * 1000)).setFeedbackSequenceNumber s.feedbackSequence).addReceivedPacket (wrapped seq)
        (time * 1000)).1 =
      isNewerSequenceNumber (wrapped seq) (wrapped (s.windowStartSeq - 1)) := by
  have hus : 0 ≤ time * 1000 := by omega
  rw [wrapped_sub_one]
  exact addReceivedPacket_first rfl rfl hus rfl (wrapped seq)

theorem Inv.buildFeedbackPacket_waiting (h : Inv s) (hw : s.waiting ≠ []) :
    ∃ s' fb, s.buildFeedbackPacket = .ok (some (s', fb)) ∧ Reported s s' fb ∧ Inv s' := by
  have hchain := h.isChain_waiting
  cases hwait : s.waiting with
  | nil => exact absurd hwait hw
  | cons e rest =>
    obtain ⟨f, t⟩ := e
    rw [hwait] at hchain
    have hclose : Close (s.windowStartSeq - 1) f := (isChain_cons_cons.mp hchain).1
    have hmem : (f, t) ∈ s.waiting := by rw [hwait]; exact .head _
    have ht : 0 ≤ t := h.times (f, t) ((h.mem_waiting _).mp hmem).1
    have hrest : ∀ e ∈ rest, f < e.1 := by
      have hsub : s.waiting.Sublist s.packetArrivalTimes := dropWhile_sublist _
      have hsorted := h.sorted.sublist hsub
      rw [hwait] at hsorted
      intro e he
      simpa [before] using (pairwise_cons.mp hsorted).1 e he
    unfold buildFeedbackPacket
    rw [hwait]
    dsimp only
    generalize hfb : (setBase { mediaSsrc := s.mediaSsrc }
      (wrapped s.windowStartSeq) (t * 1000)).setFeedbackSequenceNumber s.feedbackSequence = fb₀
    have hfirst : (fb₀.addReceivedPacket (wrapped f) (t * 1000)).1 := by
      rw [← hfb, fresh_addReceivedPacket s f ht]
      exact hclose.isNewer
    have hempty : fb₀.numbers = [] := by rw [← hfb]; rfl
    cases hadd : fb₀.addReceivedPacket (wrapped f) (t * 1000) with
    | mk _ fb₁ =>
      rw [hadd] at hfirst
      cases hfirst
      have hnumbers := numbers_addReceivedPacket hadd
      obtain ⟨pre, suf, w', fb', hsplit, hloop, hmore, hlast⟩ :=
        addPackets_rest f rest hrest (f + 1) fb₁
      have hall : addPackets f ((f, t) :: rest) s.windowStartSeq fb₀ = .ok (w', fb') := by
        unfold addPackets
        rw [hadd]
        exact hloop
      rw [hall]
      -- the last entry reported is the one the window moves behind
      obtain ⟨pre', e, hpre⟩ : ∃ pre' e, (f, t) :: pre = pre' ++ [e] :=
        ⟨_, _, (dropLast_append_getLast (cons_ne_nil (f, t) pre)).symm⟩
      have hw' : w' = e.1 + 1 := by
        have hkeys : keys ((f, t) :: pre) = keys (pre' ++ [e]) := by rw [hpre]
        rw [Int.add_sub_cancel] at hlast
        have hlast' : (keys ((f, t) :: pre)).getLast? = some (w' - 1) := hlast
        rw [hkeys] at hlast'
        unfold OrderedMap.keys at hlast'
        rw [map_append, map_singleton, getLast?_concat] at hlast'
        have := Option.some.inj hlast'
        omega
      have hsplit' : s.waiting = pre' ++ e :: suf := by
        rw [hwait, hsplit, ← cons_append, hpre, append_assoc]
        rfl
      obtain ⟨hmoved, hinv⟩ := h.moved hsplit' (s.feedbackSequence + 1)
      refine ⟨_, fb', rfl, ⟨rfl, rfl, (f, t) :: pre, ?_, cons_ne_nil _ _, ?_⟩, ?_⟩
      · rw [hw', hmoved, hwait, hsplit]
        rfl
      · rw [hmore, hnumbers, hempty]
        rfl
      · rw [hw']
        exact hinv

/-! ## Processing -/

/-- **What `Process` does.** It does not abort, and reports all that waits, in order. -/
theorem Inv.processLoop (h : Inv s) {fuel : Nat} (hfuel : s.waiting.length < fuel)
    (sent : List TransportFeedback) :
    ∃ s' new, RemoteEstimatorProxy.processLoop fuel s sent = .ok (s', sent ++ new) ∧ Inv s' ∧
      s'.waiting = [] ∧ s'.unwrapper = s.unwrapper ∧ s'.packetArrivalTimes = s.packetArrivalTimes ∧
      new.flatMap numbers = (keys s.waiting).map wrapped := by
  induction fuel generalizing s sent with
  | zero => exact absurd hfuel (Nat.not_lt_zero _)
  | succ fuel ih =>
    unfold RemoteEstimatorProxy.processLoop
    by_cases hw : s.waiting = []
    · rw [buildFeedbackPacket_idle hw]
      refine ⟨s, [], ?_, h, hw, rfl, rfl, ?_⟩
      · rw [append_nil]
        rfl
      · rw [hw]
        rfl
    · obtain ⟨s₁, fb, hbuild, hrep, hinv⟩ := h.buildFeedbackPacket_waiting hw
      obtain ⟨pre, hsplit, hne, hnumbers⟩ := hrep.entries
      have hlen : s₁.waiting.length < fuel := by
        have := length_pos_of_ne_nil hne
        have hl : s.waiting.length = pre.length + s₁.waiting.length := by
          rw [hsplit, length_append]
        omega
      obtain ⟨s', new, hloop, hinv', hidle, hun, htimes, hnew⟩ := ih hinv hlen (sent ++ [fb])
      rw [hbuild]
      refine ⟨s', fb :: new, ?_, hinv', hidle, hun.trans hrep.unwrapper,
        htimes.trans hrep.times, ?_⟩
      · rw [append_assoc] at hloop
        exact hloop
      rw [flatMap_cons, hnew, hnumbers, hsplit]
      unfold OrderedMap.keys
      rw [map_append, map_append]

theorem Inv.process (h : Inv s) : ∃ s' sent, s.process = .ok (s', sent) ∧ Inv s' ∧ s'.waiting = [] ∧
      s'.unwrapper = s.unwrapper ∧ s'.packetArrivalTimes = s.packetArrivalTimes ∧
      sent.flatMap numbers = (keys s.waiting).map wrapped := by
  have hlen : s.waiting.length < s.packetArrivalTimes.length + 1 :=
    Nat.lt_succ_of_le (dropWhile_sublist _).length_le
  exact h.processLoop hlen []

end RemoteEstimatorProxy

end WebRtc.Bwe
