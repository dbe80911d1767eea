import Mathlib.Data.Nat.ModEq
import WebRtc.Video.PacketBufferLookup

/-! `ClearTo`: when it removes exactly the old packets, and when `InsertPacket` refuses only packets
that were cleared. -/

namespace WebRtc.Video.Packets
open SequenceNumber Transition

variable {b b' : PacketBuffer} {fuel : Nat}

/-! ## The three fields `ClearTo` works with -/

structure SameHeader (b b' : PacketBuffer) : Prop where
  firstSeqNum : b'.firstSeqNum = b.firstSeqNum
  firstPacketReceived : b'.firstPacketReceived = b.firstPacketReceived
  isClearedToFirstSeqNum : b'.isClearedToFirstSeqNum = b.isClearedToFirstSeqNum

theorem SameHeader.refl (b : PacketBuffer) : SameHeader b b := ⟨rfl, rfl, rfl⟩

theorem SameHeader.trans {b'' : PacketBuffer} (h : SameHeader b b') (h' : SameHeader b' b'') :
    SameHeader b b'' :=
  ⟨h'.1.trans h.1, h'.2.trans h.2, h'.3.trans h.3⟩

theorem modifyInfo_sameHeader (b : PacketBuffer) (i : Nat) (f : ContinuityInfo → ContinuityInfo) :
    SameHeader b (b.modifyInfo i f) := ⟨rfl, rfl, rfl⟩

theorem freeSlot_sameHeader (b : PacketBuffer) (i : Nat) : SameHeader b (b.freeSlot i) :=
  ⟨rfl, rfl, rfl⟩

theorem markBack_sameHeader (n i : Nat) (b : PacketBuffer) : SameHeader b (markBack n i b) := by
  induction n generalizing i b with
  | zero => exact .refl b
  | succ n ih => exact (modifyInfo_sameHeader b i _).trans (ih _ _)

theorem expandWhileUsed_sameHeader (s : BitVec 16) (fuel : Nat) (b : PacketBuffer) :
    SameHeader b (expandWhileUsed s fuel b) := by
  have hexpand : ∀ b : PacketBuffer, SameHeader b (expandBufferSize b).2 := by
    intro b
    unfold expandBufferSize
    split <;> exact ⟨rfl, rfl, rfl⟩
  induction fuel generalizing b with
  | zero => exact .refl b
  | succ fuel ih =>
    have h := hexpand b
    unfold expandWhileUsed
    split
    · next b' hb' => rw [hb'] at h; exact h
    rename_i b' hb'
    rw [hb'] at h
    split
    · exact h.trans (ih b')
    · exact h

theorem returnFrameLoop_sameHeader (endIndex fuel : Nat) (b : PacketBuffer) (index : Nat)
    (s : BitVec 16) : SameHeader b (returnFrameLoop endIndex fuel b index s) := by
  induction fuel generalizing b index s with
  | zero => exact .refl b
  | succ fuel ih =>
    unfold returnFrameLoop
    split
    · exact .refl b
    split
    · exact (freeSlot_sameHeader b index).trans (ih _ _ _)
    · exact ih _ _ _

/-- The `old packet` path of `InsertPacket`. -/
def refusesOld (b : PacketBuffer) (s : BitVec 16) : Bool :=
  b.firstPacketReceived && aheadOf b.firstSeqNum s && b.isClearedToFirstSeqNum

theorem storePacket_header (b : PacketBuffer) (p : VCMPacket) :
    (refusesOld b p.seqNum ∧ storePacket b p = (b, some false)) ∨
      (refusesOld b p.seqNum = false ∧ SameHeader (noteSeqNum b p.seqNum) (storePacket b p).1) := by
  unfold storePacket refusesOld
  dsimp only
  split
  · next h => exact .inl ⟨h, rfl⟩
  rename_i h
  refine .inr ⟨by simpa using h, ?_⟩
  split
  · split
    · exact .refl _
    have hex := expandWhileUsed_sameHeader p.seqNum (noteSeqNum b p.seqNum).maxSize
      (noteSeqNum b p.seqNum)
    split
    · exact hex
    · exact hex.trans ⟨rfl, rfl, rfl⟩
  · exact ⟨rfl, rfl, rfl⟩

/-- A call of `InsertPacket` either takes the `old packet` path or notes the number. -/
theorem insertPacket_header (hw : WellFormed b) {p : VCMPacket}
    (h : step fuel b (.insertPacket p) = some b') : (refusesOld b p.seqNum ∧ b' = b) ∨
      (refusesOld b p.seqNum = false ∧ SameHeader (noteSeqNum b p.seqNum) b') := by
  have hw1 := storePacket_wellFormed hw p
  rcases storePacket_header b p with ⟨href, hst⟩ | ⟨href, hst⟩
  · simp only [step, insertPacket, hst] at h
    cases h
    exact .inl ⟨href, rfl⟩
  refine .inr ⟨href, ?_⟩
  obtain rfl | ⟨_, hf⟩ := step_insertPacket h
  · exact hst
  exact hst.trans (findFramesLoop_induct (SameHeader _)
    (fun b e h _ _ => h.trans (modifyInfo_sameHeader b e _))
    (fun b e n h _ _ => (h.trans (modifyInfo_sameHeader b e _)).trans
      (markBack_sameHeader (n + 1) e _)) fuel _ hw1.1 (.refl _) p.seqNum hf).2

theorem noteSeqNum_received (b : PacketBuffer) (s : BitVec 16) :
    (noteSeqNum b s).firstPacketReceived := by
  obtain ⟨_, he⟩ := noteSeqNum_eq b s
  rw [he]

theorem clearTo_header (b : PacketBuffer) (s : BitVec 16) :
    (clearTo b s).firstPacketReceived = b.firstPacketReceived ∧
      (b.firstPacketReceived = false → clearTo b s = b) ∧
      (b.firstPacketReceived → (clearTo b s).isClearedToFirstSeqNum ∧
        (clearTo b s).firstSeqNum =
          if aheadOrAt s b.firstSeqNum = true then s + 1 else b.firstSeqNum) := by
  have hflags : ∀ (fuel : Nat) (b : PacketBuffer),
      (clearToLoop s fuel b).firstPacketReceived = b.firstPacketReceived ∧
        (clearToLoop s fuel b).isClearedToFirstSeqNum = b.isClearedToFirstSeqNum := by
    intro fuel
    induction fuel with
    | zero => exact fun b => ⟨rfl, rfl⟩
    | succ fuel ih =>
      intro b
      unfold clearToLoop
      split
      · exact ih _
      · exact ⟨rfl, rfl⟩
  by_cases hr : b.firstPacketReceived
  · have hclear : clearTo b s =
        clearToLoop s (2 ^ 15 + 1) { b with isClearedToFirstSeqNum := true } := by
      unfold clearTo
      rw [if_neg (by simp [hr])]
    obtain ⟨h1, h2⟩ := hflags (2 ^ 15 + 1) { b with isClearedToFirstSeqNum := true }
    rw [hclear]
    refine ⟨h1, fun h => ?_, fun _ => ⟨h2, ?_⟩⟩
    · rw [hr] at h
      cases h
    · exact clearToLoop_firstSeqNum s _ { b with isClearedToFirstSeqNum := true }
        (clearTo_fuel s b.firstSeqNum)
  · have hclear : clearTo b s = b := by
      unfold clearTo
      rw [if_pos (by simpa using hr)]
    rw [hclear]
    exact ⟨rfl, fun _ => rfl, fun h => absurd h hr⟩

/-! ## What `ClearTo` removes -/

/-- `ClearTo(s)` leaves no number at or behind `s`, and leaves those ahead of `s` as they are. -/
structure ClearsExactly (b : PacketBuffer) (s : BitVec 16) : Prop where
  removed : ∀ i, i < b.size → ((clearTo b s).info i).used = true →
    aheadOrAt s ((clearTo b s).info i).seqNum = false
  kept : ∀ i, i < b.size → (b.info i).used = true → aheadOf (b.info i).seqNum s = true →
    (clearTo b s).info i = b.info i ∧ (clearTo b s).packet i = b.packet i

/-- Each buffered number is at or behind `s` exactly if the walk from `first_seq_num_` to `s`
meets its slot. -/
def Separated (b : PacketBuffer) (s : BitVec 16) : Prop :=
  ∀ i, i < b.size → (b.info i).used = true →
    (Walked b s i ↔ aheadOrAt s (b.info i).seqNum = true)

instance (b : PacketBuffer) (s : BitVec 16) : Decidable (Separated b s) :=
  inferInstanceAs (Decidable (∀ i, i < b.size → (b.info i).used = true →
    (Walked b s i ↔ aheadOrAt s (b.info i).seqNum = true)))

theorem aheadOf_iff_not_aheadOrAt (x s : BitVec 16) :
    aheadOf x s ↔ aheadOrAt s x = false := by
  by_cases h : x = s
  · subst h
    have hat : aheadOrAt x x := (aheadOrAt_iff x x).mpr (.inl (by simp))
    simp [aheadOf_irrefl, hat]
  have hswap := aheadOf_swap s x (Ne.symm h)
  have hat : aheadOf s x = aheadOrAt s x := by simp [aheadOf, Ne.symm h]
  rw [hswap, hat]
  simp

/-- Buffered numbers exist only once a packet has been received. -/
def UsedReceived (b : PacketBuffer) : Prop :=
  ∀ i, i < b.size → (b.info i).used = true → b.firstPacketReceived = true

theorem clearTo_exact_of (hw : WellFormed b) (hr : UsedReceived b)
    (s : BitVec 16) : ClearsExactly b s ↔ Separated b s := by
  cases hrec : b.firstPacketReceived with
  | false =>
    have hfree : ∀ i < b.size, ¬ (b.info i).used := fun i hi hu => by
      rw [hr i hi hu] at hrec
      cases hrec
    have heq := (clearTo_header b s).2.1 hrec
    refine iff_of_true ⟨fun i hi hu => ?_, fun i hi hu => absurd hu (hfree i hi)⟩
      fun i hi hu => absurd hu (hfree i hi)
    rw [heq] at hu
    exact absurd hu (hfree i hi)
  | true =>
    have hslots := clearTo_slots hw.shaped hw.pos hrec s
    constructor
    · intro h i hi hu
      obtain ⟨hinfo, _⟩ := hslots i
      by_cases hwalk : Walked b s i
      · refine iff_of_true hwalk ?_
        by_contra hnot
        have hkept := (h.kept i hi hu ((aheadOf_iff_not_aheadOrAt _ _).mpr (by simpa using hnot))).1
        rw [hinfo, if_pos hwalk] at hkept
        rw [← hkept] at hu
        cases hu
      · refine iff_of_false hwalk ?_
        have hrem := h.removed i hi
        rw [hinfo, if_neg hwalk] at hrem
        rw [hrem hu]
        exact Bool.false_ne_true
    · intro h
      refine ⟨fun i hi hu => ?_, fun i hi hu hahead => ?_⟩
      · obtain ⟨hinfo, _⟩ := hslots i
        rw [hinfo] at hu ⊢
        split at hu
        · cases hu
        rename_i hwalk
        rw [if_neg hwalk]
        simpa using fun hat => hwalk ((h i hi hu).mpr hat)
      · have hnot : ¬ Walked b s i := fun hwalk => by
          have hat := (h i hi hu).mp hwalk
          rw [(aheadOf_iff_not_aheadOrAt _ _).mp hahead] at hat
          cases hat
        obtain ⟨hinfo, hpacket⟩ := hslots i
        exact ⟨by rw [hinfo, if_neg hnot], hpacket hnot⟩

theorem step_usedReceived (hw : WellFormed b) (hr : UsedReceived b) {op : Op}
    (h : step fuel b op = some b') : UsedReceived b' := by
  have hfreed : ∀ {b'}, Freed b b' → b'.firstPacketReceived = b.firstPacketReceived →
      UsedReceived b' := by
    intro b' hf hrec i hi hu
    rw [hrec]
    exact hr i (hf.size ▸ hi) (hf.info_eq hu ▸ hu)
  cases op with
  | insertPacket p =>
    rcases insertPacket_header hw h with ⟨_, rfl⟩ | ⟨_, hh⟩
    · exact hr
    · exact fun _ _ _ => hh.firstPacketReceived.trans (noteSeqNum_received b p.seqNum)
  | clearTo s =>
    cases h
    exact hfreed (clearTo_freed hw.shaped hw.pos s) (clearTo_header b s).1
  | returnFrame first last =>
    cases h
    exact hfreed (returnFrame_freed hw.shaped hw.pos first last)
      (returnFrameLoop_sameHeader _ _ _ _ _).firstPacketReceived
  | clear =>
    cases h
    obtain ⟨hf, hu⟩ := clear_freed hw.shaped
    intro i hi hused
    rw [hu i (hf.size ▸ hi)] at hused
    cases hused

/-- **`ClearTo`.** In every reachable state it removes exactly the old packets if and only if the
buffered numbers at or behind `s` are those whose slots its walk meets. -/
theorem clearTo_exact_iff {start max : Nat} (hstart : ∃ k, start = 2 ^ k) (hmax : ∃ k, max = 2 ^ k)
    (hle : start ≤ max) {b : PacketBuffer} (hr : Reaches Returns (create start max) b)
    (s : BitVec 16) : ClearsExactly b s ↔ Separated b s := by
  obtain ⟨hw, hrec⟩ := hr.invariant (fun b => WellFormed b ∧ UsedReceived b)
    ⟨(create_inv hstart hmax hle).wf, fun i _ hu => by rw [create_info] at hu; cases hu⟩
    fun _ _ _ ⟨hw, hu⟩ ⟨_, hs⟩ => ⟨(step_wellFormed hw hs).1, step_usedReceived hw hu hs⟩
  exact clearTo_exact_of hw hrec s

theorem reaches_run {b₀ : PacketBuffer} (hr : Reaches Returns b₀ b)
    (ops : List Op) (h : run fuel b ops = some b') : Reaches Returns b₀ b' := by
  induction ops generalizing b with
  | nil => cases h; exact hr
  | cons op ops ih =>
    unfold Packets.run at h
    split at h
    · cases h
    · next _ hb1 => exact ih (hr.next op ⟨fuel, hb1⟩) h

/-- The buffer of four slots after these calls. -/
def afterCalls (ops : List Op) : PacketBuffer := (run 4 (create 4 4) ops).getD (create 4 4)

theorem reaches_afterCalls {ops : List Op} (h : (run 4 (create 4 4) ops).isSome) :
    Reaches Returns (create 4 4) (afterCalls ops) := by
  obtain ⟨b, hb⟩ := Option.isSome_iff_exists.mp h
  unfold afterCalls
  rw [hb]
  exact reaches_run .refl ops hb

/-- A packet that begins a frame and does not end it. -/
def beginning (s : BitVec 16) : Op := .insertPacket { seqNum := s, isFirstPacketInFrame := true }

/-- Three numbers in a ring of four slots, cleared up to the second one. -/
theorem clearTo_exact_three :
    ClearsExactly (afterCalls [beginning 7, beginning 8, beginning 9]) 8 :=
  (clearTo_exact_iff ⟨2, rfl⟩ ⟨2, rfl⟩ (Nat.le_refl 4) (reaches_afterCalls (by decide)) 8).mpr
    (by decide)

/-- Packet 0 is returned and packet 5 is buffered: `ClearTo(1)` frees the slot of packet 5. With
0, 40001 and 20002 buffered, `first_seq_num_` is 20002 and `ClearTo(10)` leaves packet 0. -/
theorem clearTo_not_exact : (∃ b, Reaches Returns (create 4 4) b ∧ ¬ ClearsExactly b 1) ∧
      ∃ b, Reaches Returns (create 4 4) b ∧ ¬ ClearsExactly b 10 := by
  refine ⟨⟨afterCalls [.insertPacket { isFirstPacketInFrame := true, markerBit := true },
      .returnFrame 0 0, beginning 5], reaches_afterCalls (by decide), fun h => ?_⟩,
    ⟨afterCalls [beginning 0, beginning 40001, beginning 20002],
      reaches_afterCalls (by decide), fun h => ?_⟩⟩
  · have hkept := congrArg ContinuityInfo.used (h.kept 1 (by decide) (by decide) (by decide)).1
    exact absurd hkept (by decide)
  · exact absurd (h.removed 0 (by decide) (by decide)) (by decide)

/-! ## What `InsertPacket` refuses -/

/-- The buffer, and the arguments of the `ClearTo` calls since the last `Clear`. -/
structure Recorded where
  buffer : PacketBuffer
  clears : List (BitVec 16)

def Recorded.step (r : Recorded) (op : Op) (r' : Recorded) : Prop :=
  Returns r.buffer op r'.buffer ∧ r'.clears =
    match op with
    | .clearTo c => r.clears ++ [c]
    | .clear => []
    | _ => r.clears

/-- A `ClearTo` that marks the buffer as cleared to `first_seq_num_` does clear up to it. -/
def ClearsUpToFirst (r : Recorded) : Op → Prop
  | .clearTo c => r.buffer.firstPacketReceived = true → r.buffer.isClearedToFirstSeqNum = false →
      aheadOrAt c r.buffer.firstSeqNum = true ∨ c + 1 = r.buffer.firstSeqNum
  | _ => True

/-- A buffer that counts as cleared has been cleared up to the number before `first_seq_num_`. -/
structure ClearedToFirst (r : Recorded) : Prop where
  wf : WellFormed r.buffer
  received : r.buffer.isClearedToFirstSeqNum = true → r.buffer.firstPacketReceived = true
  cleared : r.buffer.isClearedToFirstSeqNum = true →
    ∃ c, c ∈ r.clears ∧ r.buffer.firstSeqNum = c + 1

theorem noteSeqNum_cleared {s : BitVec 16}
    (hrec : b.isClearedToFirstSeqNum → b.firstPacketReceived)
    (href : refusesOld b s = false) (hc : (noteSeqNum b s).isClearedToFirstSeqNum) :
    b.isClearedToFirstSeqNum ∧ (noteSeqNum b s).firstSeqNum = b.firstSeqNum := by
  unfold noteSeqNum at hc ⊢
  unfold refusesOld at href
  split at hc
  · next h =>
    rw [hrec hc] at h
    cases h
  rename_i h
  rw [if_neg h]
  split at hc
  · next hahead =>
    have hc' : b.isClearedToFirstSeqNum := hc
    rw [hrec hc', hahead, hc'] at href
    cases href
  · next hahead => exact ⟨hc, by rw [if_neg hahead]⟩

theorem step_clearedToFirst {r r' : Recorded} (h : ClearedToFirst r) {op : Op}
    (hok : ClearsUpToFirst r op) (hstep : r.step op r') : ClearedToFirst r' := by
  obtain ⟨⟨_, hs⟩, hclears⟩ := hstep
  have hw := (step_wellFormed h.wf hs).1
  cases op with
  | insertPacket p =>
    rcases insertPacket_header h.wf hs with ⟨_, hb⟩ | ⟨href, hh⟩
    · refine ⟨hw, ?_, ?_⟩
      · rw [hb]
        exact h.received
      · rw [hclears, hb]
        exact h.cleared
    refine ⟨hw, fun _ => hh.firstPacketReceived.trans (noteSeqNum_received _ _), fun hc => ?_⟩
    rw [hh.isClearedToFirstSeqNum] at hc
    obtain ⟨hc', hfirst⟩ := noteSeqNum_cleared h.received href hc
    obtain ⟨c, hmem, hc1⟩ := h.cleared hc'
    exact ⟨c, by rw [hclears]; exact hmem, by rw [hh.firstSeqNum, hfirst, hc1]⟩
  | clearTo c =>
    have hb : clearTo r.buffer c = r'.buffer := Option.some.inj hs
    obtain ⟨hrec, hnot, hyes⟩ := clearTo_header r.buffer c
    rw [hb] at hrec hnot hyes
    refine ⟨hw, fun hc => ?_, fun hc => ?_⟩
    · rw [hrec]
      by_contra hr
      rw [hnot (by simpa using hr)] at hc
      exact hr (h.received hc)
    rw [hclears]
    by_cases hr : r.buffer.firstPacketReceived
    · obtain ⟨_, hfirst⟩ := hyes hr
      by_cases hat : aheadOrAt c r.buffer.firstSeqNum
      · exact ⟨c, by simp, by rw [hfirst, if_pos hat]⟩
      rw [if_neg hat] at hfirst
      by_cases hcl : r.buffer.isClearedToFirstSeqNum
      · obtain ⟨d, hd, hd1⟩ := h.cleared hcl
        exact ⟨d, List.mem_append_left _ hd, by rw [hfirst, hd1]⟩
      rcases hok hr (by simpa using hcl) with hat' | hc1
      · exact absurd hat' hat
      · exact ⟨c, by simp, by rw [hfirst, hc1]⟩
    · rw [hnot (by simpa using hr)] at hc
      exact absurd (h.received hc) hr
  | returnFrame first last =>
    have hb : returnFrame r.buffer first last = r'.buffer := Option.some.inj hs
    have hh : SameHeader r.buffer r'.buffer := hb ▸ returnFrameLoop_sameHeader _ _ _ _ _
    refine ⟨hw, fun hc => ?_, fun hc => ?_⟩
    · rw [hh.isClearedToFirstSeqNum] at hc
      rw [hh.firstPacketReceived]
      exact h.received hc
    rw [hh.isClearedToFirstSeqNum] at hc
    rw [hh.firstSeqNum, hclears]
    exact h.cleared hc
  | clear =>
    have hb : clear r.buffer = r'.buffer := Option.some.inj hs
    have hcl : r'.buffer.isClearedToFirstSeqNum = false := by rw [← hb]; rfl
    refine ⟨hw, fun hc => ?_, fun hc => ?_⟩ <;>
    · rw [hcl] at hc
      cases hc

/-- The number before `first_seq_num_` is at or ahead of every number `first_seq_num_` is ahead
of. -/
theorem aheadOrAt_pred {c s : BitVec 16} (h : aheadOf (c + 1) s) : aheadOrAt c s := by
  rw [aheadOf_iff] at h
  rw [aheadOrAt_iff]
  bv_omega

/-- **Refused packets.** In every run whose `ClearTo` calls clear up to `first_seq_num_`, a packet
that is refused as old has a number some `ClearTo` since the last `Clear` was at or ahead of. -/
theorem refused_was_cleared {start max : Nat} (hstart : ∃ k, start = 2 ^ k)
    (hmax : ∃ k, max = 2 ^ k) (hle : start ≤ max) {r : Recorded}
    (hr : Reaches (Guarded ClearsUpToFirst Recorded.step) ⟨create start max, []⟩ r) {s : BitVec 16}
    (href : refusesOld r.buffer s = true) : ∃ c, c ∈ r.clears ∧ aheadOrAt c s = true := by
  have hinv : ClearedToFirst r := hr.invariant ClearedToFirst
    ⟨(create_inv hstart hmax hle).wf, (fun h => nomatch h), (fun h => nomatch h)⟩
    fun _ _ _ h ⟨hok, hs⟩ => step_clearedToFirst h hok hs
  unfold refusesOld at href
  simp only [Bool.and_eq_true] at href
  obtain ⟨⟨_, hahead⟩, hcl⟩ := href
  obtain ⟨c, hmem, hfirst⟩ := hinv.cleared hcl
  rw [hfirst] at hahead
  exact ⟨c, hmem, aheadOrAt_pred hahead⟩

/-- After packet 10 and `ClearTo(12)` packet 11 is refused. -/
theorem refused_was_cleared_eleven : refusesOld (clearTo (afterCalls [beginning 10]) 12) 11 = true ∧
      ∃ c, c ∈ [12#16] ∧ aheadOrAt c 11 = true := by
  have href : refusesOld (clearTo (afterCalls [beginning 10]) 12) 11 = true := by decide
  have hinsert : Guarded ClearsUpToFirst Recorded.step ⟨create 4 4, []⟩ (beginning 10)
      ⟨afterCalls [beginning 10], []⟩ := ⟨trivial, ⟨4, rfl⟩, rfl⟩
  have hclear : Guarded ClearsUpToFirst Recorded.step ⟨afterCalls [beginning 10], []⟩ (.clearTo 12)
      ⟨clearTo (afterCalls [beginning 10]) 12, [12]⟩ :=
    ⟨fun _ _ => .inl (by decide), ⟨4, rfl⟩, rfl⟩
  exact ⟨href, refused_was_cleared ⟨2, rfl⟩ ⟨2, rfl⟩ (Nat.le_refl 4)
    ((Reaches.refl.next _ hinsert).next _ hclear) href⟩

/-- After packet 10 and `ClearTo(5)`, which removes nothing, packet 7 is refused. -/
theorem refused_not_cleared :
    ∃ r : Recorded, Reaches Recorded.step ⟨create 4 4, []⟩ r ∧ r.clears = [5] ∧
      refusesOld r.buffer 7 = true ∧ aheadOrAt (5 : BitVec 16) 7 = false := by
  have hinsert : Recorded.step ⟨create 4 4, []⟩ (beginning 10) ⟨afterCalls [beginning 10], []⟩ :=
    ⟨⟨4, rfl⟩, rfl⟩
  have hclear : Recorded.step ⟨afterCalls [beginning 10], []⟩ (.clearTo 5)
      ⟨clearTo (afterCalls [beginning 10]) 5, [5]⟩ := ⟨⟨4, rfl⟩, rfl⟩
  exact ⟨_, (Reaches.refl.next _ hinsert).next _ hclear, rfl, by decide, by decide⟩

end WebRtc.Video.Packets
