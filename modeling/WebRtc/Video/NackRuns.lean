import Mathlib.Data.List.Nodup
import WebRtc.Lib.Transition
import WebRtc.Video.NackModule

/-! Whole runs of `NackModule`. An entry's age is its distance behind the newest sequence number.
Ages fall along the nack list and stay between 1 and `kMaxPacketAge`, so that the wrapping
comparison orders the list; everything the module asks for follows from that. -/

namespace WebRtc.Video.Nack

open OrderedMap SequenceNumber Transition List NackModule

variable {least most : Nat} {newest x seqNum : BitVec 16} {m : NackModule} {o : Observed}

/-! ## Ages -/

/-- How far `x` is behind `newest`. -/
def age (newest x : BitVec 16) : Nat := (newest - x).toNat

/-- Numbers behind `newest` by `least` to `most`, the oldest first. -/
structure Aged (least most : Nat) (newest : BitVec 16) (numbers : List (BitVec 16)) : Prop where
  falling : numbers.Pairwise fun a b => age newest b < age newest a
  bounded : ∀ x ∈ numbers, least ≤ age newest x ∧ age newest x ≤ most

theorem Aged.sublist {l l' : List (BitVec 16)} (h : Aged least most newest l)
    (hs : l'.Sublist l) : Aged least most newest l' :=
  ⟨h.falling.sublist hs, fun x hx => h.bounded x (hs.subset hx)⟩

theorem Aged.nodup {l : List (BitVec 16)} (h : Aged least most newest l) : l.Nodup :=
  h.falling.imp fun hab he => by rw [he] at hab; omega

theorem Aged.mono {l : List (BitVec 16)} {n : Nat} (h : Aged least most newest l)
    (hn : n ≤ least) : Aged n most newest l :=
  ⟨h.falling, fun x hx => by have := h.bounded x hx; omega⟩

theorem aged_nil (least most : Nat) (newest : BitVec 16) : Aged least most newest [] :=
  ⟨List.Pairwise.nil, by simp⟩

/-- Within half of the number range the wrapping comparison is the comparison of ages. -/
theorem aheadOf_iff_age (newest : BitVec 16) {k : BitVec 16} (hk : age newest k < 32768)
    (hx : age newest x < 32768) : aheadOf k x ↔ age newest k < age newest x := by
  rw [aheadOf_iff]
  unfold age at *
  bv_omega

/-- Moving `newest` ahead by `g` makes everything older by `g`. -/
theorem age_advance (h : age newest x + (seqNum - newest).toNat < 65536) :
    age seqNum x = age newest x + (seqNum - newest).toNat := by
  unfold age at *
  bv_omega

theorem Aged.advance {l : List (BitVec 16)} (h : Aged least most newest l)
    (seqNum : BitVec 16) (hgap : most + (seqNum - newest).toNat < 65536) :
    Aged (least + (seqNum - newest).toNat) (most + (seqNum - newest).toNat) seqNum l := by
  have hadv : ∀ x ∈ l, age seqNum x = age newest x + (seqNum - newest).toNat := fun x hx =>
    age_advance (by have := h.bounded x hx; omega)
  refine ⟨h.falling.imp_of_mem fun ha hb hab => ?_, fun x hx => ?_⟩
  · rw [hadv _ ha, hadv _ hb]
    omega
  · rw [hadv x hx]
    have := h.bounded x hx
    omega

/-! ## Parts of the list -/

variable {ν : Type} {l : List (BitVec 16 × ν)}

theorem keys_fromLowerBound_sublist (k : BitVec 16) (l : List (BitVec 16 × ν)) :
    (keys (fromLowerBound comp k l)).Sublist (keys l) :=
  (dropWhile_sublist _).map _

/-- Where the comparison orders the list, the entries from the lower bound on are those that are
not older than it. -/
theorem fromLowerBound_eq_filter {k : BitVec 16}
    (h : Aged least most newest (keys l)) (hmost : most < 32768) (hk : age newest k < 32768) :
    fromLowerBound comp k l = l.filter fun e => age newest e.1 ≤ age newest k := by
  have hcomp : ∀ e ∈ l, comp e.1 k = true ↔ age newest k < age newest e.1 := fun e he =>
    aheadOf_iff_age newest hk (by have := h.bounded e.1 (mem_keys_of_mem he); omega)
  rw [fromLowerBound, dropWhile_eq_filter]
  · refine filter_congr fun e he => ?_
    rw [Bool.eq_iff_iff, Bool.not_eq_true', Bool.eq_false_iff, ne_eq, hcomp e he,
      decide_eq_true_eq]
    omega
  · refine (pairwise_map.mp h.falling).imp_of_mem fun ha hb hab hold => ?_
    rw [hcomp _ hb] at hold
    exact (hcomp _ ha).mpr (by omega)

theorem sublist_removePacketsUntilKeyFrame (nackList : NackList) (keyframes : KeyframeList) :
    (removePacketsUntilKeyFrame nackList keyframes).2.1.Sublist nackList ∧
      (removePacketsUntilKeyFrame nackList keyframes).2.2.Sublist keyframes := by
  induction keyframes with
  | nil => exact ⟨List.Sublist.refl _, List.Sublist.refl _⟩
  | cons e keyframes ih =>
    unfold removePacketsUntilKeyFrame
    dsimp only
    split
    · exact ⟨dropWhile_sublist _, List.Sublist.refl _⟩
    · exact ⟨ih.1, ih.2.cons e⟩

theorem sublist_makeRoom (numNewNacks : Nat) (nackList : NackList) (keyframes : KeyframeList) :
    (makeRoom numNewNacks nackList keyframes).1.Sublist nackList ∧
      (makeRoom numNewNacks nackList keyframes).2.Sublist keyframes := by
  fun_induction makeRoom numNewNacks nackList keyframes with
  | case1 nackList keyframes _ _ ih =>
    obtain ⟨hlist, hkeyframes⟩ := sublist_removePacketsUntilKeyFrame nackList keyframes
    exact ⟨ih.1.trans hlist, ih.2.trans hkeyframes⟩
  | case2 nackList keyframes => exact sublist_removePacketsUntilKeyFrame nackList keyframes

/-! ## New numbers -/

/-- What is not removed as too old is within the age limit. -/
theorem Aged.trim (h : Aged least most newest (keys l)) (hmost : most < 32768) :
    Aged least 10000 newest (keys (fromLowerBound comp (newest - kMaxPacketAge) l)) := by
  have hlimit : age newest (newest - kMaxPacketAge) = 10000 := by
    unfold age kMaxPacketAge
    bv_omega
  refine ⟨h.falling.sublist (keys_fromLowerBound_sublist _ l), fun x hx => ?_⟩
  rw [fromLowerBound_eq_filter h hmost (by omega), hlimit] at hx
  obtain ⟨e, he, rfl⟩ := mem_map.mp hx
  obtain ⟨hmem, hle⟩ := mem_filter.mp he
  exact ⟨(h.bounded e.1 (mem_keys_of_mem hmem)).1, by simpa using hle⟩

/-- The entry of a number that was just added. -/
def fresh (seqNum : BitVec 16) : BitVec 16 × NackInfo :=
  (seqNum, ⟨seqNum, seqNum + waitNumberOfPackets, -1, 0⟩)

/-- A number younger than the list goes to its end. -/
theorem insertNew_younger (v : ν)
    (h : Aged (age newest x + 1) most newest (keys l)) (hmost : most < 32768) :
    x ∉ keys l ∧ insertNew comp x v l = l ++ [(x, v)] := by
  have hnew : x ∉ keys l := fun hmem => by have := h.bounded x hmem; omega
  refine ⟨hnew, insertNew_eq_append v hnew fun j hj => ?_⟩
  have := h.bounded j hj
  rw [comp, Bool.eq_false_iff, ne_eq, aheadOf_iff_age newest (by omega) (by omega)]
  omega

theorem Aged.concat {v : ν}
    (h : Aged (age newest x + 1) most newest (keys l)) (hx : age newest x ≤ most) :
    Aged (age newest x) most newest (keys (l ++ [(x, v)])) := by
  have hkeys : keys (l ++ [(x, v)]) = keys l ++ [x] := by simp [OrderedMap.keys]
  rw [hkeys]
  refine ⟨pairwise_append.mpr ⟨h.falling, pairwise_singleton _ _, fun a ha b hb => ?_⟩,
    fun y hy => ?_⟩
  · rw [mem_singleton.mp hb]
    exact (h.bounded a ha).1
  · rcases mem_append.mp hy with hy | hy
    · have := h.bounded y hy
      omega
    · rw [mem_singleton.mp hy]
      omega

theorem assign_eq_append (info : NackInfo) {l : NackList}
    (h : Aged (age newest seqNum + 1) most newest (keys l)) (hmost : most < 32768) :
    assign seqNum info l = l ++ [(seqNum, info)] := by
  obtain ⟨hnew, happend⟩ := insertNew_younger info h hmost
  rw [assign, happend]
  clear h happend
  induction l with
  | nil => simp [OrderedMap.modify]
  | cons e l ih =>
    have hne : e.1 ≠ seqNum := fun he => hnew (he ▸ mem_cons_self)
    rw [cons_append, OrderedMap.modify, if_neg hne, ih fun hmem => hnew (.tail _ hmem)]

/-- Adding the numbers in front of `last`, by induction over their count. -/
theorem addFrom_spec (count : Nat) (last start : BitVec 16) (l : NackList)
    (hstart : age last start = count) (hcount : count ≤ 1000)
    (h : Aged (count + 1) 10000 last (keys l)) :
    Aged 1 10000 last (keys (addFrom count start l)) ∧
      (addFrom count start l).length = l.length + count ∧ ∀ e ∈ addFrom count start l,
        e ∈ l ∨ ∃ s, e = fresh s ∧ 1 ≤ age last s ∧ age last s ≤ count := by
  induction count generalizing start l with
  | zero => exact ⟨h, rfl, fun e he => .inl he⟩
  | succ count ih =>
    rw [← hstart] at h
    have hassign : assign start (fresh start).2 l = l ++ [fresh start] :=
      assign_eq_append _ h (by decide)
    have hnext : age last (start + 1) = count := by
      unfold age at *
      bv_omega
    have hstep : Aged (age last start) 10000 last (keys (l ++ [fresh start])) :=
      h.concat (by omega)
    rw [hstart] at hstep
    obtain ⟨haged, hlength, hfrom⟩ := ih (start + 1) (l ++ [fresh start]) hnext (by omega) hstep
    have heq : addFrom (count + 1) start l = addFrom count (start + 1) (l ++ [fresh start]) := by
      rw [← hassign]
      rfl
    rw [heq]
    refine ⟨haged, ?_, fun e he => ?_⟩
    · rw [hlength, length_append, length_singleton]
      omega
    rcases hfrom e he with he | ⟨s, rfl, h1, h2⟩
    · rcases mem_append.mp he with he | he
      · exact .inl he
      · exact .inr ⟨start, mem_singleton.mp he, by omega, by omega⟩
    · exact .inr ⟨s, rfl, h1, by omega⟩

/-- What `AddPacketsToNack` leaves in the list: old entries, and fresh ones for numbers that were
not in the list, between the newest number and the one received. -/
theorem addPacketsToNack_spec (haged : Aged 1 10000 m.newestSeqNum (keys m.nackList))
    (hahead : 1 ≤ (seqNum - m.newestSeqNum).toNat) :
    Aged 1 10000 seqNum (keys (m.addPacketsToNack (m.newestSeqNum + 1) seqNum).1.nackList) ∧
      (m.addPacketsToNack (m.newestSeqNum + 1) seqNum).1.nackList.length ≤ kMaxNackPackets ∧
      ∀ e ∈ (m.addPacketsToNack (m.newestSeqNum + 1) seqNum).1.nackList,
        e ∈ m.nackList ∨ ∃ s, e = fresh s ∧ s ∉ keys m.nackList := by
  have hnum : (forwardDiff (m.newestSeqNum + 1) seqNum).toNat =
      (seqNum - m.newestSeqNum).toNat - 1 := by
    unfold forwardDiff
    bv_omega
  -- the new numbers behind any part of the list that is left, if there is room
  have hadd : ∀ l : NackList,
      l.Sublist (fromLowerBound comp (seqNum - kMaxPacketAge) m.nackList) →
      l.length + (forwardDiff (m.newestSeqNum + 1) seqNum).toNat ≤ kMaxNackPackets →
      let added := addFrom (forwardDiff (m.newestSeqNum + 1) seqNum).toNat (m.newestSeqNum + 1) l
      Aged 1 10000 seqNum (keys added) ∧ added.length ≤ kMaxNackPackets ∧
        ∀ e ∈ added, e ∈ m.nackList ∨ ∃ s, e = fresh s ∧ s ∉ keys m.nackList := by
    intro l hl hroom
    dsimp only
    rw [hnum] at hroom ⊢
    have hgap : (seqNum - m.newestSeqNum).toNat ≤ 1001 := by
      simp only [kMaxNackPackets] at hroom
      omega
    have hsub : l.Sublist m.nackList := hl.trans (dropWhile_sublist _)
    have hadv := haged.advance seqNum (by omega)
    have hstart : age seqNum (m.newestSeqNum + 1) = (seqNum - m.newestSeqNum).toNat - 1 := by
      rw [← hnum]
      rfl
    obtain ⟨h1, h2, h3⟩ := addFrom_spec _ seqNum (m.newestSeqNum + 1) l hstart (by omega)
      (((hadv.mono (by omega)).trim (by omega)).sublist (hl.map _))
    refine ⟨h1, by rw [h2]; exact hroom, fun e he => ?_⟩
    rcases h3 e he with he | ⟨s, rfl, -, hs⟩
    · exact .inl (hsub.subset he)
    refine .inr ⟨s, rfl, fun hmem => ?_⟩
    have := (hadv.bounded s hmem).1
    omega
  unfold addPacketsToNack
  dsimp only
  split
  · split
    · exact ⟨aged_nil _ _ _, Nat.zero_le _, by simp⟩
    · exact hadd _ (sublist_makeRoom _ _ _).1 (by omega)
  · exact hadd _ (List.Sublist.refl _) (by omega)

/-! ## Batches -/

/-- `e'` is the entry `e` behind `batch`. -/
structure Batched (batch : List (BitVec 16)) (e e' : BitVec 16 × NackInfo) : Prop where
  key : e'.1 = e.1
  seqNum : e'.2.seqNum = e.2.seqNum
  retries : e'.2.retries = e.2.retries + batch.count e'.1
  small : e.2.retries < kMaxNackRetries → e'.2.retries < kMaxNackRetries

/-- What the loop of `GetNackBatch` sends and keeps. -/
theorem batchFrom_spec (m : NackModule) (options : NackModule.NackFilterOptions) (nowMs : Int)
    (l : NackList) (hkey : ∀ e ∈ l, e.2.seqNum = e.1) (hnodup : (keys l).Nodup) :
    (m.batchFrom options nowMs l).1.Sublist (keys l) ∧
      (keys (m.batchFrom options nowMs l).2).Sublist (keys l) ∧
      ∀ e' ∈ (m.batchFrom options nowMs l).2, ∃ e ∈ l,
        Batched (m.batchFrom options nowMs l).1 e e' := by
  induction l with
  | nil => exact ⟨List.Sublist.refl _, List.Sublist.refl _, by simp [batchFrom]⟩
  | cons e l ih =>
    obtain ⟨key, info⟩ := e
    obtain ⟨hhead, htail⟩ := nodup_cons.mp hnodup
    obtain ⟨hbatch, hkept, hentry⟩ := ih (fun e he => hkey e (.tail _ he)) htail
    have hseq : info.seqNum = key := hkey _ (.head _)
    have hnot : key ∉ (m.batchFrom options nowMs l).1 := fun hmem => hhead (hbatch.subset hmem)
    -- the entries behind the first one do not see it in the batch
    have hrest : ∀ (first : Bool), ∀ e' ∈ (m.batchFrom options nowMs l).2, ∃ e ∈ (key, info) :: l,
        Batched (if first then key :: (m.batchFrom options nowMs l).1
          else (m.batchFrom options nowMs l).1) e e' := by
      intro first e' he'
      obtain ⟨e, he, hk, hs, hr, hlt⟩ := hentry e' he'
      refine ⟨e, .tail _ he, hk, hs, ?_, hlt⟩
      have hne : key ≠ e'.1 := by
        intro hke
        apply hhead
        rw [hke]
        exact hkept.subset (mem_keys_of_mem (e := e') he')
      cases first with
      | false => exact hr
      | true => simpa [count_cons, hne] using hr
    unfold batchFrom
    dsimp only
    rw [hseq]
    by_cases hdue : m.due options nowMs info
    · rw [if_pos hdue]
      split
      · exact ⟨hbatch.cons_cons key, hkept.cons key, fun e' he' => hrest true e' he'⟩
      rename_i hretries
      refine ⟨hbatch.cons_cons key, hkept.cons_cons key, fun e' he' => ?_⟩
      rcases mem_cons.mp he' with rfl | he'
      · refine ⟨(key, info), .head _, rfl, hseq.symm, ?_, fun _ => Nat.lt_of_not_le hretries⟩
        simp [count_eq_zero_of_not_mem hnot]
      · exact hrest true e' he'
    · rw [if_neg hdue]
      refine ⟨hbatch.cons key, hkept.cons_cons key, fun e' he' => ?_⟩
      rcases mem_cons.mp he' with rfl | he'
      · exact ⟨(key, info), .head _, rfl, rfl, by simp [count_eq_zero_of_not_mem hnot], fun h => h⟩
      · exact hrest false e' he'

/-! ## Runs -/

inductive Call
  | onReceivedPacket (nowMs : Int) (packet : Packet)
  | clearUpTo (seqNum : BitVec 16)
  | clear
  | updateRtt (rttMs : Int)
  | process (nowMs : Int)

/-- The result of a call. -/
def Call.run (m : NackModule) : Call → NackModule.Result
  | .onReceivedPacket nowMs packet => m.onReceivedPacket nowMs packet
  | .clearUpTo seqNum => { module := m.clearUpTo seqNum }
  | .clear => { module := m.clear }
  | .updateRtt rttMs => { module := m.updateRtt rttMs }
  | .process nowMs => m.process nowMs

/-- The numbers in the nack list when a call collects its batch. -/
def Call.listed (m : NackModule) : Call → List (BitVec 16)
  | .onReceivedPacket _ packet =>
    if m.initialized = true ∧ packet.seqNum ≠ m.newestSeqNum ∧
        aheadOf m.newestSeqNum packet.seqNum = false then
      keys (m.advance packet).1.nackList
    else []
  | .process _ => keys m.nackList
  | _ => []

/-- The number a call reports as received. -/
def Call.received : Call → Option (BitVec 16)
  | .onReceivedPacket _ packet => some packet.seqNum
  | _ => none

/-- A module with, for every number, how often it was sent and whether it was received since it was
added to the nack list. For a number that is not in the list the count starts anew. -/
structure Observed where
  module : NackModule
  sent : BitVec 16 → Nat
  received : BitVec 16 → Bool

def Observed.after (o : Observed) (call : Call) : Observed where
  module := (call.run o.module).module
  sent := fun x =>
    (if x ∈ keys o.module.nackList then o.sent x else 0) + (call.run o.module).batch.count x
  received := fun x =>
    decide (call.received = some x) || (decide (x ∈ keys o.module.nackList) && o.received x)

def Step (o : Observed) (call : Call) (o' : Observed) : Prop := o' = o.after call

def initial : Observed := ⟨{}, fun _ => 0, fun _ => false⟩

/-- The invariant of every run. -/
structure Ok (o : Observed) : Prop where
  running : o.module.running = true
  uninitialized : o.module.initialized = false → o.module.nackList = []
  aged : Aged 1 10000 o.module.newestSeqNum (keys o.module.nackList)
  length : o.module.nackList.length ≤ kMaxNackPackets
  entries : ∀ e ∈ o.module.nackList,
    e.2.seqNum = e.1 ∧ e.2.retries < kMaxNackRetries ∧ e.2.retries = o.sent e.1
  unreceived : ∀ x ∈ keys o.module.nackList, o.received x = false
  sent : ∀ x, o.sent x ≤ kMaxNackRetries

/-- A number in the list has been sent fewer times than the limit. -/
theorem Ok.sent_lt (h : Ok o) (hx : x ∈ keys o.module.nackList) : o.sent x < kMaxNackRetries := by
  obtain ⟨e, he, rfl⟩ := mem_map.mp hx
  obtain ⟨-, hlt, heq⟩ := h.entries e he
  rwa [← heq]

/-- The state before a batch: old entries, and fresh ones for numbers that were not listed. -/
structure Ready (o : Observed) (m : NackModule) : Prop where
  running : m.running = true
  uninitialized : m.initialized = false → m.nackList = []
  aged : Aged 1 10000 m.newestSeqNum (keys m.nackList)
  length : m.nackList.length ≤ kMaxNackPackets
  origin : ∀ e ∈ m.nackList,
    e ∈ o.module.nackList ∨ ∃ s, e = fresh s ∧ s ∉ keys o.module.nackList

/-- How often a number counts as sent when a batch is collected, and its key. -/
theorem Ready.entry (hr : Ready o m) (h : Ok o) {e : BitVec 16 × NackInfo} (he : e ∈ m.nackList) :
    e.2.seqNum = e.1 ∧ e.2.retries < kMaxNackRetries ∧
      e.2.retries = if e.1 ∈ keys o.module.nackList then o.sent e.1 else 0 := by
  rcases hr.origin e he with he | ⟨s, rfl, hs⟩
  · obtain ⟨hkey, hlt, heq⟩ := h.entries e he
    rw [if_pos (mem_keys_of_mem he)]
    exact ⟨hkey, hlt, heq⟩
  · exact ⟨rfl, by simp [fresh, kMaxNackRetries], by simp [fresh, hs]⟩

/-- The sends of a batch: every number at most once, and it was listed. -/
theorem Ready.batch (hr : Ready o m) (h : Ok o) (options : NackModule.NackFilterOptions)
    (nowMs : Int) : (m.getNackBatch options nowMs).1.Sublist (keys m.nackList) ∧
      (m.getNackBatch options nowMs).1.Nodup := by
  obtain ⟨hsub, -, -⟩ := batchFrom_spec m options nowMs m.nackList
    (fun e he => (hr.entry h he).1) hr.aged.nodup
  exact ⟨hsub, hr.aged.nodup.sublist hsub⟩

/-- **A batch keeps the invariant.** -/
theorem Ready.getNackBatch (hr : Ready o m) (h : Ok o) (options : NackModule.NackFilterOptions)
    (nowMs : Int) {received : BitVec 16 → Bool}
    (hreceived : ∀ x ∈ keys m.nackList, received x = false) :
    Ok ⟨(m.getNackBatch options nowMs).2, fun x =>
      (if x ∈ keys o.module.nackList then o.sent x else 0) +
        (m.getNackBatch options nowMs).1.count x, received⟩ := by
  obtain ⟨hbatch, hkept, hentry⟩ := batchFrom_spec m options nowMs m.nackList
    (fun e he => (hr.entry h he).1) hr.aged.nodup
  have hlen : (m.batchFrom options nowMs m.nackList).2.length ≤ m.nackList.length := by
    simpa [OrderedMap.keys] using hkept.length_le
  refine ⟨hr.running, fun hinit => ?_, hr.aged.sublist hkept, Nat.le_trans hlen hr.length,
    fun e' he' => ?_, fun x hx => hreceived x (hkept.subset hx), fun x => ?_⟩
  · have hzero : m.nackList.length = 0 := by rw [hr.uninitialized hinit]; rfl
    exact eq_nil_of_length_eq_zero (Nat.le_zero.mp (hzero ▸ hlen))
  · obtain ⟨e, he, hk, hs, hretries, hlt⟩ := hentry e' he'
    obtain ⟨hkey, hsmall, hcount⟩ := hr.entry h he
    refine ⟨by rw [hs, hkey, hk], hlt hsmall, ?_⟩
    rw [hretries, hcount, hk]
    rfl
  have hone : (m.getNackBatch options nowMs).1.count x ≤ 1 :=
    nodup_iff_count_le_one.mp (hr.batch h options nowMs).2 x
  dsimp only
  split
  · have := h.sent_lt ‹_›
    omega
  · simp only [kMaxNackRetries]
    omega

/-- A call that only removes entries and sends nothing. -/
theorem Ok.remove (h : Ok o) (m : NackModule) (hrunning : m.running)
    (hinit : m.initialized = false → o.module.initialized = false)
    (hnewest : m.nackList = [] ∨ m.newestSeqNum = o.module.newestSeqNum)
    (hsub : m.nackList.Sublist o.module.nackList) {received : BitVec 16 → Bool}
    (hreceived : ∀ x ∈ keys m.nackList, received x = false) :
    Ok ⟨m, fun x => (if x ∈ keys o.module.nackList then o.sent x else 0) +
      count x [], received⟩ := by
  refine ⟨hrunning, fun hi => ?_, ?_, Nat.le_trans hsub.length_le h.length, fun e he => ?_,
    hreceived, fun x => ?_⟩
  · rw [h.uninitialized (hinit hi)] at hsub
    exact sublist_nil.mp hsub
  · rcases hnewest with hnil | hnewest
    · rw [hnil]
      exact aged_nil _ _ _
    rw [hnewest]
    exact h.aged.sublist (hsub.map _)
  · obtain ⟨hkey, hlt, heq⟩ := h.entries e (hsub.subset he)
    refine ⟨hkey, hlt, ?_⟩
    dsimp only
    rw [heq, if_pos (mem_keys_of_mem (hsub.subset he))]
    rfl
  · dsimp only
    split
    · exact Nat.le_of_lt (h.sent_lt ‹_›)
    · exact Nat.zero_le _

theorem initialized_advance (m : NackModule) (packet : Packet) :
    (m.advance packet).1.initialized = m.initialized := by
  unfold advance addPacketsToNack
  dsimp only
  repeat' split
  all_goals rfl

/-- The state in which a packet ahead of the newest one collects its batch. -/
theorem Ok.ready_advance (h : Ok o) {packet : Packet} (hinit : o.module.initialized)
    (hahead : 1 ≤ (packet.seqNum - o.module.newestSeqNum).toNat) :
    Ready o (o.module.advance packet).1 := by
  obtain ⟨haged, hlen, horigin⟩ := addPacketsToNack_spec h.aged hahead
  refine ⟨?_, fun hi => ?_, haged, hlen, horigin⟩
  · unfold advance addPacketsToNack
    dsimp only
    repeat' split
    all_goals exact h.running
  rw [initialized_advance, hinit] at hi
  cases hi

/-- What `Process` does. -/
theorem process_eq (hrun : m.running) (nowMs : Int) : ∃ next, m.process nowMs =
      { module := ({ m with nextProcessTimeMs := next }.getNackBatch .timeOnly nowMs).2
        batch := ({ m with nextProcessTimeMs := next }.getNackBatch .timeOnly nowMs).1 } := by
  unfold process
  rw [if_neg (by simp [hrun])]
  exact ⟨_, rfl⟩

theorem Ok.ready_process (h : Ok o) (next : Int) :
    Ready o { o.module with nextProcessTimeMs := next } :=
  ⟨h.running, h.uninitialized, h.aged, h.length, fun _ he => .inl he⟩

/-- What `OnReceivedPacket` can do. -/
theorem onReceivedPacket_cases (hrun : m.running) (nowMs : Int) (packet : Packet) :
    (m.initialized = false ∧ ∃ keyframes,
      (keyframes = m.keyframeList ∨ keyframes = insertNew comp packet.seqNum () m.keyframeList) ∧
      m.onReceivedPacket nowMs packet =
        { module := { m with newestSeqNum := packet.seqNum, keyframeList := keyframes,
                             initialized := true } }) ∨
    (m.initialized ∧ packet.seqNum = m.newestSeqNum ∧
      m.onReceivedPacket nowMs packet = { module := m }) ∨
    (m.initialized ∧ packet.seqNum ≠ m.newestSeqNum ∧
      aheadOf m.newestSeqNum packet.seqNum ∧ ∃ returns, m.onReceivedPacket nowMs packet =
        { module := { m with nackList := erase packet.seqNum m.nackList }, returns := returns }) ∨
    (m.initialized ∧ packet.seqNum ≠ m.newestSeqNum ∧
      aheadOf m.newestSeqNum packet.seqNum = false ∧ m.onReceivedPacket nowMs packet =
        { module := ((m.advance packet).1.getNackBatch .seqNumOnly nowMs).2
          batch := ((m.advance packet).1.getNackBatch .seqNumOnly nowMs).1
          keyframeRequested := (m.advance packet).2 }) := by
  unfold onReceivedPacket
  rw [if_neg (by simp [hrun])]
  cases hinit : m.initialized with
  | false =>
    refine .inl ⟨rfl, _, ?_, by rw [if_pos (by simp)]⟩
    split
    · exact .inr rfl
    · exact .inl rfl
  | true =>
    rw [if_neg (by simp)]
    by_cases hsame : packet.seqNum = m.newestSeqNum
    · rw [if_pos hsame]
      exact .inr (.inl ⟨rfl, hsame, rfl⟩)
    rw [if_neg hsame]
    cases hold : aheadOf m.newestSeqNum packet.seqNum with
    | true => exact .inr (.inr (.inl ⟨rfl, hsame, rfl, _, by rw [if_pos rfl]⟩))
    | false => exact .inr (.inr (.inr ⟨rfl, hsame, rfl, by rw [if_neg (by simp)]⟩))

theorem one_le_gap (h : seqNum ≠ newest) : 1 ≤ (seqNum - newest).toNat := by
  by_contra hz
  exact h (by bv_omega)

/-- **Step lemma for a packet.** -/
theorem Ok.onReceivedPacket (h : Ok o) (nowMs : Int) (packet : Packet) :
    Ok (o.after (.onReceivedPacket nowMs packet)) := by
  -- what was not received before, and is not the packet, is not received now
  have hreceived : ∀ x, x ≠ packet.seqNum →
      (decide (some packet.seqNum = some x) ||
        (decide (x ∈ keys o.module.nackList) && o.received x)) = false := by
    intro x hne
    by_cases hmem : x ∈ keys o.module.nackList
    · simp [h.unreceived x hmem, Ne.symm hne]
    · simp [hmem, Ne.symm hne]
  unfold Observed.after
  simp only [Call.run, Call.received]
  rcases onReceivedPacket_cases h.running nowMs packet with ⟨hinit, keyframes, -, hr⟩ |
    ⟨-, hsame, hr⟩ | ⟨-, -, -, returns, hr⟩ | ⟨hinit, hne, -, hr⟩
  · have hnil := h.uninitialized hinit
    rw [hr]
    refine h.remove { o.module with newestSeqNum := packet.seqNum, keyframeList := keyframes,
                                    initialized := true }
      h.running (fun hi => nomatch hi) (.inl hnil) (List.Sublist.refl _) fun x hx => ?_
    rw [hnil] at hx
    cases hx
  · rw [hr]
    refine h.remove o.module h.running (fun hi => hi) (.inr rfl) (List.Sublist.refl _)
      fun x hx => hreceived x ?_
    rintro rfl
    have := (h.aged.bounded _ hx).1
    simp [age, hsame] at this
  · rw [hr]
    refine h.remove { o.module with nackList := erase packet.seqNum o.module.nackList } h.running
      (fun hi => hi) (.inr rfl) filter_sublist fun x hx => hreceived x ?_
    rintro rfl
    obtain ⟨e, he, hk⟩ := mem_map.mp hx
    simpa [hk] using (mem_filter.mp he).2
  · rw [hr]
    have hready := h.ready_advance hinit (one_le_gap hne)
    refine hready.getNackBatch h .seqNumOnly nowMs fun x hx => hreceived x ?_
    rintro rfl
    have := (hready.aged.bounded _ hx).1
    simp [age, advance] at this

/-- **Step lemma.** -/
theorem Ok.after (h : Ok o) (call : Call) : Ok (o.after call) := by
  -- a call that is not a packet reports nothing as received
  have hreceived : ∀ x ∈ keys o.module.nackList,
      (decide ((none : Option (BitVec 16)) = some x) ||
        (decide (x ∈ keys o.module.nackList) && o.received x)) = false := by
    intro x hx
    simp [h.unreceived x hx]
  have hpart : ∀ {l : NackList}, l.Sublist o.module.nackList → ∀ x ∈ keys l,
      (decide ((none : Option (BitVec 16)) = some x) ||
        (decide (x ∈ keys o.module.nackList) && o.received x)) = false :=
    fun hsub x hx => hreceived x ((hsub.map _).subset hx)
  cases call with
  | onReceivedPacket nowMs packet => exact h.onReceivedPacket nowMs packet
  | clearUpTo seqNum =>
    exact h.remove (o.module.clearUpTo seqNum) h.running (fun hi => hi) (.inr rfl)
      (dropWhile_sublist _) (hpart (dropWhile_sublist _))
  | clear =>
    exact h.remove o.module.clear h.running (fun hi => hi) (.inr rfl) (nil_sublist _)
      (hpart (nil_sublist _))
  | updateRtt rttMs =>
    exact h.remove (o.module.updateRtt rttMs) h.running (fun hi => hi) (.inr rfl)
      (List.Sublist.refl _) hreceived
  | process nowMs =>
    obtain ⟨next, hr⟩ := process_eq h.running nowMs
    unfold Observed.after
    simp only [Call.run, Call.received, hr]
    exact (h.ready_process next).getNackBatch h .timeOnly nowMs hreceived

theorem ok_initial : Ok initial :=
  ⟨rfl, fun _ => rfl, aged_nil _ _ _, by decide, fun _ he => (by cases he),
    fun _ hx => (by cases hx), fun _ => Nat.zero_le _⟩

/-- **Run lemma.** -/
theorem ok_of_reaches (hr : Reaches Step initial o) : Ok o := by
  refine hr.invariant Ok ok_initial ?_
  rintro u call v hu rfl
  exact hu.after call

/-- **What the module asks for.** In every state of every run the nack list has at most
`kMaxNackPackets` entries, all of them strictly behind the newest number and not received since
they were added; the batch of any next call is without duplicates and part of the list from which
it is collected; and no number has been sent more than `kMaxNackRetries` times since it was
added. -/
theorem nackList_bounded_and_unreceived {o : Observed} (hr : Reaches Step initial o) :
    o.module.nackList.length ≤ kMaxNackPackets ∧ (∀ x ∈ keys o.module.nackList,
        aheadOf o.module.newestSeqNum x = true ∧ o.received x = false) ∧
      (∀ call : Call, (call.run o.module).batch.Nodup ∧
        ∀ x ∈ (call.run o.module).batch, x ∈ call.listed o.module) ∧
      ∀ x, o.sent x ≤ kMaxNackRetries := by
  have h := ok_of_reaches hr
  refine ⟨h.length, fun x hx => ?_, fun call => ?_, h.sent⟩
  · obtain ⟨h1, h2⟩ := h.aged.bounded x hx
    have hzero : age o.module.newestSeqNum o.module.newestSeqNum = 0 := by simp [age]
    exact ⟨(aheadOf_iff_age o.module.newestSeqNum (by omega) (by omega)).mpr (by omega),
      h.unreceived x hx⟩
  cases call with
  | onReceivedPacket nowMs packet =>
    simp only [Call.run]
    rcases onReceivedPacket_cases h.running nowMs packet with ⟨-, _, -, hr⟩ | ⟨-, -, hr⟩ |
      ⟨-, -, -, _, hr⟩ | ⟨hinit, hne, hahead, hr⟩
    · simp [hr]
    · simp [hr]
    · simp [hr]
    obtain ⟨hsub, hnodup⟩ :=
      (h.ready_advance hinit (one_le_gap hne)).batch h .seqNumOnly nowMs
    rw [hr, Call.listed, if_pos ⟨hinit, hne, hahead⟩]
    exact ⟨hnodup, fun x hx => hsub.subset hx⟩
  | process nowMs =>
    obtain ⟨next, hr⟩ := process_eq h.running nowMs
    obtain ⟨hsub, hnodup⟩ := (h.ready_process next).batch h .timeOnly nowMs
    simp only [Call.run, hr]
    exact ⟨hnodup, fun x hx => hsub.subset hx⟩
  | clearUpTo _ => simp [Call.run]
  | clear => simp [Call.run]
  | updateRtt _ => simp [Call.run]

/-- The calls: a packet, and one that skips a number. -/
def oneMissing : Observed :=
  (initial.after (.onReceivedPacket 0 ⟨0, false, false⟩)).after (.onReceivedPacket 0 ⟨2, false, false⟩)

/-- The module has asked for the number, and it is listed and not received. -/
theorem nackList_bounded_and_unreceived_gap : keys oneMissing.module.nackList = [1] ∧
      aheadOf oneMissing.module.newestSeqNum 1 = true ∧ oneMissing.received 1 = false ∧
      oneMissing.sent 1 = 1 ∧ oneMissing.sent 1 ≤ kMaxNackRetries := by
  have hr : Reaches Step initial oneMissing :=
    (Reaches.refl.next (.onReceivedPacket 0 ⟨0, false, false⟩) rfl).next
      (.onReceivedPacket 0 ⟨2, false, false⟩) rfl
  have hkeys : keys oneMissing.module.nackList = [1] := by decide +kernel
  obtain ⟨-, hlisted, -, hsent⟩ := nackList_bounded_and_unreceived hr
  obtain ⟨hahead, hreceived⟩ := hlisted 1 (by rw [hkeys]; exact .head _)
  exact ⟨hkeys, hahead, hreceived, by decide +kernel, hsent 1⟩

end WebRtc.Video.Nack
