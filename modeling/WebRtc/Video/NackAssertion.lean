import Mathlib.Data.List.DropRight
import WebRtc.Video.NackRuns

/-! The assertion of `NackModule::RemovePacketsUntilKeyFrame`: the key frame that removes packets is
expected to leave one behind it. The loop takes the key frames from the oldest on, so the assertion
holds exactly if no key frame is newer than the newest loss or an older one already makes room; a key
frame that arrives after all losses leaves none. -/

namespace WebRtc.Video.Nack

open OrderedMap SequenceNumber Transition List

variable {n : Nat} {newest k : BitVec 16} {m : NackModule} {o : Observed} {nackList : NackList}
  {keyframes : KeyframeList}

/-- A packet ahead of the newest one skips so little that the stored key frames, which are at most
`kMaxPacketAge` behind, stay within half of the number range. -/
def Near (o : Observed) : Call → Prop
  | .onReceivedPacket _ packet => o.module.initialized = true →
      aheadOf o.module.newestSeqNum packet.seqNum = false →
        (packet.seqNum - o.module.newestSeqNum).toNat < 22768
  | _ => True

structure KeyframesAged (m : NackModule) : Prop where
  uninitialized : m.initialized = false → m.keyframeList = []
  aged : Aged 0 10000 m.newestSeqNum (keys m.keyframeList)

/-- The key frame of the newest packet goes to the end of the list. -/
theorem aged_insertNew {most : Nat} (h : Aged 1 most newest (keys keyframes))
    (hmost : most < 32768) : Aged 0 most newest (keys (insertNew comp newest () keyframes)) := by
  have hself : age newest newest = 0 := by simp [age]
  have hyounger : Aged (age newest newest + 1) most newest (keys keyframes) := by rwa [hself]
  rw [(insertNew_younger () hyounger hmost).2]
  exact (hyounger.concat (by omega)).mono (Nat.zero_le _)

theorem sublist_addPacketsToNack (m : NackModule) (seqNumStart seqNumEnd : BitVec 16) :
    (m.addPacketsToNack seqNumStart seqNumEnd).1.keyframeList.Sublist m.keyframeList := by
  unfold NackModule.addPacketsToNack
  dsimp only
  split
  · split
    · exact (sublist_makeRoom _ _ _).2
    · exact (sublist_makeRoom _ _ _).2
  · exact List.Sublist.refl _

theorem KeyframesAged.advance (h : KeyframesAged m) {packet : Packet}
    (hpos : 1 ≤ (packet.seqNum - m.newestSeqNum).toNat)
    (hgap : (packet.seqNum - m.newestSeqNum).toNat < 22768) :
    Aged 0 10000 packet.seqNum (keys (m.advance packet).1.keyframeList) := by
  have hold : Aged 1 32767 packet.seqNum
      (keys (m.addPacketsToNack (m.newestSeqNum + 1) packet.seqNum).1.keyframeList) := by
    have hsub := sublist_addPacketsToNack m (m.newestSeqNum + 1) packet.seqNum
    have hadv := (h.aged.sublist (hsub.map _)).advance packet.seqNum (by omega)
    exact ⟨hadv.falling, fun x hx => by have := hadv.bounded x hx; omega⟩
  refine Aged.trim ?_ (by decide : 32767 < 32768)
  split
  · exact aged_insertNew hold (by decide)
  · exact hold.mono (Nat.zero_le _)

/-- **Step lemma.** -/
theorem KeyframesAged.after (h : KeyframesAged o.module) (hrun : o.module.running) {call : Call}
    (hnear : Near o call) : KeyframesAged (o.after call).module := by
  cases call with
  | onReceivedPacket nowMs packet =>
    unfold Observed.after
    simp only [Call.run]
    rcases onReceivedPacket_cases hrun nowMs packet with ⟨hinit, frames, hframes, hr⟩ |
      ⟨-, -, hr⟩ | ⟨-, -, -, _, hr⟩ | ⟨hinit, hne, hahead, hr⟩
    · rw [hr]
      refine ⟨(fun hi => by cases hi), ?_⟩
      rw [h.uninitialized hinit] at hframes
      rcases hframes with rfl | rfl
      · exact aged_nil _ _ _
      · have hnil : Aged 1 10000 packet.seqNum (keys ([] : KeyframeList)) := aged_nil _ _ _
        exact aged_insertNew hnil (by decide)
    · rw [hr]
      exact h
    · rw [hr]
      exact ⟨h.uninitialized, h.aged⟩
    · rw [hr]
      refine ⟨fun hi => ?_, h.advance (one_le_gap hne) (hnear hinit hahead)⟩
      have hsame := initialized_advance o.module packet
      rw [hinit] at hsame
      exact absurd (hsame.symm.trans hi) (by decide)
  | clearUpTo seqNum =>
    refine ⟨fun hi => ?_, h.aged.sublist (keys_fromLowerBound_sublist seqNum _)⟩
    rw [show (o.after (.clearUpTo seqNum)).module.keyframeList =
      fromLowerBound comp seqNum o.module.keyframeList from rfl, h.uninitialized hi]
    rfl
  | clear => exact ⟨fun _ => rfl, aged_nil _ _ _⟩
  | updateRtt rttMs => exact ⟨h.uninitialized, h.aged⟩
  | process nowMs =>
    obtain ⟨next, hr⟩ := process_eq hrun nowMs
    unfold Observed.after
    simp only [Call.run, hr]
    exact ⟨h.uninitialized, h.aged⟩

/-- The missing packets within the age limit of a packet that is received. -/
def NackModule.missing (m : NackModule) (packet : Packet) : NackList :=
  fromLowerBound comp (packet.seqNum - kMaxPacketAge) m.nackList

/-- How many numbers a packet ahead of the newest one adds. -/
def NackModule.skipped (m : NackModule) (packet : Packet) : Nat :=
  (forwardDiff (m.newestSeqNum + 1) packet.seqNum).toNat

end WebRtc.Video.Nack
