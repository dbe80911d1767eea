import WebRtc.Video.PacketBufferSlots

/-! The backward search of `FindFrames`: which slots it marks, and exactly when it
ends. The flags it tests (`frame_begin`, `used`, the timestamp) are not the flag it
writes (`frame_created`), so its end can be read off the buffer it starts in. -/

namespace WebRtc.Video.Packets
open SequenceNumber PacketBuffer List

/-- Mark `n` slots `frame_created`, from `i` backwards. -/
def markBack : Nat → Nat → PacketBuffer → PacketBuffer
  | 0, _, b => b
  | n + 1, i, b =>
    markBack n (prevIndex b.size i) (b.modifyInfo i (fun c => { c with frameCreated := true }))

/-- The search breaks in the pass that starts at slot `i`. -/
def stopsAt (isH264 : Bool) (ts : BitVec 32) (index : Nat) (b : PacketBuffer) (i : Nat) : Bool :=
  if isH264 then
    prevIndex b.size i != index &&
      (!(b.info (prevIndex b.size i)).used || (b.packet (prevIndex b.size i)).timestamp != ts)
  else (b.info i).frameBegin

theorem markBack_shaped (n i : Nat) (b : PacketBuffer) (hs : Shaped b) :
    Shaped (markBack n i b) ∧ (markBack n i b).size = b.size ∧
      (markBack n i b).maxSize = b.maxSize ∧ ∀ j, (markBack n i b).packet j = b.packet j := by
  induction n generalizing i b with
  | zero => exact ⟨hs, rfl, rfl, fun _ => rfl⟩
  | succ n ih =>
    have h := ih (prevIndex b.size i) _ (hs.modifyInfo i (fun c => { c with frameCreated := true }))
    exact h

/-- A slot is either left alone by `markBack`, or it is `n'` places before the start. -/
theorem markBack_info (n : Nat) {i : Nat} {b : PacketBuffer} (hs : Shaped b) (hi : i < b.size)
    (j : Nat) : ((∀ m < n, backBy b.size m i ≠ j) ∧ (markBack n i b).info j = b.info j) ∨
      (∃ m < n, backBy b.size m i = j ∧
        (markBack n i b).info j = { b.info j with frameCreated := true }) := by
  induction n generalizing i b with
  | zero => exact Or.inl ⟨fun m hm => absurd hm (Nat.not_lt_zero m), rfl⟩
  | succ n ih =>
    have hm := modifyInfo_info hs hi j (fun c => { c with frameCreated := true })
    have hrest := ih (hs.modifyInfo i (fun c => { c with frameCreated := true }))
      (prevIndex_lt hi : prevIndex b.size i < _)
    unfold markBack
    by_cases hji : j = i
    · rw [if_pos hji] at hm
      refine Or.inr ⟨0, Nat.succ_pos n, hji.symm, ?_⟩
      rcases hrest with ⟨_, he⟩ | ⟨_, _, _, he⟩ <;> rw [he, hm, hji]
    rw [if_neg hji] at hm
    rcases hrest with ⟨hno, he⟩ | ⟨m, hmn, hmj, he⟩
    · refine Or.inl ⟨?_, by rw [he, hm]⟩
      intro m hmn
      cases m with
      | zero => exact fun h => hji h.symm
      | succ m => exact hno m (by omega)
    · exact Or.inr ⟨m + 1, by omega, hmj, by rw [he, hm]⟩

variable {isH264 : Bool} {ts : BitVec 32} {index fuel i n : Nat} {b : PacketBuffer} {s r : Search}

theorem stopsAt_mark (hs : Shaped b) (hi : i < b.size) (j : Nat) :
    stopsAt isH264 ts index (b.modifyInfo i (fun c => { c with frameCreated := true })) j =
      stopsAt isH264 ts index b j := by
  have hinfo : ∀ k, ((b.modifyInfo i (fun c => { c with frameCreated := true })).info k).used =
      (b.info k).used ∧
      ((b.modifyInfo i (fun c => { c with frameCreated := true })).info k).frameBegin =
        (b.info k).frameBegin := by
    intro k
    rw [modifyInfo_info hs hi]
    split
    · subst k; exact ⟨rfl, rfl⟩
    · exact ⟨rfl, rfl⟩
  simp only [stopsAt, modifyInfo_size, modifyInfo_packet, hinfo]

/-- The sizes of the packets in the `n` slots from `i` backwards. -/
def sizesBack (b : PacketBuffer) (i n : Nat) : Nat :=
  ((List.range n).map fun m => (b.packet (backBy b.size m i)).sizeBytes).sum

theorem sizesBack_succ (b : PacketBuffer) (i n : Nat) :
    sizesBack b i (n + 1) = (b.packet i).sizeBytes + sizesBack b (prevIndex b.size i) n := by
  unfold sizesBack
  rw [range_succ_eq_map, map_cons, sum_cons, map_map]
  rfl

/-- The search that started in `s` and ended in `r` has visited `n + 1` slots. -/
structure Visited (isH264 : Bool) (ts : BitVec 32) (index : Nat) (s : Search) (n : Nat)
    (r : Search) : Prop where
  buffer : r.buffer = markBack (n + 1) s.startIndex s.buffer
  startSeqNum : r.startSeqNum = s.startSeqNum - BitVec.ofNat 16 n
  frameSize : r.frameSize = s.frameSize + sizesBack s.buffer s.startIndex (n + 1)
  stop : stopsAt isH264 ts index s.buffer (backBy s.buffer.size n s.startIndex) = true
  pass : ∀ m, m < n →
    stopsAt isH264 ts index s.buffer (backBy s.buffer.size m s.startIndex) = false

theorem searchStep_frame :
    (searchStep isH264 ts index s).1.frameSize =
        s.frameSize + (s.buffer.packet s.startIndex).sizeBytes ∧
      (searchStep isH264 ts index s).1.startSeqNum =
        if (searchStep isH264 ts index s).2 = true then s.startSeqNum else s.startSeqNum - 1 := by
  unfold searchStep
  dsimp only
  split
  · exact ⟨rfl, rfl⟩
  split
  · exact ⟨rfl, rfl⟩
  · exact ⟨rfl, rfl⟩

/-- The search stays within one turn of the ring. -/
theorem Visited.lt_size (h : Visited isH264 ts index s n r) (hi : s.startIndex < s.buffer.size) :
    n < s.buffer.size := by
  by_contra hge
  obtain ⟨m, hm, hmn⟩ := exists_backBy hi (backBy_lt n hi)
  have hpass := h.pass m (by omega)
  rw [hmn, h.stop] at hpass
  cases hpass

/-- More fuel never changes a result. -/
theorem searchBack_mono {fuel' : Nat} (hle : fuel ≤ fuel')
    (h : searchBack isH264 ts index fuel s = some r) :
    searchBack isH264 ts index fuel' s = some r := by
  induction fuel generalizing s fuel' with
  | zero => simp [searchBack] at h
  | succ fuel ih =>
    obtain ⟨g, rfl⟩ : ∃ g, fuel' = g + 1 := ⟨fuel' - 1, by omega⟩
    unfold searchBack at h ⊢
    split at h
    · exact h
    · exact ih (by omega) h

variable (hs : Shaped s.buffer) (hi : s.startIndex < s.buffer.size)
include hs hi

/-- One pass marks the slot it starts at; it breaks exactly when `stopsAt` says so, and
otherwise goes on at the previous slot. -/
theorem searchStep_spec :
    (searchStep isH264 ts index s).2 = stopsAt isH264 ts index s.buffer s.startIndex ∧
      (searchStep isH264 ts index s).1.buffer =
        s.buffer.modifyInfo s.startIndex (fun c => { c with frameCreated := true }) ∧
      ((searchStep isH264 ts index s).2 = false →
        (searchStep isH264 ts index s).1.startIndex = prevIndex s.buffer.size s.startIndex) := by
  have hstop := @stopsAt_mark isH264 ts index _ _ hs hi s.startIndex
  cases isH264 with
  | false =>
    simp only [stopsAt, Bool.false_eq_true, ↓reduceIte] at hstop ⊢
    simp only [searchStep, Search.visit, Bool.not_false, Bool.true_and, hstop, Bool.false_and,
      Bool.false_eq_true, ↓reduceIte]
    cases hb : (s.buffer.info s.startIndex).frameBegin <;> simp
  | true =>
    simp only [stopsAt, ↓reduceIte, modifyInfo_size] at hstop ⊢
    simp only [searchStep, Search.visit, Bool.not_true, Bool.false_and, Bool.false_eq_true,
      ↓reduceIte, Bool.true_and, modifyInfo_size, hstop]
    split
    · next h => simp [h]
    · next h => simp [Bool.not_eq_true _ ▸ h]

/-- What a pass that does not break leaves to the next one: the same stops, one slot further. -/
theorem searchStep_next (hr : searchStep isH264 ts index s = (r, false)) :
    Shaped r.buffer ∧ r.startIndex < r.buffer.size ∧
      ∀ m, stopsAt isH264 ts index r.buffer (backBy r.buffer.size m r.startIndex) =
        stopsAt isH264 ts index s.buffer (backBy s.buffer.size (m + 1) s.startIndex) := by
  obtain ⟨_, hb, hidx⟩ := @searchStep_spec isH264 ts index s hs hi
  rw [hr] at hb hidx
  have hsize : r.buffer.size = s.buffer.size := by rw [hb]; rfl
  refine ⟨hb ▸ hs.modifyInfo _ _, ?_, fun m => ?_⟩
  · rw [hidx rfl, hsize]
    exact prevIndex_lt hi
  · rw [hsize, hidx rfl, hb, stopsAt_mark hs hi]
    rfl

theorem searchBack_visited (h : searchBack isH264 ts index fuel s = some r) :
    ∃ n, Visited isH264 ts index s n r := by
  induction fuel generalizing s with
  | zero => simp [searchBack] at h
  | succ fuel ih =>
    obtain ⟨hstop, hb, hidx⟩ := @searchStep_spec isH264 ts index s hs hi
    obtain ⟨hsize, hseq⟩ := @searchStep_frame isH264 ts index s
    unfold searchBack at h
    cases ht : searchStep isH264 ts index s with | mk t stop =>
    rw [ht] at h hstop hb hidx hsize hseq
    cases stop with
    | true =>
      cases h
      refine ⟨0, hb, by simpa using hseq, ?_, hstop.symm, fun m hm => absurd hm (Nat.not_lt_zero m)⟩
      rw [hsize, sizesBack_succ]
      rfl
    | false =>
      have hidx := hidx rfl
      have hpackets : ∀ i n, sizesBack t.buffer i n = sizesBack s.buffer i n := by
        intro i n
        rw [hb]
        rfl
      obtain ⟨hs', hi', hstops⟩ := searchStep_next hs hi ht
      obtain ⟨n, hn⟩ := ih hs' hi' h
      refine ⟨n + 1, ?_, ?_, ?_, ?_, ?_⟩
      · rw [hn.buffer, hidx, hb]
        rfl
      · rw [hn.startSeqNum, hseq]
        simp only [Bool.false_eq_true, ↓reduceIte]
        bv_omega
      · rw [hn.frameSize, hsize, hpackets, hidx, sizesBack_succ s.buffer s.startIndex (n + 1)]
        omega
      · rw [← hstops]
        exact hn.stop
      intro m hm
      cases m with
      | zero => exact hstop.symm
      | succ m =>
        rw [← hstops]
        exact hn.pass m (by omega)

/-- **When the search ends.** With `fuel` passes it ends if one of the first `fuel` slots backwards
from its start is a stop. -/
theorem searchBack_isSome {m : Nat} (hm : m < fuel)
    (hstop : stopsAt isH264 ts index s.buffer (backBy s.buffer.size m s.startIndex)) :
    (searchBack isH264 ts index fuel s).isSome := by
  induction fuel generalizing s m with
  | zero => cases hm
  | succ fuel ih =>
    have hspec := (@searchStep_spec isH264 ts index s hs hi).1
    unfold searchBack
    cases ht : searchStep isH264 ts index s with | mk t stop =>
    cases stop with
    | true => rfl
    | false =>
      obtain ⟨hs', hi', hstops⟩ := searchStep_next hs hi ht
      cases m with
      | zero =>
        rw [ht] at hspec
        exact absurd (hspec.trans hstop) Bool.false_ne_true
      | succ m => exact ih hs' hi' (Nat.lt_of_succ_lt_succ hm) ((hstops m).trans hstop)

/-- One turn of the ring is enough fuel, if any amount is. -/
theorem searchBack_turn {turn : Nat} (hturn : s.buffer.size ≤ turn)
    (h : searchBack isH264 ts index fuel s = some r) :
    searchBack isH264 ts index turn s = some r := by
  obtain ⟨m, hm⟩ := searchBack_visited hs hi h
  obtain ⟨t, ht⟩ := Option.isSome_iff_exists.mp
    (searchBack_isSome hs hi (Nat.lt_of_lt_of_le (hm.lt_size hi) hturn) hm.stop)
  rcases Nat.le_total fuel turn with hle | hle
  · exact searchBack_mono hle h
  have := searchBack_mono hle ht
  rw [h] at this
  rw [ht, ← this]

/-- A search from an H.264 packet returns exactly when another slot is free or holds
another timestamp. -/
theorem h264_search_returns_iff :
    (∃ fuel, (searchBack true ts s.startIndex fuel s).isSome) ↔
      ∃ j < s.buffer.size, j ≠ s.startIndex ∧
        ((s.buffer.info j).used = false ∨ (s.buffer.packet j).timestamp ≠ ts) := by
  constructor
  · rintro ⟨fuel, h⟩
    obtain ⟨r, hr⟩ := Option.isSome_iff_exists.mp h
    obtain ⟨m, hm⟩ := searchBack_visited hs hi hr
    refine ⟨prevIndex s.buffer.size (backBy s.buffer.size m s.startIndex),
      prevIndex_lt (backBy_lt m hi), ?_⟩
    simpa [stopsAt] using hm.stop
  rintro ⟨j, hj, hne, hstop⟩
  obtain ⟨n, hn, hnj⟩ := exists_backBy hi hj
  cases n with
  | zero => exact absurd hnj.symm hne
  | succ n =>
    refine ⟨n + 1, searchBack_isSome hs hi (Nat.lt_succ_self n) ?_⟩
    rw [backBy_succ] at hnj
    simp [stopsAt, hnj, hne, hstop]

/-- A search from any other packet returns exactly when the ring holds a `frame_begin`
flag, be it on a used slot or on one that was freed and not yet overwritten. -/
theorem other_search_returns_iff :
    (∃ fuel, (searchBack false ts s.startIndex fuel s).isSome) ↔
      ∃ j < s.buffer.size, (s.buffer.info j).frameBegin := by
  constructor
  · rintro ⟨fuel, h⟩
    obtain ⟨r, hr⟩ := Option.isSome_iff_exists.mp h
    obtain ⟨m, hm⟩ := searchBack_visited hs hi hr
    exact ⟨_, backBy_lt m hi, by simpa [stopsAt] using hm.stop⟩
  rintro ⟨j, hj, hbegin⟩
  obtain ⟨n, hn, hnj⟩ := exists_backBy hi hj
  exact ⟨n + 1, searchBack_isSome hs hi (Nat.lt_succ_self n) (by simp [stopsAt, hnj, hbegin])⟩

end WebRtc.Video.Packets
