import WebRtc.Lib.Transition
import WebRtc.Video.PacketBufferInvariant

/-! Every public call of the packet buffer keeps the ring invariant, as long as no call
cuts an unfinished frame, and `FindFrames` returns unless the ring is filled with one
timestamp. -/

namespace WebRtc.Video.Packets
open SequenceNumber Transition List

variable {b b' : PacketBuffer} {i : Nat}

/-! ## Storing a packet -/

theorem storeAt_wellFormed (hw : WellFormed b) (hi : i < b.size) (p : VCMPacket)
    (hslot : p.seqNum.toNat % b.size = i) : WellFormed (storeAt b i p) := by
  have hs := hw.shaped
  refine ⟨hs.storeAt i p, hw.pow, hw.maxPow, hw.le_max, ?_, ?_⟩
  · intro j hj hu
    rw [storeAt_info hs hi] at hu ⊢
    split at hu
    · next h => rw [if_pos h, h]; exact hslot
    · next h => rw [if_neg h]; exact hw.slot j hj hu
  intro j hj hu
  rw [storeAt_info hs hi] at hu ⊢
  rw [storeAt_packet hs hi]
  split at hu
  · next h => rw [if_pos h, if_pos h]; rfl
  · next h => rw [if_neg h, if_neg h]; exact hw.data j hj hu

theorem storeAt_inv (hinv : Inv b) (hi : i < b.size) (hfree : (b.info i).used = false)
    (p : VCMPacket) (hslot : p.seqNum.toNat % b.size = i) : Inv (storeAt b i p) := by
  have hs := hinv.wf.shaped
  have hkeep : ∀ j, Open (b.info j) → j ≠ i := by
    rintro j ho rfl
    exact Bool.noConfusion (hfree.symm.trans ho.1)
  have hopen : ∀ j, Open ((storeAt b i p).info j) → j ≠ i ∧ Open (b.info j) := by
    intro j ho
    rw [storeAt_info hs hi] at ho
    split at ho
    · exact Bool.noConfusion ho.2.1
    · next h => exact ⟨h, ho⟩
  refine ⟨storeAt_wellFormed hinv.wf hi p hslot, ?_, ?_⟩
  · intro j hj ho
    refine (hinv.rooted j hj (hopen j ho).2).transfer (fun _ => True) ?_
      (fun _ _ _ _ _ _ => trivial) trivial
    intro k _ hok _
    rw [storeAt_info hs hi, if_neg (hkeep k hok)]
    exact ⟨hok, rfl, rfl⟩
  · intro j hj ho
    have h := hopen j ho
    rw [storeAt_info hs hi, if_neg h.1]
    exact hinv.unfinished j hj h.2

/-! ## Freeing slots -/

/-- `b'` arises from `b` by freeing slots. -/
structure Freed (b b' : PacketBuffer) : Prop where
  shaped : Shaped b'
  size : b'.size = b.size
  maxSize : b'.maxSize = b.maxSize
  info : ∀ i, b'.info i = b.info i ∨ b'.info i = { b.info i with used := false }
  packet : ∀ i, (b'.packet i).seqNum = (b.packet i).seqNum

theorem Freed.refl (hs : Shaped b) : Freed b b :=
  ⟨hs, rfl, rfl, fun _ => Or.inl rfl, fun _ => rfl⟩

theorem Freed.trans {b'' : PacketBuffer} (h : Freed b b') (h' : Freed b' b'') : Freed b b'' := by
  refine ⟨h'.shaped, h'.size.trans h.size, h'.maxSize.trans h.maxSize, ?_,
    fun i => (h'.packet i).trans (h.packet i)⟩
  intro i
  rcases h'.info i with e' | e' <;> rcases h.info i with e | e <;> rw [e', e] <;> simp

theorem freeSlot_freed (hs : Shaped b) (hi : i < b.size) : Freed b (b.freeSlot i) := by
  refine ⟨hs.freeSlot i, rfl, rfl, ?_, ?_⟩
  · intro j
    rw [PacketBuffer.freeSlot_info hs hi]
    split
    · next h => subst h; exact Or.inr rfl
    · exact Or.inl rfl
  intro j
  rw [PacketBuffer.freeSlot_packet hs hi]
  split
  · next h => subst h; rfl
  · rfl

/-- The step from `b` to `b'` frees the packet right before one that stays buffered,
continuous, outside a frame and is not the first of its frame. -/
def CutsFrame (b b' : PacketBuffer) : Prop :=
  ∃ i, i < b.size ∧ Open (b'.info i) ∧ (b'.info i).frameBegin = false ∧
    (b.info (prevIndex b.size i)).used = true ∧ (b'.info (prevIndex b.size i)).used = false

theorem Freed.info_eq (h : Freed b b') (hu : (b'.info i).used) : b'.info i = b.info i := by
  rcases h.info i with e | e
  · exact e
  · rw [e] at hu; exact Bool.noConfusion hu

theorem Freed.wellFormed (h : Freed b b') (hw : WellFormed b) : WellFormed b' := by
  refine ⟨h.shaped, h.size ▸ hw.pow, h.maxSize ▸ hw.maxPow, ?_, ?_, ?_⟩
  · rw [h.size, h.maxSize]; exact hw.le_max
  · intro i hi hu
    have e := h.info_eq hu
    rw [h.size] at hi ⊢
    rw [e] at hu ⊢
    exact hw.slot i hi hu
  intro i hi hu
  have e := h.info_eq hu
  rw [h.size] at hi
  rw [e] at hu ⊢
  rw [h.packet]
  exact hw.data i hi hu

theorem Freed.inv (h : Freed b b') (hinv : Inv b) (hcut : ¬ CutsFrame b b') : Inv b' := by
  refine ⟨h.wellFormed hinv.wf, ?_, ?_⟩
  · intro i hi ho
    rw [h.size] at hi ⊢
    have hob : Open (b.info i) := h.info_eq ho.1 ▸ ho
    refine (hinv.rooted i hi hob).transfer (fun j => (b'.info j).used) ?_ ?_ ho.1
    · intro j _ hoj hu
      rw [h.info_eq hu]
      exact ⟨hoj, rfl, rfl⟩
    intro j hj hoj hbj hop hu
    by_contra hfreed
    refine hcut ⟨j, hj, by rw [h.info_eq hu]; exact hoj, by rw [h.info_eq hu]; exact hbj,
      hop.1, by simpa using hfreed⟩
  · intro i hi ho
    have e := h.info_eq ho.1
    rw [e] at ho ⊢
    exact hinv.unfinished i (h.size ▸ hi) ho

theorem clearToLoop_freed (seqNum : BitVec 16) (fuel : Nat) (hs : Shaped b) (hpos : 0 < b.size) :
    Freed b (clearToLoop seqNum fuel b) := by
  induction fuel generalizing b with
  | zero => exact Freed.refl hs
  | succ fuel ih =>
    unfold clearToLoop
    split
    · have h1 := freeSlot_freed hs (Nat.mod_lt b.firstSeqNum.toNat hpos)
      have h2 : Freed (b.freeSlot (b.firstSeqNum.toNat % b.size))
          { b.freeSlot (b.firstSeqNum.toNat % b.size) with firstSeqNum := b.firstSeqNum + 1 } :=
        ⟨⟨h1.shaped.1, h1.shaped.2⟩, rfl, rfl, fun _ => Or.inl rfl, fun _ => rfl⟩
      exact (h1.trans h2).trans (ih h2.shaped hpos)
    · exact Freed.refl hs

theorem clearTo_freed (hs : Shaped b) (hpos : 0 < b.size) (seqNum : BitVec 16) :
    Freed b (clearTo b seqNum) := by
  unfold clearTo
  split
  · exact Freed.refl hs
  have h : Freed b { b with isClearedToFirstSeqNum := true } :=
    ⟨⟨hs.1, hs.2⟩, rfl, rfl, fun _ => Or.inl rfl, fun _ => rfl⟩
  exact h.trans (clearToLoop_freed seqNum _ h.shaped hpos)

theorem returnFrameLoop_freed (endIndex fuel : Nat) (hs : Shaped b) {index : Nat}
    (hi : index < b.size) (seqNum : BitVec 16) :
    Freed b (returnFrameLoop endIndex fuel b index seqNum) := by
  induction fuel generalizing b index seqNum with
  | zero => exact Freed.refl hs
  | succ fuel ih =>
    unfold returnFrameLoop
    split
    · exact Freed.refl hs
    have hmod : (index + 1) % b.size < b.size := Nat.mod_lt _ (by omega)
    by_cases h : (b.info index).seqNum = seqNum
    · simp only [h, ↓reduceIte]
      have h1 := freeSlot_freed hs hi
      exact h1.trans (ih h1.shaped hmod _)
    · simp only [h, ↓reduceIte]
      exact ih hs hmod _

theorem returnFrame_freed (hs : Shaped b) (hpos : 0 < b.size) (first last : BitVec 16) :
    Freed b (returnFrame b first last) :=
  returnFrameLoop_freed _ _ hs (Nat.mod_lt _ hpos) _

theorem freeSlots_freed (n : Nat) (hs : Shaped b) (hn : n ≤ b.size) :
    Freed b ((range n).foldl (fun b i => b.freeSlot i) b) ∧ ∀ i, i < n →
        (((range n).foldl (fun b i => b.freeSlot i) b).info i).used = false := by
  induction n with
  | zero => exact ⟨Freed.refl hs, fun i hi => absurd hi (Nat.not_lt_zero i)⟩
  | succ n ih =>
    obtain ⟨hf, hu⟩ := ih (by omega)
    rw [range_succ, foldl_append, foldl_cons, foldl_nil]
    have hn' : n < ((range n).foldl (fun b i => b.freeSlot i) b).size := by
      rw [hf.size]; omega
    refine ⟨hf.trans (freeSlot_freed hf.shaped hn'), ?_⟩
    intro i hi
    rw [PacketBuffer.freeSlot_info hf.shaped hn']
    split
    · rfl
    · exact hu i (by omega)

theorem clear_freed (hs : Shaped b) :
    Freed b (clear b) ∧ ∀ i < b.size, ((clear b).info i).used = false := by
  obtain ⟨hf, hu⟩ := freeSlots_freed b.size hs (Nat.le_refl _)
  exact ⟨⟨⟨hf.shaped.1, hf.shaped.2⟩, hf.size, hf.maxSize, hf.info, hf.packet⟩, hu⟩

theorem clear_inv (hinv : Inv b) : Inv (clear b) := by
  obtain ⟨hf, hu⟩ := clear_freed hinv.wf.shaped
  refine hf.inv hinv ?_
  rintro ⟨i, hi, ho, _⟩
  exact Bool.noConfusion ((hu i hi).symm.trans ho.1)

/-! ## Expanding the ring -/

/-- The two vectors after the first `n` passes of the copy loop. -/
structure Copied (b : PacketBuffer) (newSize n : Nat)
    (acc : List ContinuityInfo × List VCMPacket) : Prop where
  info_length : acc.1.length = newSize
  packet_length : acc.2.length = newSize
  moved : ∀ i, i < n → (b.info i).used = true →
    acc.1.getD ((b.info i).seqNum.toNat % newSize) {} = b.info i ∧
      acc.2.getD ((b.info i).seqNum.toNat % newSize) {} = b.packet i
  empty : ∀ j, (∀ i, i < n → (b.info i).used = true → (b.info i).seqNum.toNat % newSize ≠ j) →
    acc.1.getD j {} = {}

/-- Packets of distinct slots move to distinct slots when the old size divides the new. -/
theorem moved_ne (hw : WellFormed b) {newSize j : Nat} (hdvd : b.size ∣ newSize) (hi : i < b.size)
    (hj : j < b.size) (hui : (b.info i).used) (huj : (b.info j).used) (hne : i ≠ j) :
    (b.info i).seqNum.toNat % newSize ≠ (b.info j).seqNum.toNat % newSize := by
  intro h
  apply hne
  rw [← hw.slot i hi hui, ← hw.slot j hj huj, ← Nat.mod_mod_of_dvd (b.info i).seqNum.toNat hdvd,
    ← Nat.mod_mod_of_dvd (b.info j).seqNum.toNat hdvd, h]

theorem copySlots_copied (hw : WellFormed b) {newSize : Nat} (hpos : 0 < newSize)
    (hdvd : b.size ∣ newSize) (n : Nat) (hn : n ≤ b.size) :
    Copied b newSize n ((range n).foldl (copySlot b newSize)
      (replicate newSize {}, replicate newSize {})) := by
  induction n with
  | zero =>
    refine ⟨by simp, by simp, fun i hi => absurd hi (Nat.not_lt_zero i), ?_⟩
    intro j _
    simp only [range_zero, foldl_nil, getD_eq_getElem?_getD, getElem?_replicate]
    split <;> rfl
  | succ n ih =>
    have h := ih (by omega)
    rw [range_succ, foldl_append, foldl_cons, foldl_nil]
    generalize (range n).foldl (copySlot b newSize)
      (replicate newSize {}, replicate newSize {}) = acc at h ⊢
    unfold copySlot
    cases hu : (b.info n).used with
    | false =>
      refine ⟨h.info_length, h.packet_length, ?_, ?_⟩
      · intro i hi hui
        rcases Nat.lt_succ_iff_lt_or_eq.mp hi with hlt | rfl
        · exact h.moved i hlt hui
        · exact Bool.noConfusion (hu.symm.trans hui)
      · intro j hj
        exact h.empty j (fun i hi => hj i (by omega))
    | true =>
      simp only [↓reduceIte]
      have hidx := Nat.mod_lt (b.info n).seqNum.toNat hpos
      generalize hp : (b.info n).seqNum.toNat % newSize = pos at hidx
      have hinfo := fun j => getD_set acc.1 pos j (b.info n) {} (by rw [h.info_length]; exact hidx)
      have hpacket := fun j =>
        getD_set acc.2 pos j (b.packet n) {} (by rw [h.packet_length]; exact hidx)
      refine ⟨by simp [h.info_length], by simp [h.packet_length], ?_, ?_⟩
      · intro i hi hui
        rw [hinfo, hpacket]
        rcases Nat.lt_succ_iff_lt_or_eq.mp hi with hlt | rfl
        · have hne := moved_ne hw hdvd (show i < b.size by omega) (show n < b.size by omega)
            hui hu (by omega)
          rw [hp] at hne
          rw [if_neg hne, if_neg hne]
          exact h.moved i hlt hui
        · simp [hp]
      · intro j hj
        rw [hinfo, if_neg (fun e => hj n (by omega) hu (hp.trans e.symm))]
        exact h.empty j (fun i hi => hj i (by omega))

/-- In a ring of at most `2 ^ 16` slots the slot before a packet is the slot of the
previous sequence number, also across the wrap. -/
theorem prevIndex_seqNum (s : BitVec 16) {k : Nat} (hk : k ≤ 16) :
    prevIndex (2 ^ k) (s.toNat % 2 ^ k) = (s - 1).toNat % 2 ^ k := by
  have hdvd : 2 ^ k ∣ 65536 := Nat.pow_dvd_pow 2 hk
  have hpos := Nat.two_pow_pos k
  obtain ⟨c, hc⟩ := hdvd
  generalize 2 ^ k = m at hc hpos
  unfold prevIndex
  by_cases h0 : s = 0
  · subst h0
    have hcpos : 0 < c := Nat.pos_of_ne_zero (by rintro rfl; omega)
    obtain ⟨d, rfl⟩ : ∃ d, c = d + 1 := ⟨c - 1, by omega⟩
    have hlast : (65535 : Nat) = m - 1 + m * d := by rw [Nat.mul_succ] at hc; omega
    simp only [BitVec.ofNat_eq_ofNat, BitVec.toNat_ofNat, Nat.zero_mod, gt_iff_lt, Nat.lt_irrefl,
      ↓reduceIte]
    rw [show (0#16 - 1#16).toNat = 65535 from rfl, hlast, Nat.add_mul_mod_self_left,
      Nat.mod_eq_of_lt (by omega)]
  · have hsub : (s - 1).toNat = s.toNat - 1 := by bv_omega
    have hspos : 0 < s.toNat := by bv_omega
    rw [hsub]
    have hdiv := Nat.div_add_mod s.toNat m
    split
    · next hr =>
      have hlt := Nat.mod_lt s.toNat hpos
      have e : s.toNat - 1 = s.toNat % m - 1 + m * (s.toNat / m) := by omega
      rw [e, Nat.add_mul_mod_self_left, Nat.mod_eq_of_lt (show s.toNat % m - 1 < m by omega)]
    have hq : 0 < s.toNat / m := Nat.pos_of_ne_zero (by intro hq; rw [hq] at hdiv; omega)
    obtain ⟨q, hq'⟩ : ∃ q, s.toNat / m = q + 1 := ⟨s.toNat / m - 1, by omega⟩
    have e : s.toNat - 1 = m - 1 + m * q := by
      rw [hq', Nat.mul_succ] at hdiv; omega
    rw [e, Nat.add_mul_mod_self_left, Nat.mod_eq_of_lt (by omega)]

/-- Twice a power of two below another one is still at most that one. -/
theorem WellFormed.two_mul_le (hw : WellFormed b) (hne : b.size ≠ b.maxSize) :
    2 * b.size ≤ b.maxSize := by
  obtain ⟨k, hk⟩ := hw.pow
  obtain ⟨m, hm⟩ := hw.maxPow
  have hlt : b.size < b.maxSize := Nat.lt_of_le_of_ne hw.le_max hne
  rw [hk, hm] at hlt ⊢
  rw [← Nat.pow_succ']
  exact Nat.pow_le_pow_right (by decide) ((Nat.pow_lt_pow_iff_right (by decide)).mp hlt)

theorem expandBufferSize_eq (hw : WellFormed b) (hne : b.size ≠ b.maxSize) :
    expandBufferSize b = (true, { b with
      size := 2 * b.size
      sequenceBuffer := (copyUsed b (2 * b.size)).1
      dataBuffer := (copyUsed b (2 * b.size)).2 }) := by
  unfold expandBufferSize
  rw [if_neg hne, Nat.min_eq_right (hw.two_mul_le hne)]

/-- `b'` is `b` in a ring of twice the size. -/
structure Expanded (b b' : PacketBuffer) : Prop where
  shaped : Shaped b'
  size : b'.size = 2 * b.size
  maxSize : b'.maxSize = b.maxSize
  le_max : 2 * b.size ≤ b.maxSize
  moved : ∀ i, i < b.size → (b.info i).used = true →
    b'.info ((b.info i).seqNum.toNat % b'.size) = b.info i ∧
      b'.packet ((b.info i).seqNum.toNat % b'.size) = b.packet i
  origin : ∀ j, (b'.info j).used = true →
    ∃ i, i < b.size ∧ (b.info i).used = true ∧ (b.info i).seqNum.toNat % b'.size = j

theorem expandBufferSize_expanded (hw : WellFormed b) (hne : b.size ≠ b.maxSize) :
    Expanded b (expandBufferSize b).2 := by
  have hpos := hw.pos
  have hcop := copySlots_copied hw (show 0 < 2 * b.size by omega) (Nat.dvd_mul_left _ _) b.size
    (Nat.le_refl _)
  rw [expandBufferSize_eq hw hne]
  refine ⟨⟨hcop.info_length, hcop.packet_length⟩, rfl, rfl, hw.two_mul_le hne, hcop.moved, ?_⟩
  intro j hu
  by_contra hno
  have he := hcop.empty j (fun i hi hui he => hno ⟨i, hi, hui, he⟩)
  exact Bool.noConfusion ((congrArg ContinuityInfo.used he).symm.trans hu)

theorem Expanded.wellFormed (h : Expanded b b') (hw : WellFormed b) : WellFormed b' := by
  obtain ⟨k, hk⟩ := hw.pow
  refine ⟨h.shaped, ⟨k + 1, by rw [h.size, hk, Nat.pow_succ']⟩, h.maxSize ▸ hw.maxPow, ?_, ?_, ?_⟩
  · rw [h.size, h.maxSize]; exact h.le_max
  · intro j hj hu
    obtain ⟨i, hi, hui, rfl⟩ := h.origin j hu
    rw [(h.moved i hi hui).1]
  intro j hj hu
  obtain ⟨i, hi, hui, rfl⟩ := h.origin j hu
  rw [(h.moved i hi hui).1, (h.moved i hi hui).2]
  exact hw.data i hi hui

theorem WellFormed.exponent (hw : WellFormed b) (hsmall : b.size < 65536) :
    ∃ k < 16, b.size = 2 ^ k := by
  obtain ⟨k, hk⟩ := hw.pow
  refine ⟨k, ?_, hk⟩
  by_contra hge
  have := Nat.pow_le_pow_right (show 0 < 2 by decide) (show 16 ≤ k by omega)
  omega

/-- Expansion keeps every root: rings of `2 ^ 16` slots and more are never expanded. -/
theorem Expanded.rooted (h : Expanded b b') (hw : WellFormed b) (hsmall : b.size < 65536)
    (hr : Rooted b.size b.info i) : Rooted b'.size b'.info ((b.info i).seqNum.toNat % b'.size) := by
  have hlt : ∀ n, n % b'.size < b'.size := by
    intro n
    have := hw.pos
    exact Nat.mod_lt _ (by rw [h.size]; omega)
  obtain ⟨k, hk16, hk⟩ := hw.exponent hsmall
  have hsize : b'.size = 2 ^ (k + 1) := by rw [h.size, hk, Nat.pow_succ']
  induction hr with
  | first hi ho hb =>
    have hm := (h.moved _ hi ho.1).1
    exact .first (hlt _) (by rw [hm]; exact ho) (by rw [hm]; exact hb)
  | @next i hi ho hb hseq hr ih =>
    have hm := (h.moved _ hi ho.1).1
    have hprev : prevIndex b'.size ((b.info i).seqNum.toNat % b'.size) =
        (b.info (prevIndex b.size i)).seqNum.toNat % b'.size := by
      rw [hseq, hsize]
      exact prevIndex_seqNum _ hk16
    refine .next (hlt _) (by rw [hm]; exact ho) (by rw [hm]; exact hb) ?_ (by rw [hprev]; exact ih)
    rw [hprev, (h.moved _ (prevIndex_lt hi) hr.open.1).1, hm]
    exact hseq

theorem Expanded.inv (h : Expanded b b') (hinv : Inv b) (hsmall : b.size < 65536) : Inv b' := by
  refine ⟨h.wellFormed hinv.wf, ?_, ?_⟩
  · intro j hj ho
    obtain ⟨i, hi, hui, rfl⟩ := h.origin j ho.1
    rw [(h.moved i hi hui).1] at ho
    exact h.rooted hinv.wf hsmall (hinv.rooted i hi ho)
  intro j hj ho
  obtain ⟨i, hi, hui, rfl⟩ := h.origin j ho.1
  rw [(h.moved i hi hui).1] at ho ⊢
  exact hinv.unfinished i hi ho

end WebRtc.Video.Packets
