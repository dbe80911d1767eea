import Mathlib.Data.List.Pairwise
import WebRtc.Rtp.FecEncoder

/-! `InsertZerosInPacketMasks`: a row has one bit for each media packet, and the bit of a packet
is moved to the place of its sequence number. The new row is built bit by bit from the front. -/

namespace WebRtc.Rtp.Fec
open List BitVec MaskRow

variable {n : Nat} {t : Nat → Bool} {row left : MaskRow} {rest : List Packet} {scheme : FecScheme}

/-! ## Rows under construction -/

theorem MaskRow.byte_modify (row : MaskRow) (k : Nat) (f : BitVec 8 → BitVec 8) (j : Nat) :
    byte (row.modify k f) j =
      if j = k ∧ k < row.length then f (row.byte j) else row.byte j := by
  unfold byte
  by_cases hj : j = k
  · subst hj
    by_cases hl : j < row.length
    · simp [hl]
    · simp [hl]
  · simp [hj, Ne.symm hj]

/-- The first `n` bits of a row under construction: the full bytes are in place, the bits of
the byte that is being filled stand at its low end, one place above the next free one. -/
structure Partial (n : Nat) (t : Nat → Bool) (row : MaskRow) : Prop where
  full : ∀ k < n / 8, ∀ p < 8, (row.byte k).getLsbD p = t (8 * k + (7 - p))
  current : ∀ p < 8, (row.byte (n / 8)).getLsbD p =
    (decide (1 ≤ p ∧ p ≤ n % 8) && t (8 * (n / 8) + (n % 8 - p)))
  free : ∀ k, n / 8 < k → row.byte k = 0#8

theorem Partial.insertZeroColumns (h : Partial n t row) (z : Nat)
    (ht : ∀ j, n ≤ j → j < n + z → t j = false) (hn : n / 8 < row.length) :
    Partial (n + z) t (insertZeroColumns z n row) := by
  obtain ⟨s, hs⟩ : ∃ s, s = min z (7 - n % 8) := ⟨_, rfl⟩
  have hbyte : ∀ k, byte (Fec.insertZeroColumns z n row) k =
      if k = n / 8 then row.byte k <<< s else row.byte k := by
    intro k
    unfold Fec.insertZeroColumns
    rw [byte_modify, hs]
    simp [hn]
  -- the bits of the byte that was being filled, after the shift
  have hcur : ∀ p < 8, (row.byte (n / 8) <<< s).getLsbD p =
      (decide (1 + s ≤ p ∧ p ≤ n % 8 + s) &&
        t (8 * (n / 8) + (n % 8 + s - p))) := by
    intro p hp
    rw [getLsbD_shiftLeft]
    by_cases hps : p < s
    · simp [hps]; omega
    rw [h.current _ (by omega)]
    have he : n % 8 - (p - s) = n % 8 + s - p := by omega
    rw [he]
    have hd : decide (1 ≤ p - s ∧ p - s ≤ n % 8) =
        decide (1 + s ≤ p ∧ p ≤ n % 8 + s) := by
      rw [decide_eq_decide]; omega
    rw [hd]
    simp [hp, hps]
  constructor
  · intro k hk p hp
    rw [hbyte]
    rcases Nat.lt_trichotomy k (n / 8) with hlt | heq | hgt
    · rw [if_neg (by omega), h.full k hlt p hp]
    · subst heq
      rw [if_pos rfl, hcur p hp]
      by_cases hd : 1 + s ≤ p
      · rw [decide_eq_true (by omega), Bool.true_and]
        congr 1; omega
      · rw [decide_eq_false (by omega), Bool.false_and, ht _ (by omega) (by omega)]
    · rw [if_neg (by omega), h.free k hgt, ht _ (by omega) (by omega), getLsbD_zero]
  · intro p hp
    rw [hbyte]
    by_cases hk : (n + z) / 8 = n / 8
    · rw [if_pos hk, hk, hcur p hp]
      by_cases hd : 1 + s ≤ p ∧ p ≤ n % 8 + s
      · rw [decide_eq_true hd, decide_eq_true (by omega)]
        congr 2; omega
      rw [decide_eq_false hd, Bool.false_and]
      by_cases hd' : 1 ≤ p ∧ p ≤ (n + z) % 8
      · rw [ht _ (by omega) (by omega), Bool.and_false]
      · rw [decide_eq_false hd', Bool.false_and]
    · rw [if_neg hk, h.free _ (by omega), getLsbD_zero]
      by_cases hd' : 1 ≤ p ∧ p ≤ (n + z) % 8
      · rw [ht _ (by omega) (by omega), Bool.and_false]
      · rw [decide_eq_false hd', Bool.false_and]
  · intro k hk
    rw [hbyte, if_neg (by omega), h.free k (by omega)]

/-- The row `left` is what copying `n` columns left of the row `row`. -/
structure ColumnsLeft (n : Nat) (row left : MaskRow) : Prop where
  length : left.length = row.length
  current : left.byte (n / 8) = row.byte (n / 8) <<< (n % 8)
  rest : ∀ k, n / 8 < k → left.byte k = row.byte k

theorem ColumnsLeft.first (row : MaskRow) : ColumnsLeft 0 row row where
  length := rfl
  current := by simp
  rest _ _ := rfl

theorem ColumnsLeft.next (h : ColumnsLeft n row left) :
    ColumnsLeft (n + 1) row (left.modify (n / 8) fun b => b <<< 1) := by
  constructor
  · rw [length_modify, h.length]
  · rw [byte_modify]
    by_cases h7 : n % 8 = 7
    · rw [if_neg (by omega), h.rest _ (by omega), show (n + 1) % 8 = 0 by omega, shiftLeft_zero]
    have hd : (n + 1) / 8 = n / 8 := by omega
    rw [hd, h.current, show (n + 1) % 8 = n % 8 + 1 by omega, shiftLeft_add]
    split
    · rfl
    have hz : row.byte (n / 8) = 0#8 := by
      unfold byte
      rw [getD_eq_getElem?_getD, List.getElem?_eq_none (by rw [← h.length]; omega)]
      rfl
    rw [hz]; simp
  · intro k hk
    rw [byte_modify, if_neg (by omega), h.rest k (by omega)]

theorem ColumnsLeft.bit (h : ColumnsLeft n row left) :
    (left.byte (n / 8) &&& 0x80) >>> 7 = (BitVec.ofBool (row.bit n)).setWidth 8 := by
  rw [h.current]
  have hall : ∀ (c : Fin 8) (b : BitVec 8),
      (b <<< c.val &&& 0x80) >>> 7 = (BitVec.ofBool (b.getMsbD c)).setWidth 8 := by
    decide +kernel
  exact hall ⟨n % 8, Nat.mod_lt _ (by decide)⟩ _

theorem Partial.copyColumn {i : Nat} {newRow : MaskRow} (h : Partial n t newRow)
    (hl : ColumnsLeft i row left) (ht : t n = row.bit i) (hn : n / 8 < newRow.length) :
    Partial (n + 1) t (copyColumn n i (newRow, left)).1 ∧
      ColumnsLeft (i + 1) row (copyColumn n i (newRow, left)).2 := by
  refine ⟨?_, hl.next⟩
  have hbyte : ∀ k, byte (Fec.copyColumn n i (newRow, left)).1 k =
      if k = n / 8 then
        if n % 8 ≠ 7 then (newRow.byte k ||| (BitVec.ofBool (t n)).setWidth 8) <<< 1
        else newRow.byte k ||| (BitVec.ofBool (t n)).setWidth 8
      else newRow.byte k := by
    intro k
    unfold Fec.copyColumn
    rw [byte_modify]
    simp only [hn, and_true]
    rw [hl.bit, ht]
  have hbit : ∀ p, ((BitVec.ofBool (t n)).setWidth 8).getLsbD p = (decide (p = 0) && t n) := by
    intro p
    cases t n <;> simp
  constructor
  · intro k hk p hp
    rw [hbyte]
    rcases Nat.lt_or_ge k (n / 8) with hlt | hge
    · rw [if_neg (by omega), h.full k hlt p hp]
    have heq : k = n / 8 := by omega
    subst heq
    rw [if_pos rfl, if_neg (by omega), getLsbD_or, h.current p hp, hbit]
    rcases Nat.eq_zero_or_pos p with rfl | hp0
    · simp
      congr 1; omega
    rw [decide_eq_true (by omega), decide_eq_false (by omega), Bool.false_and, Bool.or_false,
      Bool.true_and]
    congr 1; omega
  · intro p hp
    rw [hbyte]
    by_cases h7 : n % 8 = 7
    · rw [if_neg (by omega), h.free _ (by omega), getLsbD_zero,
        decide_eq_false (by omega), Bool.false_and]
    have hd : (n + 1) / 8 = n / 8 := by omega
    rw [if_pos hd, if_pos h7, hd, getLsbD_shiftLeft, getLsbD_or, hbit]
    rcases Nat.eq_zero_or_pos p with rfl | hp0
    · simp
    rw [h.current _ (by omega)]
    by_cases hp1 : p = 1
    · subst hp1
      have he : 8 * (n / 8) + ((n + 1) % 8 - 1) = n := by omega
      rw [he, decide_eq_true (show 1 ≤ 1 ∧ 1 ≤ (n + 1) % 8 by omega)]
      simp
    have he : decide (1 ≤ p - 1 ∧ p - 1 ≤ n % 8) = decide (1 ≤ p ∧ p ≤ (n + 1) % 8) := by
      rw [decide_eq_decide]; omega
    rw [he, decide_eq_true hp, decide_eq_false (show ¬ p < 1 by omega),
      decide_eq_false (show ¬ p - 1 = 0 by omega), show n % 8 - (p - 1) = (n + 1) % 8 - p by omega]
    simp
  · intro k hk
    rw [hbyte, if_neg (by omega), h.free k (by omega)]

theorem Partial.start (size : Nat) (t : Nat → Bool) : Partial 0 t (List.replicate size 0) := by
  have hz : ∀ k, byte (List.replicate size 0) k = 0#8 := by
    intro k
    unfold byte
    rw [getD_eq_getElem?_getD, List.getElem?_replicate]
    split <;> rfl
  constructor
  · intro k hk
    omega
  · intro p hp
    rw [hz, getLsbD_zero, decide_eq_false (by omega), Bool.false_and]
  · intro k _
    exact hz k

theorem MaskRow.bit_eq_getLsbD (row : MaskRow) (j : Nat) :
    row.bit j = (row.byte (j / 8)).getLsbD (7 - j % 8) := by
  unfold bit
  rw [getMsbD_eq_getLsbD, decide_eq_true (Nat.mod_lt _ (by decide)), Bool.true_and]

/-- The last shift puts the bits of the byte that was being filled in place. -/
theorem Partial.finish (h : Partial n t row) (ht : ∀ j, n ≤ j → t j = false)
    (hn : n % 8 ≠ 0 → n / 8 < row.length) (j : Nat) :
    bit (if n % 8 ≠ 0 then row.modify (n / 8) fun b => b <<< (7 - n % 8) else row) j =
      t j := by
  have hbyte : ∀ k, byte
      (if n % 8 ≠ 0 then row.modify (n / 8) fun b => b <<< (7 - n % 8) else row) k =
        if n % 8 ≠ 0 ∧ k = n / 8 then row.byte k <<< (7 - n % 8) else row.byte k := by
    intro k
    by_cases h0 : n % 8 = 0
    · simp [h0]
    · simp [h0, byte_modify, hn h0]
  rw [bit_eq_getLsbD, hbyte]
  have hj : 7 - (7 - j % 8) = j % 8 := by omega
  rcases Nat.lt_trichotomy (j / 8) (n / 8) with hlt | heq | hgt
  · rw [if_neg (by omega), h.full _ hlt _ (by omega), hj, Nat.div_add_mod]
  · by_cases h0 : n % 8 = 0
    · rw [if_neg (by omega), heq, h.current _ (by omega), decide_eq_false (by omega),
        Bool.false_and, ht j (by omega)]
    rw [if_pos ⟨h0, heq⟩, heq, getLsbD_shiftLeft]
    by_cases hjn : j < n
    · rw [h.current _ (by omega), decide_eq_true (show 7 - j % 8 < 8 by omega),
        decide_eq_false (show ¬ 7 - j % 8 < 7 - n % 8 by omega),
        decide_eq_true (show 1 ≤ _ ∧ _ by omega),
        show 8 * (n / 8) + (n % 8 - (7 - j % 8 - (7 - n % 8))) = j by omega]
      simp
    rw [ht j (by omega), h.current _ (by omega)]
    by_cases hlt : 7 - j % 8 < 7 - n % 8
    · simp [hlt]
    · rw [decide_eq_false (show ¬ (1 ≤ _ ∧ _) by omega)]
      simp
  · rw [if_neg (by omega), h.free _ hgt, getLsbD_zero, ht j (by omega)]

/-! ## Media packets -/

variable {first : Packet}

/-- How far a packet is after the first one. -/
def offset (base : BitVec 16) (p : Packet) : Nat := (p.parseSequenceNumber - base).toNat

theorem offset_sub {base : BitVec 16} {p q : Packet} (h : offset base p < offset base q) :
    (q.parseSequenceNumber - p.parseSequenceNumber).toNat = offset base q - offset base p := by
  unfold offset at *
  bv_omega

/-- The loop over the packets keeps the bits it has set and sets one for each packet. -/
theorem insertZerosFrom_spec (base : BitVec 16) (t : Nat → Bool) (row : MaskRow) (size : Nat) :
    ∀ (rest : List Packet) (prev : Packet) (i : Nat) (newRow left : MaskRow),
      (prev :: rest).Pairwise (fun p q => offset base p < offset base q) →
      (∀ m ∈ rest, offset base m < kMaxMediaPackets ∧ offset base m < 8 * size) →
      (∀ k (hk : k < rest.length), t (offset base (rest.get ⟨k, hk⟩)) = row.bit (i + k)) →
      (∀ j, offset base prev < j → t j → ∃ m ∈ rest, offset base m = j) →
      newRow.length = size → Partial (offset base prev + 1) t newRow → ColumnsLeft i row left →
      ∃ newRow', insertZerosFrom prev.parseSequenceNumber (offset base prev + 1) i rest
          (newRow, left) = (newRow', offset base (rest.getLastD prev) + 1) ∧
        newRow'.length = size ∧ Partial (offset base (rest.getLastD prev) + 1) t newRow' := by
  intro rest
  induction rest with
  | nil =>
    intro prev i newRow left _ _ _ _ hlen hp _
    exact ⟨newRow, rfl, hlen, hp⟩
  | cons m rest ih =>
    intro prev i newRow left hsorted hspan hbits honly hlen hp hleft
    rw [pairwise_cons] at hsorted
    have hm := hsorted.1 m (by simp)
    have hspanm := hspan m (by simp)
    obtain ⟨z, hz⟩ : ∃ z, (m.parseSequenceNumber - prev.parseSequenceNumber - 1).toNat = z :=
      ⟨_, rfl⟩
    have hnz : offset base prev + 1 + z = offset base m := by
      have := offset_sub hm
      bv_omega
    -- no packet stands in the hole
    have hzero : ∀ j, offset base prev + 1 ≤ j → j < offset base m → t j = false := by
      intro j hj hjm
      by_contra hne
      obtain ⟨m', hm', he⟩ := honly j hj (by simpa using hne)
      rcases mem_cons.1 hm' with rfl | hm'
      · omega
      · have := (pairwise_cons.1 hsorted.2).1 m' hm'
        omega
    obtain ⟨spread, hspread⟩ : ∃ spread, (if z > 0 then
      insertZeroColumns z (offset base prev + 1) newRow else newRow) = spread := ⟨_, rfl⟩
    have hpz : Partial (offset base m) t spread := by
      rw [← hspread, ← hnz]
      split
      · exact hp.insertZeroColumns z (fun j hj hjm => hzero j hj (by omega)) (by rw [hlen]; omega)
      · rwa [show z = 0 by omega]
    have hlenz : spread.length = size := by
      rw [← hspread]
      split
      · rw [← hlen]; exact length_modify ..
      · exact hlen
    obtain ⟨hcopy, hleft'⟩ := hpz.copyColumn hleft (by simpa using hbits 0 (by simp))
      (by rw [hlenz]; omega)
    obtain ⟨newRow', heq, hlen', hp'⟩ := ih m (i + 1) _ _ hsorted.2
      (fun m' hm' => hspan m' (by simp [hm']))
      (fun k hk => by
        have := hbits (k + 1) (by simpa using hk)
        rwa [Nat.add_assoc, Nat.add_comm 1 k])
      (fun j hj htj => by
        obtain ⟨m', hm', he⟩ := honly j (by omega) htj
        rcases mem_cons.1 hm' with rfl | hm'
        · omega
        · exact ⟨m', hm', he⟩)
      (by rw [← hlenz]; exact length_modify ..) hcopy hleft'
    rw [getLastD_cons]
    refine ⟨newRow', ?_, hlen', hp'⟩
    rw [insertZerosFrom, if_neg (by omega)]
    simp only [hz, hnz, hspread]
    exact heq

/-- The media packets `first :: rest` are one that the FEC code can protect: of one SSRC, in the
order of their sequence numbers, which span at most `kMaxMediaPackets`, and short enough for a
FEC header and an RTP header in front of each. -/
structure Protectable (scheme : FecScheme) (first : Packet) (rest : List Packet) : Prop where
  increasing : (first :: rest).Pairwise fun p q =>
    offset first.parseSequenceNumber p < offset first.parseSequenceNumber q
  span : ∀ m ∈ first :: rest, offset first.parseSequenceNumber m < kMaxMediaPackets
  ssrc : ∀ m ∈ first :: rest, m.parseSsrc = first.parseSsrc
  length_ge : ∀ m ∈ first :: rest, kRtpHeaderSize ≤ m.length
  length_le : ∀ m ∈ first :: rest,
    m.length ≤ ipPacketSize - kRtpHeaderSize - fecHeaderSize scheme kUlpfecPacketMaskSizeLBitClear
  padded : ∀ m ∈ first :: rest, m.ZeroPadded

/-- What `InsertZerosInPacketMasks` needs of the media packets. -/
structure Ascending (first : Packet) (rest : List Packet) : Prop where
  increasing : (first :: rest).Pairwise fun p q =>
    offset first.parseSequenceNumber p < offset first.parseSequenceNumber q
  span : ∀ m ∈ first :: rest, offset first.parseSequenceNumber m < kMaxMediaPackets

theorem Protectable.ascending (h : Protectable scheme first rest) :
    Ascending first rest := ⟨h.increasing, h.span⟩

/-- No sequence number is missing between the first and the last packet. -/
def NoHoles (first : Packet) (rest : List Packet) : Prop :=
  offset first.parseSequenceNumber (rest.getLastD first) + 1 = (first :: rest).length

theorem offset_first (first : Packet) : offset first.parseSequenceNumber first = 0 := by
  unfold offset
  rw [BitVec.sub_self, toNat_zero]

/-- The offsets of a sorted list without holes are the indices. -/
theorem index_le_offset {base : BitVec 16} {l : List Packet}
    (h : l.Pairwise fun p q => offset base p < offset base q) {i j : Nat} (hij : i ≤ j)
    (hj : j < l.length) :
    offset base (l.get ⟨i, by omega⟩) + (j - i) ≤ offset base (l.get ⟨j, hj⟩) := by
  induction j with
  | zero =>
    have : i = 0 := by omega
    subst this
    simp
  | succ j ih =>
    rcases Nat.lt_or_ge i (j + 1) with hlt | hge
    · have := ih (by omega) (by omega)
      have := pairwise_iff_get.1 h ⟨j, by omega⟩ ⟨j + 1, hj⟩ (by simp)
      omega
    have : i = j + 1 := by omega
    subst this
    simp

theorem getLastD_eq_get (a : Packet) (l : List Packet) :
    l.getLastD a = (a :: l).get ⟨l.length, Nat.lt_succ_self l.length⟩ := by
  induction l generalizing a with
  | nil => rfl
  | cons b l ih =>
    rw [getLastD_cons, ih b]
    rfl

theorem offset_le_last (hm : Ascending first rest) {m : Packet}
    (hmem : m ∈ first :: rest) :
    offset first.parseSequenceNumber m ≤ offset first.parseSequenceNumber (rest.getLastD first) := by
  obtain ⟨⟨i, hi⟩, rfl⟩ := get_of_mem hmem
  rw [getLastD_eq_get]
  have := index_le_offset hm.increasing (show i ≤ rest.length by simp at hi; omega) (by simp)
  omega

theorem lt_packetMaskSize (hn : n < kMaxMediaPackets) : n < 8 * packetMaskSize (n + 1) := by
  unfold kMaxMediaPackets at hn
  unfold packetMaskSize kUlpfecPacketMaskSizeLBitClear kUlpfecPacketMaskSizeLBitSet
  split <;> omega

/-- The bits `t` are those of `row`, each at the offset of its packet. -/
structure Spread (first : Packet) (rest : List Packet) (row : MaskRow) (t : Nat → Bool) : Prop where
  bits : ∀ i (hi : i < (first :: rest).length),
    t (offset first.parseSequenceNumber ((first :: rest).get ⟨i, hi⟩)) = row.bit i
  only : ∀ j, t j → ∃ m ∈ first :: rest, offset first.parseSequenceNumber m = j

/-- With holes: a new row is built, the bits of which are the `t j`. -/
theorem spreadRow_spec (hm : Ascending first rest) {size : Nat} (ht : Spread first rest row t)
    (hsize : offset first.parseSequenceNumber (rest.getLastD first) + 1 ≤ 8 * size) :
    ∃ row', spreadRow first.parseSequenceNumber rest size row =
        (row', offset first.parseSequenceNumber (rest.getLastD first) + 1) ∧
      row'.length = size ∧ ∀ j, row'.bit j = t j := by
  have h0 := offset_first first
  have hstart := (Partial.start size t).copyColumn (ColumnsLeft.first row)
    (by simpa [h0] using ht.bits 0 (by simp)) (by simp; omega)
  obtain ⟨_, heq, hlen, hp⟩ := insertZerosFrom_spec first.parseSequenceNumber t row size rest
    first 1 (copyColumn 0 0 (List.replicate size 0, row)).1
    (copyColumn 0 0 (List.replicate size 0, row)).2 hm.increasing
    (fun m hmem => by
      have := offset_le_last hm (.tail _ hmem)
      exact ⟨hm.span m (by simp [hmem]), by omega⟩)
    (fun k hk => by
      have := ht.bits (k + 1) (by simpa using hk)
      rwa [Nat.add_comm 1 k])
    (fun j hj htj => by
      obtain ⟨m, hmem, he⟩ := ht.only j htj
      rcases mem_cons.1 hmem with rfl | hmem
      · omega
      · exact ⟨m, hmem, he⟩)
    (by simp [copyColumn]) (by rw [h0]; exact hstart.1) hstart.2
  rw [h0] at heq
  refine ⟨_, by unfold spreadRow; dsimp only; rw [heq], ?_, hp.finish (fun j hj => ?_) (fun _ => ?_)⟩
  · split
    · rw [length_modify, hlen]
    · exact hlen
  · by_contra hne
    obtain ⟨m, hmem, he⟩ := ht.only j (by simpa using hne)
    have := offset_le_last hm hmem
    omega
  · omega

/-- A row of the masks for `n` media packets. -/
structure ValidRow (n : Nat) (row : MaskRow) : Prop where
  length : row.length = packetMaskSize n
  bits : ∀ j, n ≤ j → row.bit j = false

/-- Without holes the offset of a packet is its index. -/
theorem offset_get (hm : Ascending first rest) {j : Nat} (hj : j < (first :: rest).length)
    (hlast : NoHoles first rest) :
    offset first.parseSequenceNumber ((first :: rest).get ⟨j, hj⟩) = j := by
  rw [NoHoles, getLastD_eq_get] at hlast
  have h1 := index_le_offset hm.increasing (Nat.zero_le j) hj
  have h2 := index_le_offset hm.increasing (show j ≤ rest.length by simp at hj; omega) (by simp)
  simp only [length_cons] at hlast hj
  omega

/-- Without holes nothing is done. -/
theorem insertZerosInPacketMask_full (hlast : NoHoles first rest) :
    insertZerosInPacketMask (first :: rest) row = some (row, (first :: rest).length) := by
  cases rest with
  | nil => rfl
  | cons next rest => exact if_pos hlast

/-- **Inserting zeros moves the bit of each media packet to the place of its sequence number.**
What the row holds behind the media packets matters without holes only. -/
theorem insertZerosInPacketMask_spec (hm : Ascending first rest)
    (hrow : NoHoles first rest → ValidRow (first :: rest).length row) :
    ∃ row' n, insertZerosInPacketMask (first :: rest) row = some (row', n) ∧
      row'.length = packetMaskSize n ∧ Spread first rest row row'.bit := by
  by_cases hholes : NoHoles first rest
  · refine ⟨row, _, insertZerosInPacketMask_full hholes, (hrow hholes).length,
      fun i hi => by rw [offset_get hm hi hholes], fun j hj => ?_⟩
    have hlt : j < (first :: rest).length := by
      by_contra hge
      rw [(hrow hholes).bits j (by omega)] at hj
      cases hj
    exact ⟨_, get_mem _ _, offset_get hm hlt hholes⟩
  obtain ⟨t, ht⟩ : ∃ t : Nat → Bool, ∀ j, t j ↔ ∃ i, ∃ hi : i < (first :: rest).length,
      offset first.parseSequenceNumber ((first :: rest).get ⟨i, hi⟩) = j ∧ row.bit i :=
    ⟨_, fun _ => decide_eq_true_iff⟩
  have hspread : Spread first rest row t := by
    constructor
    · -- the offsets are different, so the bit of a packet is the only one that goes to its place
      intro i hi
      rw [Bool.eq_iff_iff, ht]
      constructor
      · rintro ⟨k, hk, he, hb⟩
        rcases Nat.lt_trichotomy k i with hlt | rfl | hgt
        · have := index_le_offset hm.increasing (Nat.le_of_lt hlt) hi
          omega
        · exact hb
        · have := index_le_offset hm.increasing (Nat.le_of_lt hgt) hk
          omega
      · exact fun hb => ⟨i, hi, rfl, hb⟩
    · intro j hj
      obtain ⟨i, hi, he, _⟩ := (ht j).1 hj
      exact ⟨_, get_mem _ _, he⟩
  have hlast : offset first.parseSequenceNumber (rest.getLastD first) < kMaxMediaPackets := by
    rw [getLastD_eq_get]
    exact hm.span _ (get_mem _ _)
  obtain ⟨row', heq, hlen, hbits⟩ := spreadRow_spec hm hspread
    (Nat.succ_le_of_lt (lt_packetMaskSize hlast))
  cases rest with
  | nil => exact absurd (congrArg (· + 1) (offset_first first)) hholes
  | cons next rest =>
    refine ⟨row', _, (if_neg hholes).trans ((if_neg ?_).trans (congrArg some heq)), hlen, ?_⟩
    · exact Nat.not_lt.2 (Nat.succ_le_of_lt hlast)
    · rw [funext hbits]
      exact hspread

/-! ## The whole masks -/

/-- `InsertZerosInPacketMasks(media_packets, num_fec_packets)`, on at least one row: the rows, each
with the number of its bits. -/
def insertZerosInPacketMasks (mediaPackets : List Packet) (masks : List MaskRow) :
    Option (List (MaskRow × Nat)) := masks.mapM (insertZerosInPacketMask mediaPackets)

/-- How far each media packet is after the first one. -/
def positions : List Packet → List Nat
  | [] => []
  | first :: rest => (first :: rest).map (offset first.parseSequenceNumber)

/-- The bit of each media packet is at its position. The others are zero, unless there are no holes
and the row had bits behind those of the media packets. -/
structure Moved (mediaPackets : List Packet) (row row' : MaskRow) : Prop where
  moved : ∀ i j, (positions mediaPackets)[i]? = some j → row'.bit j = row.bit i
  zero_iff : (∀ j ∉ positions mediaPackets, row'.bit j = false) ↔
    ((∀ j ∈ positions mediaPackets, j < mediaPackets.length) →
      ∀ j, mediaPackets.length ≤ j → row.bit j = false)

theorem insertZerosInPacketMask_moved {mediaPackets : List Packet}
    (hsorted : (positions mediaPackets).Pairwise (· < ·))
    (hspan : ∀ j ∈ positions mediaPackets, j < kMaxMediaPackets) (row : MaskRow) :
    ∃ r, insertZerosInPacketMask mediaPackets row = some r ∧ Moved mediaPackets row r.1 := by
  cases mediaPackets with
  | nil => exact ⟨_, rfl, nofun, by simp [positions]⟩
  | cons first rest =>
    have hm : Ascending first rest := ⟨pairwise_map.1 hsorted, forall_mem_map.1 hspan⟩
    have hget : ∀ {i j}, (positions (first :: rest))[i]? = some j →
        ∃ hi : i < (first :: rest).length,
          offset first.parseSequenceNumber ((first :: rest).get ⟨i, hi⟩) = j := by
      intro i j h
      obtain ⟨hi, he⟩ := List.getElem?_eq_some_iff.1 h
      exact ⟨by simpa [positions] using hi, (getElem_map _).symm.trans he⟩
    by_cases hlast : NoHoles first rest
    · have hmem : ∀ j, j ∈ positions (first :: rest) ↔ j < (first :: rest).length := by
        refine fun j => ⟨fun h => ?_, fun h => mem_map.2 ⟨_, get_mem _ _, offset_get hm h hlast⟩⟩
        obtain ⟨m, hmem, rfl⟩ := mem_map.1 h
        exact Nat.lt_of_lt_of_eq (Nat.lt_succ_of_le (offset_le_last hm hmem)) hlast
      refine ⟨_, insertZerosInPacketMask_full hlast, fun i j h => ?_, ?_⟩
      · obtain ⟨hi, rfl⟩ := hget h
        rw [offset_get hm hi hlast]
      · simp only [hmem, Nat.not_lt]
        exact ⟨fun h _ => h, fun h => h fun _ => id⟩
    · obtain ⟨row', n, heq, -, hspread⟩ :=
        insertZerosInPacketMask_spec hm (show _ → ValidRow _ row from fun h => absurd h hlast)
      refine ⟨_, heq, fun i j h => ?_, iff_of_true (fun j hj => ?_) fun hlt => absurd ?_ hlast⟩
      · obtain ⟨hi, rfl⟩ := hget h
        exact hspread.bits i hi
      · exact Bool.eq_false_iff.2 fun hb => hj (mem_map.2 (hspread.only j hb))
      · -- the last packet is not in front of its index
        rw [NoHoles, getLastD_eq_get]
        have h1 := hlt _ (mem_map.2 ⟨_, get_mem _ ⟨rest.length, by simp⟩, rfl⟩)
        have h2 := index_le_offset hm.increasing (Nat.zero_le rest.length) (by simp)
        simp only [length_cons] at h1 ⊢
        omega

/-- `InsertZerosInPacketMasks` moves the bits of every row. -/
theorem zeros_inserted {mediaPackets : List Packet}
    (hsorted : (positions mediaPackets).Pairwise (· < ·))
    (hspan : ∀ j ∈ positions mediaPackets, j < kMaxMediaPackets) (masks : List MaskRow) :
    ∃ masks', insertZerosInPacketMasks mediaPackets masks = some masks' ∧
      Forall₂ (fun row r => Moved mediaPackets row r.1) masks masks' := by
  induction masks with
  | nil => exact ⟨[], rfl, .nil⟩
  | cons row masks ih =>
    obtain ⟨r, hr, hmoved⟩ := insertZerosInPacketMask_moved hsorted hspan row
    obtain ⟨masks', hmasks, hall⟩ := ih
    unfold insertZerosInPacketMasks at hmasks ⊢
    refine ⟨r :: masks', ?_, .cons hmoved hall⟩
    rw [mapM_cons, hr, hmasks]
    rfl

/-- The numbers 65535 and 1: the bit of the second packet moves over the hole. -/
theorem zeros_inserted_hole :
    ∃ masks', insertZerosInPacketMasks [Packet.empty.write16 2 0xffff, Packet.empty.write16 2 1]
        [[0xc0, 0], [0x40, 0]] = some masks' ∧
      Forall₂ (fun row r => Moved [Packet.empty.write16 2 0xffff, Packet.empty.write16 2 1] row r.1)
        [[0xc0, 0], [0x40, 0]] masks' :=
  zeros_inserted (by decide) (by decide) _

/-- The numbers 0 and 1: a bit behind those of the two packets stays set. -/
theorem other_bits_kept :
    ¬ ∀ mediaPackets, (positions mediaPackets).Pairwise (· < ·) →
      (∀ j ∈ positions mediaPackets, j < kMaxMediaPackets) →
      ∀ masks, ∃ masks', insertZerosInPacketMasks mediaPackets masks = some masks' ∧
        ∀ r ∈ masks', ∀ j ∉ positions mediaPackets, r.1.bit j = false := by
  intro h
  obtain ⟨_, heq, hzero⟩ := h [Packet.empty.write16 2 0, Packet.empty.write16 2 1] (by decide)
    (by decide) [[0xe0, 0]]
  cases heq
  exact absurd (hzero _ (.head _) 2 (by decide)) (by decide)

end WebRtc.Rtp.Fec
