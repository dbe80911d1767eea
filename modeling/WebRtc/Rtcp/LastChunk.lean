import Mathlib.Data.List.GetD
import WebRtc.Lib.PackedSymbols

/-! `TransportFeedback::LastChunk`: the statuses that still fit into one packet status chunk.
A status (`DeltaSize`) is 0 for a packet that was not received, else the number of bytes its
receive delta takes. -/

namespace WebRtc.Rtcp

open PackedSymbols List

variable {c : LastChunk} {d : Nat} {deltaSizes first : List Nat}

def kMaxRunLengthCapacity : Nat := 0x1fff
def kMaxOneBitCapacity : Nat := 14
def kMaxTwoBitCapacity : Nat := 7
def kMaxVectorCapacity : Nat := kMaxOneBitCapacity
def kLarge : Nat := 2

structure LastChunk where
  deltaSizes : List Nat
  size : Nat
  allSame : Bool
  hasLargeDelta : Bool
  deriving DecidableEq, Repr

namespace LastChunk

/-- `delta_sizes_[i]`. -/
def entry (c : LastChunk) (i : Nat) : Nat := c.deltaSizes.getD i 0

/-- The array after its first entries have been assigned. -/
def overwrite (deltaSizes first : List Nat) : List Nat :=
  first ++ deltaSizes.drop first.length

/-- `Clear()`. -/
def clear (c : LastChunk) : LastChunk :=
  { c with size := 0, allSame := true, hasLargeDelta := false }

/-- The constructor; what the array holds before an entry is assigned is never read. -/
def new : LastChunk := ⟨List.replicate kMaxVectorCapacity 0, 0, true, false⟩

/-- `Empty()`. -/
def empty (c : LastChunk) : Bool := c.size == 0

/-- `CanAdd(delta_size)`. -/
def canAdd (c : LastChunk) (deltaSize : Nat) : Bool :=
  if c.size < kMaxTwoBitCapacity then true
  else if c.size < kMaxOneBitCapacity ∧ c.hasLargeDelta = false ∧ deltaSize ≠ kLarge then true
  else if c.size < kMaxRunLengthCapacity ∧ c.allSame = true ∧ c.entry 0 = deltaSize then true
  else false

/-- `Add(delta_size)`. -/
def add (c : LastChunk) (deltaSize : Nat) : LastChunk :=
  let deltaSizes :=
    if c.size < kMaxVectorCapacity then c.deltaSizes.set c.size deltaSize else c.deltaSizes
  { deltaSizes := deltaSizes
    size := c.size + 1
    allSame := c.allSame && deltaSize == deltaSizes.getD 0 0
    hasLargeDelta := c.hasLargeDelta || deltaSize == kLarge }

/-- `EncodeOneBit()`. -/
def encodeOneBit (c : LastChunk) : BitVec 16 := pack 1 kMaxOneBitCapacity 0x8000#16 c.entry c.size

/-- `EncodeTwoBit(size)`. -/
def encodeTwoBit (c : LastChunk) (size : Nat) : BitVec 16 :=
  pack 2 kMaxTwoBitCapacity 0xc000#16 c.entry size

/-- `EncodeRunLength()`. -/
def encodeRunLength (c : LastChunk) : BitVec 16 :=
  (BitVec.ofNat 16 (c.entry 0) <<< 13) ||| BitVec.ofNat 16 c.size

/-- `Emit()`: the chunk and what stays after it. -/
def emit (c : LastChunk) : BitVec 16 × LastChunk :=
  if c.allSame then (c.encodeRunLength, c.clear)
  else if c.size = kMaxOneBitCapacity then (c.encodeOneBit, c.clear)
  else
    let size := c.size - kMaxTwoBitCapacity
    let rest := (c.deltaSizes.drop kMaxTwoBitCapacity).take size
    (c.encodeTwoBit kMaxTwoBitCapacity,
      { deltaSizes := overwrite c.deltaSizes rest
        size := size
        allSame := rest.all (· == rest.getD 0 0)
        hasLargeDelta := rest.any (· == kLarge) })

/-- `EncodeLast()`. -/
def encodeLast (c : LastChunk) : BitVec 16 :=
  if c.allSame then c.encodeRunLength
  else if c.size ≤ kMaxTwoBitCapacity then c.encodeTwoBit c.size
  else c.encodeOneBit

/-- What `AppendTo` appends. -/
def content (c : LastChunk) : List Nat :=
  if c.allSame then List.replicate c.size (c.entry 0) else c.deltaSizes.take c.size

/-- `DecodeOneBit(chunk, max_size)`. -/
def decodeOneBit (c : LastChunk) (chunk : BitVec 16) (maxSize : Nat) : LastChunk :=
  let size := min kMaxOneBitCapacity maxSize
  { deltaSizes := overwrite c.deltaSizes ((List.range size).map (unpack 1 kMaxOneBitCapacity chunk))
    size := size
    allSame := false
    hasLargeDelta := false }

/-- `DecodeTwoBit(chunk, max_size)`. -/
def decodeTwoBit (c : LastChunk) (chunk : BitVec 16) (maxSize : Nat) : LastChunk :=
  let size := min kMaxTwoBitCapacity maxSize
  { deltaSizes := overwrite c.deltaSizes ((List.range size).map (unpack 2 kMaxTwoBitCapacity chunk))
    size := size
    allSame := false
    hasLargeDelta := true }

/-- The symbol and the length of a run length chunk. -/
def runSymbol (chunk : BitVec 16) : Nat := ((chunk >>> 13) &&& 0x03#16).toNat
def runLength (chunk : BitVec 16) : Nat := (chunk &&& 0x1fff#16).toNat

/-- `DecodeRunLength(chunk, max_count)`. -/
def decodeRunLength (c : LastChunk) (chunk : BitVec 16) (maxCount : Nat) : LastChunk :=
  let size := min (runLength chunk) maxCount
  { deltaSizes :=
      overwrite c.deltaSizes (List.replicate (min size kMaxVectorCapacity) (runSymbol chunk))
    size := size
    allSame := true
    hasLargeDelta := decide (runSymbol chunk ≥ kLarge) }

/-- `Decode(chunk, max_size)`. -/
def decode (c : LastChunk) (chunk : BitVec 16) (maxSize : Nat) : LastChunk :=
  if chunk &&& 0x8000#16 = 0#16 then c.decodeRunLength chunk maxSize
  else if chunk &&& 0x4000#16 = 0#16 then c.decodeOneBit chunk maxSize
  else c.decodeTwoBit chunk maxSize

/-! ## The meaning of a chunk -/

/-- All statuses a chunk stands for. -/
def decodeChunk (chunk : BitVec 16) : List Nat :=
  if chunk &&& 0x8000#16 = 0#16 then List.replicate (runLength chunk) (runSymbol chunk)
  else if chunk &&& 0x4000#16 = 0#16 then
    (List.range kMaxOneBitCapacity).map (unpack 1 kMaxOneBitCapacity chunk)
  else (List.range kMaxTwoBitCapacity).map (unpack 2 kMaxTwoBitCapacity chunk)

/-- What the encoder keeps of the statuses it holds, and what decoding a chunk without a
reserved symbol leaves. -/
structure WF (c : LastChunk) : Prop where
  length : c.deltaSizes.length = 14
  size_le : c.size ≤ 8191
  vector : c.allSame = false → c.size ≤ 14
  same : c.allSame = true → ∀ i, i < c.size → i < 14 → c.entry i = c.entry 0
  small : c.hasLargeDelta = false → ∀ i, i < c.size → i < 14 → c.entry i ≤ 1
  symbol : ∀ i, i < c.size → i < 14 → c.entry i ≤ 2
  mixed : c.allSame = false → 7 < c.size → c.hasLargeDelta = false

theorem content_length (h : c.WF) : c.content.length = c.size := by
  unfold content
  split
  · exact length_replicate
  rename_i hs
  rw [length_take, h.length]
  have hv := h.vector (by simpa using hs)
  omega

/-- As long as all statuses fit into the array, the array holds them. -/
theorem content_eq_take (h : c.WF) (hv : c.size ≤ 14) : c.content = c.deltaSizes.take c.size := by
  unfold content
  split
  · next hs =>
    apply ext_getElem
    · simp [h.length, hv]
    intro i hi hi'
    have hi0 : i < c.size := by simpa using hi
    have he := h.same hs i hi0 (by omega)
    rw [getElem_replicate, getElem_take, ← getD_eq_getElem _ 0]
    exact he.symm
  · rfl

theorem wf_clear (h : c.deltaSizes.length = 14) : c.clear.WF := by
  refine ⟨h, ?_, ?_, ?_, ?_, ?_, ?_⟩ <;> simp [clear]

@[simp] theorem content_clear (c : LastChunk) : c.clear.content = [] := by simp [content, clear]

/-! ## Adding a status -/

theorem canAdd_iff : c.canAdd d ↔ c.size < 7 ∨ (c.size < 14 ∧ c.hasLargeDelta = false ∧ d ≠ 2) ∨
    (c.size < 8191 ∧ c.allSame ∧ c.entry 0 = d) := by
  unfold canAdd kMaxTwoBitCapacity kMaxOneBitCapacity kMaxRunLengthCapacity kLarge
  split
  · simp [*]
  split
  · simp [*]
  · split <;> simp [*]

theorem add_entry (hl : c.deltaSizes.length = 14) (d : Nat) (i : Nat) :
    (c.add d).entry i = if i = c.size ∧ c.size < 14 then d else c.entry i := by
  unfold add entry
  by_cases hs : c.size < 14
  · have hs' : c.size < kMaxVectorCapacity := hs
    simp only [hs, hs', if_true, and_true, getD_eq_getElem?_getD, getElem?_set]
    by_cases hi : i = c.size
    · subst hi
      simp [hl, hs]
    · simp [hi, Ne.symm hi]
  · simp [hs, kMaxVectorCapacity, kMaxOneBitCapacity]

theorem add_allSame (d : Nat) : (c.add d).allSame = (c.allSame && d == (c.add d).entry 0) := rfl

theorem wf_add (h : c.WF) (hd : d ≤ 2) (ha : c.canAdd d) : (c.add d).WF := by
  have hcases := canAdd_iff.mp ha
  have hsize : (c.add d).size = c.size + 1 := rfl
  have hlarge : (c.add d).hasLargeDelta = (c.hasLargeDelta || d == kLarge) := rfl
  have hold : c.allSame = false → c.size < 14 := by
    intro hs
    rcases hcases with h7 | h14 | hrun
    · omega
    · exact h14.1
    · exact absurd (hs.symm.trans hrun.2.1) (by simp)
  -- a status that breaks the run is accepted only while the array has room
  have hroom : (c.add d).allSame = false → c.size < 14 := by
    intro hs
    cases hc : c.allSame with
    | false => exact hold hc
    | true =>
      by_contra hfull
      have hrun : c.entry 0 = d := by
        rcases hcases with h7 | h14 | hrun
        · omega
        · omega
        · exact hrun.2.2
      rw [add_allSame, hc, add_entry h.length, if_neg (by omega), hrun] at hs
      simp at hs
  refine ⟨?_, ?_, ?_, ?_, ?_, ?_, ?_⟩
  · unfold add
    split
    · rw [length_set, h.length]
    · exact h.length
  · omega
  · intro hs
    exact hroom hs
  · intro hs i hi hi14
    rw [add_allSame, Bool.and_eq_true, beq_iff_eq] at hs
    rw [add_entry h.length]
    split
    · exact hs.2
    have hi0 : i < c.size := by
      omega
    have h0 : (c.add d).entry 0 = c.entry 0 := by
      rw [add_entry h.length, if_neg (by omega)]
    rw [h0]
    exact h.same hs.1 i hi0 hi14
  · intro hs i hi hi14
    rw [hlarge, Bool.or_eq_false_iff] at hs
    have hd2 : d ≠ 2 := by simpa [kLarge] using hs.2
    rw [add_entry h.length]
    split
    · omega
    exact h.small hs.1 i (by omega) hi14
  · intro i hi hi14
    rw [add_entry h.length]
    split
    · exact hd
    exact h.symbol i (by omega) hi14
  · intro hs h7
    rw [hlarge]
    rcases hcases with h7' | h14 | hrun
    · omega
    · simp [h14.2.1, h14.2.2, kLarge]
    have h0 : (c.add d).entry 0 = c.entry 0 := by
      rw [add_entry h.length, if_neg (by omega)]
    rw [add_allSame, h0, hrun.2.1, hrun.2.2] at hs
    simp at hs

theorem content_add (h : c.WF) (hd : d ≤ 2) (ha : c.canAdd d) :
    (c.add d).content = c.content ++ [d] := by
  have hwf := wf_add h hd ha
  have hsize : (c.add d).size = c.size + 1 := rfl
  by_cases hv : c.size < 14
  · rw [content_eq_take hwf (by rw [hsize]; exact hv), content_eq_take h (by omega), hsize]
    have hset : (c.add d).deltaSizes = c.deltaSizes.set c.size d := if_pos hv
    rw [hset, take_add_one, take_set_of_le (Nat.le_refl _),
      getElem?_set_self (by rw [h.length]; exact hv)]
    rfl
  -- the array is full: only the run goes on
  have hrun : c.allSame ∧ c.entry 0 = d := by
    rcases canAdd_iff.mp ha with h7 | h14' | hrun
    · omega
    · omega
    · exact hrun.2
  have h0 : (c.add d).entry 0 = d := by
    rw [add_entry h.length, if_neg (fun he => hv he.2), hrun.2]
  have hs : (c.add d).allSame := by rw [add_allSame, h0, hrun.1]; simp
  unfold content
  rw [if_pos hs, if_pos hrun.1, h0, hrun.2, hsize, replicate_succ']

/-! ## Encoding -/

variable (chunk : BitVec 16)

theorem formatBits : (chunk &&& 0x8000#16 = 0#16 ↔ chunk.getLsbD 15 = false) ∧
    (chunk &&& 0x4000#16 = 0#16 ↔ chunk.getLsbD 14 = false) := by
  rw [show 0x8000#16 = BitVec.twoPow 16 15 from rfl, show 0x4000#16 = BitVec.twoPow 16 14 from rfl,
    BitVec.and_twoPow, BitVec.and_twoPow]
  cases chunk.getLsbD 15 <;> cases chunk.getLsbD 14 <;> decide

theorem runLength_eq : runLength chunk = chunk.toNat % 8192 := by
  exact Nat.and_two_pow_sub_one_eq_mod chunk.toNat 13

theorem runSymbol_eq : runSymbol chunk = chunk.toNat / 8192 % 4 := by
  unfold runSymbol
  rw [BitVec.toNat_and, BitVec.toNat_ushiftRight, Nat.shiftRight_eq_div_pow]
  exact Nat.and_two_pow_sub_one_eq_mod (chunk.toNat / 8192) 2

theorem toNat_encodeRunLength (c : LastChunk) (h0 : c.entry 0 ≤ 3) (hs : c.size ≤ 8191) :
    c.encodeRunLength.toNat = c.entry 0 * 8192 + c.size := by
  have hor := Nat.shiftLeft_add_eq_or_of_lt (show c.size < 2 ^ 13 by omega) (c.entry 0)
  unfold encodeRunLength
  rw [BitVec.toNat_or, BitVec.toNat_shiftLeft, BitVec.toNat_ofNat, BitVec.toNat_ofNat,
    Nat.mod_eq_of_lt (show c.entry 0 < 2 ^ 16 by omega),
    Nat.mod_eq_of_lt (show c.size < 2 ^ 16 by omega), Nat.shiftLeft_eq,
    Nat.mod_eq_of_lt (show c.entry 0 * 2 ^ 13 < 2 ^ 16 by omega), ← Nat.shiftLeft_eq, ← hor,
    Nat.shiftLeft_eq]

theorem decodeChunk_encodeRunLength (c : LastChunk) (h0 : c.entry 0 ≤ 3) (hs : c.size ≤ 8191) :
    decodeChunk c.encodeRunLength = replicate c.size (c.entry 0) := by
  have hn := toNat_encodeRunLength c h0 hs
  have htop : c.encodeRunLength &&& 0x8000#16 = 0#16 := by
    rw [(formatBits _).1, ← BitVec.testBit_toNat]
    exact Nat.testBit_lt_two_pow (by omega)
  unfold decodeChunk
  rw [if_pos htop, runLength_eq, runSymbol_eq, hn]
  congr 1
  · omega
  · omega

/-- A vector chunk stands for the packed statuses, followed by zeros. -/
theorem decodeChunk_pack {start : BitVec 16} {width capacity size : Nat}
    (hkind : start = 0x8000#16 ∧ width = 1 ∧ capacity = 14 ∨
      start = 0xc000#16 ∧ width = 2 ∧ capacity = 7)
    (hl : c.deltaSizes.length = 14) (hs : size ≤ capacity)
    (hlt : ∀ i < size, c.entry i < 2 ^ width) :
    decodeChunk (pack width capacity start c.entry size) =
      c.deltaSizes.take size ++ replicate (capacity - size) 0 := by
  have hfields : decodeChunk (pack width capacity start c.entry size) =
      (range capacity).map fun i => if i < size then c.entry i else 0 := by
    obtain ⟨h15, h14⟩ := formatBits (pack width capacity start c.entry size)
    unfold decodeChunk
    rcases hkind with ⟨rfl, rfl, rfl⟩ | ⟨rfl, rfl, rfl⟩
    all_goals rw [getLsbD_pack_high hlt hs (by decide)] at h15 h14
    · rw [if_neg (h15.not.mpr (by decide)), if_pos (h14.mpr (by decide))]
      exact map_congr_left fun i hi =>
        unpack_pack (by decide) (by decide) hlt hs (mem_range.mp hi)
    · rw [if_neg (h15.not.mpr (by decide)), if_neg (h14.not.mpr (by decide))]
      exact map_congr_left fun i hi =>
        unpack_pack (by decide) (by decide) hlt hs (mem_range.mp hi)
  have hsize : size ≤ 14 := by omega
  rw [hfields]
  apply ext_getElem
  · simp [hl]
    omega
  intro i hi hi'
  rw [getElem_map, getElem_range, getElem_append]
  split
  · rw [dif_pos (by simp [hl]; omega), getElem_take]
    exact getD_eq_getElem _ _ _
  · rw [dif_neg (by simp [hl]; omega), getElem_replicate]

theorem decodeChunk_encodeOneBit (hl : c.deltaSizes.length = 14) (hs : c.size ≤ 14)
    (hsmall : ∀ i < c.size, c.entry i ≤ 1) :
    decodeChunk c.encodeOneBit = c.deltaSizes.take c.size ++ replicate (14 - c.size) 0 :=
  decodeChunk_pack (.inl ⟨rfl, rfl, rfl⟩) hl hs fun i hi => Nat.lt_succ_of_le (hsmall i hi)

theorem decodeChunk_encodeTwoBit {size : Nat} (hl : c.deltaSizes.length = 14) (hs : size ≤ 7)
    (hsym : ∀ i < size, c.entry i ≤ 2) :
    decodeChunk (c.encodeTwoBit size) = c.deltaSizes.take size ++ replicate (7 - size) 0 :=
  decodeChunk_pack (.inr ⟨rfl, rfl, rfl⟩) hl hs fun i hi =>
    Nat.lt_succ_of_le (Nat.le_succ_of_le (hsym i hi))

theorem entry_zero_le (h : c.WF) (hs : 0 < c.size) : c.entry 0 ≤ 2 :=
  h.symbol 0 hs (by omega)

/-- The last chunk, cut at the number of statuses, stands for them. -/
theorem take_decodeChunk_encodeLast (h : c.WF) (hs : 0 < c.size) :
    (decodeChunk c.encodeLast).take c.size = c.content := by
  have h0 := entry_zero_le h hs
  unfold encodeLast content
  split
  · rw [decodeChunk_encodeRunLength c (by omega) h.size_le]
    exact take_of_length_le (by simp)
  rename_i hsame
  have hv := h.vector (by simpa using hsame)
  split
  · next h7 =>
    rw [decodeChunk_encodeTwoBit h.length h7 fun i hi => h.symbol i hi (by omega)]
    exact take_left' (by rw [length_take, h.length]; omega)
  · next h7 =>
    have hsmall := h.small (h.mixed (by simpa using hsame) (Nat.lt_of_not_le h7))
    rw [decodeChunk_encodeOneBit h.length hv fun i hi => hsmall i hi (by omega)]
    exact take_left' (by rw [length_take, h.length]; omega)

theorem take_overwrite {size : Nat} (h : first.length = size) :
    (overwrite deltaSizes first).take size = first := by
  exact take_left' h

theorem overwrite_length (h : first.length ≤ deltaSizes.length) :
    (overwrite deltaSizes first).length = deltaSizes.length := by
  unfold overwrite
  rw [length_append, length_drop]
  omega

theorem getD_overwrite {i : Nat} (h : i < first.length) :
    (overwrite deltaSizes first).getD i 0 = first.getD i 0 := by
  exact getD_append _ _ _ _ h

/-- An array that was assigned a list of statuses, with flags that agree with the list. -/
theorem wf_overwrite (first : List Nat) (allSame hasLargeDelta : Bool) (hl : deltaSizes.length = 14)
    (hf : first.length ≤ 14) (hsym : ∀ d ∈ first, d ≤ 2)
    (hsame : allSame → ∀ d ∈ first, d = first.getD 0 0)
    (hlarge : hasLargeDelta = false → ∀ d ∈ first, d ≤ 1)
    (hmixed : allSame = false → 7 < first.length → hasLargeDelta = false) :
    WF ⟨overwrite deltaSizes first, first.length, allSame, hasLargeDelta⟩ := by
  have hentry : ∀ i < first.length, (overwrite deltaSizes first).getD i 0 ∈ first := by
    intro i hi
    rw [getD_overwrite hi, getD_eq_getElem _ _ hi]
    exact getElem_mem hi
  refine ⟨?_, ?_, ?_, ?_, ?_, ?_, hmixed⟩
  · exact (overwrite_length (by omega)).trans hl
  · exact Nat.le_trans hf (by decide)
  · exact fun _ => hf
  · intro hs i hi _
    have h0 : 0 < first.length := Nat.lt_of_le_of_lt (Nat.zero_le i) hi
    show (overwrite deltaSizes first).getD i 0 = (overwrite deltaSizes first).getD 0 0
    rw [hsame hs _ (hentry i hi), getD_overwrite h0]
  · exact fun hs i hi _ => hlarge hs _ (hentry i hi)
  · exact fun i hi _ => hsym _ (hentry i hi)

/-- `Emit` splits the statuses: the chunk stands for the first ones, the others stay. -/
structure Emitted (c : LastChunk) (chunk : BitVec 16) (rest : LastChunk) : Prop where
  split : decodeChunk chunk ++ rest.content = c.content
  wf : rest.WF
  room : rest.size < 7

theorem emitted_run (h : c.WF) (h7 : 7 ≤ c.size) (hs : c.allSame) :
    Emitted c c.encodeRunLength c.clear := by
  refine ⟨?_, wf_clear h.length, Nat.zero_lt_succ 6⟩
  have h0 := entry_zero_le h (by omega)
  rw [decodeChunk_encodeRunLength c (by omega) h.size_le, content_clear, append_nil]
  unfold content
  rw [if_pos hs]

theorem emitted_oneBit (h : c.WF) (hs : c.allSame = false) (h14 : c.size = 14) :
    Emitted c c.encodeOneBit c.clear := by
  refine ⟨?_, wf_clear h.length, Nat.zero_lt_succ 6⟩
  have hsmall := h.small (h.mixed hs (by omega))
  rw [content_clear, append_nil, content_eq_take h (by omega),
    decodeChunk_encodeOneBit h.length (by omega) fun i hi => hsmall i hi (by omega), h14]
  exact append_nil _

theorem emitted_twoBit (h : c.WF) (h7 : 7 ≤ c.size) (h14 : c.size < 14) :
    Emitted c (c.encodeTwoBit 7)
      (let rest := (c.deltaSizes.drop 7).take (c.size - 7)
       ⟨overwrite c.deltaSizes rest, c.size - 7, rest.all (· == rest.getD 0 0),
         rest.any (· == kLarge)⟩) := by
  generalize hrest : (c.deltaSizes.drop 7).take (c.size - 7) = rest
  have hlen : rest.length = c.size - 7 := by
    rw [← hrest, length_take, length_drop, h.length]
    omega
  have htake : c.deltaSizes.take 7 ++ rest = c.content := by
    rw [content_eq_take h (by omega), ← hrest, ← take_add]
    congr 1
    omega
  have hsym : ∀ d ∈ rest, d ≤ 2 := by
    intro d hd
    have hmem : d ∈ c.deltaSizes.take c.size := by
      rw [← content_eq_take h (by omega), ← htake]
      exact mem_append_right _ hd
    obtain ⟨i, hi, rfl⟩ := getElem_of_mem hmem
    have hi' : i < c.size := by
      rw [length_take] at hi
      omega
    have hb := h.symbol i hi' (by omega)
    unfold entry at hb
    rw [getElem_take]
    rwa [getD_eq_getElem _ 0 (by rw [h.length]; omega)] at hb
  have hwf : WF ⟨overwrite c.deltaSizes rest, rest.length, rest.all (· == rest.getD 0 0),
      rest.any (· == kLarge)⟩ := by
    refine wf_overwrite _ _ _ h.length (by omega) hsym ?_ ?_ ?_
    · intro hs d hd
      simpa using all_eq_true.mp hs d hd
    · intro hs d hd
      have hne := any_eq_false.mp hs d hd
      have h2 := hsym d hd
      simp only [kLarge, beq_iff_eq] at hne
      omega
    · intro _ hbig
      omega
  rw [← hlen]
  refine ⟨?_, hwf, ?_⟩
  · rw [content_eq_take hwf (by dsimp only; omega)]
    rw [take_overwrite rfl, ← htake]
    congr 1
    rw [decodeChunk_encodeTwoBit h.length (Nat.le_refl 7) fun i hi =>
      h.symbol i (by omega) (by omega)]
    exact append_nil _
  · dsimp only
    omega

theorem canAdd_of_room (h : c.size < 7) (d : Nat) : c.canAdd d :=
  if_pos h

theorem size_of_not_canAdd (h : c.canAdd d = false) : 7 ≤ c.size :=
  Nat.le_of_not_lt fun hroom => Bool.false_ne_true (h.symm.trans (canAdd_of_room hroom d))

theorem emitted_emit (h : c.WF) (hd : c.canAdd d = false) : Emitted c c.emit.1 c.emit.2 := by
  have hn := size_of_not_canAdd hd
  unfold emit
  split
  · exact emitted_run h hn ‹_›
  rename_i hs
  have hs' : c.allSame = false := by simpa using hs
  split
  · exact emitted_oneBit h hs' ‹_›
  rename_i h14
  change ¬ c.size = 14 at h14
  have hv := h.vector hs'
  exact emitted_twoBit h hn (by omega)

/-! ## Decoding -/

theorem decode_length (h : c.deltaSizes.length = 14) (chunk : BitVec 16) (maxSize : Nat) :
    (c.decode chunk maxSize).deltaSizes.length = 14 := by
  unfold decode decodeRunLength decodeOneBit decodeTwoBit
  split
  · exact (overwrite_length (by
      rw [length_replicate, h]; exact Nat.min_le_right _ _)).trans h
  split
  · exact (overwrite_length (by
      rw [length_map, length_range, h]; exact Nat.min_le_left _ _)).trans h
  exact (overwrite_length (by
    rw [length_map, length_range, h]
    exact Nat.le_trans (Nat.min_le_left _ _) (by decide))).trans h

/-- The statuses read from the fields of a vector chunk. -/
def fields (width capacity : Nat) (chunk : BitVec 16) (maxSize : Nat) : List Nat :=
  (List.range (min capacity maxSize)).map (unpack width capacity chunk)

theorem fields_length (width capacity : Nat) (chunk : BitVec 16) (maxSize : Nat) :
    (fields width capacity chunk maxSize).length = min capacity maxSize := by simp [fields]

theorem fields_eq_take (width capacity : Nat) (chunk : BitVec 16) (maxSize : Nat) :
    fields width capacity chunk maxSize =
      ((range capacity).map (unpack width capacity chunk)).take maxSize := by
  unfold fields
  rw [← map_take, take_range, Nat.min_comm]

/-- Every entry a run length chunk assigns is its symbol. -/
theorem entry_decodeRunLength (c : LastChunk) (chunk : BitVec 16) (maxCount : Nat) {i : Nat}
    (hi : i < (c.decodeRunLength chunk maxCount).size) (h14 : i < 14) :
    (c.decodeRunLength chunk maxCount).entry i = runSymbol chunk := by
  have hlt : i < (replicate (min (min (runLength chunk) maxCount) kMaxVectorCapacity)
      (runSymbol chunk)).length := by
    rw [length_replicate]
    exact Nat.lt_min.mpr ⟨hi, h14⟩
  unfold decodeRunLength entry
  rw [getD_overwrite hlt, getD_eq_getElem _ _ hlt, getElem_replicate]

/-- **Decoding** gives the statuses of the chunk, cut at `max_size`. -/
theorem content_decode (c : LastChunk) (chunk : BitVec 16) (maxSize : Nat) :
    (c.decode chunk maxSize).content = (decodeChunk chunk).take maxSize := by
  have hvector : ∀ width capacity,
      (overwrite c.deltaSizes (fields width capacity chunk maxSize)).take (min capacity maxSize) =
      ((range capacity).map (unpack width capacity chunk)).take maxSize := by
    intro width capacity
    rw [take_overwrite (fields_length width capacity chunk maxSize), fields_eq_take]
  unfold decode decodeChunk
  split
  · have hsize : (c.decodeRunLength chunk maxSize).size = min maxSize (runLength chunk) :=
      Nat.min_comm _ _
    have hsame : (c.decodeRunLength chunk maxSize).allSame := rfl
    unfold content
    rw [if_pos hsame, take_replicate, ← hsize]
    rcases Nat.eq_zero_or_pos (c.decodeRunLength chunk maxSize).size with h0 | hpos
    · rw [h0]
      rfl
    · rw [entry_decodeRunLength c chunk maxSize hpos (by decide)]
  · split
    · exact hvector 1 14
    · exact hvector 2 7

theorem wf_decodeRunLength (h : c.deltaSizes.length = 14) {chunk : BitVec 16} {maxSize : Nat}
    (hsym : 0 < (c.decodeRunLength chunk maxSize).size → runSymbol chunk ≤ 2) :
    (c.decodeRunLength chunk maxSize).WF := by
  have hentry := @entry_decodeRunLength c chunk maxSize
  refine ⟨?_, ?_, ?_, ?_, ?_, ?_, ?_⟩
  · exact (overwrite_length (by
      rw [length_replicate, h]; exact Nat.min_le_right _ _)).trans h
  · have hl : runLength chunk ≤ 8191 := by
      rw [runLength_eq]
      omega
    exact Nat.le_trans (Nat.min_le_left _ _) hl
  · exact fun hs => absurd hs (by simp [decodeRunLength])
  · intro _ i hi h14
    rw [hentry hi h14, hentry (Nat.lt_of_le_of_lt (Nat.zero_le i) hi) (by decide)]
  · intro hlarge i hi h14
    rw [hentry hi h14]
    have hsmall : ¬ runSymbol chunk ≥ 2 := of_decide_eq_false hlarge
    omega
  · intro i hi h14
    rw [hentry hi h14]
    exact hsym (Nat.lt_of_le_of_lt (Nat.zero_le i) hi)
  · exact fun hs => absurd hs (by simp [decodeRunLength])

theorem unpack_lt (width capacity : Nat) (chunk : BitVec 16) (i : Nat) :
    unpack width capacity chunk i < 2 ^ width := Nat.mod_lt _ (Nat.two_pow_pos width)

/-- A decoded chunk without the reserved symbol is one the encoder can go on with. -/
theorem wf_decode (h : c.deltaSizes.length = 14) {chunk : BitVec 16} {maxSize : Nat}
    (hsym : ∀ d, d ∈ (decodeChunk chunk).take maxSize → d ≤ 2) : (c.decode chunk maxSize).WF := by
  unfold decodeChunk at hsym
  unfold decode
  split
  · next h8 =>
    rw [if_pos h8, take_replicate] at hsym
    refine wf_decodeRunLength h fun hpos => hsym _ (mem_replicate.mpr ⟨?_, rfl⟩)
    rw [Nat.min_comm]
    exact Nat.ne_of_gt hpos
  rename_i h8
  rw [if_neg h8] at hsym
  split
  · next h4 =>
    have hlen := fields_length 1 14 chunk maxSize
    have hone : ∀ d ∈ fields 1 14 chunk maxSize, d ≤ 1 := by
      intro d hd
      obtain ⟨i, -, rfl⟩ := mem_map.mp hd
      exact Nat.le_of_lt_succ (unpack_lt 1 14 chunk i)
    have hwf := wf_overwrite (fields 1 14 chunk maxSize) false false h
      (hlen ▸ Nat.min_le_left _ _) (fun d hd => Nat.le_succ_of_le (hone d hd))
      (fun hs => absurd hs Bool.false_ne_true) (fun _ => hone) (fun _ _ => rfl)
    rw [hlen] at hwf
    exact hwf
  · next h4 =>
    rw [if_neg h4, ← fields_eq_take] at hsym
    have hlen := fields_length 2 7 chunk maxSize
    have h7 : (fields 2 7 chunk maxSize).length ≤ 7 := hlen ▸ Nat.min_le_left _ _
    have hwf := wf_overwrite (fields 2 7 chunk maxSize) false true h
      (Nat.le_trans h7 (by decide)) hsym (fun hs => absurd hs Bool.false_ne_true)
      (fun hs => absurd hs.symm Bool.false_ne_true) (fun _ hbig => absurd h7 (Nat.not_le.mpr hbig))
    rw [hlen] at hwf
    exact hwf

end LastChunk
end WebRtc.Rtcp
