import Mathlib.Data.List.Nodup
import WebRtc.Rtp.RtpPacket

/-! The one-byte elements of an RTP header extension block, and the extension loop of `rtp::Packet`
as a walk over them. -/

namespace WebRtc.Rtp.RtpPacket

open BigEndian List

variable {data data' : Nat → Byte} {ptr stop i : Nat} {entries : List ExtensionInfo}

/-- A one-byte element: `length` bytes of value at `offset`. -/
structure Element where
  id : Nat
  offset : Nat
  length : Nat
  deriving DecidableEq, Repr

/-- The elements from `ptr` on, up to an element with id 15 or one that does not fit. -/
def oneByteElements (data : Nat → Byte) (stop : Nat) : Nat → Nat → List Element
  | 0, _ => []
  | fuel + 1, ptr =>
      if ptr < stop then
        let id := (data ptr >>> 4).toNat
        let length := (data ptr &&& 0x0f#8).toNat + 1
        if id = 0 then oneByteElements data stop fuel (ptr + 1)
        else if id = 15 then []
        else if stop < ptr + 1 + length then []
        else ⟨id, ptr + 1, length⟩ :: oneByteElements data stop fuel (ptr + 1 + length)
      else []

/-- The number of CSRCs and the offset behind them. -/
def csrcCount (data : Nat → Byte) : Nat := (data 0 &&& 0x0f#8).toNat
def csrcEnd (data : Nat → Byte) : Nat := 12 + csrcCount data * 4

/-- There is an extension block of one-byte elements. -/
def HasOneByteBlock (data : Nat → Byte) : Prop :=
  data 0 &&& 0x10#8 ≠ 0#8 ∧ read16 data (csrcEnd data) = kOneByteExtensionId

instance (data : Nat → Byte) : Decidable (HasOneByteBlock data) :=
  inferInstanceAs (Decidable (_ ∧ _))

/-- The elements of the extension block of a packet. -/
def extensionElements (data : Nat → Byte) : List Element :=
  let ptr := csrcEnd data
  let capacity := (read16 data (ptr + 2)).toNat * 4
  if HasOneByteBlock data then oneByteElements data (ptr + 4 + capacity) capacity (ptr + 4) else []

/-- Where the header ends: behind the extension block, if there is one. -/
def headerEnd (data : Nat → Byte) : Nat :=
  if data 0 &&& 0x10#8 ≠ 0#8 then
    csrcEnd data + 4 + (read16 data (csrcEnd data + 2)).toNat * 4
  else csrcEnd data

theorem headerEnd_of_block (h : HasOneByteBlock data) :
    headerEnd data = csrcEnd data + 4 + (read16 data (csrcEnd data + 2)).toNat * 4 :=
  if_pos h.1

/-! ## Walks -/

/-- `Walk data ptr stop elements`: between `ptr` and `stop` are the elements, whole and in this
order, with padding between them. -/
inductive Walk (data : Nat → Byte) : Nat → Nat → List Element → Prop
  | refl (ptr : Nat) : Walk data ptr ptr []
  | padding {ptr stop : Nat} {elements : List Element} (hid : (data ptr >>> 4).toNat = 0) :
      Walk data (ptr + 1) stop elements → Walk data ptr stop elements
  | element {ptr stop : Nat} {elements : List Element} (h0 : (data ptr >>> 4).toNat ≠ 0)
      (h15 : (data ptr >>> 4).toNat ≠ 15) :
      Walk data (ptr + 1 + ((data ptr &&& 0x0f#8).toNat + 1)) stop elements →
      Walk data ptr stop
        (⟨(data ptr >>> 4).toNat, ptr + 1, (data ptr &&& 0x0f#8).toNat + 1⟩ :: elements)

section

variable {elements : List Element} (h : Walk data ptr stop elements)
include h

theorem Walk.le : ptr ≤ stop := by
  induction h with
  | refl => exact Nat.le_refl _
  | padding _ _ ih => omega
  | element _ _ _ ih => omega

/-- The value of an element lies behind a header. -/
theorem Walk.value_range : ∀ x ∈ elements,
    ptr < x.offset ∧ x.offset + x.length ≤ stop ∧ 1 ≤ x.length ∧ x.length ≤ 16 := by
  induction h with
  | refl => simp
  | padding _ _ ih =>
    intro x hx
    have := ih x hx
    omega
  | @element ptr _ _ _ _ hrest ih =>
    have hlen : (data ptr &&& 0x0f#8).toNat ≤ 15 := Nat.and_le_right
    have hle := hrest.le
    intro x hx
    rcases mem_cons.mp hx with rfl | hx
    · dsimp only
      omega
    · have := ih x hx
      omega

omit h in
theorem Walk.eq_nil (h : Walk data ptr ptr elements) : elements = [] := by
  rw [eq_nil_iff_forall_not_mem]
  intro x hx
  have := h.value_range x hx
  omega

/-- A walk does not depend on the values of its elements. -/
theorem Walk.congr (hdata : ∀ i, ptr ≤ i → i < stop →
      (∀ x ∈ elements, i < x.offset ∨ x.offset + x.length ≤ i) → data' i = data i) :
    Walk data' ptr stop elements := by
  have hrange := h.value_range
  induction h with
  | refl => exact .refl _
  | @padding ptr _ _ hid hrest ih =>
    have hle := hrest.le
    have hptr : data' ptr = data ptr := hdata ptr (Nat.le_refl _) (by omega) fun x hx =>
      .inl (by have := hrest.value_range x hx; omega)
    exact .padding (hptr ▸ hid) (ih (fun i hi => hdata i (by omega)) hrest.value_range)
  | @element ptr _ _ h0 h15 hrest ih =>
    have hle := hrest.le
    have hptr : data' ptr = data ptr := hdata ptr (Nat.le_refl _) (by omega) fun x hx =>
      .inl (hrange x hx).1
    have hnext := ih (fun i hi hi' hout => hdata i (by omega) hi' fun x hx => by
      rcases mem_cons.mp hx with rfl | hx
      · exact .inr hi
      · exact hout x hx) hrest.value_range
    rw [← hptr] at h0 h15 hnext ⊢
    exact .element h0 h15 hnext

/-- One more element at the end. -/
theorem Walk.append (h0 : (data stop >>> 4).toNat ≠ 0) (h15 : (data stop >>> 4).toNat ≠ 15) :
    Walk data ptr (stop + 1 + ((data stop &&& 0x0f#8).toNat + 1)) (elements ++
      [⟨(data stop >>> 4).toNat, stop + 1, (data stop &&& 0x0f#8).toNat + 1⟩]) := by
  induction h with
  | refl => exact .element h0 h15 (.refl _)
  | padding hid _ ih => exact .padding hid (ih h0 h15)
  | element g0 g15 _ ih => exact .element g0 g15 (ih h0 h15)

/-- The elements of a block are those of a walk behind which there are no more. -/
theorem Walk.oneByteElements_eq {last n : Nat} (hstop : stop ≤ last) (hn : last ≤ ptr + n)
    (hend : ∀ n, oneByteElements data last n stop = []) :
    oneByteElements data last n ptr = elements := by
  induction h generalizing n with
  | refl => exact hend n
  | padding hid hrest ih =>
    have hle := hrest.le
    obtain ⟨n, rfl⟩ : ∃ k, n = k + 1 := ⟨n - 1, by omega⟩
    rw [oneByteElements, if_pos (by omega)]
    dsimp only
    rw [if_pos hid]
    exact ih hstop (by omega) hend
  | element h0 h15 hrest ih =>
    have hle := hrest.le
    obtain ⟨n, rfl⟩ : ∃ k, n = k + 1 := ⟨n - 1, by omega⟩
    rw [oneByteElements, if_pos (by omega)]
    dsimp only
    rw [if_neg h0, if_neg h15, if_neg (by omega), ih hstop (by omega) hend]

end

theorem oneByteElements_at_end (data : Nat → Byte) (stop fuel ptr : Nat) (h : stop ≤ ptr + 1) :
    oneByteElements data stop fuel ptr = [] := by
  induction fuel generalizing ptr with
  | zero => rfl
  | succ fuel ih =>
    simp only [oneByteElements]
    split_ifs with _ _ _ hfits
    · exact ih (ptr + 1) (by omega)
    · rfl
    · rfl
    · omega
    · rfl

/-- Zeros are padding. -/
theorem oneByteElements_zeros (hzero : ∀ i, ptr ≤ i → i < stop → data i = 0#8) (n : Nat) :
    oneByteElements data stop n ptr = [] := by
  induction n generalizing ptr with
  | zero => rfl
  | succ n ih =>
    rw [oneByteElements]
    split
    · next hlt =>
      rw [hzero ptr (Nat.le_refl _) hlt]
      exact ih fun i hi => hzero i (by omega)
    · rfl

theorem oneByteElements_congr (hdata : ∀ i, ptr ≤ i → i < stop → data' i = data i) (n : Nat) :
    oneByteElements data' stop n ptr = oneByteElements data stop n ptr := by
  induction n generalizing ptr with
  | zero => rfl
  | succ n ih =>
    simp only [oneByteElements]
    split
    · next hlt =>
      rw [hdata ptr (Nat.le_refl _) hlt, ih fun i hi => hdata i (by omega),
        ih fun i hi => hdata i (by omega)]
    · rfl

theorem byte_id_lt (b : Byte) : (b >>> 4).toNat < 16 := by
  rw [BitVec.toNat_ushiftRight, Nat.shiftRight_eq_div_pow]
  omega

theorem mem_oneByteElements {x : Element} {fuel : Nat}
    (hx : x ∈ oneByteElements data stop fuel ptr) :
    (1 ≤ x.id ∧ x.id < 15) ∧ 1 ≤ x.length ∧ x.offset + x.length ≤ stop := by
  induction fuel generalizing ptr with
  | zero => cases hx
  | succ fuel ih =>
    have hlt := byte_id_lt (data ptr)
    simp only [oneByteElements] at hx
    split_ifs at hx
    · exact ih hx
    · cases hx
    · cases hx
    · rcases mem_cons.mp hx with rfl | hx
      · dsimp only
        omega
      · exact ih hx
    · cases hx

theorem mem_extensionElements {x : Element} (hx : x ∈ extensionElements data) :
    (1 ≤ x.id ∧ x.id < 15) ∧ 1 ≤ x.length ∧ x.offset + x.length ≤ headerEnd data := by
  unfold extensionElements at hx
  dsimp only at hx
  split at hx
  · next hb => exact (headerEnd_of_block hb).symm ▸ mem_oneByteElements hx
  · cases hx

/-! ## The loop of `rtp::Packet` -/

/-- `extension_entries_[id - 1]` takes the place of the element. -/
def store (entries : List ExtensionInfo) (e : Element) : List ExtensionInfo :=
  entries.modify (e.id - 1) fun i => { i with offset := e.offset, length := e.length }

theorem types_modify (entries : List ExtensionInfo) (idx : Nat) (f : ExtensionInfo → ExtensionInfo)
    (hf : ∀ e, (f e).type = e.type) :
    (entries.modify idx f).map (·.type) = entries.map (·.type) := by
  refine List.ext_getElem? fun j => ?_
  simp only [List.getElem?_map, List.getElem?_modify]
  cases entries[j]? with
  | none => rfl
  | some e => by_cases hij : idx = j <;> simp [hij, hf]

/-- An entry that was changed is the place of an element. -/
theorem mem_of_foldl_store (elements : List Element) {idx : Nat} {e : ExtensionInfo}
    (h : (elements.foldl store entries)[idx]? = some e) :
    entries[idx]? = some e ∨ ∃ x ∈ elements, x.offset = e.offset ∧ x.length = e.length := by
  induction elements generalizing entries with
  | nil => exact .inl h
  | cons x elements ih =>
    rcases ih h with hold | ⟨y, hy, hplace⟩
    · rw [store, List.getElem?_modify] at hold
      split at hold
      · obtain ⟨_, -, rfl⟩ := Option.map_eq_some_iff.mp hold
        exact .inr ⟨x, .head _, rfl, rfl⟩
      · exact .inl (by simpa using hold)
    · exact .inr ⟨y, .tail _ hy, hplace⟩

/-- Unless it has not ended, the loop has passed a walk behind which there are no more elements. -/
theorem parseExtensions_walk {start capacity : Nat} (hsize : start + capacity ≤ 65535)
    (fuel pos : Nat) (entries : List ExtensionInfo) (hpos : pos ≤ capacity) :
    (fuel ≤ capacity - pos ∧ parseExtensions data start capacity fuel pos entries = none) ∨
    ∃ pos' elements, parseExtensions data start capacity fuel pos entries =
        some (pos', elements.foldl store entries) ∧ pos' ≤ capacity ∧
      Walk data (start + pos) (start + pos') elements ∧
      ∀ n, oneByteElements data (start + capacity) n (start + pos') = [] := by
  induction fuel generalizing pos entries with
  | zero => exact .inl ⟨Nat.zero_le _, rfl⟩
  | succ fuel ih =>
    have hk : kOneByteHeaderSize = 1 := rfl
    simp only [parseExtensions, Nat.add_comm 1 (BitVec.toNat _), hk]
    by_cases hlt : pos + 1 < capacity
    case neg =>
      rw [if_neg hlt]
      exact .inr ⟨pos, [], rfl, hpos, .refl _, fun n => oneByteElements_at_end data _ n _ (by omega)⟩
    -- no element is read where the loop breaks
    have hstops (h : (data (start + pos) >>> 4).toNat = 15 ∨ (data (start + pos) >>> 4).toNat ≠ 0 ∧
        capacity < pos + 1 + ((data (start + pos) &&& 0x0f#8).toNat + 1)) (n : Nat) :
        oneByteElements data (start + capacity) n (start + pos) = [] := by
      cases n with
      | zero => rfl
      | succ n =>
        simp only [oneByteElements]
        split_ifs <;> first | rfl | omega
    rw [if_pos hlt]
    by_cases h15 : (data (start + pos) >>> 4).toNat = 15
    · rw [if_pos h15]
      exact .inr ⟨pos, [], rfl, hpos, .refl _, hstops (.inl h15)⟩
    rw [if_neg h15]
    by_cases h0 : (data (start + pos) >>> 4).toNat = 0
    · rw [if_pos h0, Nat.mod_eq_of_lt (by omega)]
      rcases ih (pos + 1) entries (by omega) with ⟨hfuel, hnone⟩ | ⟨pos', elements, hparse, hle,
        hwalk, hend⟩
      · exact .inl ⟨by omega, hnone⟩
      · exact .inr ⟨pos', elements, hparse, hle, .padding h0 hwalk, hend⟩
    rw [if_neg h0]
    by_cases hfits : pos + 1 + ((data (start + pos) &&& 0x0f#8).toNat + 1) > capacity
    · rw [if_pos hfits]
      exact .inr ⟨pos, [], rfl, hpos, .refl _, hstops (.inr ⟨h0, hfits⟩)⟩
    rw [if_neg hfits, Nat.mod_eq_of_lt (a := pos + 1) (by omega), Nat.mod_eq_of_lt (by omega),
      Nat.mod_eq_of_lt (by omega)]
    rcases ih (pos + 1 + ((data (start + pos) &&& 0x0f#8).toNat + 1))
      (store entries ⟨(data (start + pos) >>> 4).toNat, start + (pos + 1),
        (data (start + pos) &&& 0x0f#8).toNat + 1⟩) (by omega) with ⟨hfuel, hnone⟩ | ⟨pos',
        elements, hparse, hle, hwalk, hend⟩
    · exact .inl ⟨by omega, hnone⟩
    refine .inr ⟨pos', ⟨_, start + pos + 1, _⟩ :: elements, hparse, hle, .element h0 h15 ?_, hend⟩
    rw [← Nat.add_assoc] at hwalk
    exact hwalk

/-! ## The extension part of `ParseBuffer` -/

/-- What is found behind the CSRC list. -/
structure Found (data : Nat → Byte) (entries : List ExtensionInfo) (found : HeaderEnd) : Prop where
  payloadOffset : found.payloadOffset = headerEnd data
  entries : found.extensionEntries = (extensionElements data).foldl store entries
  block : 0 < found.extensionsSize → HasOneByteBlock data ∧
    csrcEnd data + 4 + found.extensionsSize ≤ headerEnd data
  walk : Walk data (csrcEnd data + 4) (csrcEnd data + 4 + found.extensionsSize)
    (extensionElements data)
  rest : HasOneByteBlock data → ∀ n,
    oneByteElements data (headerEnd data) n (csrcEnd data + 4 + found.extensionsSize) = []

theorem headerEnd_le_of_accepted {fuel size : Nat} {found : HeaderEnd} (hcsrc : csrcEnd data ≤ size)
    (h : parseHeaderEnd fuel data size (csrcEnd data) entries = .accepted found) :
    headerEnd data ≤ size := by
  unfold parseHeaderEnd at h
  unfold headerEnd
  by_cases hx : data 0 &&& 0x10#8 ≠ 0#8
  · simp only [if_pos hx] at h ⊢
    split_ifs at h <;> omega
  · rwa [if_neg hx]

theorem found_of_accepted (hshort : headerEnd data ≤ 65535) {fuel size : Nat} {found : HeaderEnd}
    (h : parseHeaderEnd fuel data size (csrcEnd data) entries = .accepted found) :
    Found data entries found := by
  have hnone (hb : ¬HasOneByteBlock data) (offset : Nat) (hoffset : offset = headerEnd data) :
      Found data entries ⟨offset, 0, entries⟩ := by
    have helements : extensionElements data = [] := if_neg hb
    refine ⟨hoffset, by rw [helements]; rfl, fun h0 => absurd h0 (Nat.lt_irrefl 0), ?_,
      fun hb' => absurd hb' hb⟩
    rw [helements]
    exact .refl _
  unfold parseHeaderEnd at h
  by_cases hx : data 0 &&& 0x10#8 ≠ 0#8
  case neg =>
    rw [if_neg hx] at h
    cases h
    exact hnone (fun hb => hx hb.1) _ (if_neg hx).symm
  simp only [if_pos hx] at h
  split_ifs at h with hroom hfits hprofile
  · cases h
    exact hnone (fun hb => hprofile hb.2) _ (if_pos hx).symm
  have hb : HasOneByteBlock data := ⟨hx, not_not.mp hprofile⟩
  have hend := headerEnd_of_block hb
  rcases @parseExtensions_walk data _ _ (hend ▸ hshort) fuel 0 entries (Nat.zero_le _) with
    ⟨-, hnone⟩ | ⟨pos, elements, hparse, hle, hwalk, hrest⟩
  · rw [hnone] at h
    cases h
  rw [hparse] at h
  cases h
  have helements : extensionElements data = elements := by
    unfold extensionElements
    rw [if_pos hb]
    exact hwalk.oneByteElements_eq (by omega) (by omega) hrest
  rw [← hend] at hrest
  refine ⟨hend.symm, by rw [helements], fun _ => ⟨hb, by dsimp only; omega⟩, ?_,
    fun _ => hrest⟩
  rw [helements]
  exact hwalk

theorem parseHeaderEnd_ok (hshort : headerEnd data ≤ 65535) {fuel size : Nat}
    (hsize : headerEnd data ≤ size) (hfuel : size < fuel) :
    ∃ found, parseHeaderEnd fuel data size (csrcEnd data) entries = .accepted found := by
  unfold parseHeaderEnd
  unfold headerEnd at hshort hsize
  split
  · next hx =>
    rw [if_pos hx] at hshort hsize
    dsimp only
    rw [if_neg (by omega), if_neg (by omega)]
    split
    · exact ⟨_, rfl⟩
    rcases @parseExtensions_walk data _ _ hshort fuel 0 entries (Nat.zero_le _) with
      ⟨hle, -⟩ | ⟨pos, elements, hparse, -⟩
    · omega
    · rw [hparse]
      exact ⟨_, rfl⟩
  · exact ⟨_, rfl⟩

end WebRtc.Rtp.RtpPacket
