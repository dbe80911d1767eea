import WebRtc.H264.Rbsp

/-! Annex B framing (`common_video/h264/h264_common.cc`): `FindNaluIndices` finds the start codes of
a buffer by looking at every third byte where it can. The main results are that it finds exactly
the start codes, and that NAL units written behind start codes are found again. -/

namespace WebRtc.H264
open List

variable {buffer : List Byte} {i : Nat}

structure NaluIndex where
  startOffset : Nat
  payloadStartOffset : Nat
  payloadSize : Nat
  deriving DecidableEq, Repr

def kNaluShortStartSequenceSize : Nat := 3

def byteAt (buffer : List Byte) (i : Nat) : Byte := buffer.getD i 0#8

/-- A start code at `i` begins one byte earlier if that byte is zero. -/
def startOffsetOf (buffer : List Byte) (i : Nat) : Nat :=
  if i > 0 ∧ byteAt buffer (i - 1) = 0#8 then i - 1 else i

/-- Let the last entry, if any, reach to `offset`. -/
def updateLast (offset : Nat) : List NaluIndex → List NaluIndex
  | [] => []
  | [last] => [{ last with payloadSize := offset - last.payloadStartOffset }]
  | index :: next :: rest => index :: updateLast offset (next :: rest)

/-- What a start code at `i` does to the entries found so far. -/
def addStart (buffer : List Byte) (sequences : List NaluIndex) (i : Nat) : List NaluIndex :=
  updateLast (startOffsetOf buffer i) sequences ++ [⟨startOffsetOf buffer i, i + 3, 0⟩]

/-- The loop of `FindNaluIndices` from `i` on. -/
def findFrom (buffer : List Byte) (i : Nat) (sequences : List NaluIndex) : List NaluIndex :=
  if i < buffer.length - kNaluShortStartSequenceSize then
    if byteAt buffer (i + 2) > 1#8 then findFrom buffer (i + 3) sequences
    else if byteAt buffer (i + 2) = 1#8 ∧ byteAt buffer (i + 1) = 0#8 ∧ byteAt buffer i = 0#8 then
      findFrom buffer (i + 3) (addStart buffer sequences i)
    else findFrom buffer (i + 1) sequences
  else sequences
termination_by buffer.length - i
decreasing_by all_goals simp only [kNaluShortStartSequenceSize] at *; omega

/-- `FindNaluIndices(buffer, buffer_size)`. -/
def findNaluIndices (buffer : List Byte) : List NaluIndex :=
  if buffer.length < kNaluShortStartSequenceSize then []
  else updateLast buffer.length (findFrom buffer 0 [])

/-! ## The start codes of a buffer -/

/-- The bytes `00 00 01` stand at `i`, with at least one byte behind them. -/
def startsAt (buffer : List Byte) (i : Nat) : Bool :=
  decide (i + 3 < buffer.length ∧ byteAt buffer i = 0#8 ∧ byteAt buffer (i + 1) = 0#8 ∧
    byteAt buffer (i + 2) = 1#8)

/-- The positions of the start codes from `i` on, in order. -/
def startsFrom (buffer : List Byte) (i : Nat) : List Nat :=
  (List.range' i (buffer.length - i)).filter (startsAt buffer)

theorem startsAt_iff : startsAt buffer i ↔
    i + 3 < buffer.length ∧ byteAt buffer i = 0#8 ∧ byteAt buffer (i + 1) = 0#8 ∧
      byteAt buffer (i + 2) = 1#8 := decide_eq_true_iff

theorem startsFrom_eq (buffer : List Byte) (i : Nat) : startsFrom buffer i =
      if startsAt buffer i then i :: startsFrom buffer (i + 1) else startsFrom buffer (i + 1) := by
  unfold startsFrom
  by_cases hi : i < buffer.length
  · rw [show buffer.length - i = (buffer.length - (i + 1)) + 1 by omega, range'_succ, filter_cons]
  have hnot : startsAt buffer i = false := by
    rw [Bool.eq_false_iff, ne_eq, startsAt_iff]
    omega
  rw [hnot, show buffer.length - i = 0 by omega, show buffer.length - (i + 1) = 0 by omega]
  rfl

theorem startsFrom_skip (h : ¬ startsAt buffer i) :
    startsFrom buffer i = startsFrom buffer (i + 1) := by
  rw [startsFrom_eq, if_neg h]

theorem startsFrom_of_end (h : buffer.length ≤ i + 3) : startsFrom buffer i = [] := by
  unfold startsFrom
  rw [filter_eq_nil_iff]
  intro j hj hstart
  have := (startsAt_iff.mp hstart).1
  have := mem_range'_1.mp hj
  omega

/-- No start code has a byte that is not zero in first or second place. -/
theorem startsFrom_skip_two (h : byteAt buffer (i + 2) ≠ 0#8) :
    startsFrom buffer (i + 1) = startsFrom buffer (i + 3) := by
  rw [startsFrom_skip fun hs => h (startsAt_iff.mp hs).2.2.1,
    startsFrom_skip fun hs => h (startsAt_iff.mp hs).2.1]

theorem startsFrom_found (h : startsAt buffer i) :
    startsFrom buffer i = i :: startsFrom buffer (i + 3) := by
  have hne : byteAt buffer (i + 2) ≠ 0#8 := by rw [(startsAt_iff.mp h).2.2.2]; decide
  rw [startsFrom_eq, if_pos h, startsFrom_skip_two hne]

/-- The loop adds the start codes from its position on: no start code is skipped. -/
theorem findFrom_eq (buffer : List Byte) (i : Nat) (sequences : List NaluIndex) :
    findFrom buffer i sequences = (startsFrom buffer i).foldl (addStart buffer) sequences := by
  fun_induction findFrom buffer i sequences with
  | case1 i sequences hi hskip ih =>
    -- a byte above one in third place: no start code at `i`, `i + 1` or `i + 2`
    have h0 : ¬ startsAt buffer i := by
      rw [startsAt_iff]
      rintro ⟨-, -, -, h1⟩
      rw [h1] at hskip
      exact absurd hskip (by decide)
    have hne : byteAt buffer (i + 2) ≠ 0#8 := by bv_omega
    rw [ih, startsFrom_skip h0, startsFrom_skip_two hne]
  | case2 i sequences hi _ hfound ih =>
    have hstart : startsAt buffer i := by
      simp only [kNaluShortStartSequenceSize] at hi
      exact startsAt_iff.mpr ⟨by omega, hfound.2.2, hfound.2.1, hfound.1⟩
    rw [ih, startsFrom_found hstart]
    rfl
  | case3 i sequences hi _ hnot ih =>
    have hstart : ¬ startsAt buffer i := by
      rw [startsAt_iff]
      rintro ⟨-, h0, h1, h2⟩
      exact hnot ⟨h2, h1, h0⟩
    rw [ih, startsFrom_skip hstart]
  | case4 i sequences hi =>
    simp only [kNaluShortStartSequenceSize] at hi
    rw [startsFrom_of_end (by omega)]
    rfl

/-! ## The entries -/

/-- The entries for start codes at the given positions: each payload reaches to the next start
code, the last one to the end of the buffer. -/
def entriesOf (buffer : List Byte) : List Nat → List NaluIndex
  | [] => []
  | [p] => [⟨startOffsetOf buffer p, p + 3, buffer.length - (p + 3)⟩]
  | p :: q :: rest =>
    ⟨startOffsetOf buffer p, p + 3, startOffsetOf buffer q - (p + 3)⟩ :: entriesOf buffer (q :: rest)

theorem updateLast_append (offset : Nat) (done : List NaluIndex) (last : NaluIndex) :
    updateLast offset (done ++ [last]) =
      done ++ [{ last with payloadSize := offset - last.payloadStartOffset }] := by
  induction done with
  | nil => rfl
  | cons e done ih =>
    cases done with
    | nil => rfl
    | cons _ done => simpa [updateLast] using ih

/-- The entries, by induction over the start codes behind the last one. -/
theorem foldl_addStart (buffer : List Byte) (starts : List Nat) (p : Nat) (done : List NaluIndex) :
    updateLast buffer.length
      (starts.foldl (addStart buffer) (done ++ [⟨startOffsetOf buffer p, p + 3, 0⟩])) =
        done ++ entriesOf buffer (p :: starts) := by
  induction starts generalizing p done with
  | nil => simp [updateLast_append, entriesOf]
  | cons q starts ih =>
    rw [foldl_cons, addStart, updateLast_append, ih]
    simp [entriesOf]

theorem findNaluIndices_eq (buffer : List Byte) :
    findNaluIndices buffer = entriesOf buffer (startsFrom buffer 0) := by
  unfold findNaluIndices
  by_cases hshort : buffer.length < kNaluShortStartSequenceSize
  · rw [if_pos hshort, startsFrom_of_end (by simp only [kNaluShortStartSequenceSize] at hshort; omega)]
    rfl
  rw [if_neg hshort, findFrom_eq]
  cases startsFrom buffer 0 with
  | nil => rfl
  | cons p starts => exact foldl_addStart buffer starts p []

/-! ## What is found -/

/-- Two start codes are apart, and the second one begins behind the first. -/
theorem le_startOffsetOf {p q : Nat} (hp : startsAt buffer p) (hq : startsAt buffer q)
    (hpq : p < q) : p + 3 ≤ startOffsetOf buffer q := by
  obtain ⟨-, hp0, hp1, hp2⟩ := startsAt_iff.mp hp
  obtain ⟨-, hq0, hq1, hq2⟩ := startsAt_iff.mp hq
  have hone : (1#8 : Byte) ≠ 0#8 := by decide
  have hfar : p + 3 ≤ q := by
    by_contra hnear
    have hcase : q = p + 1 ∨ q = p + 2 := by omega
    rcases hcase with rfl | rfl
    · exact hone (hp2.symm.trans hq1)
    · exact hone (hp2.symm.trans hq0)
  unfold startOffsetOf
  split
  · next h =>
    -- the byte in front of `q` is zero, so it is not the last byte of the first start code
    have hne : q ≠ p + 3 := by
      rintro rfl
      exact hone (hp2.symm.trans h.2)
    omega
  · exact hfar

theorem mem_startsFrom {p : Nat} (h : p ∈ startsFrom buffer i) : startsAt buffer p :=
    (mem_filter.mp h).2

theorem pairwise_startsFrom (buffer : List Byte) (i : Nat) :
    (startsFrom buffer i).Pairwise (· < ·) := (pairwise_lt_range' (s := i)).filter _

theorem map_payloadStart_entriesOf (buffer : List Byte) (starts : List Nat) :
    (entriesOf buffer starts).map (·.payloadStartOffset) = starts.map (· + 3) := by
  fun_induction entriesOf buffer starts with
  | case1 => rfl
  | case2 => rfl
  | case3 p q _ ih => simpa using ih

theorem startOffset_entriesOf (buffer : List Byte) (starts : List Nat) :
    ∀ e ∈ entriesOf buffer starts,
      e.startOffset = startOffsetOf buffer (e.payloadStartOffset - 3) := by
  fun_induction entriesOf buffer starts with
  | case1 => simp
  | case2 => simp
  | case3 p q _ ih =>
    intro e he
    rcases mem_cons.mp he with rfl | he
    · simp
    · exact ih e he

/-- The first entry starts with the first start code. -/
theorem head_entriesOf (buffer : List Byte) (starts : List Nat) :
    (entriesOf buffer starts)[0]?.map (·.startOffset) =
      starts.head?.map (startOffsetOf buffer) := by
  fun_cases entriesOf buffer starts <;> rfl

/-- Every payload reaches to the next start code or to the end of the buffer. -/
theorem payloadSize_entriesOf {starts : List Nat} (hstarts : ∀ p ∈ starts, startsAt buffer p)
    (hsorted : starts.Pairwise (· < ·)) : ∀ k e, (entriesOf buffer starts)[k]? = some e →
      e.payloadStartOffset + e.payloadSize =
        ((entriesOf buffer starts)[k + 1]?.map (·.startOffset)).getD buffer.length := by
  fun_induction entriesOf buffer starts with
  | case1 => intro k e h; simp at h
  | case2 p =>
    intro k e h
    cases k with
    | zero =>
      cases h
      have := (startsAt_iff.mp (hstarts p (.head _))).1
      simp only [getElem?_cons_succ, getElem?_nil, Option.map_none, Option.getD_none]
      omega
    | succ k => simp at h
  | case3 p q _ ih =>
    intro k e h
    obtain ⟨hp, hrest⟩ := pairwise_cons.mp hsorted
    cases k with
    | zero =>
      cases h
      have hle := le_startOffsetOf (hstarts p (.head _))
        (hstarts q (.tail _ (.head _))) (hp q (.head _))
      rw [getElem?_cons_succ, head_entriesOf]
      simp only [head?_cons, Option.map_some, Option.getD_some]
      omega
    | succ k =>
      exact ih (fun p' hp' => hstarts p' (.tail _ hp')) hrest k e h

/-! ## Units behind start codes -/

/-- A byte string with a last byte that is not zero, and whether its start code has four bytes. -/
structure RbspUnit where
  bytes : List Byte
  longStart : Bool
  last : Byte
  last_eq : bytes.getLast? = some last
  last_ne : last ≠ 0#8

namespace RbspUnit

def startCode (u : RbspUnit) : List Byte :=
  if u.longStart then [0#8, 0#8, 0#8, 1#8] else [0#8, 0#8, 1#8]

def payload (u : RbspUnit) : List Byte := writeRbsp u.bytes

def write (u : RbspUnit) : List Byte := u.startCode ++ u.payload

end RbspUnit

/-- The units one after the other. -/
def annexB (units : List RbspUnit) : List Byte := units.flatMap RbspUnit.write

/-- Where the start codes of the units are, the first unit beginning at `o`. -/
def unitStarts (o : Nat) : List RbspUnit → List Nat
  | [] => []
  | u :: units => (o + u.startCode.length - 3) :: unitStarts (o + u.write.length) units

theorem byteAt_append_right (a b : List Byte) (i : Nat) :
    byteAt (a ++ b) (a.length + i) = byteAt b i := by
  simp [byteAt, getD_eq_getElem?_getD, getElem?_append_right]

theorem byteAt_append_left (a b : List Byte) (h : i < a.length) :
    byteAt (a ++ b) i = byteAt a i := by
  simp [byteAt, getD_eq_getElem?_getD, getElem?_append_left h]

theorem byteAt_last {bytes : List Byte} {last : Byte} (h : bytes.getLast? = some last) :
    byteAt bytes (bytes.length - 1) = last := by
  simp [byteAt, getD_eq_getElem?_getD, ← getLast?_eq_getElem?, h]

theorem startsFrom_skipTo {k : Nat} (hik : i ≤ k)
    (h : ∀ j, i ≤ j → j < k → ¬ startsAt buffer j) :
    startsFrom buffer i = startsFrom buffer k := by
  induction hn : k - i generalizing i with
  | zero => rw [show i = k by omega]
  | succ n ih =>
    rw [startsFrom_skip (h i (Nat.le_refl _) (by omega))]
    exact ih (by omega) (fun j hj hjk => h j (by omega) hjk) (by omega)

namespace RbspUnit

variable (u : RbspUnit)

theorem payload_last : u.payload.getLast? = some u.last :=
  (getLast?_writeRbsp u.bytes).trans u.last_eq

theorem payload_pos : 0 < u.payload.length := by
  cases h : u.payload with
  | nil => simpa [h] using u.payload_last
  | cons b _ => simp

theorem write_last : u.write.getLast? = some u.last := by
  rw [write, getLast?_append, u.payload_last]
  rfl

theorem startCode_cases : u.startCode = [0#8, 0#8, 1#8] ∨ u.startCode = [0#8, 0#8, 0#8, 1#8] := by
  unfold startCode
  split
  · exact .inr rfl
  · exact .inl rfl

theorem startCode_length : 3 ≤ u.startCode.length := by
  rcases u.startCode_cases with h | h <;> rw [h] <;> decide

/-- No start code begins in the payload, whatever follows. -/
theorem not_startsAt_payload (before after : List Byte) {t : Nat}
    (ht : t < u.payload.length) :
    ¬ startsAt (before ++ (u.payload ++ after)) (before.length + t) := by
  have hlast := byteAt_last u.payload_last
  have hbyte : ∀ j < u.payload.length,
      byteAt (before ++ (u.payload ++ after)) (before.length + j) = byteAt u.payload j := by
    intro j hj
    rw [byteAt_append_right, byteAt_append_left _ _ hj]
  rw [startsAt_iff]
  rintro ⟨-, h0, h1, h2⟩
  by_cases hin : t + 2 < u.payload.length
  · -- inside the payload
    rw [hbyte t (by omega)] at h0
    rw [Nat.add_assoc, hbyte (t + 1) (by omega)] at h1
    rw [Nat.add_assoc, hbyte (t + 2) hin] at h2
    have hget : ∀ {j : Nat} {b : Byte}, j < u.payload.length → byteAt u.payload j = b →
        u.payload[j]? = some b := by
      intro j b hj hb
      rw [getElem?_eq_getElem hj, ← hb]
      simp [byteAt, getD_eq_getElem?_getD, getElem?_eq_getElem hj]
    exact noStartCode_writeRbsp u.bytes t
      ⟨hget (by omega) h0, hget (by omega) h1, hget hin h2⟩
  · -- the last byte of the payload, which is not zero, is the first or the second one
    have hcase : t = u.payload.length - 1 ∨ t + 1 = u.payload.length - 1 := by omega
    rcases hcase with ht' | ht'
    · rw [hbyte t ht, ht', hlast] at h0
      exact u.last_ne h0
    · rw [Nat.add_assoc, hbyte (t + 1) (by omega), ht', hlast] at h1
      exact u.last_ne h1

end RbspUnit

/-- The start code of a unit that has a payload is found, and nothing else in it. -/
theorem startsFrom_startCode (u : RbspUnit) (before after : List Byte) (hafter : 0 < after.length) :
    startsFrom (before ++ (u.startCode ++ after)) before.length =
      (before.length + u.startCode.length - 3) ::
        startsFrom (before ++ (u.startCode ++ after)) (before.length + u.startCode.length) := by
  have hbyte : ∀ j, byteAt (before ++ (u.startCode ++ after)) (before.length + j) =
      byteAt (u.startCode ++ after) j := byteAt_append_right before _
  rcases u.startCode_cases with hcode | hcode <;> rw [hcode] at hbyte ⊢
  · refine startsFrom_found (startsAt_iff.mpr ⟨?_, hbyte 0, hbyte 1, hbyte 2⟩)
    simp only [length_append, length_cons, length_nil]
    omega
  · have hfirst : ¬ startsAt (before ++ ([0#8, 0#8, 0#8, 1#8] ++ after)) before.length := by
      rw [startsAt_iff]
      rintro ⟨-, -, -, h2⟩
      exact absurd ((hbyte 2).symm.trans h2) (by simp [byteAt])
    rw [startsFrom_skip hfirst]
    refine startsFrom_found (startsAt_iff.mpr ⟨?_, hbyte 1, hbyte 2, hbyte 3⟩)
    simp only [length_append, length_cons, length_nil]
    omega

theorem append_annexB (u : RbspUnit) (units : List RbspUnit) (before : List Byte) :
    before ++ annexB (u :: units) = before ++ (u.startCode ++ (u.payload ++ annexB units)) ∧
      before ++ annexB (u :: units) = before ++ u.write ++ annexB units := by
  simp [annexB, RbspUnit.write]

/-- The start codes of the units are found, and nothing else. -/
theorem startsFrom_annexB (units : List RbspUnit) (before : List Byte) :
    startsFrom (before ++ annexB units) before.length = unitStarts before.length units := by
  induction units generalizing before with
  | nil => exact startsFrom_of_end (by simp [annexB])
  | cons u units ih =>
    obtain ⟨hbuffer, hnext⟩ := append_annexB u units before
    have hpos := u.payload_pos
    have hpayload : startsFrom (before ++ annexB (u :: units))
        (before.length + u.startCode.length) =
        startsFrom (before ++ annexB (u :: units)) (before.length + u.write.length) := by
      have hcode : before ++ annexB (u :: units) =
          (before ++ u.startCode) ++ (u.payload ++ annexB units) := by
        rw [hbuffer, append_assoc]
      rw [hcode]
      refine startsFrom_skipTo (by simp [RbspUnit.write]) fun j hj hjk => ?_
      have hlen : u.write.length = u.startCode.length + u.payload.length := by
        simp [RbspUnit.write]
      have hsplit : j = (before ++ u.startCode).length +
          (j - (before.length + u.startCode.length)) := by
        rw [length_append]
        omega
      rw [hsplit]
      exact u.not_startsAt_payload _ _ (by omega)
    have hrest : startsFrom (before ++ annexB (u :: units)) (before.length + u.write.length) =
        unitStarts (before.length + u.write.length) units := by
      have h := ih (before ++ u.write)
      rw [length_append] at h
      rw [← h, hnext]
    have hcode := startsFrom_startCode u before (u.payload ++ annexB units)
      (by rw [length_append]; omega)
    rw [← hbuffer] at hcode
    rw [hcode, hpayload, hrest]
    rfl

/-- The start code of a unit begins where the unit does. -/
theorem startOffsetOf_unit (u : RbspUnit) {before : List Byte} (after : List Byte)
    (hbefore : before.getLast? ≠ some 0#8) :
    startOffsetOf (before ++ (u.startCode ++ after)) (before.length + u.startCode.length - 3) =
      before.length := by
  rcases u.startCode_cases with hcode | hcode <;> rw [hcode]
  · rw [show before.length + [0#8, 0#8, 1#8].length - 3 = before.length from rfl]
    refine if_neg ?_
    rintro ⟨hpos, hzero⟩
    rw [byteAt_append_left _ _ (by omega)] at hzero
    apply hbefore
    rw [getLast?_eq_getElem?, getElem?_eq_getElem (by omega)]
    simpa [byteAt, getD_eq_getElem?_getD, getElem?_eq_getElem (show before.length - 1 <
      before.length by omega)] using hzero
  · rw [show before.length + [0#8, 0#8, 0#8, 1#8].length - 3 = before.length + 1 from rfl]
    refine if_pos ⟨by omega, ?_⟩
    simp [byteAt]

/-- The payload of an entry. -/
def NaluIndex.payload (buffer : List Byte) (e : NaluIndex) : List Byte :=
  (buffer.drop e.payloadStartOffset).take e.payloadSize

/-- The entries of written units have the payloads that were written. -/
theorem payload_entriesOf (units : List RbspUnit) (before : List Byte)
    (hbefore : before.getLast? ≠ some 0#8) :
    (entriesOf (before ++ annexB units) (unitStarts before.length units)).map
      (NaluIndex.payload (before ++ annexB units)) = units.map RbspUnit.payload := by
  induction units generalizing before with
  | nil => rfl
  | cons u units ih =>
    obtain ⟨hbuffer, hnext⟩ := append_annexB u units before
    have hstart : before.length + u.startCode.length - 3 + 3 =
        (before ++ u.startCode).length := by
      have := u.startCode_length
      rw [length_append]
      omega
    have hlast : (before ++ u.write).getLast? ≠ some 0#8 := by
      rw [getLast?_append, u.write_last]
      simpa using u.last_ne
    -- the payload between the start code and where the next unit begins
    have hpayload : ∀ (startOffset size : Nat), size = u.payload.length →
        NaluIndex.payload (before ++ annexB (u :: units))
          ⟨startOffset, before.length + u.startCode.length - 3 + 3, size⟩ = u.payload := by
      intro startOffset size hsize
      rw [NaluIndex.payload, hstart, hbuffer, ← append_assoc, drop_left, hsize, take_left]
    have hrest := ih (before ++ u.write) hlast
    rw [← hnext, length_append] at hrest
    have hlen : before.length + u.write.length = (before ++ u.startCode).length +
        u.payload.length := by
      simp only [RbspUnit.write, length_append]
      omega
    cases units with
    | nil =>
      simp only [unitStarts, entriesOf, map_cons, map_nil]
      rw [hpayload]
      simp [annexB]
      omega
    | cons v units =>
      have hoffset : startOffsetOf (before ++ annexB (u :: v :: units))
          (before.length + u.write.length + v.startCode.length - 3) =
            before.length + u.write.length := by
        have h := startOffsetOf_unit v (v.payload ++ annexB units) hlast
        rw [length_append, ← (append_annexB v units _).1, ← hnext] at h
        exact h
      simp only [unitStarts, entriesOf, map_cons] at hrest ⊢
      rw [hrest, hpayload]
      omega

/-- **Annex B framing.** For every buffer, the entries found are exactly those of the byte triples
`00 00 01` with a byte behind them, in order; each starts one byte earlier exactly if that byte is
zero, and its payload reaches to the next start or to the end of the buffer. And units whose last
byte is not zero, each written behind a start code of three or four bytes, are found again, one
entry for each, with payloads that parse to them. -/
theorem findNaluIndices_framing : (∀ buffer : List Byte,
      (findNaluIndices buffer).map (·.payloadStartOffset) =
          ((List.range buffer.length).filter (startsAt buffer)).map (· + 3) ∧
        (∀ e ∈ findNaluIndices buffer,
          e.startOffset = startOffsetOf buffer (e.payloadStartOffset - 3)) ∧
        ∀ k e, (findNaluIndices buffer)[k]? = some e → e.payloadStartOffset + e.payloadSize =
            ((findNaluIndices buffer)[k + 1]?.map (·.startOffset)).getD buffer.length) ∧
    ∀ units : List RbspUnit, (findNaluIndices (annexB units)).map
          (fun e => parseRbsp (e.payload (annexB units))) = units.map (·.bytes) := by
  constructor
  · intro buffer
    rw [findNaluIndices_eq]
    refine ⟨?_, startOffset_entriesOf buffer _, ?_⟩
    · rw [map_payloadStart_entriesOf, startsFrom, Nat.sub_zero, ← range_eq_range']
    · exact payloadSize_entriesOf (fun p hp => mem_startsFrom hp) (pairwise_startsFrom buffer 0)
  intro units
  have hstarts := startsFrom_annexB units []
  have hpayload := payload_entriesOf units [] (by simp)
  rw [nil_append, length_nil] at hstarts
  rw [nil_append, length_nil] at hpayload
  have hmap : ∀ es : List NaluIndex, es.map (fun e => parseRbsp (e.payload (annexB units))) =
      (es.map (NaluIndex.payload (annexB units))).map parseRbsp := fun es => by simp
  rw [findNaluIndices_eq, hstarts, hmap, hpayload, map_map]
  exact map_congr_left fun u _ => parseRbsp_writeRbsp u.bytes

/-- Two units behind start codes of both lengths, the first with bytes that look like one. -/
example :
    let units : List RbspUnit := [⟨[0x67#8, 0#8, 0#8, 1#8], true, 1#8, rfl, by decide⟩,
      ⟨[0x68#8], false, 0x68#8, rfl, by decide⟩]
    (findNaluIndices (annexB units)).map (fun e => parseRbsp (e.payload (annexB units))) =
      units.map (·.bytes) := by
  decide +kernel

end WebRtc.H264
