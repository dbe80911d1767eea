import Mathlib.Algebra.BigOperators.Ring.Nat

/-! Emulation prevention of H.264 (`common_video/h264/h264_common.cc`): `ParseRbsp` and
`WriteRbsp`. What is written never holds a start code, and it is read back. -/

namespace WebRtc.H264

abbrev Byte := BitVec 8

/-- `ParseRbsp(data, length)`. -/
def parseRbsp : List Byte → List Byte
  | a :: b :: c :: rest =>
    if a = 0#8 ∧ b = 0#8 ∧ c = 3#8 then a :: b :: parseRbsp rest else a :: parseRbsp (b :: c :: rest)
  | a :: rest => a :: parseRbsp rest
  | [] => []

/-- `num_consecutive_zeros` behind a byte. -/
def zerosAfter (zeros : Nat) (byte : Byte) : Nat := if byte = 0#8 then zeros + 1 else 0

/-- The loop of `WriteRbsp` behind `zeros` zeros. -/
def writeRbspFrom (zeros : Nat) : List Byte → List Byte
  | [] => []
  | byte :: bytes =>
    if byte ≤ 3#8 ∧ zeros ≥ 2 then 3#8 :: byte :: writeRbspFrom (zerosAfter 0 byte) bytes
    else byte :: writeRbspFrom (zerosAfter zeros byte) bytes

/-- What `WriteRbsp(bytes, length, destination)` appends to the destination. -/
def writeRbsp (bytes : List Byte) : List Byte := writeRbspFrom 0 bytes

/-! ## What is written is read back -/

theorem parseRbsp_cons_of_ne {a : Byte} (h : a ≠ 0#8) (rest : List Byte) :
    parseRbsp (a :: rest) = a :: parseRbsp rest := by
  rcases rest with _ | ⟨b, _ | ⟨c, rest⟩⟩
  · rfl
  · rfl
  · simp [parseRbsp, h]

theorem parseRbsp_zero_cons_of_ne {b : Byte} (h : b ≠ 0#8) (rest : List Byte) :
    parseRbsp (0#8 :: b :: rest) = 0#8 :: parseRbsp (b :: rest) := by
  cases rest with
  | nil => rfl
  | cons c rest => simp [parseRbsp, h]

theorem parseRbsp_zero_zero_of_ne {c : Byte} (h : c ≠ 3#8) (rest : List Byte) :
    parseRbsp (0#8 :: 0#8 :: c :: rest) = 0#8 :: parseRbsp (0#8 :: c :: rest) := by
  simp [parseRbsp, h]

theorem parseRbsp_escaped (rest : List Byte) :
    parseRbsp (0#8 :: 0#8 :: 3#8 :: rest) = 0#8 :: 0#8 :: parseRbsp rest := by
  simp [parseRbsp]

variable (bytes : List Byte)

/-- The zeros in front, at most two of them, are part of what `ParseRbsp` looks at. -/
theorem parseRbsp_writeRbspFrom : parseRbsp (writeRbspFrom 0 bytes) = bytes ∧
      parseRbsp (0#8 :: writeRbspFrom 1 bytes) = 0#8 :: bytes ∧
      parseRbsp (0#8 :: 0#8 :: writeRbspFrom 2 bytes) = 0#8 :: 0#8 :: bytes := by
  induction bytes with
  | nil => exact ⟨rfl, rfl, rfl⟩
  | cons b bytes ih =>
    obtain ⟨ih0, ih1, ih2⟩ := ih
    by_cases hz : b = 0#8
    · subst hz
      refine ⟨?_, ?_, ?_⟩
      · simpa [writeRbspFrom, zerosAfter] using ih1
      · simpa [writeRbspFrom, zerosAfter] using ih2
      · simp [writeRbspFrom, zerosAfter, parseRbsp_escaped, ih1]
    refine ⟨?_, ?_, ?_⟩
    · simp [writeRbspFrom, zerosAfter, hz, parseRbsp_cons_of_ne, ih0]
    · simp [writeRbspFrom, zerosAfter, hz, parseRbsp_zero_cons_of_ne, parseRbsp_cons_of_ne, ih0]
    by_cases h3 : b ≤ 3#8
    · simp [writeRbspFrom, zerosAfter, hz, h3, parseRbsp_escaped, parseRbsp_cons_of_ne, ih0]
    have hne : b ≠ 3#8 := by
      rintro rfl
      exact h3 (by decide)
    simp [writeRbspFrom, zerosAfter, hz, h3, parseRbsp_zero_zero_of_ne hne,
      parseRbsp_zero_cons_of_ne hz, parseRbsp_cons_of_ne hz, ih0]

/-- **Round trip of emulation prevention.** -/
theorem parseRbsp_writeRbsp : parseRbsp (writeRbsp bytes) = bytes :=
  (parseRbsp_writeRbspFrom bytes).1

theorem length_parseRbsp_le : (parseRbsp bytes).length ≤ bytes.length := by
  fun_induction parseRbsp bytes with
  | case1 a b c rest _ ih => simp only [List.length_cons]; omega
  | case2 a b c rest _ ih => simp only [List.length_cons] at ih ⊢; omega
  | case3 a rest _ ih => simp only [List.length_cons]; omega
  | case4 => simp

/-! ## No start code is written -/

/-- No three bytes in a row are `00 00 01`. -/
def NoStartCode (bytes : List Byte) : Prop :=
  ∀ i, ¬ (bytes[i]? = some 0#8 ∧ bytes[i + 1]? = some 0#8 ∧ bytes[i + 2]? = some 1#8)

theorem noStartCode_nil : NoStartCode [] := by
  intro i h
  simp at h

theorem noStartCode_cons_iff (a : Byte) (rest : List Byte) : NoStartCode (a :: rest) ↔
      ¬ (a = 0#8 ∧ rest[0]? = some 0#8 ∧ rest[1]? = some 1#8) ∧ NoStartCode rest := by
  constructor
  · intro h
    refine ⟨fun hstart => h 0 (by simpa using hstart), fun i hi => h (i + 1) (by simpa using hi)⟩
  rintro ⟨hfirst, hrest⟩ i hi
  cases i with
  | zero => exact hfirst (by simpa using hi)
  | succ i => exact hrest i (by simpa using hi)

theorem noStartCode_cons_of_ne {a : Byte} (h : a ≠ 0#8) (rest : List Byte) :
    NoStartCode (a :: rest) ↔ NoStartCode rest := by
  simp [noStartCode_cons_iff, h]

/-- The zeros in front are part of what could look like a start code. -/
theorem noStartCode_writeRbspFrom :
    NoStartCode (writeRbspFrom 0 bytes) ∧ NoStartCode (0#8 :: writeRbspFrom 1 bytes) ∧
      NoStartCode (0#8 :: 0#8 :: writeRbspFrom 2 bytes) := by
  induction bytes with
  | nil => simp [writeRbspFrom, noStartCode_cons_iff, noStartCode_nil]
  | cons b bytes ih =>
    obtain ⟨ih0, ih1, ih2⟩ := ih
    by_cases hz : b = 0#8
    · subst hz
      refine ⟨?_, ?_, ?_⟩
      · simpa [writeRbspFrom, zerosAfter] using ih1
      · simpa [writeRbspFrom, zerosAfter] using ih2
      · simpa [writeRbspFrom, zerosAfter, noStartCode_cons_iff] using ih1
    refine ⟨?_, ?_, ?_⟩
    · simpa [writeRbspFrom, zerosAfter, hz, noStartCode_cons_of_ne] using ih0
    · simpa [writeRbspFrom, zerosAfter, hz, noStartCode_cons_iff] using ih0
    by_cases h3 : b ≤ 3#8
    · simpa [writeRbspFrom, zerosAfter, hz, h3, noStartCode_cons_iff] using ih0
    have hne : b ≠ 1#8 := by
      rintro rfl
      exact h3 (by decide)
    simpa [writeRbspFrom, zerosAfter, hz, h3, noStartCode_cons_iff, hne] using ih0

theorem noStartCode_writeRbsp : NoStartCode (writeRbsp bytes) :=
  (noStartCode_writeRbspFrom bytes).1

/-- What is written ends with the last byte. -/
theorem getLast?_writeRbspFrom (zeros : Nat) (bytes : List Byte) :
    (writeRbspFrom zeros bytes).getLast? = bytes.getLast? := by
  induction bytes generalizing zeros with
  | nil => rfl
  | cons b bytes ih =>
    unfold writeRbspFrom
    split <;> simp [List.getLast?_cons, ih]

theorem getLast?_writeRbsp : (writeRbsp bytes).getLast? = bytes.getLast? :=
  getLast?_writeRbspFrom 0 bytes

end WebRtc.H264
