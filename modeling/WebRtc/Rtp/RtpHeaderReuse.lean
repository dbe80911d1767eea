import WebRtc.Rtp.RtpHeaderAgreement

/-! `RtpHeaderParser::Parse` into a header that was used before. The parser resets every extension
but the transport sequence number, so that one survives in a packet without it. -/

namespace WebRtc.Rtp.RtpUtility

open Rtp.RtpPacket

variable {data : Nat → Byte} {e : RTPHeaderExtension} {map : RtpHeaderExtensionMap}

/-- The extensions with the transport sequence number of `old`. -/
def RTPHeaderExtension.carry (old e : RTPHeaderExtension) : RTPHeaderExtension :=
  { e with
    hasTransportSequenceNumber := old.hasTransportSequenceNumber
    transportSequenceNumber := old.transportSequenceNumber }

variable (old : RTPHeaderExtension)

/-- The reset keeps the transport sequence number and nothing else. -/
theorem reset_eq_carry : old.reset = old.carry {} := rfl

/-- One element: the transport sequence number overwrites what was carried along, any other
element leaves it. -/
theorem parseElement_carry (ptr len : Nat) (type : ExtensionType) :
    parseElement data ptr len (old.carry e) type =
      if type = .transportSequenceNumber then parseElement data ptr len e type
      else (parseElement data ptr len e type).map old.carry := by
  cases type <;> simp only [parseElement, reduceCtorEq, if_true, if_false] <;> (try split_ifs) <;> rfl

theorem hasTransportSequenceNumber_parseElement {e' : RTPHeaderExtension} {ptr len : Nat}
    {type : ExtensionType} (h : parseElement data ptr len e type = some e') :
    e'.hasTransportSequenceNumber =
      (e.hasTransportSequenceNumber || type = .transportSequenceNumber) := by
  cases type <;> simp only [parseElement] at h <;> (try split_ifs at h) <;> cases h <;> simp

/-- An element is taken over exactly if it has the length of its type. -/
theorem parseElement_isSome (ptr len : Nat) {type : ExtensionType} (ht : type ≠ .none) :
    (parseElement data ptr len e type).isSome ↔ len + 1 = type.valueSizeBytes := by
  cases type with
  | none => exact absurd rfl ht
  | _ =>
    simp only [parseElement, ExtensionType.valueSizeBytes]
    split_ifs <;> simp <;> omega

/-- The elements have a transport sequence number, and up to it the lengths of their types. -/
def HasNumber (map : RtpHeaderExtensionMap) (elements : List Element) : Prop :=
  ∃ before x after, elements = before ++ x :: after ∧
    map.getType x.id = .transportSequenceNumber ∧ RegisteredLengths map (before ++ [x])

theorem not_hasNumber_nil : ¬HasNumber map [] := by
  rintro ⟨before, x, after, h, -⟩
  simp at h

theorem hasNumber_cons {x : Element} {elements : List Element} : HasNumber map (x :: elements) ↔
    (map.getType x.id ≠ .none → x.length = (map.getType x.id).valueSizeBytes) ∧
      (map.getType x.id = .transportSequenceNumber ∨ HasNumber map elements) := by
  constructor
  · rintro ⟨before, y, after, h, hnumber, hlengths⟩
    cases before with
    | nil =>
      cases h
      exact ⟨hlengths x (by simp), .inl hnumber⟩
    | cons _ before =>
      cases h
      exact ⟨hlengths x (by simp), .inr ⟨before, y, after, rfl, hnumber, fun z hz =>
        hlengths z (.tail _ hz)⟩⟩
  rintro ⟨hlength, hnumber | ⟨before, y, after, rfl, hnumber, hlengths⟩⟩
  · exact ⟨[], x, elements, rfl, hnumber, by simpa [RegisteredLengths] using hlength⟩
  · exact ⟨x :: before, y, after, rfl, hnumber, List.forall_mem_cons.mpr ⟨hlength, hlengths⟩⟩

section

variable {elements : List Element} (hpos : ∀ x ∈ elements, 1 ≤ x.length)
include hpos

/-- A transport sequence number is reported if there was one, or if one is read. -/
theorem hasTransportSequenceNumber_readElements :
    (readElements data map elements e).hasTransportSequenceNumber = true ↔
      e.hasTransportSequenceNumber = true ∨ HasNumber map elements := by
  induction elements generalizing e with
  | nil => exact (or_iff_left not_hasNumber_nil).symm
  | cons x elements ih =>
    obtain ⟨hx, hpos⟩ := List.forall_mem_cons.mp hpos
    rw [readElements, hasNumber_cons]
    generalize map.getType x.id = type
    by_cases hnone : type = .none
    · rw [if_pos hnone, ih hpos]
      simp [hnone]
    rw [if_neg hnone]
    have hsome := @parseElement_isSome data e x.offset (x.length - 1) type hnone
    rw [Nat.sub_add_cancel hx] at hsome
    cases he : parseElement data x.offset (x.length - 1) e type with
    | none =>
      -- the loop ends at an element of another length
      rw [he] at hsome
      have hother : x.length ≠ type.valueSizeBytes := by simpa using hsome
      simp [hnone, hother]
    | some e' =>
      have hlength := hsome.mp (by rw [he]; rfl)
      dsimp only
      rw [ih hpos, hasTransportSequenceNumber_parseElement he]
      simp [hlength, or_assoc]

/-- Started on a carried value the same extensions are read, and the carried value is left exactly
if the packet has none of its own. -/
theorem readElements_carry (h : e.hasTransportSequenceNumber = false) :
    readElements data map elements (old.carry e) =
      if (readElements data map elements e).hasTransportSequenceNumber then
        readElements data map elements e
      else old.carry (readElements data map elements e) := by
  induction elements generalizing e with
  | nil => simp [readElements, h]
  | cons x elements ih =>
    have htail := (List.forall_mem_cons.mp hpos).2
    simp only [readElements]
    by_cases hnone : map.getType x.id = .none
    case pos => simpa only [if_pos hnone] using ih htail h
    simp only [if_neg hnone, parseElement_carry]
    cases he : parseElement data x.offset (x.length - 1) e (map.getType x.id) with
    | none => simp [h]
    | some _ =>
      have hhas := hasTransportSequenceNumber_parseElement he
      rw [h, Bool.false_or] at hhas
      by_cases ht : map.getType x.id = .transportSequenceNumber
      · simp only [ht, decide_true] at hhas
        simp [ht, (hasTransportSequenceNumber_readElements htail).mpr (.inl hhas)]
      · simp only [ht, decide_false] at hhas
        simp only [ht, if_false, Option.map_some, ih htail hhas]

end

/-! ## Whole packets -/

theorem readExtension_reset (extensionMap : Option RtpHeaderExtensionMap)
    (old : RTPHeaderExtension) : readExtension data extensionMap old.reset =
      if (readExtension data extensionMap {}).hasTransportSequenceNumber then
        readExtension data extensionMap {} else old.carry (readExtension data extensionMap {}) := by
  rw [reset_eq_carry]
  cases extensionMap with
  | none => rfl
  | some _ => exact readElements_carry old (fun _ hx => (mem_extensionElements hx).2.1) rfl

theorem hasTransportSequenceNumber_readExtension (extensionMap : Option RtpHeaderExtensionMap) :
    (readExtension data extensionMap {}).hasTransportSequenceNumber = true ↔
      ∃ map ∈ extensionMap, HasNumber map (extensionElements data) := by
  cases extensionMap with
  | none => simp [readExtension]
  | some map =>
    rw [readExtension, hasTransportSequenceNumber_readElements fun _ hx =>
      (mem_extensionElements hx).2.1]
    simp

/-- **What `Parse` forgets.** Two headers filled from one packet agree exactly if the packet has a
transport sequence number of its own, or the headers reported the same one before. -/
theorem parse_forgets_iff (data : Nat → Byte) (length : Nat)
    (extensionMap : Option RtpHeaderExtensionMap) (before before' : RTPHeader)
    (h : (parse data length before extensionMap).1 = true) :
    (parse data length before' extensionMap).1 = true ∧
      ((SameReport (parse data length before extensionMap).2
            (parse data length before' extensionMap).2 ∧
          (parse data length before extensionMap).2.extension.playoutDelay =
            (parse data length before' extensionMap).2.extension.playoutDelay) ↔
        (∃ map ∈ extensionMap, HasNumber map (extensionElements data)) ∨
          before.extension.reportedTransportSequenceNumber =
            before'.extension.reportedTransportSequenceNumber) := by
  rw [parse_of_true h before, parse_of_true h before', ← hasTransportSequenceNumber_readExtension]
  have hcsrcs := (csrcs_fixedHeader data length before).trans
    (csrcs_fixedHeader data length before').symm
  simp only [readExtension_reset, true_and]
  generalize readExtension data extensionMap {} = x
  cases hx : x.hasTransportSequenceNumber with
  | true => exact iff_of_true ⟨by constructor <;> first | rfl | exact hcsrcs, rfl⟩ (.inl rfl)
  | false =>
    refine ⟨fun hs => .inr hs.1.transportSequenceNumber, fun hs => ?_⟩
    have hold := hs.resolve_left Bool.false_ne_true
    exact ⟨by constructor <;> first | rfl | exact hcsrcs | exact hold, rfl⟩

/-- A packet of a fixed header only. -/
def plainBytes (i : Nat) : Byte := if i = 0 then 0x80#8 else 0#8

/-- Two unused headers read the same. -/
theorem parse_forgets_unused : (parse plainBytes 12 {} none).1 = true ∧
      SameReport (parse plainBytes 12 {} none).2 (parse plainBytes 12 { ssrc := 7#32 } none).2 :=
  have h : (parse plainBytes 12 {} none).1 = true := by decide +kernel
  ⟨h, ((parse_forgets_iff plainBytes 12 none {} { ssrc := 7#32 } h).2.mpr (.inr rfl)).1⟩

/-- A header that was filled from a packet with a transport sequence number. -/
def usedHeader : RTPHeader :=
  { extension := { hasTransportSequenceNumber := true, transportSequenceNumber := 5#16 } }

/-- A packet without extensions keeps reporting the transport sequence number of the packet
before it. -/
theorem parse_keeps_transportSequenceNumber : (parse plainBytes 12 usedHeader none).1 = true ∧
      (parse plainBytes 12 usedHeader none).2.extension.reportedTransportSequenceNumber =
        some 5#16 ∧
      (parse plainBytes 12 {} none).2.extension.reportedTransportSequenceNumber = none := by
  decide +kernel

end WebRtc.Rtp.RtpUtility
