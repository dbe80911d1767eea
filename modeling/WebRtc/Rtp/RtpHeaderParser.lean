import WebRtc.Rtp.RtpPacketRuns

/-! `RTPHeader` (`common_types.h`) and the two ways to fill one: `rtp::Packet::GetHeader`
(`rtp_packet.cc`) and `RtpUtility::RtpHeaderParser` (`rtp_utility.cc`), with the map of header
extensions both consult (`rtp_header_extension.cc`). -/

namespace WebRtc.Rtp.RtpUtility

open BigEndian Rtp.RtpPacket

/-! ## The header -/

inductive VideoRotation
  | rotation0
  | rotation90
  | rotation180
  | rotation270
  deriving DecidableEq, Repr

structure PlayoutDelay where
  minMs : Int := -1
  maxMs : Int := -1
  deriving DecidableEq, Repr

/-- `RTPHeaderExtension` with the values of its constructor. -/
structure RTPHeaderExtension where
  hasTransmissionTimeOffset : Bool := false
  transmissionTimeOffset : BitVec 32 := 0#32
  hasAbsoluteSendTime : Bool := false
  absoluteSendTime : BitVec 32 := 0#32
  hasTransportSequenceNumber : Bool := false
  transportSequenceNumber : BitVec 16 := 0#16
  hasAudioLevel : Bool := false
  voiceActivity : Bool := false
  audioLevel : Byte := 0#8
  hasVideoRotation : Bool := false
  videoRotation : VideoRotation := .rotation0
  playoutDelay : PlayoutDelay := {}
  deriving DecidableEq, Repr

/-- `RTPHeader` with the values of its constructor. -/
structure RTPHeader where
  markerBit : Bool := false
  payloadType : Byte := 0#8
  sequenceNumber : BitVec 16 := 0#16
  timestamp : BitVec 32 := 0#32
  ssrc : BitVec 32 := 0#32
  numCSRCs : Byte := 0#8
  arrOfCSRCs : Nat → BitVec 32 := fun _ => 0#32
  paddingLength : Nat := 0
  headerLength : Nat := 0
  payloadTypeFrequency : Int := 0
  extension : RTPHeaderExtension := {}

/-- The CSRCs a header reports. -/
def RTPHeader.csrcs (header : RTPHeader) : List (BitVec 32) :=
  (List.range header.numCSRCs.toNat).map header.arrOfCSRCs

/-! ## The extension map -/

def kMinId : Nat := 1
def kMaxId : Nat := 14

/-- `RtpHeaderExtensionMap`: `ids_` inverts `types_`. -/
structure RtpHeaderExtensionMap where
  totalValuesSizeBytes : Nat
  types : Nat → ExtensionType
  ids : ExtensionType → Nat
  range : ∀ id, types id ≠ .none → kMinId ≤ id ∧ id ≤ kMaxId
  inverse : ∀ id, types id ≠ .none → ids (types id) = id

namespace RtpHeaderExtensionMap

/-- The empty map. -/
def empty : RtpHeaderExtensionMap :=
  { totalValuesSizeBytes := 0
    types := fun _ => .none
    ids := fun _ => 0
    range := fun _ h => absurd rfl h
    inverse := fun _ h => absurd rfl h }

/-- `GetType(id)`. -/
def getType (m : RtpHeaderExtensionMap) (id : Nat) : ExtensionType := m.types id

theorem eq_of_types (m : RtpHeaderExtensionMap) {i j : Nat} (hi : m.types i ≠ .none)
    (hij : m.types j = m.types i) : j = i := by
  rw [← m.inverse i hi, ← m.inverse j (hij ▸ hi), hij]

/-- A type with the id 0 is not registered. -/
theorem types_ne_of_ids (m : RtpHeaderExtensionMap) {type : ExtensionType} (ht : type ≠ .none)
    (hid : m.ids type = 0) (id : Nat) : m.types id ≠ type := by
  rintro rfl
  have hrange := m.range id ht
  rw [m.inverse id ht] at hid
  have : kMinId = 1 := rfl
  omega

/-- `Register(id, type, value_size, uri)`; the type is one of the known extensions and, unless the
pair is registered already, new to the map. -/
def register (m : RtpHeaderExtensionMap) (id : Nat) (type : ExtensionType) (known : type ≠ .none)
    (unused : m.getType id ≠ type → m.ids type = 0) : Bool × RtpHeaderExtensionMap :=
  if hid : kMinId ≤ id ∧ id ≤ kMaxId then
    if hsame : m.getType id = type then (true, m)
    else if m.getType id ≠ .none then (false, m)
    else
      (true,
        { totalValuesSizeBytes := m.totalValuesSizeBytes + (type.valueSizeBytes + 1)
          types := fun i => if i = id then type else m.types i
          ids := fun t => if t = type then id else m.ids t
          range := by
            intro i hi
            by_cases h : i = id
            · exact h ▸ hid
            · rw [if_neg h] at hi
              exact m.range i hi
          inverse := by
            intro i hi
            by_cases h : i = id
            · rw [if_pos h, if_pos rfl, h]
            rw [if_neg h] at hi ⊢
            rw [if_neg (m.types_ne_of_ids known (unused hsame) i)]
            exact m.inverse i hi })
  else (false, m)

end RtpHeaderExtensionMap

/-- `Packet::IdentifyExtensions(extensions)`. -/
def identifyExtensions (p : Packet) (extensions : RtpHeaderExtensionMap) : Packet :=
  { p with
    extensionEntries := (List.range kMaxExtensionHeaders).map fun i =>
      { p.extensionEntries.getD i ⟨.none, 0, 0⟩ with type := extensions.getType (i + 1) } }

/-! ## The values of the extensions -/

/-- `ByteReader<uint32_t, 3>::ReadBigEndian`. -/
def read24 (data : Nat → Byte) (i : Nat) : BitVec 24 := be24 (data i) (read16 data (i + 1))

/-- `TransmissionOffset::Parse`. -/
def parseTransmissionOffset (data : Nat → Byte) (i : Nat) : BitVec 32 :=
  (read24 data i).signExtend 32

/-- `AbsoluteSendTime::Parse`. -/
def parseAbsoluteSendTime (data : Nat → Byte) (i : Nat) : BitVec 32 :=
  (read24 data i).setWidth 32

/-- `TransportSequenceNumber::Parse`. -/
def parseTransportSequenceNumber (data : Nat → Byte) (i : Nat) : BitVec 16 := read16 data i

/-- `AudioLevel::Parse`: the voice activity and the level. -/
def parseAudioLevel (data : Nat → Byte) (i : Nat) : Bool × Byte :=
  (decide (data i &&& 0x80#8 ≠ 0#8), data i &&& 0x7f#8)

/-- `ConvertCVOByteToVideoRotation(cvo_byte)`. -/
def convertCVOByteToVideoRotation (cvoByte : Byte) : VideoRotation :=
  match (cvoByte &&& 0x3#8).toNat with
  | 0 => .rotation0
  | 1 => .rotation90
  | 2 => .rotation180
  | 3 => .rotation270
  | _ => .rotation0

/-- `VideoOrientation::Parse`. -/
def parseVideoOrientation (data : Nat → Byte) (i : Nat) : VideoRotation :=
  convertCVOByteToVideoRotation (data i)

/-- `header->arrOfCSRCs[i] = csrcs[i]` for all `i`; the rest of the array stays. -/
def storeCsrcs (arr : Nat → BitVec 32) (csrcs : List (BitVec 32)) : Nat → BitVec 32 :=
  fun i => csrcs.getD i (arr i)

/-- `Packet::GetHeader(header)`. A value that is not found stays as it was. -/
def getHeader (p : Packet) (header : RTPHeader) : RTPHeader :=
  let found (type : ExtensionType) := p.findExtension type type.valueSizeBytes
  let e := header.extension
  { markerBit := p.marker
    payloadType := p.payloadType
    sequenceNumber := p.sequenceNumber
    timestamp := p.timestamp
    ssrc := p.ssrc
    numCSRCs := BitVec.ofNat 8 p.csrcs.length
    arrOfCSRCs := storeCsrcs header.arrOfCSRCs p.csrcs
    paddingLength := p.paddingSize
    headerLength := p.payloadOffset
    payloadTypeFrequency := 0
    extension :=
      { hasTransmissionTimeOffset := (found .transmissionTimeOffset).isSome
        transmissionTimeOffset :=
          ((found .transmissionTimeOffset).map (parseTransmissionOffset p.byte)).getD
            e.transmissionTimeOffset
        hasAbsoluteSendTime := (found .absoluteSendTime).isSome
        absoluteSendTime :=
          ((found .absoluteSendTime).map (parseAbsoluteSendTime p.byte)).getD e.absoluteSendTime
        hasTransportSequenceNumber := (found .transportSequenceNumber).isSome
        transportSequenceNumber :=
          ((found .transportSequenceNumber).map (parseTransportSequenceNumber p.byte)).getD
            e.transportSequenceNumber
        hasAudioLevel := (found .audioLevel).isSome
        voiceActivity :=
          ((found .audioLevel).map fun i => (parseAudioLevel p.byte i).1).getD e.voiceActivity
        audioLevel :=
          ((found .audioLevel).map fun i => (parseAudioLevel p.byte i).2).getD e.audioLevel
        hasVideoRotation := (found .videoRotation).isSome
        videoRotation :=
          ((found .videoRotation).map (parseVideoOrientation p.byte)).getD e.videoRotation
        playoutDelay := e.playoutDelay } }

/-! ## `RtpHeaderParser` -/

def kRtpExpectedVersion : Byte := 2#8
def kRtpMinParseLength : Nat := 12
def kRtpOneByteHeaderExtensionId : BitVec 16 := 0xBEDE#16

/-- `PlayoutDelayLimits::kGranularityMs`. -/
def kGranularityMs : Int := 10

/-- The `switch` over the type of an element with the value at `ptr`: the extension, or `none` if
the parsing ends there. -/
def parseElement (data : Nat → Byte) (ptr len : Nat) (e : RTPHeaderExtension) :
    ExtensionType → Option RTPHeaderExtension
  | .transmissionTimeOffset =>
      if len ≠ 2 then none
      else
        some { e with
          transmissionTimeOffset := (read24 data ptr).signExtend 32
          hasTransmissionTimeOffset := true }
  | .audioLevel =>
      if len ≠ 0 then none
      else
        some { e with
          audioLevel := data ptr &&& 0x7f#8
          voiceActivity := decide (data ptr &&& 0x80#8 ≠ 0#8)
          hasAudioLevel := true }
  | .absoluteSendTime =>
      if len ≠ 2 then none
      else
        some { e with
          absoluteSendTime := (read24 data ptr).setWidth 32
          hasAbsoluteSendTime := true }
  | .videoRotation =>
      if len ≠ 0 then none
      else
        some { e with
          hasVideoRotation := true
          videoRotation := convertCVOByteToVideoRotation (data ptr) }
  | .transportSequenceNumber =>
      if len ≠ 1 then none
      else
        some { e with
          transportSequenceNumber :=
            ((data ptr).setWidth 16 <<< 8) + (data (ptr + 1)).setWidth 16
          hasTransportSequenceNumber := true }
  | .playoutDelay =>
      if len ≠ 2 then none
      else
        let minPlayoutDelay :=
          (data ptr).setWidth 32 <<< 4 ||| ((data (ptr + 1) >>> 4) &&& 0xf#8).setWidth 32
        let maxPlayoutDelay :=
          (data (ptr + 1) &&& 0xf#8).setWidth 32 <<< 8 ||| (data (ptr + 2)).setWidth 32
        some { e with
          playoutDelay :=
            { minMs := minPlayoutDelay.toNat * kGranularityMs
              maxMs := maxPlayoutDelay.toNat * kGranularityMs } }
  | .none => none

/-- The loop of `ParseOneByteExtensionHeader`. Each turn moves `ptr`, so `stop - ptr` turns reach
the end. -/
def parseOneByteExtensionHeader (data : Nat → Byte) (map : RtpHeaderExtensionMap) (stop : Nat) :
    Nat → Nat → RTPHeaderExtension → RTPHeaderExtension
  | 0, _, e => e
  | fuel + 1, ptr, e =>
      if ptr < stop then
        let id := ((data ptr &&& 0xf0#8) >>> 4).toNat
        let len := (data ptr &&& 0x0f#8).toNat
        if id = 0 then parseOneByteExtensionHeader data map stop fuel (ptr + 1) e
        else if id = 15 then e
        else if stop < ptr + 1 + (len + 1) then e
        else if map.getType id = .none then
          parseOneByteExtensionHeader data map stop fuel (ptr + 1 + (len + 1)) e
        else
          match parseElement data (ptr + 1) len e (map.getType id) with
          | none => e
          | some e => parseOneByteExtensionHeader data map stop fuel (ptr + 1 + (len + 1)) e
      else e

/-- The reset of the extensions in `Parse`; `hasTransportSequenceNumber` and its value stay. -/
def RTPHeaderExtension.reset (e : RTPHeaderExtension) : RTPHeaderExtension :=
  { e with
    hasTransmissionTimeOffset := false
    transmissionTimeOffset := 0#32
    hasAbsoluteSendTime := false
    absoluteSendTime := 0#32
    hasAudioLevel := false
    voiceActivity := false
    audioLevel := 0#8
    hasVideoRotation := false
    videoRotation := .rotation0
    playoutDelay := { minMs := -1, maxMs := -1 } }

/-- What `Parse` stores before the extensions. -/
def fixedHeader (data : Nat → Byte) (length : Nat) (header : RTPHeader) : RTPHeader :=
  { header with
    markerBit := decide (data 1 &&& 0x80#8 ≠ 0#8)
    payloadType := data 1 &&& 0x7f#8
    sequenceNumber := ((data 2).setWidth 16 <<< 8) + (data 3).setWidth 16
    timestamp := read32 data 4
    ssrc := read32 data 8
    numCSRCs := data 0 &&& 0x0f#8
    paddingLength := if data 0 &&& 0x20#8 ≠ 0#8 then (data (length - 1)).toNat else 0
    arrOfCSRCs := storeCsrcs header.arrOfCSRCs
      ((List.range (csrcCount data)).map fun i => read32 data (12 + i * 4))
    headerLength := csrcEnd data
    extension := header.extension.reset }

/-- The last check of `Parse`. -/
def checkLength (length : Nat) (header : RTPHeader) : Bool × RTPHeader :=
  (decide (header.headerLength + header.paddingLength ≤ length), header)

/-- `RtpHeaderParser::Parse(header, ptrExtensionMap)` over `length` bytes of `data`. -/
def parse (data : Nat → Byte) (length : Nat) (header : RTPHeader)
    (extensionMap : Option RtpHeaderExtensionMap) : Bool × RTPHeader :=
  if length < kRtpMinParseLength then (false, header)
  else if data 0 >>> 6 ≠ kRtpExpectedVersion then (false, header)
  else if length < csrcEnd data then (false, header)
  else
    let header := fixedHeader data length header
    if data 0 &&& 0x10#8 ≠ 0#8 then
      let ptr := csrcEnd data
      if length - ptr < 4 then (false, header)
      else
        let header := { header with headerLength := header.headerLength + 4 }
        let xLen := (read16 data (ptr + 2)).toNat * 4
        if length - ptr < 4 + xLen then (false, header)
        else
          let extension :=
            match extensionMap with
            | none => header.extension
            | some map =>
                if read16 data ptr = kRtpOneByteHeaderExtensionId then
                  parseOneByteExtensionHeader data map (ptr + 4 + xLen) xLen (ptr + 4)
                    header.extension
                else header.extension
          checkLength length
            { header with extension := extension, headerLength := header.headerLength + xLen }
    else checkLength length header

end WebRtc.Rtp.RtpUtility
