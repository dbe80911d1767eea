import WebRtc.Rtp.RtpPacketParse
import WebRtc.Rtp.RtpHeaderParser

/-! The two RTP header parsers agree. Both extension loops walk the same elements of the block, so
each is a fold over that list, and the two folds are compared element by element. -/

namespace WebRtc.Rtp.RtpUtility

open BigEndian Rtp.RtpPacket List BitVec RTPHeaderExtension

variable {e : RTPHeaderExtension} {data : Nat → Byte} {map : RtpHeaderExtensionMap}
  {entries : List ExtensionInfo} {p q : Packet} {located : ExtensionType → Option Nat} {size : Nat}

/-! ## The elements of an extension block -/

/-- Every element with a registered id has the length of its type. -/
def RegisteredLengths (map : RtpHeaderExtensionMap) (elements : List Element) : Prop :=
  ∀ e ∈ elements, map.getType e.id ≠ .none → e.length = (map.getType e.id).valueSizeBytes

theorem byte_id (b : Byte) : (b &&& 0xf0#8) >>> 4 = b >>> 4 := by
  have hall : ∀ n : Fin 256,
      (BitVec.ofFin n &&& 0xf0#8) >>> 4 = (BitVec.ofFin n : Byte) >>> 4 := by decide +kernel
  exact hall b.toFin

/-- What `ParseOneByteExtensionHeader` makes of the elements. -/
def readElements (data : Nat → Byte) (map : RtpHeaderExtensionMap) :
    List Element → RTPHeaderExtension → RTPHeaderExtension
  | [], e => e
  | x :: elements, e =>
      if map.getType x.id = .none then readElements data map elements e
      else
        match parseElement data x.offset (x.length - 1) e (map.getType x.id) with
        | none => e
        | some e => readElements data map elements e

theorem parseOneByteExtensionHeader_eq (stop fuel ptr : Nat) (e : RTPHeaderExtension) :
    parseOneByteExtensionHeader data map stop fuel ptr e =
      readElements data map (oneByteElements data stop fuel ptr) e := by
  induction fuel generalizing ptr e with
  | zero => rfl
  | succ fuel ih =>
    simp only [parseOneByteExtensionHeader, oneByteElements, byte_id, ih]
    split_ifs with _ _ _ _ hnone
    · rfl
    · rfl
    · rfl
    · exact (if_pos hnone).symm
    · exact (if_neg hnone).symm
    · rfl

/-- The extensions of a packet, read into `e` with any map. -/
def readExtension (data : Nat → Byte) (extensionMap : Option RtpHeaderExtensionMap)
    (e : RTPHeaderExtension) : RTPHeaderExtension :=
  match extensionMap with
  | none => e
  | some map => readElements data map (extensionElements data) e

/-! ## What the entries locate -/

/-- Where `FindExtension` finds an extension with the length of its type. -/
def locate (entries : List ExtensionInfo) (type : ExtensionType) : Option Nat :=
  match entries.find? (fun e => e.type = type) with
  | none => none
  | some e =>
      if e.length = 0 then none else if type.valueSizeBytes ≠ e.length then none else some e.offset

theorem findExtension_eq_locate (p : Packet) (type : ExtensionType) :
    p.findExtension type type.valueSizeBytes = locate p.extensionEntries type := rfl

/-- The entries were made by `IdentifyExtensions(map)`. -/
def Identified (map : RtpHeaderExtensionMap) (entries : List ExtensionInfo) : Prop :=
  entries.map (·.type) = (List.range kMaxExtensionHeaders).map fun i => map.getType (i + 1)

theorem identified_identifyExtensions (p : Packet) (map : RtpHeaderExtensionMap) :
    Identified map (identifyExtensions p map).extensionEntries := by
  simp [Identified, identifyExtensions]

theorem Identified.type (h : Identified map entries) {i : Nat} {e : ExtensionInfo}
    (he : entries[i]? = some e) : e.type = map.getType (i + 1) := by
  have hi := congrArg (·[i]?) h
  simp only [List.getElem?_map, he, Option.map_some] at hi
  by_cases hlt : i < kMaxExtensionHeaders
  · simpa [List.getElem?_range hlt] using hi
  · simp [List.getElem?_eq_none (show (List.range kMaxExtensionHeaders).length ≤ i by
      rw [length_range]; omega)] at hi

theorem Identified.entry (h : Identified map entries) {i : Nat} (hi : i < 14) :
    ∃ e, entries[i]? = some e := by
  have hlen : entries.length = 14 := by
    simpa [kMaxExtensionHeaders] using congrArg List.length h
  exact ⟨entries.get ⟨i, by omega⟩, List.getElem?_eq_getElem _⟩

theorem Identified.store (h : Identified map entries) (e : Element) :
    Identified map (store entries e) := by
  have hkept := types_modify entries (e.id - 1)
    (fun i => { i with offset := e.offset, length := e.length }) fun _ => rfl
  exact hkept.trans h

theorem find?_modify_of_ne {α : Type} {p : α → Bool} {f : α → α} (l : List α) (i : Nat)
    (h : ∀ x, l[i]? = some x → p x = false ∧ p (f x) = false) :
    (l.modify i f).find? p = l.find? p := by
  induction l generalizing i with
  | nil => simp
  | cons x l ih =>
    cases i with
    | zero =>
      obtain ⟨hx, hfx⟩ := h x rfl
      simp [hx, hfx]
    | succ i => simp [List.find?_cons, ih i h]

theorem find?_modify_of_eq {α : Type} {p : α → Bool} {f : α → α} (l : List α) (i : Nat) {x : α}
    (hx : l[i]? = some x) (hp : p (f x)) (h : ∀ j y, l[j]? = some y → p y → j = i) :
    (l.modify i f).find? p = some (f x) := by
  induction l generalizing i with
  | nil => simp at hx
  | cons y l ih =>
    cases i with
    | zero =>
      obtain rfl : y = x := by simpa using hx
      simp [hp]
    | succ i =>
      have hy : p y = false := by
        cases hpy : p y with
        | false => rfl
        | true => exact absurd (h 0 y rfl hpy) (by omega)
      have htail := ih i hx fun j z hz hpz => by
        have := h (j + 1) z hz hpz
        omega
      simp [hy, htail]

/-- After an element of this type the type is where the element is; the others stay. -/
theorem locate_store (h : Identified map entries) {e : Element} (hid : 1 ≤ e.id ∧ e.id < 15)
    (hlen : map.getType e.id ≠ .none → e.length = (map.getType e.id).valueSizeBytes)
    {type : ExtensionType} (ht : type ≠ .none) : locate (store entries e) type =
      if map.getType e.id = type then some e.offset else locate entries type := by
  obtain ⟨info, hinfo⟩ := h.entry (i := e.id - 1) (by omega)
  have htype : info.type = map.getType e.id := by
    rw [h.type hinfo, show e.id - 1 + 1 = e.id by omega]
  unfold locate store
  by_cases heq : map.getType e.id = type
  · have hfind := find?_modify_of_eq (p := fun i : ExtensionInfo => decide (i.type = type))
      (f := fun i => { i with offset := e.offset, length := e.length }) entries (e.id - 1) hinfo
      (decide_eq_true (htype.trans heq))
      (fun j y hy hp => by
        have hj := (h.type hy).symm.trans (of_decide_eq_true hp)
        have hne : map.types e.id ≠ .none := fun hc => ht (heq.symm.trans hc)
        have := map.eq_of_types hne (hj.trans heq.symm)
        omega)
    have hpos := valueSizeBytes_range ht
    subst heq
    rw [hfind, if_pos rfl]
    dsimp only
    rw [hlen ht, if_neg (by omega), if_neg (fun hc => hc rfl)]
  · rw [if_neg heq, find?_modify_of_ne]
    intro x hx
    obtain rfl := Option.some.inj (hx.symm.trans hinfo)
    simp [htype, heq]

theorem locate_reset (entries : List ExtensionInfo) (type : ExtensionType) :
    locate (entries.map ExtensionInfo.reset) type = none := by
  unfold locate
  split
  · rfl
  rename_i e he
  obtain ⟨_, _, rfl⟩ := mem_map.mp (mem_of_find?_eq_some he)
  simp [ExtensionInfo.reset]

/-! ## What the header reports -/

namespace RTPHeaderExtension

def reportedTransmissionTimeOffset (e : RTPHeaderExtension) : Option (BitVec 32) :=
  if e.hasTransmissionTimeOffset then some e.transmissionTimeOffset else none

def reportedAbsoluteSendTime (e : RTPHeaderExtension) : Option (BitVec 32) :=
  if e.hasAbsoluteSendTime then some e.absoluteSendTime else none

def reportedTransportSequenceNumber (e : RTPHeaderExtension) : Option (BitVec 16) :=
  if e.hasTransportSequenceNumber then some e.transportSequenceNumber else none

def reportedAudioLevel (e : RTPHeaderExtension) : Option (Bool × Byte) :=
  if e.hasAudioLevel then some (e.voiceActivity, e.audioLevel) else none

def reportedVideoRotation (e : RTPHeaderExtension) : Option VideoRotation :=
  if e.hasVideoRotation then some e.videoRotation else none

end RTPHeaderExtension

/-- The extensions report the values at the places found, and no others. -/
structure Reports (data : Nat → Byte) (located : ExtensionType → Option Nat)
    (e : RTPHeaderExtension) : Prop where
  transmissionTimeOffset : e.reportedTransmissionTimeOffset =
    (located .transmissionTimeOffset).map (parseTransmissionOffset data)
  absoluteSendTime : e.reportedAbsoluteSendTime =
    (located .absoluteSendTime).map (parseAbsoluteSendTime data)
  transportSequenceNumber : e.reportedTransportSequenceNumber =
    (located .transportSequenceNumber).map (parseTransportSequenceNumber data)
  audioLevel : e.reportedAudioLevel = (located .audioLevel).map (parseAudioLevel data)
  videoRotation : e.reportedVideoRotation =
    (located .videoRotation).map (parseVideoOrientation data)

theorem reports_reset (hnone : ∀ type, located type = none)
    (he : e.hasTransportSequenceNumber = false) : Reports data located e.reset := by
  constructor <;>
    simp [hnone, he, reset, reportedTransmissionTimeOffset, reportedAbsoluteSendTime,
      reportedTransportSequenceNumber, reportedAudioLevel, reportedVideoRotation]

theorem reports_getHeader (p : Packet) (header : RTPHeader) :
    Reports p.byte (locate p.extensionEntries) (getHeader p header).extension := by
  constructor <;> simp only [getHeader, findExtension_eq_locate]
  · cases locate p.extensionEntries .transmissionTimeOffset <;> rfl
  · cases locate p.extensionEntries .absoluteSendTime <;> rfl
  · cases locate p.extensionEntries .transportSequenceNumber <;> rfl
  · cases locate p.extensionEntries .audioLevel <;> rfl
  · cases locate p.extensionEntries .videoRotation <;> rfl

theorem be16_eq_add (hi lo : Byte) : hi.setWidth 16 <<< 8 + lo.setWidth 16 = be16 hi lo := by
  apply eq_of_toNat_eq
  rw [toNat_be16, toNat_add, toNat_shiftLeft, toNat_setWidth, toNat_setWidth, Nat.shiftLeft_eq]
  omega

/-- One element of the right length is taken over. -/
theorem reports_parseElement (h : Reports data located e) (ptr : Nat) {type : ExtensionType}
    (ht : type ≠ .none) : ∃ e', parseElement data ptr (type.valueSizeBytes - 1) e type = some e' ∧
      Reports data (fun t => if type = t then some ptr else located t) e' := by
  obtain ⟨h1, h2, h3, h4, h5⟩ := h
  cases type with
  | none => exact absurd rfl ht
  | transmissionTimeOffset => exact ⟨_, rfl, rfl, h2, h3, h4, h5⟩
  | audioLevel => exact ⟨_, rfl, h1, h2, h3, rfl, h5⟩
  | absoluteSendTime => exact ⟨_, rfl, h1, rfl, h3, h4, h5⟩
  | videoRotation => exact ⟨_, rfl, h1, h2, h3, h4, rfl⟩
  | transportSequenceNumber =>
    exact ⟨_, rfl, h1, h2, congrArg some (be16_eq_add (data ptr) (data (ptr + 1))), h4, h5⟩
  | playoutDelay => exact ⟨_, rfl, h1, h2, h3, h4, h5⟩

/-! ## The two folds -/

/-- The entries and the extensions after the same elements: they agree, and every value found lies
before `stop`. -/
structure Alike (map : RtpHeaderExtensionMap) (data : Nat → Byte) (stop : Nat)
    (entries : List ExtensionInfo) (e : RTPHeaderExtension) : Prop where
  identified : Identified map entries
  reports : Reports data (locate entries) e
  bounded : ∀ type, type ≠ .none → ∀ offset, locate entries type = some offset →
    offset + type.valueSizeBytes ≤ stop

theorem Reports.congr {located' : ExtensionType → Option Nat} (h : Reports data located e)
    (hl : ∀ type, type ≠ .none → located' type = located type) : Reports data located' e := by
  obtain ⟨h1, h2, h3, h4, h5⟩ := h
  constructor <;> rw [hl _ (by decide)] <;> assumption

/-- The next element, whether its id is registered or not. -/
theorem Alike.store {stop : Nat} (h : Alike map data stop entries e) {x : Element}
    (hid : 1 ≤ x.id ∧ x.id < 15) (hstop : x.offset + x.length ≤ stop)
    (hlen : map.getType x.id ≠ .none → x.length = (map.getType x.id).valueSizeBytes)
    {e' : RTPHeaderExtension}
    (hreports : Reports data (fun t => if map.getType x.id = t then some x.offset
      else locate entries t) e') : Alike map data stop (store entries x) e' := by
  refine ⟨h.identified.store x, hreports.congr fun t ht => locate_store h.identified hid hlen ht,
    fun t ht offset ho => ?_⟩
  rw [locate_store h.identified hid hlen ht] at ho
  by_cases heq : map.getType x.id = t
  · subst heq
    rw [if_pos rfl] at ho
    have := hlen ht
    cases ho
    omega
  · rw [if_neg heq] at ho
    exact h.bounded t ht offset ho

/-- The elements read keep up with the entries. -/
theorem alike_readElements {stop : Nat} {elements : List Element}
    (hrange : ∀ x ∈ elements, (1 ≤ x.id ∧ x.id < 15) ∧ x.offset + x.length ≤ stop)
    (h : Alike map data stop entries e) (hlen : RegisteredLengths map elements) :
    Alike map data stop (elements.foldl store entries) (readElements data map elements e) := by
  induction elements generalizing entries e with
  | nil => exact h
  | cons x elements ih =>
    obtain ⟨⟨hid, hstop⟩, hrange⟩ := forall_mem_cons.mp hrange
    obtain ⟨hhead, hlen⟩ := forall_mem_cons.mp hlen
    rw [foldl_cons, readElements]
    by_cases hnone : map.getType x.id = .none
    · rw [if_pos hnone]
      -- an unknown id moves an entry without a type
      refine ih hrange (h.store hid hstop hhead ?_) hlen
      exact h.reports.congr fun t ht => if_neg fun hc => ht (hc.symm.trans hnone)
    obtain ⟨_, he', hreports⟩ := reports_parseElement h.reports x.offset hnone
    rw [← hhead hnone] at he'
    rw [if_neg hnone, he']
    exact ih hrange (h.store hid hstop hhead hreports) hlen

/-! ## Whole packets -/

/-- Whether `Parse` succeeds does not depend on the header it fills. -/
theorem parse_of_true {length : Nat} {header : RTPHeader}
    {extensionMap : Option RtpHeaderExtensionMap}
    (h : (parse data length header extensionMap).1) (header' : RTPHeader) :
    parse data length header' extensionMap = (true, { fixedHeader data length header' with
          headerLength := headerEnd data
          extension := readExtension data extensionMap header'.extension.reset }) := by
  have hid : kRtpOneByteHeaderExtensionId = kOneByteExtensionId := rfl
  simp only [parse, checkLength, fixedHeader, headerEnd, readExtension, extensionElements,
    HasOneByteBlock, hid, parseOneByteExtensionHeader_eq] at h ⊢
  split_ifs at h ⊢ <;> cases extensionMap <;> simp_all [readElements]

/-- `RtpHeaderParser::Parse` succeeds on what the other parser accepts. -/
theorem parse_of_accepted (h : Accepted p data size q) (header : RTPHeader)
    (extensionMap : Option RtpHeaderExtensionMap) :
    (parse data size header extensionMap).1 = true := by
  have hmin : ¬ size < kRtpMinParseLength := Nat.not_lt.mpr h.minimum
  have hheader := h.header
  have hroom := h.padding
  unfold parse
  rw [if_neg hmin, if_neg (fun hc => hc h.version), if_neg (Nat.not_lt.mpr h.csrcs)]
  unfold headerEnd at hheader hroom
  split_ifs at hheader hroom with hx
  · simp only [if_pos hx]
    rw [if_neg (by omega), if_neg (by omega)]
    exact decide_eq_true hroom
  · rw [if_neg hx]
    exact decide_eq_true hroom

/-! ## The reports agree -/

/-- The two headers report the same packet. -/
structure SameReport (h h' : RTPHeader) : Prop where
  markerBit : h.markerBit = h'.markerBit
  payloadType : h.payloadType = h'.payloadType
  sequenceNumber : h.sequenceNumber = h'.sequenceNumber
  timestamp : h.timestamp = h'.timestamp
  ssrc : h.ssrc = h'.ssrc
  csrcs : h.csrcs = h'.csrcs
  headerLength : h.headerLength = h'.headerLength
  paddingLength : h.paddingLength = h'.paddingLength
  transmissionTimeOffset : h.extension.reportedTransmissionTimeOffset =
    h'.extension.reportedTransmissionTimeOffset
  absoluteSendTime : h.extension.reportedAbsoluteSendTime = h'.extension.reportedAbsoluteSendTime
  transportSequenceNumber : h.extension.reportedTransportSequenceNumber =
    h'.extension.reportedTransportSequenceNumber
  audioLevel : h.extension.reportedAudioLevel = h'.extension.reportedAudioLevel
  videoRotation : h.extension.reportedVideoRotation = h'.extension.reportedVideoRotation

theorem map_storeCsrcs (arr : Nat → BitVec 32) (csrcs : List (BitVec 32)) :
    (List.range csrcs.length).map (storeCsrcs arr csrcs) = csrcs := by
  refine ext_getElem (by simp) fun i hi hi' => ?_
  simp [storeCsrcs, hi']

/-- The CSRCs a header reports after a parse are those of the packet. -/
theorem csrcs_fixedHeader (data : Nat → Byte) (length : Nat) (header : RTPHeader) :
    (fixedHeader data length header).csrcs =
      (List.range (csrcCount data)).map fun i => read32 data (12 + i * 4) := by
  have hlength : ((List.range (csrcCount data)).map fun i =>
    read32 data (12 + i * 4)).length = csrcCount data := by simp
  have hstored := map_storeCsrcs header.arrOfCSRCs
    ((List.range (csrcCount data)).map fun i => read32 data (12 + i * 4))
  rwa [hlength] at hstored

/-- Both find the same extensions, and the bytes found are the same. -/
theorem alike_of_accepted (hp : Identified map p.extensionEntries) (h : Accepted p data size q)
    (hlen : RegisteredLengths map (extensionElements data))
    (he : e.hasTransportSequenceNumber = false) :
    Alike map data size q.extensionEntries (readExtension data (some map) e.reset) := by
  rw [h.entries]
  refine alike_readElements (fun x hx => ?_) ⟨by rw [Identified, map_map]; exact hp,
    reports_reset (locate_reset _) he, fun type _ offset ho => by simp [locate_reset] at ho⟩ hlen
  obtain ⟨hid, -, hend⟩ := mem_extensionElements hx
  exact ⟨hid, hend.trans h.header⟩

/-- Reading the bytes from a copy that agrees on the places found. -/
theorem Alike.copy {data' : Nat → Byte} (h : Alike map data size entries e)
    (hbytes : ∀ i < size, data' i = data i) : Reports data' (locate entries) e := by
  have hmap {β : Type} (type : ExtensionType) (ht : type ≠ .none) (f f' : Nat → β)
      (hf : ∀ o, o + type.valueSizeBytes ≤ size → f' o = f o) :
      (locate entries type).map f = (locate entries type).map f' := by
    cases ho : locate entries type with
    | none => rfl
    | some o => exact congrArg some (hf o (h.bounded type ht o ho)).symm
  have hread16 (o : Nat) (ho : o + 2 ≤ size) : read16 data' o = read16 data o := by
    rw [read16, read16, hbytes o (by omega), hbytes (o + 1) (by omega)]
  have hread24 (o : Nat) (ho : o + 3 ≤ size) : read24 data' o = read24 data o := by
    rw [read24, read24, hbytes o (by omega), hread16 (o + 1) (by omega)]
  constructor
  · rw [h.reports.transmissionTimeOffset]
    exact hmap _ (by decide) _ _ fun o ho => congrArg (BitVec.signExtend 32) (hread24 o ho)
  · rw [h.reports.absoluteSendTime]
    exact hmap _ (by decide) _ _ fun o ho => congrArg (BitVec.setWidth 32) (hread24 o ho)
  · rw [h.reports.transportSequenceNumber]
    exact hmap _ (by decide) _ _ fun o ho => hread16 o ho
  · rw [h.reports.audioLevel]
    refine hmap _ (by decide) _ _ fun o ho => ?_
    rw [parseAudioLevel, parseAudioLevel, hbytes o ho]
  rw [h.reports.videoRotation]
  refine hmap _ (by decide) _ _ fun o ho => ?_
  rw [parseVideoOrientation, parseVideoOrientation, hbytes o ho]

/-- The CSRCs both report. -/
theorem csrcs_of_accepted (h : Accepted p data size q) :
    q.csrcs = (List.range (csrcCount data)).map fun i => read32 data (12 + i * 4) := by
  have hcount : q.numCsrc = csrcCount data := by
    rw [Packet.numCsrc, csrcCount, h.bytes 0 (by have := h.minimum; omega)]
  have hend := h.csrcs
  rw [csrcEnd] at hend
  rw [Packet.csrcs, hcount]
  refine map_congr_left fun i hi => ?_
  have hi := mem_range.mp hi
  have hk : kFixedHeaderSize = 12 := rfl
  simp only [read32, read16, hk]
  rw [h.bytes _ (by omega), h.bytes _ (by omega), h.bytes _ (by omega), h.bytes _ (by omega)]

/-- **Agreement.** What `rtp::Packet::Parse` accepts, `RtpHeaderParser::Parse` accepts with the
same report, if the registered elements have the lengths of their types and the header passed in
does not claim a transport sequence number already. -/
theorem parsers_agree (fresh : Nat → Byte) (fuel : Nat) (map : RtpHeaderExtensionMap)
    (p q : Packet) (hp : Identified map p.extensionEntries) (data : Nat → Byte) (size : Nat)
    (hsize : size ≤ 65535) (hq : p.parse fresh fuel data size = some (true, q))
    (hlen : RegisteredLengths map (extensionElements data)) (before header : RTPHeader)
    (hbefore : before.extension.hasTransportSequenceNumber = false) :
    ∃ parsed, parse data size before (some map) = (true, parsed) ∧
      SameReport parsed (getHeader q header) := by
  have h := accepted_of_parse (·.trans hsize) hq
  have hcopy := (alike_of_accepted hp h hlen hbefore).copy h.bytes
  have hpacket := reports_getHeader q header
  have hcsrcs := csrcs_of_accepted h
  have hcount : csrcCount data < 256 := (data 0 &&& 0x0f#8).isLt
  refine ⟨_, parse_of_true (parse_of_accepted h before (some map)) before, ?_⟩
  exact
    { markerBit := h.marker.symm
      payloadType := h.payloadType.symm
      sequenceNumber := (be16_eq_add (data 2) (data 3)).trans h.sequenceNumber.symm
      timestamp := h.timestamp.symm
      ssrc := h.ssrc.symm
      csrcs := by
        have hnum : (BitVec.ofNat 8 q.csrcs.length).toNat = q.csrcs.length := by
          rw [toNat_ofNat, hcsrcs, length_map, length_range]
          exact Nat.mod_eq_of_lt hcount
        have hgot := map_storeCsrcs header.arrOfCSRCs q.csrcs
        rw [← hnum] at hgot
        exact (csrcs_fixedHeader data size before).trans (hcsrcs.symm.trans hgot.symm)
      headerLength := h.found.payloadOffset.symm
      paddingLength := h.paddingSize.symm
      transmissionTimeOffset :=
        hcopy.transmissionTimeOffset.trans hpacket.transmissionTimeOffset.symm
      absoluteSendTime := hcopy.absoluteSendTime.trans hpacket.absoluteSendTime.symm
      transportSequenceNumber :=
        hcopy.transportSequenceNumber.trans hpacket.transportSequenceNumber.symm
      audioLevel := hcopy.audioLevel.trans hpacket.audioLevel.symm
      videoRotation := hcopy.videoRotation.trans hpacket.videoRotation.symm }

/-- The map with the transport sequence number at id 3. -/
def numberedMap : RtpHeaderExtensionMap :=
  (RtpHeaderExtensionMap.empty.register 3 .transportSequenceNumber (by decide) fun _ => rfl).2

/-- A packet with one element of id 3 and one byte of padding behind it. -/
def numberedBytes (i : Nat) : Byte :=
  [0x90#8, 0x60#8, 0x00#8, 0x07#8, 0#8, 0#8, 0#8, 1#8, 0#8, 0#8, 0#8, 2#8, 0xBE#8, 0xDE#8, 0#8,
    1#8, 0x31#8, 0x12#8, 0x34#8, 0#8, 0xff#8].getD i 0#8

/-- Both parsers read the sequence number 7 and the transport sequence number. -/
theorem parsers_agree_numbered :
    ∃ q parsed, (identifyExtensions (newPacket 100) numberedMap).parse (fun _ => 0#8) 32
        numberedBytes 21 = some (true, q) ∧
      parse numberedBytes 21 {} (some numberedMap) = (true, parsed) ∧
      SameReport parsed (getHeader q {}) ∧ parsed.sequenceNumber = 7#16 ∧
      parsed.extension.reportedTransportSequenceNumber = some 0x1234#16 := by
  have haccept : ((identifyExtensions (newPacket 100) numberedMap).parse (fun _ => 0#8) 32
      numberedBytes 21).map (·.1) = some true := by decide +kernel
  obtain ⟨⟨_, q⟩, hq, hone⟩ := Option.map_eq_some_iff.mp haccept
  subst hone
  have hlen : RegisteredLengths numberedMap (extensionElements numberedBytes) := by
    have hall : extensionElements numberedBytes = [⟨3, 17, 2⟩] := by decide +kernel
    intro e he _
    rw [mem_singleton.mp he]
    rfl
  obtain ⟨parsed, hparsed, hsame⟩ := parsers_agree (fun _ => 0#8) 32 numberedMap
    (identifyExtensions (newPacket 100) numberedMap) q (identified_identifyExtensions _ _)
    numberedBytes 21 (by decide) hq hlen {} {} rfl
  have hseq : (parse numberedBytes 21 {} (some numberedMap)).2.sequenceNumber = 7#16 := by
    decide +kernel
  have hreported : (parse numberedBytes 21 {}
      (some numberedMap)).2.extension.reportedTransportSequenceNumber = some 0x1234#16 := by
    decide +kernel
  rw [hparsed] at hseq hreported
  exact ⟨q, parsed, hq, hparsed, hsame, hseq, hreported⟩

end WebRtc.Rtp.RtpUtility
