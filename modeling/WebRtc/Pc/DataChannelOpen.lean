import WebRtc.Base.ByteBuffer

/-! The OPEN message of a data channel (`sctputils.cc`): what `ParseDataChannelOpenMessage` reads
from what `WriteDataChannelOpenMessage` wrote. The lengths of the two strings go into 16 bits
without a check. An `int` is a `BitVec 32`. -/

namespace WebRtc.DataChannel

open BigEndian ByteBuffer List

def DATA_CHANNEL_OPEN_MESSAGE_TYPE : Byte := 0x03

/-- `DataChannelOpenMessageChannelType`. -/
def DCOMCT_ORDERED_RELIABLE : Byte := 0x00
def DCOMCT_ORDERED_PARTIAL_RTXS : Byte := 0x01
def DCOMCT_ORDERED_PARTIAL_TIME : Byte := 0x02
def DCOMCT_UNORDERED_RELIABLE : Byte := 0x80
def DCOMCT_UNORDERED_PARTIAL_RTXS : Byte := 0x81
def DCOMCT_UNORDERED_PARTIAL_TIME : Byte := 0x82

/-- The fields of `DataChannelInit` that the message carries. -/
structure DataChannelInit where
  ordered : Bool := true
  maxRetransmitTime : BitVec 32 := -1
  maxRetransmits : BitVec 32 := -1
  protocol : List Byte := []
  deriving DecidableEq, Repr

/-- The limit is given: `limit > -1`. -/
def isSet (limit : BitVec 32) : Bool := decide (-1 < limit.toInt)

/-- The channel type and the reliability parameter of a configuration. -/
def channelType (config : DataChannelInit) : Byte × BitVec 32 :=
  if config.ordered then
    if isSet config.maxRetransmits then (DCOMCT_ORDERED_PARTIAL_RTXS, config.maxRetransmits)
    else if isSet config.maxRetransmitTime then
      (DCOMCT_ORDERED_PARTIAL_TIME, config.maxRetransmitTime)
    else (DCOMCT_ORDERED_RELIABLE, 0)
  else
    if isSet config.maxRetransmits then (DCOMCT_UNORDERED_PARTIAL_RTXS, config.maxRetransmits)
    else if isSet config.maxRetransmitTime then
      (DCOMCT_UNORDERED_PARTIAL_TIME, config.maxRetransmitTime)
    else (DCOMCT_UNORDERED_RELIABLE, 0)

/-- `WriteDataChannelOpenMessage(label, config, payload)`, which always returns true. -/
def writeDataChannelOpenMessage (label : List Byte) (config : DataChannelInit) : List Byte :=
  let (channelType, reliabilityParam) := channelType config
  let priority : BitVec 16 := 0
  [DATA_CHANNEL_OPEN_MESSAGE_TYPE] ++ [channelType] ++ write16 priority ++
    write32 reliabilityParam ++ write16 (BitVec.ofNat 16 label.length) ++
    write16 (BitVec.ofNat 16 config.protocol.length) ++ label ++ config.protocol

/-- `ParseDataChannelOpenMessage(payload, label, config)`: the strings are appended to what `label`
and `config->protocol` hold. -/
def parseDataChannelOpenMessage (payload : List Byte) (label : List Byte)
    (config : DataChannelInit) : Option (List Byte × DataChannelInit) := do
  let (messageType, buffer) ← readUInt8 payload
  if messageType ≠ DATA_CHANNEL_OPEN_MESSAGE_TYPE then none
  else
    let (channelType, buffer) ← readUInt8 buffer
    let (_priority, buffer) ← readUInt16 buffer
    let (reliabilityParam, buffer) ← readUInt32 buffer
    let (labelLength, buffer) ← readUInt16 buffer
    let (protocolLength, buffer) ← readUInt16 buffer
    let (labelBytes, buffer) ← readBytes labelLength.toNat buffer
    let (protocolBytes, _buffer) ← readBytes protocolLength.toNat buffer
    let ordered := !(channelType == DCOMCT_UNORDERED_RELIABLE ||
      channelType == DCOMCT_UNORDERED_PARTIAL_RTXS || channelType == DCOMCT_UNORDERED_PARTIAL_TIME)
    let maxRetransmits := if channelType = DCOMCT_ORDERED_PARTIAL_RTXS ∨
        channelType = DCOMCT_UNORDERED_PARTIAL_RTXS then reliabilityParam else -1
    let maxRetransmitTime := if channelType = DCOMCT_ORDERED_PARTIAL_TIME ∨
        channelType = DCOMCT_UNORDERED_PARTIAL_TIME then reliabilityParam else -1
    return (label ++ labelBytes, {
      ordered := ordered
      maxRetransmitTime := maxRetransmitTime
      maxRetransmits := maxRetransmits
      protocol := config.protocol ++ protocolBytes })

/-! ## The strings -/

/-- What 16 bits keep of a length. -/
def wireLength (bytes : List Byte) : Nat := bytes.length % 65536

theorem wireLength_le (bytes : List Byte) : wireLength bytes ≤ bytes.length := Nat.mod_le ..

theorem take_wireLength_eq_iff (bytes rest : List Byte) :
    (bytes ++ rest).take (wireLength bytes) = bytes ↔ bytes.length < 65536 := by
  constructor
  · intro h
    have hlen := congrArg List.length h
    have hle := wireLength_le bytes
    simp only [length_take, length_append] at hlen
    unfold wireLength at hlen hle
    omega
  · intro h
    have hkeep : wireLength bytes = bytes.length := Nat.mod_eq_of_lt h
    rw [hkeep, take_left]

/-! ## The limits -/

/-- A limit that is not given reads back as -1. -/
def readBack (limit : BitVec 32) : BitVec 32 := if isSet limit then limit else -1

theorem readBack_eq_iff (limit : BitVec 32) : readBack limit = limit ↔ -1 ≤ limit.toInt := by
  unfold readBack isSet
  split
  · next h =>
    simp only [decide_eq_true_eq] at h
    exact iff_of_true rfl (by omega)
  rename_i h
  simp only [decide_eq_true_eq] at h
  constructor
  · rintro rfl
    decide
  intro hle
  apply BitVec.eq_of_toInt_eq
  have hneg : (-1 : BitVec 32).toInt = -1 := by decide
  omega

/-! ## Reading back what was written -/

/-- What the fields of a message are read as, whatever the lengths of its strings. -/
theorem parse_fields (type : Byte) (param : BitVec 32) (label protocol : List Byte) :
    parseDataChannelOpenMessage ([DATA_CHANNEL_OPEN_MESSAGE_TYPE] ++ [type] ++ write16 0 ++
        write32 param ++ write16 (BitVec.ofNat 16 label.length) ++
        write16 (BitVec.ofNat 16 protocol.length) ++ label ++ protocol) [] {} =
      some ((label ++ protocol).take (wireLength label), {
        ordered := !(type == DCOMCT_UNORDERED_RELIABLE ||
          type == DCOMCT_UNORDERED_PARTIAL_RTXS || type == DCOMCT_UNORDERED_PARTIAL_TIME)
        maxRetransmitTime := if type = DCOMCT_ORDERED_PARTIAL_TIME ∨
          type = DCOMCT_UNORDERED_PARTIAL_TIME then param else -1
        maxRetransmits := if type = DCOMCT_ORDERED_PARTIAL_RTXS ∨
          type = DCOMCT_UNORDERED_PARTIAL_RTXS then param else -1
        protocol := ((label ++ protocol).drop (wireLength label)).take (wireLength protocol) }) := by
  have hlabel := wireLength_le label
  have hprotocol := wireLength_le protocol
  have hfirst : readBytes (wireLength label) (label ++ protocol) = _ :=
    readBytes_of_le (by rw [length_append]; omega)
  have hsecond : readBytes (wireLength protocol) ((label ++ protocol).drop (wireLength label)) = _ :=
    readBytes_of_le (by rw [length_drop, length_append]; omega)
  have hbits : ∀ bytes : List Byte, (BitVec.ofNat 16 bytes.length).toNat = wireLength bytes :=
    fun bytes => BitVec.toNat_ofNat ..
  simp only [parseDataChannelOpenMessage, append_assoc, cons_append, nil_append,
    readUInt8_cons, readUInt16_write16, readUInt32_write32, Option.bind_eq_bind, Option.bind_some,
    ne_eq, not_true, if_false, hbits, hfirst, hsecond]
  rfl

/-- The channel type and the parameter tell what the configuration was. -/
theorem channelType_readBack (config : DataChannelInit)
    (hone : ¬ (isSet config.maxRetransmits ∧ isSet config.maxRetransmitTime)) :
    (!((channelType config).1 == DCOMCT_UNORDERED_RELIABLE ||
        (channelType config).1 == DCOMCT_UNORDERED_PARTIAL_RTXS ||
        (channelType config).1 == DCOMCT_UNORDERED_PARTIAL_TIME)) = config.ordered ∧
    (if (channelType config).1 = DCOMCT_ORDERED_PARTIAL_TIME ∨
        (channelType config).1 = DCOMCT_UNORDERED_PARTIAL_TIME then (channelType config).2 else -1) =
      readBack config.maxRetransmitTime ∧ (if (channelType config).1 = DCOMCT_ORDERED_PARTIAL_RTXS ∨
        (channelType config).1 = DCOMCT_UNORDERED_PARTIAL_RTXS then (channelType config).2 else -1) =
      readBack config.maxRetransmits := by
  -- The six kinds of channel.
  cases hordered : config.ordered <;> cases hrtx : isSet config.maxRetransmits <;>
    cases htime : isSet config.maxRetransmitTime <;>
    simp only [hrtx, htime, and_self, not_true] at hone <;>
    simp only [channelType, readBack, hordered, hrtx, htime, if_true, if_false, Bool.false_eq_true] <;>
    exact ⟨by decide, by rfl, by rfl⟩

/-- What a message is read as, whatever the lengths of its strings. -/
theorem parse_write (label : List Byte) (config : DataChannelInit)
    (hone : ¬ (isSet config.maxRetransmits ∧ isSet config.maxRetransmitTime)) :
    parseDataChannelOpenMessage (writeDataChannelOpenMessage label config) [] {} =
      some ((label ++ config.protocol).take (wireLength label), {
        ordered := config.ordered
        maxRetransmitTime := readBack config.maxRetransmitTime
        maxRetransmits := readBack config.maxRetransmits
        protocol := ((label ++ config.protocol).drop (wireLength label)).take
          (wireLength config.protocol) }) := by
  obtain ⟨hordered, htime, hrtx⟩ := channelType_readBack config hone
  rw [← hordered, ← htime, ← hrtx]
  exact parse_fields (channelType config).1 (channelType config).2 label config.protocol

/-- A configuration with at most one limit is read back as it was written exactly when both
lengths fit in 16 bits and no limit is below -1. -/
theorem open_message_round_trip (label : List Byte) (config : DataChannelInit)
    (hone : ¬ (isSet config.maxRetransmits ∧ isSet config.maxRetransmitTime)) :
    parseDataChannelOpenMessage (writeDataChannelOpenMessage label config) [] {} =
        some (label, config) ↔ label.length < 65536 ∧ config.protocol.length < 65536 ∧
        -1 ≤ config.maxRetransmits.toInt ∧ -1 ≤ config.maxRetransmitTime.toInt := by
  rw [parse_write label config hone, Option.some_inj, Prod.mk.injEq,
    ← readBack_eq_iff config.maxRetransmits, ← readBack_eq_iff config.maxRetransmitTime,
    ← take_wireLength_eq_iff label config.protocol]
  refine and_congr_right fun hlabel => ?_
  -- The label was read in full, so that the protocol is what is left.
  have hfits := (take_wireLength_eq_iff label config.protocol).mp hlabel
  have hrest : (label ++ config.protocol).drop (wireLength label) = config.protocol := by
    have hkeep : wireLength label = label.length := Nat.mod_eq_of_lt hfits
    rw [hkeep, drop_left]
  rw [hrest, ← take_wireLength_eq_iff config.protocol [], append_nil]
  cases config with
  | mk _ _ _ _ =>
    simp only [DataChannelInit.mk.injEq, true_and]
    constructor
    · rintro ⟨htime, hrtx, hprotocol⟩
      exact ⟨hprotocol, hrtx, htime⟩
    · rintro ⟨hprotocol, hrtx, htime⟩
      exact ⟨htime, hrtx, hprotocol⟩

theorem open_message_round_trip_unordered : parseDataChannelOpenMessage
        (writeDataChannelOpenMessage [0x61, 0x62] ⟨false, -1, 3, [0x70]⟩) [] {} =
      some ([0x61, 0x62], ⟨false, -1, 3, [0x70]⟩) :=
  (open_message_round_trip [0x61, 0x62] ⟨false, -1, 3, [0x70]⟩ (by decide)).mpr (by decide)

/-- A label of 65536 bytes is announced with length 0 and read back as empty. -/
theorem open_message_loses_long_label : parseDataChannelOpenMessage
        (writeDataChannelOpenMessage (List.replicate 65536 0x61) {}) [] {} = some ([], {}) := by
  have hlength : wireLength (List.replicate 65536 0x61) = 0 := by
    rw [wireLength, length_replicate]
  rw [parse_write _ _ (by decide), hlength]
  rfl

end WebRtc.DataChannel
