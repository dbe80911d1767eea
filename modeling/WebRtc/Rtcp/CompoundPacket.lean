import WebRtc.Rtcp.Bye
import WebRtc.Rtcp.Rpsi

/-! `CompoundPacket` over BYE and RPSI packets (`rtcp_packet/compound_packet.cc`,
`rtcp_packet.cc`). A packet that does not fit behind those written so far makes `Create` hand the
buffer to the callback and start again at its beginning. The main result is that walking the
buffers gives the appended packets back. -/

namespace WebRtc.Rtcp

open BigEndian TransportFeedback List

variable {maxLength : Nat} {b : PacketBuilder} {groups : List (List RtcpPacket)}

/-- The packets that are appended. -/
inductive RtcpPacket
  | bye (packet : Bye)
  | rpsi (packet : Rpsi)
  deriving DecidableEq, Repr

/-- The buffer during `Create`: the bytes written to it, `*index` of them, and the buffers that
were given to `OnPacketReady`. -/
structure PacketBuilder where
  packet : List Byte := []
  ready : List (List Byte) := []
  deriving DecidableEq, Repr

/-- `OnBufferFull(packet, index, callback)`. -/
def PacketBuilder.onBufferFull (b : PacketBuilder) : Bool × PacketBuilder :=
  if b.packet.length = 0 then (false, b) else (true, ⟨[], b.ready ++ [b.packet]⟩)

/-- The loop at the start of every `Create`. -/
def PacketBuilder.makeRoom (blockLength maxLength : Nat) (b : PacketBuilder) :
    Bool × PacketBuilder :=
  if b.packet.length + blockLength > maxLength then
    if b.packet.length = 0 then b.onBufferFull
    else makeRoom blockLength maxLength b.onBufferFull.2
  else (true, b)
termination_by b.packet.length
decreasing_by
  unfold onBufferFull
  rw [if_neg ‹_›]
  exact Nat.pos_of_ne_zero ‹_›

namespace RtcpPacket

/-- The packets the setters of the classes allow. -/
def Valid : RtcpPacket → Prop
  | bye packet => packet.Valid
  | rpsi _ => True

def blockLength : RtcpPacket → Nat
  | bye packet => packet.blockLength
  | rpsi packet => packet.blockLength

def written : RtcpPacket → List Byte
  | bye packet => packet.written
  | rpsi packet => packet.written

/-- `Create(packet, index, max_length, callback)`. -/
def create (p : RtcpPacket) (maxLength : Nat) (b : PacketBuilder) : Bool × PacketBuilder :=
  match b.makeRoom p.blockLength maxLength with
  | (false, b) => (false, b)
  | (true, b) => (true, { b with packet := b.packet ++ p.written })

/-- The packet behind a parsed header, by its type and format. -/
def parse (header : CommonHeader) : Option RtcpPacket :=
  if header.packetType = Bye.packetType then (Bye.parse header).map bye
  else if header.packetType = Rpsi.packetType ∧
      header.countOrFormat = Rpsi.feedbackMessageType then (Rpsi.parse header).map rpsi
  else none

end RtcpPacket

namespace CompoundPacket

/-- `CompoundPacket::Create(packet, index, max_length, callback)`. -/
def create (maxLength : Nat) : List RtcpPacket → PacketBuilder → Bool × PacketBuilder
  | [], b => (true, b)
  | appended :: packets, b =>
    match appended.create maxLength b with
    | (false, b) => (false, b)
    | (true, b) => create maxLength packets b

/-- `BuildExternalBuffer(buffer, max_length, callback)`. -/
def buildExternalBuffer (packets : List RtcpPacket) (maxLength : Nat) : Bool × PacketBuilder :=
  match create maxLength packets {} with
  | (false, b) => (false, b)
  | (true, b) => b.onBufferFull

end CompoundPacket

/-! ## One packet -/

namespace RtcpPacket

/-- The header `Parse` finds in front of the packet. -/
def header : RtcpPacket → CommonHeader
  | bye packet => ⟨Bye.packetType, BitVec.ofNat 8 (1 + packet.csrcs.length), packet.payload⟩
  | rpsi packet => ⟨Rpsi.packetType, Rpsi.feedbackMessageType, packet.payload⟩

theorem length_written (p : RtcpPacket) : p.written.length = p.blockLength := by
  cases p with
  | bye packet =>
    simp only [written, blockLength, Bye.written, length_append, ← packet.length_payload]
    rfl
  | rpsi packet =>
    simp only [written, blockLength, Rpsi.written, length_append, ← packet.length_payload]
    rfl

theorem blockLength_pos (p : RtcpPacket) : 0 < p.blockLength := by
  cases p with
  | bye packet | rpsi packet => simp only [blockLength, ← packet.length_payload, kHeaderLength]; omega

/-- The header and `NextPacket` of a packet in front of other bytes. -/
theorem parse_written {p : RtcpPacket} (h : p.Valid) (rest : List Byte) :
    CommonHeader.parse (p.written ++ rest) = some p.header ∧
      nextPacket (p.written ++ rest) = rest := by
  cases p with
  | bye packet =>
    have hcount : (BitVec.ofNat 8 (1 + packet.csrcs.length)).toNat < 32 := by
      have := Bye.Valid.csrcs h
      simp only [Bye.kMaxNumberOfCsrcs] at this
      rw [BitVec.toNat_ofNat]
      omega
    exact parse_createHeader hcount packet.blockLength_words (Bye.Valid.words_lt h) rest
  | rpsi packet =>
    exact parse_createHeader (by decide) packet.blockLength_words packet.words_lt rest

theorem parse_header {p : RtcpPacket} (h : p.Valid) : parse p.header = some p := by
  cases p with
  | bye packet => simp [parse, header, Bye.parse_written h]
  | rpsi packet =>
    have hne : Rpsi.packetType ≠ Bye.packetType := by decide
    simp [parse, header, hne, Rpsi.parse_written]

/-- Walking packets written one after the other. -/
theorem blocks_flatMap_written (ps : List RtcpPacket) (h : ∀ p ∈ ps, p.Valid) :
    blocks (ps.flatMap written) = (ps.map header, true) := by
  induction ps with
  | nil => rfl
  | cons p ps ih =>
    obtain ⟨hparse, hnext⟩ := parse_written (h p (.head _)) (ps.flatMap written)
    rw [flatMap_cons, blocks_of_parse hparse, hnext, ih fun q hq => h q (.tail _ hq)]
    rfl

end RtcpPacket

/-! ## The builder -/

namespace PacketBuilder

/-- `b` holds the packets `done`: those of `groups` in the buffers that are ready, and those of
`current` in the buffer being written. -/
structure Holds (maxLength : Nat) (b : PacketBuilder) (groups : List (List RtcpPacket))
    (current : List RtcpPacket) : Prop where
  packet : b.packet = current.flatMap RtcpPacket.written
  ready : b.ready = groups.map (·.flatMap RtcpPacket.written)
  packet_fits : b.packet.length ≤ maxLength
  ready_fits : ∀ buffer ∈ b.ready, buffer.length ≤ maxLength

theorem holds_empty (maxLength : Nat) : Holds maxLength {} [] [] :=
  ⟨rfl, rfl, Nat.zero_le _, by simp⟩

/-- Handing the buffer over closes the current group. -/
theorem Holds.flush {current : List RtcpPacket} (h : Holds maxLength b groups current) :
    Holds maxLength ⟨[], b.ready ++ [b.packet]⟩ (groups ++ [current]) [] := by
  refine ⟨rfl, ?_, Nat.zero_le _, ?_⟩
  · simp [h.ready, h.packet]
  intro buffer hmem
  rcases mem_append.mp hmem with hmem | hmem
  · exact h.ready_fits buffer hmem
  · cases mem_singleton.mp hmem
    exact h.packet_fits

/-- What the loop at the start of `Create` does: it gives up exactly on a packet longer than the
buffer, and otherwise flushes at most once. -/
theorem makeRoom_eq (blockLength maxLength : Nat) (b : PacketBuilder) :
    b.makeRoom blockLength maxLength = if b.packet.length + blockLength ≤ maxLength then (true, b)
      else if b.packet.length = 0 then (false, b)
      else (decide (blockLength ≤ maxLength), ⟨[], b.ready ++ [b.packet]⟩) := by
  unfold makeRoom
  by_cases hfits : b.packet.length + blockLength ≤ maxLength
  · rw [if_neg (by omega), if_pos hfits]
  rw [if_pos (by omega), if_neg hfits]
  by_cases hempty : b.packet.length = 0
  · rw [if_pos hempty, if_pos hempty, onBufferFull, if_pos hempty]
  rw [if_neg hempty, if_neg hempty, onBufferFull, if_neg hempty]
  -- the second round starts with an empty buffer
  unfold makeRoom
  by_cases hle : blockLength ≤ maxLength
  · rw [if_neg (by simp only [length_nil]; omega), decide_eq_true hle]
  · rw [if_pos (by simp only [length_nil]; omega), decide_eq_false hle]
    rfl

/-- One `Create`: it fails exactly on a packet longer than the buffer, and otherwise adds the
packet to the current group or to a new one. -/
theorem Holds.create
    {current : List RtcpPacket} (h : Holds maxLength b groups current) (p : RtcpPacket) :
    (p.create maxLength b).1 = decide (p.blockLength ≤ maxLength) ∧
      (p.blockLength ≤ maxLength → ∃ groups' current',
        Holds maxLength (p.create maxLength b).2 groups' (current' ++ [p]) ∧
        groups'.flatten ++ current' = groups.flatten ++ current) := by
  have hlen := p.length_written
  unfold RtcpPacket.create
  rw [makeRoom_eq]
  by_cases hfits : b.packet.length + p.blockLength ≤ maxLength
  · rw [if_pos hfits]
    refine ⟨(decide_eq_true (by omega)).symm, fun _ => ⟨groups, current, ?_, rfl⟩⟩
    refine ⟨by simp [h.packet], h.ready, ?_, h.ready_fits⟩
    simp only [length_append, hlen]
    exact hfits
  rw [if_neg hfits]
  by_cases hempty : b.packet.length = 0
  · have hlong : ¬ p.blockLength ≤ maxLength := by omega
    rw [if_pos hempty]
    exact ⟨(decide_eq_false hlong).symm, fun hle => absurd hle hlong⟩
  rw [if_neg hempty]
  by_cases hle : p.blockLength ≤ maxLength
  · rw [decide_eq_true hle]
    refine ⟨rfl, fun _ => ⟨groups ++ [current], [], ?_, by simp⟩⟩
    have hflush := h.flush
    refine ⟨by simp, hflush.ready, ?_, hflush.ready_fits⟩
    simpa [hlen] using hle
  · rw [decide_eq_false hle]
    exact ⟨rfl, fun hle' => absurd hle' hle⟩

end PacketBuilder

/-! ## The compound packet -/

namespace CompoundPacket

open PacketBuilder

/-- A whole `Create`, by induction over the appended packets. -/
theorem create_spec (maxLength : Nat) (packets : List RtcpPacket) (b : PacketBuilder)
    (groups : List (List RtcpPacket)) (current : List RtcpPacket)
    (h : Holds maxLength b groups current) :
    (create maxLength packets b).1 = decide (∀ p ∈ packets, p.blockLength ≤ maxLength) ∧
      ((∀ p ∈ packets, p.blockLength ≤ maxLength) → ∃ groups' current',
        Holds maxLength (create maxLength packets b).2 groups' current' ∧
        groups'.flatten ++ current' = groups.flatten ++ current ++ packets ∧
        (current' = [] → packets = [] ∧ current = [])) := by
  induction packets generalizing b groups current with
  | nil => exact ⟨by simp [create], fun _ => ⟨groups, current, h, by simp, fun hc => ⟨rfl, hc⟩⟩⟩
  | cons p packets ih =>
    obtain ⟨hok, hadd⟩ := h.create p
    unfold create
    by_cases hle : p.blockLength ≤ maxLength
    · obtain ⟨_, _, h₁, hflat₁⟩ := hadd hle
      obtain ⟨hrest, hall⟩ := ih _ _ _ h₁
      rw [decide_eq_true hle] at hok
      have hpair : p.create maxLength b = (true, (p.create maxLength b).2) := by rw [← hok]
      rw [hpair]
      refine ⟨by simp [hrest, hle], fun hfit => ?_⟩
      obtain ⟨groups', current', h', hflat', hcurrent⟩ :=
        hall fun q hq => hfit q (.tail _ hq)
      refine ⟨groups', current', h', ?_, fun hc => absurd (hcurrent hc).2 (by simp)⟩
      rw [hflat', ← append_assoc, hflat₁]
      simp
    · rw [decide_eq_false hle] at hok
      have hpair : p.create maxLength b = (false, (p.create maxLength b).2) := by rw [← hok]
      rw [hpair]
      exact ⟨by simp [hle], fun hfit => absurd (hfit p (.head _)) hle⟩

/-- `BuildExternalBuffer` succeeds exactly if there is a packet and each one fits by itself; then
the ready buffers hold all of them. -/
theorem buildExternalBuffer_spec (packets : List RtcpPacket) (maxLength : Nat) :
    ((buildExternalBuffer packets maxLength).1 ↔
      packets ≠ [] ∧ ∀ p ∈ packets, p.blockLength ≤ maxLength) ∧
    ((buildExternalBuffer packets maxLength).1 → ∃ groups,
      Holds maxLength (buildExternalBuffer packets maxLength).2 groups [] ∧
      groups.flatten = packets) := by
  obtain ⟨hok, hholds⟩ := create_spec maxLength packets {} [] [] (holds_empty maxLength)
  unfold buildExternalBuffer
  cases hc : create maxLength packets {} with
  | mk _ b =>
    rw [hc] at hok hholds
    by_cases hfit : ∀ p ∈ packets, p.blockLength ≤ maxLength
    · rw [decide_eq_true hfit] at hok
      obtain ⟨groups, current, h, hflat, hcurrent⟩ := hholds hfit
      cases hok
      dsimp only at h ⊢
      unfold onBufferFull
      by_cases hempty : packets = []
      · have hnil : current = [] := by
          rw [hempty] at hflat
          exact (append_eq_nil_iff.mp hflat).2
        simp [h.packet, hnil, hempty]
      have hpos : b.packet.length ≠ 0 := by
        rw [h.packet]
        cases current with
        | nil => exact absurd (hcurrent rfl).1 hempty
        | cons p current =>
          have := p.blockLength_pos
          simp only [flatMap_cons, length_append, p.length_written]
          omega
      rw [if_neg hpos]
      refine ⟨⟨fun _ => ⟨hempty, hfit⟩, fun _ => rfl⟩, fun _ => ?_⟩
      exact ⟨groups ++ [current], h.flush, by simpa using hflat⟩
    · rw [decide_eq_false hfit] at hok
      cases hok
      exact ⟨⟨fun hf => absurd hf Bool.false_ne_true, fun hall => absurd hall.2 hfit⟩,
        fun hf => absurd hf Bool.false_ne_true⟩

/-- Buffers that hold valid packets are walked to their end and give the packets back. -/
theorem walk_holds (h : Holds maxLength b groups []) (hvalid : ∀ p ∈ groups.flatten, p.Valid) :
    (∀ buffer ∈ b.ready, (blocks buffer).2) ∧
      (b.ready.flatMap fun buffer => (blocks buffer).1).map RtcpPacket.parse =
        groups.flatten.map some := by
  have hgroup : ∀ g ∈ groups,
      blocks (g.flatMap RtcpPacket.written) = (g.map RtcpPacket.header, true) :=
    fun g hg => RtcpPacket.blocks_flatMap_written g fun p hp =>
      hvalid p (mem_flatten.mpr ⟨g, hg, hp⟩)
  rw [h.ready]
  constructor
  · intro buffer hmem
    obtain ⟨g, hg, rfl⟩ := mem_map.mp hmem
    rw [hgroup g hg]
  clear h
  induction groups with
  | nil => rfl
  | cons g groups ih =>
    have htail := ih (fun p hp => hvalid p (by simp [mem_flatten.mp hp]))
      fun g' hg' => hgroup g' (.tail _ hg')
    have hhead : (g.map RtcpPacket.header).map RtcpPacket.parse = g.map some := by
      rw [map_map]
      refine map_congr_left fun p hp => RtcpPacket.parse_header (hvalid p ?_)
      exact mem_flatten.mpr ⟨g, .head _, hp⟩
    rw [map_cons, flatMap_cons, map_append, htail, hgroup g (.head _),
      hhead, flatten_cons, map_append]

/-- **Framing of compound packets.** For valid packets and every buffer size, building succeeds
exactly if there is a packet and each one fits the buffer by itself; then every buffer given to the
callback is within the size, and walking the buffers by header and `NextPacket` reaches their ends
and gives back the appended packets in order with their field values. -/
theorem buildExternalBuffer_framing (packets : List {p : RtcpPacket // p.Valid}) (maxLength : Nat) :
    ((buildExternalBuffer (packets.map (·.val)) maxLength).1 = true ↔
      packets ≠ [] ∧ ∀ p ∈ packets, p.val.blockLength ≤ maxLength) ∧
    ((buildExternalBuffer (packets.map (·.val)) maxLength).1 = true →
      let ready := (buildExternalBuffer (packets.map (·.val)) maxLength).2.ready
      (∀ buffer ∈ ready, buffer.length ≤ maxLength ∧ (blocks buffer).2 = true) ∧
      (ready.flatMap fun buffer => (blocks buffer).1).map RtcpPacket.parse =
        packets.map fun p => some p.val) := by
  obtain ⟨hiff, hholds⟩ := buildExternalBuffer_spec (packets.map (·.val)) maxLength
  constructor
  · rw [hiff, ne_eq, map_eq_nil_iff, forall_mem_map]
  intro hok
  obtain ⟨groups, h, hflat⟩ := hholds hok
  have hvalid : ∀ p ∈ groups.flatten, p.Valid := by
    rw [hflat, forall_mem_map]
    exact fun p _ => p.property
  obtain ⟨hended, hparsed⟩ := walk_holds h hvalid
  refine ⟨fun buffer hmem => ⟨h.ready_fits buffer hmem, hended buffer hmem⟩, ?_⟩
  rw [hparsed, hflat, map_map]
  rfl

end CompoundPacket
end WebRtc.Rtcp
