import Mathlib.Data.List.Pairwise
import Mathlib.Data.Nat.ModEq
import WebRtc.Lib.Transition
import WebRtc.Video.PacketBufferFrames

/-! Sessions: the packet buffer together with the frames it has handed out and not got back. The
frames of a session have packets of their own, and `ReturnFrame` frees no others. -/

namespace WebRtc.Video.Packets
open SequenceNumber Transition List

variable {b b' : PacketBuffer} {f : RtpFrameObject} {t t' : Session} {p : VCMPacket}

/-! ## `ReturnFrame` -/

/-- The ring has a slot for each of the frame's numbers, at the place where the loops of
`ReturnFrame` and `GetBitstream` look for it. -/
structure Spans (b : PacketBuffer) (f : RtpFrameObject) : Prop where
  count_le : f.count ≤ b.size
  dvd_or : b.size ∣ 65536 ∨ f.firstSeqNum.toNat + f.count ≤ 65536

theorem HandedFrame.spans (hw : WellFormed b) {e n : Nat} (h : HandedFrame b e n f) : Spans b f := by
  have hn := h.lt
  refine ⟨by rw [count_eq hn h.firstSeqNum]; exact h.lt_size, ?_⟩
  obtain ⟨k, hk⟩ := hw.pow
  rcases Nat.lt_or_ge 16 k with hlarge | hsmall
  · right
    have hsize : 65536 < b.size := by
      rw [hk]
      exact Nat.pow_lt_pow_right (show 1 < 2 by decide) hlarge
    have hle := le_of_slots (fun m hm => (h.run m hm).1) hsize
    rw [count_eq hn h.firstSeqNum, h.firstSeqNum]
    bv_omega
  · left
    rw [hk, show 65536 = 2 ^ 16 from rfl]
    exact Nat.pow_dvd_pow 2 hsmall

/-- The slot of number `pos`, counted without the wrap. -/
theorem slot_pos (size : Nat) {pos stop : Nat} (hpos : pos < stop) (h : size ∣ 65536 ∨ stop ≤ 65536) :
    (BitVec.ofNat 16 pos).toNat % size = pos % size := by
  rw [BitVec.toNat_ofNat]
  rcases h with hdvd | hle
  · exact Nat.mod_mod_of_dvd pos hdvd
  · rw [Nat.mod_eq_of_lt (show pos < 2 ^ 16 by omega)]

theorem add_mod_ne {a d size : Nat} (hd : 0 < d) (hlt : d < size) : a % size ≠ (a + d) % size := by
  intro h
  have hdvd : size ∣ (a + d) - a := (Nat.modEq_iff_dvd' (Nat.le_add_right a d)).mp h
  rw [Nat.add_sub_cancel_left] at hdvd
  have := Nat.le_of_dvd hd hdvd
  omega

/-- The loop of `ReturnFrame` over the `r` numbers from `pos` on. -/
theorem lookup_returnFrameLoop {r fuel pos : Nat} (hs : Shaped b) (hr : r < b.size)
    (hfuel : r < fuel) (hmod : b.size ∣ 65536 ∨ pos + r ≤ 65536) (hr16 : r ≤ 65536) (x : BitVec 16) :
    lookup (returnFrameLoop ((pos + r) % b.size) fuel b (pos % b.size) (BitVec.ofNat 16 pos)) x =
      if (x - BitVec.ofNat 16 pos).toNat < r then none else lookup b x := by
  induction r generalizing fuel pos b with
  | zero =>
    obtain ⟨fuel, rfl⟩ : ∃ g, fuel = g + 1 := ⟨fuel - 1, by omega⟩
    unfold returnFrameLoop
    simp
  | succ r ih =>
    obtain ⟨fuel, rfl⟩ : ∃ g, fuel = g + 1 := ⟨fuel - 1, by omega⟩
    have hi : pos % b.size < b.size := Nat.mod_lt _ (by omega)
    have hslot := slot_pos b.size (show pos < pos + (r + 1) by omega) hmod
    unfold returnFrameLoop
    rw [if_neg (add_mod_ne (by omega) hr)]
    dsimp only
    generalize hb1 : (if (b.info (pos % b.size)).seqNum = BitVec.ofNat 16 pos then
      b.freeSlot (pos % b.size) else b) = b1
    have hsize : b1.size = b.size := by
      rw [← hb1]
      split <;> rfl
    have hs1 : Shaped b1 := by
      rw [← hb1]
      split
      · exact hs.freeSlot _
      · exact hs
    -- one pass takes the number `pos` out of the map
    have hlookup : lookup b1 x = if x = BitVec.ofNat 16 pos then none else lookup b x := by
      rw [← hb1]
      split
      · next hseq =>
        rw [lookup_freeSlot hs hi]
        by_cases hx : x = BitVec.ofNat 16 pos
        · rw [if_pos (by rw [hx, hslot]), if_pos hx]
        split
        · next hxs =>
          refine (lookup_eq_none.mpr fun h => hx ?_).symm
          rw [hxs, hseq] at h
          exact h.2.symm
        · rfl
      · next hseq =>
        split
        · next hx =>
          rw [hx]
          refine lookup_eq_none.mpr fun h => hseq ?_
          rw [hslot] at h
          exact h.2
        · rfl
    have hnext : (pos % b.size + 1) % b.size = (pos + 1) % b1.size := by
      rw [hsize, Nat.mod_add_mod]
    have hstop : (pos + (r + 1)) % b.size = (pos + 1 + r) % b1.size := by
      rw [hsize, Nat.add_right_comm, Nat.add_assoc]
    have hseq1 : BitVec.ofNat 16 pos + 1 = BitVec.ofNat 16 (pos + 1) := by
      rw [BitVec.ofNat_add]
      rfl
    rw [hsize, hnext, hstop, hseq1, ih hs1 (by omega) (by omega) (by rw [hsize]; omega) (by omega),
      hlookup, BitVec.ofNat_add]
    generalize BitVec.ofNat 16 pos = s at *
    by_cases hx : x = s
    · rw [if_pos hx, ite_self, if_pos (by rw [hx]; simp)]
    rw [if_neg hx]
    congr 1
    exact propext ⟨fun h => by bv_omega, fun h => by bv_omega⟩

/-- The loops over a frame end where the count of its packets says. -/
theorem Spans.end_index (h : Spans b f) :
    (f.lastSeqNum.toNat + 1) % b.size = (f.firstSeqNum.toNat + f.count) % b.size := by
  have hcount : f.count = (f.lastSeqNum - f.firstSeqNum).toNat + 1 := rfl
  have hlast : f.firstSeqNum.toNat + f.count = f.lastSeqNum.toNat + 1 ∨
      f.firstSeqNum.toNat + f.count = f.lastSeqNum.toNat + 1 + 65536 := by
    bv_omega
  rcases hlast with hl | hl
  · rw [hl]
  rcases h.dvd_or with ⟨d, hd⟩ | hle
  · rw [hl, hd, Nat.add_mul_mod_self_left]
  · omega

/-- **`ReturnFrame`** takes the packets of the frame out of the ring, unless the frame fills it. -/
theorem lookup_returnFrame (hs : Shaped b) (hspan : Spans b f) (x : BitVec 16) :
    lookup (returnFrame b f.firstSeqNum f.lastSeqNum) x =
      if Covers f x ∧ f.count < b.size then none else lookup b x := by
  have hcount : f.count = (f.lastSeqNum - f.firstSeqNum).toNat + 1 := rfl
  unfold returnFrame
  rw [hspan.end_index]
  rcases Nat.lt_or_eq_of_le hspan.count_le with hlt | heq
  · have h := lookup_returnFrameLoop hs hlt hlt hspan.dvd_or (by bv_omega) x
    rw [show BitVec.ofNat 16 f.firstSeqNum.toNat = f.firstSeqNum by simp] at h
    rw [h]
    congr 1
    refine propext ⟨fun hx => ⟨?_, hlt⟩, fun hx => ?_⟩
    · unfold Covers
      omega
    have := hx.1
    unfold Covers at this
    omega
  · rw [if_neg (fun h => by omega), heq, Nat.add_mod_right]
    obtain ⟨_, hfuel⟩ : ∃ g, b.size = g + 1 := ⟨b.size - 1, by omega⟩
    rw [hfuel]
    unfold returnFrameLoop
    rw [if_pos rfl]

/-! ## Sessions -/

/-- The numbers of the frame in their order. -/
def RtpFrameObject.numbers (f : RtpFrameObject) : List (BitVec 16) :=
  (List.range f.count).map fun j => f.firstSeqNum + BitVec.ofNat 16 j

theorem RtpFrameObject.mem_numbers (f : RtpFrameObject) (x : BitVec 16) :
    x ∈ f.numbers ↔ Covers f x := by
  unfold RtpFrameObject.numbers RtpFrameObject.count Covers
  simp only [mem_map, mem_range]
  constructor
  · rintro ⟨j, hj, rfl⟩
    bv_omega
  · intro h
    exact ⟨(x - f.firstSeqNum).toNat, by omega, by bv_omega⟩

/-- What has been stored and handed out, in this order. -/
inductive Event
  | stored (packet : VCMPacket)
  | handed (frame : RtpFrameObject)
  deriving DecidableEq, Repr

/-- The buffer, the frames it has handed out that were neither returned nor cleared, and what
happened so far. -/
structure Session where
  buffer : PacketBuffer
  pending : List RtpFrameObject
  log : List Event

inductive SessionOp
  | insertPacket (packet : VCMPacket)
  | returnFrame (frame : RtpFrameObject)
  | clearTo (seqNum : BitVec 16)
  | clear

/-- All packets of the frame are buffered. -/
def buffered (b : PacketBuffer) (f : RtpFrameObject) : Bool :=
  f.numbers.all fun x => (lookup b x).isSome

/-- The frame objects live as long as they are pending: only those are returned, each once, and a
frame that loses a packet to `ClearTo` or `Clear` is no longer pending. -/
def Session.step (t : Session) (op : SessionOp) (t' : Session) : Prop :=
  match op with
  | .insertPacket packet =>
      ∃ fuel ret frames, insertPacket fuel t.buffer packet = some (t'.buffer, ret, frames) ∧
        t'.pending = t.pending ++ frames ∧
        t'.log = t.log ++
          (if (storePacket t.buffer packet).2 = none then [.stored packet] else []) ++
          frames.map .handed
  | .returnFrame f =>
      f ∈ t.pending ∧ t' = { t with
        buffer := returnFrame t.buffer f.firstSeqNum f.lastSeqNum
        pending := t.pending.erase f }
  | .clearTo s =>
      t' = { t with
        buffer := clearTo t.buffer s
        pending := t.pending.filter (buffered (clearTo t.buffer s)) }
  | .clear =>
      t' = { t with
        buffer := clear t.buffer
        pending := t.pending.filter (buffered (clear t.buffer)) }

def Session.start (startSize maxSize : Nat) : Session := ⟨create startSize maxSize, [], []⟩

/-- The packet with number `x`. -/
def packetAt (b : PacketBuffer) (x : BitVec 16) : VCMPacket := ((lookup b x).map (·.2)).getD {}

/-- A frame that was handed out: its packets are buffered and marked as part of a frame. -/
structure Owned (b : PacketBuffer) (f : RtpFrameObject) : Prop where
  marked : ∀ x, Covers f x → ∃ c p, lookup b x = some (c, p) ∧ c.frameCreated = true
  spans : Spans b f
  frameSize : f.frameSize = (f.numbers.map fun x => (packetAt b x).sizeBytes).sum

/-- The frame's packets stay in place. -/
theorem Owned.kept (h : Owned b f) (hspans : Spans b' f)
    (hkeep : ∀ x c p, Covers f x → lookup b x = some (c, p) → c.frameCreated →
      ∃ c', lookup b' x = some (c', p) ∧ c'.frameCreated) : Owned b' f := by
  have hkept : ∀ x, Covers f x → ∃ c p c', lookup b x = some (c, p) ∧ lookup b' x = some (c', p) ∧
      c'.frameCreated := by
    intro x hx
    obtain ⟨c, p, hl, hc⟩ := h.marked x hx
    obtain ⟨c', hl', hc'⟩ := hkeep x c p hx hl hc
    exact ⟨c, p, c', hl, hl', hc'⟩
  refine ⟨fun x hx => ?_, hspans, ?_⟩
  · obtain ⟨_, p, c', _, hl', hc'⟩ := hkept x hx
    exact ⟨c', p, hl', hc'⟩
  rw [h.frameSize]
  refine congrArg sum (map_congr_left fun x hx => ?_)
  obtain ⟨c, p, c', hl, hl', _⟩ := hkept x ((f.mem_numbers x).mp hx)
  unfold packetAt
  rw [hl, hl']
  rfl

/-- The numbers of a frame, counted from its last one. -/
theorem numbers_reverse {n : Nat} (hn : n < 65536)
    (hfirst : f.firstSeqNum = f.lastSeqNum - BitVec.ofNat 16 n) :
    f.numbers.reverse = (range (n + 1)).map fun m => f.lastSeqNum - BitVec.ofNat 16 m := by
  unfold RtpFrameObject.numbers
  rw [count_eq hn hfirst, ← map_reverse]
  refine ext_getElem (by simp) fun i h1 h2 => ?_
  simp only [length_map, length_reverse, length_range] at h1
  simp only [getElem_map, getElem_reverse, getElem_range, length_range]
  bv_omega

/-- The size of a frame is the sum of its packets' sizes. -/
theorem HandedFrame.frameSize_eq {e n : Nat} (h : HandedFrame b e n f) :
    f.frameSize = (f.numbers.map fun x => (packetAt b x).sizeBytes).sum := by
  rw [h.frameSize, ← sum_reverse, ← map_reverse, numbers_reverse h.lt h.firstSeqNum, map_map]
  refine congrArg sum (map_congr_left fun m hm => ?_)
  show _ = (packetAt b (f.lastSeqNum - BitVec.ofNat 16 m)).sizeBytes
  unfold packetAt
  rw [(h.run m (by have := mem_range.mp hm; omega)).2]
  rfl

/-- The invariant of a session. -/
structure Tracked (t : Session) : Prop where
  inv : Inv t.buffer
  closed : Closed t.buffer
  owned : ∀ f, f ∈ t.pending → Owned t.buffer f
  disjoint : t.pending.Pairwise Disjoint

/-- An H.264 frame that is handed out has packets of its own, all of them buffered, and no `ClearTo`
cuts an unfinished frame. -/
def WholeFrames (t : Session) : SessionOp → Prop
  | .insertPacket packet => ∀ fuel b' ret frames,
      insertPacket fuel t.buffer packet = some (b', ret, frames) →
        (∀ f, f ∈ frames → OfH264 (storePacket t.buffer packet).1 f →
          Held (storePacket t.buffer packet).1 f) ∧
        frames.Pairwise fun f g => OfH264 (storePacket t.buffer packet).1 g → Disjoint f g
  | .clearTo s => ¬ CutsFrame t.buffer (clearTo t.buffer s)
  | _ => True

instance : Std.Symm Disjoint := ⟨fun _ _ h x hg hf => h x hf hg⟩

theorem not_disjoint_self (f : RtpFrameObject) : ¬ Disjoint f f :=
  fun h => h f.firstSeqNum (covers_first f) (covers_first f)

theorem Tracked.nodup (h : Tracked t) : t.pending.Nodup := by
  refine List.Pairwise.imp ?_ h.disjoint
  rintro f g hd rfl
  exact not_disjoint_self f hd

theorem create_tracked {start max : Nat} (hstart : ∃ k, start = 2 ^ k) (hmax : ∃ k, max = 2 ^ k)
    (hle : start ≤ max) : Tracked (Session.start start max) := by
  refine ⟨create_inv hstart hmax hle, fun i hi => ?_, (fun _ hf => nomatch hf), .nil⟩
  have hu := hi.used
  rw [show (Session.start start max).buffer = create start max from rfl, create_info] at hu
  cases hu

/-! ## Inserting -/

/-- The buffer between storing the packet and looking for frames. -/
structure StoredState (t : Session) (p : VCMPacket) (b1 : PacketBuffer) : Prop where
  inv : Inv b1
  closed : Closed b1
  lookup_eq : ∀ x, lookup b1 x = lookup t.buffer x
  owned : ∀ f, f ∈ t.pending → Owned b1 f

theorem Expanded.spans (h : Expanded b b') (hw : WellFormed b) (hsmall : b.size < 65536)
    (hf : Spans b f) : Spans b' f := by
  have hsize := h.size
  refine ⟨by have := hf.count_le; omega, .inl ?_⟩
  obtain ⟨k, hk16, hk⟩ := hw.exponent hsmall
  rw [h.size, hk, ← Nat.pow_succ', show 65536 = 2 ^ 16 from rfl]
  exact Nat.pow_dvd_pow 2 hk16

theorem noteSeqNum_closed (h : Closed b) (s : BitVec 16) : Closed (noteSeqNum b s) := by
  obtain ⟨_, he⟩ := noteSeqNum_eq b s
  rw [he]
  exact fun i hi => h i (hi.of_kept rfl rfl fun _ => rfl)

theorem Spans.of_size (h : Spans b f) (hsize : b'.size = b.size) : Spans b' f :=
  ⟨by rw [hsize]; exact h.count_le, by rw [hsize]; exact h.dvd_or⟩

theorem storePacket_state (h : Tracked t) (p : VCMPacket) : ∃ b1, StoredState t p b1 ∧
      ((∃ ret, storePacket t.buffer p = (b1, some ret)) ∨
        ((b1.info (p.seqNum.toNat % b1.size)).used = false ∧
          storePacket t.buffer p = (storeAt b1 (p.seqNum.toNat % b1.size) p, none))) := by
  obtain ⟨b1, _, hP, _, hcases⟩ := storePacket_split (StoredState t p) p
    (fun b hb => ⟨noteSeqNum_inv hb.inv _, noteSeqNum_closed hb.closed _,
      fun x => (lookup_noteSeqNum b _ x).trans (hb.lookup_eq x), fun f hf => by
        obtain ⟨_, he⟩ := noteSeqNum_eq b p.seqNum
        rw [he]
        exact (hb.owned f hf).kept ((hb.owned f hf).spans.of_size rfl)
          fun x c q _ hl hc => ⟨c, hl, hc⟩⟩)
    (fun b b' hw hb hexp hsmall => ⟨hexp.inv hb.inv hsmall, hexp.closed hw hsmall hb.closed,
      fun x => (hexp.lookup_eq hw x).trans (hb.lookup_eq x),
      fun f hf => (hb.owned f hf).kept (hexp.spans hw hsmall (hb.owned f hf).spans)
        fun x c q _ hl hc => ⟨c, by rw [hexp.lookup_eq hw]; exact hl, hc⟩⟩)
    h.inv.wf ⟨h.inv, h.closed, fun _ => rfl, h.owned⟩
  exact ⟨b1, hP, hcases⟩

/-- A frame that was handed out keeps its packets when another packet is stored. -/
theorem Owned.storeAt (hw : WellFormed b) (h : Owned b f)
    (hfree : (b.info (p.seqNum.toNat % b.size)).used = false) :
    Owned (storeAt b (p.seqNum.toNat % b.size) p) f := by
  refine h.kept (h.spans.of_size rfl) fun x c q _ hl hc => ⟨c, ?_, hc⟩
  rw [lookup_storeAt hw (Nat.mod_lt _ hw.pos) hfree rfl, if_neg]
  · exact hl
  rintro rfl
  rw [(lookup_eq_some.mp hl).1] at hfree
  cases hfree

/-- The new frames join the pending ones. -/
theorem Tracked.handOut {pending frames : List RtpFrameObject} {log : List Event}
    (hw : WellFormed b) (howned : ∀ f ∈ pending, Owned b f) (hdisj : pending.Pairwise Disjoint)
    (h : HandedOut b frames b') (hinv : Inv b') (hclosed : Closed b') :
    Tracked ⟨b', pending ++ frames, log⟩ := by
  have hmark : ∀ x c p, lookup b x = some (c, p) → ∀ f, (f ∈ frames ∧ Covers f x) ∨
      c.frameCreated → ∃ c', lookup b' x = some (c', p) ∧ c'.frameCreated := by
    intro x c p hl f hf
    obtain ⟨c', hl', hc'⟩ := h.marked.created x c p hl
    exact ⟨c', hl', hc'.mpr (hf.elim (fun hf => .inr ⟨f, hf⟩) .inl)⟩
  refine ⟨hinv, hclosed, fun f hf => ?_, pairwise_append.mpr ⟨hdisj, h.disjoint, ?_⟩⟩
  · rcases mem_append.mp hf with hf | hf
    · exact (howned f hf).kept ((howned f hf).spans.of_size h.marked.same.size)
        fun x c p _ hl hc => hmark x c p hl f (.inr hc)
    obtain ⟨_, n, hn⟩ := h.handed f hf
    have hn' := hn.of_same h.marked.same
    refine ⟨fun x hx => ?_, hn'.spans (h.marked.same.wellFormed hw), hn'.frameSize_eq⟩
    obtain ⟨c, p, hl, _⟩ := h.held f hf x hx
    obtain ⟨c', hl', hc'⟩ := hmark x c p hl f (.inl ⟨hf, hx⟩)
    exact ⟨c', p, hl', hc'⟩
  · intro f hf g hg x hfx hgx
    obtain ⟨c, p, hl, hc⟩ := (howned f hf).marked x hfx
    obtain ⟨c', _, hl', hc'⟩ := h.held g hg x hgx
    rw [hl] at hl'
    cases hl'
    rw [hc] at hc'
    cases hc'

/-- A call of `InsertPacket` stores no packet, or it finds the frames in the buffer with the
packet. -/
theorem insertPacket_handedOut (h : Tracked t) {fuel : Nat} {ret : Bool}
    {frames : List RtpFrameObject} (hins : insertPacket fuel t.buffer p = some (b', ret, frames))
    (hwhole : WholeFrames t (.insertPacket p)) :
    (storePacket t.buffer p = (b', some ret) ∧ StoredState t p b' ∧ frames = []) ∨
      ∃ b1, storePacket t.buffer p = (b1, none) ∧
        (∀ x, lookup b1 x = if x = p.seqNum then some (storedInfo p, p) else lookup t.buffer x) ∧
        (∀ f ∈ t.pending, Owned b1 f) ∧ HandedOut b1 frames b' ∧ Inv b' ∧ Closed b' := by
  obtain ⟨hheld, hdisj⟩ := hwhole fuel b' ret frames hins
  obtain ⟨b1, hb1, ⟨_, hst⟩ | ⟨hfree, hst⟩⟩ := storePacket_state h p
  · left
    unfold insertPacket at hins
    rw [hst] at hins
    cases hins
    exact ⟨hst, hb1, rfl⟩
  right
  rw [hst] at hheld hdisj
  unfold insertPacket at hins
  rw [hst] at hins
  dsimp only at hins
  split at hins
  · cases hins
  rename_i _ _ hff
  cases hins
  have hw := hb1.inv.wf
  have hi := Nat.mod_lt p.seqNum.toNat hw.pos
  obtain ⟨hinv, hclosed, hemits⟩ := findFrames_emits (storeAt_inv hb1.inv hi hfree p rfl)
    (storeAt_closedBut hw hb1.closed hi rfl) hff
  refine ⟨_, hst, fun x => ?_, fun f hf => (hb1.owned f hf).storeAt hw hfree,
    hemits.handedOut hheld hdisj, hinv, hclosed⟩
  rw [lookup_storeAt hw hi hfree rfl, hb1.lookup_eq]

theorem tracked_insertPacket (h : Tracked t) (hwhole : WholeFrames t (.insertPacket p))
    (hstep : t.step (.insertPacket p) t') : Tracked t' := by
  have hw := (storePacket_wellFormed h.inv.wf p).1
  obtain ⟨_, _, _, hins, hpending, _⟩ := hstep
  obtain ⟨_, _, _⟩ := t'
  dsimp only at hins hpending
  subst hpending
  rcases insertPacket_handedOut h hins hwhole with
    ⟨_, hb, rfl⟩ | ⟨b1, hst, _, howned, hout, hinv, hclosed⟩
  · rw [append_nil]
    exact ⟨hb.inv, hb.closed, hb.owned, h.disjoint⟩
  rw [hst] at hw
  exact Tracked.handOut hw howned h.disjoint hout hinv hclosed

/-! ## Returning and clearing -/

/-- Returning a frame that has packets of its own does not cut an unfinished frame. -/
theorem returnFrame_keeps (hinv : Inv b) (hf : Owned b f) :
    ¬ CutsFrame b (returnFrame b f.firstSeqNum f.lastSeqNum) := by
  have hfreed := returnFrame_freed hinv.wf.shaped hinv.wf.pos f.firstSeqNum f.lastSeqNum
  rintro ⟨i, hi, ho, hb, hu, hu'⟩
  have hkept := hfreed.info_eq ho.1
  rw [hkept] at ho hb
  cases hinv.rooted i hi ho with
  | first _ _ hb' => rw [hb] at hb'; cases hb'
  | next _ _ _ _ hr =>
    -- the open slot before `i` is in no frame, so its packet is not one of the frame's
    have hj := hr.lt
    have hl := hinv.wf.lookup_slot hj hu
    have hret := lookup_returnFrame hinv.wf.shaped hf.spans
      (b.info (prevIndex b.size i)).seqNum
    split at hret
    · next hcov =>
      obtain ⟨c, p, hl', hc⟩ := hf.marked _ hcov.1
      rw [hl] at hl'
      cases hl'
      rw [hr.open.2.2] at hc
      cases hc
    · rw [hl] at hret
      obtain ⟨hu'', _⟩ := lookup_eq_some.mp hret
      rw [hfreed.size, hinv.wf.slot _ hj hu, hu'] at hu''
      cases hu''

theorem tracked_returnFrame (h : Tracked t) (hstep : t.step (.returnFrame f) t') : Tracked t' := by
  obtain ⟨hf, rfl⟩ := hstep
  have hs := h.inv.wf.shaped
  have hown := h.owned f hf
  have hfreed := returnFrame_freed hs h.inv.wf.pos f.firstSeqNum f.lastSeqNum
  refine ⟨hfreed.inv h.inv (returnFrame_keeps h.inv hown), hfreed.closed h.closed,
    fun g hg => ?_, h.disjoint.sublist erase_sublist⟩
  obtain ⟨hne, hg⟩ := (List.Nodup.mem_erase_iff h.nodup).mp hg
  have hdisj := h.disjoint.forall hf hg hne.symm
  refine (h.owned g hg).kept ((h.owned g hg).spans.of_size hfreed.size)
    fun x c p hx hl hc => ⟨c, ?_, hc⟩
  rw [lookup_returnFrame hs hown.spans, if_neg fun hcov => hdisj x hcov.1 hx]
  exact hl

/-- What `ClearTo` leaves it leaves as it is. -/
theorem lookup_clearTo (hw : WellFormed b) {s x : BitVec 16} {c : ContinuityInfo}
    (h : lookup (clearTo b s) x = some (c, p)) : lookup b x = some (c, p) := by
  have hfreed := clearTo_freed hw.shaped hw.pos s
  by_cases hrec : b.firstPacketReceived
  · obtain ⟨hu, hseq, rfl, rfl⟩ := lookup_eq_some.mp h
    rw [hfreed.size] at hu hseq ⊢
    obtain ⟨hinfo, hpacket⟩ := clearTo_slots hw.shaped hw.pos hrec s (x.toNat % b.size)
    have hnot : ¬ Walked b s (x.toNat % b.size) := by
      intro hwalk
      rw [hinfo, if_pos hwalk] at hu
      cases hu
    rw [hinfo, if_neg hnot] at hu hseq ⊢
    rw [hpacket hnot]
    exact lookup_eq_some.mpr ⟨hu, hseq, rfl, rfl⟩
  · have hsame : clearTo b s = b := by
      unfold clearTo
      rw [if_pos (by simpa using hrec)]
    rwa [hsame] at h

/-- Frames that are still buffered after slots were freed. -/
theorem tracked_freed (h : Tracked t) (hfreed : Freed t.buffer b') (hcut : ¬ CutsFrame t.buffer b')
    (hkeep : ∀ x c p, lookup b' x = some (c, p) → lookup t.buffer x = some (c, p)) :
    Tracked { t with buffer := b', pending := t.pending.filter (buffered b') } := by
  refine ⟨hfreed.inv h.inv hcut, hfreed.closed h.closed, fun f hf => ?_, h.disjoint.filter _⟩
  obtain ⟨hmem, hbuf⟩ := mem_filter.mp hf
  refine (h.owned f hmem).kept ((h.owned f hmem).spans.of_size hfreed.size)
    fun x c p hx hl hc => ?_
  have hsome := all_eq_true.mp hbuf x ((f.mem_numbers x).mpr hx)
  obtain ⟨⟨c', p'⟩, hl'⟩ := Option.isSome_iff_exists.mp hsome
  have := hkeep x c' p' hl'
  rw [hl] at this
  cases this
  exact ⟨c, hl', hc⟩

/-- **Every step keeps the invariant of the session.** -/
theorem tracked_step (h : Tracked t) {op : SessionOp} (hok : WholeFrames t op)
    (hstep : t.step op t') : Tracked t' := by
  cases op with
  | insertPacket p => exact tracked_insertPacket h hok hstep
  | returnFrame f => exact tracked_returnFrame h hstep
  | clearTo s =>
    cases hstep
    exact tracked_freed h (clearTo_freed h.inv.wf.shaped h.inv.wf.pos s) hok
      fun _ _ _ => lookup_clearTo h.inv.wf
  | clear =>
    cases hstep
    obtain ⟨hfreed, hu⟩ := clear_freed h.inv.wf.shaped
    refine tracked_freed h hfreed ?_ fun x c p hl => ?_
    · rintro ⟨i, hi, ho, _⟩
      exact Bool.noConfusion ((hu i hi).symm.trans ho.1)
    · rw [lookup_clear h.inv.wf] at hl
      cases hl

end WebRtc.Video.Packets
