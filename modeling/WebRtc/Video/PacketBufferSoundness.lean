import WebRtc.Video.PacketBufferSessions

/-! Soundness of the frames handed out: without H.264 and without clearing, every frame is complete
when it is handed out, and no packet is handed out twice. -/

namespace WebRtc.Video.Packets
open SequenceNumber Transition List

variable {log : List Event} {p : VCMPacket} {t t' : Session} {b : PacketBuffer}

/-! ## The log -/

/-- Number `x` was handed out in a frame and not stored since. -/
def TakenIn (log : List Event) (x : BitVec 16) : Prop :=
  ∃ before f after, log = before ++ .handed f :: after ∧ Covers f x ∧
    ∀ p, .stored p ∈ after → p.seqNum ≠ x

/-- A number that two frames have in common was stored between them. -/
def HandedOnce (log : List Event) : Prop :=
  ∀ before f between g after,
    log = before ++ .handed f :: (between ++ .handed g :: after) →
      ∀ x, Covers f x → Covers g x → ∃ p, .stored p ∈ between ∧ p.seqNum = x

theorem append_eq_concat {α : Type} {l before after : List α} {e a : α}
    (h : l ++ [e] = before ++ a :: after) :
    (after = [] ∧ l = before ∧ e = a) ∨ ∃ rest, after = rest ++ [e] ∧ l = before ++ a :: rest := by
  rcases append_eq_append_iff.mp h.symm with ⟨rest, rfl, hrest⟩ | ⟨rest, rfl, hrest⟩
  · rcases cons_eq_append_iff.mp hrest with ⟨rfl, he⟩ | ⟨rest, rfl, rfl⟩
    · cases he
      exact .inl ⟨rfl, append_nil _, rfl⟩
    · exact .inr ⟨rest, rfl, rfl⟩
  · cases rest with
    | nil => cases hrest; exact .inl ⟨rfl, (append_nil _).symm, rfl⟩
    | cons => simp at hrest

theorem takenIn_stored {x : BitVec 16} (h : TakenIn (log ++ [.stored p]) x) :
    TakenIn log x ∧ x ≠ p.seqNum := by
  obtain ⟨before, f, _, hlog, hcov, hnot⟩ := h
  rcases append_eq_concat hlog with ⟨_, _, he⟩ | ⟨rest, rfl, rfl⟩
  · cases he
  · exact ⟨⟨before, f, rest, rfl, hcov, fun q hm => hnot q (mem_append_left _ hm)⟩,
      (hnot p (by simp)).symm⟩

theorem takenIn_handed {g : RtpFrameObject} {x : BitVec 16} (h : TakenIn (log ++ [.handed g]) x) :
    TakenIn log x ∨ Covers g x := by
  obtain ⟨before, f, _, hlog, hcov, hnot⟩ := h
  rcases append_eq_concat hlog with ⟨_, _, he⟩ | ⟨rest, rfl, rfl⟩
  · cases he
    exact .inr hcov
  · exact .inl ⟨before, f, rest, rfl, hcov, fun q hm => hnot q (mem_append_left _ hm)⟩

theorem handedOnce_stored (h : HandedOnce log) (p : VCMPacket) :
    HandedOnce (log ++ [.stored p]) := by
  intro before f between g _ hlog x hf hg
  rw [← cons_append, ← append_assoc] at hlog
  rcases append_eq_concat hlog with ⟨_, _, he⟩ | ⟨rest, rfl, hrest⟩
  · cases he
  · rw [append_assoc, cons_append] at hrest
    exact h before f between g rest hrest x hf hg

theorem handedOnce_handed (h : HandedOnce log) {g : RtpFrameObject}
    (hnew : ∀ x, Covers g x → ¬ TakenIn log x) : HandedOnce (log ++ [.handed g]) := by
  intro before f between g' _ hlog x hf hg
  rw [← cons_append, ← append_assoc] at hlog
  rcases append_eq_concat hlog with ⟨_, hl, he⟩ | ⟨rest, rfl, hrest⟩
  · cases he
    by_contra hnot
    exact hnew x hg ⟨before, f, between, hl, hf, fun p hp hpx => hnot ⟨p, hp, hpx⟩⟩
  · rw [append_assoc, cons_append] at hrest
    exact h before f between g' rest hrest x hf hg

/-- The frames of one call. -/
theorem handedOnce_frames (h : HandedOnce log) {frames : List RtpFrameObject}
    (hdisj : frames.Pairwise Disjoint) (hnew : ∀ f ∈ frames, ∀ x, Covers f x → ¬ TakenIn log x) :
    HandedOnce (log ++ frames.map .handed) ∧ ∀ x, TakenIn (log ++ frames.map .handed) x →
      TakenIn log x ∨ ∃ f ∈ frames, Covers f x := by
  induction frames generalizing log with
  | nil =>
    rw [map_nil, append_nil]
    exact ⟨h, fun x hx => .inl hx⟩
  | cons g frames ih =>
    obtain ⟨hg, hrest⟩ := pairwise_cons.mp hdisj
    obtain ⟨honce, htaken⟩ := ih (handedOnce_handed h (hnew g (.head _))) hrest
      (fun f hf x hx ht => (takenIn_handed ht).elim
        (hnew f (.tail _ hf) x hx) fun hgx => hg f hf x hgx hx)
    rw [map_cons, ← singleton_append, ← append_assoc]
    refine ⟨honce, fun x hx => ?_⟩
    rcases htaken x hx with ht | ⟨f, hf, hfx⟩
    · exact (takenIn_handed ht).imp_right fun hgx => ⟨g, .head _, hgx⟩
    · exact .inr ⟨f, .tail _ hf, hfx⟩

/-! ## Sessions without H.264 and without clearing -/

/-- `InsertPacket` of packets that are not H.264, and `ReturnFrame`. -/
def PlainCalls (_ : Session) : SessionOp → Prop
  | .insertPacket packet => packet.codec ≠ .h264
  | .returnFrame _ => True
  | .clearTo _ => False
  | .clear => False

def NoH264 (b : PacketBuffer) : Prop := ∀ x c p, lookup b x = some (c, p) → p.codec ≠ .h264

/-- The invariant of such a session. -/
structure Sound (t : Session) : Prop where
  tracked : Tracked t
  noH264 : NoH264 t.buffer
  taken : ∀ x, TakenIn t.log x → ∀ c p, lookup t.buffer x = some (c, p) → c.frameCreated = true
  once : HandedOnce t.log

theorem noH264_storePacket (h : Tracked t) (ht : NoH264 t.buffer) (hp : p.codec ≠ .h264) :
    NoH264 (storePacket t.buffer p).1 := by
  intro x c q hl
  obtain ⟨_, hb1, ⟨_, hst⟩ | ⟨hfree, hst⟩⟩ := storePacket_state h p
  · rw [hst, hb1.lookup_eq] at hl
    exact ht x c q hl
  · rw [hst, lookup_storeAt hb1.inv.wf (Nat.mod_lt _ hb1.inv.wf.pos) hfree rfl, hb1.lookup_eq] at hl
    split at hl
    · cases hl
      exact hp
    · exact ht x c q hl

theorem not_ofH264 (h : NoH264 b) (f : RtpFrameObject) : ¬ OfH264 b f :=
  fun ⟨c, p, hl, hp⟩ => h _ c p hl hp

/-- Frames of other codecs are whole. -/
theorem wholeFrames_of_noH264 (h : Tracked t) (ht : NoH264 t.buffer) (hp : p.codec ≠ .h264) :
    WholeFrames t (.insertPacket p) := by
  have hno := noH264_storePacket h ht hp
  refine fun fuel b' ret frames _ => ⟨fun f _ h264 => absurd h264 (not_ofH264 hno f), ?_⟩
  exact pairwise_of_forall fun f g h264 => absurd h264 (not_ofH264 hno g)

theorem sound_insertPacket (h : Sound t) (hp : p.codec ≠ .h264)
    (hstep : t.step (.insertPacket p) t') : Sound t' := by
  have hwhole := wholeFrames_of_noH264 h.tracked h.noH264 hp
  have htracked := tracked_step h.tracked hwhole hstep
  have hno := noH264_storePacket h.tracked h.noH264 hp
  obtain ⟨_, _, _, hins, _, hlog⟩ := hstep
  rcases insertPacket_handedOut h.tracked hins hwhole with
    ⟨hst, hb, rfl⟩ | ⟨b1, hst, hlookup, _, hout, _, _⟩ <;> rw [hst] at hlog hno
  · simp only [reduceCtorEq, ↓reduceIte, map_nil, append_nil] at hlog
    refine ⟨htracked, hno, fun x hx c q hl => ?_, hlog ▸ h.once⟩
    rw [hb.lookup_eq] at hl
    exact h.taken x (hlog ▸ hx) c q hl
  -- a number that counts as taken was stored in a frame before, or its slot is empty
  have htaken2 : ∀ x, TakenIn (t.log ++ [.stored p]) x → ∀ c q, lookup b1 x = some (c, q) →
      c.frameCreated := by
    intro x hx c q hl
    obtain ⟨hx, hne⟩ := takenIn_stored hx
    rw [hlookup, if_neg hne] at hl
    exact h.taken x hx c q hl
  obtain ⟨honce, htaken⟩ := handedOnce_frames (handedOnce_stored h.once p) hout.disjoint
    (fun f hf x hx ht => by
      obtain ⟨c, q, hl, hc⟩ := hout.held f hf x hx
      rw [htaken2 x ht c q hl] at hc
      cases hc)
  refine ⟨htracked, fun x c q hl => ?_, fun x hx c q hl => ?_, hlog ▸ honce⟩
  · obtain ⟨c', hl', _⟩ := hout.marked.same.lookup_some hl
    exact hno x c' q hl'
  obtain ⟨c', hl', _⟩ := hout.marked.same.lookup_some hl
  obtain ⟨_, hl'', hc''⟩ := hout.marked.created x c' q hl'
  rw [hl] at hl''
  cases hl''
  exact hc''.mpr ((htaken x (hlog ▸ hx)).imp_left fun ht => htaken2 x ht c' q hl')

theorem sound_returnFrame (h : Sound t) {f : RtpFrameObject} (hstep : t.step (.returnFrame f) t') :
    Sound t' := by
  have htracked := tracked_returnFrame h.tracked hstep
  obtain ⟨hf, rfl⟩ := hstep
  have hkeep : ∀ x c p,
      lookup (returnFrame t.buffer f.firstSeqNum f.lastSeqNum) x = some (c, p) →
        lookup t.buffer x = some (c, p) := by
    intro x c p hl
    rw [lookup_returnFrame h.tracked.inv.wf.shaped (h.tracked.owned f hf).spans] at hl
    split at hl
    · cases hl
    · exact hl
  exact ⟨htracked, fun x c p hl => h.noH264 x c p (hkeep x c p hl),
    fun x hx c p hl => h.taken x hx c p (hkeep x c p hl), h.once⟩

theorem sound_step (h : Sound t) {op : SessionOp} (hok : PlainCalls t op) (hstep : t.step op t') :
    Sound t' := by
  cases op with
  | insertPacket p => exact sound_insertPacket h hok hstep
  | returnFrame f => exact sound_returnFrame h hstep
  | clearTo s => exact hok.elim
  | clear => exact hok.elim

theorem start_sound {start max : Nat} (hstart : ∃ k, start = 2 ^ k) (hmax : ∃ k, max = 2 ^ k)
    (hle : start ≤ max) : Sound (Session.start start max) := by
  have hempty : ∀ x, lookup (Session.start start max).buffer x = none := lookup_create start max
  refine ⟨create_tracked hstart hmax hle, fun x c p hl => ?_, fun x _ c p hl => ?_, ?_⟩
  · rw [hempty] at hl
    cases hl
  · rw [hempty] at hl
    cases hl
  intro _ f _ g _ hlog
  have := congrArg length hlog
  simp [Session.start] at this

/-! ## The frames -/

/-- The frame as the buffer shows it when it is handed out. -/
structure SoundFrame (b : PacketBuffer) (f : RtpFrameObject) : Prop where
  stored : ∀ x, Covers f x → (b.info (x.toNat % b.size)).used = true ∧
    (b.info (x.toNat % b.size)).seqNum = x
  begin : ∀ x, Covers f x → ((b.info (x.toNat % b.size)).frameBegin = true ↔ x = f.firstSeqNum)
  last : (b.info (f.lastSeqNum.toNat % b.size)).frameEnd = true

theorem soundFrame_of {b' : PacketBuffer} {frames : List RtpFrameObject} (h : HandedOut b frames b')
    (hno : NoH264 b) {f : RtpFrameObject} (hf : f ∈ frames) : SoundFrame b' f := by
  have hlookup : ∀ x, Covers f x → ∃ c p, lookup b' x = some (c, p) := by
    intro x hx
    obtain ⟨c, p, hl, _⟩ := h.held f hf x hx
    obtain ⟨c', hl', _⟩ := h.marked.created x c p hl
    exact ⟨c', p, hl'⟩
  have hdel := h.marked.same.delimited (h.delimited f hf (not_ofH264 hno f))
  refine ⟨fun x hx => ?_, fun x hx => ?_, ?_⟩
  · obtain ⟨c, p, hl⟩ := hlookup x hx
    exact ⟨(lookup_eq_some.mp hl).1, (lookup_eq_some.mp hl).2.1⟩
  · obtain ⟨c, p, hl⟩ := hlookup x hx
    rw [(lookup_eq_some.mp hl).2.2.1]
    exact hdel.begin x c p hx hl
  obtain ⟨c, p, hl⟩ := hlookup f.lastSeqNum (covers_last f)
  rw [(lookup_eq_some.mp hl).2.2.1]
  exact hdel.last c p hl

/-- Without H.264 every call returns. -/
theorem insertPacket_returns (h : Sound t) (hp : p.codec ≠ .h264) :
    ∃ fuel b' ret frames, insertPacket fuel t.buffer p = some (b', ret, frames) := by
  have hno := noH264_storePacket h.tracked h.noH264 hp
  have hst := storePacket_wellFormed h.tracked.inv.wf p
  have hharmless : Harmless t.buffer (.insertPacket p) := by
    rintro - ⟨i, hi, _, hcodec, hall⟩
    exact hno _ _ _ (hst.1.lookup_slot hi (hall i hi).1) hcodec
  obtain ⟨b', fuel, hs⟩ := step_returns h.tracked.inv hharmless
  simp only [step, Option.map_eq_some_iff] at hs
  obtain ⟨⟨b, ret, frames⟩, hins, _⟩ := hs
  exact ⟨fuel, b, ret, frames, hins⟩

/-- **Frame soundness.** In every session without H.264 packets and without clearing, `InsertPacket`
returns and each frame it hands out is complete, begins with its first packet and with no other, and
ends with its last one; a number that two frames have in common was stored between them. -/
theorem frames_sound {start max : Nat} (hstart : ∃ k, start = 2 ^ k) (hmax : ∃ k, max = 2 ^ k)
    (hle : start ≤ max) {t : Session}
    (hr : Reaches (Guarded PlainCalls Session.step) (Session.start start max) t) :
    HandedOnce t.log ∧ ∀ p : VCMPacket, p.codec ≠ .h264 →
      (∃ fuel b' ret frames, insertPacket fuel t.buffer p = some (b', ret, frames)) ∧
      ∀ fuel b' ret frames, insertPacket fuel t.buffer p = some (b', ret, frames) →
        ∀ f, f ∈ frames → SoundFrame b' f := by
  have h : Sound t := hr.invariant Sound (start_sound hstart hmax hle)
    fun _ _ _ h ⟨hok, hs⟩ => sound_step h hok hs
  refine ⟨h.once, fun p hp => ⟨insertPacket_returns h hp, fun fuel b' ret frames hins f hf => ?_⟩⟩
  have hno := noH264_storePacket h.tracked h.noH264 hp
  rcases insertPacket_handedOut h.tracked hins (wholeFrames_of_noH264 h.tracked h.noH264 hp) with
    ⟨_, _, rfl⟩ | ⟨b1, hst, _, _, hout, _, _⟩
  · cases hf
  · rw [hst] at hno
    exact soundFrame_of hout hno hf

/-- The buffer of four slots after the first packet of a frame. -/
def oneBuffered : PacketBuffer :=
  ((insertPacket 4 (create 4 4) { isFirstPacketInFrame := true }).map (·.1)).getD (create 4 4)

/-- The second packet completes the frame. -/
theorem frames_sound_two_packets :
    ∃ b' f, insertPacket 4 oneBuffered { seqNum := 1, markerBit := true } = some (b', true, [f]) ∧
      f.firstSeqNum = 0 ∧ f.lastSeqNum = 1 ∧ SoundFrame b' f := by
  have hstep : Guarded PlainCalls Session.step (Session.start 4 4)
      (.insertPacket { isFirstPacketInFrame := true })
        ⟨oneBuffered, [], [.stored { isFirstPacketInFrame := true }]⟩ :=
    ⟨(by decide : VideoCodecType.unknown ≠ .h264), 4, true, [], by decide, rfl, by decide⟩
  have hsome : (insertPacket 4 oneBuffered { seqNum := 1, markerBit := true }).map
      (fun r => (r.2.1, r.2.2.map fun f => (f.firstSeqNum, f.lastSeqNum))) =
        some (true, [(0, 1)]) := by decide
  obtain ⟨⟨b', _, _⟩, hins, hr⟩ := Option.map_eq_some_iff.mp hsome
  simp only [Prod.mk.injEq] at hr
  obtain ⟨rfl, hframes⟩ := hr
  obtain ⟨f, rfl, hf⟩ := map_eq_singleton_iff.mp hframes
  simp only [Prod.mk.injEq] at hf
  have hsound := (frames_sound ⟨2, rfl⟩ ⟨2, rfl⟩ (Nat.le_refl 4) (Reaches.refl.next _ hstep)).2
    { seqNum := 1, markerBit := true } (by decide)
  exact ⟨b', f, hins, hf.1, hf.2, hsound.2 4 b' true [f] hins f (.head _)⟩

end WebRtc.Video.Packets
