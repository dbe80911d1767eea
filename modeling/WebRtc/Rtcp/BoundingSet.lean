import WebRtc.Lib.Transition
import WebRtc.Rtcp.RtcpReceiver

/-! The bounding set that `RTCPReceiver` keeps for a remote sender. `HandleTmmbn` appends the items
of a notification to those stored before, and nothing removes them as long as the sender's
`ReceiveInformation` exists. In every run the stored set is therefore the concatenation of all
notifications handled since then, which is the latest one only if the earlier ones were empty. -/

namespace WebRtc.Rtcp.RtcpReceiver

open OrderedMap Transition TransportFeedback List

variable {block : CommonHeader} {s : RtcpReceiver} {handled : Notifications}

/-! ## Runs -/

/-- The calls that change the receiver, each with the time of the clock where it is read. -/
inductive Call
  | incomingPacket (nowMs : Int) (packet : List Byte)
  | setRemoteSsrc (ssrc : BitVec 32)
  | setSsrcs (mainSsrc : BitVec 32)
  | tmmbrReceived (nowMs : Int)
  | updateReceiveInformationTimers (nowMs : Int)

/-- For each sender, the items of the TMMBNs handled since its `ReceiveInformation` was created,
the latest one last. -/
abbrev Notifications := BitVec 32 → List (List TmmbItem)

/-- The notifications after a block: a TMMBN counts if it parses and its sender is known. -/
def note (s : RtcpReceiver) (handled : Notifications) (block : CommonHeader) : Notifications :=
  match blockKind block, parseTmmbn block with
  | .tmmbn, some tmmbn => fun ssrc =>
    if ssrc = tmmbn.senderSsrc ∧ (s.getReceiveInformation ssrc).isSome then
      handled ssrc ++ [tmmbn.items]
    else handled ssrc
  | _, _ => handled

/-- The notifications after the blocks of a packet. -/
def noteBlocks (nowMs : Int) :
    List CommonHeader → RtcpReceiver × Bool → Notifications → Notifications
  | [], _, handled => handled
  | block :: blocks, acc, handled =>
    noteBlocks nowMs blocks (handleBlock nowMs acc block) (note acc.1 handled block)

/-- A receiver with what it has been notified of. -/
structure Observed where
  receiver : RtcpReceiver
  handled : Notifications

/-- What one call does to the receiver and to the record of its notifications. -/
def Observed.after (o : Observed) : Call → Observed
  | .incomingPacket nowMs packet =>
    ⟨(o.receiver.incomingPacket nowMs packet).2,
      noteBlocks nowMs (blocks packet).1 (o.receiver, false) o.handled⟩
  | .setRemoteSsrc ssrc => ⟨o.receiver.setRemoteSsrc ssrc, o.handled⟩
  | .setSsrcs mainSsrc => ⟨o.receiver.setSsrcs mainSsrc, o.handled⟩
  | .tmmbrReceived nowMs => ⟨(o.receiver.tmmbrReceived nowMs).2, o.handled⟩
  | .updateReceiveInformationTimers nowMs =>
    let receiver := (o.receiver.updateReceiveInformationTimers nowMs).2
    -- an erased entry has been notified of nothing
    ⟨receiver, fun ssrc =>
      if (receiver.getReceiveInformation ssrc).isSome then o.handled ssrc else []⟩

def Step (o : Observed) (call : Call) (o' : Observed) : Prop := o' = o.after call

/-- A new receiver; the time of its oldest entry is not initialised. -/
def initial (oldestReceivedInfoMs : Int) : Observed :=
  ⟨{ oldestReceivedInfoMs := oldestReceivedInfoMs }, fun _ => []⟩

/-! ## What each handler does to the stored sets -/

/-- The bounding set stored for a sender that is known. -/
def tmmbnOf (s : RtcpReceiver) (ssrc : BitVec 32) : Option (List TmmbItem) :=
  (s.getReceiveInformation ssrc).map (·.tmmbn)

theorem tmmbnOf_updateInfo (s : RtcpReceiver) (k ssrc : BitVec 32)
    (f : ReceiveInformation → ReceiveInformation) {g : List TmmbItem → List TmmbItem}
    (hf : ∀ info, (f info).tmmbn = g info.tmmbn) : (s.updateInfo k f).tmmbnOf ssrc =
      if ssrc = k then (s.tmmbnOf ssrc).map g else s.tmmbnOf ssrc := by
  simp only [tmmbnOf, getReceiveInformation, updateInfo, find_modify]
  split <;> simp [Function.comp_def, hf]

/-- An update that leaves the bounding set of an entry alone. -/
theorem tmmbnOf_updateInfo_same (s : RtcpReceiver) (k ssrc : BitVec 32)
    (f : ReceiveInformation → ReceiveInformation) (hf : ∀ info, (f info).tmmbn = info.tmmbn) :
    (s.updateInfo k f).tmmbnOf ssrc = s.tmmbnOf ssrc := by
  rw [tmmbnOf_updateInfo s k ssrc f (g := id) hf]
  simp

variable (nowMs : Int)

theorem tmmbnOf_createReceiveInformation (k ssrc : BitVec 32) (s : RtcpReceiver) :
    (s.createReceiveInformation nowMs k).tmmbnOf ssrc =
      if ssrc = k then some ((s.tmmbnOf ssrc).getD []) else s.tmmbnOf ssrc := by
  refine (tmmbnOf_updateInfo_same _ k ssrc _ ?_).trans ?_
  · exact fun _ => rfl
  simp only [tmmbnOf, getReceiveInformation, find_insertNew]
  split
  · next h =>
    subst h
    cases find ssrc s.receivedInfos <;> rfl
  · rfl

theorem foldl_push (stored items : List TmmbItem) :
    items.foldl (fun stored item => stored ++ [item]) stored = stored ++ items := by
  induction items generalizing stored with
  | nil => simp
  | cons item items ih => simp [ih]

/-- `HandleTmmbn` appends to what is stored. -/
theorem tmmbnOf_handleTmmbn {tmmbn : TmmbPacket} (h : parseTmmbn block = some tmmbn)
    (s : RtcpReceiver) (ssrc : BitVec 32) : (s.handleTmmbn block).tmmbnOf ssrc =
      if ssrc = tmmbn.senderSsrc then (s.tmmbnOf ssrc).map (· ++ tmmbn.items)
      else s.tmmbnOf ssrc := by
  simp only [handleTmmbn, h]
  exact tmmbnOf_updateInfo s _ ssrc _ fun info => foldl_push info.tmmbn tmmbn.items

theorem tmmbn_foldl_storeTmmbr (mainSsrc senderSsrc : BitVec 32)
    (requests : List TmmbItem) (info : ReceiveInformation) :
    (requests.foldl (storeTmmbr nowMs mainSsrc senderSsrc) info).tmmbn = info.tmmbn := by
  induction requests generalizing info with
  | nil => rfl
  | cons _ requests ih =>
    rw [foldl_cons, ih, storeTmmbr]
    split <;> rfl

theorem tmmbn_foldl_storeFir (mainSsrc : BitVec 32) (requests : List FirRequest)
    (info : ReceiveInformation) :
    (requests.foldl (storeFir nowMs mainSsrc) info).tmmbn = info.tmmbn := by
  induction requests generalizing info with
  | nil => rfl
  | cons _ requests ih =>
    rw [foldl_cons, ih, storeFir]
    split
    · rfl
    split
    · rfl
    · split <;> rfl

theorem tmmbnOf_tmmbrReceived (s : RtcpReceiver) (ssrc : BitVec 32) :
    (s.tmmbrReceived nowMs).2.tmmbnOf ssrc = s.tmmbnOf ssrc := by
  simp only [tmmbnOf, getReceiveInformation, tmmbrReceived]
  induction s.receivedInfos with
  | nil => rfl
  | cons _ _ ih =>
    simp only [map_cons, find]
    split
    · rfl
    · exact ih

/-- What the timers leave of the entries: some of them, with the sets they had. -/
theorem sweepInfos_spec (timeoutMs : Int) (infos : List (BitVec 32 × ReceiveInformation))
    (oldest : Int) (update : Bool) (hn : (keys infos).Nodup) :
    (keys (sweepInfos timeoutMs infos oldest update).1).Sublist (keys infos) ∧
      ∀ ssrc info, find ssrc (sweepInfos timeoutMs infos oldest update).1 = some info →
        (find ssrc infos).map (·.tmmbn) = some info.tmmbn := by
  induction infos generalizing oldest update with
  | nil => exact ⟨List.Sublist.refl _, fun ssrc info h => by cases h⟩
  | cons kv infos ih =>
    obtain ⟨k, entry⟩ := kv
    obtain ⟨hk, hn⟩ := nodup_cons.mp hn
    -- an entry that is kept, perhaps with other fields changed
    have hkeep : ∀ (oldest : Int) (update : Bool) (entry' : ReceiveInformation),
        entry'.tmmbn = entry.tmmbn →
        (keys ((k, entry') :: (sweepInfos timeoutMs infos oldest update).1)).Sublist
            (keys ((k, entry) :: infos)) ∧
          ∀ ssrc info, find ssrc ((k, entry') :: (sweepInfos timeoutMs infos oldest update).1) =
            some info → (find ssrc ((k, entry) :: infos)).map (·.tmmbn) = some info.tmmbn := by
      intro oldest update entry' hsame
      obtain ⟨hsub, hfind⟩ := ih oldest update hn
      refine ⟨hsub.cons_cons k, fun ssrc info h => ?_⟩
      unfold find at h ⊢
      split at h
      · cases h
        rw [if_pos ‹_›, Option.map_some, ← hsame]
      · rw [if_neg ‹_›]
        exact hfind ssrc info h
    unfold sweepInfos
    split
    · split
      · exact hkeep _ _ _ rfl
      · exact hkeep _ _ _ rfl
    split
    · -- an erased entry
      obtain ⟨hsub, hfind⟩ := ih oldest update hn
      refine ⟨hsub.cons k, fun ssrc info h => ?_⟩
      have hne : k ≠ ssrc := by
        rintro rfl
        exact hk (hsub.subset (mem_keys_of_find h))
      rw [find, if_neg hne]
      exact hfind ssrc info h
    · exact hkeep _ _ _ rfl

/-! ## The stored sets are the notifications -/

/-- What one TMMBN can carry: eight bytes for each item behind the two ssrcs. -/
def FitsPacket (items : List TmmbItem) : Prop :=
  kCommonFeedbackLength + tmmbItemLength * items.length ≤ 4 * 0xffff

structure Agrees (s : RtcpReceiver) (handled : Notifications) : Prop where
  nodup : (keys s.receivedInfos).Nodup
  unknown : ∀ ssrc, s.tmmbnOf ssrc = none → handled ssrc = []
  stored : ∀ ssrc items, s.tmmbnOf ssrc = some items → items = (handled ssrc).flatten
  fits : ∀ ssrc, ∀ items ∈ handled ssrc, FitsPacket items

variable (h : Agrees s handled)
include h

/-- A change that keeps the senders and their sets. -/
theorem Agrees.of_same {s' : RtcpReceiver}
    (hkeys : (keys s'.receivedInfos).Nodup) (hsame : ∀ ssrc, s'.tmmbnOf ssrc = s.tmmbnOf ssrc) :
    Agrees s' handled :=
  ⟨hkeys, fun ssrc hnone => h.unknown ssrc (hsame ssrc ▸ hnone),
    fun ssrc items hsome => h.stored ssrc items (hsame ssrc ▸ hsome), h.fits⟩

theorem Agrees.updateInfo (k : BitVec 32)
    (f : ReceiveInformation → ReceiveInformation) (hf : ∀ info, (f info).tmmbn = info.tmmbn) :
    Agrees (s.updateInfo k f) handled := by
  refine h.of_same ?_ fun ssrc => tmmbnOf_updateInfo_same s k ssrc f hf
  simpa [RtcpReceiver.updateInfo] using h.nodup

theorem Agrees.createReceiveInformation (k : BitVec 32) :
    Agrees (s.createReceiveInformation nowMs k) handled := by
  have hcase := tmmbnOf_createReceiveInformation nowMs k
  refine ⟨?_, fun ssrc hnone => ?_, fun ssrc items hsome => ?_, h.fits⟩
  · simpa [RtcpReceiver.createReceiveInformation, RtcpReceiver.updateInfo] using
      nodup_keys_insertNew ssrcLess k {} h.nodup
  · rw [hcase] at hnone
    split at hnone
    · cases hnone
    · exact h.unknown ssrc hnone
  rw [hcase] at hsome
  split at hsome
  · cases hold : s.tmmbnOf ssrc with
    | none =>
      rw [hold] at hsome
      cases hsome
      rw [h.unknown ssrc hold]
      rfl
    | some old =>
      rw [hold] at hsome
      cases hsome
      exact h.stored ssrc old hold
  · exact h.stored ssrc items hsome

omit h in
theorem length_parseTmmbItems (count : Nat) (bytes : List Byte) (items : List TmmbItem)
    (h : parseTmmbItems count bytes = some items) : items.length = count := by
  induction count generalizing bytes items with
  | zero => cases h; rfl
  | succ count ih =>
    obtain ⟨_, -, h⟩ := Option.bind_eq_some_iff.mp h
    obtain ⟨_, hrest, h⟩ := Option.bind_eq_some_iff.mp h
    cases h
    rw [length_cons, ih _ _ hrest]

omit h in
/-- A notification that was parsed fits a packet. -/
theorem fitsPacket_of_parse {tmmbn : TmmbPacket} (hsize : block.payload.length ≤ 4 * 0xffff)
    (h : parseTmmbn block = some tmmbn) : FitsPacket tmmbn.items := by
  unfold parseTmmbn parseTmmb at h
  dsimp only at h
  split at h
  · cases h
  split at h
  · cases h
  obtain ⟨_, hitems, h⟩ := Option.bind_eq_some_iff.mp h
  cases h
  have hlen := length_parseTmmbItems _ _ _ hitems
  simp only [FitsPacket, kCommonFeedbackLength, tmmbItemLength] at *
  omega

/-- The one handler that changes a stored set appends what is noted. -/
theorem Agrees.handleTmmbn (hkind : blockKind block = .tmmbn)
    (hsize : block.payload.length ≤ 4 * 0xffff) :
    Agrees (s.handleTmmbn block) (note s handled block) := by
  cases hp : parseTmmbn block with
  | none => simpa [RtcpReceiver.handleTmmbn, note, hkind, hp] using h
  | some tmmbn =>
    have hcase := tmmbnOf_handleTmmbn hp s
    have hknown : ∀ ssrc, (s.getReceiveInformation ssrc).isSome = (s.tmmbnOf ssrc).isSome :=
      fun ssrc => by simp [tmmbnOf]
    simp only [note, hkind, hp, hknown]
    refine ⟨?_, fun ssrc hnone => ?_, fun ssrc items hsome => ?_, fun ssrc items hmem => ?_⟩
    · simpa [RtcpReceiver.handleTmmbn, hp, RtcpReceiver.updateInfo] using h.nodup
    · rw [hcase] at hnone
      have hold : s.tmmbnOf ssrc = none := by
        split at hnone
        · simpa using hnone
        · exact hnone
      simpa [hold] using h.unknown ssrc hold
    · rw [hcase] at hsome
      by_cases hs : ssrc = tmmbn.senderSsrc
      · rw [if_pos hs] at hsome
        obtain ⟨old, hold, rfl⟩ := Option.map_eq_some_iff.mp hsome
        simp [hs ▸ hold, hs ▸ h.stored ssrc old hold, hs]
      · rw [if_neg hs] at hsome
        simpa [hs] using h.stored ssrc items hsome
    · split at hmem
      · rcases mem_append.mp hmem with hmem | hmem
        · exact h.fits ssrc items hmem
        · cases mem_singleton.mp hmem
          exact fitsPacket_of_parse hsize hp
      · exact h.fits ssrc items hmem

theorem Agrees.handleReport (sender : Option (BitVec 32)) :
    Agrees (s.handleReport nowMs sender) handled := by
  cases sender with
  | none => exact h
  | some k => exact h.createReceiveInformation nowMs k

theorem Agrees.handleTmmbr (block : CommonHeader) :
    Agrees (s.handleTmmbr nowMs block).1 handled := by
  unfold RtcpReceiver.handleTmmbr
  split
  · exact h
  split
  · exact h
  · exact h.updateInfo _ _ fun info => tmmbn_foldl_storeTmmbr nowMs _ _ _ info

theorem Agrees.handleFir (block : CommonHeader) :
    Agrees (s.handleFir nowMs block) handled := by
  unfold RtcpReceiver.handleFir
  split
  · exact h
  · exact h.updateInfo _ _ fun info => tmmbn_foldl_storeFir nowMs _ _ info

theorem Agrees.handleBye (block : CommonHeader) : Agrees (s.handleBye block) handled := by
  unfold RtcpReceiver.handleBye
  split
  · exact h
  · exact h.updateInfo _ _ fun _ => rfl

theorem Agrees.tmmbrReceived : Agrees (s.tmmbrReceived nowMs).2 handled := by
  refine h.of_same ?_ (tmmbnOf_tmmbrReceived nowMs s)
  have hkeys : keys (s.tmmbrReceived nowMs).2.receivedInfos = keys s.receivedInfos := by
    simp [RtcpReceiver.tmmbrReceived, OrderedMap.keys, Function.comp_def]
  rw [hkeys]
  exact h.nodup

omit h

/-- **Step lemma for a block.** -/
theorem Agrees.handleBlock {acc : RtcpReceiver × Bool} (h : Agrees acc.1 handled) (nowMs : Int)
    (hsize : block.payload.length ≤ 4 * 0xffff) :
    Agrees (handleBlock nowMs acc block).1 (note acc.1 handled block) := by
  obtain ⟨s, tmmbr⟩ := acc
  have hnote : blockKind block ≠ .tmmbn → note s handled block = handled := by
    intro hne
    unfold note
    split
    · exact absurd ‹_› hne
    · rfl
  unfold RtcpReceiver.handleBlock
  cases hkind : blockKind block with
  | tmmbn => exact h.handleTmmbn hkind hsize
  | senderReport | receiverReport => rw [hnote (by simp [hkind])]; exact h.handleReport nowMs _
  | bye => rw [hnote (by simp [hkind])]; exact h.handleBye block
  | tmmbr => rw [hnote (by simp [hkind])]; exact h.handleTmmbr nowMs block
  | fir => rw [hnote (by simp [hkind])]; exact h.handleFir nowMs block
  | other => rw [hnote (by simp [hkind])]; exact h

theorem Agrees.handleBlocks (headers : List CommonHeader)
    (hsize : ∀ block ∈ headers, block.payload.length ≤ 4 * 0xffff) (acc : RtcpReceiver × Bool)
    (handled : Notifications) (h : Agrees acc.1 handled) :
    Agrees (headers.foldl (RtcpReceiver.handleBlock nowMs) acc).1
      (noteBlocks nowMs headers acc handled) := by
  induction headers generalizing acc handled with
  | nil => exact h
  | cons block headers ih =>
    exact ih (fun b hb => hsize b (.tail _ hb)) _ _
      (h.handleBlock nowMs (hsize block (.head _)))

theorem Agrees.incomingPacket (h : Agrees s handled) (nowMs : Int) (packet : List Byte) :
    Agrees (s.incomingPacket nowMs packet).2
      (noteBlocks nowMs (blocks packet).1 (s, false) handled) := by
  have hblocks := h.handleBlocks nowMs _
    (mem_blocks (fun _ _ => CommonHeader.length_payload_le) packet) (s, false) handled
  unfold RtcpReceiver.incomingPacket
  by_cases hempty : packet.isEmpty
  · rw [if_pos hempty, isEmpty_iff.mp hempty]
    exact h
  rw [if_neg hempty]
  dsimp only
  by_cases hfirst : (blocks packet).1.isEmpty ∧ (blocks packet).2 = false
  · rw [if_pos hfirst, isEmpty_iff.mp hfirst.1]
    exact h
  rw [if_neg hfirst]
  split
  · exact hblocks.tmmbrReceived nowMs
  · exact hblocks

theorem Agrees.updateTimers (h : Agrees s handled) (nowMs : Int) :
    Agrees (s.updateReceiveInformationTimers nowMs).2 fun ssrc =>
      if ((s.updateReceiveInformationTimers nowMs).2.getReceiveInformation ssrc).isSome
      then handled ssrc else [] := by
  -- the entries that are left have the sets they had
  have hleft : (keys (s.updateReceiveInformationTimers nowMs).2.receivedInfos).Nodup ∧
      ∀ ssrc items, (s.updateReceiveInformationTimers nowMs).2.tmmbnOf ssrc = some items →
        s.tmmbnOf ssrc = some items := by
    unfold RtcpReceiver.updateReceiveInformationTimers
    dsimp only
    split
    · exact ⟨h.nodup, fun _ _ hsome => hsome⟩
    obtain ⟨hsub, hfind⟩ := sweepInfos_spec (nowMs - kReceiveInfoTimeoutMs) s.receivedInfos (-1)
      false h.nodup
    refine ⟨hsub.nodup h.nodup, fun ssrc items hsome => ?_⟩
    obtain ⟨info, hinfo, rfl⟩ := Option.map_eq_some_iff.mp hsome
    exact hfind ssrc info hinfo
  have hknown : ∀ r : RtcpReceiver, ∀ ssrc,
      (r.getReceiveInformation ssrc).isSome = (r.tmmbnOf ssrc).isSome := fun r ssrc => by
    simp [tmmbnOf]
  simp only [hknown]
  refine ⟨hleft.1, fun ssrc hnone => ?_, fun ssrc items hsome => ?_, fun ssrc items hmem => ?_⟩
  · simp [hnone]
  · simpa [hsome] using h.stored ssrc items (hleft.2 ssrc items hsome)
  split at hmem
  · exact h.fits ssrc items hmem
  · cases hmem

/-- **Step lemma.** -/
theorem Agrees.after {o : Observed} (h : Agrees o.receiver o.handled) (call : Call) :
    Agrees (o.after call).receiver (o.after call).handled := by
  cases call with
  | incomingPacket nowMs packet => exact h.incomingPacket nowMs packet
  | setRemoteSsrc _ | setSsrcs _ => exact h.of_same h.nodup fun _ => rfl
  | tmmbrReceived nowMs => exact h.tmmbrReceived nowMs
  | updateReceiveInformationTimers nowMs => exact h.updateTimers nowMs

theorem agrees_initial (oldest : Int) : Agrees (initial oldest).receiver (initial oldest).handled :=
  ⟨nodup_nil, fun _ _ => rfl, fun _ _ h => (by cases h), fun _ _ h => (by cases h)⟩

/-- **Run lemma.** -/
theorem agrees_of_reaches {oldest : Int} {o : Observed} (hr : Reaches Step (initial oldest) o) :
    Agrees o.receiver o.handled := by
  refine hr.invariant (fun o => Agrees o.receiver o.handled) (agrees_initial oldest) ?_
  intro u call v h hstep
  rw [hstep]
  exact h.after call

/-- **The stored bounding set.** In every state a run reaches, once a TMMBN of `remote_ssrc_` has
been handled, `BoundingSet` returns the items of all the TMMBNs of that sender handled so far, one
after the other. This is the latest one, with the ownership that goes with it, exactly if every
earlier one was empty; the latest one itself fits a packet. -/
theorem boundingSet_latest_iff {oldest : Int} {o : Observed}
    (hr : Reaches Step (initial oldest) o) {earlier : List (List TmmbItem)}
    {latest : List TmmbItem} (h : o.handled o.receiver.remoteSsrc = earlier ++ [latest]) :
    o.receiver.boundingSet.1 = earlier.flatten ++ latest ∧ FitsPacket latest ∧
      (o.receiver.boundingSet = (latest, some (isOwner latest o.receiver.mainSsrc)) ↔
        ∀ items ∈ earlier, items = []) := by
  have hagrees := agrees_of_reaches hr
  have hset : o.receiver.boundingSet = (earlier.flatten ++ latest,
      some (isOwner (earlier.flatten ++ latest) o.receiver.mainSsrc)) := by
    cases hinfo : o.receiver.getReceiveInformation o.receiver.remoteSsrc with
    | none =>
      have hnil := hagrees.unknown o.receiver.remoteSsrc (by simp [tmmbnOf, hinfo])
      rw [h] at hnil
      exact absurd hnil (by simp)
    | some info =>
      have hstored := hagrees.stored o.receiver.remoteSsrc info.tmmbn (by simp [tmmbnOf, hinfo])
      rw [h] at hstored
      simp only [boundingSet, hinfo, hstored, flatten_append, flatten_singleton]
  refine ⟨by rw [hset], hagrees.fits o.receiver.remoteSsrc latest (by simp [h]), ?_⟩
  rw [hset, ← flatten_eq_nil_iff]
  constructor
  · intro heq
    simpa using congrArg Prod.fst heq
  · intro hnil
    rw [hnil, nil_append]

/-! ## Two notifications of one sender -/

/-- A receiver report of sender 1 without report blocks. -/
def reportOfOne : List Byte := [0x80, 201, 0, 1, 0, 0, 0, 1]

/-- A TMMBN of sender 1 that names `owner` with 1024 bit/s. -/
def notificationOfOne (owner : Byte) : List Byte :=
  [0x84, 205, 0, 4, 0, 0, 0, 1, 0, 0, 0, 0, 0, 0, 0, owner, 0, 8, 0, 0]

def itemOf (owner : BitVec 32) : TmmbItem := ⟨owner, 1024, 0⟩

/-- The receiver follows sender 1, which names first 7 and then 9 as the owner. -/
def twoNotifications : Observed :=
  ((((initial 0).after (.setRemoteSsrc 1)).after (.incomingPacket 1 reportOfOne)).after
    (.incomingPacket 2 (notificationOfOne 7))).after (.incomingPacket 3 (notificationOfOne 9))

theorem reaches_twoNotifications : Reaches Step (initial 0) twoNotifications :=
  ((((Reaches.refl.next (.setRemoteSsrc 1) rfl).next (.incomingPacket 1 reportOfOne) rfl).next
    (.incomingPacket 2 (notificationOfOne 7)) rfl).next (.incomingPacket 3 (notificationOfOne 9)) rfl)

theorem boundingSet_latest_iff_twoNotifications :
    twoNotifications.receiver.boundingSet.1 = [itemOf 7, itemOf 9] ∧
      ¬ ∀ items ∈ [[itemOf 7]], items = [] := by
  have hhandled : twoNotifications.handled twoNotifications.receiver.remoteSsrc =
      [[itemOf 7]] ++ [[itemOf 9]] := by decide +kernel
  exact ⟨(boundingSet_latest_iff reaches_twoNotifications hhandled).1, by decide⟩

/-- After the second notification the first owner is still in the set. -/
theorem boundingSet_keeps_earlier : ∃ o : Observed, Reaches Step (initial 0) o ∧
    o.handled o.receiver.remoteSsrc = [[itemOf 7], [itemOf 9]] ∧
    o.receiver.boundingSet.1 = [itemOf 7, itemOf 9] :=
  ⟨twoNotifications, reaches_twoNotifications, by decide +kernel, by decide +kernel⟩

end WebRtc.Rtcp.RtcpReceiver
