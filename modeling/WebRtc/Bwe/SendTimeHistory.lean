import WebRtc.Base.SequenceNumberUnwrapper
import WebRtc.Lib.OrderedMap

/-! `SendTimeHistory` (`send_time_history.cc`). The clock's time is an argument of the call that
reads it. -/

namespace WebRtc.Bwe.SendTime
open SequenceNumber OrderedMap SequenceNumberUnwrapper

structure PacketInfo where
  creationTimeMs : Int
  arrivalTimeMs : Int
  sendTimeMs : Int
  sequenceNumber : BitVec 16
  payloadSize : Nat
  probeClusterId : Int
  deriving DecidableEq

structure SendTimeHistory where
  seqNumUnwrapper : SequenceNumberUnwrapper := {}
  history : List (Int × PacketInfo) := []

/-- A call without its sequence number. -/
inductive Op
  | addAndRemoveOld (nowMs : Int) (payloadSize : Nat) (probeClusterId : Int)
  | onSentPacket (sendTimeMs : Int)
  | getInfo (arrivalTimeMs : Int) (remove : Bool)

/-- What a call gives; `notFound` leaves the caller's packet as it is. -/
inductive Result | added | sent | info (packetInfo : PacketInfo) | notFound
  deriving DecidableEq

/-- The part of a call behind the unwrapping. -/
def Op.run (ageLimitMs : Int) (sequenceNumber : BitVec 16) (unwrapped : Int)
    (history : List (Int × PacketInfo)) : Op → List (Int × PacketInfo) × Result
  | .addAndRemoveOld nowMs payloadSize probeClusterId =>
    (insertNew (fun a b => decide (a < b)) unwrapped
      ⟨nowMs, -1, -1, sequenceNumber, payloadSize, probeClusterId⟩
      (history.dropWhile fun e => nowMs - e.2.creationTimeMs > ageLimitMs), .added)
  | .onSentPacket sendTimeMs =>
    if (find unwrapped history).isSome then
      (modify unwrapped ({ · with sendTimeMs }) history, .sent)
    else (history, .notFound)
  | .getInfo arrivalTimeMs remove =>
    match find unwrapped history with
    | some info =>
      (if remove then erase unwrapped history else history, .info { info with arrivalTimeMs })
    | none => (history, .notFound)

variable (ageLimitMs : Int)

/-- One call: `AddAndRemoveOld`, `OnSentPacket` or `GetInfo`. -/
def SendTimeHistory.call (s : SendTimeHistory) (sequenceNumber : BitVec 16) (op : Op) :
    SendTimeHistory × Result :=
  let (unwrapper, unwrapped) := s.seqNumUnwrapper.unwrap sequenceNumber
  let (history, result) := op.run ageLimitMs sequenceNumber unwrapped s.history
  (⟨unwrapper, history⟩, result)

/-- A call for the packet with this number before it is cut to 16 bits; a stray one is
an extra lookup. -/
structure Call where
  number : Int
  op : Op
  stray : Bool := false

/-- The results of the calls that are not stray. -/
def results (s : SendTimeHistory) : List Call → List Result
  | [] => []
  | c :: calls =>
    let r := s.call ageLimitMs (wrapped c.number) c.op
    if c.stray then results r.1 calls else r.2 :: results r.1 calls

/-- The stray calls are lookups of sequence numbers that are not in the history. -/
def straysUnknown (s : SendTimeHistory) : List Call → Bool
  | [] => true
  | c :: calls =>
    (!c.stray || !(c.op matches .addAndRemoveOld ..) &&
      (keys s.history).all fun k => wrapped k != wrapped c.number) &&
    straysUnknown (s.call ageLimitMs (wrapped c.number) c.op).1 calls

/-- Each number is less than half a turn from the one before it. -/
def tracked (last : Int) : List Call → Bool
  | [] => true
  | c :: calls => decide (0 ≤ c.number ∧ (last = -1 ∧ c.number < 65536 ∨
      0 ≤ last ∧ c.number - last < 32768 ∧ last - c.number < 32768)) && tracked c.number calls

variable {ageLimitMs} {s s' : SendTimeHistory} {c : Call} {calls : List Call}

theorem call_of_tracked (h : tracked s.seqNumUnwrapper.lastSeq (c :: calls)) :
    let r := c.op.run ageLimitMs (wrapped c.number) c.number s.history
    s.call ageLimitMs (wrapped c.number) c.op = (⟨⟨c.number⟩, r.1⟩, r.2) ∧
      tracked c.number calls := by
  rw [tracked, Bool.and_eq_true, decide_eq_true_eq] at h
  obtain ⟨⟨hnonneg, hlast⟩, hrest⟩ := h
  have hunwrap : s.seqNumUnwrapper.unwrapWithoutUpdate (wrapped c.number) = c.number := by
    rcases hlast with ⟨hfirst, hlt⟩ | ⟨hlast, hnear⟩
    · rw [unwrap_first hfirst, toNat_wrapped]
      omega
    · exact unwrap_wrapped hlast hnonneg hnear
  refine ⟨?_, hrest⟩
  unfold SendTimeHistory.call unwrap
  rw [hunwrap]

/-- A lookup of a number that is not in the history changes nothing there. -/
theorem run_unknown {op : Op} {n : Int} {sequenceNumber : BitVec 16}
    {history : List (Int × PacketInfo)} (hop : (op matches .addAndRemoveOld ..) = false)
    (h : find n history = none) : (op.run ageLimitMs sequenceNumber n history).1 = history := by
  cases op with
  | addAndRemoveOld => cases hop
  | onSentPacket => simp [Op.run, h]
  | getInfo => simp [Op.run, h]

/-- Lookups of unknown packets do not change what the other calls return, in every run in which
each call's number is less than half a turn from the one before it, with the lookups and without.
The two runs may start from different unwrappers. -/
theorem stray_lookups_harmless (hsame : s.history = s'.history)
    (htracked : tracked s.seqNumUnwrapper.lastSeq calls)
    (htracked' : tracked s'.seqNumUnwrapper.lastSeq (calls.filter (!·.stray)))
    (hstrays : straysUnknown ageLimitMs s calls) :
    results ageLimitMs s calls = results ageLimitMs s' (calls.filter (!·.stray)) := by
  induction calls generalizing s s' with
  | nil => rfl
  | cons c calls ih =>
    obtain ⟨hcall, hrest⟩ := call_of_tracked htracked
    rw [straysUnknown, hcall, Bool.and_eq_true] at hstrays
    obtain ⟨hstray, hstrays⟩ := hstrays
    rw [results, hcall]
    cases hc : c.stray with
    | true =>
      rw [hc, Bool.not_true, Bool.false_or, Bool.and_eq_true, Bool.not_eq_true', List.all_eq_true]
        at hstray
      have hnone : find c.number s.history = none := by
        rw [find_eq_none_iff]
        intro hmem
        simpa using hstray.2 _ hmem
      rw [List.filter_cons_of_neg (by simp [hc])] at htracked' ⊢
      exact ih ((run_unknown hstray.1 hnone).trans hsame) hrest htracked' hstrays
    | false =>
      rw [List.filter_cons_of_pos (by simp [hc])] at htracked' ⊢
      obtain ⟨hcall', hrest'⟩ := call_of_tracked htracked'
      rw [results, hcall', hc, ← hsame]
      exact congrArg (_ :: ·) (ih rfl hrest hrest' hstrays)

theorem stray_lookup_near :
    results 1000 {} [⟨0, .addAndRemoveOld 5 100 (-1), false⟩, ⟨20000, .getInfo 7 true, true⟩,
        ⟨0, .getInfo 7 false, false⟩] =
      results 1000 {} [⟨0, .addAndRemoveOld 5 100 (-1), false⟩, ⟨0, .getInfo 7 false, false⟩] :=
  @stray_lookups_harmless 1000 {} {} [_, ⟨_, _, true⟩, _] rfl (by decide) (by decide) (by decide)

/-- Two lookups of unknown packets, together more than half a turn ahead, and packet 0 is looked
for under number 65536. -/
theorem stray_lookups_lose_packet : ∃ calls : List Call, straysUnknown 1000 {} calls ∧
    results 1000 {} calls = [.added, .notFound] ∧
    results 1000 {} (calls.filter (!·.stray)) = [.added, .info ⟨5, 7, -1, 0, 100, -1⟩] :=
  ⟨[⟨0, .addAndRemoveOld 5 100 (-1), false⟩, ⟨30000, .getInfo 7 true, true⟩,
    ⟨60000, .getInfo 7 true, true⟩, ⟨0, .getInfo 7 false, false⟩], by decide⟩

end WebRtc.Bwe.SendTime
