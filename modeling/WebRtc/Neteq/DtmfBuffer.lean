import Mathlib.Data.BitVec
import Mathlib.Data.List.Sort
import WebRtc.Lib.Transition

/-! `DtmfBuffer` (`dtmf_buffer.cc`). -/

namespace WebRtc.Neteq.Dtmf
open Transition List BitVec

structure DtmfEvent where
  timestamp : BitVec 32
  eventNo : Int
  volume : Int
  duration : Int
  endBit : Bool
  deriving DecidableEq

inductive Result | ok | invalidEventParameters | event (e : DtmfEvent) | noEvent
  deriving DecidableEq

def sameEvent (a b : DtmfEvent) : Bool := a.eventNo == b.eventNo && a.timestamp == b.timestamp

def compareEvents (a b : DtmfEvent) : Bool :=
  if a.timestamp == b.timestamp then a.eventNo < b.eventNo
  else b.timestamp - a.timestamp < 0xFFFFFFFF / 2

/-- The loop of `InsertEvent`: `MergeEvents` with the first event that is the same. -/
def mergeEvents (event : DtmfEvent) : List DtmfEvent → Option (List DtmfEvent)
  | [] => none
  | it :: rest =>
    if sameEvent it event then
      let duration := if it.endBit then it.duration else max event.duration it.duration
      some ({ it with duration, endBit := event.endBit || it.endBit } :: rest)
    else (mergeEvents event rest).map (it :: ·)

def DtmfEvent.invalid (e : DtmfEvent) : Bool :=
  e.eventNo < 0 || e.eventNo > 15 || e.volume < 0 || e.volume > 63 || e.duration ≤ 0 ||
    e.duration > 65535

def insertEvent (buffer : List DtmfEvent) (event : DtmfEvent) : List DtmfEvent × Result :=
  if event.invalid then (buffer, .invalidEventParameters)
  else match mergeEvents event buffer with
    | some buffer => (buffer, .ok)
    | none => ((buffer ++ [event]).insertionSort fun a b => !compareEvents b a, .ok)

variable (fsHz : Nat)

/-- What `SetSampleRate(fs_hz)` sets. -/
def maxExtrapolationSamples : Nat := 7 * fsHz / 100
def frameLenSamples : Nat := fsHz / 100

def eventEnd (it : DtmfEvent) (rest : List DtmfEvent) : BitVec 32 :=
  let eventEnd := it.timestamp + BitVec.ofInt 32 it.duration
  let extrapolated := eventEnd + BitVec.ofNat 32 (maxExtrapolationSamples fsHz)
  if it.endBit then eventEnd
  else match rest with
    | [] => extrapolated
    | next :: _ => if next.timestamp < extrapolated then next.timestamp else extrapolated

/-- `GetEvent(current_timestamp)` as compiled with `LEGACY_BITEXACT`: an event is erased with its
last frame, and one that is over is returned once more unless it was cut off by the next. -/
def getEvent (currentTimestamp : BitVec 32) : List DtmfEvent → List DtmfEvent × Result
  | [] => ([], .noEvent)
  | it :: rest =>
    let nextAvailable := !it.endBit && !rest.isEmpty
    if it.timestamp ≤ currentTimestamp ∧ currentTimestamp ≤ eventEnd fsHz it rest then
      if it.endBit && decide (eventEnd fsHz it rest ≤
          currentTimestamp + BitVec.ofNat 32 (frameLenSamples fsHz)) then (rest, .event it)
      else (it :: rest, .event it)
    else if eventEnd fsHz it rest < currentTimestamp then
      if nextAvailable then getEvent currentTimestamp rest else (rest, .event it)
    else (it :: (getEvent currentTimestamp rest).1, (getEvent currentTimestamp rest).2)

inductive Call
  | insertEvent (event : DtmfEvent)
  | getEvent (currentTimestamp : BitVec 32)

def call (buffer : List DtmfEvent) : Call → List DtmfEvent × Result
  | .insertEvent event => insertEvent buffer event
  | .getEvent currentTimestamp => getEvent fsHz currentTimestamp buffer

/-! ## Another timestamp origin -/

section Shift

variable (d : Int)

def shifted (t : BitVec 32) : BitVec 32 := t + BitVec.ofInt 32 d

def DtmfEvent.shift (e : DtmfEvent) : DtmfEvent := { e with timestamp := shifted d e.timestamp }

def Call.shift : Call → Call
  | .insertEvent event => .insertEvent (event.shift d)
  | .getEvent currentTimestamp => .getEvent (shifted d currentTimestamp)

def Result.shift : Result → Result
  | .event e => .event (e.shift d)
  | r => r

/-- The event is over before the wrap, and so it is on a clock that is `d` ahead. -/
def Unwrapped (e : DtmfEvent) : Prop :=
  0 ≤ e.duration ∧ 0 ≤ e.timestamp.toNat + d ∧
    e.timestamp.toNat + e.duration + maxExtrapolationSamples fsHz < 2 ^ 32 ∧
    e.timestamp.toNat + d + e.duration + maxExtrapolationSamples fsHz < 2 ^ 32

/-- A `GetEvent` that finds neither its frame nor an event of the buffer at the wrap. -/
def ClearOfWrap (buffer : List DtmfEvent) : Call → Prop
  | .insertEvent _ => True
  | .getEvent t => (0 ≤ t.toNat + d ∧ t.toNat + frameLenSamples fsHz < 2 ^ 32 ∧
    t.toNat + d + frameLenSamples fsHz < 2 ^ 32) ∧ ∀ e ∈ buffer, Unwrapped fsHz d e

def RunClearOfWrap : List DtmfEvent → List Call → Prop
  | _, [] => True
  | buffer, a :: calls => ClearOfWrap fsHz d buffer a ∧
    RunClearOfWrap (call fsHz buffer a).1 calls

end Shift

variable {fsHz : Nat} {d : Int} {it event : DtmfEvent} {buffer : List DtmfEvent} {t : BitVec 32}

theorem shifted_beq (a b : BitVec 32) : (shifted d a == shifted d b) = (a == b) := by
  rw [Bool.eq_iff_iff]
  simp [shifted]

theorem mergeEvents_shift : mergeEvents (event.shift d) (buffer.map (·.shift d)) =
    (mergeEvents event buffer).map (·.map (·.shift d)) := by
  induction buffer with
  | nil => rfl
  | cons it rest ih =>
    have hsame : sameEvent (it.shift d) (event.shift d) = sameEvent it event := by
      simp only [sameEvent, DtmfEvent.shift, shifted_beq]
    rw [map_cons, mergeEvents, mergeEvents, hsame, ih]
    split
    · rfl
    · cases mergeEvents event rest <;> rfl

theorem insertEvent_shift : insertEvent (buffer.map (·.shift d)) (event.shift d) =
    ((insertEvent buffer event).1.map (·.shift d), (insertEvent buffer event).2.shift d) := by
  have hvalid : (event.shift d).invalid = event.invalid := rfl
  have hcompare (a b : DtmfEvent) : compareEvents (a.shift d) (b.shift d) = compareEvents a b := by
    have hsame : ((a.shift d).timestamp == (b.shift d).timestamp) = (a.timestamp == b.timestamp) :=
      shifted_beq _ _
    have hsub : (b.shift d).timestamp - (a.shift d).timestamp = b.timestamp - a.timestamp :=
      add_sub_add_right_eq_sub _ _ _
    unfold compareEvents
    rw [hsame, hsub]
    rfl
  have hsort := map_insertionSort (fun a b => !compareEvents b a) (fun a b => !compareEvents b a)
    (DtmfEvent.shift d) (buffer ++ [event]) fun a _ b _ => by rw [hcompare]
  unfold insertEvent
  rw [hvalid, mergeEvents_shift]
  split
  · rfl
  · cases mergeEvents event buffer with
    | some => rfl
    | none => simpa [Result.shift] using hsort.symm

/-- Inside the range of both clocks the order of timestamps is kept. -/
theorem shifted_lt_iff {a b : BitVec 32} (ha : 0 ≤ a.toNat + d ∧ a.toNat + d < 2 ^ 32)
    (hb : 0 ≤ b.toNat + d ∧ b.toNat + d < 2 ^ 32) : shifted d a < shifted d b ↔ a < b := by
  simp only [shifted, lt_def, toNat_add, toNat_ofInt]
  omega

theorem shifted_add (a b : BitVec 32) : shifted d a + b = shifted d (a + b) := by
  unfold shifted
  ac_rfl

theorem eventEnd_shift (h : ∀ e ∈ it :: buffer, Unwrapped fsHz d e) :
    (0 ≤ (eventEnd fsHz it buffer).toNat + d ∧ (eventEnd fsHz it buffer).toNat + d < 2 ^ 32) ∧
      eventEnd fsHz (it.shift d) (buffer.map (·.shift d)) = shifted d (eventEnd fsHz it buffer) := by
  obtain ⟨h1, h2, h3, h4⟩ := h it mem_cons_self
  have hend : (it.timestamp + BitVec.ofInt 32 it.duration).toNat =
      it.timestamp.toNat + it.duration.toNat := by
    rw [toNat_add, toNat_ofInt]
    omega
  have hextra : (it.timestamp + BitVec.ofInt 32 it.duration +
      BitVec.ofNat 32 (maxExtrapolationSamples fsHz)).toNat =
        it.timestamp.toNat + it.duration.toNat + maxExtrapolationSamples fsHz := by
    rw [toNat_add, hend, toNat_ofNat]
    omega
  simp only [eventEnd, DtmfEvent.shift, shifted_add]
  cases it.endBit with
  | true => exact ⟨by simp only [if_true]; omega, rfl⟩
  | false =>
    cases buffer with
    | nil => exact ⟨by simp only [Bool.false_eq_true, if_false]; omega, rfl⟩
    | cons next rest =>
      obtain ⟨h1', h2', h3', h4'⟩ := h next (by simp)
      have hlt := @shifted_lt_iff d next.timestamp (it.timestamp + BitVec.ofInt 32 it.duration +
        BitVec.ofNat 32 (maxExtrapolationSamples fsHz)) (by omega) (by omega)
      simp only [map_cons, hlt, Bool.false_eq_true, if_false]
      split <;> exact ⟨by omega, rfl⟩

theorem getEvent_shift (ht : 0 ≤ t.toNat + d ∧ t.toNat + frameLenSamples fsHz < 2 ^ 32 ∧
      t.toNat + d + frameLenSamples fsHz < 2 ^ 32) (h : ∀ e ∈ buffer, Unwrapped fsHz d e) :
    getEvent fsHz (shifted d t) (buffer.map (·.shift d)) =
      ((getEvent fsHz t buffer).1.map (·.shift d), (getEvent fsHz t buffer).2.shift d) := by
  have hnow : 0 ≤ t.toNat + d ∧ t.toNat + d < 2 ^ 32 := by omega
  have hframe : (t + BitVec.ofNat 32 (frameLenSamples fsHz)).toNat =
      t.toNat + frameLenSamples fsHz := by
    rw [toNat_add, toNat_ofNat]
    omega
  induction buffer with
  | nil => rfl
  | cons it rest ih =>
    obtain ⟨hrange, hend⟩ := eventEnd_shift h
    obtain ⟨⟨_, _, _, _⟩, hrest⟩ := forall_mem_cons.mp h
    have hstart : (it.shift d).timestamp = shifted d it.timestamp := rfl
    have hbit : (it.shift d).endBit = it.endBit := rfl
    have hlast := @shifted_lt_iff d (t + BitVec.ofNat 32 (frameLenSamples fsHz))
      (eventEnd fsHz it rest) (by omega) hrange
    simp only [map_cons, getEvent, hend, hstart, hbit, shifted_add, isEmpty_map, ← BitVec.not_lt,
      shifted_lt_iff hrange hnow,
      shifted_lt_iff hnow (b := it.timestamp) (by omega),
      hlast, ih hrest]
    split
    · split <;> rfl
    split
    · split <;> rfl
    · rfl

theorem call_shift {a : Call} (h : ClearOfWrap fsHz d buffer a) :
    call fsHz (buffer.map (·.shift d)) (a.shift d) =
      ((call fsHz buffer a).1.map (·.shift d), (call fsHz buffer a).2.shift d) := by
  cases a with
  | insertEvent event => exact insertEvent_shift
  | getEvent t => exact getEvent_shift h.1 h.2

/-- Another timestamp origin changes no return value and shifts the events that come back, in
every run in which no `GetEvent` meets the wrap on either clock. -/
theorem timestamp_origin_unseen (calls : List Call) (h : RunClearOfWrap fsHz d buffer calls) :
    outputs (call fsHz) (buffer.map (·.shift d)) (calls.map (·.shift d)) =
      (outputs (call fsHz) buffer calls).map (·.shift d) := by
  induction calls generalizing buffer with
  | nil => rfl
  | cons a calls ih => rw [map_cons, outputs, outputs, map_cons, call_shift h.1, ih h.2]

theorem timestamp_origin_unseen_near :
    outputs (call 8000) [] [.insertEvent ⟨0x180, 1, 10, 800, true⟩, .getEvent 0x190] =
      [.ok, .event ⟨0x180, 1, 10, 800, true⟩] :=
  @timestamp_origin_unseen 8000 128 [] [.insertEvent ⟨0x100, 1, 10, 800, true⟩, .getEvent 0x110]
    ⟨trivial, ⟨by decide, forall_mem_singleton.mpr (by unfold Unwrapped; decide)⟩, trivial⟩

/-- An event that passes the wrap is over for the first `GetEvent`, which returns and erases it. -/
theorem event_across_wrap_lost :
    let calls := [.insertEvent ⟨0xffffff00, 1, 10, 1000, true⟩, .getEvent 0xffffff10,
      .getEvent 0xffffff20]
    outputs (call 8000) [] calls = [.ok, .event ⟨0xffffff00, 1, 10, 1000, true⟩, .noEvent] ∧
    outputs (call 8000) [] (calls.map (·.shift 256)) =
      [.ok, .event ⟨0, 1, 10, 1000, true⟩, .event ⟨0, 1, 10, 1000, true⟩] := by
  decide

end WebRtc.Neteq.Dtmf
