import WebRtc.Lib.Totals
import WebRtc.Lib.Outcome

/-! `BitrateAllocator::AllocateBitrates` (`bitrate_allocator.cc`) with its four modes. A `uint32_t`
is a `Nat` with the reductions written out; the values of the allocation map, which every reader
converts to `uint32_t`, are kept as such. The minimum with hysteresis is a parameter. -/

namespace WebRtc.BitrateAllocator

open OrderedMap Outcome

/-- `ObserverConfig`, without the padding bitrate and the media ratio. -/
structure ObserverConfig (Obs : Type) where
  observer : Obs
  minBitrateBps : Nat
  maxBitrateBps : Nat
  enforceMinBitrate : Bool
  allocatedBitrateBps : Int := -1
  deriving DecidableEq, Repr

inductive Fault where
  /-- `RTC_DCHECK_GT(bitrate, 0)` -/
  | bitrateNotPositive
  /-- `RTC_DCHECK_EQ(allocation->size(), bitrate_observer_configs_.size())` -/
  | sizeMismatch
  /-- `allocation->at` of an observer that is not there -/
  | missingObserver
  deriving DecidableEq, Repr

abbrev ObserverAllocation (Obs : Type) := List (Obs × Nat)

def kTransmissionMaxBitrateMultiplier : Nat := 2

variable {Obs : Type} [DecidableEq Obs]

def lastAllocatedBitrate (config : ObserverConfig Obs) : Nat :=
  if config.allocatedBitrateBps = -1 then config.minBitrateBps
  else (config.allocatedBitrateBps % 2 ^ 32).toNat

def allocationAt (allocation : ObserverAllocation Obs) (observer : Obs) : Except Fault Nat :=
  match find observer allocation with
  | some bitrate => .ok bitrate
  | none => .error .missingObserver

/-! ## DistributeBitrateEvenly -/

/-- `insert` into the multimap that is sorted by the maximum: behind the entries with equal key. -/
def insertByMax (config : ObserverConfig Obs) :
    List (ObserverConfig Obs) → List (ObserverConfig Obs)
  | [] => [config]
  | other :: rest =>
    if config.maxBitrateBps < other.maxBitrateBps then config :: other :: rest
    else other :: insertByMax config rest

/-- The loop that fills `list_max_bitrates`. -/
def listMaxBitrates (includeZeroAllocations : Bool) (allocation : ObserverAllocation Obs) :
    (configs sorted : List (ObserverConfig Obs)) → Except Fault (List (ObserverConfig Obs))
  | [], sorted => .ok sorted
  | config :: configs, sorted =>
    if includeZeroAllocations then
      listMaxBitrates includeZeroAllocations allocation configs (insertByMax config sorted)
    else do
      let bitrate ← allocationAt allocation config.observer
      listMaxBitrates includeZeroAllocations allocation configs
        (if bitrate ≠ 0 then insertByMax config sorted else sorted)

/-- The loop that erases the observers of `list_max_bitrates` one by one. -/
def shareOut (maxMultiplier : Nat) : (sorted : List (ObserverConfig Obs)) → (bitrate : Nat) →
    ObserverAllocation Obs → Except Fault (ObserverAllocation Obs)
  | [], _, allocation => .ok allocation
  | config :: sorted, bitrate, allocation =>
    if bitrate = 0 then .error .bitrateNotPositive
    else do
      let allocated ← allocationAt allocation config.observer
      let extraAllocation := bitrate / (sorted.length + 1)
      let totalAllocation := (extraAllocation + allocated) % 2 ^ 32
      let limit := maxMultiplier * config.maxBitrateBps % 2 ^ 32
      if totalAllocation > limit then
        -- More than fits: carry over to the remaining observers.
        shareOut maxMultiplier sorted
          ((bitrate - extraAllocation + (totalAllocation - limit)) % 2 ^ 32)
          (assign config.observer limit allocation)
      else
        shareOut maxMultiplier sorted (bitrate - extraAllocation)
          (assign config.observer totalAllocation allocation)

def distributeBitrateEvenly (configs : List (ObserverConfig Obs)) (bitrate : Nat)
    (includeZeroAllocations : Bool) (maxMultiplier : Nat) (allocation : ObserverAllocation Obs) :
    Except Fault (ObserverAllocation Obs) :=
  if allocation.length = configs.length then do
    let sorted ← listMaxBitrates includeZeroAllocations allocation configs []
    shareOut maxMultiplier sorted bitrate allocation
  else .error .sizeMismatch

/-! ## The four modes -/

def zeroRateAllocation (configs : List (ObserverConfig Obs)) : ObserverAllocation Obs :=
  configs.foldl (fun allocation config => assign config.observer 0 allocation) []

/-- What the first loop of `LowRateAllocation` gives an observer. -/
def enforcedBitrate (config : ObserverConfig Obs) : Nat :=
  if config.enforceMinBitrate then config.minBitrateBps else 0

section LowRate

variable (minBitrateWithHysteresis : ObserverConfig Obs → Nat)

/-- Allocation and remaining bitrate after the turn of one observer, if enough is left for it. -/
def serve (state : ObserverAllocation Obs × Int) (config : ObserverConfig Obs) :
    ObserverAllocation Obs × Int :=
  if state.2 ≥ minBitrateWithHysteresis config then
    (assign config.observer (minBitrateWithHysteresis config) state.1,
      state.2 - minBitrateWithHysteresis config)
  else state

/-- The loop over the previously active streams. -/
def serveActive (configs : List (ObserverConfig Obs)) (state : ObserverAllocation Obs × Int) :
    ObserverAllocation Obs × Int :=
  if state.2 > 0 then
    configs.foldl (fun state config =>
      if config.enforceMinBitrate || lastAllocatedBitrate config = 0 then state
      else serve minBitrateWithHysteresis state config) state
  else state

/-- The loop over the previously paused streams, which does not leave out the enforced ones. -/
def servePaused (configs : List (ObserverConfig Obs)) (state : ObserverAllocation Obs × Int) :
    ObserverAllocation Obs × Int :=
  if state.2 > 0 then
    configs.foldl (fun state config =>
      if lastAllocatedBitrate config ≠ 0 then state
      else serve minBitrateWithHysteresis state config) state
  else state

def lowRateAllocation (configs : List (ObserverConfig Obs)) (bitrate : Nat) :
    Except Fault (ObserverAllocation Obs) := do
  let enforced := configs.foldl
    (fun allocation config => assign config.observer (enforcedBitrate config) allocation) []
  let remaining := configs.foldl
    (fun remaining config => remaining - (enforcedBitrate config : Int)) (bitrate : Int)
  let state := servePaused minBitrateWithHysteresis configs
    (serveActive minBitrateWithHysteresis configs (enforced, remaining))
  let allocation ← if state.2 > 0 then
      distributeBitrateEvenly configs (state.2 % 2 ^ 32).toNat false 1 state.1
    else .ok state.1
  if allocation.length = configs.length then .ok allocation else .error .sizeMismatch

end LowRate

def normalRateAllocation (configs : List (ObserverConfig Obs)) (bitrate sumMinBitrates : Nat) :
    Except Fault (ObserverAllocation Obs) :=
  let allocation := configs.foldl
    (fun allocation config => assign config.observer config.minBitrateBps allocation) []
  let bitrate := (bitrate + (2 ^ 32 - sumMinBitrates)) % 2 ^ 32
  if bitrate > 0 then distributeBitrateEvenly configs bitrate true 1 allocation
  else .ok allocation

def maxRateAllocation (configs : List (ObserverConfig Obs)) (bitrate : Nat) :
    Except Fault (ObserverAllocation Obs) :=
  let allocation := configs.foldl
    (fun allocation config => assign config.observer config.maxBitrateBps allocation) []
  let bitrate := configs.foldl
    (fun bitrate config => (bitrate + (2 ^ 32 - config.maxBitrateBps)) % 2 ^ 32) bitrate
  distributeBitrateEvenly configs bitrate true kTransmissionMaxBitrateMultiplier allocation

def enoughBitrateForAllObservers (minBitrateWithHysteresis : ObserverConfig Obs → Nat)
    (configs : List (ObserverConfig Obs)) (bitrate sumMinBitrates : Nat) : Bool :=
  if bitrate < sumMinBitrates then false
  else
    let extraBitratePerObserver := (bitrate - sumMinBitrates) / configs.length
    configs.all fun config =>
      !decide ((config.minBitrateBps + extraBitratePerObserver) % 2 ^ 32 <
        minBitrateWithHysteresis config)

def allocateBitrates (minBitrateWithHysteresis : ObserverConfig Obs → Nat)
    (configs : List (ObserverConfig Obs)) (bitrate : Nat) :
    Except Fault (ObserverAllocation Obs) :=
  if configs.isEmpty then .ok []
  else if bitrate = 0 then .ok (zeroRateAllocation configs)
  else
    let sumMinBitrates := configs.foldl (fun sum config => (sum + config.minBitrateBps) % 2 ^ 32) 0
    let sumMaxBitrates := configs.foldl (fun sum config => (sum + config.maxBitrateBps) % 2 ^ 32) 0
    if enoughBitrateForAllObservers minBitrateWithHysteresis configs bitrate sumMinBitrates then
      if bitrate ≤ sumMaxBitrates then normalRateAllocation configs bitrate sumMinBitrates
      else maxRateAllocation configs bitrate
    else lowRateAllocation minBitrateWithHysteresis configs bitrate

end WebRtc.BitrateAllocator
