import Mathlib.Algebra.Order.BigOperators.Group.List
import Mathlib.Algebra.Order.Group.Nat
import Mathlib.Data.List.Nodup
import WebRtc.Call.BitrateAllocator

/-! What `AllocateBitrates` gives away: at most the bitrate or the enforced minimums, and to each
observer nothing or at least its minimum. One invariant goes through all loops: what is given plus
what remains stays within the budget. -/

namespace WebRtc.BitrateAllocator

open OrderedMap Outcome List ObserverConfig

variable {Obs : Type} [DecidableEq Obs]
variable {config : ObserverConfig Obs} {new bitrate : Nat} {state : ObserverAllocation Obs × Int}

/-- The observers the allocator works with: distinct, each with its minimum below its maximum, and
sums that an `int` holds. -/
structure Valid (configs : List (ObserverConfig Obs)) : Prop where
  distinct : (configs.map ObserverConfig.observer).Nodup
  min_le_max : ∀ config ∈ configs, config.minBitrateBps ≤ config.maxBitrateBps
  sum_lt : (configs.map ObserverConfig.maxBitrateBps).sum < 2 ^ 31

/-- The allocation has a value for each observer, 0 or at least its minimum, and together with what
remains it is within the budget. -/
structure Within (configs : List (ObserverConfig Obs)) (budget : Nat)
    (allocation : ObserverAllocation Obs) (remaining : Int) : Prop where
  keys_eq : keys allocation = configs.map ObserverConfig.observer
  bounded : total allocation + remaining ≤ budget
  served : ∀ config ∈ configs, ∃ bitrate, find config.observer allocation = some bitrate ∧
    (bitrate = 0 ∨ config.minBitrateBps ≤ bitrate)

section

variable {configs : List (ObserverConfig Obs)} {budget : Nat} {allocation : ObserverAllocation Obs}
  {remaining : Int}

omit [DecidableEq Obs] in
theorem Valid.eq_of_observer (hvalid : Valid configs) {a b : ObserverConfig Obs} (ha : a ∈ configs)
    (hb : b ∈ configs) (h : a.observer = b.observer) : a = b :=
  inj_on_of_nodup_map hvalid.distinct ha hb h

omit [DecidableEq Obs] in
theorem Valid.max_lt (hvalid : Valid configs)
    (hmem : config ∈ configs) : config.maxBitrateBps < 2 ^ 31 :=
  Nat.lt_of_le_of_lt (le_sum_of_mem (mem_map_of_mem hmem)) hvalid.sum_lt

variable (h : Within configs budget allocation remaining)
include h

theorem Within.mem_keys (hmem : config ∈ configs) :
    config.observer ∈ keys allocation :=
  h.keys_eq ▸ mem_map_of_mem hmem

theorem Within.length_eq :
    allocation.length = configs.length := by
  have hlen := congrArg length h.keys_eq
  simpa only [OrderedMap.keys, length_map] using hlen

theorem Within.mono {more : Nat} {less : Int}
    (hmore : budget ≤ more) (hless : less ≤ remaining) : Within configs more allocation less :=
  ⟨h.keys_eq, by have := h.bounded; omega, h.served⟩

omit h

/-- A new value for one observer, paid from what remains and from its old value. -/
theorem Within.assign (hvalid : Valid configs) (h : Within configs budget allocation remaining)
    (hmem : config ∈ configs) {old : Nat} {left : Int}
    (hold : find config.observer allocation = some old) (hnew : config.minBitrateBps ≤ new)
    (hpaid : new + left ≤ old + remaining) :
    Within configs budget (assign config.observer new allocation) left := by
  have hkey := h.mem_keys hmem
  refine ⟨(keys_assign_of_mem hkey new).trans h.keys_eq, ?_, fun other hother => ?_⟩
  · have htotal := total_assign hold new
    have hbounded := h.bounded
    omega
  rw [find_assign_of_mem hkey]
  split
  · next hsame =>
    cases hvalid.eq_of_observer hother hmem hsame
    exact ⟨new, rfl, .inr hnew⟩
  · exact h.served other hother

/-- The first loop of each mode gives every observer a value of its own. -/
theorem foldl_assign_eq (hvalid : Valid configs) (value : ObserverConfig Obs → Nat) :
    configs.foldl (fun allocation config =>
        OrderedMap.assign config.observer (value config) allocation) [] =
      configs.map fun config => (config.observer, value config) := by
  rw [foldl_assign observer value configs [] (by simp [OrderedMap.keys])
    hvalid.distinct, nil_append]

omit [DecidableEq Obs] in
theorem keys_map (value : ObserverConfig Obs → Nat) :
    keys (configs.map fun config => (config.observer, value config)) =
      configs.map observer := by
  rw [OrderedMap.keys, map_map]
  rfl

omit [DecidableEq Obs] in
theorem total_map (value : ObserverConfig Obs → Nat) :
    total (configs.map fun config => (config.observer, value config)) =
      (configs.map value).sum := by
  rw [total, map_map]
  rfl

theorem find_map (hvalid : Valid configs) (value : ObserverConfig Obs → Nat)
    {config : ObserverConfig Obs} (hmem : config ∈ configs) :
    find config.observer (configs.map fun config => (config.observer, value config)) =
      some (value config) :=
  find_of_mem (keys_map value ▸ hvalid.distinct) (mem_map_of_mem hmem)

theorem within_foldl (hvalid : Valid configs) (value : ObserverConfig Obs → Nat)
    (hvalue : ∀ config ∈ configs, value config = 0 ∨ config.minBitrateBps ≤ value config)
    (hbudget : (configs.map value).sum + remaining ≤ budget) : Within configs budget (configs.foldl
      (fun allocation config => OrderedMap.assign config.observer (value config) allocation) [])
      remaining := by
  rw [foldl_assign_eq hvalid]
  exact ⟨keys_map value, total_map value ▸ hbudget, fun config hmem =>
    ⟨value config, find_map hvalid value hmem, hvalue config hmem⟩⟩

end

/-! ## DistributeBitrateEvenly -/

section Distribute

variable {configs : List (ObserverConfig Obs)} {budget : Nat} {allocation : ObserverAllocation Obs}

omit [DecidableEq Obs] in
theorem insertByMax_perm (config : ObserverConfig Obs) (sorted : List (ObserverConfig Obs)) :
    (insertByMax config sorted).Perm (config :: sorted) := by
  induction sorted with
  | nil => exact .refl _
  | cons other rest ih =>
    unfold insertByMax
    split
    · exact .refl _
    · exact (ih.cons other).trans (.swap config other rest)

theorem allocationAt_of_find {observer : Obs} (h : find observer allocation = some bitrate) :
    allocationAt allocation observer = .ok bitrate := by
  simp [allocationAt, h]

theorem find_le_total {observer : Obs}
    (h : find observer allocation = some bitrate) : bitrate ≤ total allocation := by
  have htotal := total_assign h 0
  omega

/-- The observers that take part are among all, and each has what `Served` says. -/
theorem listMaxBitrates_ok (allocation : ObserverAllocation Obs) (includeZero : Bool)
    (Served : ObserverConfig Obs → Prop) (pending sorted : List (ObserverConfig Obs))
    (hfind : ∀ config ∈ pending, ∃ bitrate, find config.observer allocation = some bitrate ∧
      (includeZero ∨ bitrate ≠ 0 → Served config))
    (hsorted : ∀ config ∈ sorted, Served config) :
    ∃ result, listMaxBitrates includeZero allocation pending sorted = .ok result ∧
      ∀ config ∈ result, Served config := by
  induction pending generalizing sorted with
  | nil => exact ⟨sorted, rfl, hsorted⟩
  | cons config pending ih =>
    obtain ⟨bitrate, hbitrate, hserved⟩ := hfind config (.head _)
    have hrest := fun c hc => hfind c (.tail _ hc)
    have hinserted (h : Served config) : ∀ c ∈ insertByMax config sorted, Served c := by
      intro c hc
      rcases mem_cons.mp ((insertByMax_perm config sorted).subset hc) with rfl | hc
      · exact h
      · exact hsorted c hc
    unfold listMaxBitrates
    split
    · next hzero => exact ih _ hrest (hinserted (hserved (.inl hzero)))
    rw [allocationAt_of_find hbitrate, ok_bind]
    split
    · next hne => exact ih _ hrest (hinserted (hserved (.inr hne)))
    · exact ih _ hrest hsorted

/-- One turn of the loop, when nothing wraps: an equal share of the rest, up to the limit. -/
theorem shareOut_cons {maxMultiplier allocated : Nat}
    (sorted : List (ObserverConfig Obs)) (hpos : 0 < bitrate)
    (hfind : find config.observer allocation = some allocated) (hsum : allocated + bitrate < 2 ^ 32)
    (hlimit : maxMultiplier * config.maxBitrateBps < 2 ^ 32)
    (hnew : new = min (allocated + bitrate / (sorted.length + 1))
      (maxMultiplier * config.maxBitrateBps)) :
    shareOut maxMultiplier (config :: sorted) bitrate allocation =
      shareOut maxMultiplier sorted (allocated + bitrate - new)
        (assign config.observer new allocation) := by
  have hshare : bitrate / (sorted.length + 1) ≤ bitrate := Nat.div_le_self ..
  rw [shareOut, if_neg (by omega), allocationAt_of_find hfind, ok_bind]
  dsimp only
  rw [Nat.mod_eq_of_lt hlimit, Nat.mod_eq_of_lt (by omega : _ + allocated < 2 ^ 32)]
  generalize bitrate / (sorted.length + 1) = share at *
  generalize maxMultiplier * config.maxBitrateBps = limit at *
  split
  · rw [Nat.mod_eq_of_lt (by omega), (by omega : new = limit)]
    congr 1
    omega
  rw [(by omega : new = share + allocated)]
  congr 1
  omega

omit [DecidableEq Obs] in
/-- Something is left as long as somebody else waits for it. -/
theorem left_pos {allocated : Nat} {sorted : List (ObserverConfig Obs)}
    (hpos : 0 < bitrate) (hnew : new ≤ allocated + bitrate / (sorted.length + 1)) :
    sorted ≠ [] → 0 < allocated + bitrate - new := by
  intro hne
  have hlen := length_pos_iff.mpr hne
  have hlt : bitrate / (sorted.length + 1) < bitrate := Nat.div_lt_self hpos (by omega)
  omega

theorem shareOut_ok (hvalid : Valid configs) (maxMultiplier : Nat) (hone : 1 ≤ maxMultiplier)
    (htwo : maxMultiplier ≤ 2) (hbudget : budget < 2 ^ 32) (sorted : List (ObserverConfig Obs))
    (bitrate : Nat) (allocation : ObserverAllocation Obs)
    (h : Within configs budget allocation bitrate) (hpos : sorted ≠ [] → 0 < bitrate)
    (hsorted : ∀ config ∈ sorted, config ∈ configs ∧ ∃ allocated,
      find config.observer allocation = some allocated ∧ config.minBitrateBps ≤ allocated) :
    ∃ result, shareOut maxMultiplier sorted bitrate allocation = .ok result ∧
      Within configs budget result 0 := by
  induction sorted generalizing bitrate allocation with
  | nil => exact ⟨allocation, rfl, h.mono (Nat.le_refl _) (by omega)⟩
  | cons config sorted ih =>
    obtain ⟨hmem, allocated, hallocated, hmin⟩ := hsorted config (.head _)
    have hbitrate := hpos (cons_ne_nil _ _)
    -- Nothing wraps: all values are part of the budget.
    have hle := find_le_total hallocated
    have hbounded := h.bounded
    have hmax := hvalid.max_lt hmem
    have hminmax := hvalid.min_le_max config hmem
    have hlow : config.maxBitrateBps ≤ maxMultiplier * config.maxBitrateBps :=
      Nat.le_mul_of_pos_left _ hone
    have hhigh : maxMultiplier * config.maxBitrateBps ≤ 2 * config.maxBitrateBps :=
      Nat.mul_le_mul_right _ htwo
    generalize hnew : min (allocated + bitrate / (sorted.length + 1))
      (maxMultiplier * config.maxBitrateBps) = new
    rw [shareOut_cons sorted hbitrate hallocated (by omega) (by omega) hnew.symm]
    have hleft := left_pos hbitrate (hnew ▸ Nat.min_le_left ..)
    have hshare : bitrate / (sorted.length + 1) ≤ bitrate := Nat.div_le_self ..
    generalize bitrate / (sorted.length + 1) = share at *
    apply ih
    · exact h.assign hvalid hmem hallocated (by omega) (by omega)
    · exact hleft
    -- The others keep what they have.
    intro other hother
    obtain ⟨hin, value, hvalue, hle⟩ := hsorted other (.tail _ hother)
    rw [find_assign_of_mem (h.mem_keys hmem)]
    split
    · next hsame =>
      cases hvalid.eq_of_observer hin hmem hsame
      exact ⟨hin, new, rfl, by omega⟩
    · exact ⟨hin, value, hvalue, hle⟩

/-- The whole call, for an allocation in which everybody who takes part has its minimum. -/
theorem distributeBitrateEvenly_ok (hvalid : Valid configs) {maxMultiplier : Nat}
    (hone : 1 ≤ maxMultiplier) (htwo : maxMultiplier ≤ 2) (hbudget : budget < 2 ^ 32)
    (includeZero : Bool) (hbitrate : 0 < bitrate) (h : Within configs budget allocation bitrate)
    (hserved : includeZero → ∀ config ∈ configs, ∃ allocated,
      find config.observer allocation = some allocated ∧ config.minBitrateBps ≤ allocated) :
    ∃ result, distributeBitrateEvenly configs bitrate includeZero maxMultiplier allocation =
      .ok result ∧ Within configs budget result 0 := by
  rw [distributeBitrateEvenly, if_pos h.length_eq]
  have hcollect : ∀ config ∈ configs, ∃ value, find config.observer allocation = some value ∧
      (includeZero ∨ value ≠ 0 → config ∈ configs ∧ ∃ allocated,
        find config.observer allocation = some allocated ∧ config.minBitrateBps ≤ allocated) := by
    intro config hmem
    obtain ⟨value, hvalue, hzero⟩ := h.served config hmem
    refine ⟨value, hvalue, fun htakes => ⟨hmem, ?_⟩⟩
    rcases htakes with hinclude | hne
    · exact hserved hinclude config hmem
    · exact ⟨value, hvalue, hzero.resolve_left hne⟩
  obtain ⟨sorted, hsorted, hall⟩ :=
    listMaxBitrates_ok allocation includeZero _ configs [] hcollect (by simp)
  rw [hsorted, ok_bind]
  exact shareOut_ok hvalid maxMultiplier hone htwo hbudget sorted bitrate allocation h
    (fun _ => hbitrate) hall

/-! ### With everybody at its minimum -/

/-- What an observer can take above its minimum. -/
def room (config : ObserverConfig Obs) : Nat := config.maxBitrateBps - config.minBitrateBps

/-- Nothing is left after the last turn of the loop. -/
def Absorbed : (rooms : List Nat) → (bitrate : Nat) → Prop
  | [], bitrate => bitrate = 0
  | room :: rooms, bitrate => Absorbed rooms (bitrate - min (bitrate / (rooms.length + 1)) room)

theorem absorbed_zero (rooms : List Nat) : Absorbed rooms 0 := by
  induction rooms with
  | nil => rfl
  | cons _ rooms ih => rwa [Absorbed, Nat.zero_sub]

theorem Absorbed.le_sum {rooms : List Nat} {bitrate : Nat} (h : Absorbed rooms bitrate) :
    bitrate ≤ rooms.sum := by
  induction rooms generalizing bitrate with
  | nil => exact Nat.le_of_eq h
  | cons _ rooms ih =>
    have hrest := ih h
    rw [sum_cons]
    omega

/-- No observer has more room than an equal share of the rooms from its own on. -/
def SharesFill (rooms : List Nat) : Prop :=
  ∀ room rest, room :: rest <:+ rooms → (rest.length + 1) * room ≤ room + rest.sum

theorem sharesFill_nil : SharesFill [] := by
  intro room rest h
  exact absurd (suffix_nil.mp h) (cons_ne_nil _ _)

theorem sharesFill_cons {room : Nat} {rooms : List Nat} : SharesFill (room :: rooms) ↔
    (rooms.length + 1) * room ≤ room + rooms.sum ∧ SharesFill rooms := by
  constructor
  · exact fun h => ⟨h room rooms (suffix_refl _), fun r rest hr => h r rest (hr.trans (suffix_cons ..))⟩
  rintro ⟨hfirst, h⟩ r rest hr
  rcases suffix_cons_iff.mp hr with heq | hr
  · cases heq
    exact hfirst
  · exact h r rest hr

/-- What can be taken is taken if the shares fill. -/
theorem SharesFill.absorbed {rooms : List Nat} (h : SharesFill rooms) {bitrate : Nat}
    (hle : bitrate ≤ rooms.sum) : Absorbed rooms bitrate := by
  induction rooms generalizing bitrate with
  | nil => exact Nat.le_zero.mp hle
  | cons room rooms ih =>
    obtain ⟨hfirst, h⟩ := sharesFill_cons.mp h
    refine ih h ?_
    rw [sum_cons] at hle
    rcases Nat.le_total room (bitrate / (rooms.length + 1)) with hfull | hshort
    · omega
    -- a share below the room leaves an equal share, rounded up, for each of the others
    rw [Nat.min_eq_left hshort]
    have hdiv := Nat.div_add_mod bitrate (rooms.length + 1)
    have hmod : bitrate % (rooms.length + 1) < rooms.length + 1 := Nat.mod_lt _ (Nat.succ_pos _)
    rcases Nat.eq_or_lt_of_le hshort with heq | hlt
    · omega
    have hothers := Nat.mul_le_mul_left rooms.length hlt
    rw [Nat.add_mul, Nat.one_mul] at hdiv hfirst
    rw [Nat.mul_succ] at hothers
    omega

theorem sharesFill_of_absorbed {rooms : List Nat} (h : Absorbed rooms rooms.sum) :
    SharesFill rooms := by
  induction rooms with
  | nil => exact sharesFill_nil
  | cons room rooms ih =>
    rw [Absorbed, sum_cons] at h
    have hle := h.le_sum
    have hshare : room ≤ (room + rooms.sum) / (rooms.length + 1) := by omega
    rw [Nat.min_eq_right hshare, Nat.add_sub_cancel_left] at h
    rw [Nat.le_div_iff_mul_le (Nat.succ_pos _), Nat.mul_comm] at hshare
    exact sharesFill_cons.mpr ⟨hshare, ih h⟩

/-- The observers in the order in which they are served. -/
def servedOrder (configs : List (ObserverConfig Obs)) : List (ObserverConfig Obs) :=
  configs.foldl (fun sorted config => insertByMax config sorted) []

omit [DecidableEq Obs] in
theorem servedOrder_perm (configs : List (ObserverConfig Obs)) :
    (servedOrder configs).Perm configs := by
  suffices h : ∀ sorted, (configs.foldl (fun sorted config => insertByMax config sorted)
      sorted).Perm (configs ++ sorted) by
    have hall := h []
    rwa [append_nil] at hall
  induction configs with
  | nil => exact fun _ => .refl _
  | cons config configs ih =>
    intro sorted
    exact (ih _).trans (((insertByMax_perm config sorted).append_left configs).trans perm_middle)

theorem listMaxBitrates_all (allocation : ObserverAllocation Obs)
    (configs sorted : List (ObserverConfig Obs)) : listMaxBitrates true allocation configs sorted =
      .ok (configs.foldl (fun sorted config => insertByMax config sorted) sorted) := by
  induction configs generalizing sorted with
  | nil => rfl
  | cons config configs ih => exact ih _

/-- Every observer has a value between its minimum and its maximum. -/
def Between (configs : List (ObserverConfig Obs)) (allocation : ObserverAllocation Obs) : Prop :=
  ∀ config ∈ configs, ∃ bitrate, find config.observer allocation = some bitrate ∧
    config.minBitrateBps ≤ bitrate ∧ bitrate ≤ config.maxBitrateBps

/-- The observers not yet served have their minimums. -/
theorem shareOut_absorbed (hvalid : Valid configs) (sorted : List (ObserverConfig Obs))
    (bitrate : Nat) (allocation : ObserverAllocation Obs)
    (hkeys : keys allocation = configs.map observer)
    (hfits : total allocation + bitrate < 2 ^ 32) (hpos : sorted ≠ [] → 0 < bitrate)
    (hnodup : (sorted.map observer).Nodup)
    (hsorted : ∀ config ∈ sorted, config ∈ configs ∧
      find config.observer allocation = some config.minBitrateBps)
    (hbetween : Between configs allocation) :
    ∃ result, shareOut 1 sorted bitrate allocation = .ok result ∧
      keys result = configs.map observer ∧ Between configs result ∧
      total result ≤ total allocation + bitrate ∧
      (total result = total allocation + bitrate ↔ Absorbed (sorted.map room) bitrate) := by
  induction sorted generalizing bitrate allocation with
  | nil => exact ⟨allocation, rfl, hkeys, hbetween, by omega, by simp [Absorbed]⟩
  | cons config sorted ih =>
    obtain ⟨hmem, hallocated⟩ := hsorted config (.head _)
    rw [map_cons, nodup_cons] at hnodup
    have hbitrate := hpos (cons_ne_nil _ _)
    have hle := find_le_total hallocated
    have hmax := hvalid.max_lt hmem
    have hminmax := hvalid.min_le_max config hmem
    have hkey : config.observer ∈ keys allocation := hkeys ▸ mem_map_of_mem hmem
    generalize hnew : min (config.minBitrateBps + bitrate / (sorted.length + 1))
      (1 * config.maxBitrateBps) = new
    rw [shareOut_cons sorted hbitrate hallocated (by omega) (by omega) hnew.symm]
    have hleft := left_pos hbitrate (hnew ▸ Nat.min_le_left ..)
    have hgiven : bitrate - min (bitrate / (sorted.length + 1)) (room config) =
        config.minBitrateBps + bitrate - new := by
      unfold room
      omega
    have habsorbed : Absorbed ((config :: sorted).map room) bitrate ↔
        Absorbed (sorted.map room) (config.minBitrateBps + bitrate - new) := by
      rw [map_cons, Absorbed, length_map, hgiven]
    have hshare : bitrate / (sorted.length + 1) ≤ bitrate := Nat.div_le_self ..
    generalize bitrate / (sorted.length + 1) = share at *
    have htotal := total_assign hallocated new
    have hsum : total allocation + bitrate = total (assign config.observer new allocation) +
        (config.minBitrateBps + bitrate - new) := by omega
    rw [habsorbed, hsum]
    apply ih _ _ ((keys_assign_of_mem hkey new).trans hkeys) (by omega) hleft hnodup.2
    · intro other hother
      obtain ⟨hin, hvalue⟩ := hsorted other (.tail _ hother)
      refine ⟨hin, ?_⟩
      rw [find_assign_of_mem hkey, if_neg, hvalue]
      intro hsame
      exact hnodup.1 (hsame ▸ mem_map_of_mem hother)
    · intro other hother
      rw [find_assign_of_mem hkey]
      split
      · next hsame =>
        cases hvalid.eq_of_observer hother hmem hsame
        exact ⟨new, rfl, by omega, by omega⟩
      · exact hbetween other hother

end Distribute

/-! ## The modes -/

section Modes

variable {configs : List (ObserverConfig Obs)} {bitrate : Nat}
  {minBitrateWithHysteresis : ObserverConfig Obs → Nat}

/-- What is enforced whatever the bitrate. -/
def sumEnforced (configs : List (ObserverConfig Obs)) : Nat := (configs.map enforcedBitrate).sum

/-- Within the budget, with nothing overdrawn. -/
def Solvent (configs : List (ObserverConfig Obs)) (budget : Nat)
    (state : ObserverAllocation Obs × Int) : Prop :=
  Within configs budget state.1 state.2 ∧ 0 ≤ state.2

/-- With nothing left after the enforced minimums both loops are skipped. -/
theorem serve_none (h : ¬ state.2 > 0) : servePaused minBitrateWithHysteresis configs
      (serveActive minBitrateWithHysteresis configs state) = state := by
  rw [serveActive, if_neg h, servePaused, if_neg h]

omit [DecidableEq Obs] in
theorem foldl_sub (start : Int) (configs : List (ObserverConfig Obs)) :
    configs.foldl (fun remaining config => remaining - (enforcedBitrate config : Int)) start =
      start - sumEnforced configs := by
  induction configs generalizing start with
  | nil => simp [sumEnforced]
  | cons config configs ih =>
    rw [foldl_cons, ih]
    simp only [sumEnforced, map_cons, sum_cons]
    omega

omit [DecidableEq Obs] in
theorem enforcedBitrate_zero_or_min (config : ObserverConfig Obs) :
    enforcedBitrate config = 0 ∨ config.minBitrateBps ≤ enforcedBitrate config := by
  unfold enforcedBitrate
  split
  · exact .inr (Nat.le_refl _)
  · exact .inl rfl

section Served

variable (hvalid : Valid configs) (hhysteresis : ∀ config ∈ configs,
  config.minBitrateBps ≤ minBitrateWithHysteresis config)
include hvalid hhysteresis

theorem serve_solvent (h : Solvent configs bitrate state) (hmem : config ∈ configs) :
    Solvent configs bitrate (serve minBitrateWithHysteresis state config) := by
  unfold serve
  split
  · next henough =>
    obtain ⟨_, hold, -⟩ := h.1.served config hmem
    exact ⟨h.1.assign hvalid hmem hold (hhysteresis config hmem) (by omega), by omega⟩
  · exact h

/-- Both loops serve some of the observers and leave out the others. -/
theorem foldl_serve_solvent (skip : ObserverConfig Obs → Bool) (h : Solvent configs bitrate state) :
    Solvent configs bitrate (if state.2 > 0 then
      configs.foldl (fun state config => if skip config then state
        else serve minBitrateWithHysteresis state config) state else state) := by
  split
  · refine foldlRecOn configs _ h ?_
    intro s hs config hmem
    split
    · exact hs
    · exact serve_solvent hvalid hhysteresis hs hmem
  · exact h

theorem served_solvent (h : Solvent configs bitrate state) :
    Solvent configs bitrate (servePaused minBitrateWithHysteresis configs
      (serveActive minBitrateWithHysteresis configs state)) := by
  have hactive : Solvent configs bitrate (serveActive minBitrateWithHysteresis configs state) := by
    simpa only [serveActive, Bool.or_eq_true, decide_eq_true_eq] using
      foldl_serve_solvent hvalid hhysteresis
        (fun config => config.enforceMinBitrate || decide (lastAllocatedBitrate config = 0)) h
  simpa only [servePaused, decide_eq_true_eq] using
    foldl_serve_solvent hvalid hhysteresis
      (fun config => decide (lastAllocatedBitrate config ≠ 0)) hactive

theorem lowRateAllocation_ok (hbitrate : bitrate < 2 ^ 32) :
    ∃ result, lowRateAllocation minBitrateWithHysteresis configs bitrate = .ok result ∧
      Within configs (max bitrate (sumEnforced configs)) result 0 := by
  have hzeroOrMin := fun config (_ : config ∈ configs) => enforcedBitrate_zero_or_min config
  unfold lowRateAllocation
  rw [foldl_sub]
  dsimp only
  by_cases hleft : (bitrate : Int) - sumEnforced configs > 0
  · have hfirst : Within configs bitrate _ ((bitrate : Int) - sumEnforced configs) :=
      within_foldl hvalid enforcedBitrate hzeroOrMin (by unfold sumEnforced; omega)
    have hserved := served_solvent hvalid hhysteresis
      (show Solvent configs bitrate (_, _) from ⟨hfirst, by omega⟩)
    generalize servePaused minBitrateWithHysteresis configs _ = state at hserved ⊢
    obtain ⟨hwithin, hsolvent⟩ := hserved
    have hbounded := hwithin.bounded
    split
    · next hpos =>
      have hconvert : (((state.2 % 2 ^ 32).toNat : Nat) : Int) = state.2 := by omega
      obtain ⟨result, hresult, hdone⟩ := distributeBitrateEvenly_ok hvalid (Nat.le_refl 1)
        (by omega) hbitrate false (by omega : 0 < (state.2 % 2 ^ 32).toNat)
        (hconvert.symm ▸ hwithin) (by simp)
      rw [hresult, ok_bind, if_pos hdone.length_eq]
      exact ⟨result, rfl, hdone.mono (Nat.le_max_left ..) (Int.le_refl 0)⟩
    · rw [ok_bind, if_pos hwithin.length_eq]
      exact ⟨state.1, rfl, hwithin.mono (Nat.le_max_left ..) hsolvent⟩
  · have hfirst : Within configs (sumEnforced configs) _ 0 :=
      within_foldl hvalid enforcedBitrate hzeroOrMin (by unfold sumEnforced; omega)
    rw [serve_none hleft, if_neg hleft, ok_bind, if_pos hfirst.length_eq]
    exact ⟨_, rfl, hfirst.mono (Nat.le_max_right ..) (Int.le_refl 0)⟩

end Served

/-- Every observer gets a value between its minimum and its maximum, and together they get the
bitrate or less. -/
theorem normalRateAllocation_ok (hvalid : Valid configs) (hbitrate : bitrate < 2 ^ 32)
    (hsum : (configs.map minBitrateBps).sum ≤ bitrate) :
    ∃ result, normalRateAllocation configs bitrate
        (configs.map minBitrateBps).sum = .ok result ∧
      keys result = configs.map observer ∧ Between configs result ∧
      total result ≤ bitrate ∧ (total result = bitrate ↔ Absorbed ((servedOrder configs).map room)
        (bitrate - (configs.map minBitrateBps).sum)) := by
  have hrest : (bitrate + (2 ^ 32 - (configs.map minBitrateBps).sum)) % 2 ^ 32 =
      bitrate - (configs.map minBitrateBps).sum := by omega
  have htotal : total (configs.map fun config => (config.observer, config.minBitrateBps)) +
      (bitrate - (configs.map minBitrateBps).sum) = bitrate := by
    rw [total_map minBitrateBps]
    omega
  have hbetween : Between configs
      (configs.map fun config => (config.observer, config.minBitrateBps)) := fun config hmem =>
    ⟨_, find_map hvalid _ hmem, Nat.le_refl _, hvalid.min_le_max config hmem⟩
  have hkeys := @keys_map _ configs minBitrateBps
  unfold normalRateAllocation
  dsimp only
  rw [hrest, foldl_assign_eq hvalid]
  generalize bitrate - (configs.map minBitrateBps).sum = rest at *
  have hperm := servedOrder_perm configs
  split
  · next hpos =>
    rw [distributeBitrateEvenly, if_pos (length_map _), listMaxBitrates_all, ok_bind]
    obtain ⟨result, hresult, hdone⟩ := shareOut_absorbed hvalid (servedOrder configs) rest _ hkeys
      (by omega) (fun _ => hpos) ((hperm.map _).nodup_iff.mpr hvalid.distinct)
      (fun config hmem => ⟨hperm.subset hmem, find_map hvalid _ (hperm.subset hmem)⟩) hbetween
    rw [htotal] at hdone
    exact ⟨result, hresult, hdone⟩
  · next hzero =>
    rw [Nat.eq_zero_of_not_pos hzero] at htotal ⊢
    refine ⟨_, rfl, hkeys, hbetween, by omega, ?_⟩
    exact ⟨fun _ => absorbed_zero _, fun _ => by omega⟩

omit [DecidableEq Obs] in
theorem foldl_sub_mod (start : Nat) (configs : List (ObserverConfig Obs))
    (hstart : start < 2 ^ 32) (hle : (configs.map maxBitrateBps).sum ≤ start) :
    configs.foldl (fun bitrate config => (bitrate + (2 ^ 32 - config.maxBitrateBps)) % 2 ^ 32)
      start = start - (configs.map maxBitrateBps).sum := by
  induction configs generalizing start with
  | nil => simp
  | cons config configs ih =>
    rw [map_cons, sum_cons] at hle ⊢
    have hstep : (start + (2 ^ 32 - config.maxBitrateBps)) % 2 ^ 32 =
        start - config.maxBitrateBps := by omega
    rw [foldl_cons, hstep, ih _ (by omega) (by omega)]
    omega

theorem maxRateAllocation_ok (hvalid : Valid configs) (hbitrate : bitrate < 2 ^ 32)
    (hsum : (configs.map maxBitrateBps).sum < bitrate) :
    ∃ result, maxRateAllocation configs bitrate = .ok result ∧ Within configs bitrate result 0 := by
  unfold maxRateAllocation
  rw [foldl_sub_mod bitrate configs hbitrate (by omega)]
  have hfirst : Within configs bitrate _
      ((bitrate - (configs.map maxBitrateBps).sum : Nat) : Int) :=
    within_foldl hvalid maxBitrateBps
      (fun config hmem => .inr (hvalid.min_le_max config hmem)) (by omega)
  exact distributeBitrateEvenly_ok hvalid (by decide) (by decide) hbitrate true (by omega) hfirst
    fun _ config hmem => ⟨_, foldl_assign_eq hvalid _ ▸ find_map hvalid _ hmem,
      hvalid.min_le_max config hmem⟩

omit [DecidableEq Obs] in
theorem Valid.sum_min_le (hvalid : Valid configs) : (configs.map minBitrateBps).sum ≤
      (configs.map maxBitrateBps).sum :=
  sum_le_sum hvalid.min_le_max

omit [DecidableEq Obs] in
theorem sum_room (hvalid : Valid configs) : ((servedOrder configs).map room).sum =
    (configs.map maxBitrateBps).sum - (configs.map minBitrateBps).sum := by
  rw [((servedOrder_perm configs).map room).sum_eq]
  have hminmax := hvalid.min_le_max
  clear hvalid
  induction configs with
  | nil => rfl
  | cons config configs ih =>
    have hle := sum_le_sum fun c hc => hminmax c (.tail _ hc)
    have hconfig := hminmax config (.head _)
    simp only [map_cons, sum_cons, ih fun c hc => hminmax c (.tail _ hc), room]
    omega

/-- **The whole bitrate.** Between the sums of the minimums and of the maximums every observer gets
a value between its own two, and the values make up the bitrate, whatever it is, exactly if no
observer has more room than an equal share of the rooms that are left at its turn. -/
theorem normalRateAllocation_whole_iff (configs : List (ObserverConfig Obs))
    (hvalid : Valid configs) :
    (∀ bitrate, (configs.map ObserverConfig.minBitrateBps).sum ≤ bitrate →
      bitrate ≤ (configs.map ObserverConfig.maxBitrateBps).sum →
      ∃ allocation, normalRateAllocation configs bitrate
          (configs.map ObserverConfig.minBitrateBps).sum = .ok allocation ∧
        keys allocation = configs.map ObserverConfig.observer ∧
        ∀ config ∈ configs, ∃ allocated, find config.observer allocation = some allocated ∧
          config.minBitrateBps ≤ allocated ∧ allocated ≤ config.maxBitrateBps) ∧
    ((∀ bitrate, (configs.map ObserverConfig.minBitrateBps).sum ≤ bitrate →
      bitrate ≤ (configs.map ObserverConfig.maxBitrateBps).sum →
      ∃ allocation, normalRateAllocation configs bitrate
          (configs.map ObserverConfig.minBitrateBps).sum = .ok allocation ∧
        total allocation = bitrate) ↔
      SharesFill ((servedOrder configs).map room)) := by
  have hsum := hvalid.sum_lt
  have hrooms := sum_room hvalid
  refine ⟨fun bitrate hmin hmax => ?_, fun hwhole => ?_, fun hfill bitrate hmin hmax => ?_⟩
  · obtain ⟨result, hresult, hkeys, hbetween, -⟩ := normalRateAllocation_ok hvalid (by omega) hmin
    exact ⟨result, hresult, hkeys, hbetween⟩
  · -- the sum of the maximums asks for every room
    have hmin := hvalid.sum_min_le
    obtain ⟨result, hresult, -, -, -, hiff⟩ := normalRateAllocation_ok hvalid (by omega) hmin
    obtain ⟨allocation, hallocation, htotal⟩ := hwhole _ hmin (Nat.le_refl _)
    rw [hresult] at hallocation
    cases hallocation
    rw [← hrooms] at hiff
    exact sharesFill_of_absorbed (hiff.mp htotal)
  · obtain ⟨result, hresult, -, -, -, hiff⟩ := normalRateAllocation_ok hvalid (by omega) hmin
    exact ⟨result, hresult, hiff.mpr (hfill.absorbed (by omega))⟩

/-- Of 20 the second observer takes 11, and nobody is left for the 4 it cannot take. -/
theorem normalRateAllocation_whole_lost :
    let configs : List (ObserverConfig Nat) := [⟨0, 0, 10, true, -1⟩, ⟨1, 9, 11, true, -1⟩]
    normalRateAllocation configs 20 9 = .ok [(0, 5), (1, 11)] ∧
      ∃ allocation, normalRateAllocation configs 20 9 = .ok allocation ∧ total allocation ≠ 20 :=
  ⟨rfl, _, rfl, by decide⟩

theorem normalRateAllocation_whole_filled : ∃ allocation, normalRateAllocation
        [(⟨0, 30, 100, true, -1⟩ : ObserverConfig Nat), ⟨1, 50, 200, false, 0⟩] 170 80 =
          .ok allocation ∧ total allocation = 170 :=
  (normalRateAllocation_whole_iff
    [(⟨0, 30, 100, true, -1⟩ : ObserverConfig Nat), ⟨1, 50, 200, false, 0⟩]
    ⟨by decide, by decide, by decide⟩).2.mpr
      (sharesFill_cons.mpr ⟨by decide, sharesFill_cons.mpr ⟨by decide, sharesFill_nil⟩⟩) 170
      (by decide) (by decide)

/-! ## AllocateBitrates -/

omit [DecidableEq Obs] in
theorem foldl_sum_mod (value : ObserverConfig Obs → Nat) (start : Nat)
    (configs : List (ObserverConfig Obs)) (hlt : start + (configs.map value).sum < 2 ^ 32) :
    configs.foldl (fun sum config => (sum + value config) % 2 ^ 32) start =
      start + (configs.map value).sum := by
  induction configs generalizing start with
  | nil => simp
  | cons config configs ih =>
    rw [map_cons, sum_cons] at hlt ⊢
    have hstep : (start + value config) % 2 ^ 32 = start + value config := by omega
    rw [foldl_cons, hstep, ih _ (by omega)]
    omega

/-- `AllocateBitrates` stays within the larger of the bitrate and the enforced minimums, gives each
observer nothing or at least its minimum, and no check fails on the way. -/
theorem allocateBitrates_within_budget (minBitrateWithHysteresis : ObserverConfig Obs → Nat)
    (configs : List (ObserverConfig Obs)) (bitrate : Nat) (hvalid : Valid configs)
    (hhysteresis : ∀ config ∈ configs, config.minBitrateBps ≤ minBitrateWithHysteresis config)
    (hbitrate : bitrate < 2 ^ 32) :
    ∃ allocation, allocateBitrates minBitrateWithHysteresis configs bitrate = .ok allocation ∧
      keys allocation = configs.map ObserverConfig.observer ∧
      total allocation ≤ max bitrate (sumEnforced configs) ∧
      ∀ config ∈ configs, ∃ allocated, find config.observer allocation = some allocated ∧
        (allocated = 0 ∨ config.minBitrateBps ≤ allocated) := by
  suffices h : ∃ allocation, allocateBitrates minBitrateWithHysteresis configs bitrate =
      .ok allocation ∧ Within configs (max bitrate (sumEnforced configs)) allocation 0 by
    obtain ⟨allocation, hallocation, hwithin⟩ := h
    have hbounded := hwithin.bounded
    exact ⟨allocation, hallocation, hwithin.keys_eq, by omega, hwithin.served⟩
  have hsumMax := hvalid.sum_lt
  have hsumMin := hvalid.sum_min_le
  unfold allocateBitrates
  rw [foldl_sum_mod ObserverConfig.minBitrateBps 0 configs (by omega),
    foldl_sum_mod ObserverConfig.maxBitrateBps 0 configs (by omega), Nat.zero_add, Nat.zero_add]
  dsimp only
  split
  · next hempty =>
    rw [List.isEmpty_iff] at hempty
    subst hempty
    exact ⟨[], rfl, rfl, by simp [total], by simp⟩
  split
  · exact ⟨_, rfl, within_foldl hvalid (fun _ => 0) (by simp) (by simp)⟩
  split
  · next henough =>
    have hmin : (configs.map ObserverConfig.minBitrateBps).sum ≤ bitrate := by
      by_contra hlt
      rw [enoughBitrateForAllObservers, if_pos (by omega)] at henough
      cases henough
    obtain ⟨result, hresult, hwithin⟩ : ∃ result, (if bitrate ≤
        (configs.map ObserverConfig.maxBitrateBps).sum then
          normalRateAllocation configs bitrate (configs.map ObserverConfig.minBitrateBps).sum
        else maxRateAllocation configs bitrate) = .ok result ∧
          Within configs bitrate result 0 := by
      split
      · obtain ⟨result, hresult, hkeys, hbetween, hle, -⟩ :=
          normalRateAllocation_ok hvalid hbitrate hmin
        refine ⟨result, hresult, hkeys, by omega, fun config hmem => ?_⟩
        obtain ⟨allocated, hallocated, hserved, -⟩ := hbetween config hmem
        exact ⟨allocated, hallocated, .inr hserved⟩
      · exact maxRateAllocation_ok hvalid hbitrate (by omega)
    exact ⟨result, hresult, hwithin.mono (Nat.le_max_left ..) (Int.le_refl 0)⟩
  · exact lowRateAllocation_ok hvalid hhysteresis hbitrate

/-- Two observers, one of them paused, with less than both minimums. -/
theorem allocateBitrates_within_budget_low :
    ∃ allocation, allocateBitrates (fun config => config.minBitrateBps + 20)
        [⟨0, 30, 100, true, -1⟩, ⟨1, 50, 200, false, 0⟩] 70 = .ok allocation ∧
      keys allocation = [0, 1] ∧ total allocation ≤ 70 ∧
      ∀ config ∈ [(⟨0, 30, 100, true, -1⟩ : ObserverConfig Nat), ⟨1, 50, 200, false, 0⟩],
        ∃ allocated, find config.observer allocation = some allocated ∧
          (allocated = 0 ∨ config.minBitrateBps ≤ allocated) :=
  allocateBitrates_within_budget (fun config => config.minBitrateBps + 20)
    [⟨0, 30, 100, true, -1⟩, ⟨1, 50, 200, false, 0⟩] 70
    ⟨by decide, by decide, by decide⟩ (by simp) (by decide)

end Modes

end WebRtc.BitrateAllocator
