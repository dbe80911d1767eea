import WebRtc.Video.FrameBufferContinuity
import Mathlib.Algebra.BigOperators.Group.Finset.Piecewise
import Mathlib.Algebra.Order.BigOperators.Group.Finset
import Mathlib.Data.Fintype.Prod

/-! The search for continuous frames, counted. A frame dropped half way stays registered
with the references before the one that made it undecodable; it misses more references
than the search can ever take from it, so it never becomes continuous. -/

namespace WebRtc.Video.Frames
open SequenceNumber OrderedMap Transition List

variable {m m' : FrameMap} {d : FrameKey} {queue : List FrameKey}

theorem toFin_injective :
    Function.Injective fun k : FrameKey => (k.pictureId.toFin, k.spatialLayer.toFin) := by
  intro a b h
  obtain ⟨h1, h2⟩ := Prod.mk.inj h
  cases a
  cases b
  cases BitVec.toFin_inj.mp h1
  cases BitVec.toFin_inj.mp h2
  rfl

/-- There are finitely many keys. -/
noncomputable def allKeys : Finset FrameKey :=
  @Finset.univ FrameKey (Fintype.ofInjective _ toFin_injective)

theorem mem_allKeys (k : FrameKey) : k ∈ allKeys :=
  @Finset.mem_univ FrameKey (Fintype.ofInjective _ toFin_injective) k

/-- How often `y` is registered with entries that are not continuous yet, or that are and
wait in the queue of the search. -/
noncomputable def owed (m : FrameMap) (queue : List FrameKey) (y : FrameKey) : Nat :=
  (∑ k ∈ allKeys, if (info m k).continuous = true then 0 else (info m k).dependentFrames.count y) +
      (queue.map fun k => (info m k).dependentFrames.count y).sum

theorem owed_congr (hd : ∀ k, (info m' k).dependentFrames = (info m k).dependentFrames)
    (hc : ∀ k, (info m' k).continuous = (info m k).continuous) (queue : List FrameKey)
    (y : FrameKey) : owed m' queue y = owed m queue y := by
  simp only [owed, hd, hc]

theorem owed_cons (m : FrameMap) (k : FrameKey) (queue : List FrameKey) (y : FrameKey) :
    owed m (k :: queue) y = owed m queue y + (info m k).dependentFrames.count y := by
  simp only [owed, map_cons, sum_cons]
  omega

theorem owed_mono (y : FrameKey)
    (h : ∀ k, info m' k = {} ∨ ((info m' k).dependentFrames = (info m k).dependentFrames ∧
      (info m' k).continuous = (info m k).continuous)) : owed m' [] y ≤ owed m [] y := by
  refine Nat.add_le_add (Finset.sum_le_sum fun k _ => ?_) (Nat.le_refl _)
  rcases h k with hk | ⟨hd, hc⟩
  · rw [hk]; simp
  · rw [hd, hc]

theorem owed_eq_zero {y : FrameKey}
    (h : ∀ k, (info m k).continuous = false → y ∉ (info m k).dependentFrames) : owed m [] y = 0 := by
  refine Finset.sum_eq_zero fun k _ => ?_
  split
  · rfl
  · next hk => exact count_eq_zero_of_not_mem (h k (by simpa using hk))

/-- An entry that becomes continuous and joins the queue still owes the same. -/
theorem owed_setContinuous (hd : d ∈ keys m) (hc : (info m d).continuous = false)
    (queue : List FrameKey) (y : FrameKey) :
    owed (modify d (·.setContinuous) m) (queue ++ [d]) y = owed m queue y := by
  have hdeps := (propagated_setContinuous hd).dependentFrames
  have hcont : ∀ k, (info (modify d (·.setContinuous) m) k).continuous =
      if k = d then true else (info m k).continuous := by
    intro k
    rw [info_modify hd]
    split <;> rfl
  have hsplit : ∀ k : FrameKey,
      (if (info m k).continuous = true then 0 else (info m k).dependentFrames.count y) =
      (if (if k = d then true else (info m k).continuous) = true then 0
        else (info m k).dependentFrames.count y) +
        if k = d then (info m d).dependentFrames.count y else 0 := by
    intro k
    by_cases hk : k = d
    · simp [hk, hc]
    · simp [hk]
  unfold owed
  simp only [hdeps, hcont, hsplit, Finset.sum_add_distrib, Finset.sum_ite_eq', mem_allKeys,
    map_append, sum_append, map_cons, map_nil, sum_cons, sum_nil]
  simp only [if_true]
  omega

theorem sum_count_of_continuous (m : FrameMap) (regs : List FrameKey) :
    (∑ k ∈ allKeys, if (info m k).continuous = true then 0 else regs.count k) =
      pendingOf m regs := by
  induction regs with
  | nil => simp [pendingOf]
  | cons r regs ih =>
    have hsplit : ∀ k : FrameKey,
        (if (info m k).continuous = true then 0 else (r :: regs).count k) =
        (if (info m k).continuous = true then 0 else regs.count k) +
          if k = r then (if (info m r).continuous = true then 0 else 1) else 0 := by
      intro k
      by_cases hk : k = r
      · subst hk
        split <;> simp
      · simp [hk, Ne.symm hk]
    unfold pendingOf at ih ⊢
    simp only [hsplit, Finset.sum_add_distrib, ih, Finset.sum_ite_eq', mem_allKeys, if_true,
      countP_cons]
    cases (info m r).continuous <;> simp

/-- Registering `key` with `regs` is owed to `key` alone. -/
theorem owed_registered {key : FrameKey} {regs : List FrameKey}
    (hd : ∀ k, (info m' k).dependentFrames =
      (info m k).dependentFrames ++ replicate (regs.count k) key)
    (hc : ∀ k, (info m' k).continuous = (info m k).continuous) (y : FrameKey) :
    owed m' [] y = owed m [] y + if y = key then pendingOf m regs else 0 := by
  unfold owed
  simp only [hd, hc, count_append, count_replicate, map_nil, sum_nil, Nat.add_zero]
  by_cases hy : y = key
  · subst hy
    rw [if_pos rfl, ← sum_count_of_continuous, ← Finset.sum_add_distrib]
    refine Finset.sum_congr rfl fun k _ => ?_
    split <;> simp
  rw [if_neg hy, Nat.add_zero]
  refine Finset.sum_congr rfl fun k _ => ?_
  simp [Ne.symm hy]

/-- `y` misses more than all decrements it can still get, if it can get any. -/
def Waits (m : FrameMap) (queue : List FrameKey) (y : FrameKey) : Prop :=
  0 < owed m queue y → (owed m queue y : Int) < (info m y).numMissingContinuous

/-- No entry that is continuous can get there once more. -/
def Settled (m : FrameMap) : Prop :=
  ∀ k, (info m k).continuous = true → (info m k).numMissingContinuous ≤ 0

theorem missingContinuous_decrement (hd : d ∈ keys m) (k : FrameKey) :
    (info (modify d (·.addMissing (-1) 0) m) k).numMissingContinuous =
      (info m k).numMissingContinuous - if k = d then 1 else 0 := by
  rw [info_modify hd]
  split
  · next he => rw [he]; rfl
  · omega

theorem missingContinuous_setContinuous (d : FrameKey) (m : FrameMap) (k : FrameKey) :
    (info (modify d (·.setContinuous) m) k).numMissingContinuous =
      (info m k).numMissingContinuous :=
  info_modify_same (·.numMissingContinuous) (·.setContinuous) (fun _ => rfl) m d k

/-- An entry that waits when `deps` are about to be decremented still waits afterwards, and
has not become continuous. -/
theorem propagateToDependents_waits {deps queue' : List FrameKey}
    (h : propagateToDependents deps m queue = .ok (m', queue')) (hset : Settled m) :
    Settled m' ∧ ∀ y, (0 < owed m queue y + deps.count y →
        (owed m queue y + deps.count y : Int) < (info m y).numMissingContinuous) →
      Waits m' queue' y ∧ ((info m' y).continuous → (info m y).continuous) := by
  induction deps generalizing m queue with
  | nil =>
    cases h
    refine ⟨hset, fun y hy => ⟨fun hpos => ?_, id⟩⟩
    simpa using hy (by simpa using hpos)
  | cons d deps ih =>
    unfold propagateToDependents at h
    split at h
    · cases h
    rename_i i hi
    have hd := mem_keys_of_find hi
    have hinfo := info_of_find hi
    have hmc := missingContinuous_decrement hd
    have hcont := continuous_decrement d m
    have howed := owed_congr (propagated_decrement hd).dependentFrames hcont
    have hset₁ : Settled (modify d (·.addMissing (-1) 0) m) := by
      intro k hk
      rw [hcont] at hk
      have := hset k hk
      rw [hmc]
      split <;> omega
    generalize hm₁ : modify d (·.addMissing (-1) 0) m = m₁ at h hmc hcont howed hset₁
    have hd₁ : d ∈ keys m₁ := by rw [← hm₁, keys_modify]; exact hd
    split at h
    · next hzero =>
      -- `d` becomes continuous: it was not, as it still missed one reference
      have hone : (info m d).numMissingContinuous = 1 := by rw [hinfo]; omega
      have hnot : (info m₁ d).continuous = false := by
        rw [hcont]
        by_contra hc
        have := hset d (by simpa using hc)
        omega
      have hset₂ : Settled (modify d (·.setContinuous) m₁) := by
        intro k hk
        rw [missingContinuous_setContinuous]
        rcases continuous_modify hd₁ hk with hk | rfl
        · exact hset₁ k hk
        · rw [hmc, if_pos rfl]; omega
      obtain ⟨h1, h2⟩ := ih h hset₂
      refine ⟨h1, fun y hy => ?_⟩
      rw [count_cons] at hy
      have hne : y ≠ d := by
        rintro rfl
        rw [if_pos (beq_self_eq_true y)] at hy
        omega
      rw [if_neg (by simpa using Ne.symm hne), Nat.add_zero] at hy
      have h2 := h2 y
      rw [owed_setContinuous hd₁ hnot, howed, missingContinuous_setContinuous, hmc,
        if_neg hne, Int.sub_zero] at h2
      obtain ⟨hw, hc⟩ := h2 hy
      refine ⟨hw, fun hk => ?_⟩
      rw [← hcont]
      exact (continuous_modify hd₁ (hc hk)).resolve_right hne
    · obtain ⟨h1, h2⟩ := ih h hset₁
      refine ⟨h1, fun y hy => ?_⟩
      have h2 := h2 y
      rw [howed, hmc, hcont] at h2
      refine h2 fun hpos => ?_
      rw [count_cons] at hy
      by_cases hyd : y = d
      · rw [if_pos (by simpa using hyd.symm)] at hy
        omega
      rw [if_neg (by simpa using Ne.symm hyd), Nat.add_zero] at hy
      rw [if_neg hyd, Int.sub_zero]
      exact hy hpos

theorem propagateLoop_waits {fuel : Nat} {last last' : FrameKey}
    (h : propagateLoop fuel queue last m = .ok (m', last')) (hset : Settled m) :
    Settled m' ∧ ∀ y, Waits m queue y →
      Waits m' [] y ∧ ((info m' y).continuous → (info m y).continuous) := by
  refine propagateLoop_rule (fun queue₁ _ m₁ => Settled m₁ ∧ ∀ y, Waits m queue y →
    Waits m₁ queue₁ y ∧ ((info m₁ y).continuous → (info m y).continuous)) ?_ h
    ⟨hset, fun y hy => ⟨hy, id⟩⟩
  rintro _ _ _ _ _ _ ⟨hset, hwaits⟩ hdeps
  obtain ⟨h1, h2⟩ := propagateToDependents_waits hdeps hset
  refine ⟨h1, fun y hy => ?_⟩
  obtain ⟨hw, hc⟩ := hwaits y hy
  unfold Waits at hw
  rw [owed_cons] at hw
  obtain ⟨hw', hc'⟩ := h2 y (by exact_mod_cast hw)
  exact ⟨hw', fun hk => hc (hc' hk)⟩

theorem propagateToDependents_ok {deps : List FrameKey} (h : ∀ d ∈ deps, d ∈ keys m)
    (queue : List FrameKey) : ∃ r, propagateToDependents deps m queue = .ok r := by
  induction deps generalizing m queue with
  | nil => exact ⟨_, rfl⟩
  | cons d deps ih =>
    unfold propagateToDependents
    rw [find_of_mem_keys (h d (.head _))]
    dsimp only
    have hrest : ∀ x ∈ deps, x ∈ keys m := fun x hx => h x (.tail _ hx)
    split
    · exact ih (fun x hx => by rw [keys_modify, keys_modify]; exact hrest x hx) _
    · exact ih (fun x hx => by rw [keys_modify]; exact hrest x hx) _

/-- The search does not fail if what is registered with an entry it visits is in the map. -/
theorem propagateLoop_ok (G : FrameKey → Prop) {fuel : Nat}
    (hG : ∀ k, G k → ∀ d ∈ (info m k).dependentFrames, d ∈ keys m ∧ G d) (hq : ∀ k ∈ queue, G k)
    (hfuel : queue.length + numWaiting m ≤ fuel) (last : FrameKey) :
    ∃ r, propagateLoop fuel queue last m = .ok r := by
  fun_induction propagateLoop fuel queue last m with
  | case1 => exact ⟨_, rfl⟩
  | case2 => rw [length_cons] at hfuel; omega
  | case3 _ k queue _ m _ herror =>
    obtain ⟨_, hok⟩ := propagateToDependents_ok (fun d hd => (hG k (hq k (.head _)) d hd).1) queue
    cases herror.symm.trans hok
  | case4 _ k queue _ m _ _ _ hdeps ih =>
    obtain ⟨hp, -, -, hnew, -⟩ := propagateToDependents_spec hdeps
    have hw := propagateToDependents_numWaiting hdeps
    rw [length_cons] at hfuel
    refine ih ?_ ?_ (by omega)
    · intro j hj d hd
      rw [hp.dependentFrames] at hd
      rw [hp.keys_eq]
      exact hG j hj d hd
    intro j hj
    rcases hnew j hj with hj | hj
    · exact hq j (.tail _ hj)
    · exact (hG k (hq k (.head _)) j hj).2

end WebRtc.Video.Frames
