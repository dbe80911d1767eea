import WebRtc.Lib.OrderedMap

/-! Maps to numbers: assignment to a key and the sum of all values. The order of the entries does
not matter here, so that a new key goes to the end. -/

namespace WebRtc.OrderedMap
open List

variable {κ ν : Type} [DecidableEq κ]

/-- `m[k] = v`. -/
def assign (k : κ) (v : ν) (m : List (κ × ν)) : List (κ × ν) :=
  if k ∈ keys m then modify k (fun _ => v) m else m ++ [(k, v)]

theorem assign_of_mem {k : κ} {m : List (κ × ν)} (h : k ∈ keys m) (v : ν) :
    assign k v m = modify k (fun _ => v) m :=
  if_pos h

theorem keys_assign_of_mem {k : κ} {m : List (κ × ν)} (h : k ∈ keys m) (v : ν) :
    keys (assign k v m) = keys m := by
  rw [assign_of_mem h, keys_modify]

theorem find_assign_of_mem {k : κ} {m : List (κ × ν)} (h : k ∈ keys m) (v : ν) (j : κ) :
    find j (assign k v m) = if j = k then some v else find j m := by
  rw [assign_of_mem h, find_modify]
  split
  · next hj =>
    obtain ⟨w, hw⟩ := Option.isSome_iff_exists.mp ((find_isSome_iff k m).mpr h)
    rw [hj, hw, Option.map_some]
  · rfl

/-- Distinct keys assigned one after the other. -/
theorem foldl_assign {α : Type} (key : α → κ) (value : α → ν) (items : List α)
    (m : List (κ × ν)) (hnew : ∀ a ∈ items, key a ∉ keys m) (hdistinct : (items.map key).Nodup) :
    items.foldl (fun m a => assign (key a) (value a) m) m =
      m ++ items.map fun a => (key a, value a) := by
  induction items generalizing m with
  | nil => simp
  | cons a items ih =>
    rw [map_cons, nodup_cons] at hdistinct
    have hfirst : assign (key a) (value a) m = m ++ [(key a, value a)] :=
      if_neg (hnew a (.head _))
    rw [foldl_cons, hfirst, ih _ _ hdistinct.2, map_cons, append_assoc]
    · rfl
    intro b hb hmem
    rw [keys, map_append, mem_append] at hmem
    rcases hmem with hmem | hmem
    · exact hnew b (.tail _ hb) hmem
    rw [map_cons, map_nil, mem_singleton] at hmem
    have hkey : key b = key a := hmem
    exact hdistinct.1 (hkey ▸ mem_map_of_mem hb)

/-- The sum of the values. -/
def total (m : List (κ × Nat)) : Nat := (m.map Prod.snd).sum

theorem total_modify {k : κ} {w : Nat} {m : List (κ × Nat)} (h : find k m = some w) (v : Nat) :
    total (modify k (fun _ => v) m) + w = total m + v := by
  induction m with
  | nil => cases h
  | cons e m ih =>
    unfold find at h
    unfold modify
    split
    · next he =>
      rw [if_pos he, Option.some.injEq] at h
      simp only [total, map_cons, sum_cons, h]
      omega
    rename_i he
    rw [if_neg he] at h
    have hrest := ih h
    simp only [total, map_cons, sum_cons] at hrest ⊢
    omega

theorem total_assign {k : κ} {w : Nat} {m : List (κ × Nat)} (h : find k m = some w) (v : Nat) :
    total (assign k v m) + w = total m + v := by
  rw [assign_of_mem (mem_keys_of_find h), total_modify h]

end WebRtc.OrderedMap
