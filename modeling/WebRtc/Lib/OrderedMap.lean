import Mathlib.Algebra.BigOperators.Ring.Nat

/-! A map kept as a list of entries in key order, for a comparison that need not be
an order on all keys. Lookup is by equality of keys; what depends on the order asks
that the comparison orders the keys involved. -/

namespace WebRtc.OrderedMap
open List

variable {κ ν : Type} {lt : κ → κ → Bool} {e : κ × ν} {k : κ} {v : ν} {m m' : List (κ × ν)}

def keys (m : List (κ × ν)) : List κ := m.map Prod.fst

theorem mem_keys_of_mem (h : e ∈ m) : e.1 ∈ keys m :=
  mem_map_of_mem h

/-! ## Order -/

/-- `lt` is a strict total order on the keys in `S`. -/
structure OrderedOn (lt : κ → κ → Bool) (S : κ → Prop) : Prop where
  irrefl : ∀ a, S a → lt a a = false
  trans : ∀ a b c, S a → S b → S c → lt a b = true → lt b c = true → lt a c = true
  total : ∀ a b, S a → S b → a ≠ b → lt a b = true ∨ lt b a = true

theorem OrderedOn.asymm {S : κ → Prop} (h : OrderedOn lt S) {a b : κ} (ha : S a) (hb : S b)
    (hab : lt a b) : lt b a = false := by
  cases hba : lt b a with
  | false => rfl
  | true => exact (h.trans a b a ha hb ha hab hba).symm.trans (h.irrefl a ha)

theorem OrderedOn.mono {S T : κ → Prop} (h : OrderedOn lt S) (hsub : ∀ k, T k → S k) :
    OrderedOn lt T :=
  ⟨fun a ha => h.irrefl a (hsub a ha),
    fun a b c ha hb hc => h.trans a b c (hsub a ha) (hsub b hb) (hsub c hc),
    fun a b ha hb => h.total a b (hsub a ha) (hsub b hb)⟩

def Sorted (lt : κ → κ → Bool) (m : List (κ × ν)) : Prop :=
  m.Pairwise (fun a b => lt a.1 b.1 = true)

/-- Being sorted is a matter of the keys. -/
theorem sorted_congr (h : keys m' = keys m) : Sorted lt m' ↔ Sorted lt m := by
  have hkeys : ∀ n : List (κ × ν), Sorted lt n ↔ (keys n).Pairwise (fun a b => lt a b) := by
    intro n
    rw [keys, pairwise_map]
    rfl
  rw [hkeys, hkeys, h]

theorem Sorted.nodup (h : Sorted lt m) (ho : OrderedOn lt (· ∈ keys m)) : (keys m).Nodup := by
  unfold keys List.Nodup
  rw [pairwise_map]
  refine h.imp_of_mem ?_
  intro a b ha _ hab he
  have hmem : a.1 ∈ keys m := mem_map_of_mem ha
  rw [← he, ho.irrefl _ hmem] at hab
  cases hab

variable [DecidableEq κ]

/-! ## Operations -/

def find (k : κ) : List (κ × ν) → Option ν
  | [] => none
  | (j, v) :: m => if j = k then some v else find k m

/-- Put a new entry in front of the first entry with a greater key. -/
def place (lt : κ → κ → Bool) (k : κ) (v : ν) : List (κ × ν) → List (κ × ν)
  | [] => [(k, v)]
  | (j, w) :: m => if lt k j then (k, v) :: (j, w) :: m else (j, w) :: place lt k v m

/-- Insertion that keeps an entry which is already there. -/
def insertNew (lt : κ → κ → Bool) (k : κ) (v : ν) (m : List (κ × ν)) : List (κ × ν) :=
  if (find k m).isSome then m else place lt k v m

def modify (k : κ) (f : ν → ν) : List (κ × ν) → List (κ × ν)
  | [] => []
  | (j, v) :: m => if j = k then (j, f v) :: m else (j, v) :: modify k f m

/-- The entries up to and including `k`. -/
def upTo (k : κ) : List (κ × ν) → List (κ × ν)
  | [] => []
  | (j, v) :: m => if j = k then [(j, v)] else (j, v) :: upTo k m

/-- The entries after `k`. -/
def after (k : κ) : List (κ × ν) → List (κ × ν)
  | [] => []
  | (j, _) :: m => if j = k then m else after k m

def erase (k : κ) (m : List (κ × ν)) : List (κ × ν) := m.filter fun e => decide (e.1 ≠ k)

/-- The entries from the first one on that is not below `k`. -/
def fromLowerBound (lt : κ → κ → Bool) (k : κ) (m : List (κ × ν)) : List (κ × ν) :=
  m.dropWhile fun e => lt e.1 k

/-- The entries from the first one on that is above `k`. -/
def fromUpperBound (lt : κ → κ → Bool) (k : κ) (m : List (κ × ν)) : List (κ × ν) :=
  m.dropWhile fun e => !lt k e.1

/-- The entry in front of the first one that is above `k`. -/
def beforeUpperBound (lt : κ → κ → Bool) (k : κ) (m : List (κ × ν)) : Option (κ × ν) :=
  (m.takeWhile fun e => !lt k e.1).getLast?

/-! ## Lookup -/

theorem find_eq_none_iff (k : κ) (m : List (κ × ν)) : find k m = none ↔ k ∉ keys m := by
  induction m with
  | nil => simp [find, keys]
  | cons e m ih =>
    simp only [keys, map_cons, mem_cons, not_or] at ih ⊢
    unfold find
    split
    · next h => simp [h]
    · next h => rw [ih]; exact ⟨fun hm => ⟨Ne.symm h, hm⟩, And.right⟩

theorem find_isSome_iff (k : κ) (m : List (κ × ν)) : (find k m).isSome ↔ k ∈ keys m := by
  rw [← not_iff_not, ← find_eq_none_iff]
  simp

theorem mem_of_find (h : find k m = some v) : (k, v) ∈ m := by
  induction m with
  | nil => cases h
  | cons e m ih =>
    unfold find at h
    split at h
    · next he => cases h; cases he; exact .head _
    · exact mem_cons_of_mem _ (ih h)

theorem mem_keys_of_find (h : find k m = some v) : k ∈ keys m :=
  (find_isSome_iff k m).mp (by simp [h])

theorem find_of_mem (hn : (keys m).Nodup) (h : (k, v) ∈ m) : find k m = some v := by
  induction m with
  | nil => cases h
  | cons e m ih =>
    obtain ⟨hnot, hn⟩ := nodup_cons.mp hn
    rcases mem_cons.mp h with rfl | h
    · simp [find]
    unfold find
    rw [if_neg, ih hn h]
    rintro rfl
    exact hnot (mem_map.mpr ⟨_, h, rfl⟩)

/-! ## Insertion and update -/

/-- A key above all others goes to the end. -/
theorem insertNew_eq_append (v : ν) (hnew : k ∉ keys m) (hlast : ∀ j ∈ keys m, lt k j = false) :
    insertNew lt k v m = m ++ [(k, v)] := by
  unfold insertNew
  rw [(find_eq_none_iff k m).mpr hnew]
  refine (if_neg Bool.false_ne_true).trans ?_
  clear hnew
  induction m with
  | nil => rfl
  | cons e m ih =>
    have hhead := hlast e.1 (.head _)
    unfold place
    rw [hhead, if_neg Bool.false_ne_true, ih fun j hj => hlast j (.tail _ hj)]
    rfl

section

variable (lt k v m)

omit [DecidableEq κ] in
theorem place_perm : (place lt k v m).Perm ((k, v) :: m) := by
  induction m with
  | nil => exact .refl _
  | cons e m ih =>
    unfold place
    split
    · exact .refl _
    · exact (ih.cons e).trans (.swap ..)

omit [DecidableEq κ] in
theorem mem_place (e : κ × ν) : e ∈ place lt k v m ↔ e = (k, v) ∨ e ∈ m :=
  (place_perm lt k v m).mem_iff.trans mem_cons

variable {m} in
theorem find_place (h : find k m = none) (j : κ) :
    find j (place lt k v m) = if j = k then some v else find j m := by
  induction m with
  | nil => simp [place, find, eq_comm]
  | cons e m ih =>
    have hne : e.1 ≠ k := by rintro he; simp [find, he] at h
    have htail : find k m = none := by simpa [find, hne] using h
    unfold place
    split
    · simp only [find, eq_comm]
    simp only [find, ih htail]
    split
    · next he => rw [if_neg (he ▸ hne)]
    · rfl

theorem find_insertNew (j : κ) :
    find j (insertNew lt k v m) = if j = k then some ((find k m).getD v) else find j m := by
  unfold insertNew
  split
  · next h =>
    obtain ⟨w, hw⟩ := Option.isSome_iff_exists.mp h
    split
    · next he => rw [he, hw]; rfl
    · rfl
  rename_i h
  have hk : find k m = none := by simpa using h
  rw [find_place lt k v hk, hk]
  rfl

theorem mem_keys_insertNew (j : κ) : j ∈ keys (insertNew lt k v m) ↔ j = k ∨ j ∈ keys m := by
  rw [← find_isSome_iff, ← find_isSome_iff, find_insertNew]
  split
  · next he => simp [he]
  · next he => simp [he]

/-- Reading with the inserted value as default, an insertion cannot be seen. -/
@[simp] theorem getD_find_insertNew (j : κ) :
    (find j (insertNew lt k v m)).getD v = (find j m).getD v := by
  rw [find_insertNew]
  split
  · next he => rw [he, Option.getD_some]
  · rfl

variable {m} in
theorem nodup_keys_insertNew (hn : (keys m).Nodup) : (keys (insertNew lt k v m)).Nodup := by
  unfold insertNew
  split
  · exact hn
  rename_i h
  have hk : k ∉ keys m := (find_eq_none_iff k m).mp (by simpa using h)
  exact ((place_perm lt k v m).map Prod.fst).nodup_iff.mpr (nodup_cons.mpr ⟨hk, hn⟩)

end

theorem mem_of_mem_insertNew (h : e ∈ insertNew lt k v m) : e = (k, v) ∨ e ∈ m := by
  unfold insertNew at h
  split at h
  · exact .inr h
  · exact (mem_place lt k v m e).mp h

theorem mem_of_mem_modify {f : ν → ν} (h : e ∈ modify k f m) :
    e ∈ m ∨ ∃ v, (k, v) ∈ m ∧ e = (k, f v) := by
  induction m with
  | nil => cases h
  | cons x m ih =>
    obtain ⟨j, w⟩ := x
    unfold modify at h
    split at h
    · next hj =>
      rcases mem_cons.mp h with rfl | h
      · exact .inr ⟨w, hj ▸ mem_cons_self, by rw [hj]⟩
      · exact .inl (.tail _ h)
    rcases mem_cons.mp h with rfl | h
    · exact .inl (.head _)
    · exact (ih h).imp (mem_cons_of_mem _)
        fun ⟨v, hv, he⟩ => ⟨v, .tail _ hv, he⟩

@[simp] theorem keys_modify (k : κ) (f : ν → ν) (m : List (κ × ν)) :
    keys (modify k f m) = keys m := by
  induction m with
  | nil => rfl
  | cons e m ih =>
    unfold modify
    split
    · rfl
    · simp only [keys, map_cons] at ih ⊢; rw [ih]

theorem find_modify (k : κ) (f : ν → ν) (m : List (κ × ν)) (j : κ) :
    find j (modify k f m) = if j = k then (find j m).map f else find j m := by
  induction m with
  | nil => simp [modify, find]
  | cons e m ih =>
    unfold modify
    split
    · next he =>
      unfold find
      by_cases hj : e.1 = j
      · simp [← he, hj]
      rw [if_neg hj, if_neg hj]
      split
      · next hjk => exact absurd (he.trans hjk.symm) hj
      · rfl
    · next he =>
      unfold find
      by_cases hj : e.1 = j
      · rw [if_pos hj, if_pos hj, if_neg (hj ▸ he)]
      · rw [if_neg hj, if_neg hj, ih]

theorem modify_place (lt : κ → κ → Bool) {j : κ} (hne : j ≠ k) (v : ν) (f : ν → ν)
    (m : List (κ × ν)) : modify k f (place lt j v m) = place lt j v (modify k f m) := by
  induction m with
  | nil => simp [place, modify, hne]
  | cons e m ih =>
    obtain ⟨i, w⟩ := e
    by_cases hi : i = k <;> by_cases hl : lt j i <;> simp_all [place, modify]

theorem modify_insertNew (lt : κ → κ → Bool) (j : κ) (v : ν) (f : ν → ν) (hk : k ∈ keys m) :
    modify k f (insertNew lt j v m) = insertNew lt j v (modify k f m) := by
  unfold insertNew
  have hfind : (find j (modify k f m)).isSome = (find j m).isSome := by
    rw [Bool.eq_iff_iff, find_isSome_iff, find_isSome_iff, keys_modify]
  rw [hfind]
  split
  · rfl
  rename_i h
  refine modify_place lt ?_ v f m
  rintro rfl
  exact h ((find_isSome_iff _ _).mpr hk)

/-! ## The entry in front of a bound -/

omit [DecidableEq κ] in
theorem mem_of_beforeUpperBound (h : beforeUpperBound lt k m = some e) : e ∈ m :=
  (takeWhile_subset _) (mem_of_getLast? h)

omit [DecidableEq κ] in
theorem beforeUpperBound_place (hk : lt k k = false) (v : ν) (m : List (κ × ν)) :
    beforeUpperBound lt k (place lt k v m) = some (k, v) := by
  induction m with
  | nil => simp [beforeUpperBound, place, hk]
  | cons e m ih =>
    cases hj : lt k e.1 with
    | true => simp [beforeUpperBound, place, hk, hj]
    | false =>
      simp only [beforeUpperBound] at ih
      simp [beforeUpperBound, place, hj, getLast?_cons, ih]

/-- A new entry is found again in front of its bound, also after lower keys are cut off. -/
theorem beforeUpperBound_insertNew {low : κ} (hk : lt k k = false) (hlow : lt k low = false) (v : ν)
    (hnew : k ∉ keys m) :
    beforeUpperBound lt k (fromLowerBound lt low (insertNew lt k v m)) = some (k, v) := by
  rw [insertNew, (find_eq_none_iff k m).mpr hnew]
  refine Eq.trans (congrArg _ (congrArg _ (if_neg Bool.false_ne_true))) ?_
  clear hnew
  induction m with
  | nil => simp [beforeUpperBound, fromLowerBound, place, hk, hlow]
  | cons e m ih =>
    have hwhole := beforeUpperBound_place hk v (e :: m)
    cases hj : lt k e.1 with
    | true => simp [beforeUpperBound, fromLowerBound, place, hk, hlow, hj]
    | false =>
      simp only [place, hj] at hwhole ⊢
      cases hcut : lt e.1 low with
      | true => simpa [fromLowerBound, hcut] using ih
      | false => simpa [fromLowerBound, hcut] using hwhole

/-! ## Counting entries -/

theorem countP_insertNew (p : κ × ν → Bool) (lt : κ → κ → Bool) (k : κ) (v : ν)
    (m : List (κ × ν)) (h : p (k, v) = false) : (insertNew lt k v m).countP p = m.countP p := by
  unfold insertNew
  split
  · rfl
  · rw [(place_perm lt k v m).countP_eq, countP_cons, h]; rfl

theorem countP_modify (p : κ × ν → Bool) (f : ν → ν) (h : find k m = some v) :
    (modify k f m).countP p + (if p (k, v) then 1 else 0) =
      m.countP p + if p (k, f v) then 1 else 0 := by
  induction m with
  | nil => cases h
  | cons e m ih =>
    obtain ⟨j, w⟩ := e
    unfold find at h
    unfold modify
    split at h
    · next he =>
      cases h
      rw [if_pos he, countP_cons, countP_cons, he]
      omega
    rename_i he
    rw [if_neg he, countP_cons, countP_cons]
    have := ih h
    omega

theorem countP_modify_same (p : κ × ν → Bool) (k : κ) (f : ν → ν) (m : List (κ × ν))
    (h : ∀ v, p (k, f v) = p (k, v)) : (modify k f m).countP p = m.countP p := by
  induction m with
  | nil => rfl
  | cons e m ih =>
    obtain ⟨j, w⟩ := e
    unfold modify
    split
    · next he => rw [countP_cons, countP_cons, he, h]
    · rw [countP_cons, countP_cons, ih]

/-! ## Keeping the order -/

theorem Sorted.insertNew (h : Sorted lt m) (k : κ) (v : ν)
    (ho : OrderedOn lt (fun j => j = k ∨ j ∈ keys m)) : Sorted lt (insertNew lt k v m) := by
  unfold OrderedMap.insertNew
  split
  · exact h
  rename_i hnone
  have hk : k ∉ keys m := by rw [← find_eq_none_iff]; simpa using hnone
  clear hnone
  induction m with
  | nil => exact pairwise_singleton _ _
  | cons e m ih =>
    obtain ⟨he, hm⟩ := pairwise_cons.mp h
    have hke : k ≠ e.1 := fun h => hk (h ▸ mem_cons_self)
    have hSe : e.1 = k ∨ e.1 ∈ keys (e :: m) := .inr (.head _)
    unfold place
    split
    · next hlt =>
      refine pairwise_cons.mpr ⟨fun x hx => ?_, h⟩
      rcases mem_cons.mp hx with rfl | hx
      · exact hlt
      · exact ho.trans k e.1 x.1 (.inl rfl) hSe
          (.inr (.tail _ (mem_map_of_mem hx))) hlt (he x hx)
    · next hlt =>
      refine pairwise_cons.mpr ⟨fun x hx => ?_, ?_⟩
      · rcases (mem_place lt k v m x).mp hx with rfl | hx
        · exact (ho.total k e.1 (.inl rfl) hSe hke).resolve_left hlt
        · exact he x hx
      refine ih hm (ho.mono ?_) (fun h => hk (.tail _ h))
      rintro j (hj | hj)
      · exact .inl hj
      · exact .inr (.tail _ hj)

theorem sorted_modify (k : κ) (f : ν → ν) : Sorted lt (modify k f m) ↔ Sorted lt m :=
  sorted_congr (keys_modify k f m)

/-! ## The two sides of a key -/

/-- A map around an entry for `k`. -/
theorem exists_split (h : k ∈ keys m) :
    ∃ a v b, m = a ++ (k, v) :: b ∧ upTo k m = a ++ [(k, v)] ∧ after k m = b := by
  induction m with
  | nil => cases h
  | cons e m ih =>
    unfold upTo after
    by_cases he : e.1 = k
    · subst he
      rw [if_pos rfl, if_pos rfl]
      exact ⟨[], e.2, m, rfl, rfl, rfl⟩
    · obtain ⟨a, v, b, hm, hu, ha⟩ := ih ((mem_cons.mp h).resolve_left (Ne.symm he))
      rw [if_neg he, if_neg he, hu, ha]
      exact ⟨e :: a, v, b, congrArg (e :: ·) hm, rfl, rfl⟩

theorem upTo_append_after (h : k ∈ keys m) : upTo k m ++ after k m = m := by
  obtain ⟨a, v, b, hm, hu, ha⟩ := exists_split h
  rw [hu, ha, append_assoc, hm]
  rfl

/-- In a sorted map the entries after `k` are those with a greater key. -/
theorem Sorted.mem_after (h : Sorted lt m) (ho : OrderedOn lt (· ∈ keys m)) (hk : k ∈ keys m)
    (e : κ × ν) : e ∈ after k m ↔ e ∈ m ∧ lt k e.1 := by
  obtain ⟨a, v, b, rfl, -, hb⟩ := exists_split hk
  obtain ⟨-, hsorted, hacross⟩ := pairwise_append.mp h
  rw [hb]
  constructor
  · exact fun he => ⟨mem_append_right _ (.tail _ he), (pairwise_cons.mp hsorted).1 e he⟩
  · rintro ⟨hm, hlt⟩
    rcases mem_append.mp hm with he | he
    · rw [ho.asymm (mem_keys_of_mem hm) hk (hacross e he _ (.head _))] at hlt
      cases hlt
    · rcases mem_cons.mp he with rfl | he
      · rw [ho.irrefl k hk] at hlt; cases hlt
      · exact he

theorem Sorted.mem_upTo (h : Sorted lt m) (ho : OrderedOn lt (· ∈ keys m)) (hk : k ∈ keys m)
    (e : κ × ν) : e ∈ upTo k m ↔ e ∈ m ∧ lt k e.1 = false := by
  obtain ⟨a, v, b, rfl, ha, -⟩ := exists_split hk
  obtain ⟨-, hsorted, hacross⟩ := pairwise_append.mp h
  rw [ha, mem_append, mem_append, mem_singleton]
  constructor
  · rintro (he | rfl)
    · exact ⟨.inl he, ho.asymm (mem_keys_of_mem (mem_append_left _ he)) hk (hacross e he _ (.head _))⟩
    · exact ⟨.inr (.head _), ho.irrefl k hk⟩
  · rintro ⟨he | he, hlt⟩
    · exact .inl he
    · rcases mem_cons.mp he with rfl | he
      · exact .inr rfl
      · rw [(pairwise_cons.mp hsorted).1 e he] at hlt; cases hlt

/-! ## Bounds -/

omit [DecidableEq κ] in
theorem mem_of_mem_fromLowerBound (h : e ∈ fromLowerBound lt k m) : e ∈ m :=
  (dropWhile_suffix _).subset h

omit [DecidableEq κ] in
/-- An entry that is not below `k` is among those from the lower bound of `k` on. -/
theorem mem_keys_fromLowerBound {j : κ} (hj : j ∈ keys m) (hlt : lt j k = false) :
    j ∈ keys (fromLowerBound lt k m) := by
  induction m with
  | nil => cases hj
  | cons e m ih =>
    unfold fromLowerBound dropWhile
    cases he : lt e.1 k with
    | false => exact hj
    | true =>
      refine ih ((mem_cons.mp hj).resolve_left ?_)
      rintro rfl
      rw [hlt] at he
      cases he

/-- Where the test only holds in front, `dropWhile` leaves all that fails it. -/
theorem dropWhile_eq_filter {α : Type} {p : α → Bool} {l : List α}
    (h : l.Pairwise fun x y => p y → p x) : l.dropWhile p = l.filter fun x => !p x := by
  induction l with
  | nil => rfl
  | cons y l ih =>
    obtain ⟨hy, hl⟩ := pairwise_cons.mp h
    cases hp : p y with
    | true => rw [dropWhile_cons_of_pos hp, filter_cons_of_neg (by simp [hp]), ih hl]
    | false =>
      rw [dropWhile_cons_of_neg (by simp [hp]), eq_comm, filter_eq_self]
      intro x hx
      rcases mem_cons.mp hx with rfl | hx
      · rw [hp]; rfl
      cases hpx : p x with
      | false => rfl
      | true => rw [hy x hx hpx] at hp; cases hp

omit [DecidableEq κ] in
/-- In a sorted map the entries from the lower bound on are those not below `k`. -/
theorem Sorted.mem_fromLowerBound (h : Sorted lt m)
    (ho : OrderedOn lt (fun j => j = k ∨ j ∈ keys m)) (e : κ × ν) :
    e ∈ fromLowerBound lt k m ↔ e ∈ m ∧ lt e.1 k = false := by
  have hfront : m.Pairwise fun a b => lt b.1 k → lt a.1 k := h.imp_of_mem fun {a b} ha hb hab =>
    ho.trans a.1 b.1 k (.inr (mem_keys_of_mem ha)) (.inr (mem_keys_of_mem hb)) (.inl rfl) hab
  rw [fromLowerBound, dropWhile_eq_filter hfront, mem_filter, Bool.not_eq_true']

omit [DecidableEq κ] in
theorem fromLowerBound_append {a b : List (κ × ν)} (ha : ∀ e ∈ a, lt e.1 k)
    (hb : ∀ e ∈ b, lt e.1 k = false) : fromLowerBound lt k (a ++ b) = b := by
  unfold fromLowerBound
  rw [dropWhile_append_of_pos ha]
  cases b with
  | nil => rfl
  | cons e b =>
    unfold dropWhile
    rw [hb e (.head _)]

/-! ## Maps with the same entries -/

omit [DecidableEq κ] in
/-- What `p` selects from two sorted maps is the same when they share those entries. -/
theorem Sorted.filter_eq (h : Sorted lt m) (h' : Sorted lt m') (ho : OrderedOn lt (· ∈ keys m'))
    {p : κ × ν → Bool} (hp : ∀ e, p e → (e ∈ m' ↔ e ∈ m)) : m'.filter p = m.filter p := by
  have hmem : ∀ e, e ∈ m'.filter p ↔ e ∈ m.filter p := by
    intro e
    rw [mem_filter, mem_filter]
    exact and_congr_left (hp e)
  have hsub : m.filter p ⊆ m' := fun e he => filter_sublist.subset ((hmem e).mpr he)
  have hnodup : ∀ {n : List (κ × ν)}, Sorted lt n → n ⊆ m' → n.Nodup := fun hn hsub =>
    .of_map _ (hn.nodup (ho.mono fun _ hk => map_subset _ hsub hk))
  have hs := h.sublist (filter_sublist (p := p))
  have hs' := h'.sublist (filter_sublist (p := p))
  refine Perm.eq_of_pairwise (fun a b ha hb hab hba => ?_) hs' hs
    ((perm_ext_iff_of_nodup (hnodup hs' filter_sublist.subset) (hnodup hs hsub)).mpr hmem)
  rw [ho.asymm (mem_keys_of_mem (filter_sublist.subset ha)) (mem_keys_of_mem (hsub hb)) hab] at hba
  cases hba

end WebRtc.OrderedMap
