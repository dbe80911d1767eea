import Mathlib.Algebra.BigOperators.Ring.Nat
import Mathlib.Data.List.Chain
import Mathlib.Data.List.TakeWhile
import Mathlib.Data.Set.Basic
import WebRtc.Lib.OrderedMap

/-! Lists of half-open integer intervals in increasing order. The intervals may carry a label, so
that a list is a function that is constant on pieces; a list without two touching pieces of one
label is determined by that function. `sweep` walks two lists at once and lists where they
overlap. -/

namespace WebRtc.Intervals
open List

variable {ι : Type} (lo hi : ι → Int)

/-- The point is in the interval. -/
def Contains (i : ι) (y : Int) : Prop := lo i ≤ y ∧ y < hi i

/-- Non-empty intervals, each one at least `gap` behind the one before it. -/
structure Spaced (gap : Int) (l : List ι) : Prop where
  nonempty : ∀ i ∈ l, lo i < hi i
  apart : l.Pairwise fun i j => hi i + gap ≤ lo j

variable {lo hi} {gap : Int} {l m : List ι} {i j : ι}

theorem spaced_nil : Spaced lo hi gap [] := ⟨by simp, .nil⟩

theorem spaced_cons : Spaced lo hi gap (i :: l) ↔
    lo i < hi i ∧ (∀ j ∈ l, hi i + gap ≤ lo j) ∧ Spaced lo hi gap l := by
  constructor
  · rintro ⟨hne, hapart⟩
    obtain ⟨hhead, htail⟩ := pairwise_cons.mp hapart
    exact ⟨hne i (.head _), hhead, fun j hj => hne j (.tail _ hj), htail⟩
  · rintro ⟨hi, hhead, hl⟩
    exact ⟨forall_mem_cons.mpr ⟨hi, hl.nonempty⟩, pairwise_cons.mpr ⟨hhead, hl.apart⟩⟩

theorem spaced_append : Spaced lo hi gap (l ++ m) ↔
    Spaced lo hi gap l ∧ Spaced lo hi gap m ∧ ∀ i ∈ l, ∀ j ∈ m, hi i + gap ≤ lo j := by
  constructor
  · rintro ⟨hne, hapart⟩
    obtain ⟨hl, hm, hacross⟩ := pairwise_append.mp hapart
    exact ⟨⟨fun i hi => hne i (mem_append_left m hi), hl⟩,
      ⟨fun i hi => hne i (mem_append_right l hi), hm⟩, hacross⟩
  rintro ⟨hl, hm, hacross⟩
  exact ⟨forall_mem_append.mpr ⟨hl.nonempty, hm.nonempty⟩,
    pairwise_append.mpr ⟨hl.apart, hm.apart, hacross⟩⟩

variable (h : Spaced lo hi gap l)
include h

theorem Spaced.sublist (hm : m.Sublist l) : Spaced lo hi gap m :=
  ⟨fun i hi => h.nonempty i (hm.subset hi), h.apart.sublist hm⟩

/-- A point is in one interval only. -/
theorem Spaced.unique (hgap : 0 ≤ gap) (hi' : i ∈ l) (hj : j ∈ l) {y : Int}
    (hiy : Contains lo hi i y) (hjy : Contains lo hi j y) : i = j := by
  induction l with
  | nil => cases hi'
  | cons k l ih =>
    obtain ⟨-, hapart, hl⟩ := spaced_cons.mp h
    obtain ⟨hloi, hhii⟩ := hiy
    obtain ⟨hloj, hhij⟩ := hjy
    rcases mem_cons.mp hi' with hik | hil <;> rcases mem_cons.mp hj with hjk | hjl
    · rw [hik, hjk]
    · have := hapart j hjl
      subst hik
      omega
    · have := hapart i hil
      subst hjk
      omega
    · exact ih hl hil hjl

theorem Spaced.sorted_lo (hgap : 0 ≤ gap) : l.Pairwise fun i j => lo i ≤ lo j :=
  h.apart.imp_of_mem fun hi _ hij => by have := h.nonempty _ hi; omega

theorem Spaced.sorted_hi (hgap : 0 ≤ gap) : l.Pairwise fun i j => hi i ≤ hi j :=
  h.apart.imp_of_mem fun _ hj hij => by have := h.nonempty _ hj; omega

omit h in
/-- A cut of a list where a value that grows along it reaches `c`. -/
theorem cut {f : ι → Int} (h : l.Pairwise fun i j => f i ≤ f j) (c : Int) :
    (∀ i ∈ l.takeWhile fun i => f i < c, f i < c) ∧
      ∀ i ∈ l.dropWhile fun i => f i < c, c ≤ f i := by
  constructor
  · intro i hi'
    simpa using mem_takeWhile_imp hi'
  intro i hi'
  rw [OrderedMap.dropWhile_eq_filter (h.imp fun hij => ?_)] at hi'
  · simpa using (mem_filter.mp hi').2
  · simp only [decide_eq_true_eq]
    omega

theorem Spaced.head_le (hgap : 0 ≤ gap) (hj : l.head? = some j) (hi' : i ∈ l) : lo j ≤ lo i := by
  cases l with
  | nil => cases hi'
  | cons k l =>
    obtain ⟨hne, hapart, -⟩ := spaced_cons.mp h
    obtain rfl : k = j := by simpa using hj
    rcases mem_cons.mp hi' with rfl | hil
    · exact Int.le_refl _
    · have := hapart i hil
      omega

theorem Spaced.le_getLast (hgap : 0 ≤ gap) (hj : l.getLast? = some j)
    (hi' : i ∈ l) : hi i ≤ hi j := by
  obtain ⟨_, rfl⟩ := getLast?_eq_some_iff.mp hj
  obtain ⟨-, hlast, hacross⟩ := spaced_append.mp h
  have hne := hlast.nonempty j (.head _)
  rcases mem_append.mp hi' with hif | hil
  · have := hacross i hif j (.head _)
    omega
  · rw [mem_singleton.mp hil]

/-! ## Lists determined by their function -/

omit h

section Canonical

variable {α : Type}

/-- No two intervals of one label touch. -/
structure Canonical (lo hi : ι → Int) (label : ι → α) (l : List ι) : Prop where
  ordered : Spaced lo hi 0 l
  differ : l.IsChain fun i j => hi i = lo j → label i ≠ label j

/-- The function of the list has this value at the point. -/
def LabelAt (lo hi : ι → Int) (label : ι → α) (l : List ι) (y : Int) (c : α) : Prop :=
  ∃ i ∈ l, Contains lo hi i y ∧ label i = c

variable {label : ι → α}

theorem canonical_cons : Canonical lo hi label (i :: l) ↔ lo i < hi i ∧ (∀ j ∈ l, hi i ≤ lo j) ∧
      (∀ j ∈ l.head?, hi i = lo j → label i ≠ label j) ∧ Canonical lo hi label l := by
  constructor
  · rintro ⟨hordered, hdiffer⟩
    obtain ⟨hi', hapart, hl⟩ := spaced_cons.mp hordered
    obtain ⟨hhead, htail⟩ := isChain_cons.mp hdiffer
    exact ⟨hi', by simpa using hapart, hhead, hl, htail⟩
  rintro ⟨hi', hapart, hhead, hl⟩
  exact ⟨spaced_cons.mpr ⟨hi', by simpa using hapart, hl.ordered⟩,
    isChain_cons.mpr ⟨hhead, hl.differ⟩⟩

/-- Intervals that do not touch need no labels. -/
theorem Spaced.canonical (h : Spaced lo hi gap l) (hgap : 0 < gap) : Canonical lo hi label l := by
  refine ⟨⟨h.nonempty, h.apart.imp fun hij => by omega⟩, h.apart.isChain.imp fun i j hij => ?_⟩
  omega

/-- The first interval is where the function starts to have a value. -/
theorem lo_le_of_labelAt (h : Spaced lo hi 0 (i :: l)) {y : Int} {c : α}
    (hy : LabelAt lo hi label (i :: l) y c) : lo i ≤ y := by
  obtain ⟨hne, hapart, -⟩ := spaced_cons.mp h
  obtain ⟨j, hj, hjy, -⟩ := hy
  rcases mem_cons.mp hj with rfl | hj
  · exact hjy.1
  have := hapart j hj
  have := hjy.1
  omega

theorem labelAt_lo (h : Spaced lo hi 0 (i :: l)) : LabelAt lo hi label (i :: l) (lo i) (label i) :=
  ⟨i, .head _, ⟨Int.le_refl _, (spaced_cons.mp h).1⟩, rfl⟩

/-- At its end the first interval is not continued with the same label. -/
theorem not_labelAt_hi (h : Canonical lo hi label (i :: l)) :
    ¬ LabelAt lo hi label (i :: l) (hi i) (label i) := by
  obtain ⟨hne, hapart, hhead, hl⟩ := canonical_cons.mp h
  rintro ⟨j, hj, hjy, hlabel⟩
  rcases mem_cons.mp hj with rfl | hj
  · have := hjy.2
    omega
  cases l with
  | nil => cases hj
  | cons k l =>
    have hk := hapart k (.head _)
    rcases mem_cons.mp hj with rfl | hj'
    · exact hhead j rfl (Int.le_antisymm hk hjy.1) hlabel.symm
    obtain ⟨hkne, hkapart, -⟩ := spaced_cons.mp hl.ordered
    have := hkapart j hj'
    have := hjy.1
    omega

/-- No interval of the list is continued with the same label. -/
theorem Canonical.not_labelAt_hi (h : Canonical lo hi label l) (hi' : i ∈ l) :
    ¬ LabelAt lo hi label l (hi i) (label i) := by
  induction l with
  | nil => cases hi'
  | cons k l ih =>
    rcases mem_cons.mp hi' with rfl | hil
    · exact Intervals.not_labelAt_hi h
    rintro ⟨j, hj, hjy, hlabel⟩
    obtain ⟨hne, hapart, -, hl⟩ := canonical_cons.mp h
    rcases mem_cons.mp hj with rfl | hjl
    · have := hl.ordered.nonempty i hil
      have := hapart i hil
      have := hjy.2
      omega
    · exact ih hl hil ⟨j, hjl, hjy, hlabel⟩

theorem labelAt_tail (h : Spaced lo hi 0 (i :: l)) {y : Int} {c : α} :
    LabelAt lo hi label l y c ↔ hi i ≤ y ∧ LabelAt lo hi label (i :: l) y c := by
  obtain ⟨-, hapart, -⟩ := spaced_cons.mp h
  constructor
  · rintro ⟨j, hj, hjy, hlabel⟩
    have := hapart j hj
    have := hjy.1
    exact ⟨by omega, j, .tail _ hj, hjy, hlabel⟩
  rintro ⟨hge, j, hj, hjy, hlabel⟩
  rcases mem_cons.mp hj with rfl | hj
  · have := hjy.2
    omega
  · exact ⟨j, hj, hjy, hlabel⟩

/-- Of two lists with one function, the first interval of one is not shorter than that of the
other: at its end the function would already have changed. -/
theorem hi_le_of_labelAt (h : Canonical lo hi label (i :: l)) (hlo : lo i = lo j)
    (hlabel : label i = label j)
    (heq : ∀ y c, LabelAt lo hi label (i :: l) y c ↔ LabelAt lo hi label (j :: m) y c) :
    hi j ≤ hi i := by
  by_contra hlt
  have hne := (spaced_cons.mp h.ordered).1
  refine not_labelAt_hi h ((heq _ _).mpr ⟨j, .head _, ⟨?_, ?_⟩, hlabel.symm⟩) <;> omega

/-- Two lists without touching intervals of one label are equal if they have the same function. -/
theorem Canonical.ext (hext : ∀ i j, lo i = lo j → hi i = hi j → label i = label j → i = j)
    (h : Canonical lo hi label l) (h' : Canonical lo hi label m)
    (heq : ∀ y c, LabelAt lo hi label l y c ↔ LabelAt lo hi label m y c) : l = m := by
  induction l generalizing m with
  | nil =>
    cases m with
    | nil => rfl
    | cons j m =>
      obtain ⟨i, hi', -⟩ := (heq _ _).mpr (labelAt_lo h'.ordered)
      cases hi'
  | cons i l ih =>
    cases m with
    | nil =>
      obtain ⟨j, hj, -⟩ := (heq _ _).mp (labelAt_lo h.ordered)
      cases hj
    | cons j m =>
      have hfirst := (heq _ _).mp (labelAt_lo h.ordered)
      have hlo : lo i = lo j := Int.le_antisymm
        (lo_le_of_labelAt h.ordered ((heq _ _).mpr (labelAt_lo h'.ordered)))
        (lo_le_of_labelAt h'.ordered hfirst)
      have hlabel : label i = label j := by
        obtain ⟨k, hk, hky, hlabel⟩ := hfirst
        have hne := (spaced_cons.mp h'.ordered).1
        have hkj := h'.ordered.unique (Int.le_refl 0) hk (.head _) hky
          ⟨by omega, by omega⟩
        rw [← hlabel, hkj]
      have hhi : hi i = hi j := Int.le_antisymm
        (hi_le_of_labelAt h' hlo.symm hlabel.symm fun y c => (heq y c).symm)
        (hi_le_of_labelAt h hlo hlabel heq)
      have htail : l = m := by
        refine ih (canonical_cons.mp h).2.2.2 (canonical_cons.mp h').2.2.2 fun y c => ?_
        rw [labelAt_tail h.ordered, labelAt_tail h'.ordered, heq y c, hhi]
      rw [hext i j hlo hhi hlabel, htail]

end Canonical

/-! ## The overlaps of two lists -/

/-- Where an interval of one list overlaps an interval of another. -/
structure Overlap (ι : Type) where
  lo : Int
  hi : Int
  first : ι
  second : ι

/-- Walk two ordered lists at once. The interval that starts first is skipped when it ends before
the other one starts; otherwise the two overlap, and those that end with the overlap are done. -/
def sweep (lo hi : ι → Int) : Nat → List ι → List ι → List (Overlap ι)
  | fuel + 1, a :: l, b :: m =>
    if lo b < lo a then
      if hi b ≤ lo a then sweep lo hi fuel m (a :: l)
      else
        ⟨lo a, min (hi b) (hi a), b, a⟩ :: sweep lo hi fuel
          (if hi b = min (hi b) (hi a) then m else b :: m)
          (if hi a = min (hi b) (hi a) then l else a :: l)
    else
      if hi a ≤ lo b then sweep lo hi fuel l (b :: m)
      else
        ⟨lo b, min (hi a) (hi b), a, b⟩ :: sweep lo hi fuel
          (if hi a = min (hi a) (hi b) then l else a :: l)
          (if hi b = min (hi a) (hi b) then m else b :: m)
  | _, _, _ => []

/-- The overlap of an interval of `l` with one of `m`, whichever of the two starts first. -/
def IsOverlap (lo hi : ι → Int) (l m : List ι) (o : Overlap ι) : Prop :=
  ∃ a ∈ l, ∃ b ∈ m, (o.first = a ∧ o.second = b ∨ o.first = b ∧ o.second = a) ∧
    o.lo = max (lo a) (lo b) ∧ o.hi = min (hi a) (hi b) ∧ o.lo < o.hi

theorem IsOverlap.symm {o : Overlap ι} (h : IsOverlap lo hi l m o) : IsOverlap lo hi m l o := by
  obtain ⟨a, ha, b, hb, hpair, hlo, hhi, hne⟩ := h
  exact ⟨b, hb, a, ha, hpair.symm, by omega, by omega, hne⟩

theorem IsOverlap.mono {l' m' : List ι} {o : Overlap ι} (h : IsOverlap lo hi l m o) (hl : l ⊆ l')
    (hm : m ⊆ m') : IsOverlap lo hi l' m' o := by
  obtain ⟨a, ha, b, hb, hrest⟩ := h
  exact ⟨a, hl ha, b, hm hb, hrest⟩

/-- What the walk over `l` and `m` has to list, for lists spaced by `gap`. -/
structure Swept (lo hi : ι → Int) (gap : Int) (l m : List ι) (os : List (Overlap ι)) : Prop where
  sound : ∀ o ∈ os, IsOverlap lo hi l m o
  complete : ∀ a ∈ l, ∀ b ∈ m, ∀ y, Contains lo hi a y → Contains lo hi b y →
    ∃ o ∈ os, o.lo ≤ y ∧ y < o.hi ∧ (o.first = a ∧ o.second = b ∨ o.first = b ∧ o.second = a)
  spaced : Spaced Overlap.lo Overlap.hi gap os

theorem Swept.symm {os : List (Overlap ι)} (h : Swept lo hi gap l m os) :
    Swept lo hi gap m l os := by
  refine ⟨fun o ho => (h.sound o ho).symm, fun a ha b hb y hay hby => ?_, h.spaced⟩
  obtain ⟨o, ho, hlo, hhi, hpair⟩ := h.complete b hb a ha y hby hay
  exact ⟨o, ho, hlo, hhi, hpair.symm⟩

/-- An interval that ends before the other list starts overlaps nothing. -/
theorem Swept.skip {os : List (Overlap ι)} {a b : ι} (h : Swept lo hi gap l (b :: m) os)
    (hgap : 0 ≤ gap) (hm : Spaced lo hi gap (b :: m)) (hab : hi a ≤ lo b) :
    Swept lo hi gap (a :: l) (b :: m) os := by
  refine ⟨fun o ho => (h.sound o ho).mono (subset_cons_self a l) (List.Subset.refl _),
    fun i hi' j hj y hiy hjy => ?_, h.spaced⟩
  rcases mem_cons.mp hi' with rfl | hi'
  · obtain ⟨hne, hapart, -⟩ := spaced_cons.mp hm
    have hlo := hjy.1
    have hhi := hiy.2
    rcases mem_cons.mp hj with rfl | hj
    · omega
    · have := hapart j hj
      omega
  · exact h.complete i hi' j hj y hiy hjy

/-- Two overlapping intervals give one overlap, and the walk goes on behind it. -/
theorem Swept.emit {os : List (Overlap ι)} {a b : ι} (hgap : 0 ≤ gap)
    (hl : Spaced lo hi gap (a :: l)) (hm : Spaced lo hi gap (b :: m)) (hlo : lo a ≤ lo b)
    (hab : lo b < hi a) (h : Swept lo hi gap (if hi a = min (hi a) (hi b) then l else a :: l)
      (if hi b = min (hi a) (hi b) then m else b :: m) os) :
    Swept lo hi gap (a :: l) (b :: m) (⟨lo b, min (hi a) (hi b), a, b⟩ :: os) := by
  obtain ⟨hane, haapart, hl'⟩ := spaced_cons.mp hl
  obtain ⟨hbne, hbapart, hm'⟩ := spaced_cons.mp hm
  have hsubl : (if hi a = min (hi a) (hi b) then l else a :: l) ⊆ a :: l := by
    split
    · exact subset_cons_self a l
    · exact List.Subset.refl _
  have hsubm : (if hi b = min (hi a) (hi b) then m else b :: m) ⊆ b :: m := by
    split
    · exact subset_cons_self b m
    · exact List.Subset.refl _
  constructor
  · intro o ho
    rcases mem_cons.mp ho with rfl | ho
    · refine ⟨a, .head _, b, .head _, .inl ⟨rfl, rfl⟩, ?_, rfl, ?_⟩ <;>
        dsimp only <;> omega
    · exact (h.sound o ho).mono hsubl hsubm
  · intro i hi' j hj y hiy hjy
    by_cases hboth : i ∈ (if hi a = min (hi a) (hi b) then l else a :: l) ∧
        j ∈ (if hi b = min (hi a) (hi b) then m else b :: m)
    · obtain ⟨o, ho, hrest⟩ := h.complete i hboth.1 j hboth.2 y hiy hjy
      exact ⟨o, .tail _ ho, hrest⟩
    -- The point is in the first two intervals: one of them ends here, and the other list goes on.
    obtain ⟨hyi, hyi'⟩ := hiy
    obtain ⟨hyj, hyj'⟩ := hjy
    have hia : i = a ∧ j = b := by
      rcases mem_cons.mp hi' with rfl | hil <;> rcases mem_cons.mp hj with rfl | hjm
      · exact ⟨rfl, rfl⟩
      · have hij := hbapart j hjm
        by_cases hend : hi i = min (hi i) (hi b)
        · omega
        · exact absurd ⟨by rw [if_neg hend]; exact .head _, by split <;> simp [hjm]⟩ hboth
      · have hij := haapart i hil
        by_cases hend : hi j = min (hi a) (hi j)
        · omega
        · exact absurd ⟨by split <;> simp [hil], by rw [if_neg hend]; exact .head _⟩ hboth
      · exact absurd ⟨by split <;> simp [hil], by split <;> simp [hjm]⟩ hboth
    obtain ⟨rfl, rfl⟩ := hia
    exact ⟨_, .head _, hyj, by dsimp only; omega, .inl ⟨rfl, rfl⟩⟩
  · refine spaced_cons.mpr ⟨by dsimp only; omega, fun o ho => ?_, h.spaced⟩
    obtain ⟨i, hil, j, hjm, -, holo, -, -⟩ := h.sound o ho
    -- The list whose interval ended starts again behind the gap.
    by_cases hend : hi a = min (hi a) (hi b)
    · rw [if_pos hend] at hil
      have := haapart i hil
      dsimp only
      omega
    have hend' : hi b = min (hi a) (hi b) := by omega
    rw [if_pos hend'] at hjm
    have := hbapart j hjm
    dsimp only
    omega

theorem Spaced.ite_tail (h : Spaced lo hi gap (i :: l)) (c : Prop) [Decidable c] :
    Spaced lo hi gap (if c then l else i :: l) := by
  split
  · exact (spaced_cons.mp h).2.2
  · exact h

/-- The walk over two ordered lists lists their overlaps, in order. -/
theorem sweep_swept (hgap : 0 ≤ gap) (fuel : Nat) (hl : Spaced lo hi gap l)
    (hm : Spaced lo hi gap m) (hfuel : l.length + m.length ≤ fuel) :
    Swept lo hi gap l m (sweep lo hi fuel l m) := by
  induction fuel generalizing l m with
  | zero =>
    have : l = [] := eq_nil_of_length_eq_zero (by omega)
    subst this
    exact ⟨by simp [sweep], by simp, by simpa [sweep] using spaced_nil⟩
  | succ fuel ih =>
    match l, m with
    | [], m => exact ⟨by simp [sweep], by simp, by simpa [sweep] using spaced_nil⟩
    | a :: l, [] => exact ⟨by simp [sweep], by simp, by simpa [sweep] using spaced_nil⟩
    | a :: l, b :: m =>
      have hl' := (spaced_cons.mp hl).2.2
      have hm' := (spaced_cons.mp hm).2.2
      have hrest : ∀ (c d : Prop) [Decidable c] [Decidable d], c ∨ d →
          (if c then l else a :: l).length + (if d then m else b :: m).length ≤ fuel := by
        intro c d _ _ hcd
        simp only [length_cons] at hfuel
        by_cases hc : c <;> by_cases hd : d <;> simp [hc, hd] at hcd ⊢ <;> omega
      simp only [length_cons] at hfuel
      simp only [sweep]
      by_cases hswap : lo b < lo a
      · rw [if_pos hswap]
        by_cases hskip : hi b ≤ lo a
        · rw [if_pos hskip]
          exact (Swept.skip (ih hm' hl (by simp only [length_cons]; omega)) hgap hl hskip).symm
        rw [if_neg hskip]
        refine (Swept.emit hgap hm hl (by omega) (by omega) (ih (hm.ite_tail _) (hl.ite_tail _) ?_)).symm
        rw [Nat.add_comm]
        exact hrest _ _ (by omega)
      · rw [if_neg hswap]
        by_cases hskip : hi a ≤ lo b
        · rw [if_pos hskip]
          exact Swept.skip (ih hl' hm (by simp only [length_cons]; omega)) hgap hm hskip
        rw [if_neg hskip]
        exact Swept.emit hgap hl hm (by omega) (by omega) (ih (hl.ite_tail _) (hm.ite_tail _)
          (hrest _ _ (by omega)))

end WebRtc.Intervals
