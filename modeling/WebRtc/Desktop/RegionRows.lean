import WebRtc.Desktop.RegionSpans

/-! The rows on the two sides of an iterator: what splitting a row, merging it with the one before
it and moving on do to the order of the rows and to the pixels they cover. -/

namespace WebRtc.Desktop
open Intervals List

/-- A row that may be in a region. -/
structure Row.Ok (row : Row) : Prop where
  lines : row.top < row.bottom
  spansOk : SpansOk row.spans
  nonempty : row.spans ≠ []

/-- The rows of a region: sorted, disjoint and not empty, with spans sorted and not touching. -/
@[mk_iff] structure RowsOk (rows : Rows) : Prop where
  rowOk : ∀ row ∈ rows, row.Ok
  apart : rows.Pairwise fun row row' => row.bottom ≤ row'.top

/-- The rows above an iterator, nearest first. -/
@[mk_iff] structure AboveOk (above : List Row) : Prop where
  rowOk : ∀ row ∈ above, row.Ok
  apart : above.Pairwise fun row row' => row'.bottom ≤ row.top

variable {above : List Row} {below rows : Rows} {row : Row} {top bottom x y : Int}

theorem rowsOk_nil : RowsOk [] := ⟨by simp, .nil⟩

theorem aboveOk_nil : AboveOk [] := ⟨by simp, .nil⟩

theorem rowsOk_cons : RowsOk (row :: rows) ↔
    row.Ok ∧ (∀ row' ∈ rows, row.bottom ≤ row'.top) ∧ RowsOk rows := by
  rw [rowsOk_iff, rowsOk_iff, forall_mem_cons, pairwise_cons, and_and_and_comm, and_assoc]

theorem aboveOk_cons : AboveOk (row :: above) ↔
    row.Ok ∧ (∀ row' ∈ above, row'.bottom ≤ row.top) ∧ AboveOk above := by
  rw [aboveOk_iff, aboveOk_iff, forall_mem_cons, pairwise_cons, and_and_and_comm, and_assoc]

theorem RowsOk.spaced (h : RowsOk rows) : Spaced Row.top Row.bottom 0 rows :=
  ⟨fun row hrow => (h.rowOk row hrow).lines, h.apart.imp fun hle => by omega⟩

theorem mem_join : row ∈ join above below ↔ row ∈ above ∨ row ∈ below := by
  induction above generalizing below with
  | nil => simp [join]
  | cons _ above ih =>
    rw [join, ih]
    simp only [mem_cons]
    tauto

/-- The two sides of an iterator make a region. -/
theorem rowsOk_join (habove : AboveOk above) (hbelow : RowsOk below)
    (hacross : ∀ row ∈ above, ∀ row' ∈ below, row.bottom ≤ row'.top) :
    RowsOk (join above below) := by
  induction above generalizing below with
  | nil => exact hbelow
  | cons row above ih =>
    obtain ⟨hrow, hhead, habove⟩ := aboveOk_cons.mp habove
    refine ih habove (rowsOk_cons.mpr ⟨hrow, hacross row (.head _), hbelow⟩) ?_
    intro row' hrow' other hother
    rcases mem_cons.mp hother with rfl | hother
    · exact hhead row' hrow'
    · exact hacross row' (.tail _ hrow') other hother

/-! ## Pixels of the parts -/

@[simp] theorem not_covers_nil (x y : Int) : ¬ Covers [] x y := by simp [Covers]

@[simp] theorem covers_cons (row : Row) (rows : Rows) (x y : Int) :
    Covers (row :: rows) x y ↔ row.Covers x y ∨ Covers rows x y := by simp [Covers]

@[simp] theorem covers_append (rows rows' : Rows) (x y : Int) :
    Covers (rows ++ rows') x y ↔ Covers rows x y ∨ Covers rows' x y := by
  simp [Covers, or_and_right, exists_or]

@[simp] theorem covers_join (above : List Row) (below : Rows) (x y : Int) :
    Covers (join above below) x y ↔ Covers above x y ∨ Covers below x y := by
  induction above generalizing below with
  | nil => simp [join]
  | cons _ above ih =>
    rw [join, ih]
    simp only [covers_cons]
    tauto

theorem row_covers_iff (row : Row) (x y : Int) :
    row.Covers x y ↔ (row.top ≤ y ∧ y < row.bottom) ∧ InSpans row.spans x := Iff.rfl

/-! ## Merging and splitting -/

theorem covers_mergeWithPrecedingRow (habove : ∀ row ∈ above, row.Ok) (hrow : row.top ≤ row.bottom) :
    Covers (mergeWithPrecedingRow above row) x y ↔ row.Covers x y ∨ Covers above x y := by
  cases above with
  | nil => simp [mergeWithPrecedingRow]
  | cons previous above =>
    rw [mergeWithPrecedingRow]
    split
    next h =>
      have := (habove previous (.head _)).lines
      obtain ⟨hbottom, hspans⟩ := h
      simp only [covers_cons, row_covers_iff, hspans]
      by_cases hx : InSpans row.spans x <;> simp only [hx, and_true, and_false, false_or]
      rw [← or_assoc]
      refine or_congr_left ?_
      omega
    next => simp

theorem aboveOk_mergeWithPrecedingRow (habove : AboveOk above) (hrow : row.Ok)
    (hle : ∀ row' ∈ above, row'.bottom ≤ row.top) : AboveOk (mergeWithPrecedingRow above row) := by
  cases above with
  | nil => exact aboveOk_cons.mpr ⟨hrow, by simp, aboveOk_nil⟩
  | cons _ above =>
    rw [mergeWithPrecedingRow]
    split
    next h =>
      obtain ⟨hprevious, hhead, habove⟩ := aboveOk_cons.mp habove
      have := hprevious.lines
      have := hrow.lines
      exact aboveOk_cons.mpr ⟨⟨by dsimp only; omega, hrow.spansOk, hrow.nonempty⟩, hhead, habove⟩
    next => exact aboveOk_cons.mpr ⟨hrow, hle, habove⟩

theorem le_of_mem_mergeWithPrecedingRow (hle : ∀ row' ∈ above, row'.bottom ≤ row.bottom)
    {row' : Row} (hmem : row' ∈ mergeWithPrecedingRow above row) : row'.bottom ≤ row.bottom := by
  cases above with
  | nil =>
    rw [mem_singleton.mp hmem]
  | cons previous above =>
    rw [mergeWithPrecedingRow] at hmem
    split at hmem
    · rcases mem_cons.mp hmem with rfl | hmem
      · exact Int.le_refl _
      · exact hle row' (.tail _ hmem)
    rcases mem_cons.mp hmem with rfl | hmem
    · exact Int.le_refl _
    · exact hle row' hmem

/-- Both functions put a part of the row in front of the others, unless it is empty. -/
theorem covers_ite_cons {p q : Prop} [Decidable p] {part : Row} (hspans : part.spans = row.spans)
    (hpart : (row.top ≤ y ∧ y < row.bottom) ∧ q ↔ p ∧ part.top ≤ y ∧ y < part.bottom) :
    Covers (if p then part :: rows else rows) x y ↔ (row.Covers x y ∧ q) ∨ Covers rows x y := by
  rw [row_covers_iff, and_right_comm, hpart]
  split
  · next hp => rw [covers_cons, row_covers_iff, hspans, and_iff_right hp]
  · next hp => simp [hp]

theorem forall_mem_ite_cons {p : Prop} [Decidable p] {part : Row} {P : Row → Prop}
    (hpart : p → P part) (hrows : ∀ row ∈ rows, P row) :
    ∀ row ∈ if p then part :: rows else rows, P row := by
  split
  · next hp => exact forall_mem_cons.mpr ⟨hpart hp, hrows⟩
  · exact hrows

theorem covers_splitAbove (htop : top ≤ row.bottom) :
    Covers (splitAbove top above row) x y ↔ (row.Covers x y ∧ y < top) ∨ Covers above x y := by
  rw [splitAbove]
  exact covers_ite_cons rfl (by dsimp only; omega)

theorem aboveOk_splitAbove (habove : AboveOk above) (hrow : row.Ok)
    (hle : ∀ row' ∈ above, row'.bottom ≤ row.top) : AboveOk (splitAbove top above row) := by
  rw [splitAbove]
  split
  next h => exact aboveOk_cons.mpr ⟨⟨h, hrow.spansOk, hrow.nonempty⟩, hle, habove⟩
  next => exact habove

theorem le_of_mem_splitAbove (hle : ∀ row' ∈ above, row'.bottom ≤ row.top) :
    ∀ row' ∈ splitAbove top above row, row'.bottom ≤ max top row.top := by
  refine forall_mem_ite_cons (fun _ => Int.le_max_left ..) fun row' hrow' => ?_
  have := hle row' hrow'
  omega

theorem covers_splitBelow (hbottom : row.top ≤ bottom) : Covers (splitBelow bottom row below) x y ↔
      (row.Covers x y ∧ bottom ≤ y) ∨ Covers below x y := by
  rw [splitBelow]
  exact covers_ite_cons rfl (by dsimp only; omega)

theorem rowsOk_splitBelow (hspans : SpansOk row.spans)
    (hne : bottom < row.bottom → row.spans ≠ []) (hhead : ∀ row' ∈ below, row.bottom ≤ row'.top)
    (hbelow : RowsOk below) : RowsOk (splitBelow bottom row below) := by
  rw [splitBelow]
  split
  next h => exact rowsOk_cons.mpr ⟨⟨h, hspans, hne h⟩, hhead, hbelow⟩
  next => exact hbelow

theorem le_of_mem_splitBelow (hle : ∀ row' ∈ below, row.bottom ≤ row'.top) :
    ∀ row' ∈ splitBelow bottom row below, min row.bottom bottom ≤ row'.top := by
  refine forall_mem_ite_cons (fun _ => Int.min_le_right ..) fun row' hrow' => ?_
  have := hle row' hrow'
  omega

/-- The merge behind the loops covers what the two sides cover, and makes a region of them. -/
theorem mergeAtEnd_spec (habove : AboveOk above) (hbelow : RowsOk below)
    (hacross : ∀ row ∈ above, ∀ row' ∈ below, row.bottom ≤ row'.top) :
    RowsOk (mergeAtEnd above below) ∧
      ∀ x y, Covers (mergeAtEnd above below) x y ↔ Covers above x y ∨ Covers below x y := by
  cases below with
  | nil => exact ⟨rowsOk_join habove rowsOk_nil (by simp), fun x y => covers_join above [] x y⟩
  | cons row below =>
    obtain ⟨hrow, hhead, hbelow⟩ := rowsOk_cons.mp hbelow
    have hle : ∀ row' ∈ above, row'.bottom ≤ row.top := fun row' hrow' =>
      hacross row' hrow' row (.head _)
    have hlines := hrow.lines
    refine ⟨rowsOk_join (aboveOk_mergeWithPrecedingRow habove hrow hle) hbelow
      fun row' hrow' other hother => ?_, fun x y => ?_⟩
    · have := le_of_mem_mergeWithPrecedingRow (fun r hr => by have := hle r hr; omega) hrow'
      have := hhead other hother
      omega
    rw [mergeAtEnd, covers_join, covers_mergeWithPrecedingRow habove.rowOk (by omega)]
    simp only [covers_cons]
    tauto

/-! ## The iterator of `upper_bound` -/

theorem covers_reverse (rows : Rows) (x y : Int) : Covers rows.reverse x y ↔ Covers rows x y := by
  simp [Covers]

theorem upperBound_spec (h : RowsOk rows) (top : Int) :
    AboveOk (upperBound top rows).above ∧ RowsOk (upperBound top rows).below ∧
      (∀ row ∈ (upperBound top rows).above, ∀ row' ∈ (upperBound top rows).below,
        row.bottom ≤ row'.top) ∧ (∀ row ∈ (upperBound top rows).above, row.bottom ≤ top) ∧
      (∀ row ∈ (upperBound top rows).below, top < row.bottom) ∧ ∀ x y, Covers rows x y ↔
        Covers (upperBound top rows).above x y ∨ Covers (upperBound top rows).below x y := by
  have hparts : rows.takeWhile (fun row => row.bottom ≤ top) ++
      rows.dropWhile (fun row => row.bottom ≤ top) = rows := takeWhile_append_dropWhile
  have hok := h.rowOk
  have hapart := h.apart
  rw [← hparts] at hapart hok
  obtain ⟨habove, hbelow, hacross⟩ := pairwise_append.mp hapart
  obtain ⟨hokAbove, hokBelow⟩ := forall_mem_append.mp hok
  simp only [upperBound, mem_reverse]
  refine ⟨⟨by simpa using hokAbove, pairwise_reverse.mpr habove⟩, ⟨hokBelow, hbelow⟩, hacross,
    fun row hrow => ?_, fun row hrow => ?_, fun x y => ?_⟩
  · simpa using mem_takeWhile_imp hrow
  · rw [OrderedMap.dropWhile_eq_filter (h.apart.imp_of_mem fun _ hj hij => ?_)] at hrow
    · simpa using (mem_filter.mp hrow).2
    have := (h.rowOk _ hj).lines
    simp only [decide_eq_true_eq]
    omega
  · rw [covers_reverse, ← covers_append, hparts]

end WebRtc.Desktop
