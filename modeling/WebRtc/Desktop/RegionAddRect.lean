import WebRtc.Desktop.RegionRows

/-! `AddRect` and `AddRegion` are unions. The loop of `AddRect` keeps, besides the order of the
rows, that the rows cover the region and the part of the rectangle above `top`. -/

namespace WebRtc.Desktop
open Intervals List

/-! ## One pass of the loop -/

/-- The row of the pass starts at `top`, and the three parts cover what the region covers. -/
structure AtTop (rect : DesktopRect) (c : Cursor) (above : List Row) (row : Row) (below : Rows) :
    Prop where
  above_ok : AboveOk above
  above_le : ∀ r ∈ above, r.bottom ≤ c.top
  top_eq : row.top = c.top
  lines : c.top < row.bottom
  spansOk : SpansOk row.spans
  nonempty : rect.bottom < row.bottom → row.spans ≠ []
  below_ok : RowsOk below
  behind : ∀ r ∈ below, row.bottom ≤ r.top
  covers : ∀ x y, Covers above x y ∨ row.Covers x y ∨ Covers below x y ↔
    Covers c.above x y ∨ Covers c.below x y

/-- What holds at the head of the loop. -/
structure AddRectInv (rect : DesktopRect) (rows : Rows) (c : Cursor) : Prop where
  above_ok : AboveOk c.above
  below_ok : RowsOk c.below
  across : ∀ r ∈ c.above, ∀ r' ∈ c.below, r.bottom ≤ r'.top
  above_le : ∀ r ∈ c.above, r.bottom ≤ c.top
  below_gt : ∀ r ∈ c.below, c.top < r.bottom
  top_ge : rect.top ≤ c.top
  top_le : c.top ≤ rect.bottom
  covers : ∀ x y, Covers c.above x y ∨ Covers c.below x y ↔
    Covers rows x y ∨ (rect.Covers x y ∧ y < c.top)

variable {rect : DesktopRect} {rows : Rows} {c : Cursor}

theorem not_row_covers_nil (top bottom x y : Int) : ¬ (Row.mk top bottom []).Covers x y := by
  simp [row_covers_iff]

theorem rowAtTop_spec (h : AddRectInv rect rows c) (hlt : c.top < rect.bottom) :
    AtTop rect c (rowAtTop rect c).1 (rowAtTop rect c).2.1 (rowAtTop rect c).2.2 := by
  obtain ⟨top, above, below⟩ := c
  obtain ⟨habove, hbelow, hacross, hle, hgt, -, -, -⟩ := h
  dsimp only at *
  cases below with
  | nil =>
    refine ⟨habove, hle, rfl, hlt, spaced_nil, fun hlt' => ?_, hbelow, by simp [rowAtTop],
      fun x y => ?_⟩
    · exact absurd hlt' (Int.lt_irrefl _)
    · simp [rowAtTop, not_row_covers_nil]
  | cons row below =>
    obtain ⟨hrow, hhead, hbelow'⟩ := rowsOk_cons.mp hbelow
    have hlines := hrow.lines
    simp only [rowAtTop]
    split
    next htop =>
      -- A new row fills the lines from `top` to the next row.
      refine ⟨habove, hle, rfl, by dsimp only; omega, spaced_nil, fun hlt' => ?_, hbelow,
        fun r hr => ?_, fun x y => ?_⟩
      · dsimp only at hlt'
        omega
      · dsimp only
        rcases mem_cons.mp hr with rfl | hr
        · omega
        · have := hhead r hr
          omega
      · simp [not_row_covers_nil]
    next htop =>
      have hrowTop : ∀ r ∈ above, r.bottom ≤ row.top := fun r hr =>
        hacross r hr row (.head _)
      have hgtRow := hgt row (.head _)
      refine ⟨aboveOk_splitAbove habove hrow hrowTop, fun r hr => ?_, rfl, hgtRow, hrow.spansOk,
        fun _ => hrow.nonempty, hbelow', hhead, fun x y => ?_⟩
      · have := le_of_mem_splitAbove hrowTop _ hr
        dsimp only
        omega
      rw [covers_splitAbove (by omega)]
      simp only [covers_cons, row_covers_iff]
      have hlines' : ((row.top ≤ y ∧ y < row.bottom) ∧ y < top) ∨ (top ≤ y ∧ y < row.bottom) ↔
          row.top ≤ y ∧ y < row.bottom := by omega
      grind

/-- One pass covers the lines of the rectangle down to the new `top`. -/
theorem addRectStep_inv (hrect : rect.left < rect.right) (h : AddRectInv rect rows c)
    (hlt : c.top < rect.bottom) :
    AddRectInv rect rows (addRectStep rect c) ∧ c.top < (addRectStep rect c).top := by
  have hat := rowAtTop_spec h hlt
  rw [addRectStep]
  generalize rowAtTop rect c = parts at hat
  obtain ⟨above, row, below⟩ := parts
  dsimp only at hat ⊢
  obtain ⟨haboveOk, haboveLe, htop, hlines, hspans, hne, hbelowOk, hbehind, hcovers⟩ := hat
  obtain ⟨hnewOk, hnewNe, hnewSpans⟩ := addSpanToRow_spec hspans hrect
  generalize addSpanToRow row.spans rect.left rect.right = spans at hnewOk hnewNe hnewSpans
  have hnew : Row.Ok ⟨c.top, min rect.bottom row.bottom, spans⟩ :=
    ⟨by dsimp only; omega, hnewOk, hnewNe⟩
  have hge := h.top_ge
  have hmergedLe : ∀ r ∈ mergeWithPrecedingRow above ⟨c.top, min rect.bottom row.bottom, spans⟩,
      r.bottom ≤ min rect.bottom row.bottom := fun r hr =>
    le_of_mem_mergeWithPrecedingRow (fun r' hr' => by have := haboveLe r' hr'; dsimp only; omega) hr
  have hsplitGe : ∀ r ∈ splitBelow rect.bottom row below, min rect.bottom row.bottom ≤ r.top :=
    fun r hr => by have := le_of_mem_splitBelow hbehind _ hr; omega
  refine ⟨⟨aboveOk_mergeWithPrecedingRow haboveOk hnew haboveLe,
    rowsOk_splitBelow hspans hne hbehind hbelowOk, fun r hr r' hr' => ?_, hmergedLe,
    fun r hr => ?_, by dsimp only; omega, by dsimp only; omega, fun x y => ?_⟩, by omega⟩
  · exact Int.le_trans (hmergedLe r hr) (hsplitGe r' hr')
  · have := hsplitGe r hr
    have := ((rowsOk_splitBelow hspans hne hbehind hbelowOk).rowOk r hr).lines
    dsimp only
    omega
  have hold := (hcovers x y).trans (h.covers x y)
  rw [covers_mergeWithPrecedingRow haboveOk.rowOk (by dsimp only; omega),
    covers_splitBelow (by omega)]
  simp only [row_covers_iff, hnewSpans, DesktopRect.Covers] at hold ⊢
  -- Off the lines of the pass nothing changes; on them the row gets the columns of the rectangle.
  by_cases hy : c.top ≤ y ∧ y < min rect.bottom row.bottom
  · have hyRow : row.top ≤ y ∧ y < row.bottom := by omega
    have hyTop : ¬ y < c.top := by omega
    have hyBottom : ¬ rect.bottom ≤ y := by omega
    have hyRect : rect.top ≤ y ∧ y < rect.bottom := by omega
    simp only [hy, hyRow, hyTop, hyBottom, hyRect, and_true, true_and, and_false, or_false,
      false_or] at hold ⊢
    grind
  · have hyRow : (row.top ≤ y ∧ y < row.bottom) ∧ rect.bottom ≤ y ↔
        row.top ≤ y ∧ y < row.bottom := by omega
    have hyTop : ((rect.left ≤ x ∧ x < rect.right ∧ rect.top ≤ y ∧ y < rect.bottom) ∧
        y < min rect.bottom row.bottom) ↔
        (rect.left ≤ x ∧ x < rect.right ∧ rect.top ≤ y ∧ y < rect.bottom) ∧ y < c.top := by omega
    rw [hyTop, ← hold]
    simp only [hy, false_and, false_or]
    rw [and_right_comm, hyRow]

/-- The loop covers the rectangle down to its bottom. -/
theorem addRectLoop_inv (hrect : rect.left < rect.right) (fuel : Nat)
    (h : AddRectInv rect rows c) (hfuel : (rect.bottom - c.top).toNat ≤ fuel) :
    AddRectInv rect rows (addRectLoop rect fuel c) ∧
      (addRectLoop rect fuel c).top = rect.bottom := by
  induction fuel generalizing c with
  | zero =>
    have := h.top_le
    exact ⟨h, by dsimp only [addRectLoop]; omega⟩
  | succ fuel ih =>
    rw [addRectLoop]
    split
    next hlt =>
      obtain ⟨hstep, hdown⟩ := addRectStep_inv hrect h hlt
      exact ih hstep (by omega)
    next hge =>
      have := h.top_le
      exact ⟨h, by omega⟩

theorem isEmpty_eq_false (rect : DesktopRect) (h : ¬ rect.isEmpty) :
    rect.left < rect.right ∧ rect.top < rect.bottom := by
  simp only [DesktopRect.isEmpty, Bool.or_eq_true, decide_eq_true_eq] at h
  omega

theorem not_covers_of_isEmpty (rect : DesktopRect) (h : rect.isEmpty) (x y : Int) :
    ¬ rect.Covers x y := by
  simp only [DesktopRect.isEmpty, Bool.or_eq_true, decide_eq_true_eq] at h
  rw [DesktopRect.Covers]
  omega

theorem upperBound_addRectInv (hrows : RowsOk rows) (hrect : rect.top < rect.bottom) :
    AddRectInv rect rows (upperBound rect.top rows) := by
  obtain ⟨habove, hbelow, hacross, hle, hgt, hcovers⟩ := upperBound_spec hrows rect.top
  refine ⟨habove, hbelow, hacross, hle, hgt, Int.le_refl _, Int.le_of_lt hrect, fun x y => ?_⟩
  rw [hcovers x y]
  refine ⟨.inl, fun h => h.resolve_right fun hor => ?_⟩
  have := hor.1.2.2.1
  have := hor.2
  simp only [upperBound] at this
  omega

/-- `AddRect` adds the pixels of the rectangle. -/
theorem addRect_spec (hrows : RowsOk rows) (rect : DesktopRect) : RowsOk (addRect rows rect) ∧
      ∀ x y, Covers (addRect rows rect) x y ↔ Covers rows x y ∨ rect.Covers x y := by
  rw [addRect]
  split
  next hempty =>
    exact ⟨hrows, fun x y => by simp [not_covers_of_isEmpty rect hempty x y]⟩
  next hne =>
    obtain ⟨hleft, htop⟩ := isEmpty_eq_false rect hne
    obtain ⟨hinv, hend⟩ := addRectLoop_inv hleft (rect.bottom - rect.top).toNat
      (upperBound_addRectInv hrows htop) (Nat.le_refl _)
    obtain ⟨hok, hcovers⟩ := mergeAtEnd_spec hinv.above_ok hinv.below_ok hinv.across
    refine ⟨hok, fun x y => ?_⟩
    rw [hcovers x y, hinv.covers x y, hend]
    have hy : rect.Covers x y → y < rect.bottom := fun h => h.2.2.2
    tauto

/-! ## `AddRegion` -/

theorem addRects_spec (hrows : RowsOk rows) (rs : List DesktopRect) : RowsOk (addRects rows rs) ∧
      ∀ x y, Covers (addRects rows rs) x y ↔ Covers rows x y ∨ ∃ rect ∈ rs, rect.Covers x y := by
  induction rs generalizing rows with
  | nil => exact ⟨hrows, by simp [addRects]⟩
  | cons rect rs ih =>
    obtain ⟨hok, hcovers⟩ := addRect_spec hrows rect
    obtain ⟨hok', hcovers'⟩ := ih hok
    refine ⟨hok', fun x y => ?_⟩
    refine (hcovers' x y).trans ?_
    rw [hcovers x y]
    simp [or_assoc]

theorem le_currentBottom (hok : ∀ r ∈ rows, r.Ok) (span : RowSpan) (row : Row) :
    row.bottom ≤ currentBottom span row rows := by
  induction rows generalizing row with
  | nil => exact Int.le_refl _
  | cons next rows ih =>
    rw [currentBottom]
    split
    next h =>
      have := (hok next (.head _)).lines
      have := ih (fun r hr => hok r (.tail _ hr)) next
      omega
    next => exact Int.le_refl _

/-- The rectangle of a span stays in rows that contain the span. -/
theorem covers_of_lt_currentBottom (hok : ∀ r ∈ rows, r.Ok) {span : RowSpan} {row : Row}
    (hspan : span ∈ row.spans) {x y : Int} (hx : span.left ≤ x ∧ x < span.right)
    (htop : row.top ≤ y) (hy : y < currentBottom span row rows) : Covers (row :: rows) x y := by
  induction rows generalizing row with
  | nil => exact ⟨row, .head _, ⟨htop, hy⟩, span, hspan, hx⟩
  | cons next rows ih =>
    by_cases hin : y < row.bottom
    · exact ⟨row, .head _, ⟨htop, hin⟩, span, hspan, hx⟩
    rw [currentBottom] at hy
    split at hy
    next h =>
      have hnext := hok next (.head _)
      rw [covers_cons]
      exact .inr (ih (fun r hr => hok r (.tail _ hr))
        ((isSpanInRow_iff hnext.spansOk span).mp h.2) (by omega) hy)
    next => omega

/-- The rectangles that the iterator returns are in the region. -/
theorem covers_of_mem_rects (hok : ∀ r ∈ rows, r.Ok) (previous : Option Row) {rect : DesktopRect}
    (hrect : rect ∈ rects previous rows) {x y : Int} (hcover : rect.Covers x y) :
    Covers rows x y := by
  induction rows generalizing previous with
  | nil => cases hrect
  | cons row rows ih =>
    have hok' : ∀ r ∈ rows, r.Ok := fun r hr => hok r (.tail _ hr)
    rcases mem_append.mp hrect with hrect | hrect
    · obtain ⟨_, hspan, rfl⟩ := mem_map.mp hrect
      obtain ⟨hl, hr, ht, hb⟩ := hcover
      exact covers_of_lt_currentBottom hok' (mem_of_mem_filter hspan) ⟨hl, hr⟩ ht hb
    · rw [covers_cons]
      exact .inr (ih hok' (some row) hrect)

theorem isReturned_iff {previous : Option Row} {row : Row} {span : RowSpan} :
    isReturned previous row span ↔
      ∃ p ∈ previous, p.bottom = row.top ∧ isSpanInRow p span := by
  cases previous <;> simp [isReturned]

/-- A pixel of a span is in a returned rectangle, or in the one of the same span that was returned
for a row before. -/
theorem exists_mem_rects (hok : ∀ r ∈ rows, r.Ok) (previous : Option Row)
    (hprevious : ∀ p ∈ previous, p.Ok) {row : Row} (hrow : row ∈ rows) {span : RowSpan}
    (hspan : span ∈ row.spans) {x y : Int} (hx : span.left ≤ x ∧ x < span.right)
    (hy : row.top ≤ y ∧ y < row.bottom) (hordered : rows.Pairwise fun r r' => r.bottom ≤ r'.top) :
    (∃ rect ∈ rects previous rows, rect.Covers x y) ∨
      ∃ p ∈ previous, span ∈ p.spans ∧ p.bottom ≤ y ∧ y < currentBottom span p rows := by
  induction rows generalizing previous with
  | nil => cases hrow
  | cons first rows ih =>
    obtain ⟨hhead, htail⟩ := pairwise_cons.mp hordered
    have hfirst := hok first (.head _)
    have hok' : ∀ r ∈ rows, r.Ok := fun r hr => hok r (.tail _ hr)
    -- The span in the first row: its own rectangle, or the one of the row before.
    have hhere : span ∈ first.spans → first.top ≤ y → y < currentBottom span first rows →
        (∃ rect ∈ rects previous (first :: rows), rect.Covers x y) ∨
          ∃ p ∈ previous, span ∈ p.spans ∧ p.bottom ≤ y ∧
            y < currentBottom span p (first :: rows) := by
      intro hmem htop hbottom
      by_cases hret : isReturned previous first span
      · obtain ⟨p, hp, htouch, hin⟩ := isReturned_iff.mp hret
        refine .inr ⟨p, hp, (isSpanInRow_iff (hprevious p hp).spansOk span).mp hin, by omega, ?_⟩
        rw [currentBottom, if_pos ⟨htouch, (isSpanInRow_iff hfirst.spansOk span).mpr hmem⟩]
        exact hbottom
      · refine .inl ⟨_, mem_append_left _ (mem_map_of_mem
          (mem_filter.mpr ⟨hmem, by simpa using hret⟩)), hx.1, hx.2, htop, hbottom⟩
    rcases mem_cons.mp hrow with rfl | hrow
    · exact hhere hspan hy.1 (Int.lt_of_lt_of_le hy.2 (le_currentBottom hok' span row))
    rcases ih hok' (some first) (by simpa using hfirst) hrow htail with
      ⟨rect, hrect, hcover⟩ | ⟨p, hp, hmem, hge, hlt⟩
    · exact .inl ⟨rect, mem_append_right _ hrect, hcover⟩
    obtain rfl : first = p := by simpa using hp
    have := hfirst.lines
    exact hhere hmem (by omega) hlt

/-- The iterator returns rectangles that make up the region. -/
theorem exists_rects_iff (hrows : RowsOk rows) (x y : Int) :
    (∃ rect ∈ rects none rows, rect.Covers x y) ↔ Covers rows x y := by
  constructor
  · rintro ⟨rect, hrect, hcover⟩
    exact covers_of_mem_rects hrows.rowOk none hrect hcover
  rintro ⟨_, hrow, hy, _, hspan, hx⟩
  rcases exists_mem_rects hrows.rowOk none (by simp) hrow hspan hx hy hrows.apart with
    hrect | ⟨p, hp, -⟩
  · exact hrect
  · cases hp

/-- `AddRegion` adds the pixels of the region. -/
theorem addRegion_spec (hrows : RowsOk rows) {region : Rows} (hregion : RowsOk region) :
    RowsOk (addRegion rows region) ∧
      ∀ x y, Covers (addRegion rows region) x y ↔ Covers rows x y ∨ Covers region x y := by
  obtain ⟨hok, hcovers⟩ := addRects_spec hrows (rects none region)
  refine ⟨hok, fun x y => ?_⟩
  rw [addRegion, hcovers x y, exists_rects_iff hregion x y]

end WebRtc.Desktop
