import WebRtc.Desktop.RegionAddRect

/-! `IntersectWith`, `Subtract` and `Translate` as operations on sets of pixels, and what any
sequence of operations computes. -/

namespace WebRtc.Desktop
open Intervals List Difference

variable {rows region : Rows} {x y : Int}
variable {d : Difference} {rowB : Rows}

/-! ## `Intersect` -/

/-- The pixels of an overlap of two rows. -/
def overlapCovers (o : Overlap Row) (x y : Int) : Prop :=
  (o.lo ≤ y ∧ y < o.hi) ∧ InSpans o.first.spans x ∧ InSpans o.second.spans x

/-- The rows built from overlaps, one after the other. -/
theorem foldl_insertOverlap (os : List (Overlap Row)) (hos : Spaced Overlap.lo Overlap.hi 0 os)
    (hspans : ∀ o ∈ os, SpansOk o.first.spans ∧ SpansOk o.second.spans) (above : List Row)
    (habove : AboveOk above) (hle : ∀ row ∈ above, ∀ o ∈ os, row.bottom ≤ o.lo) :
    AboveOk (os.foldl insertOverlap above) ∧ ∀ x y, Covers (os.foldl insertOverlap above) x y ↔
      Covers above x y ∨ ∃ o ∈ os, overlapCovers o x y := by
  induction os generalizing above with
  | nil => exact ⟨habove, by simp⟩
  | cons o os ih =>
    obtain ⟨hlines, hbehind, hos'⟩ := spaced_cons.mp hos
    obtain ⟨hfirst, hsecond⟩ := hspans o (.head _)
    obtain ⟨hok, hcolumns⟩ := intersectRows_spec hfirst hsecond
    have hspans' : ∀ o ∈ os, SpansOk o.first.spans ∧ SpansOk o.second.spans := fun o' ho' =>
      hspans o' (.tail _ ho')
    have hleo : ∀ row ∈ above, row.bottom ≤ o.lo := fun row hrow =>
      hle row hrow o (.head _)
    rw [foldl_cons, insertOverlap]
    split
    next hempty =>
      obtain ⟨haboveOk, hcovers⟩ := ih hos' hspans' above habove fun row hrow o' ho' =>
        hle row hrow o' (.tail _ ho')
      refine ⟨haboveOk, fun x y => ?_⟩
      have hnone : ¬ overlapCovers o x y := fun h => by
        have := (hcolumns x).mpr h.2
        simp [hempty] at this
      simp [hcovers x y, hnone]
    next hne =>
      have hrow : Row.Ok ⟨o.lo, o.hi, intersectRows o.first.spans o.second.spans⟩ :=
        ⟨hlines, hok, hne⟩
      obtain ⟨haboveOk, hcovers⟩ := ih hos' hspans' _
        (aboveOk_mergeWithPrecedingRow habove hrow hleo) fun row hrow' o' ho' => by
          have := le_of_mem_mergeWithPrecedingRow
            (fun r hr => by have := hleo r hr; dsimp only; omega) hrow'
          have := hbehind o' ho'
          dsimp only at *
          omega
      refine ⟨haboveOk, fun x y => ?_⟩
      rw [hcovers x y, covers_mergeWithPrecedingRow habove.rowOk (Int.le_of_lt hlines)]
      simp only [row_covers_iff, hcolumns, exists_mem_cons_iff, overlapCovers]
      tauto

/-- `Intersect` keeps the pixels that both regions have. -/
theorem intersect_spec (hrows : RowsOk rows) (hregion : RowsOk region) :
    RowsOk (intersect rows region) ∧
      ∀ x y, Covers (intersect rows region) x y ↔ Covers rows x y ∧ Covers region x y := by
  have hswept := sweep_swept (Int.le_refl 0) (rows.length + region.length) hrows.spaced
    hregion.spaced (Nat.le_refl _)
  have hspans : ∀ o ∈ sweep Row.top Row.bottom (rows.length + region.length) rows region,
      SpansOk o.first.spans ∧ SpansOk o.second.spans := fun o ho => by
    obtain ⟨a, ha, b, hb, hpair, -⟩ := hswept.sound o ho
    have haOk := (hrows.rowOk a ha).spansOk
    have hbOk := (hregion.rowOk b hb).spansOk
    rcases hpair with ⟨h1, h2⟩ | ⟨h1, h2⟩ <;> rw [h1, h2]
    · exact ⟨haOk, hbOk⟩
    · exact ⟨hbOk, haOk⟩
  obtain ⟨hok, hcovers⟩ := foldl_insertOverlap _ hswept.spaced hspans [] aboveOk_nil (by simp)
  refine ⟨rowsOk_join hok rowsOk_nil (by simp), fun x y => ?_⟩
  rw [intersect, covers_join, hcovers x y]
  simp only [not_covers_nil, false_or, or_false]
  constructor
  · rintro ⟨o, ho, hy, hx1, hx2⟩
    obtain ⟨a, ha, b, hb, hpair, hlo, hhi, -⟩ := hswept.sound o ho
    rcases hpair with ⟨h1, h2⟩ | ⟨h1, h2⟩ <;> rw [h1] at hx1 <;> rw [h2] at hx2
    · exact ⟨⟨a, ha, ⟨by omega, by omega⟩, hx1⟩, ⟨b, hb, ⟨by omega, by omega⟩, hx2⟩⟩
    · exact ⟨⟨a, ha, ⟨by omega, by omega⟩, hx2⟩, ⟨b, hb, ⟨by omega, by omega⟩, hx1⟩⟩
  rintro ⟨⟨a, ha, hay, hax⟩, b, hb, hby, hbx⟩
  obtain ⟨o, ho, hlo, hhi, hpair⟩ := hswept.complete a ha b hb y hay hby
  refine ⟨o, ho, ⟨hlo, hhi⟩, ?_⟩
  rcases hpair with ⟨h1, h2⟩ | ⟨h1, h2⟩ <;> rw [h1, h2]
  · exact ⟨hax, hbx⟩
  · exact ⟨hbx, hax⟩

/-! ## `Subtract` -/

/-- What holds at the head of the loop of `Subtract`: above `top` the region is subtracted. -/
structure SubtractInv (rows region : Rows) (d : Difference) : Prop where
  above_ok : AboveOk d.above
  rowA_ok : RowsOk d.rowA
  across : ∀ r ∈ d.above, ∀ r' ∈ d.rowA, r.bottom ≤ r'.top
  above_le : ∀ r ∈ d.above, r.bottom ≤ d.top
  started : ∀ b ∈ d.rowB.head?, b.top ≤ d.top ∧ d.top < b.bottom
  passed : ∃ done, region = done ++ d.rowB ∧ ∀ r ∈ done, r.bottom ≤ d.top
  covers : ∀ x y, Covers d.above x y ∨ Covers d.rowA x y ↔
    Covers rows x y ∧ ¬ (Covers region x y ∧ y < d.top)

theorem SubtractInv.rowB_ok (h : SubtractInv rows region d)
    (hregion : RowsOk region) : RowsOk d.rowB := by
  obtain ⟨_, rfl, -⟩ := h.passed
  exact ⟨fun r hr => hregion.rowOk r (mem_append_right _ hr),
    (pairwise_append.mp hregion.apart).2.1⟩

theorem nextTop_le (hB : RowsOk rowB) {top : Int} {r : Row} (hr : r ∈ rowB) :
    nextTop top rowB ≤ r.top := by
  cases rowB with
  | nil => cases hr
  | cons b rowB =>
    obtain ⟨hb, hhead, -⟩ := rowsOk_cons.mp hB
    rcases mem_cons.mp hr with rfl | hr
    · exact Int.le_refl _
    have := hb.lines
    have := hhead r hr
    simp only [nextTop, head?_cons, Option.map_some, Option.getD_some]
    omega

theorem le_nextTop {top low : Int} (htop : low ≤ top)
    (hrowB : ∀ r ∈ rowB, low ≤ r.top) : low ≤ nextTop top rowB := by
  cases rowB with
  | nil => exact htop
  | cons b rowB => exact hrowB b (.head _)

theorem nextTop_started (hB : RowsOk rowB) (top : Int) :
    ∀ b ∈ rowB.head?, b.top ≤ nextTop top rowB ∧ nextTop top rowB < b.bottom := by
  intro b hb
  cases rowB with
  | nil => cases hb
  | cons b' rowB =>
    obtain rfl : b' = b := by simpa using hb
    exact ⟨Int.le_refl _, (rowsOk_cons.mp hB).1.lines⟩

/-- From `top` down to the row behind `row_b` the region has the pixels of `row_b` only. -/
theorem covers_between {b : Row} {done : Rows} {top next : Int}
    (hdone : ∀ r ∈ done, r.bottom ≤ top) (hnext : ∀ r ∈ rowB, next ≤ r.top)
    (hy : top ≤ y ∧ y < next) : Covers (done ++ b :: rowB) x y ↔ b.Covers x y := by
  have habove : ¬ Covers done x y := by
    rintro ⟨r, hr, ⟨-, hlt⟩, -⟩
    have := hdone r hr
    omega
  have hbelow : ¬ Covers rowB x y := by
    rintro ⟨r, hr, ⟨hge, -⟩, -⟩
    have := hnext r hr
    omega
  simp [habove, hbelow]

/-- The loop may go on at `next` when what is left above `next` is without the pixels of `row_b`. -/
theorem covers_advance {b : Row} {done : Rows} {top next : Int} {old new : Prop}
    (hdone : ∀ r ∈ done, r.bottom ≤ top) (hnext : ∀ r ∈ rowB, next ≤ r.top) (hle : top ≤ next)
    (hold : old ↔ Covers rows x y ∧ ¬ (Covers (done ++ b :: rowB) x y ∧ y < top))
    (hnew : new ↔ old ∧ ¬ (b.Covers x y ∧ top ≤ y ∧ y < next)) :
    new ↔ Covers rows x y ∧ ¬ (Covers (done ++ b :: rowB) x y ∧ y < next) := by
  rw [hnew, hold]
  by_cases hy : top ≤ y ∧ y < next
  · rw [covers_between hdone hnext hy]
    have : ¬ y < top := by omega
    simp only [hy, this, and_false, not_false_iff, and_true]
  simp only [hy, and_false, not_false_iff, and_true]
  have : y < next ↔ y < top := by omega
  rw [this]

section SubtractStep

variable {d : Difference} {a b : Row} {rowA rowB : Rows}

/-- A row above `top` is passed. -/
theorem subtractInv_skipA (h : SubtractInv rows region d) (hA : d.rowA = a :: rowA)
    (hlt : a.bottom ≤ d.top) :
    SubtractInv rows region { d with above := mergeWithPrecedingRow d.above a, rowA := rowA } := by
  obtain ⟨habove, hrowA, hacross, hle, hstarted, hpassed, hcovers⟩ := h
  rw [hA] at hrowA hacross hcovers
  obtain ⟨ha, hhead, hrowA⟩ := rowsOk_cons.mp hrowA
  have hlea : ∀ r ∈ d.above, r.bottom ≤ a.top := fun r hr => hacross r hr a (.head _)
  have hlines := ha.lines
  have hmerged : ∀ r ∈ mergeWithPrecedingRow d.above a, r.bottom ≤ a.bottom := fun r hr =>
    le_of_mem_mergeWithPrecedingRow (fun r' hr' => by have := hlea r' hr'; omega) hr
  refine ⟨aboveOk_mergeWithPrecedingRow habove ha hlea, hrowA, fun r hr r' hr' => ?_,
    fun r hr => ?_, hstarted, hpassed, fun x y => ?_⟩
  · exact Int.le_trans (hmerged r hr) (hhead r' hr')
  · exact Int.le_trans (hmerged r hr) hlt
  · rw [← hcovers x y, covers_mergeWithPrecedingRow habove.rowOk (by omega), covers_cons]
    tauto

/-- A row of the subtracted region above `row_a` is passed. -/
theorem subtractInv_skipB (hregion : RowsOk region) (h : SubtractInv rows region d)
    (hA : d.rowA = a :: rowA) (hB : d.rowB = b :: rowB) (htop : d.top < a.top)
    (hb : a.top ≥ b.bottom) :
    SubtractInv rows region { d with top := nextTop a.top rowB, rowB := rowB } := by
  have hrest := h.rowB_ok hregion
  obtain ⟨habove, hrowA, hacross, hle, hstarted, ⟨done, rfl, hdone⟩, hcovers⟩ := h
  rw [hA] at hrowA hacross hcovers
  rw [hB] at hrest hstarted hcovers
  obtain ⟨ha, hhead, -⟩ := rowsOk_cons.mp hrowA
  obtain ⟨hbOk, hbehind, hrowB⟩ := rowsOk_cons.mp hrest
  have hbtop := (hstarted b rfl).2
  have hnext : b.bottom ≤ nextTop a.top rowB := le_nextTop hb hbehind
  refine ⟨habove, hA ▸ hrowA, hA ▸ hacross, fun r hr => ?_, nextTop_started hrowB _,
    ⟨done ++ [b], by simp [hB], fun r hr => ?_⟩, fun x y => ?_⟩
  · have := hle r hr
    dsimp only
    omega
  · dsimp only
    rcases mem_append.mp hr with hr | hr
    · have := hdone r hr
      omega
    · rw [mem_singleton.mp hr]
      exact hnext
  · dsimp only
    rw [hB, hA]
    refine covers_advance hdone (fun r hr => nextTop_le hrowB hr) (by omega) (hcovers x y) ?_
    -- Neither side has a pixel on the lines of `row_b`.
    rw [iff_self_and]
    rintro hor ⟨⟨hyb, -⟩, hyt, -⟩
    have := hyb.2
    rcases hor with ⟨r, hr, hy, -⟩ | ⟨r, hr, hy, -⟩
    · have := hle r hr
      have := hy.2
      omega
    have := hy.1
    rcases mem_cons.mp hr with rfl | hr
    · omega
    have := hhead r hr
    have := ha.lines
    omega

/-- The pixels behind one subtraction: those of `row_b` are gone from the lines it shares with
`row_a`. -/
theorem covers_subtractRow (ha : a.Ok) (hb : b.Ok) (habove : AboveOk d.above)
    (hlea : ∀ r ∈ d.above, r.bottom ≤ a.top) (htop : d.top < a.bottom)
    (hshared : ¬ (d.top < a.top ∧ a.top ≥ b.bottom)) (hbt : b.top ≤ d.top ∧ d.top < b.bottom) :
    Covers (subtractRow d.top d.above a b rowA rowB).above x y ∨
        Covers (subtractRow d.top d.above a b rowA rowB).rowA x y ↔
      (Covers d.above x y ∨ (a.Covers x y ∧ ¬ (b.Covers x y ∧ d.top ≤ y)) ∨ Covers rowA x y) := by
  obtain ⟨hok, -, hcolumns⟩ := subtractRows_spec ha.spansOk hb.spansOk
  have halines := ha.lines
  have hmiddle : (∀ r ∈ splitAbove d.top d.above a, r.Ok) →
      (Covers (subtractRow d.top d.above a b rowA rowB).above x y ↔
        ((max d.top a.top ≤ y ∧ y < min a.bottom b.bottom) ∧
          InSpans (subtractRows a.spans b.spans) x) ∨ Covers (splitAbove d.top d.above a) x y) := by
    intro hsplit
    simp only [subtractRow]
    split
    next hempty => simp [hempty]
    next =>
      rw [covers_mergeWithPrecedingRow hsplit (by dsimp only; omega)]
      rfl
  rw [hmiddle (aboveOk_splitAbove habove ha hlea).rowOk, hcolumns]
  simp only [subtractRow]
  rw [covers_splitAbove (by omega), covers_splitBelow (by omega)]
  simp only [row_covers_iff]
  by_cases hp : Covers d.above x y
  · simp [hp]
  by_cases hq : Covers rowA x y
  · simp [hq]
  -- The lines of `row_a` above, on and below those shared with `row_b`.
  by_cases hxa : InSpans a.spans x
  · by_cases hxb : InSpans b.spans x <;>
      simp only [hp, hq, hxa, hxb, and_true, not_true, not_false_iff, and_false, false_and,
        or_false, false_or] <;> omega
  · simp [hp, hq, hxa]

/-- The rows above end where the shared lines end. -/
theorem le_of_mem_subtractRow {top : Int} {above : List Row} {r : Row}
    (hlea : ∀ r ∈ above, r.bottom ≤ a.top) (hlines : max top a.top ≤ min a.bottom b.bottom)
    (hr : r ∈ (subtractRow top above a b rowA rowB).above) : r.bottom ≤ min a.bottom b.bottom := by
  have hsplit : ∀ r ∈ splitAbove top above a, r.bottom ≤ min a.bottom b.bottom := fun r hr =>
    Int.le_trans (le_of_mem_splitAbove hlea _ hr) hlines
  simp only [subtractRow] at hr
  split at hr
  · exact hsplit r hr
  · exact le_of_mem_mergeWithPrecedingRow hsplit hr

/-- One subtraction. -/
theorem subtractInv_subtractRow (hregion : RowsOk region) (h : SubtractInv rows region d)
    (hA : d.rowA = a :: rowA) (hB : d.rowB = b :: rowB) (htop : d.top < a.bottom)
    (hshared : ¬ (d.top < a.top ∧ a.top ≥ b.bottom)) :
    SubtractInv rows region (subtractRow d.top d.above a b rowA rowB) := by
  have hrest := h.rowB_ok hregion
  obtain ⟨habove, hrowA, hacross, hle, hstarted, ⟨done, rfl, hdone⟩, hcovers⟩ := h
  rw [hA] at hrowA hacross hcovers
  rw [hB] at hrest hstarted hcovers
  obtain ⟨ha, hhead, hrowA⟩ := rowsOk_cons.mp hrowA
  obtain ⟨hb, hbehind, hrowB⟩ := rowsOk_cons.mp hrest
  have hbt := hstarted b rfl
  have hlea : ∀ r ∈ d.above, r.bottom ≤ a.top := fun r hr => hacross r hr a (.head _)
  have halines := ha.lines
  obtain ⟨hok, -, -⟩ := subtractRows_spec ha.spansOk hb.spansOk
  have hsplitOk : AboveOk (splitAbove d.top d.above a) := aboveOk_splitAbove habove ha hlea
  have hsplitLe : ∀ r ∈ splitAbove d.top d.above a, r.bottom ≤ max d.top a.top := fun r hr =>
    le_of_mem_splitAbove hlea _ hr
  have hlines : max d.top a.top < min a.bottom b.bottom := by omega
  have haboveOk : AboveOk (subtractRow d.top d.above a b rowA rowB).above := by
    simp only [subtractRow]
    split
    · exact hsplitOk
    next hne => exact aboveOk_mergeWithPrecedingRow hsplitOk ⟨hlines, hok, hne⟩ hsplitLe
  have haboveLe : ∀ r ∈ (subtractRow d.top d.above a b rowA rowB).above,
      r.bottom ≤ min a.bottom b.bottom := fun r hr =>
    le_of_mem_subtractRow hlea (Int.le_of_lt hlines) hr
  have htopGe : min a.bottom b.bottom ≤ (subtractRow d.top d.above a b rowA rowB).top := by
    simp only [subtractRow]
    split
    · exact le_nextTop (Int.le_refl _) fun r hr => by have := hbehind r hr; omega
    · exact Int.le_refl _
  have hshort : a.bottom < b.bottom →
      (subtractRow d.top d.above a b rowA rowB).top = min a.bottom b.bottom := fun hlt => by
    exact if_neg (by omega)
  have hnext : ∀ r ∈ rowB, (subtractRow d.top d.above a b rowA rowB).top ≤ r.top := by
    intro r hr
    simp only [subtractRow]
    split
    · exact nextTop_le hrowB hr
    · have := hbehind r hr
      omega
  refine ⟨haboveOk, rowsOk_splitBelow ha.spansOk (fun _ => ha.nonempty) hhead hrowA,
    fun r hr r' hr' => ?_, fun r hr => Int.le_trans (haboveLe r hr) htopGe, ?_, ?_, fun x y => ?_⟩
  · have := haboveLe r hr
    have := le_of_mem_splitBelow hhead _ hr'
    omega
  · simp only [subtractRow]
    split
    · exact nextTop_started hrowB _
    intro b' hb'
    obtain rfl : b = b' := by simpa using hb'
    omega
  · simp only [subtractRow] at htopGe ⊢
    split
    next hend =>
      refine ⟨done ++ [b], by simp [hB], fun r hr => ?_⟩
      rcases mem_append.mp hr with hr | hr
      · have := hdone r hr
        omega
      · rw [mem_singleton.mp hr]
        omega
    next hend =>
      refine ⟨done, by rw [hB], fun r hr => ?_⟩
      have := hdone r hr
      omega
  · rw [hB]
    refine covers_advance hdone hnext (by omega) (hcovers x y) ?_
    rw [covers_subtractRow ha hb habove hlea htop hshared hbt, covers_cons]
    -- Only `row_a` has pixels on the lines of `row_b` below `top`.
    by_cases hp : Covers d.above x y
    · obtain ⟨r, hr, ⟨-, hy⟩, -⟩ := id hp
      have := hle r hr
      have hyTop : ¬ d.top ≤ y := by omega
      simp [hp, hyTop]
    by_cases hq : Covers rowA x y
    · obtain ⟨r, hr, ⟨hy, -⟩, -⟩ := id hq
      have := hhead r hr
      simp only [hq, or_true, true_and, true_iff, not_and]
      rintro ⟨hyb, -⟩ - hyn
      have := hyb.2
      omega
    · simp only [hp, hq, or_false, false_or]
      refine and_congr_right fun hac => not_congr (and_congr_right fun hbc => ?_)
      have := hac.1.2
      have := hbc.1.2
      omega

/-- What one pass of the loop does. -/
theorem subtractStep_cases (hA : d.rowA = a :: rowA) (hB : d.rowB = b :: rowB) : (a.bottom ≤ d.top ∧
      subtractStep d = { d with above := mergeWithPrecedingRow d.above a, rowA := rowA }) ∨
    (d.top < a.top ∧ a.top ≥ b.bottom ∧
      subtractStep d = { d with top := nextTop a.top rowB, rowB := rowB }) ∨
    (d.top < a.bottom ∧ ¬ (d.top < a.top ∧ a.top ≥ b.bottom) ∧
      subtractStep d = subtractRow d.top d.above a b rowA rowB) := by
  by_cases hskip : a.bottom ≤ d.top
  · exact .inl ⟨hskip, by simp [subtractStep, hA, hB, hskip]⟩
  by_cases hpass : d.top < a.top ∧ a.top ≥ b.bottom
  · exact .inr (.inl ⟨hpass.1, hpass.2, by simp only [subtractStep, hA, hB, hskip, hpass]; rfl⟩)
  · exact .inr (.inr ⟨by omega, hpass, by simp only [subtractStep, hA, hB, hskip, hpass]; rfl⟩)

/-- The passes that are left: each consumes a row of the target, or a row of the region and leaves
one more row of the target. -/
def Difference.passes (d : Difference) : Nat := d.rowA.length + 2 * d.rowB.length

theorem passes_subtractRow (top : Int) (above : List Row) (a b : Row) (rowA rowB : Rows) :
    (subtractRow top above a b rowA rowB).passes < (a :: rowA).length + 2 * (b :: rowB).length := by
  simp only [subtractRow, passes, splitBelow, length_cons]
  by_cases hlt : b.bottom < a.bottom
  · have hend : min a.bottom b.bottom ≥ b.bottom := by omega
    simp only [hlt, hend, if_true, length_cons]
    omega
  simp only [hlt, if_false]
  split
  · omega
  · rw [length_cons]
    omega

theorem subtractStep_inv (hregion : RowsOk region) (h : SubtractInv rows region d)
    (hA : d.rowA = a :: rowA) (hB : d.rowB = b :: rowB) :
    SubtractInv rows region (subtractStep d) ∧ (subtractStep d).passes < d.passes := by
  have hpasses : d.passes = (a :: rowA).length + 2 * (b :: rowB).length := by
    rw [passes, hA, hB]
  obtain ⟨hskip, hstep⟩ | ⟨htop, hb, hstep⟩ | ⟨htop, hshared, hstep⟩ := subtractStep_cases hA hB
  · rw [hstep, hpasses]
    refine ⟨subtractInv_skipA h hA hskip, ?_⟩
    simp [passes, hB]
  · rw [hstep, hpasses]
    refine ⟨subtractInv_skipB hregion h hA hB htop hb, ?_⟩
    simp only [passes, hA, length_cons]
    omega
  · rw [hstep, hpasses]
    exact ⟨subtractInv_subtractRow hregion h hA hB htop hshared, passes_subtractRow ..⟩

end SubtractStep

/-- A property that each pass keeps holds behind the loop, which ends with a side at its end. -/
theorem subtractLoop_rule {P : Difference → Prop} (fuel : Nat) (h : P d)
    (hstep : ∀ d a rowA b rowB, d.rowA = a :: rowA → d.rowB = b :: rowB → P d →
      P (subtractStep d) ∧ (subtractStep d).passes < d.passes) (hfuel : d.passes ≤ fuel) :
    P (subtractLoop fuel d) ∧
      ((subtractLoop fuel d).rowA = [] ∨ (subtractLoop fuel d).rowB = []) := by
  induction fuel generalizing d with
  | zero =>
    have hA : d.rowA.length = 0 := by
      simp only [passes] at hfuel
      omega
    exact ⟨h, .inl (eq_nil_of_length_eq_zero hA)⟩
  | succ fuel ih =>
    rw [subtractLoop]
    split
    next hmore =>
      obtain ⟨a, rowA, hA⟩ := exists_cons_of_ne_nil hmore.1
      obtain ⟨b, rowB, hB⟩ := exists_cons_of_ne_nil hmore.2
      obtain ⟨hnext, hless⟩ := hstep d a rowA b rowB hA hB h
      exact ih hnext (by omega)
    next hdone => exact ⟨h, by tauto⟩

theorem subtractStart_inv {first : Row} (hrows : RowsOk rows) (hregion : RowsOk (first :: region)) :
    SubtractInv rows (first :: region) (subtractStart rows first region) := by
  obtain ⟨habove, hbelow, hacross, hle, -, hcovers⟩ := upperBound_spec hrows first.top
  obtain ⟨hfirst, hhead, -⟩ := rowsOk_cons.mp hregion
  have hlines := hfirst.lines
  refine ⟨habove, hbelow, hacross, hle, fun b hb => ?_, ⟨[], rfl, by simp⟩, fun x y => ?_⟩
  · obtain rfl : first = b := by simpa [subtractStart] using hb
    exact ⟨Int.le_refl _, hlines⟩
  simp only [subtractStart]
  rw [← hcovers x y, iff_self_and]
  rintro - ⟨⟨r, hr, ⟨hy, -⟩, -⟩, hlt⟩
  rcases mem_cons.mp hr with rfl | hr
  · omega
  · have := hhead r hr
    omega

theorem passes_subtractStart (rows : Rows) (first : Row) (region : Rows) :
    (subtractStart rows first region).passes ≤ rows.length + 2 * (region.length + 1) := by
  have : (rows.dropWhile fun row => row.bottom ≤ first.top).length ≤ rows.length :=
    (dropWhile_sublist _).length_le
  simp only [passes, subtractStart, upperBound, length_cons]
  omega

/-- The loop of `Subtract` ends with the whole region subtracted. -/
theorem subtractInv_end (h : SubtractInv rows region d)
    (hend : d.rowA = [] ∨ d.rowB = []) (x y : Int) :
    Covers d.above x y ∨ Covers d.rowA x y ↔ Covers rows x y ∧ ¬ Covers region x y := by
  rw [h.covers x y]
  refine and_congr_right fun hrows => not_congr ⟨fun hc => hc.1, fun hc => ⟨hc, ?_⟩⟩
  by_contra hge
  rcases hend with hA | hB
  · -- The target has no row left: it has no pixel at or below `top`.
    have hcov := (h.covers x y).mpr ⟨hrows, fun hc => hge hc.2⟩
    rw [hA] at hcov
    rcases hcov with ⟨r, hr, ⟨-, hy⟩, -⟩ | hcov
    · have := h.above_le r hr
      omega
    · exact not_covers_nil x y hcov
  · obtain ⟨_, hregion, hdone⟩ := h.passed
    rw [hregion, hB, append_nil] at hc
    obtain ⟨r, hr, ⟨-, hy⟩, -⟩ := hc
    have := hdone r hr
    omega

/-- `Subtract` removes the pixels of the region. -/
theorem subtract_spec (hrows : RowsOk rows) (hregion : RowsOk region) :
    RowsOk (subtract rows region) ∧
      ∀ x y, Covers (subtract rows region) x y ↔ Covers rows x y ∧ ¬ Covers region x y := by
  cases region with
  | nil => exact ⟨hrows, by simp [subtract]⟩
  | cons first region =>
    obtain ⟨hinv, hend⟩ := subtractLoop_rule _ (subtractStart_inv hrows hregion)
      (fun d a rowA b rowB hA hB h => subtractStep_inv hregion h hA hB)
      (passes_subtractStart rows first region)
    obtain ⟨hok, hcovers⟩ := mergeAtEnd_spec hinv.above_ok hinv.rowA_ok hinv.across
    exact ⟨hok, fun x y => (hcovers x y).trans (subtractInv_end hinv hend x y)⟩

/-! ## `Translate` -/

theorem translate_spans_eq (row : Row) (dx dy : Int) :
    (row.translate dx dy).spans = row.spans.map (RowSpan.translate dx) := by
  rw [Row.translate]
  split
  · rfl
  next h =>
    have hdx : dx = 0 := by omega
    have hid : RowSpan.translate dx = id := by
      funext span
      simp [RowSpan.translate, hdx]
    rw [hid, map_id]

theorem inSpans_translate (spans : List RowSpan) (dx x : Int) :
    InSpans (spans.map (RowSpan.translate dx)) x ↔ InSpans spans (x - dx) := by
  simp only [InSpans, mem_map, exists_exists_and_eq_and, Contains, RowSpan.translate]
  refine exists_congr fun span => and_congr_right fun _ => ?_
  omega

theorem row_covers_translate (row : Row) (dx dy x y : Int) :
    (row.translate dx dy).Covers x y ↔ row.Covers (x - dx) (y - dy) := by
  rw [row_covers_iff, row_covers_iff, translate_spans_eq, inSpans_translate]
  refine and_congr_left fun _ => ?_
  simp only [Row.translate]
  omega

theorem Row.Ok.translate {row : Row} (h : row.Ok) (dx dy : Int) : (row.translate dx dy).Ok := by
  refine ⟨by have := h.lines; simp only [Row.translate]; omega, ?_, ?_⟩
  · rw [translate_spans_eq]
    refine ⟨fun span hspan => ?_, pairwise_map.mpr (h.spansOk.apart.imp fun hlt => ?_)⟩
    · obtain ⟨span', hspan', rfl⟩ := mem_map.mp hspan
      have := h.spansOk.nonempty span' hspan'
      simp only [RowSpan.translate]
      omega
    · simp only [RowSpan.translate]
      omega
  · rw [translate_spans_eq]
    simpa using h.nonempty

/-- `Translate` moves the pixels. -/
theorem translate_spec (hrows : RowsOk rows) (dx dy : Int) : RowsOk (translate rows dx dy) ∧
      ∀ x y, Covers (translate rows dx dy) x y ↔ Covers rows (x - dx) (y - dy) := by
  refine ⟨⟨fun row hrow => ?_, pairwise_map.mpr (hrows.apart.imp fun hle => ?_)⟩, fun x y => ?_⟩
  · obtain ⟨row', hrow', rfl⟩ := mem_map.mp hrow
    exact (hrows.rowOk row' hrow').translate dx dy
  · simp only [Row.translate]
    omega
  · simp only [Covers, translate, mem_map, exists_exists_and_eq_and, row_covers_translate]

/-! ## Any sequence of operations -/

theorem pixels_eq_iff {rows rows' : Rows} :
    pixels rows = pixels rows' ↔ ∀ x y, Covers rows x y ↔ Covers rows' x y := by
  constructor
  · intro h x y
    exact Set.ext_iff.mp h (x, y)
  intro h
  ext p
  exact h p.1 p.2

/-- Every region that the operations build is sorted, disjoint and without empty rows or spans. -/
theorem History.region_ok (history : History) : RowsOk history.region := by
  induction history with
  | empty => exact rowsOk_nil
  | addRect target rect ih => exact (addRect_spec ih rect).1
  | addRegion target region iht ihr => exact (addRegion_spec iht ihr).1
  | intersectWith target region iht ihr => exact (intersect_spec iht ihr).1
  | subtract target region iht ihr => exact (subtract_spec iht ihr).1
  | translate target dx dy ih => exact (translate_spec ih dx dy).1

/-- The region that any sequence of operations builds denotes the set that the operations stand
for. -/
theorem region_denotes_meaning (history : History) : pixels history.region = history.meaning := by
  induction history with
  | empty =>
    ext p
    simp [pixels, History.region, History.meaning]
  | addRect target rect ih =>
    ext p
    simp only [History.meaning, ← ih]
    exact (addRect_spec target.region_ok rect).2 p.1 p.2
  | addRegion target region iht ihr =>
    ext p
    simp only [History.meaning, ← iht, ← ihr]
    exact (addRegion_spec target.region_ok region.region_ok).2 p.1 p.2
  | intersectWith target region iht ihr =>
    ext p
    simp only [History.meaning, ← iht, ← ihr]
    exact (intersect_spec target.region_ok region.region_ok).2 p.1 p.2
  | subtract target region iht ihr =>
    ext p
    simp only [History.meaning, ← iht, ← ihr]
    exact (subtract_spec target.region_ok region.region_ok).2 p.1 p.2
  | translate target dx dy ih =>
    ext p
    simp only [History.meaning, ← ih]
    exact (translate_spec target.region_ok dx dy).2 p.1 p.2

end WebRtc.Desktop
