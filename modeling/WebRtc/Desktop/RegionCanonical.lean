import WebRtc.Desktop.RegionSets

/-! When `Equals` is equality of sets. Regions whose touching rows have different spans are
determined by their pixels. `AddRect`, `AddRegion`, `IntersectWith` and `Translate` keep that form.
`Subtract` does not: where `top` jumps over the gap between two rows of the subtracted region, the
part of a row that is split off above the jump is not merged with the row before it. -/

namespace WebRtc.Desktop
open Intervals List

/-- The rows do not touch, or have different spans. -/
def Differ (row row' : Row) : Prop := row.bottom = row'.top → row.spans ≠ row'.spans

/-- Rows sorted, disjoint and not empty, spans sorted and not touching, touching rows with different
spans. -/
structure CanonicalRows (rows : Rows) : Prop where
  ok : RowsOk rows
  differ : rows.IsChain Differ

/-- The rows above an iterator are nearest first. -/
abbrev AboveDiffer (above : List Row) : Prop := above.IsChain fun row row' => Differ row' row

variable {above : List Row} {below rows region : Rows} {row : Row} {top bottom x y : Int}

/-! ## Equality -/

theorem equals_iff (rows rows' : Rows) : equals rows rows' ↔ rows = rows' := by
  induction rows generalizing rows' with
  | nil => cases rows' <;> simp [equals]
  | cons row rows ih =>
    cases rows' with
    | nil => simp [equals]
    | cons row' rows' =>
      obtain ⟨t, b, s⟩ := row
      obtain ⟨_, _, _⟩ := row'
      simp [equals, ih, and_assoc]

/-- A line of the region is the spans of its row. -/
theorem covers_line (h : RowsOk rows) (hrow : row ∈ rows) (hy : row.top ≤ y ∧ y < row.bottom) :
    Covers rows x y ↔ InSpans row.spans x := by
  constructor
  · rintro ⟨_, hrow', hy', hx⟩
    rw [h.spaced.unique (Int.le_refl 0) hrow hrow' hy hy']
    exact hx
  · exact fun hx => ⟨row, hrow, hy, hx⟩

theorem CanonicalRows.canonical (h : CanonicalRows rows) :
    Canonical Row.top Row.bottom Row.spans rows := ⟨h.ok.spaced, h.differ⟩

/-- Two regions with the same pixels have the same spans on each line. -/
theorem labelAt_of_covers {rows rows' : Rows} (h : RowsOk rows) (h' : RowsOk rows')
    (heq : ∀ x y, Covers rows x y ↔ Covers rows' x y) {spans : List RowSpan}
    (hlabel : LabelAt Row.top Row.bottom Row.spans rows y spans) :
    LabelAt Row.top Row.bottom Row.spans rows' y spans := by
  obtain ⟨row, hrow, hy, rfl⟩ := hlabel
  have hok := h.rowOk row hrow
  obtain ⟨x, hx⟩ := hok.spansOk.exists_inSpans hok.nonempty
  obtain ⟨row', hrow', hy', -⟩ := (heq x y).mp ⟨row, hrow, hy, hx⟩
  refine ⟨row', hrow', hy', (h'.rowOk row' hrow').spansOk.ext hok.spansOk fun x => ?_⟩
  rw [← covers_line h' hrow' hy', ← heq, covers_line h hrow hy]

/-- Regions in canonical form are determined by their pixels. -/
theorem CanonicalRows.ext {rows rows' : Rows} (h : CanonicalRows rows) (h' : CanonicalRows rows')
    (heq : ∀ x y, Covers rows x y ↔ Covers rows' x y) : rows = rows' := by
  refine Canonical.ext ?_ h.canonical h'.canonical fun y spans =>
    ⟨labelAt_of_covers h.ok h'.ok heq, labelAt_of_covers h'.ok h.ok fun x y => (heq x y).symm⟩
  rintro ⟨t, b, s⟩ ⟨_, _, _⟩ ht hb hs
  simp_all

/-! ## Merging and splitting -/

theorem chain_join (habove : AboveDiffer above) (hbelow : below.IsChain Differ)
    (hacross : ∀ r ∈ above.head?, ∀ r' ∈ below.head?, Differ r r') :
    (join above below).IsChain Differ := by
  induction above generalizing below with
  | nil => exact hbelow
  | cons row above ih =>
    obtain ⟨hhead, habove⟩ := isChain_cons.mp habove
    refine ih habove (isChain_cons.mpr ⟨fun r hr => hacross row rfl r hr, hbelow⟩) ?_
    intro r hr r' hr'
    obtain rfl : row = r' := by simpa using hr'
    exact hhead r hr

/-- Behind a merge the nearest row ends like the merged one and has its spans. -/
theorem head?_mergeWithPrecedingRow (above : List Row) (row : Row) :
    ∃ top, (mergeWithPrecedingRow above row).head? = some { row with top := top } := by
  cases above with
  | nil => exact ⟨row.top, rfl⟩
  | cons previous above =>
    rw [mergeWithPrecedingRow]
    split
    · exact ⟨previous.top, rfl⟩
    · exact ⟨row.top, rfl⟩

theorem differ_of_mem_merge {row' : Row} (h : Differ row row') :
    ∀ r ∈ (mergeWithPrecedingRow above row).head?, Differ r row' := by
  obtain ⟨t, ht⟩ := head?_mergeWithPrecedingRow above row
  intro r hr
  rw [ht] at hr
  obtain rfl : { row with top := t } = r := by simpa using hr
  exact h

theorem chain_mergeWithPrecedingRow (habove : AboveDiffer above) (row : Row) :
    AboveDiffer (mergeWithPrecedingRow above row) := by
  cases above with
  | nil => exact isChain_singleton row
  | cons _ above =>
    obtain ⟨hhead, habove'⟩ := isChain_cons.mp habove
    rw [mergeWithPrecedingRow]
    split
    next h =>
      refine isChain_cons.mpr ⟨fun r hr htouch => ?_, habove'⟩
      rw [← h.2]
      exact hhead r hr htouch
    next h =>
      refine isChain_cons_cons.mpr ⟨fun htouch hspans => h ⟨htouch, hspans⟩, habove⟩

theorem chain_mergeAtEnd (habove : AboveDiffer above) (hbelow : below.IsChain Differ) :
    (mergeAtEnd above below).IsChain Differ := by
  cases below with
  | nil => exact chain_join habove isChain_nil (by simp)
  | cons row below =>
    obtain ⟨hhead, hbelow⟩ := isChain_cons.mp hbelow
    exact chain_join (chain_mergeWithPrecedingRow habove row) hbelow fun r hr r' hr' =>
      differ_of_mem_merge (hhead r' hr') r hr

theorem chain_splitAbove (habove : AboveDiffer above)
    (hrow : row.top < top → ∀ r ∈ above.head?, Differ r row) :
    AboveDiffer (splitAbove top above row) := by
  rw [splitAbove]
  split
  next h => exact isChain_cons.mpr ⟨fun r hr => hrow h r hr, habove⟩
  next => exact habove

theorem chain_splitBelow (hrows : (row :: below).IsChain Differ) :
    (splitBelow bottom row below).IsChain Differ := by
  obtain ⟨hhead, hbelow⟩ := isChain_cons.mp hrows
  rw [splitBelow]
  split
  · exact isChain_cons.mpr ⟨fun r hr => hhead r hr, hbelow⟩
  · exact hbelow

theorem chain_upperBound (h : rows.IsChain Differ) (top : Int) :
    AboveDiffer (upperBound top rows).above ∧ (upperBound top rows).below.IsChain Differ ∧
      ∀ r ∈ (upperBound top rows).above.head?, ∀ r' ∈ (upperBound top rows).below.head?,
        Differ r r' := by
  rw [← takeWhile_append_dropWhile (p := fun row => decide (row.bottom ≤ top)) (l := rows)] at h
  obtain ⟨habove, hbelow, hacross⟩ := isChain_append.mp h
  refine ⟨isChain_reverse.mpr habove, hbelow, fun r hr r' hr' => ?_⟩
  refine hacross r ?_ r' hr'
  simpa [upperBound] using hr

/-! ## `AddRect` and `AddRegion` -/

/-- Only a row that `top` falls in is split and not merged at once. -/
structure AddRectChain (c : Cursor) : Prop where
  above : AboveDiffer c.above
  below : c.below.IsChain Differ
  across : ∀ r' ∈ c.below.head?, r'.top < c.top → ∀ r ∈ c.above.head?, Differ r r'

variable {rect : DesktopRect} {c : Cursor}

theorem chain_rowAtTop (rect : DesktopRect) (h : AddRectChain c) : AboveDiffer (rowAtTop rect c).1 ∧
      (splitBelow rect.bottom (rowAtTop rect c).2.1 (rowAtTop rect c).2.2).IsChain Differ := by
  obtain ⟨_, _, below⟩ := c
  obtain ⟨habove, hbelow, hacross⟩ := h
  cases below with
  | nil => exact ⟨habove, by simp [rowAtTop, splitBelow]⟩
  | cons row below =>
    simp only [rowAtTop]
    split
    · refine ⟨habove, ?_⟩
      rw [splitBelow, if_neg (by dsimp only; omega)]
      exact hbelow
    · have hsplit : (splitBelow rect.bottom row below).IsChain Differ := chain_splitBelow hbelow
      exact ⟨chain_splitAbove habove (hacross row rfl), hsplit⟩

theorem addRectStep_chain (hinv : AddRectInv rect rows c)
    (hlt : c.top < rect.bottom) (h : AddRectChain c) : AddRectChain (addRectStep rect c) := by
  obtain ⟨habove, hbelow⟩ := chain_rowAtTop rect h
  refine ⟨chain_mergeWithPrecedingRow habove _, hbelow, fun r' hr' hbefore => ?_⟩
  -- Behind a pass all rows of the lower side start at `top` or below it.
  have hbehind := (rowAtTop_spec hinv hlt).behind
  have hge : min (rowAtTop rect c).2.1.bottom rect.bottom ≤ r'.top :=
    le_of_mem_splitBelow hbehind _ (mem_of_head? hr')
  change r'.top < min rect.bottom (rowAtTop rect c).2.1.bottom at hbefore
  omega

theorem addRectLoop_chain (hrect : rect.left < rect.right) (fuel : Nat)
    (hinv : AddRectInv rect rows c) (h : AddRectChain c) :
    AddRectChain (addRectLoop rect fuel c) := by
  induction fuel generalizing c with
  | zero => exact h
  | succ fuel ih =>
    rw [addRectLoop]
    split
    next hlt =>
      exact ih (addRectStep_inv hrect hinv hlt).1 (addRectStep_chain hinv hlt h)
    next => exact h

theorem addRect_canonical (h : CanonicalRows rows) (rect : DesktopRect) :
    CanonicalRows (addRect rows rect) := by
  refine ⟨(addRect_spec h.ok rect).1, ?_⟩
  rw [addRect]
  split
  · exact h.differ
  next hne =>
    obtain ⟨hleft, htop⟩ := isEmpty_eq_false rect hne
    obtain ⟨habove, hbelow, hacross⟩ := chain_upperBound h.differ rect.top
    have hloop := addRectLoop_chain hleft (rect.bottom - rect.top).toNat
      (upperBound_addRectInv h.ok htop) ⟨habove, hbelow, fun r' hr' _ r hr => hacross r hr r' hr'⟩
    exact chain_mergeAtEnd hloop.above hloop.below

theorem addRects_canonical (h : CanonicalRows rows) (rs : List DesktopRect) :
    CanonicalRows (addRects rows rs) := by
  induction rs generalizing rows with
  | nil => exact h
  | cons rect rs ih => exact ih (addRect_canonical h rect)

/-! ## `Intersect` and `Translate` -/

theorem chain_foldl_insertOverlap (os : List (Overlap Row)) (habove : AboveDiffer above) :
    AboveDiffer (os.foldl insertOverlap above) := by
  induction os generalizing above with
  | nil => exact habove
  | cons o os ih =>
    refine ih ?_
    rw [insertOverlap]
    split
    · exact habove
    · exact chain_mergeWithPrecedingRow habove _

theorem intersect_canonical (hrows : CanonicalRows rows) (hregion : CanonicalRows region) :
    CanonicalRows (intersect rows region) :=
  ⟨(intersect_spec hrows.ok hregion.ok).1,
    chain_join (chain_foldl_insertOverlap _ isChain_nil) isChain_nil (by simp)⟩

theorem translate_injective (dx : Int) : Function.Injective (RowSpan.translate dx) := by
  rintro ⟨l, r⟩ ⟨_, _⟩ h
  simp only [RowSpan.translate, RowSpan.mk.injEq] at h ⊢
  omega

theorem translate_canonical (h : CanonicalRows rows) (dx dy : Int) :
    CanonicalRows (translate rows dx dy) := by
  refine ⟨(translate_spec h.ok dx dy).1, ?_⟩
  rw [translate, isChain_map]
  refine h.differ.imp fun r r' hdiffer htouch hspans => ?_
  rw [translate_spans_eq, translate_spans_eq] at hspans
  refine hdiffer ?_ (map_injective_iff.mpr (translate_injective dx) hspans)
  simp only [Row.translate] at htouch
  omega

/-! ## `Subtract` -/

/-- Two rows of the subtracted region follow each other with a gap between them, the second starts
within a row of the target that reaches up to the first, and the subtraction leaves the same columns
on the last line of the first and on the line behind it. -/
def Seam (rows region : Rows) : Prop :=
  ∃ done b b' rest, region = done ++ b :: b' :: rest ∧ b.bottom < b'.top ∧
    (∃ a ∈ rows, a.top ≤ b.bottom ∧ b'.top < a.bottom) ∧
    ∀ x, Covers rows x (b.bottom - 1) ∧ ¬ Covers region x (b.bottom - 1) ↔
      Covers rows x b.bottom ∧ ¬ Covers region x b.bottom

/-- Only a row that `top` falls in is split and not merged at once; the rows from `row_a` on are
rows of the target, or the lower part of one. -/
structure SubtractChain (rows : Rows) (d : Difference) : Prop where
  above : AboveDiffer d.above
  rowA : d.rowA.IsChain Differ
  across : ∀ a ∈ d.rowA.head?, a.top < d.top → d.top < a.bottom → ∀ r ∈ d.above.head?, Differ r a
  origin : ∀ a ∈ d.rowA, ∃ a' ∈ rows, a'.top ≤ a.top ∧ a'.bottom = a.bottom

/-- The columns that are left on a line above `top` are the spans of its row. -/
theorem SubtractInv.line {d : Difference} (h : SubtractInv rows region d)
    (hrow : row ∈ d.above ∨ row ∈ d.rowA) (hy : row.top ≤ y ∧ y < row.bottom) (htop : y < d.top) :
    Covers rows x y ∧ ¬ Covers region x y ↔ InSpans row.spans x := by
  have hjoin := rowsOk_join h.above_ok h.rowA_ok h.across
  rw [← covers_line hjoin (mem_join.mpr hrow) hy, covers_join, h.covers x y]
  simp [htop]

section SubtractStep

variable {d : Difference} {a b : Row} {rowA rowB : Rows}

theorem subtractChain_skipA (h : SubtractChain rows d) (hA : d.rowA = a :: rowA) :
    SubtractChain rows { d with above := mergeWithPrecedingRow d.above a, rowA := rowA } := by
  obtain ⟨habove, hrowA, -, horigin⟩ := h
  rw [hA] at hrowA horigin
  obtain ⟨hhead, hrowA⟩ := isChain_cons.mp hrowA
  exact ⟨chain_mergeWithPrecedingRow habove a, hrowA,
    fun a' ha' _ _ => differ_of_mem_merge (hhead a' ha'),
    fun a' ha' => horigin a' (.tail _ ha')⟩

theorem subtractChain_skipB (hinv : SubtractInv rows region d) (h : SubtractChain rows d)
    (hA : d.rowA = a :: rowA) (htop : d.top < a.top) :
    SubtractChain rows { d with top := nextTop a.top rowB, rowB := rowB } := by
  obtain ⟨habove, hrowA, -, horigin⟩ := h
  refine ⟨habove, hrowA, fun a' ha' _ _ r hr htouch => ?_, horigin⟩
  -- The rows above end at the old `top`, which is above `row_a`.
  obtain rfl : a = a' := by simpa [hA] using ha'
  have := hinv.above_le r (mem_of_head? hr)
  omega

/-- The lower part of a split row comes from the row that was split. -/
theorem origin_splitBelow (horigin : ∀ r ∈ a :: rowA, ∃ a' ∈ rows, a'.top ≤ r.top ∧
    a'.bottom = r.bottom) (htop : a.top ≤ bottom) :
    ∀ r ∈ splitBelow bottom a rowA, ∃ a' ∈ rows, a'.top ≤ r.top ∧ a'.bottom = r.bottom := by
  intro r hr
  rw [splitBelow] at hr
  split at hr
  · rcases mem_cons.mp hr with rfl | hr
    · obtain ⟨a', ha', htop', hbottom'⟩ := horigin a (.head _)
      exact ⟨a', ha', Int.le_trans htop' htop, hbottom'⟩
    · exact horigin r (.tail _ hr)
  · exact horigin r (.tail _ hr)

/-- Where `top` jumps over a gap into a row, the row before it ends at the gap and has other spans:
otherwise there is a seam. -/
theorem seam_of_touching {done : Rows} {b' : Row} {rest : Rows} {d : Difference}
    (hinv : SubtractInv rows (done ++ b :: b' :: rest) d) (htop : d.top = b'.top)
    (horigin : ∃ a' ∈ rows, a'.top ≤ a.top ∧ a'.bottom = a.bottom) (ha : a ∈ d.rowA)
    (hbefore : a.top < d.top) (hin : d.top < a.bottom) (hr : row ∈ d.above)
    (hrow : row.bottom = b.bottom) (htouch : row.bottom = a.top) (hspans : row.spans = a.spans) :
    Seam rows (done ++ b :: b' :: rest) := by
  obtain ⟨a', ha', htop', hbottom'⟩ := horigin
  have hlines := (hinv.above_ok.rowOk row hr).lines
  refine ⟨done, b, b', rest, rfl, by omega, ⟨a', ha', by omega, by omega⟩, fun x => ?_⟩
  rw [hinv.line (.inl hr) (by omega) (by omega), hinv.line (.inr ha) (by omega) (by omega), hspans]

theorem subtractChain_subtractRow (hregion : RowsOk region) (hseam : ¬ Seam rows region)
    (hinv : SubtractInv rows region d) (h : SubtractChain rows d) (hA : d.rowA = a :: rowA)
    (hB : d.rowB = b :: rowB) (htop : d.top < a.bottom)
    (hshared : ¬ (d.top < a.top ∧ a.top ≥ b.bottom)) :
    SubtractChain rows (subtractRow d.top d.above a b rowA rowB) := by
  have hnew := subtractInv_subtractRow hregion hinv hA hB htop hshared
  obtain ⟨habove, hrowA, hacross, horigin⟩ := h
  rw [hA] at hrowA hacross horigin
  obtain ⟨hacrossA, hrowsA⟩ : (∀ r ∈ d.above, r.bottom ≤ a.top) ∧ RowsOk (a :: rowA) :=
    ⟨fun r hr => hinv.across r hr a (hA ▸ mem_cons_self), hA ▸ hinv.rowA_ok⟩
  obtain ⟨ha, hhead, -⟩ := rowsOk_cons.mp hrowsA
  have hbt := hinv.started b (by rw [hB]; rfl)
  have halines := ha.lines
  have hbottom : a.top ≤ b.bottom := by omega
  have horigin' := origin_splitBelow horigin hbottom
  have hsplit : AboveDiffer (splitAbove d.top d.above a) :=
    chain_splitAbove habove fun hlt => hacross a rfl hlt htop
  refine ⟨?_, chain_splitBelow hrowA, fun a' ha' hbefore hin r hr htouch hspans => ?_, horigin'⟩
  · simp only [subtractRow]
    split
    · exact hsplit
    · exact chain_mergeWithPrecedingRow hsplit _
  -- `top` is above the next row of the target, unless it jumped to the next row of the region.
  have haMem : a' ∈ splitBelow b.bottom a rowA := mem_of_head? ha'
  have hge := le_of_mem_splitBelow hhead _ haMem
  have hle : r.bottom ≤ min a.bottom b.bottom :=
    le_of_mem_subtractRow hacrossA (by omega) (mem_of_head? hr)
  obtain ⟨_, hpassed, -⟩ := hinv.passed
  by_cases hend : min a.bottom b.bottom ≥ b.bottom
  · cases rowB with
    | nil =>
      simp only [subtractRow, if_pos hend, nextTop, head?_nil, Option.map_none,
        Option.getD_none] at hbefore
      omega
    | cons b' rest =>
      rw [hB] at hpassed
      subst hpassed
      have htop' : (subtractRow d.top d.above a b rowA (b' :: rest)).top = b'.top := by
        simp only [subtractRow, if_pos hend]
        rfl
      exact hseam (seam_of_touching hnew htop' (horigin' a' haMem) haMem hbefore hin
        (mem_of_head? hr) (by omega) htouch hspans)
  · simp only [subtractRow, if_neg hend] at hbefore
    omega

theorem subtractStep_chain (hregion : RowsOk region) (hseam : ¬ Seam rows region)
    (hinv : SubtractInv rows region d) (h : SubtractChain rows d) (hA : d.rowA = a :: rowA)
    (hB : d.rowB = b :: rowB) : SubtractChain rows (subtractStep d) := by
  obtain ⟨-, hstep⟩ | ⟨htop, -, hstep⟩ | ⟨htop, hshared, hstep⟩ := subtractStep_cases hA hB
  · rw [hstep]
    exact subtractChain_skipA h hA
  · rw [hstep]
    exact subtractChain_skipB hinv h hA htop
  · rw [hstep]
    exact subtractChain_subtractRow hregion hseam hinv h hA hB htop hshared

end SubtractStep

theorem subtractStart_chain (h : rows.IsChain Differ) (first : Row) (region : Rows) :
    SubtractChain rows (subtractStart rows first region) := by
  obtain ⟨habove, hbelow, hacross⟩ := chain_upperBound h first.top
  refine ⟨habove, hbelow, fun a ha _ _ r hr => hacross r hr a ha, fun a ha => ?_⟩
  exact ⟨a, (dropWhile_sublist _).subset ha, Int.le_refl _, rfl⟩

/-- Without a seam `Subtract` keeps the canonical form. -/
theorem subtract_canonical (hrows : CanonicalRows rows) (hregion : RowsOk region)
    (hseam : ¬ Seam rows region) : CanonicalRows (subtract rows region) := by
  refine ⟨(subtract_spec hrows.ok hregion).1, ?_⟩
  cases region with
  | nil => exact hrows.differ
  | cons first region =>
    have hloop := (subtractLoop_rule
      (P := fun d => SubtractInv rows (first :: region) d ∧ SubtractChain rows d) _
      ⟨subtractStart_inv hrows.ok hregion, subtractStart_chain hrows.differ first region⟩
      (fun d a rowA b rowB hA hB h =>
        ⟨⟨(subtractStep_inv hregion h.1 hA hB).1, subtractStep_chain hregion hseam h.1 h.2 hA hB⟩,
          (subtractStep_inv hregion h.1 hA hB).2⟩) (passes_subtractStart rows first region)).1.2
    exact chain_mergeAtEnd hloop.above hloop.rowA

end WebRtc.Desktop
