import WebRtc.Desktop.RegionCanonical

/-! A seam is what `Subtract` leaves behind: the loop splits a row at it and never merges the upper
part again. So the canonical form is lost exactly at a seam, and `Equals` is equality of sets for
all regions built without one. -/

namespace WebRtc.Desktop
open Intervals List History

variable {above : List Row} {below rows region : Rows} {row : Row} {t : Int}

/-! ## A row that is split off keeps its top -/

/-- One of the rows starts at this line. -/
def StartsAt (t : Int) (rows : List Row) : Prop := ∃ r ∈ rows, r.top = t

theorem startsAt_cons (h : StartsAt t rows) (row : Row) : StartsAt t (row :: rows) := by
  obtain ⟨r, hr, htop⟩ := h
  exact ⟨r, .tail _ hr, htop⟩

theorem startsAt_merge (h : StartsAt t above) (row : Row) :
    StartsAt t (mergeWithPrecedingRow above row) := by
  cases above with
  | nil =>
    obtain ⟨r, hr, -⟩ := h
    cases hr
  | cons _ above =>
    rw [mergeWithPrecedingRow]
    split
    · obtain ⟨r, hr, htop⟩ := h
      rcases mem_cons.mp hr with rfl | hr
      · exact ⟨_, .head _, htop⟩
      · exact ⟨r, .tail _ hr, htop⟩
    · exact startsAt_cons h row

theorem startsAt_splitAbove (h : StartsAt t above) (top : Int) (row : Row) :
    StartsAt t (splitAbove top above row) := by
  rw [splitAbove]
  split
  · exact startsAt_cons h _
  · exact h

theorem startsAt_mergeAtEnd (h : StartsAt t above) (below : Rows) :
    StartsAt t (mergeAtEnd above below) := by
  have hjoin : ∀ {above : List Row} {below : Rows}, StartsAt t above →
      StartsAt t (join above below) := fun ⟨r, hr, htop⟩ => ⟨r, mem_join.mpr (.inl hr), htop⟩
  cases below with
  | nil => exact hjoin h
  | cons row below => exact hjoin (startsAt_merge h row)

/-! ## The loop at a seam -/

variable {d : Difference} {a b : Row} {rowA rowB : Rows}

theorem startsAt_subtractRow {top : Int} (h : StartsAt t (splitAbove top above a)) :
    StartsAt t (subtractRow top above a b rowA rowB).above := by
  simp only [subtractRow]
  split
  · exact h
  · exact startsAt_merge h _

/-- How far the loop is with two rows of the region that follow each other: it has not come to
them, it has jumped to the second one, or the row in which they lie is split. -/
inductive AtSeam (upper lower : Row) (rest : Rows) (d : Difference) : Prop where
  | before (a : Row) (passing : Rows) (rowB : d.rowB = passing ++ upper :: lower :: rest)
      (mem : a ∈ d.rowA) (top_le : a.top ≤ upper.bottom) (lt_bottom : lower.top < a.bottom)
  | jumped (a : Row) (rowB : d.rowB = lower :: rest) (top : d.top = lower.top)
      (mem : a ∈ d.rowA) (top_eq : a.top = upper.bottom) (lt_bottom : lower.top < a.bottom)
  | split (startsAt : StartsAt upper.bottom d.above)

variable {upper lower : Row} {rest : Rows}

/-- A row behind the first one stays when the first one is cut. -/
theorem mem_splitBelow_of_mem {bottom : Int} (h : row ∈ rowA) : row ∈ splitBelow bottom a rowA := by
  rw [splitBelow]
  split
  · exact mem_cons_of_mem _ h
  · exact h

theorem mem_splitBelow_self {bottom : Int} (h : bottom < a.bottom) :
    { a with top := bottom } ∈ splitBelow bottom a rowA := by
  rw [splitBelow, if_pos h]
  exact .head _

/-- A row of the target that the seam lies in, behind the subtraction of a row above the seam or of
its upper row. -/
theorem exists_mem_splitBelow {bottom low high : Int} (ha : RowsOk (a :: rowA))
    (hmem : row ∈ a :: rowA) (htop : row.top ≤ low) (hhigh : high < row.bottom)
    (hbottom : bottom ≤ low) (hlow : low < high) (habottom : bottom ≤ a.bottom) :
    ∃ r ∈ splitBelow bottom a rowA, r.top ≤ low ∧ high < r.bottom ∧ bottom ≤ r.top := by
  obtain ⟨hrow, hhead, -⟩ := rowsOk_cons.mp ha
  rcases mem_cons.mp hmem with rfl | hmem
  · exact ⟨_, mem_splitBelow_self (by omega), hbottom, hhigh, Int.le_refl _⟩
  · have := hhead row hmem
    exact ⟨row, mem_splitBelow_of_mem hmem, htop, hhigh, by omega⟩

/-- One pass, before the loop has come to the two rows. -/
theorem atSeam_before (hinv : SubtractInv rows region d) (hregion : RowsOk region)
    (hgap : upper.bottom < lower.top) (hA : d.rowA = a :: rowA) (hB : d.rowB = b :: rowB)
    {passing : Rows} (hrowB : d.rowB = passing ++ upper :: lower :: rest) (hmem : row ∈ d.rowA)
    (htop : row.top ≤ upper.bottom) (hbottom : lower.top < row.bottom) :
    AtSeam upper lower rest (subtractStep d) := by
  have hrowsA := hinv.rowA_ok
  have hrest := hinv.rowB_ok hregion
  have hbt := hinv.started b (by rw [hB]; rfl)
  rw [hA] at hrowsA hmem
  obtain ⟨ha, hhead, -⟩ := rowsOk_cons.mp hrowsA
  rw [hB] at hrest hrowB
  obtain ⟨hb, hbehind, -⟩ := rowsOk_cons.mp hrest
  -- The first row of the region ends at the seam or above it.
  have hfirst : b.bottom ≤ upper.bottom := by
    cases passing with
    | nil =>
      obtain ⟨rfl, -⟩ : b = upper ∧ _ := by simpa using hrowB
      exact Int.le_refl _
    | cons p passing =>
      obtain ⟨rfl, rfl⟩ : b = p ∧ rowB = passing ++ upper :: lower :: rest := by simpa using hrowB
      have hmemU : upper ∈ passing ++ upper :: lower :: rest := by simp
      have := hbehind upper hmemU
      have := (hrest.rowOk upper (.tail _ hmemU)).lines
      omega
  -- The pass takes the first row of the region away: if that is the upper one, `top` jumps.
  have hpass : ∀ d' : Difference, d'.rowB = rowB → d'.top = nextTop d'.top rowB →
      (∃ r ∈ d'.rowA, r.top ≤ upper.bottom ∧ lower.top < r.bottom ∧ b.bottom ≤ r.top) →
      AtSeam upper lower rest d' := by
    rintro d' hd' htop' ⟨r, hr, hrtop, hrbottom, hrb⟩
    cases passing with
    | nil =>
      obtain ⟨rfl, rfl⟩ : b = upper ∧ rowB = lower :: rest := by simpa using hrowB
      exact .jumped r hd' htop' hr (by omega) hrbottom
    | cons p passing =>
      obtain ⟨-, rfl⟩ : b = p ∧ rowB = passing ++ upper :: lower :: rest := by simpa using hrowB
      exact .before r passing hd' hr hrtop hrbottom
  obtain ⟨hskip, hstep⟩ | ⟨htop', hb', hstep⟩ | ⟨htop', hshared, hstep⟩ := subtractStep_cases hA hB
  · rw [hstep]
    refine .before row passing (hB.trans hrowB) ?_ htop hbottom
    rcases mem_cons.mp hmem with rfl | hmem
    · omega
    · exact hmem
  · rw [hstep]
    refine hpass _ rfl ?_ ⟨row, by rw [← hA] at hmem; exact hmem, htop, hbottom, ?_⟩
    · cases rowB <;> rfl
    rcases mem_cons.mp hmem with rfl | hmem
    · exact hb'
    have := hhead row hmem
    have := ha.lines
    omega
  · rw [hstep]
    by_cases hend : min a.bottom b.bottom ≥ b.bottom
    · refine hpass _ (by simp only [subtractRow, if_pos hend]) ?_
        (exists_mem_splitBelow hrowsA hmem htop hbottom hfirst hgap (by omega))
      simp only [subtractRow, if_pos hend]
      cases rowB <;> rfl
    refine .before row passing ?_ (mem_splitBelow_of_mem ?_) htop hbottom
    · simp only [subtractRow, if_neg hend]
      exact hrowB
    rcases mem_cons.mp hmem with rfl | hmem
    · omega
    · exact hmem

/-- One pass behind the jump: the row in which the seam lies is split. -/
theorem atSeam_jumped (hinv : SubtractInv rows region d) (hgap : upper.bottom < lower.top)
    (hA : d.rowA = a :: rowA) (hrowB : d.rowB = lower :: rest) (hjump : d.top = lower.top)
    (hmem : row ∈ d.rowA) (htop : row.top = upper.bottom) (hbottom : lower.top < row.bottom) :
    AtSeam upper lower rest (subtractStep d) := by
  have hrowsA := hinv.rowA_ok
  rw [hA] at hrowsA hmem
  obtain ⟨ha, hhead, -⟩ := rowsOk_cons.mp hrowsA
  have halines := ha.lines
  obtain ⟨hskip, hstep⟩ | ⟨htop', -, hstep⟩ | ⟨htop', -, hstep⟩ := subtractStep_cases hA hrowB
  · rw [hstep]
    refine .jumped row hrowB hjump ?_ htop hbottom
    rcases mem_cons.mp hmem with rfl | hmem
    · omega
    · exact hmem
  · rcases mem_cons.mp hmem with rfl | hmem
    · omega
    · have := hhead row hmem
      omega
  rw [hstep]
  rcases mem_cons.mp hmem with rfl | hmem
  · refine .split (startsAt_subtractRow ?_)
    rw [splitAbove, if_pos (by omega)]
    exact ⟨_, .head _, htop⟩
  · have := hhead row hmem
    omega

theorem atSeam_step (hinv : SubtractInv rows region d) (hregion : RowsOk region)
    (hgap : upper.bottom < lower.top) (hA : d.rowA = a :: rowA) (hB : d.rowB = b :: rowB)
    (h : AtSeam upper lower rest d) : AtSeam upper lower rest (subtractStep d) := by
  cases h with
  | before row _ hrowB hmem htop hbottom =>
    exact atSeam_before hinv hregion hgap hA hB hrowB hmem htop hbottom
  | jumped row hrowB hjump hmem htop hbottom =>
    exact atSeam_jumped hinv hgap hA hrowB hjump hmem htop hbottom
  | split hstarts =>
    refine .split ?_
    obtain ⟨-, hstep⟩ | ⟨-, -, hstep⟩ | ⟨-, -, hstep⟩ := subtractStep_cases hA hB
    · rw [hstep]
      exact startsAt_merge hstarts a
    · rw [hstep]
      exact hstarts
    · rw [hstep]
      exact startsAt_subtractRow (startsAt_splitAbove hstarts d.top a)

/-- The difference has a row that starts at the seam. -/
theorem startsAt_subtract (hrows : RowsOk rows) (hregion : RowsOk region) {done : Rows}
    (hsplit : region = done ++ upper :: lower :: rest) (hgap : upper.bottom < lower.top)
    (ha : a ∈ rows) (htop : a.top ≤ upper.bottom) (hbottom : lower.top < a.bottom) :
    StartsAt upper.bottom (subtract rows region) := by
  cases region with
  | nil => simp at hsplit
  | cons first region =>
    obtain ⟨hfirst, hhead, -⟩ := rowsOk_cons.mp hregion
    have hlower : lower ∈ region := by
      cases done <;> simp_all
    have hmem : a ∈ (subtractStart rows first region).rowA := by
      have hparts : a ∈ rows.takeWhile (fun row => row.bottom ≤ first.top) ++
          rows.dropWhile (fun row => row.bottom ≤ first.top) := by
        rw [takeWhile_append_dropWhile]
        exact ha
      rcases mem_append.mp hparts with habove | hbelow
      · have hle : a.bottom ≤ first.top := by simpa using mem_takeWhile_imp habove
        have := hhead lower hlower
        have := hfirst.lines
        omega
      · exact hbelow
    obtain ⟨⟨-, hseam⟩, hend⟩ := subtractLoop_rule
      (P := fun d => SubtractInv rows (first :: region) d ∧ AtSeam upper lower rest d) _
      ⟨subtractStart_inv hrows hregion, .before a done hsplit hmem htop hbottom⟩
      (fun d a rowA b rowB hA hB h =>
        ⟨⟨(subtractStep_inv hregion h.1 hA hB).1, atSeam_step h.1 hregion hgap hA hB h.2⟩,
          (subtractStep_inv hregion h.1 hA hB).2⟩)
      (passes_subtractStart rows first region)
    cases hseam with
    | before row _ hrowB hmem | jumped row hrowB _ hmem =>
      rcases hend with hend | hend
      · simp [hend] at hmem
      · simp [hend] at hrowB
    | split hstarts => exact startsAt_mergeAtEnd hstarts _

/-- `Subtract` keeps the canonical form exactly when there is no seam. -/
theorem subtract_canonical_iff (hrows : CanonicalRows rows) (hregion : RowsOk region) :
    CanonicalRows (subtract rows region) ↔ ¬ Seam rows region := by
  refine ⟨?_, subtract_canonical hrows hregion⟩
  rintro hcanonical ⟨_, upper, _, _, hsplit, hgap, ⟨a, ha, htop, hbottom⟩, hlines⟩
  obtain ⟨r, hr, hrtop⟩ := startsAt_subtract hrows.ok hregion hsplit hgap ha htop hbottom
  have hok := hcanonical.ok
  have hrOk := hok.rowOk r hr
  have hrlines := hrOk.lines
  -- The line above the row has the same columns.
  have hline : ∀ x, Covers (subtract rows region) x (upper.bottom - 1) ↔ InSpans r.spans x := by
    intro x
    rw [(subtract_spec hrows.ok hregion).2, hlines x, ← (subtract_spec hrows.ok hregion).2]
    exact covers_line hok hr ⟨by omega, by omega⟩
  obtain ⟨x, hx⟩ := hrOk.spansOk.exists_inSpans hrOk.nonempty
  obtain ⟨r', hr', hy', -⟩ := (hline x).mpr hx
  have hend : r'.bottom = r.top := by
    have hle := hy'.2
    by_contra hne
    have heq : r' = r := hok.spaced.unique (Int.le_refl 0) hr' hr (y := upper.bottom)
      ⟨by have := hy'.1; omega, by omega⟩ ⟨by omega, by omega⟩
    have := hy'.1
    rw [heq] at this
    omega
  have hspans : r'.spans = r.spans := (hok.rowOk r' hr').spansOk.ext hrOk.spansOk fun x => by
    rw [← covers_line hok hr' hy', hline x]
  exact hcanonical.canonical.not_labelAt_hi hr' ⟨r, hr, ⟨by omega, by omega⟩, hspans.symm⟩

/-! ## Any sequence of operations -/

/-- No `Subtract` of the sequence meets a seam. -/
def History.Seamless : History → Prop
  | .empty => True
  | .addRect target _ => target.Seamless
  | .addRegion target region => target.Seamless ∧ region.Seamless
  | .intersectWith target region => target.Seamless ∧ region.Seamless
  | .subtract target region =>
    target.Seamless ∧ region.Seamless ∧ ¬ Seam target.region region.region
  | .translate target _ _ => target.Seamless

theorem History.canonical (history : History) (h : history.Seamless) :
    CanonicalRows history.region := by
  induction history with
  | empty => exact ⟨rowsOk_nil, isChain_nil⟩
  | addRect target rect ih => exact addRect_canonical (ih h) rect
  | addRegion target region iht ihr => exact addRects_canonical (iht h.1) _
  | intersectWith target region iht ihr => exact intersect_canonical (iht h.1) (ihr h.2)
  | subtract target region iht ihr =>
    exact subtract_canonical (iht h.1) region.region_ok h.2.2
  | translate target dx dy ih => exact translate_canonical (ih h) dx dy

/-- A region built from rectangles alone. -/
def ofRects (start : History) (rs : List DesktopRect) : History := rs.foldl .addRect start

theorem ofRects_spec (start : History) (h : start.Seamless) (rs : List DesktopRect) :
    (ofRects start rs).Seamless ∧ (ofRects start rs).region = addRects start.region rs := by
  induction rs generalizing start with
  | nil => exact ⟨h, rfl⟩
  | cons rect rs ih => exact ih (.addRect start rect) h

/-- `Equals` with a region in canonical form is equality of the pixels for the canonical form
alone. -/
theorem canonicalRows_iff_equals (h : RowsOk rows) :
    CanonicalRows rows ↔ ∀ k : History, k.Seamless →
      (equals rows k.region ↔ pixels rows = pixels k.region) := by
  constructor
  · intro hcanonical k hk
    rw [equals_iff, pixels_eq_iff]
    exact ⟨fun heq x y => by rw [heq], hcanonical.ext (k.canonical hk)⟩
  intro hequals
  obtain ⟨hseamless, hregion⟩ := ofRects_spec .empty trivial (rects none rows)
  have hcanonical := canonical _ hseamless
  have hsame : pixels rows = pixels (ofRects .empty (rects none rows)).region := by
    rw [pixels_eq_iff, hregion]
    intro x y
    have hcovers := (addRects_spec empty.region_ok (rects none rows)).2 x y
    rw [hcovers, exists_rects_iff h]
    simp [region]
  rw [(equals_iff _ _).mp ((hequals _ hseamless).mpr hsame)]
  exact hcanonical

/-- For regions built without a seam, `Equals` is equality of the sets of pixels; and a `Subtract`
of two of them yields such a region again exactly when it meets no seam. -/
theorem equals_iff_same_pixels (h h' : History) (hs : h.Seamless) (hs' : h'.Seamless) :
    CanonicalRows h.region ∧
    (equals h.region h'.region = true ↔ pixels h.region = pixels h'.region) ∧
    ((∀ k : History, k.Seamless → (equals (subtract h.region h'.region) k.region = true ↔
        pixels (subtract h.region h'.region) = pixels k.region)) ↔ ¬ Seam h.region h'.region) := by
  have hcanonical := h.canonical hs
  refine ⟨hcanonical, (canonicalRows_iff_equals h.region_ok).mp hcanonical h' hs', ?_⟩
  rw [← canonicalRows_iff_equals (subtract_spec h.region_ok h'.region_ok).1]
  exact subtract_canonical_iff hcanonical h'.region_ok

/-- A square with a hole. -/
def squareWithHole : History :=
  .subtract (.addRect .empty ⟨0, 0, 10, 10⟩) (.addRect .empty ⟨2, 2, 4, 4⟩)

theorem squareWithHole_seamless : squareWithHole.Seamless := by
  refine ⟨trivial, trivial, ?_⟩
  rintro ⟨_, b, _, _, hregion, -⟩
  have hone : region (.addRect .empty ⟨2, 2, 4, 4⟩) = [⟨2, 4, [⟨2, 4⟩]⟩] := by decide
  have hlength := congrArg length (hone.symm.trans hregion)
  simp at hlength
  omega

/-- The same pixels, as the rectangles around the hole. -/
def aroundHole : History :=
  .addRect (.addRect (.addRect (.addRect .empty ⟨0, 4, 10, 10⟩) ⟨4, 2, 10, 4⟩) ⟨0, 0, 10, 2⟩)
    ⟨0, 2, 2, 4⟩

theorem equals_iff_same_pixels_square : equals squareWithHole.region aroundHole.region = true ∧
      pixels squareWithHole.region = pixels aroundHole.region := by
  have hequals : equals squareWithHole.region aroundHole.region = true := by decide
  have hiff := (equals_iff_same_pixels squareWithHole aroundHole squareWithHole_seamless trivial).2.1
  exact ⟨hequals, hiff.mp hequals⟩

/-- A square, and the same square without two rectangles beside it: the same pixels, but `Equals`
is false. -/
theorem equals_differs_at_seam : pixels (History.addRect .empty ⟨0, 0, 10, 10⟩).region =
      pixels (History.subtract (.addRect .empty ⟨0, 0, 10, 10⟩)
        (.addRect (.addRect .empty ⟨20, 2, 30, 4⟩) ⟨20, 6, 30, 8⟩)).region ∧
    equals (History.addRect .empty ⟨0, 0, 10, 10⟩).region
      (History.subtract (.addRect .empty ⟨0, 0, 10, 10⟩)
        (.addRect (.addRect .empty ⟨20, 2, 30, 4⟩) ⟨20, 6, 30, 8⟩)).region = false := by
  refine ⟨?_, by decide⟩
  have hsquare : (History.addRect .empty ⟨0, 0, 10, 10⟩).region = [⟨0, 10, [⟨0, 10⟩]⟩] := by decide
  have hdifference : (History.subtract (.addRect .empty ⟨0, 0, 10, 10⟩)
      (.addRect (.addRect .empty ⟨20, 2, 30, 4⟩) ⟨20, 6, 30, 8⟩)).region =
      [⟨0, 4, [⟨0, 10⟩]⟩, ⟨4, 10, [⟨0, 10⟩]⟩] := by decide
  rw [hsquare, hdifference, pixels_eq_iff]
  intro x y
  simp only [covers_cons, row_covers_iff, inSpans_cons, not_inSpans_nil, not_covers_nil, or_false]
  omega

end WebRtc.Desktop
