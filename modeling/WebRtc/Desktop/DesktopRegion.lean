import WebRtc.Lib.IntervalLists

/-! `DesktopRegion` of modules/desktop_capture: a set of pixels kept as rows of spans.

`rows_` maps the bottom of a row to the row, so the map is the list of its rows in that order. An
iterator into the map is a gap in the list: the rows `above` it, nearest first, and the rows
`below` it, of which the first is the one the iterator refers to. The coordinates are integers
without a bound, as in the source as long as no sum overflows. -/

namespace WebRtc.Desktop
open Intervals

/-- `DesktopRect`, by its edges. -/
structure DesktopRect where
  left : Int
  top : Int
  right : Int
  bottom : Int
  deriving DecidableEq, Repr

def DesktopRect.isEmpty (rect : DesktopRect) : Bool :=
  rect.left ≥ rect.right || rect.top ≥ rect.bottom

structure RowSpan where
  left : Int
  right : Int
  deriving DecidableEq, Repr

structure Row where
  top : Int
  bottom : Int
  spans : List RowSpan
  deriving DecidableEq, Repr

abbrev Rows := List Row

def equals : Rows → Rows → Bool
  | [], [] => true
  | row :: rows, row' :: rows' =>
    row.top == row'.top && row.bottom == row'.bottom && row.spans == row'.spans && equals rows rows'
  | _, _ => false

/-! ## Spans of one row -/

/-- `AddSpanToRow`. The spans from `start` up to `end` overlap or touch the new one. -/
def addSpanToRow (spans : List RowSpan) (left right : Int) : List RowSpan :=
  if spans.getLast?.all (fun back => left > back.right) then spans ++ [⟨left, right⟩]
  else
    let before := spans.takeWhile fun span => span.right < left
    let start := spans.dropWhile fun span => span.right < left
    let overlapping := start.takeWhile fun span => span.left < right + 1
    let after := start.dropWhile fun span => span.left < right + 1
    match overlapping.head?, overlapping.getLast? with
    | some first, some last => before ++ ⟨min left first.left, max right last.right⟩ :: after
    | _, _ => before ++ ⟨left, right⟩ :: after

def isSpanInRow (row : Row) (span : RowSpan) : Bool :=
  (row.spans.dropWhile fun s => s.left < span.left).head? == some span

def intersectRows (set1 set2 : List RowSpan) : List RowSpan :=
  (sweep RowSpan.left RowSpan.right (set1.length + set2.length) set1 set2).map fun overlap =>
    ⟨overlap.lo, overlap.hi⟩

/-- The part of a span that is left from `pos` on. -/
def remainder (pos right : Int) : List RowSpan :=
  if pos < right then [⟨pos, right⟩] else []

/-- The inner loop of `SubtractRows` over `it_b`, for a span that ends at `right`: the parts pushed
to the output, that behind the loop included, and where `it_b` is left. -/
def subtractSpans (right : Int) : Int → List RowSpan → List RowSpan × List RowSpan
  | pos, [] => (remainder pos right, [])
  | pos, b :: setB =>
    if b.left < right then
      let pushed := remainder pos b.left
      if b.right > pos then
        if b.right ≥ right then (pushed ++ remainder b.right right, b :: setB)
        else (pushed ++ (subtractSpans right b.right setB).1, (subtractSpans right b.right setB).2)
      else (pushed ++ (subtractSpans right pos setB).1, (subtractSpans right pos setB).2)
    else (remainder pos right, b :: setB)

def subtractRows : List RowSpan → List RowSpan → List RowSpan
  | [], _ => []
  | a :: setA, setB =>
    if setB.head?.all (fun b => a.right < b.left) then a :: subtractRows setA setB
    else (subtractSpans a.right a.left setB).1 ++
      subtractRows setA (subtractSpans a.right a.left setB).2

/-! ## Rows -/

/-- All rows, from the two sides of an iterator. -/
def join : List Row → Rows → Rows
  | [], below => below
  | row :: above, below => join above (row :: below)

/-- `MergeWithPrecedingRow` on the row at the iterator, and the iterator moved behind it. -/
def mergeWithPrecedingRow (above : List Row) (row : Row) : List Row :=
  match above with
  | [] => [row]
  | previous :: rest =>
    if previous.bottom = row.top ∧ previous.spans = row.spans then
      { row with top := previous.top } :: rest
    else row :: previous :: rest

/-- The merge behind the loops of `AddRect` and `Subtract`. -/
def mergeAtEnd (above : List Row) : Rows → Rows
  | [] => join above []
  | row :: below => join (mergeWithPrecedingRow above row) below

/-- The rows above the iterator when its row is split at `top` and it stays on the lower part. -/
def splitAbove (top : Int) (above : List Row) (row : Row) : List Row :=
  if row.top < top then ⟨row.top, top, row.spans⟩ :: above else above

/-- The rows behind the iterator when its row is split at `bottom` and it stays on the upper
part. -/
def splitBelow (bottom : Int) (row : Row) (below : Rows) : Rows :=
  if bottom < row.bottom then { row with top := bottom } :: below else below

/-! ## `AddRect` -/

/-- The state of the loop of `AddRect`: `top`, and the iterator `row`. -/
structure Cursor where
  top : Int
  above : List Row
  below : Rows

/-- The row that starts at `top`: a new row without spans, or the row that `top` falls in. -/
def rowAtTop (rect : DesktopRect) (c : Cursor) : List Row × Row × Rows :=
  match c.below with
  | [] => (c.above, ⟨c.top, rect.bottom, []⟩, [])
  | row :: below =>
    if c.top < row.top then (c.above, ⟨c.top, min rect.bottom row.top, []⟩, row :: below)
    else (splitAbove c.top c.above row, { row with top := c.top }, below)

/-- One pass of the loop of `AddRect`. -/
def addRectStep (rect : DesktopRect) (c : Cursor) : Cursor :=
  match rowAtTop rect c with
  | (above, row, below) =>
    let bottom := min rect.bottom row.bottom
    ⟨bottom, mergeWithPrecedingRow above
        ⟨c.top, bottom, addSpanToRow row.spans rect.left rect.right⟩,
      splitBelow rect.bottom row below⟩

/-- The loop of `AddRect`; each pass takes `top` down by one line at least. -/
def addRectLoop (rect : DesktopRect) : Nat → Cursor → Cursor
  | 0, c => c
  | fuel + 1, c => if c.top < rect.bottom then addRectLoop rect fuel (addRectStep rect c) else c

/-- The iterator that `upper_bound` returns. -/
def upperBound (top : Int) (rows : Rows) : Cursor where
  top := top
  above := (rows.takeWhile fun row => row.bottom ≤ top).reverse
  below := rows.dropWhile fun row => row.bottom ≤ top

def addRect (rows : Rows) (rect : DesktopRect) : Rows :=
  if rect.isEmpty then rows
  else
    let c := addRectLoop rect (rect.bottom - rect.top).toNat (upperBound rect.top rows)
    mergeAtEnd c.above c.below

/-! ## `AddRegion` -/

/-- `Iterator::UpdateCurrentRect`: the bottom of the last of the rows from `row` on that touch and
contain the span. -/
def currentBottom (span : RowSpan) : Row → Rows → Int
  | row, [] => row.bottom
  | row, next :: rows =>
    if row.bottom = next.top ∧ isSpanInRow next span then currentBottom span next rows
    else row.bottom

/-- `Iterator::Advance` skips a span that the previous row has too. -/
def isReturned (previous : Option Row) (row : Row) (span : RowSpan) : Bool :=
  previous.any fun previous => previous.bottom = row.top ∧ isSpanInRow previous span

/-- The rectangles that the `Iterator` returns from a row on. -/
def rects : Option Row → Rows → List DesktopRect
  | _, [] => []
  | previous, row :: rows =>
    ((row.spans.filter fun span => !isReturned previous row span).map fun span =>
      ⟨span.left, row.top, span.right, currentBottom span row rows⟩) ++ rects (some row) rows

def addRects (rows : Rows) (rects : List DesktopRect) : Rows := rects.foldl addRect rows

def addRegion (rows region : Rows) : Rows := addRects rows (rects none region)

/-! ## `Intersect` -/

/-- The row of an overlap is inserted unless the spans have nothing in common. -/
def insertOverlap (above : List Row) (overlap : Overlap Row) : List Row :=
  let spans := intersectRows overlap.first.spans overlap.second.spans
  if spans = [] then above else mergeWithPrecedingRow above ⟨overlap.lo, overlap.hi, spans⟩

def intersect (region1 region2 : Rows) : Rows :=
  join ((sweep Row.top Row.bottom (region1.length + region2.length) region1 region2).foldl
    insertOverlap []) []

def intersectWith (rows region : Rows) : Rows := intersect rows region

def intersectWithRect (rows : Rows) (rect : DesktopRect) : Rows :=
  intersectWith rows (addRect [] rect)

/-! ## `Subtract` -/

/-- The state of the loop of `Subtract`: `top`, the iterator `row_a` and the rows from `row_b`
on. -/
structure Difference where
  top : Int
  above : List Row
  rowA : Rows
  rowB : Rows

/-- `top` when `row_b` moves to the next row. -/
def nextTop (top : Int) (rowB : Rows) : Int := (rowB.head?.map Row.top).getD top

/-- The lines of `row_a` that are in `row_b`, without the spans of `row_b`, and the split of `row_a`
around them. A row without spans is deleted. -/
def subtractRow (top : Int) (above : List Row) (a b : Row) (rowA rowB : Rows) : Difference :=
  let bottom := min a.bottom b.bottom
  let spans := subtractRows a.spans b.spans
  let upper := splitAbove top above a
  { top := if bottom ≥ b.bottom then nextTop bottom rowB else bottom
    above := if spans = [] then upper else mergeWithPrecedingRow upper ⟨max top a.top, bottom, spans⟩
    rowA := splitBelow b.bottom a rowA
    rowB := if bottom ≥ b.bottom then rowB else b :: rowB }

/-- One pass of the loop of `Subtract`. -/
def subtractStep (d : Difference) : Difference :=
  match d.rowA, d.rowB with
  | a :: rowA, b :: rowB =>
    if a.bottom ≤ d.top then
      { d with above := mergeWithPrecedingRow d.above a, rowA := rowA }
    else if d.top < a.top ∧ a.top ≥ b.bottom then
      { d with top := nextTop a.top rowB, rowB := rowB }
    else subtractRow d.top d.above a b rowA rowB
  | _, _ => d

/-- The loop of `Subtract`; each pass consumes a row of one side or splits one for a row of the
other. -/
def subtractLoop : Nat → Difference → Difference
  | 0, d => d
  | fuel + 1, d =>
    if d.rowA ≠ [] ∧ d.rowB ≠ [] then subtractLoop fuel (subtractStep d) else d

/-- The state in which the loop of `Subtract` starts. -/
def subtractStart (rows : Rows) (first : Row) (region : Rows) : Difference :=
  ⟨first.top, (upperBound first.top rows).above, (upperBound first.top rows).below, first :: region⟩

def subtract (rows : Rows) : Rows → Rows
  | [] => rows
  | first :: region =>
    let d := subtractLoop (rows.length + 2 * (region.length + 1)) (subtractStart rows first region)
    mergeAtEnd d.above d.rowA

def subtractRect (rows : Rows) (rect : DesktopRect) : Rows := subtract rows (addRect [] rect)

/-! ## `Translate` -/

def RowSpan.translate (dx : Int) (span : RowSpan) : RowSpan := ⟨span.left + dx, span.right + dx⟩

def Row.translate (dx dy : Int) (row : Row) : Row where
  top := row.top + dy
  bottom := row.bottom + dy
  spans := if dx ≠ 0 then row.spans.map (RowSpan.translate dx) else row.spans

def translate (rows : Rows) (dx dy : Int) : Rows := rows.map (Row.translate dx dy)

/-! ## Pixels -/

/-- The pixel is in the rectangle. -/
def DesktopRect.Covers (rect : DesktopRect) (x y : Int) : Prop :=
  rect.left ≤ x ∧ x < rect.right ∧ rect.top ≤ y ∧ y < rect.bottom

/-- The column is in one of the spans. -/
def InSpans (spans : List RowSpan) (x : Int) : Prop :=
  ∃ span ∈ spans, Contains RowSpan.left RowSpan.right span x

def Row.Covers (row : Row) (x y : Int) : Prop :=
  Contains Row.top Row.bottom row y ∧ InSpans row.spans x

/-- The pixel is in one of the rows. -/
def Covers (rows : Rows) (x y : Int) : Prop := ∃ row ∈ rows, row.Covers x y

/-- The set of pixels that a region denotes. -/
def pixels (rows : Rows) : Set (Int × Int) := {p | Covers rows p.1 p.2}

/-- How a region came about: any sequence of the operations, the regions that were their
arguments included. -/
inductive History where
  | empty
  | addRect (target : History) (rect : DesktopRect)
  | addRegion (target region : History)
  | intersectWith (target region : History)
  | subtract (target region : History)
  | translate (target : History) (dx dy : Int)

/-- The region that the operations compute. -/
def History.region : History → Rows
  | .empty => []
  | .addRect target rect => Desktop.addRect target.region rect
  | .addRegion target region => Desktop.addRegion target.region region.region
  | .intersectWith target region => Desktop.intersectWith target.region region.region
  | .subtract target region => Desktop.subtract target.region region.region
  | .translate target dx dy => Desktop.translate target.region dx dy

/-- The set of pixels that the operations stand for. -/
def History.meaning : History → Set (Int × Int)
  | .empty => ∅
  | .addRect target rect => target.meaning ∪ {p | rect.Covers p.1 p.2}
  | .addRegion target region => target.meaning ∪ region.meaning
  | .intersectWith target region => target.meaning ∩ region.meaning
  | .subtract target region => target.meaning \ region.meaning
  | .translate target dx dy => {p | (p.1 - dx, p.2 - dy) ∈ target.meaning}

end WebRtc.Desktop
