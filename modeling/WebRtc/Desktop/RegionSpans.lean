import WebRtc.Desktop.DesktopRegion

/-! The spans of one row as a set of columns: adding a span is union, `IntersectRows` is
intersection, `SubtractRows` is difference, and each keeps the spans sorted and apart. -/

namespace WebRtc.Desktop
open Intervals List

variable {spans setB : List RowSpan} {left right pos : Int}

/-- Spans sorted and not touching. -/
abbrev SpansOk (spans : List RowSpan) : Prop := Spaced RowSpan.left RowSpan.right 1 spans

@[simp] theorem not_inSpans_nil (x : Int) : ¬ InSpans [] x := by simp [InSpans]

@[simp] theorem inSpans_cons (span : RowSpan) (spans : List RowSpan) (x : Int) :
    InSpans (span :: spans) x ↔ (span.left ≤ x ∧ x < span.right) ∨ InSpans spans x := by
  simp [InSpans, Contains]

@[simp] theorem inSpans_append (spans spans' : List RowSpan) (x : Int) :
    InSpans (spans ++ spans') x ↔ InSpans spans x ∨ InSpans spans' x := by
  simp [InSpans, or_and_right, exists_or]

/-- Spans in this order are determined by the columns in them. -/
theorem SpansOk.ext {spans' : List RowSpan} (h : SpansOk spans) (h' : SpansOk spans')
    (heq : ∀ x, InSpans spans x ↔ InSpans spans' x) : spans = spans' := by
  have hext : ∀ s s' : RowSpan, s.left = s'.left → s.right = s'.right → () = () → s = s' := by
    rintro ⟨l, r⟩ ⟨_, _⟩ hl hr -
    simp_all
  refine Canonical.ext hext (h.canonical Int.one_pos) (h'.canonical Int.one_pos) fun x c => ?_
  simpa [LabelAt, InSpans] using heq x

theorem SpansOk.exists_inSpans (h : SpansOk spans) (hne : spans ≠ []) : ∃ x, InSpans spans x := by
  obtain ⟨span, _, rfl⟩ := exists_cons_of_ne_nil hne
  exact ⟨span.left, span, .head _, Int.le_refl _, h.nonempty span (.head _)⟩

/-! ## `AddSpanToRow` -/

theorem addSpanToRow_at_end (h : SpansOk spans) (hlr : left < right)
    (hend : spans.getLast?.all (fun back => left > back.right)) :
    SpansOk (spans ++ [⟨left, right⟩]) := by
  refine spaced_append.mpr ⟨h, spaced_cons.mpr ⟨hlr, by simp, spaced_nil⟩, fun span hs new hnew => ?_⟩
  rw [mem_singleton.mp hnew]
  cases hlast : spans.getLast? with
  | none => simp [getLast?_eq_none_iff.mp hlast] at hs
  | some back =>
    have hback : left > back.right := by simpa [hlast] using hend
    have := h.le_getLast (by omega) hlast hs
    dsimp only
    omega

/-- The list that `AddSpanToRow` cuts in three: the middle is replaced by one span. -/
theorem spansOk_replace {before overlapping after : List RowSpan}
    (h : SpansOk (before ++ (overlapping ++ after))) (hlr : left < right)
    (hbefore : ∀ span ∈ before, span.right < left) (hafter : ∀ span ∈ after, right < span.left)
    {new : RowSpan} (hleft : new.left = left ∨ ∃ first ∈ overlapping, new.left = first.left)
    (hright : new.right = right ∨ ∃ last ∈ overlapping, new.right = last.right)
    (hcover : new.left ≤ left ∧ right ≤ new.right) : SpansOk (before ++ new :: after) := by
  obtain ⟨hb, hrest, hacross⟩ := spaced_append.mp h
  obtain ⟨-, ha, hacross'⟩ := spaced_append.mp hrest
  refine spaced_append.mpr ⟨hb, spaced_cons.mpr ⟨by omega, fun span hs => ?_, ha⟩,
    fun span hs other hother => ?_⟩
  · rcases hright with hright | ⟨last, hlast, hright⟩
    · have := hafter span hs
      omega
    · have := hacross' last hlast span hs
      omega
  rcases mem_cons.mp hother with rfl | hother
  · rcases hleft with hleft | ⟨first, hfirst, hleft⟩
    · have := hbefore span hs
      omega
    · have := hacross span hs first (mem_append_left _ hfirst)
      omega
  · exact hacross span hs other (mem_append_right _ hother)

/-- The columns of the span that replaces the overlapping ones. -/
theorem inSpans_replaced {overlapping : List RowSpan} (h : SpansOk overlapping)
    (hoverlap : ∀ span ∈ overlapping, left ≤ span.right ∧ span.left ≤ right) {first last : RowSpan}
    (hfirst : overlapping.head? = some first) (hlast : overlapping.getLast? = some last) (x : Int) :
    (min left first.left ≤ x ∧ x < max right last.right) ↔
      (left ≤ x ∧ x < right) ∨ InSpans overlapping x := by
  have hfirstMem := mem_of_head? hfirst
  have hlastMem := mem_of_getLast? hlast
  constructor
  · intro hx
    have hf := hoverlap first hfirstMem
    have hl := hoverlap last hlastMem
    by_cases hxl : left ≤ x
    · by_cases hxr : x < right
      · exact .inl ⟨hxl, hxr⟩
      · exact .inr ⟨last, hlastMem, by omega, by omega⟩
    · exact .inr ⟨first, hfirstMem, by omega, by omega⟩
  · rintro (hx | ⟨span, hspan, hsl, hsr⟩)
    · omega
    have hf := h.head_le (by omega) hfirst hspan
    have hl := h.le_getLast (by omega) hlast hspan
    omega

/-- The three parts in which `AddSpanToRow` cuts the spans. -/
theorem addSpanToRow_parts (h : SpansOk spans) (left right : Int) : ∃ before overlapping after,
      spans.takeWhile (fun span => span.right < left) = before ∧
      (spans.dropWhile fun span => span.right < left).takeWhile (fun span => span.left < right + 1) =
        overlapping ∧
      (spans.dropWhile fun span => span.right < left).dropWhile (fun span => span.left < right + 1) =
        after ∧ spans = before ++ (overlapping ++ after) ∧ (∀ span ∈ before, span.right < left) ∧
      (∀ span ∈ overlapping, left ≤ span.right ∧ span.left ≤ right) ∧
      (∀ span ∈ after, right < span.left) := by
  obtain ⟨hbefore, hstart⟩ := cut (h.sorted_hi (by omega)) left
  have hstartOk : SpansOk (spans.dropWhile fun span => span.right < left) :=
    h.sublist (dropWhile_sublist _)
  obtain ⟨hover, hafter⟩ := cut (hstartOk.sorted_lo (by omega)) (right + 1)
  refine ⟨_, _, _, rfl, rfl, rfl, ?_, hbefore, fun span hs => ?_, fun span hs => ?_⟩
  · rw [takeWhile_append_dropWhile, takeWhile_append_dropWhile]
  · have := hover span hs
    exact ⟨hstart span (takeWhile_subset _ hs), by omega⟩
  · have := hafter span hs
    omega

/-- `AddSpanToRow` adds the columns of the span. -/
theorem addSpanToRow_spec (h : SpansOk spans) (hlr : left < right) :
    SpansOk (addSpanToRow spans left right) ∧ addSpanToRow spans left right ≠ [] ∧
      ∀ x, InSpans (addSpanToRow spans left right) x ↔
        InSpans spans x ∨ (left ≤ x ∧ x < right) := by
  obtain ⟨before, overlapping, after, hbefore', hover', hafter', hspans, hbefore, hover, hafter⟩ :=
    addSpanToRow_parts h left right
  simp only [addSpanToRow, hbefore', hover', hafter']
  split
  next hend => exact ⟨addSpanToRow_at_end h hlr hend, by simp, fun x => by simp⟩
  next =>
    have hOk : SpansOk (before ++ (overlapping ++ after)) := hspans ▸ h
    have hoverOk : SpansOk overlapping := (spaced_append.mp (spaced_append.mp hOk).2.1).1
    split
    next first last hfirst hlast =>
      refine ⟨spansOk_replace hOk hlr hbefore hafter ?_ ?_ (by dsimp only; omega), by simp,
        fun x => ?_⟩
      · by_cases hle : left ≤ first.left
        · exact .inl (by dsimp only; omega)
        · exact .inr ⟨first, mem_of_head? hfirst, by dsimp only; omega⟩
      · by_cases hle : last.right ≤ right
        · exact .inl (by dsimp only; omega)
        · exact .inr ⟨last, mem_of_getLast? hlast, by dsimp only; omega⟩
      rw [hspans]
      simp only [inSpans_append, inSpans_cons]
      rw [inSpans_replaced hoverOk hover hfirst hlast x]
      tauto
    next hnone =>
      have hempty : overlapping = [] := by
        cases overlapping with
        | nil => rfl
        | cons first _ =>
          exact (hnone first _ rfl (getLast?_eq_some_getLast (cons_ne_nil _ _))).elim
      subst hempty
      refine ⟨spansOk_replace hOk hlr hbefore hafter (.inl rfl) (.inl rfl)
        ⟨Int.le_refl _, Int.le_refl _⟩, by simp, fun x => ?_⟩
      rw [hspans]
      simp only [inSpans_append, inSpans_cons, nil_append]
      tauto

/-! ## `IntersectRows` -/

theorem spaced_map_overlap {os : List (Overlap RowSpan)} {gap : Int}
    (h : Spaced Overlap.lo Overlap.hi gap os) : Spaced RowSpan.left RowSpan.right gap
      (os.map fun overlap => (⟨overlap.lo, overlap.hi⟩ : RowSpan)) := by
  refine ⟨fun span hs => ?_, pairwise_map.mpr h.apart⟩
  obtain ⟨o, ho, rfl⟩ := mem_map.mp hs
  exact h.nonempty o ho

/-- `IntersectRows` keeps the columns that both have. -/
theorem intersectRows_spec {set1 set2 : List RowSpan} (h1 : SpansOk set1) (h2 : SpansOk set2) :
    SpansOk (intersectRows set1 set2) ∧
      ∀ x, InSpans (intersectRows set1 set2) x ↔ InSpans set1 x ∧ InSpans set2 x := by
  have hswept := sweep_swept (by omega) (set1.length + set2.length) h1 h2 (Nat.le_refl _)
  refine ⟨spaced_map_overlap hswept.spaced, fun x => ⟨?_, ?_⟩⟩
  · rintro ⟨_, hspan, hleft, hright⟩
    obtain ⟨o, ho, rfl⟩ := mem_map.mp hspan
    obtain ⟨a, ha, b, hb, -, hlo, hhi, -⟩ := hswept.sound o ho
    dsimp only at hleft hright
    exact ⟨⟨a, ha, by omega, by omega⟩, ⟨b, hb, by omega, by omega⟩⟩
  rintro ⟨⟨a, ha, hax⟩, b, hb, hbx⟩
  obtain ⟨o, ho, hlo, hhi, -⟩ := hswept.complete a ha b hb x hax hbx
  exact ⟨_, mem_map_of_mem ho, hlo, hhi⟩

/-! ## `SubtractRows` -/

theorem inSpans_remainder (pos right x : Int) :
    InSpans (remainder pos right) x ↔ pos ≤ x ∧ x < right := by
  rw [remainder]
  split
  · simp
  · simp only [not_inSpans_nil, false_iff]
    omega

theorem mem_remainder {span : RowSpan} (h : span ∈ remainder pos right) :
    span.left = pos ∧ span.right = right ∧ pos < right := by
  rw [remainder] at h
  split at h
  · rw [mem_singleton.mp h]
    exact ⟨rfl, rfl, by assumption⟩
  · cases h

theorem remainder_spansOk (pos right : Int) : SpansOk (remainder pos right) := by
  rw [remainder]
  split
  next h => exact spaced_cons.mpr ⟨h, by simp, spaced_nil⟩
  next => exact spaced_nil

/-- What the inner loop of `SubtractRows` leaves of the columns from `pos` to `right`. -/
structure Subtracted (right pos : Int) (setB output rest : List RowSpan) : Prop where
  spansOk : SpansOk output
  within : ∀ span ∈ output, pos ≤ span.left ∧ span.right ≤ right
  columns : ∀ x, InSpans output x ↔ (pos ≤ x ∧ x < right) ∧ ¬ InSpans setB x
  suffix : rest <:+ setB
  passed : ∀ x, right ≤ x → (InSpans rest x ↔ InSpans setB x)

/-- The part in front of the next span of `set_b` is pushed. -/
theorem Subtracted.push {next : Int} {b : RowSpan} {output rest : List RowSpan}
    (hb : SpansOk (b :: setB)) (hleft : b.left < right) (hnext : next = max pos b.right)
    (hend : b.right < right) (h : Subtracted right next setB output rest) :
    Subtracted right pos (b :: setB) (remainder pos b.left ++ output) rest := by
  obtain ⟨hne, -, -⟩ := spaced_cons.mp hb
  constructor
  · refine spaced_append.mpr ⟨remainder_spansOk _ _, h.spansOk, fun span hs other hother => ?_⟩
    have h1 := mem_remainder hs
    have h2 := h.within other hother
    omega
  · intro span hs
    rcases mem_append.mp hs with hs | hs
    · have := mem_remainder hs
      omega
    · have := h.within span hs
      omega
  · intro x
    simp only [inSpans_append, inSpans_remainder, inSpans_cons, h.columns]
    have hbehind : x < b.right → ¬ InSpans setB x := by
      rintro hx ⟨span, hs, hsl, -⟩
      have := (spaced_cons.mp hb).2.1 span hs
      omega
    by_cases hx : InSpans setB x
    · have : b.right ≤ x := by
        by_contra hlt
        exact hbehind (by omega) hx
      simp only [hx, not_true, and_false, or_false, or_true, iff_false]
      omega
    · simp only [hx, not_false_iff, and_true, or_false]
      omega
  · exact h.suffix.trans (suffix_cons b setB)
  · intro x hx
    rw [h.passed x hx, inSpans_cons]
    exact ⟨.inr, fun hor => hor.resolve_left (by omega)⟩

/-- The inner loop stops at a span of `set_b` that starts behind the span of `set_a`. -/
theorem Subtracted.stop (pos : Int) (hB : ∀ span ∈ setB, right ≤ span.left) :
    Subtracted right pos setB (remainder pos right) setB := by
  refine ⟨remainder_spansOk _ _, fun span hs => ?_, fun x => ?_, suffix_refl _, fun _ _ => Iff.rfl⟩
  · have := mem_remainder hs
    omega
  rw [inSpans_remainder, iff_self_and]
  rintro hx ⟨span, hs, hsl, -⟩
  have := hB span hs
  omega

/-- The inner loop breaks at a span of `set_b` that reaches the end of the span of `set_a`. -/
theorem Subtracted.break {b : RowSpan} (hleft : b.left < right) (hend : right ≤ b.right)
    (hB : SpansOk (b :: setB)) :
    Subtracted right pos (b :: setB) (remainder pos b.left) (b :: setB) := by
  refine ⟨remainder_spansOk _ _, fun span hs => ?_, fun x => ?_, suffix_refl _, fun _ _ => Iff.rfl⟩
  · have := mem_remainder hs
    omega
  rw [inSpans_remainder, inSpans_cons]
  have hbehind : x < b.right → ¬ InSpans setB x := by
    rintro hx ⟨span, hs, hsl, -⟩
    have := (spaced_cons.mp hB).2.1 span hs
    omega
  constructor
  · intro hx
    exact ⟨by omega, by rintro (hb | hb) <;> [omega; exact hbehind (by omega) hb]⟩
  rintro ⟨hx, hb⟩
  omega

theorem subtractSpans_spec (hB : SpansOk setB) (hpos : pos < right) :
    Subtracted right pos setB (subtractSpans right pos setB).1
      (subtractSpans right pos setB).2 := by
  induction setB generalizing pos with
  | nil => exact .stop pos (by simp)
  | cons b setB ih =>
    obtain ⟨hne, hapart, hB'⟩ := spaced_cons.mp hB
    simp only [subtractSpans]
    split_ifs with hleft hright hend
    · have hdone : remainder b.right right = [] := if_neg (by omega)
      rw [hdone, append_nil]
      exact .break hleft hend hB
    · exact .push hB hleft (by omega) (by omega) (ih hB' (by omega))
    · exact .push hB hleft (by omega) (by omega) (ih hB' hpos)
    refine .stop pos fun span hs => ?_
    rcases mem_cons.mp hs with rfl | hs
    · omega
    · have := hapart span hs
      omega

/-- `SubtractRows` keeps the columns of the first set that are not in the second. -/
theorem subtractRows_spec {setA : List RowSpan} (hA : SpansOk setA) (hB : SpansOk setB) :
    SpansOk (subtractRows setA setB) ∧
      (∀ lo, (∀ a ∈ setA, lo ≤ a.left) → ∀ span ∈ subtractRows setA setB, lo ≤ span.left) ∧
      ∀ x, InSpans (subtractRows setA setB) x ↔ InSpans setA x ∧ ¬ InSpans setB x := by
  induction setA generalizing setB with
  | nil => exact ⟨spaced_nil, by simp [subtractRows], by simp [subtractRows]⟩
  | cons a setA ih =>
    obtain ⟨hne, hapart, hA'⟩ := spaced_cons.mp hA
    rw [subtractRows]
    -- Both branches push what is left of the first span, and go on with what is left of `set_b`.
    have hstep : ∀ output rest, Subtracted a.right a.left setB output rest →
        SpansOk (output ++ subtractRows setA rest) ∧
        (∀ lo, (∀ a' ∈ a :: setA, lo ≤ a'.left) →
          ∀ span ∈ output ++ subtractRows setA rest, lo ≤ span.left) ∧
        ∀ x, InSpans (output ++ subtractRows setA rest) x ↔
          InSpans (a :: setA) x ∧ ¬ InSpans setB x := by
      intro output rest h
      obtain ⟨hok, hlo, hcolumns⟩ := ih hA' (hB.sublist h.suffix.sublist)
      refine ⟨spaced_append.mpr ⟨h.spansOk, hok, fun span hs other hother => ?_⟩,
        fun lo hle span hs => ?_, fun x => ?_⟩
      · have := hlo (a.right + 1) hapart other hother
        have := h.within span hs
        omega
      · rcases mem_append.mp hs with hs | hs
        · have := h.within span hs
          have := hle a (.head _)
          omega
        · exact hlo lo (fun a' ha' => hle a' (.tail _ ha')) span hs
      simp only [inSpans_append, inSpans_cons, h.columns, hcolumns]
      have hbehind : InSpans setA x → a.right ≤ x := by
        rintro ⟨a', ha', hx, -⟩
        have := hapart a' ha'
        omega
      have hpassed : InSpans setA x → (InSpans rest x ↔ InSpans setB x) := fun hx =>
        h.passed x (hbehind hx)
      tauto
    split
    next hall =>
      have hbehind : ∀ span ∈ setB, a.right ≤ span.left := by
        intro span hs
        cases setB with
        | nil => cases hs
        | cons b setB =>
          have hb : a.right < b.left := by simpa using hall
          have := hB.head_le (by omega) rfl hs
          omega
      have hwhole : Subtracted a.right a.left setB [a] setB := by
        simpa [remainder, hne] using Subtracted.stop a.left hbehind
      exact hstep [a] setB hwhole
    next => exact hstep _ _ (subtractSpans_spec hB hne)

/-! ## `IsSpanInRow` -/

theorem isSpanInRow_iff {row : Row} (h : SpansOk row.spans) (span : RowSpan) :
    isSpanInRow row span ↔ span ∈ row.spans := by
  rw [isSpanInRow, beq_iff_eq]
  generalize row.spans = spans at h
  constructor
  · intro hhead
    exact (dropWhile_sublist _).subset (mem_of_head? hhead)
  intro hmem
  induction spans with
  | nil => cases hmem
  | cons s spans ih =>
    obtain ⟨hne, hapart, hspans⟩ := spaced_cons.mp h
    rcases mem_cons.mp hmem with rfl | hmem
    · simp
    have := hapart span hmem
    have hlt : s.left < span.left := by omega
    simpa [hlt] using ih hspans hmem

end WebRtc.Desktop
