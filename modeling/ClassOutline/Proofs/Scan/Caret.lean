import ClassOutline.Proofs.Scan.LineRange
/-!
# The class at the caret

The search for the class at the caret looks at one outline after the other and stops early.  The
rule that it keeps to speaks of the whole list: the first outline that covers the line, or else the
last one that ends above it, or else the first of all, which then starts below it.

Search and rule agree on outlines that follow each other down the lines, and two of which share at
most the line on which one ends and the other starts.  The outlines of every source are such.  It
follows that the class at the caret never moves up while the caret moves down.
-/

namespace ClassOutline

theorem Outline.coversLine_iff
    {outline : Outline}
    {line : Nat} :
    outline.coversLine line ↔ outline.startLine ≤ line ∧ line ≤ outline.endLine := by
  simp [coversLine]

namespace Caret

/-! ## The rule -/

/-- The position of the outline that a caret on a line refers to. -/
inductive RefersTo (outlines : List Outline) (line : Nat) : Nat → Prop
  /-- The first outline that covers the line. -/
  | covering
      {index : Nat}
      (inRange : index < outlines.length)
      (covers : outlines[index].coversLine line)
      (isFirst : ∀ earlier, (before : earlier < index) → ¬ outlines[earlier].coversLine line) :
      RefersTo outlines line index
  /-- The last outline that ends above the line, if none covers it. -/
  | behind
      {index : Nat}
      (noneCovers : ∀ outline ∈ outlines, ¬ outline.coversLine line)
      (inRange : index < outlines.length)
      (endsAbove : outlines[index].endLine < line)
      (isLast : ∀ later, (inList : later < outlines.length) → index < later →
        ¬ outlines[later].endLine < line) :
      RefersTo outlines line index
  /-- The first outline, if the line is above all of them. -/
  | above
      (notEmpty : outlines ≠ [])
      (startsBelow : ∀ outline ∈ outlines, line < outline.startLine) :
      RefersTo outlines line 0

theorem RefersTo.lt_length
    {outlines : List Outline}
    {line index : Nat}
    (refersTo : RefersTo outlines line index) :
    index < outlines.length := by
  cases refersTo with
  | covering inRange covers isFirst => exact inRange
  | behind noneCovers inRange endsAbove isLast => exact inRange
  | above notEmpty startsBelow => exact List.length_pos_iff.mpr notEmpty

/-! ## Outlines that follow each other -/

/-- The outlines follow each other down the lines. -/
structure Descending (outlines : List Outline) : Prop where
  /-- No outline ends above the line on which it starts. -/
  upright : ∀ outline ∈ outlines, outline.startLine ≤ outline.endLine
  /-- No outline ends below the line on which a later one starts. -/
  inOrder : outlines.Pairwise fun earlier later => earlier.endLine ≤ later.startLine

variable {outlines : List Outline} {line : Nat}

namespace Descending

theorem startLine_le
    (descending : Descending outlines)
    {index : Nat}
    (inRange : index < outlines.length) :
    outlines[index].startLine ≤ outlines[index].endLine :=
  descending.upright _ (List.getElem_mem inRange)

theorem endLine_le
    (descending : Descending outlines)
    {earlier later : Nat}
    (before : earlier < later)
    (inRange : later < outlines.length) :
    outlines[earlier].endLine ≤ outlines[later].startLine :=
  List.pairwise_iff_getElem.mp descending.inOrder earlier later (by omega) inRange before

/-- The outlines that start above a line are those at the front of the list. -/
theorem startLine_lt_iff
    (descending : Descending outlines)
    {index : Nat}
    (inRange : index < outlines.length) :
    outlines[index].startLine < line ↔
      index < (outlines.takeWhile fun outline => outline.startLine < line).length := by
  rw [List.takeWhile_eq_take_findIdx_not, List.length_take, Nat.lt_min]
  constructor
  · intro startsAbove
    refine ⟨Nat.lt_of_not_le fun notBefore => ?_, inRange⟩
    -- The first outline that does not start above the line stands no later than this one.
    have stops := @List.findIdx_getElem Outline (fun outline => !decide (outline.startLine < line))
      outlines (by omega)
    simp only [Bool.not_eq_true', decide_eq_false_iff_not] at stops
    rcases Nat.eq_or_lt_of_le notBefore with same | before
    · simp only [same] at stops
      exact stops startsAbove
    · have upright := descending.startLine_le (Nat.lt_trans before inRange)
      have ordered := descending.endLine_le before inRange
      omega
  · intro ⟨before, _⟩
    simpa using List.not_of_lt_findIdx before

end Descending

/-! ## The search -/

/-- The search needs no case of its own for a single outline. -/
theorem index?_eq
    (line : Nat)
    (notEmpty : outlines ≠ []) :
    index? outlines line =
      some ((outlines.findIdx? fun outline => outline.coversLine line).getD
        ((outlines.takeWhile fun outline => outline.startLine < line).length - 1)) := by
  match outlines with
  | [] => exact absurd rfl notEmpty
  | [only] =>
    simp only [index?, List.findIdx?_singleton, List.takeWhile_cons, List.takeWhile_nil]
    split <;> split <;> rfl
  | first :: second :: others =>
    simp only [index?]
    split
    · next found => rw [found]; rfl
    · next missing => rw [missing]; rfl

/-- Where no outline covers the line, the search goes by the lines on which outlines start. -/
theorem refersTo_of_noneCovers
    (descending : Descending outlines)
    (notEmpty : outlines ≠ [])
    (noneCovers : ∀ outline ∈ outlines, ¬ outline.coversLine line) :
    RefersTo outlines line
      ((outlines.takeWhile fun outline => outline.startLine < line).length - 1) := by
  have outside (position : Nat) (inRange : position < outlines.length) :
      ¬ (outlines[position].startLine ≤ line ∧ line ≤ outlines[position].endLine) := by
    simpa only [Outline.coversLine_iff] using noneCovers _ (List.getElem_mem inRange)
  have startsAbove (position : Nat) (inRange : position < outlines.length) :
      outlines[position].startLine < line ↔
        position < (outlines.takeWhile fun outline => outline.startLine < line).length :=
    descending.startLine_lt_iff inRange
  have bound : (outlines.takeWhile fun outline => outline.startLine < line).length ≤
      outlines.length := (List.takeWhile_sublist _).length_le
  generalize (outlines.takeWhile fun outline => outline.startLine < line).length = count
    at startsAbove bound ⊢
  cases count with
  | zero =>
    refine .above notEmpty fun outline member => ?_
    obtain ⟨position, inRange, rfl⟩ := List.mem_iff_getElem.mp member
    have notAbove := startsAbove position inRange
    have upright := descending.startLine_le inRange
    have notCovered := outside position inRange
    omega
  | succ last =>
    refine .behind noneCovers bound ?_ fun later inList behindLast => ?_
    · have above := startsAbove last bound
      have notCovered := outside last bound
      simp only [Nat.add_sub_cancel]
      omega
    · have notAbove := startsAbove later inList
      have upright := descending.startLine_le inList
      omega

/-- The search finds what the rule says. -/
theorem refersTo_of_index?
    (descending : Descending outlines)
    {index : Nat}
    (found : index? outlines line = some index) :
    RefersTo outlines line index := by
  have notEmpty : outlines ≠ [] := by
    rintro rfl
    contradiction
  rw [index?_eq line notEmpty, Option.some.injEq] at found
  cases covered : outlines.findIdx? fun outline => outline.coversLine line with
  | some first =>
    rw [covered, Option.getD_some] at found
    subst found
    obtain ⟨inRange, covers, isFirst⟩ := List.findIdx?_eq_some_iff_getElem.mp covered
    exact .covering inRange covers isFirst
  | none =>
    rw [covered, Option.getD_none] at found
    subst found
    refine refersTo_of_noneCovers descending notEmpty fun outline member => ?_
    exact Bool.eq_false_iff.mp (List.findIdx?_eq_none_iff.mp covered outline member)

/-! ## Moving the caret -/

namespace RefersTo

variable {index : Nat}

/-- Every outline in front of the one at the caret ends above the caret. -/
theorem endLine_lt
    (refersTo : RefersTo outlines line index)
    (descending : Descending outlines)
    {earlier : Nat}
    (before : earlier < index)
    (inRange : index < outlines.length) :
    outlines[earlier].endLine < line := by
  have upright := descending.startLine_le (Nat.lt_trans before inRange)
  have ordered := descending.endLine_le before inRange
  have indexUpright := descending.startLine_le inRange
  cases refersTo with
  | covering inRange covers isFirst =>
    have notCovered := isFirst earlier before
    rw [Outline.coversLine_iff] at covers notCovered
    omega
  | behind noneCovers inRange endsAbove isLast => omega
  | above notEmpty startsBelow => omega

/-- The outline at the caret does not start below the caret, unless it is the first of all. -/
theorem startLine_le
    (refersTo : RefersTo outlines line index)
    (descending : Descending outlines)
    (notFirst : 0 < index)
    (inRange : index < outlines.length) :
    outlines[index].startLine ≤ line := by
  have upright := descending.startLine_le inRange
  cases refersTo with
  | covering inRange covers isFirst => exact (Outline.coversLine_iff.mp covers).1
  | behind noneCovers inRange endsAbove isLast => omega
  | above notEmpty startsBelow => exact absurd notFirst (Nat.lt_irrefl 0)

/-- A caret further down refers to no earlier outline. -/
theorem le_of_le
    (descending : Descending outlines)
    {upper lower first second : Nat}
    (further : upper ≤ lower)
    (atUpper : RefersTo outlines upper first)
    (atLower : RefersTo outlines lower second) :
    first ≤ second := by
  refine Nat.le_of_not_lt fun reversed => ?_
  have inRange := atUpper.lt_length
  have endsAbove := atUpper.endLine_lt descending reversed inRange
  cases atLower with
  | covering secondInRange covers isFirst =>
    rw [Outline.coversLine_iff] at covers
    omega
  | behind noneCovers secondInRange secondEndsAbove isLast =>
    have startsAbove := atUpper.startLine_le descending (by omega) inRange
    have notBehind := isLast first inRange reversed
    have notCovered := noneCovers _ (List.getElem_mem inRange)
    rw [Outline.coversLine_iff] at notCovered
    omega
  | above notEmpty startsBelow =>
    have below := startsBelow _ (List.getElem_mem (Nat.lt_trans reversed inRange))
    have upright := descending.startLine_le (Nat.lt_trans reversed inRange)
    omega

end RefersTo

/-- The search and the rule agree. -/
theorem index?_eq_some_iff
    (descending : Descending outlines)
    (index : Nat) :
    index? outlines line = some index ↔ RefersTo outlines line index := by
  refine ⟨refersTo_of_index? descending, fun refersTo => ?_⟩
  have notEmpty : outlines ≠ [] := List.ne_nil_of_length_pos (Nat.zero_lt_of_lt refersTo.lt_length)
  have searched := index?_eq line notEmpty
  have found := refersTo_of_index? descending searched
  rw [searched, Option.some.injEq]
  exact Nat.le_antisymm (found.le_of_le descending (Nat.le_refl line) refersTo)
    (refersTo.le_of_le descending (Nat.le_refl line) found)

/-! ## The outline at a line -/

theorem pick_eq_error_iff
    (failure : Failure) :
    pick outlines line = .error failure ↔ failure = .noClass ∧ outlines = [] := by
  by_cases empty : outlines = []
  · subst empty
    simp [pick, index?, eq_comm]
  · have found := index?_eq line empty
    have inRange := index?_lt_length found
    simp [pick, found, inRange, empty]

theorem pick_eq_ok_iff
    (descending : Descending outlines)
    (outline : Outline) :
    pick outlines line = .ok outline ↔
      ∃ index, RefersTo outlines line index ∧ outlines[index]? = some outline := by
  simp only [← index?_eq_some_iff descending, pick]
  cases found : index? outlines line with
  | none => simp
  | some index =>
    have inRange := index?_lt_length found
    simp [inRange]

end Caret

namespace Scan

/-- Taking the outline at a line out of a scan gives the outline that is there. -/
theorem map_fst_takeAtLine
    (scan : Scan)
    (line : Nat) :
    (scan.takeAtLine line).map Prod.fst = scan.atLine line := by
  rw [takeAtLine, atLine, Caret.pick]
  cases found : Caret.index? scan.outlines line with
  | none => rfl
  | some index =>
    have inRange := Caret.index?_lt_length found
    simp [inRange, Except.map]

/-- The outlines of a source follow each other. -/
theorem descending_outlines
    (options : ScanOptions)
    (source : Text) :
    Caret.Descending (ofSource options source).outlines := by
  rw [outlines_ofSource]
  constructor
  · intro outline member
    obtain ⟨block, -, found⟩ := List.mem_filterMap.mp member
    obtain ⟨startLine, endLine⟩ := lines_of_outlineOfBlock? found
    omega
  · refine (Block.pairwise_ofText (Mask.visible source)).filterMap _ ?_
    exact fun _ _ precedes _ foundEarlier _ foundLater =>
      endLine_le_startLine precedes foundEarlier foundLater

theorem outlineAt_eq_pick
    (options : ScanOptions)
    (source : Text)
    (line : Nat) :
    outlineAt options source line = Caret.pick (ofSource options source).outlines line :=
  map_fst_takeAtLine (ofSource options source) line

/--
A source without outlines has none at any line, and that is the only failure.  Otherwise the outline
at a line is the one that the rule says, whether it is taken out of the scan or looked up in it, and
its position is the one that the search finds.  As the line increases, the position does not
decrease.
-/
theorem outlineAt_refersTo
    (options : ScanOptions)
    (source : Text) :
    (∀ line failure,
      outlineAt options source line = .error failure ↔
        failure = .noClass ∧ (ofSource options source).outlines = []) ∧
      (∀ line outline,
        outlineAt options source line = .ok outline ↔
          ∃ index,
            Caret.RefersTo (ofSource options source).outlines line index ∧
              (ofSource options source).outlines[index]? = some outline) ∧
        (∀ line index,
          Caret.index? (ofSource options source).outlines line = some index ↔
            Caret.RefersTo (ofSource options source).outlines line index) ∧
          (∀ scan line, (takeAtLine scan line).map Prod.fst = scan.atLine line) ∧
            ∀ upper lower first second, upper ≤ lower →
              Caret.index? (ofSource options source).outlines upper = some first →
                Caret.index? (ofSource options source).outlines lower = some second →
                  first ≤ second := by
  have descending := descending_outlines options source
  refine ⟨fun line failure => ?_, fun line outline => ?_, fun line index => ?_, map_fst_takeAtLine,
    fun upper lower first second further atUpper atLower => ?_⟩
  · rw [outlineAt_eq_pick]
    exact Caret.pick_eq_error_iff failure
  · rw [outlineAt_eq_pick]
    exact Caret.pick_eq_ok_iff descending outline
  · exact Caret.index?_eq_some_iff descending index
  · exact Caret.RefersTo.le_of_le descending further (Caret.refersTo_of_index? descending atUpper)
      (Caret.refersTo_of_index? descending atLower)

/-- Two classes on one line, and the line behind them. -/
theorem outlineAt_refersTo_behindLine :
    let source : Text := "class A \x7b\x7d; class B \x7b\x7d;\nint x;\n".toList
    let outlines := (ofSource {} source).outlines
    Caret.index? outlines 0 = some 0 ∧ Caret.index? outlines 1 = some 1 ∧ 0 ≤ 1 ∧
      Caret.RefersTo outlines 0 0 ∧ Caret.RefersTo outlines 1 1 := by
  intro source outlines
  have atUpper : Caret.index? outlines 0 = some 0 := by decide
  have atLower : Caret.index? outlines 1 = some 1 := by decide
  obtain ⟨-, -, agree, -, ordered⟩ := outlineAt_refersTo {} source
  exact
    ⟨atUpper, atLower, ordered 0 1 0 1 (by decide) atUpper atLower, (agree 0 0).mp atUpper,
      (agree 1 1).mp atLower⟩

end Scan

end ClassOutline
