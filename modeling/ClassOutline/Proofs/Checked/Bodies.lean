import ClassOutline.Proofs.Checked.Declarations
import ClassOutline.Proofs.Checked.Shapes
import ClassOutline.Proofs.Checked.Statements
import ClassOutline.Proofs.Member.Shapes
/-!
# Bodies by offsets

A tracker follows the depth along the bytes of a block.  It is moved to the offset of a statement,
and reads the bytes between.  The offsets of the statements ascend, so these bytes can always be cut
out, and the depth there is the depth of the text.
-/

namespace ClassOutline.Checked

/-! ## Depth -/

/-- The depth behind a byte. -/
def stepDepth? (depth : Depth) (code : Char) : Option Depth :=
  let mark := if code = '\n' then none else depth.mark
  let next := { depth with mark := Literal.after mark code }
  if Literal.covers mark code then some next
  else if code = '{' then do
    let braces ← count? longLimit depth.braces 1
    some { next with braces }
  else if code = '}' then do
    let braces ← count? longLimit depth.braces (-1)
    some { next with braces }
  else if code = '(' then do
    let parens ← count? longLimit depth.parens 1
    some { next with parens }
  else if code = ')' then do
    let parens ← count? longLimit depth.parens (-1)
    some { next with parens }
  else some next

/-- A depth that can be reached by reading a number of bytes. -/
structure Reached (depth : Depth) (read : Nat) : Prop where
  braces : depth.braces.natAbs ≤ read
  parens : depth.parens.natAbs ≤ read
  markNarrow : ∀ opened ∈ depth.mark, Text.IsNarrow opened

namespace Reached

variable {depth : Depth} {read : Nat}

theorem start : Reached {} 0 :=
  ⟨Nat.le_refl 0, Nat.le_refl 0, by simp⟩

theorem mono
    {more : Nat}
    (reached : Reached depth read)
    (isMore : read ≤ more) :
    Reached depth more :=
  ⟨reached.braces.trans isMore, reached.parens.trans isMore, reached.markNarrow⟩

theorem stepDepth?_eq
    (reached : Reached depth read)
    (short : read + 1 < longLimit)
    (code : Char) :
    stepDepth? depth code = some (depth.step code) := by
  rw [stepDepth?, count?_eq_some reached.braces (by decide) short,
    count?_eq_some reached.braces (by decide) short,
    count?_eq_some reached.parens (by decide) short,
    count?_eq_some reached.parens (by decide) short, Depth.step]
  dsimp only
  split_ifs <;> rfl

/-- A narrow character changes the counters by one at most. -/
theorem step
    {current : Char}
    (reached : Reached depth read)
    (narrow : Text.IsNarrow current) :
    Reached (depth.step current) (read + 1) := by
  obtain ⟨braces, parens, markNarrow⟩ := reached
  have markBefore : ∀ opened ∈ (if current = '\n' then none else depth.mark),
      Text.IsNarrow opened := by
    split
    · simp
    · exact markNarrow
  rw [Depth.step]
  generalize (if current = '\n' then none else depth.mark) = mark at markBefore
  have markAfter := isNarrow_after markBefore narrow
  dsimp only
  split_ifs <;> exact ⟨by dsimp only; omega, by dsimp only; omega, markAfter⟩

/-- What is not narrow changes nothing. -/
theorem step_of_wide
    {code : Char}
    (reached : Reached depth read)
    (wide : ¬ Text.IsNarrow code) :
    depth.step code = depth := by
  have noMark {sign : Char} (narrow : Text.IsNarrow sign) : code ≠ sign :=
    Text.ne_of_wide wide narrow
  have noSign : code ≠ '\n' ∧ code ≠ '"' ∧ code ≠ '\'' ∧ code ≠ '{' ∧ code ≠ '}' ∧ code ≠ '(' ∧
      code ≠ ')' :=
    ⟨noMark (by decide), noMark (by decide), noMark (by decide), noMark (by decide),
      noMark (by decide), noMark (by decide), noMark (by decide)⟩
  have sameMark : Literal.after depth.mark code = depth.mark := by
    cases isOpen : depth.mark with
    | none => simp [Literal.after, Literal.isMark, noSign]
    | some opened =>
      have notOpened := noMark (reached.markNarrow opened isOpen)
      simp [Literal.after, notOpened]
  simp [Depth.step, noSign, sameMark]

theorem after
    (reached : Reached depth read)
    (text : Text) :
    Reached (depth.after text) (read + text.width) := by
  induction text generalizing depth read with
  | nil => exact reached
  | cons current rest hypothesis =>
    have positive := current.utf8Size_pos
    rw [Depth.after_cons, Text.width_cons, ← Nat.add_assoc]
    refine hypothesis ?_
    by_cases narrow : Text.IsNarrow current
    · exact (reached.step narrow).mono (by omega)
    · rw [reached.step_of_wide narrow]
      exact reached.mono (by omega)

/-- The depth behind a text is read off its bytes. -/
theorem foldlM_codes
    {text : Text}
    (reached : Reached depth read)
    (short : read + text.width < longLimit) :
    text.codes.foldlM stepDepth? depth = some (depth.after text) := by
  induction text generalizing depth read with
  | nil => rfl
  | cons current rest hypothesis =>
    have positive := current.utf8Size_pos
    rw [Text.width_cons] at short
    by_cases narrow : Text.IsNarrow current
    · have later := hypothesis (reached.step narrow) (by omega)
      rw [narrow.codes_cons, List.foldlM_cons, reached.stepDepth?_eq (by omega) current]
      exact later
    · have skips (code : Char) (rest : Text) (wide : ¬ Text.IsNarrow code) :
          (code :: rest).foldlM stepDepth? depth = rest.foldlM stepDepth? depth := by
        rw [List.foldlM_cons, reached.stepDepth?_eq (by omega) code, reached.step_of_wide wide]
        rfl
      have passed := @Text.read_codes_of_wide _ (fun _ codes => codes.foldlM stepDepth? depth) _ 0
        (fun _ code rest _ => skips code rest) narrow rest
      rw [passed, hypothesis reached (by omega), Depth.after_cons, reached.step_of_wide narrow]

end Reached

/-- A place in the bytes of a text, with the depth there. -/
structure Tracker where
  position : Nat := 0
  depth : Depth := {}

/-- The tracker moved to an offset; the bytes between are read. -/
def Tracker.moveTo? (codes : Text) (offset : Nat) (tracker : Tracker) : Option Tracker := do
  let stop := min offset codes.length
  let part ← sliceList? codes (min tracker.position stop) stop
  let depth ← part.foldlM stepDepth? tracker.depth
  some { position := max tracker.position stop, depth }

theorem Tracker.moveTo?_eq
    {text seen skipped rest : Text}
    (shape : text = seen ++ (skipped ++ rest))
    (short : text.width < longLimit) :
    moveTo? text.codes (seen ++ skipped).width
        { position := seen.width, depth := ({} : Depth).after seen } =
      some
        { position := (seen ++ skipped).width
          depth := ({} : Depth).after (seen ++ skipped) } := by
  have widths := congrArg Text.width shape
  rw [Text.width_append, Text.width_append] at widths
  have isStop : min (seen ++ skipped).width text.codes.length = seen.width + skipped.width := by
    rw [Text.length_codes, Text.width_append]
    omega
  have codesShape : text.codes = seen.codes ++ (skipped.codes ++ rest.codes) := by
    rw [shape, Text.codes_append, Text.codes_append]
  have cut : sliceList? text.codes seen.width (seen.width + skipped.width) = some skipped.codes :=
    sliceList?_eq_some codesShape (by simp) (by simp)
  have reached := Reached.start.after seen
  rw [Nat.zero_add] at reached
  have inOrder : seen.width ≤ seen.width + skipped.width := Nat.le_add_right _ _
  rw [moveTo?, isStop]
  dsimp only
  rw [Nat.min_eq_left inOrder, cut]
  simp only [Option.bind_eq_bind, Option.bind_some]
  rw [reached.foldlM_codes (by omega), Nat.max_eq_right inOrder, Depth.after_append,
    Text.width_append]
  rfl

/-! ## Members -/

/-- The members that a statement of a given shape declares. -/
def membersOf? (shape : Shape) (statement : Text) : Option (Except Failure (List DataMember)) :=
  if shape = .functionPointer then do
    let found ← pointerMember? statement
    some (found.map fun member => [member])
  else members? statement

/-- The members that statements declare, with a tracker of the depth. -/
def bodyFrom? (codes : Text) (tracker : Tracker) : List Statement → Option Body
  | [] => some {}
  | statement :: statements => do
    let shape ← shapeOfStatement? statement.text
    match shape.filter Shape.isData with
    | none => bodyFrom? codes tracker statements
    | some shape => do
      let tracker ← tracker.moveTo? codes statement.offset
      if tracker.depth.isInBody then do
        let found ← membersOf? shape statement.text
        let later ← bodyFrom? codes tracker statements
        some (later.cons found)
      else bodyFrom? codes tracker statements

/-- The data members of the text of a block, worked out by offsets. -/
def body? (text : Text) : Option Body := do
  let statements ← statementsOf? 0 text.lines
  bodyFrom? text.codes {} statements

/-- A pointer to a function is only looked for in a statement with that shape. -/
theorem membersOf?_eq
    {statement : Text}
    {shape : Shape}
    (solid : Text.Solid statement)
    (hasShape : Shape.ofStatement? statement = some shape) :
    membersOf? shape statement = some (Body.membersOf shape statement) := by
  rw [membersOf?, Body.membersOf]
  split
  · next isPointer =>
    have ofText : Shape.ofText statement = .functionPointer :=
      (Shape.eq_ofText_of_ofStatement? hasShape).symm.trans isPointer
    rw [pointerMember?_eq solid ofText]
    rfl
  · exact members?_eq statement

/-- Wherever the tracker stands in the text in front, the members are those of the pieces. -/
theorem bodyFrom?_placed
    {text seen skipped : Text}
    {pieces : List Text}
    (shape : text = seen ++ (skipped ++ pieces.flatten))
    (short : text.width < longLimit) :
    bodyFrom? text.codes { position := seen.width, depth := ({} : Depth).after seen }
        (Statement.placed (seen ++ skipped).width pieces) =
      some (Body.ofPieces (({} : Depth).after (seen ++ skipped)) pieces) := by
  induction pieces generalizing seen skipped with
  | nil => rfl
  | cons piece pieces hypothesis =>
    have later := @hypothesis seen (skipped ++ piece)
      (shape.trans (by rw [List.flatten_cons, List.append_assoc]))
    rw [← List.append_assoc, Text.width_append _ piece, Depth.after_append _ _ piece] at later
    rw [Statement.placed, Body.ofPieces, Body.found?]
    by_cases isBlank : piece.trim = []
    · have noShape : Shape.ofStatement? ([] : Text) = none := by decide
      rw [if_pos isBlank, isBlank, noShape, later]
      rfl
    · rw [if_neg isBlank, bodyFrom?, shapeOfStatement?_eq]
      simp only [Option.bind_eq_bind, Option.bind_some]
      cases hasShape : (Shape.ofStatement? piece.trim).filter Shape.isData with
      | none => exact later
      | some kind =>
        -- The tracker reads up to the first character of the piece that is not blank.
        have split : piece.indentation ++ piece.trimStart = piece :=
          piece.indentation_append_trimStart
        have upToPiece : (seen ++ skipped) ++ piece.indentation =
            seen ++ (skipped ++ piece.indentation) := List.append_assoc _ _ _
        have shapeMoved : text =
            seen ++ ((skipped ++ piece.indentation) ++ (piece.trimStart ++ pieces.flatten)) := by
          rw [shape, List.flatten_cons, List.append_assoc, ← List.append_assoc piece.indentation,
            split]
        have moved := Tracker.moveTo?_eq shapeMoved short
        have laterMoved := @hypothesis (seen ++ (skipped ++ piece.indentation)) piece.trimStart
          (shapeMoved.trans (by simp))
        have whole : (seen ++ (skipped ++ piece.indentation)) ++ piece.trimStart =
            (seen ++ skipped) ++ piece := by
          rw [← upToPiece, List.append_assoc, split]
        rw [whole, Text.width_append _ piece, Depth.after_append _ _ piece] at laterMoved
        have found := membersOf?_eq (Text.solid_trim piece)
          (Option.filter_eq_some_iff.mp hasShape).1
        dsimp only
        rw [← Text.width_append, ← Depth.after_append, upToPiece, moved]
        simp only [Option.bind_some]
        rw [found, laterMoved]
        simp only [Option.bind_some]
        split <;> rfl

/-- The body of a block is read off its bytes. -/
theorem body?_eq
    {text : Text}
    (short : text.width < shortLimit) :
    body? text = some (Body.ofText text) := by
  have below : shortLimit ≤ longLimit := by decide
  have found := @bodyFrom?_placed text [] [] (text.lines.flatMap Statement.pieces)
    (Statement.flatten_flatMap_pieces text).symm (by omega)
  rw [body?, statementsOf?_lines short, Body.ofText_eq_ofRest]
  exact found

end ClassOutline.Checked
