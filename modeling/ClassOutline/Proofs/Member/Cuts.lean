import ClassOutline.Proofs.Checked.Statements
import ClassOutline.Proofs.Member.Outside
/-!
# How a text is cut into statements

Nothing of a text is lost when it is cut into statements, and nothing is taken twice: the statements
stand in the text one behind the other, at the offsets that they give, and only blanks stand outside
them.

Within a line a statement ends in two ways, both outside literals and parentheses: behind a
semicolon, and behind the brace that opens a nested class.  Every other statement goes on to the end
of its line.  Literals and parentheses are those of the line up to the place, so what is open at a
place is the depth that the line has there.
-/

namespace ClassOutline

/-! ## Places in a text -/

namespace Text

/-- An item of parts that are put together stands in one of them. -/
theorem exists_part_of_flatten
    {item : Type}
    {parts : List (List item)}
    {before after : List item}
    {current : item}
    (shape : parts.flatten = before ++ current :: after) :
    ∃ front left right back,
      parts = front ++ (left ++ current :: right) :: back ∧
        before = front.flatten ++ left ∧ after = right ++ back.flatten := by
  rcases List.flatten_eq_append_iff.mp shape with
    ⟨front, back, rfl, rfl, rest⟩ | ⟨front, left, first, right, back, rfl, rfl, rest⟩
  · obtain ⟨empty, right, later, rfl, noText, behind⟩ := List.flatten_eq_cons_iff.mp rest.symm
    have nothing : empty.flatten = [] := List.flatten_eq_nil_iff.mpr noText
    exact ⟨front ++ empty, [], right, later, by simp, by simp [nothing], behind⟩
  · obtain ⟨rfl, rfl⟩ := List.cons.inj rest
    exact ⟨front, left, right, back, rfl, rfl, rfl⟩

theorem WholeLines.append
    {left right : Text}
    (wholeLeft : left.WholeLines)
    (wholeRight : right.WholeLines) :
    (left ++ right).WholeLines := by
  rcases wholeRight.eq_nil_or with rfl | ⟨front, rfl⟩
  · rwa [List.append_nil]
  · rw [← List.append_assoc]
    exact wholeLines_append_newline _

/-- Each line goes up to its line feed.  The last line may lack one. -/
theorem lines_eq_append_cons
    {text line : Text}
    {front back : List Text}
    (shape : text.lines = front ++ line :: back) :
    WholeLines front.flatten ∧ '\n' ∉ line.dropLast ∧ (line.WholeLines ∨ back = []) := by
  induction front generalizing text with
  | nil =>
    refine ⟨by decide, ?_⟩
    by_cases hasBreak : '\n' ∈ text
    · obtain ⟨start, rest, rfl, noBreak⟩ := List.eq_append_cons_of_mem hasBreak
      rw [lines_append_cons noBreak] at shape
      obtain ⟨rfl, -⟩ := List.cons.inj shape
      rw [List.dropLast_concat]
      exact ⟨noBreak, .inl (wholeLines_append_newline _)⟩
    · have short := length_lines_le_one hasBreak
      have whole := flatten_lines text
      rw [shape, List.nil_append, List.length_cons] at short
      obtain rfl : back = [] := List.eq_nil_of_length_eq_zero (by omega)
      rw [shape, List.nil_append, List.flatten_singleton] at whole
      rw [whole]
      exact ⟨fun member => hasBreak (List.dropLast_subset _ member), .inr rfl⟩
  | cons first front hypothesis =>
    have hasBreak : '\n' ∈ text := by
      by_contra noBreak
      have short := length_lines_le_one noBreak
      rw [shape, List.cons_append, List.length_cons, List.length_append, List.length_cons] at short
      omega
    obtain ⟨start, rest, rfl, noBreak⟩ := List.eq_append_cons_of_mem hasBreak
    rw [lines_append_cons noBreak] at shape
    obtain ⟨rfl, shapeRest⟩ := List.cons.inj shape
    obtain ⟨wholeLines, behind⟩ := hypothesis shapeRest
    rw [List.flatten_cons]
    exact ⟨.append (wholeLines_append_newline _) wholeLines, behind⟩

theorem WholeLines.of_append
    {left right : Text}
    (wholeLines : (left ++ right).WholeLines)
    (notEmpty : right ≠ []) :
    right.WholeLines := by
  intro last isLast
  refine wholeLines last ?_
  rw [List.getLast?_append_of_ne_nil _ notEmpty]
  exact isLast

/-- Between the blanks at its ends, a text is what trimming leaves. -/
theorem exists_indentation_trim (text : Text) :
    ∃ blanks, (∀ character ∈ text.indentation ++ blanks, isBlank character = true) ∧
      text = text.indentation ++ (text.trim ++ blanks) := by
  obtain ⟨blanks, blank, shape⟩ := exists_trimEnd_append text.trimStart
  refine ⟨blanks, fun character member => ?_, ?_⟩
  · rcases List.mem_append.mp member with inFront | behind
    · exact List.all_eq_true.mp List.all_takeWhile character inFront
    · exact blank character behind
  · rw [trim, shape, indentation_append_trimStart]

/-- A character that is no blank stands between the blanks at the ends. -/
theorem width_le_of_notBlank
    {front text behind before after : Text}
    {current : Char}
    (shape : front ++ (text ++ behind) = before ++ current :: after)
    (blank : ∀ character ∈ front ++ behind, isBlank character = true)
    (notBlank : isBlank current = false) :
    front.width ≤ before.width ∧ before.width < front.width + text.width := by
  have isNoBlank : current ∉ front ++ behind := fun member => by
    rw [blank current member] at notBlank
    contradiction
  have positive := current.utf8Size_pos
  obtain ⟨partsBefore, left, right, partsBehind, parts, rfl, -⟩ :=
    @exists_part_of_flatten _ [front, text, behind] before after current (by simpa using shape)
  match partsBefore with
  | [] =>
    obtain ⟨rfl, -⟩ := List.cons.inj parts
    exact absurd (by simp) isNoBlank
  | [part] =>
    obtain ⟨rfl, later⟩ := List.cons.inj parts
    obtain ⟨rfl, -⟩ := List.cons.inj later
    simp only [List.flatten_singleton, width_append, width_cons]
    omega
  | [part, second] =>
    obtain ⟨rfl, later⟩ := List.cons.inj parts
    obtain ⟨rfl, last⟩ := List.cons.inj later
    obtain ⟨rfl, -⟩ := List.cons.inj last
    exact absurd (by simp) isNoBlank
  | part :: second :: third :: more => simp at parts

end Text

/-- A place outside literals and parentheses. -/
def Depth.IsOutside (depth : Depth) : Prop :=
  depth.mark = none ∧ depth.parens ≤ 0

instance (depth : Depth) : Decidable depth.IsOutside :=
  inferInstanceAs (Decidable (_ ∧ _))

namespace Statement

/-! ## The pieces of a line -/

/-- A character may end a statement of which a beginning stands in front of it. -/
def MayEnd (begun : Text) (current : Char) : Prop :=
  current = ';' ∨ current = '{' ∧ beginsType begun = true

/-- In a text that is reached at a depth, all semicolons stand in literals or parentheses. -/
def Uncut (depth : Depth) (text : Text) : Prop :=
  ∀ before after, text = before ++ ';' :: after → ¬ (depth.after before).IsOutside

theorem uncut_nil (depth : Depth) : Uncut depth [] := fun before after shape => by
  simp at shape

theorem Uncut.of_isPrefix
    {depth : Depth}
    {shorter text : Text}
    (uncut : Uncut depth text)
    (isPrefix : shorter <+: text) :
    Uncut depth shorter := by
  obtain ⟨rest, rfl⟩ := isPrefix
  rintro before after rfl
  exact uncut before (after ++ rest) (by simp)

theorem Uncut.append_singleton
    {depth : Depth}
    {text : Text}
    {current : Char}
    (uncut : Uncut depth text)
    (noEnd : current = ';' → ¬ (depth.after text).IsOutside) :
    Uncut depth (text ++ [current]) := by
  intro before after shape
  rcases List.eq_nil_or_concat after with rfl | ⟨after, last, rfl⟩
  · obtain ⟨rfl, same⟩ := List.append_inj' shape rfl
    exact noEnd (List.cons.inj same).1
  · rw [List.concat_eq_append, ← List.cons_append, ← List.append_assoc] at shape
    exact uncut before after (List.append_inj' shape rfl).1

/--
The pieces of the rest of a line that is reached at a depth: each ends behind a character that ends
it outside literals and parentheses, and the last one at the end of the line.
-/
inductive CutInto : Depth → List Text → Prop where
  | last
      {depth : Depth}
      {piece : Text}
      (uncut : Uncut depth piece) :
      CutInto depth [piece]
  | next
      {depth : Depth}
      {front : Text}
      {ending : Char}
      {later : List Text}
      (uncut : Uncut depth front)
      (outside : (depth.after front).IsOutside)
      (mayEnd : MayEnd front ending)
      (cutLater : CutInto (depth.after (front ++ [ending])) later) :
      CutInto depth ((front ++ [ending]) :: later)

theorem parensBehind_eq_add
    (parens : Int)
    (current : Char) :
    Checked.parensBehind parens current = parens + parenChange current := by
  rw [Checked.parensBehind, parenChange]
  split
  · rfl
  · split <;> omega

/-- The depth follows the cutting of a line character by character, up to the line feed. -/
theorem piecesFrom_step
    {current : Char}
    (nested : Bool)
    (depth : Depth)
    (rest : Text)
    (noBreak : current ≠ '\n') :
    piecesFrom nested depth.mark depth.parens (current :: rest) =
      if depth.IsOutside ∧ (current = ';' ∨ current = '{' ∧ nested = true) then
        [current] ::
          piecesFrom (beginsType rest) (depth.step current).mark (depth.step current).parens rest
      else
        Text.consToFirst current
          (piecesFrom nested (depth.step current).mark (depth.step current).parens rest) := by
  have change : (depth.step current).parens = depth.parens +
      if Literal.covers depth.mark current then 0 else parenChange current := by
    rw [Depth.step_eq, if_neg noBreak]
  have mark : (depth.step current).mark = Literal.after depth.mark current := by
    rw [Depth.step_eq, if_neg noBreak]
  rw [change, mark]
  by_cases covered : Literal.covers depth.mark current = true
  · have goesOn : ¬ (depth.IsOutside ∧ (current = ';' ∨ current = '{' ∧ nested = true)) := by
      rintro ⟨⟨noMark, -⟩, isEnd⟩
      rw [noMark] at covered
      rcases isEnd with rfl | ⟨rfl, -⟩ <;> exact absurd covered (by decide)
    rw [piecesFrom, if_pos covered, if_neg goesOn, if_pos covered, Int.add_zero]
  · have noMark : depth.mark = none ∧ Literal.isMark current = false := by
      simpa [Literal.covers] using covered
    have stillNoMark : Literal.after depth.mark current = none := by
      rw [noMark.1, Literal.after, if_neg (by rw [noMark.2]; decide)]
    have sameEnds : (depth.IsOutside ∧ (current = ';' ∨ current = '{' ∧ nested = true)) ↔
        Checked.EndsStatement nested depth.parens current := by
      simp only [Depth.IsOutside, noMark.1, true_and, Checked.EndsStatement]
    rw [Checked.piecesFrom_cons covered, if_neg covered, stillNoMark, ← parensBehind_eq_add]
    by_cases ends : Checked.EndsStatement nested depth.parens current
    · rw [if_pos ends, if_pos (sameEnds.mpr ends), ends.parensBehind_eq]
    · rw [if_neg ends, if_neg (mt sameEnds.mp ends)]

/-- A line is cut piece by piece, where the depth along the line is outside. -/
theorem cutInto_piecesFrom
    {depth : Depth}
    {begun rest : Text}
    (noBreak : '\n' ∉ rest.dropLast)
    (uncut : Uncut depth begun) :
    CutInto depth
      (Text.appendToFirst begun
        (piecesFrom (beginsType (begun ++ rest)) (depth.after begun).mark
          (depth.after begun).parens rest)) := by
  induction rest generalizing depth begun with
  | nil =>
    rw [piecesFrom, Text.appendToFirst, List.append_nil]
    exact .last uncut
  | cons current rest hypothesis =>
    by_cases isBreak : current = '\n'
    · -- A line feed ends the line, whatever is open in front of it.
      obtain rfl : rest = [] := by
        by_contra notEmpty
        rw [List.dropLast_cons_of_ne_nil notEmpty, isBreak] at noBreak
        exact noBreak List.mem_cons_self
      have isNoEnd : ¬ (current = ';' ∨ current = '{') := by rw [isBreak]; decide
      have onePiece (nested : Bool) (mark : Option Char) (parens : Int) :
          piecesFrom nested mark parens [current] = [[current]] := by
        rw [piecesFrom]
        split
        · rfl
        · rw [if_neg (fun ends => isNoEnd (ends.2.imp_right And.left))]
          rfl
      rw [onePiece]
      exact .last (uncut.append_singleton (fun isEnd => absurd (.inl isEnd) isNoEnd))
    · have laterNoBreak : '\n' ∉ rest.dropLast := by
        intro member
        refine noBreak ?_
        rw [List.dropLast_cons_of_ne_nil (by rintro rfl; simp at member)]
        exact List.mem_cons_of_mem _ member
      have oneMore : (depth.after begun).step current = depth.after (begun ++ [current]) := by
        rw [Depth.after_append, Depth.after_cons, Depth.after_nil]
      rw [piecesFrom_step _ _ _ isBreak, oneMore]
      split
      · next ends =>
        obtain ⟨outside, isEnd⟩ := ends
        have mayEnd : MayEnd begun current := by
          rcases isEnd with isEnd | ⟨rfl, nested⟩
          · exact .inl isEnd
          · exact .inr ⟨rfl, by rwa [beginsType_append_brace] at nested⟩
        have later := @hypothesis (depth.after (begun ++ [current])) [] laterNoBreak (uncut_nil _)
        rw [Text.appendToFirst_nil (piecesFrom_ne_nil _ _ _ _)] at later
        exact .next uncut outside mayEnd later
      · next goesOn =>
        have later := @hypothesis depth (begun ++ [current]) laterNoBreak
          (uncut.append_singleton fun isEnd outside => goesOn ⟨outside, .inl isEnd⟩)
        rw [Text.appendToFirst_consToFirst, List.append_cons begun current rest]
        exact later


/-- A line is cut where the depth from the start of the line is outside. -/
theorem cutInto_pieces
    {line : Text}
    (noBreak : '\n' ∉ line.dropLast) :
    CutInto {} (pieces line) := by
  have cut := @cutInto_piecesFrom {} [] line noBreak (uncut_nil _)
  rw [Text.appendToFirst_nil (piecesFrom_ne_nil _ _ _ _)] at cut
  exact cut

/-! ## The pieces of a text -/

/-- A piece ends at a character that ends it outside literals and parentheses. -/
def EndsCut (depth : Depth) (piece : Text) : Prop :=
  ∃ front ending, piece = front ++ [ending] ∧ (depth.after front).IsOutside ∧ MayEnd front ending

/-- Each piece of a line has no further semicolon outside, and ends as it must or with the line. -/
theorem CutInto.of_append_cons
    {depth : Depth}
    {front back : List Text}
    {piece : Text}
    (cut : CutInto depth (front ++ piece :: back)) :
    Uncut (depth.after front.flatten) piece.dropLast ∧
      (EndsCut (depth.after front.flatten) piece ∨ back = []) := by
  generalize shape : front ++ piece :: back = pieces at cut
  induction cut generalizing front with
  | last uncut =>
    cases front with
    | nil =>
      obtain ⟨rfl, rfl⟩ := List.cons.inj shape
      exact ⟨uncut.of_isPrefix (List.dropLast_prefix piece), .inr rfl⟩
    | cons first front => simp at shape
  | @next depth start ending later uncut outside mayEnd cutLater hypothesis =>
    cases front with
    | nil =>
      obtain ⟨rfl, rfl⟩ := List.cons.inj shape
      rw [List.dropLast_concat]
      exact ⟨uncut, .inl ⟨start, ending, rfl, outside, mayEnd⟩⟩
    | cons first front =>
      obtain ⟨rfl, shapeLater⟩ := List.cons.inj shape
      have found := hypothesis shapeLater
      rwa [← Depth.after_append, ← List.flatten_cons] at found

/-- A piece of a text, between what stands in front of it and behind it. -/
structure IsPiece (before piece after : Text) : Prop where
  noBreak : '\n' ∉ piece.dropLast
  uncut : Uncut (Depth.ofText before.lastLine) piece.dropLast
  ends : EndsCut (Depth.ofText before.lastLine) piece ∨ piece.WholeLines ∨ after = []

theorem isPiece_of_append_cons
    {text piece : Text}
    {front back : List Text}
    (shape : text.lines.flatMap pieces = front ++ piece :: back)
    (notEmpty : piece ≠ []) :
    IsPiece front.flatten piece back.flatten := by
  rw [List.flatMap_def] at shape
  obtain ⟨partsBefore, left, right, partsBehind, parts, rfl, rfl⟩ :=
    Text.exists_part_of_flatten shape
  obtain ⟨linesBefore, rest, lines, rfl, restParts⟩ := List.map_eq_append_iff.mp parts
  obtain ⟨line, linesBehind, rfl, linePieces, rfl⟩ := List.map_eq_cons_iff.mp restParts
  obtain ⟨wholeLines, noBreak, lineEnds⟩ := Text.lines_eq_append_cons lines
  have lineShape : line = left.flatten ++ piece ++ right.flatten := by
    rw [← flatten_pieces line, linePieces, List.flatten_append, List.flatten_cons,
      List.append_assoc]
  have isPrefix : left.flatten ++ piece.dropLast <+: line.dropLast := by
    rw [← List.dropLast_append_of_ne_nil notEmpty, lineShape]
    cases right.flatten with
    | nil => rw [List.append_nil]
    | cons first rest =>
      rw [List.dropLast_append_of_ne_nil (List.cons_ne_nil _ _)]
      exact (List.dropLast_prefix _).trans (List.prefix_append _ _)
  have noBreakSoFar : '\n' ∉ left.flatten ++ piece.dropLast :=
    fun member => noBreak (isPrefix.subset member)
  have reached : Text.lastLine ((linesBefore.map pieces).flatten ++ left).flatten =
      left.flatten := by
    have sameText : (linesBefore.map pieces).flatten.flatten = linesBefore.flatten := by
      have perLine : List.flatten ∘ pieces = id := funext flatten_pieces
      rw [List.flatten_flatten, List.map_map, perLine, List.map_id]
    rw [List.flatten_append, sameText,
      Text.lastLine_append (fun member => noBreakSoFar (List.mem_append_left _ member)),
      Text.lastLine_of_wholeLines wholeLines, List.nil_append]
  have cut := cutInto_pieces noBreak
  rw [linePieces] at cut
  obtain ⟨uncut, ends⟩ := cut.of_append_cons
  refine ⟨fun member => noBreakSoFar (List.mem_append_right _ member), ?_, ?_⟩
  · rw [reached]
    exact uncut
  · rw [reached]
    rcases ends with ends | rfl
    · exact .inl ends
    · rw [List.flatten_nil, List.append_nil] at lineShape
      rcases lineEnds with isWhole | rfl
      · rw [lineShape] at isWhole
        exact .inr (.inl (isWhole.of_append notEmpty))
      · exact .inr (.inr rfl)

/-! ## The statements of a text -/

/-- The byte offset behind a statement. -/
def stop (statement : Statement) : Nat :=
  statement.offset + statement.text.width

/-- The statements that are placed are the pieces that are not blank. -/
theorem mem_placed_iff
    {offset : Nat}
    {pieces : List Text}
    {statement : Statement} :
    statement ∈ placed offset pieces ↔
      ∃ front piece back, pieces = front ++ piece :: back ∧ piece.trim ≠ [] ∧
        statement =
          { offset := offset + Text.width front.flatten + piece.indentation.width
            text := piece.trim } := by
  have mem_placed_singleton {offset : Nat} {piece : Text} : statement ∈ placed offset [piece] ↔
      piece.trim ≠ [] ∧
        statement = { offset := offset + piece.indentation.width, text := piece.trim } := by
    rw [placed, placed]
    split
    · next isBlank => simp [isBlank]
    · next notBlank => simp [notBlank]
  constructor
  · intro member
    induction pieces generalizing offset with
    | nil => simp [placed] at member
    | cons piece pieces hypothesis =>
      rw [placed_cons, List.mem_append] at member
      rcases member with here | later
      · obtain ⟨notBlank, rfl⟩ := mem_placed_singleton.mp here
        exact ⟨[], piece, pieces, rfl, notBlank, rfl⟩
      · obtain ⟨front, other, back, rfl, notBlank, rfl⟩ := hypothesis later
        refine ⟨piece :: front, other, back, rfl, notBlank, ?_⟩
        rw [List.flatten_cons, Text.width_append, ← Nat.add_assoc]
  · rintro ⟨front, piece, back, rfl, notBlank, rfl⟩
    rw [placed_append, placed_cons]
    exact List.mem_append_right _
      (List.mem_append_left _ (mem_placed_singleton.mpr ⟨notBlank, rfl⟩))

/-- Statements are placed one behind the other. -/
theorem pairwise_placed
    (offset : Nat)
    (pieces : List Text) :
    (placed offset pieces).Pairwise fun earlier later => earlier.stop ≤ later.offset := by
  induction pieces generalizing offset with
  | nil => exact .nil
  | cons piece pieces hypothesis =>
    rw [placed]
    split
    · exact hypothesis _
    · refine List.pairwise_cons.mpr ⟨fun later member => ?_, hypothesis _⟩
      obtain ⟨front, other, back, -, -, rfl⟩ := mem_placed_iff.mp member
      obtain ⟨blanks, -, shape⟩ := piece.exists_indentation_trim
      have size := congrArg Text.width shape
      rw [Text.width_append, Text.width_append] at size
      dsimp only [stop]
      omega

/-- What stands behind a statement up to the end of its line is blank. -/
def EndsLine (behind : Text) : Prop :=
  ∀ character ∈ behind.takeWhile (· ≠ '\n'), Text.isBlank character = true

/--
A statement stands in a text at its offset.  It has no further semicolon outside literals and
parentheses, and ends at a character that ends it there, or with its line.
-/
structure StandsIn (statement : Statement) (text before after : Text) : Prop where
  shape : text = before ++ (statement.text ++ after)
  offset : statement.offset = before.width
  uncut :
    ∀ front behind, statement.text = front ++ ';' :: behind →
      (Depth.ofText (before ++ front).lastLine).IsOutside → behind = []
  ends :
    EndsLine after ∨
      ∃ front ending, statement.text = front ++ [ending] ∧
        (Depth.ofText (before ++ front).lastLine).IsOutside ∧ MayEnd front ending

/--
A list of statements is the cut of a text: the statements stand in the text one behind the other, and
only blanks stand outside them.
-/
structure IsCutOf (text : Text) (statements : List Statement) : Prop where
  stands : ∀ statement ∈ statements, ∃ before after, statement.StandsIn text before after
  notEmpty : ∀ statement ∈ statements, statement.text ≠ []
  trimmed : ∀ statement ∈ statements, statement.text.trim = statement.text
  oneLine : ∀ statement ∈ statements, '\n' ∉ statement.text
  increasing : statements.Pairwise fun earlier later => earlier.offset < later.offset
  disjoint : statements.Pairwise fun earlier later => earlier.stop ≤ later.offset
  lossless :
    ∀ (before : Text) current after, text = before ++ current :: after →
      Text.isBlank current = false →
        ∃ statement ∈ statements, statement.offset ≤ before.width ∧ before.width < statement.stop

theorem beginsType_blank_append
    {blanks : Text}
    (blank : ∀ character ∈ blanks, Text.isBlank character = true)
    (text : Text) :
    beginsType (blanks ++ text) = beginsType text := by
  rw [beginsType, beginsType, Text.trimStart_blank_append blank]

/-- The depth within a line goes on from any place of the line. -/
theorem ofText_lastLine_append
    {begun : Text}
    (before : Text)
    (noBreak : '\n' ∉ begun) :
    Depth.ofText (before ++ begun).lastLine = (Depth.ofText before.lastLine).after begun := by
  rw [Text.lastLine_append noBreak]
  exact Depth.after_append {} before.lastLine begun

section Placing

variable {before indentation core blanks after : Text}

/-- Up to the end of its statement, a piece has no line feed. -/
theorem IsPiece.noBreak_append
    (isPiece : IsPiece before (indentation ++ (core ++ blanks)) after)
    (notEmpty : core ≠ [])
    (solid : Text.Solid core) :
    '\n' ∉ indentation ++ core := by
  obtain ⟨front, last, rfl⟩ := (List.eq_nil_or_concat core).resolve_left notEmpty
  have lastNotBlank : Text.isBlank last = false := solid.2 last (by simp)
  have noBreak := isPiece.noBreak
  rw [List.concat_eq_append, List.append_assoc, List.singleton_append, ← List.append_assoc,
    List.dropLast_append_of_ne_nil (List.cons_ne_nil _ _)] at noBreak
  rw [List.concat_eq_append, ← List.append_assoc]
  intro member
  rcases List.mem_append.mp member with inFront | isLast
  · exact noBreak (List.mem_append_left _ inFront)
  · rw [← List.mem_singleton.mp isLast] at lastNotBlank
    exact absurd lastNotBlank (by decide)

/-- A piece that is cut off has no blanks at its end. -/
theorem EndsCut.of_blanks
    {depth : Depth}
    (endsCut : EndsCut depth (indentation ++ (core ++ blanks)))
    (blank : ∀ character ∈ indentation ++ blanks, Text.isBlank character = true)
    (notEmpty : core ≠ []) :
    ∃ front ending, core = front ++ [ending] ∧ (depth.after (indentation ++ front)).IsOutside ∧
      MayEnd front ending := by
  obtain ⟨start, ending, shape, outside, mayEnd⟩ := endsCut
  have endingNotBlank : Text.isBlank ending = false := by
    rcases mayEnd with rfl | ⟨rfl, -⟩ <;> decide
  obtain rfl : blanks = [] := by
    rcases List.eq_nil_or_concat blanks with isEmpty | ⟨front, last, rfl⟩
    · exact isEmpty
    · rw [List.concat_eq_append, ← List.append_assoc, ← List.append_assoc] at shape
      obtain ⟨-, same⟩ := List.append_inj' shape rfl
      rw [← (List.cons.inj same).1, blank last (by simp)] at endingNotBlank
      contradiction
  obtain ⟨front, last, rfl⟩ := (List.eq_nil_or_concat core).resolve_left notEmpty
  rw [List.append_nil, List.concat_eq_append, ← List.append_assoc] at shape
  obtain ⟨rfl, same⟩ := List.append_inj' shape rfl
  obtain ⟨rfl, -⟩ := List.cons.inj same
  refine ⟨front, last, List.concat_eq_append, outside, ?_⟩
  rwa [MayEnd, beginsType_blank_append
    fun character member => blank character (List.mem_append_left _ member)] at mayEnd

/-- Behind the statement of a piece that goes up to a line feed, only blanks follow on the line. -/
theorem IsPiece.endsLine
    (isPiece : IsPiece before (indentation ++ (core ++ blanks)) after)
    (blank : ∀ character ∈ blanks, Text.isBlank character = true)
    (notEmpty : core ≠ [])
    (solid : Text.Solid core)
    (wholeLines : Text.WholeLines (indentation ++ (core ++ blanks))) :
    EndsLine (blanks ++ after) := by
  have blanksNotEmpty : blanks ≠ [] := by
    rintro rfl
    rw [List.append_nil] at wholeLines
    obtain ⟨front, last, rfl⟩ := (List.eq_nil_or_concat core).resolve_left notEmpty
    have notBlank := solid.2 last (by simp)
    rw [wholeLines last (by simp)] at notBlank
    exact absurd notBlank (by decide)
  rw [← List.append_assoc] at wholeLines
  obtain ⟨front, rfl⟩ :=
    (wholeLines.of_append blanksNotEmpty).eq_nil_or.resolve_left blanksNotEmpty
  have noBreak : '\n' ∉ front := by
    have noBreakInside := isPiece.noBreak
    rw [← List.append_assoc, ← List.append_assoc, List.dropLast_concat] at noBreakInside
    exact fun isBreak => noBreakInside (List.mem_append_right _ isBreak)
  intro character member
  rw [List.append_assoc, List.singleton_append, Text.takeWhile_append_cons noBreak] at member
  exact blank character (List.mem_append_left _ member)

/-- A statement without the blanks around it stands where its piece stands. -/
theorem IsPiece.standsIn
    (isPiece : IsPiece before (indentation ++ (core ++ blanks)) after)
    (blank : ∀ character ∈ indentation ++ blanks, Text.isBlank character = true)
    (notEmpty : core ≠ [])
    (solid : Text.Solid core) :
    StandsIn { offset := before.width + indentation.width, text := core }
      (before ++ (indentation ++ (core ++ blanks)) ++ after) (before ++ indentation)
      (blanks ++ after) := by
  have noBreak := isPiece.noBreak_append notEmpty solid
  have blankBehind : ∀ character ∈ blanks, Text.isBlank character = true :=
    fun character member => blank character (List.mem_append_right _ member)
  have reached {front : Text} (isPrefix : front <+: core) :
      Depth.ofText (before ++ indentation ++ front).lastLine =
        (Depth.ofText before.lastLine).after (indentation ++ front) := by
    rw [List.append_assoc]
    refine ofText_lastLine_append before fun member => noBreak ?_
    exact ((List.prefix_append_right_inj indentation).mpr isPrefix).subset member
  refine
    { shape := by simp only [List.append_assoc]
      offset := (Text.width_append _ _).symm
      uncut := ?_
      ends := ?_ }
  · rintro front behind rfl outside
    by_contra notLast
    rw [reached (List.prefix_append _ _)] at outside
    refine isPiece.uncut (indentation ++ front) (behind ++ blanks).dropLast ?_ outside
    have isCons : behind ++ blanks ≠ [] := by simp [notLast]
    rw [← List.dropLast_cons_of_ne_nil isCons, ← List.dropLast_append_of_ne_nil (by simp)]
    simp only [List.append_assoc, List.cons_append]
  · rcases isPiece.ends with endsCut | isWhole | rfl
    · obtain ⟨front, ending, rfl, outside, mayEnd⟩ := endsCut.of_blanks blank notEmpty
      refine .inr ⟨front, ending, rfl, ?_, mayEnd⟩
      rw [reached (List.prefix_append _ _)]
      exact outside
    · exact .inl (isPiece.endsLine blankBehind notEmpty solid isWhole)
    · rw [List.append_nil]
      exact .inl fun character member => blankBehind character (List.takeWhile_subset _ member)

end Placing

/-- A text is cut into its statements. -/
theorem ofText_isCutOf (text : Text) : IsCutOf text (ofText text) := by
  have whole := flatten_flatMap_pieces text
  have isTrimmed : ∀ statement ∈ ofText text,
      statement.text ≠ [] ∧ Text.Solid statement.text := by
    intro statement member
    obtain ⟨_, piece, _, _, notBlank, rfl⟩ := mem_placed_iff.mp member
    exact ⟨notBlank, piece.solid_trim⟩
  have found : ∀ statement ∈ ofText text, ∃ before indentation blanks after,
      text = before ++ (indentation ++ (statement.text ++ blanks)) ++ after ∧
        IsPiece before (indentation ++ (statement.text ++ blanks)) after ∧
          (∀ character ∈ indentation ++ blanks, Text.isBlank character = true) ∧
            statement.offset = before.width + indentation.width := by
    intro statement member
    obtain ⟨front, piece, back, shape, notBlank, rfl⟩ := mem_placed_iff.mp member
    obtain ⟨blanks, blank, pieceShape⟩ := piece.exists_indentation_trim
    have isPiece : IsPiece front.flatten piece back.flatten :=
      isPiece_of_append_cons shape (by rintro rfl; exact notBlank rfl)
    refine ⟨front.flatten, piece.indentation, blanks, back.flatten, ?_, ?_, blank,
      by rw [Nat.zero_add]⟩
    · rw [← pieceShape, ← whole, shape, List.flatten_append, List.flatten_cons, List.append_assoc]
    · rwa [← pieceShape]
  have disjoint : (ofText text).Pairwise fun earlier later => earlier.stop ≤ later.offset :=
    pairwise_placed 0 _
  refine
    { stands := ?_
      notEmpty := fun statement member => (isTrimmed statement member).1
      trimmed := fun statement member => Text.trim_of_solid (isTrimmed statement member).2
      oneLine := ?_
      increasing := ?_
      disjoint := disjoint
      lossless := ?_ }
  · rintro ⟨offset, core⟩ member
    obtain ⟨notEmpty, solid⟩ := isTrimmed _ member
    obtain ⟨before, indentation, blanks, after, rfl, isPiece, blank, rfl⟩ := found _ member
    exact ⟨_, _, isPiece.standsIn blank notEmpty solid⟩
  · intro statement member
    obtain ⟨notEmpty, solid⟩ := isTrimmed statement member
    obtain ⟨_, _, _, _, -, isPiece, -⟩ := found statement member
    exact fun isBreak => isPiece.noBreak_append notEmpty solid (List.mem_append_right _ isBreak)
  · refine disjoint.imp_of_mem fun {earlier later} member _ ordered => ?_
    have positive : earlier.text.width ≠ 0 := fun noWidth =>
      (isTrimmed earlier member).1 (Text.eq_nil_of_width noWidth)
    rw [stop] at ordered
    omega
  · intro before current after shape notBlank
    rw [← whole] at shape
    obtain ⟨front, left, right, back, parts, rfl, -⟩ := Text.exists_part_of_flatten shape
    obtain ⟨blanks, blank, pieceShape⟩ := Text.exists_indentation_trim (left ++ current :: right)
    have inside := Text.width_le_of_notBlank pieceShape.symm blank notBlank
    have notEmpty : Text.trim (left ++ current :: right) ≠ [] :=
      List.ne_nil_of_mem (Text.mem_trim (List.mem_append_right _ List.mem_cons_self) notBlank)
    refine ⟨_, mem_placed_iff.mpr ⟨front, _, back, parts, notEmpty, rfl⟩, ?_, ?_⟩
    · rw [Text.width_append]
      dsimp only
      omega
    · rw [Text.width_append]
      dsimp only [stop]
      omega

end Statement

end ClassOutline
