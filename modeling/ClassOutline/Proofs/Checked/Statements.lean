import ClassOutline.Member.Statement
import ClassOutline.Proofs.Checked.Keywords
import ClassOutline.Proofs.Text.Words
/-!
# Statements by offsets

A line is read byte by byte.  The statement that is being read begins at an offset of the line, and
is cut out when its end is read.  In front of an opening brace the statement so far is cut out as
well, to see whether it is the head of a class.
-/

namespace ClassOutline

/-! ## Pieces of a line -/

namespace Text

/-- Puts a text in front of the first of the parts. -/
def appendToFirst (front : Text) : List Text → List Text
  | [] => [front]
  | part :: parts => (front ++ part) :: parts

theorem appendToFirst_consToFirst
    (front : Text)
    (first : Char)
    (parts : List Text) :
    appendToFirst front (consToFirst first parts) = appendToFirst (front ++ [first]) parts := by
  cases parts <;> simp [consToFirst, appendToFirst]

theorem appendToFirst_nil
    {parts : List Text}
    (notEmpty : parts ≠ []) :
    appendToFirst [] parts = parts := by
  cases parts with
  | nil => contradiction
  | cons part parts => rfl

end Text

namespace Statement

/-- What stands behind a brace does not matter for the head of a class in front of it. -/
theorem beginsType_append_brace (head rest : Text) :
    beginsType (head ++ '{' :: rest) = beginsType head := by
  have foreign : ∀ word ∈ Block.declarationWords, '{' ∉ word := by decide
  have isDelimiter : Reserved.isDelimiter '{' = true := by decide
  have sameWord : ∀ word ∈ Block.declarationWords,
      Reserved.begins word (head.trimStart ++ '{' :: rest) =
        Reserved.begins word head.trimStart := by
    intro word isWord
    rw [Reserved.begins, Reserved.begins, Text.isPrefixOf_append_cons _ _ (foreign word isWord)]
    cases begins : word.isPrefixOf head.trimStart with
    | false => rfl
    | true =>
      obtain ⟨behind, shape⟩ := List.isPrefixOf_iff_prefix.mp begins
      rw [← shape, List.append_assoc, List.drop_left, List.drop_left]
      cases behind <;> simp [Reserved.standsAlone, isDelimiter]
  rw [beginsType, beginsType, Text.trimStart_append_cons head rest (by decide), Bool.eq_iff_iff,
    List.any_eq_true, List.any_eq_true]
  exact exists_congr fun word => and_congr_right fun isWord => by rw [sameWord word isWord]

/-- A wide character belongs to the piece and changes nothing else. -/
theorem piecesFrom_of_wide
    {current : Char}
    {mark : Option Char}
    (nested : Bool)
    (parens : Int)
    (rest : Text)
    (markNarrow : ∀ opened ∈ mark, Text.IsNarrow opened)
    (wide : ¬ Text.IsNarrow current) :
    piecesFrom nested mark parens (current :: rest) =
      Text.consToFirst current (piecesFrom nested mark parens rest) := by
  have noMark {sign : Char} (narrow : Text.IsNarrow sign) : current ≠ sign :=
    Text.ne_of_wide wide narrow
  rw [piecesFrom]
  cases mark with
  | some opened =>
    have notOpened := noMark (markNarrow opened rfl)
    simp [Literal.covers, Literal.after, notOpened]
  | none =>
    have noSign : current ≠ '"' ∧ current ≠ '\'' ∧ current ≠ '(' ∧ current ≠ ')' ∧ current ≠ ';' ∧
        current ≠ '{' :=
      ⟨noMark (by decide), noMark (by decide), noMark (by decide), noMark (by decide),
        noMark (by decide), noMark (by decide)⟩
    simp [Literal.covers, Literal.isMark, noSign]

theorem piecesFrom_ne_nil
    (nested : Bool)
    (mark : Option Char)
    (parens : Int)
    (text : Text) :
    piecesFrom nested mark parens text ≠ [] := by
  have notEmpty (first : Char) (parts : List Text) : Text.consToFirst first parts ≠ [] := by
    cases parts <;> simp [Text.consToFirst]
  cases text with
  | nil => simp [piecesFrom]
  | cons current rest =>
    rw [piecesFrom]
    split
    · exact notEmpty _ _
    · split
      · simp
      · exact notEmpty _ _

theorem placed_cons
    (offset : Nat)
    (piece : Text)
    (pieces : List Text) :
    placed offset (piece :: pieces) =
      placed offset [piece] ++ placed (offset + piece.width) pieces := by
  rw [placed, placed]
  split <;> rfl

theorem placed_append
    (offset : Nat)
    (left right : List Text) :
    placed offset (left ++ right) =
      placed offset left ++ placed (offset + Text.width left.flatten) right := by
  induction left generalizing offset with
  | nil => rfl
  | cons piece left hypothesis =>
    rw [List.cons_append, placed_cons, hypothesis, placed_cons offset piece left, List.flatten_cons,
      Text.width_append, Nat.add_assoc, List.append_assoc]

end Statement

namespace Checked

/-! ## The statements of a line -/

/-- Whether a text begins with the head of a class. -/
def beginsType? (text : Text) : Option Bool :=
  any? (begins? · text.trimStart) Block.declarationWords

theorem beginsType?_eq (text : Text) : beginsType? text = some (Statement.beginsType text) :=
  any?_eq_some fun word _ => begins?_eq word text.trimStart

/-- The statement of a piece that begins at an offset, if the piece is not blank. -/
def placed? (offset : Nat) (piece : Text) : Option (List Statement) :=
  if piece.trim = [] then some []
  else do
    let lead ← sub? piece.width piece.trimStart.width
    some [{ offset := offset + lead, text := piece.trim }]

theorem placed?_eq
    (offset : Nat)
    (piece : Text) :
    placed? offset piece = some (Statement.placed offset [piece]) := by
  have lead : sub? piece.width piece.trimStart.width = some piece.indentation.width := by
    have split := congrArg Text.width piece.indentation_append_trimStart
    rw [Text.width_append] at split
    rw [← split, sub?_add_right]
  rw [placed?, lead, Statement.placed]
  split <;> rfl

/-- The number of open parentheses behind a byte outside literals. -/
def countParens? (parens : Int) (code : Char) : Option Int :=
  if code = '(' then count? shortLimit parens 1
  else if code = ')' then count? shortLimit parens (-1)
  else some parens

/-- Whether a byte outside literals ends the statement that begins at an offset of a line. -/
def endsStatement? (line : Text) (start index : Nat) (parens : Int) (code : Char) : Option Bool :=
  if code = ';' then some (parens ≤ 0)
  else if code = '{' ∧ parens ≤ 0 then do
    let head ← slice? line start index
    beginsType? head
  else some false

/--
The statements of the rest of a line, which is read from an index on.  The line begins at one
offset of the text, and the current statement at another one of the line.
-/
def statementsFrom? (line : Text) (lineStart start index : Nat) (parens : Int)
    (mark : Option Char) : Text → Option (List Statement)
  | [] => do
    let piece ← slice? line start line.width
    placed? (lineStart + start) piece
  | code :: later =>
    if Literal.covers mark code then
      statementsFrom? line lineStart start (index + 1) parens (Literal.after mark code) later
    else do
      let parens ← countParens? parens code
      let ends ← endsStatement? line start index parens code
      if ends then do
        let piece ← slice? line start (index + 1)
        let statement ← placed? (lineStart + start) piece
        let statements ← statementsFrom? line lineStart (index + 1) (index + 1) parens none later
        some (statement ++ statements)
      else statementsFrom? line lineStart start (index + 1) parens none later

/-- The bytes of a wide character are passed over. -/
theorem statementsFrom?_of_wide
    {code : Char}
    {mark : Option Char}
    (line : Text)
    (lineStart start index : Nat)
    (parens : Int)
    (later : Text)
    (markNarrow : ∀ opened ∈ mark, Text.IsNarrow opened)
    (wide : ¬ Text.IsNarrow code) :
    statementsFrom? line lineStart start index parens mark (code :: later) =
      statementsFrom? line lineStart start (index + 1) parens mark later := by
  have noMark {sign : Char} (narrow : Text.IsNarrow sign) : code ≠ sign :=
    Text.ne_of_wide wide narrow
  rw [statementsFrom?]
  cases mark with
  | some opened =>
    have notOpened := noMark (markNarrow opened rfl)
    simp [Literal.covers, Literal.after, notOpened]
  | none =>
    have noSign : code ≠ '"' ∧ code ≠ '\'' ∧ code ≠ '(' ∧ code ≠ ')' ∧ code ≠ ';' ∧ code ≠ '{' :=
      ⟨noMark (by decide), noMark (by decide), noMark (by decide), noMark (by decide),
        noMark (by decide), noMark (by decide)⟩
    simp [Literal.covers, Literal.isMark, countParens?, endsStatement?, noSign]

theorem isNarrow_after
    {mark : Option Char}
    {character : Char}
    (markNarrow : ∀ opened ∈ mark, Text.IsNarrow opened)
    (narrow : Text.IsNarrow character) :
    ∀ opened ∈ Literal.after mark character, Text.IsNarrow opened := by
  intro opened isOpened
  cases mark with
  | none =>
    rw [Literal.after] at isOpened
    split at isOpened
    · exact Option.some.inj isOpened ▸ narrow
    · contradiction
  | some earlier =>
    rw [Literal.after] at isOpened
    split at isOpened
    · contradiction
    · exact Option.some.inj isOpened ▸ markNarrow earlier rfl

/-- The number of open parentheses behind a character outside literals. -/
def parensBehind (parens : Int) (current : Char) : Int :=
  if current = '(' then parens + 1 else if current = ')' then parens - 1 else parens

theorem countParens?_eq
    {parens : Int}
    {read : Nat}
    (code : Char)
    (counted : parens.natAbs ≤ read)
    (short : read + 1 < shortLimit) :
    countParens? parens code = some (parensBehind parens code) := by
  rw [countParens?, parensBehind, count?_eq_some counted (by decide) short,
    count?_eq_some counted (by decide) short]
  split
  · rfl
  · split <;> rfl

theorem natAbs_parensBehind_le
    (parens : Int)
    (current : Char) :
    (parensBehind parens current).natAbs ≤ parens.natAbs + 1 := by
  rw [parensBehind]
  split <;> [skip; split] <;> omega

/-- A statement ends at a character outside literals. -/
def EndsStatement (nested : Bool) (parens : Int) (current : Char) : Prop :=
  parens ≤ 0 ∧ (current = ';' ∨ current = '{' ∧ nested = true)

instance (nested : Bool) (parens : Int) (current : Char) :
    Decidable (EndsStatement nested parens current) :=
  inferInstanceAs (Decidable (_ ∧ _))

/-- A character at which a statement may end is no parenthesis. -/
theorem EndsStatement.parensBehind_eq
    {nested : Bool}
    {parens other : Int}
    {current : Char}
    (ends : EndsStatement nested other current) :
    parensBehind parens current = parens := by
  rcases ends.2 with rfl | ⟨rfl, -⟩ <;> rfl

theorem endsStatement_parensBehind_iff
    (nested : Bool)
    (parens : Int)
    (current : Char) :
    EndsStatement nested (parensBehind parens current) current ↔
      EndsStatement nested parens current := by
  constructor <;> intro ends
  · have same : parensBehind parens current = parens := ends.parensBehind_eq
    rwa [same] at ends
  · have same : parensBehind parens current = parens := ends.parensBehind_eq
    rwa [same]

theorem piecesFrom_cons
    {mark : Option Char}
    {current : Char}
    (notCovered : ¬ Literal.covers mark current = true)
    (nested : Bool)
    (parens : Int)
    (rest : Text) :
    Statement.piecesFrom nested mark parens (current :: rest) =
      if EndsStatement nested parens current then
        [current] :: Statement.piecesFrom (Statement.beginsType rest) none parens rest
      else
        Text.consToFirst current
          (Statement.piecesFrom nested none (parensBehind parens current) rest) := by
  rw [Statement.piecesFrom, if_neg notCovered]
  rfl

/-- A statement ends at a semicolon, and at a brace behind the head of a class. -/
theorem endsStatement?_eq
    {line before piece rest : Text}
    {current : Char}
    (parens : Int)
    (shape : line = before ++ (piece ++ current :: rest)) :
    endsStatement? line before.width (before.width + piece.width) parens current =
      some (decide
        (EndsStatement (Statement.beginsType (piece ++ current :: rest)) parens current)) := by
  have cut : slice? line before.width (before.width + piece.width) = some piece :=
    slice?_eq_some shape rfl rfl
  rw [endsStatement?]
  by_cases isEnd : current = ';'
  · simp [isEnd, EndsStatement]
  · rw [if_neg isEnd]
    by_cases isBrace : current = '{'
    · subst isBrace
      rw [cut]
      by_cases outside : parens ≤ 0
      · simp [outside, beginsType?_eq, Statement.beginsType_append_brace, EndsStatement]
      · simp [outside, EndsStatement]
    · simp [isEnd, isBrace, EndsStatement]

/-- Where a statement ends it is cut out, and the next one begins behind the end. -/
theorem statementsFrom?_of_ends
    {line before piece rest : Text}
    {current : Char}
    {parens : Int}
    {mark : Option Char}
    {statements : List Statement}
    (lineStart : Nat)
    (shape : line = before ++ (piece ++ current :: rest))
    (narrow : Text.IsNarrow current)
    (notCovered : ¬ Literal.covers mark current = true)
    (ends : EndsStatement (Statement.beginsType (piece ++ current :: rest)) parens current)
    (counted : parens.natAbs ≤ before.width + piece.width)
    (short : line.width < shortLimit)
    (later : statementsFrom? line lineStart (before.width + piece.width + 1)
      (before.width + piece.width + 1) parens none (Text.codes rest) = some statements) :
    statementsFrom? line lineStart before.width (before.width + piece.width) parens mark
        (current :: Text.codes rest) =
      some (Statement.placed (lineStart + before.width) [piece ++ [current]] ++ statements) := by
  have size := narrow.utf8Size_eq
  have inLine : before.width + piece.width + 1 ≤ line.width := by
    rw [shape, Text.width_append, Text.width_append, Text.width_cons]
    omega
  have cut : slice? line before.width (before.width + piece.width + 1) =
      some (piece ++ [current]) :=
    @slice?_eq_some _ before (piece ++ [current]) rest _ _ (by rw [shape]; simp) rfl
      (by simp [size, Nat.add_assoc])
  rw [statementsFrom?, if_neg notCovered, countParens?_eq current counted (by omega),
    ends.parensBehind_eq]
  simp only [Option.bind_eq_bind, Option.bind_some, endsStatement?_eq _ shape,
    decide_eq_true ends, if_true, cut, placed?_eq, later]

/-- The rest of a line is cut where it is cut as a text. -/
theorem statementsFrom?_codes
    {line before piece text : Text}
    {parens : Int}
    {mark : Option Char}
    (lineStart : Nat)
    (shape : line = before ++ (piece ++ text))
    (counted : parens.natAbs ≤ before.width + piece.width)
    (markNarrow : ∀ opened ∈ mark, Text.IsNarrow opened)
    (short : line.width < shortLimit) :
    statementsFrom? line lineStart before.width (before.width + piece.width) parens mark
        text.codes =
      some (Statement.placed (lineStart + before.width)
        (Text.appendToFirst piece
          (Statement.piecesFrom (Statement.beginsType (piece ++ text)) mark parens text))) := by
  induction text generalizing before piece parens mark with
  | nil =>
    rw [List.append_nil] at shape
    have cut : slice? line before.width line.width = some piece :=
      slice?_eq_some (by rw [shape, List.append_nil]) rfl (by rw [shape, Text.width_append])
    rw [Text.codes_nil, statementsFrom?, cut, Statement.piecesFrom, Text.appendToFirst,
      List.append_nil]
    exact placed?_eq _ _
  | cons current rest hypothesis =>
    -- The statement goes on with the character.
    have goesOn (next : Int) (opened : Option Char)
        (countedLater : next.natAbs ≤ before.width + piece.width + current.utf8Size)
        (openedNarrow : ∀ sign ∈ opened, Text.IsNarrow sign) :
        statementsFrom? line lineStart before.width (before.width + piece.width + current.utf8Size)
            next opened (Text.codes rest) =
          some (Statement.placed (lineStart + before.width) (Text.appendToFirst piece
            (Text.consToFirst current (Statement.piecesFrom
              (Statement.beginsType (piece ++ current :: rest)) opened next rest)))) := by
      have wider : Text.width (piece ++ [current]) = piece.width + current.utf8Size := by simp
      have read := @hypothesis before (piece ++ [current]) next opened (by simpa using shape)
        (by omega) openedNarrow
      rw [wider, ← Nat.add_assoc, List.append_assoc, List.singleton_append] at read
      rw [read, Text.appendToFirst_consToFirst]
    by_cases narrow : Text.IsNarrow current
    · have size := narrow.utf8Size_eq
      have inLine : before.width + piece.width + 1 ≤ line.width := by
        rw [shape, Text.width_append, Text.width_append, Text.width_cons]
        omega
      rw [size] at goesOn
      rw [narrow.codes_cons]
      by_cases covered : Literal.covers mark current = true
      · rw [statementsFrom?, if_pos covered, Statement.piecesFrom, if_pos covered,
          goesOn parens _ (by omega) (isNarrow_after markNarrow narrow)]
      · rw [piecesFrom_cons covered]
        by_cases ends :
            EndsStatement (Statement.beginsType (piece ++ current :: rest)) parens current
        · have wider : Text.width (before ++ (piece ++ [current])) =
              before.width + piece.width + 1 := by
            simp [size, Nat.add_assoc]
          have later := @hypothesis (before ++ (piece ++ [current])) [] parens none
            (by rw [shape]; simp) (by rw [wider, Text.width_nil]; omega) (by simp)
          rw [wider, Text.width_nil, Nat.add_zero, List.nil_append,
            Text.appendToFirst_nil (Statement.piecesFrom_ne_nil _ _ _ _)] at later
          rw [statementsFrom?_of_ends lineStart shape narrow covered ends counted short later,
            if_pos ends, Text.appendToFirst, Statement.placed_cons _ _
              (Statement.piecesFrom (Statement.beginsType rest) none parens rest),
            Text.width_append, Text.width_cons, Text.width_nil, size, Nat.add_assoc, Nat.add_assoc]
        · have changed := natAbs_parensBehind_le parens current
          have notEnd : ¬ EndsStatement (Statement.beginsType (piece ++ current :: rest))
              (parensBehind parens current) current :=
            fun other => ends ((endsStatement_parensBehind_iff _ _ _).mp other)
          rw [statementsFrom?, if_neg covered, countParens?_eq current counted (by omega)]
          simp only [Option.bind_eq_bind, Option.bind_some, endsStatement?_eq _ shape]
          rw [if_neg (by simpa using notEnd), if_neg ends,
            goesOn (parensBehind parens current) none (by omega) (by simp)]
    · rw [Text.read_codes_of_wide (fun index code later _ =>
          statementsFrom?_of_wide line lineStart before.width index parens later markNarrow) narrow,
        goesOn parens mark (by omega) markNarrow,
        Statement.piecesFrom_of_wide _ _ _ markNarrow narrow]

/-! ## The statements of a text -/

/-- The statements of lines that follow each other, the first of which begins at an offset. -/
def statementsOf? (lineStart : Nat) : List Text → Option (List Statement)
  | [] => some []
  | line :: lines => do
    let statements ← statementsFrom? line lineStart 0 0 0 none line.codes
    let later ← statementsOf? (lineStart + line.width) lines
    some (statements ++ later)

theorem statementsFrom?_line
    {line : Text}
    (lineStart : Nat)
    (short : line.width < shortLimit) :
    statementsFrom? line lineStart 0 0 0 none line.codes =
      some (Statement.placed lineStart (Statement.pieces line)) := by
  have read := @statementsFrom?_codes line [] [] line 0 none lineStart rfl (Nat.zero_le _) (by simp)
    short
  rw [Text.appendToFirst_nil (Statement.piecesFrom_ne_nil _ _ _ _)] at read
  exact read

theorem statementsOf?_eq
    {lines : List Text}
    (lineStart : Nat)
    (short : Text.width lines.flatten < shortLimit) :
    statementsOf? lineStart lines =
      some (Statement.placed lineStart (lines.flatMap Statement.pieces)) := by
  induction lines generalizing lineStart with
  | nil => rfl
  | cons line lines hypothesis =>
    rw [List.flatten_cons, Text.width_append] at short
    rw [statementsOf?, statementsFrom?_line lineStart (by omega), hypothesis _ (by omega),
      List.flatMap_cons, Statement.placed_append, Statement.flatten_pieces]
    rfl

/-- The statements of a text are cut out by offsets. -/
theorem statementsOf?_lines
    {text : Text}
    (short : text.width < shortLimit) :
    statementsOf? 0 text.lines = some (Statement.ofText text) :=
  statementsOf?_eq 0 (by rwa [Text.flatten_lines])

end Checked

end ClassOutline
