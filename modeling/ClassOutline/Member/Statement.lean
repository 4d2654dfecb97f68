import ClassOutline.Block
import ClassOutline.Member.Literal
/-!
# Statements

The text of a block is cut into statements: lines, cut again behind each semicolon outside
parentheses and literals, and behind the brace that opens a nested class.  Parentheses and literals
are followed anew on each line.

The pieces make up the text.  A statement is a piece without the blanks around it, together with
its byte offset; blank pieces are no statements.
-/

namespace ClassOutline

/-- A statement of a text. -/
structure Statement where
  /-- The byte offset of the statement. -/
  offset : Nat
  /-- The statement, without blanks at its ends. -/
  text : Text
deriving DecidableEq, Repr

namespace Statement

/-- Whether a piece of a line begins with the head of a class. -/
def beginsType (piece : Text) : Bool :=
  Block.declarationWords.any fun word => Reserved.begins word piece.trimStart

/--
Cuts the rest of a line.  `nested` tells whether the current piece begins with the head of a class,
`mark` is the open literal, and `parens` counts the open parentheses.
-/
def piecesFrom (nested : Bool) (mark : Option Char) (parens : Int) : Text → List Text
  | [] => [[]]
  | current :: rest =>
    if Literal.covers mark current then
      Text.consToFirst current (piecesFrom nested (Literal.after mark current) parens rest)
    else if parens ≤ 0 ∧ (current = ';' ∨ current = '{' ∧ nested) then
      [current] :: piecesFrom (beginsType rest) none parens rest
    else
      let parens :=
        if current = '(' then parens + 1 else if current = ')' then parens - 1 else parens
      Text.consToFirst current (piecesFrom nested none parens rest)

/-- The pieces of the rest of a line make up that rest. -/
theorem flatten_piecesFrom
    (nested : Bool)
    (mark : Option Char)
    (parens : Int)
    (line : Text) :
    (piecesFrom nested mark parens line).flatten = line := by
  induction line generalizing nested mark parens with
  | nil => rfl
  | cons current rest hypothesis =>
    rw [piecesFrom]
    split
    · simp [hypothesis]
    · split <;> simp [hypothesis]

/-- The pieces of a line. -/
def pieces (line : Text) : List Text :=
  piecesFrom (beginsType line) none 0 line

@[simp]
theorem flatten_pieces (line : Text) : (pieces line).flatten = line :=
  flatten_piecesFrom _ _ _ line

/-- The statements of pieces that follow each other from a byte offset on. -/
def placed (offset : Nat) : List Text → List Statement
  | [] => []
  | piece :: pieces =>
    let later := placed (offset + piece.width) pieces
    if piece.trim = [] then later
    else { offset := offset + piece.indentation.width, text := piece.trim } :: later

/-- The statements of a text, in order. -/
def ofText (text : Text) : List Statement :=
  placed 0 (text.lines.flatMap pieces)

end Statement

end ClassOutline
