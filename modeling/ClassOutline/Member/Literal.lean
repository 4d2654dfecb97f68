import ClassOutline.Text.Basic
/-!
# Literals

A literal runs from a quotation mark to the next mark of the same kind, both included.  Escapes are
not recognized.  A text is followed through its literals by the mark that is open, if any.
-/

namespace ClassOutline.Literal

/-- The characters that open and close literals. -/
def isMark (character : Char) : Bool :=
  character = '"' || character = '\''

/-- Whether a character belongs to a literal, given the open mark before it. -/
def covers (mark : Option Char) (character : Char) : Bool :=
  mark.isSome || isMark character

/-- The mark that is open behind a character, given the one before it. -/
def after (mark : Option Char) (character : Char) : Option Char :=
  match mark with
  | some opened => if character = opened then none else some opened
  | none => if isMark character then some character else none

end ClassOutline.Literal
