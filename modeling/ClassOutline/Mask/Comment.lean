import ClassOutline.Mask.Basic
/-!
# Hiding comments

Block comments are hidden first and line comments after them, so a line comment does not protect
the start of a block comment behind it.  Each pass knows strings by their quotation marks alone:
a mark opens a string and the next one closes it, with no escapes and no character literals.

A block comment is closed by the first `*/` from its own star on, so `/*/` is a whole comment.  A
`*/` outside every comment and string is hidden too.
-/

namespace ClassOutline.Mask

/-- What the pass over block comments is reading. -/
inductive BlockComment where
  /-- Text outside comments and strings. -/
  | code
  /-- The inside of a string. -/
  | string
  /-- The inside of a comment. -/
  | comment
  /-- The slash of a closing mark whose star has been read. -/
  | closing
deriving DecidableEq, Repr

/-- Hides block comments and stray closing marks. -/
def blockComments : Mask BlockComment where
  start := .code
  step state current rest :=
    match state with
    | .code =>
      if current = '/' ∧ rest.head? = some '*' then (.comment, true)
      else if current = '*' ∧ rest.head? = some '/' then (.closing, true)
      else if current = '"' then (.string, false)
      else (.code, false)
    | .string => if current = '"' then (.code, false) else (.string, false)
    | .comment =>
      if current = '*' ∧ rest.head? = some '/' then (.closing, true) else (.comment, true)
    | .closing => (.code, true)

/-- What the pass over line comments is reading. -/
inductive LineComment where
  /-- Text outside comments and strings. -/
  | code
  /-- The inside of a string. -/
  | string
  /-- The inside of a comment. -/
  | comment
deriving DecidableEq, Repr

/-- Hides line comments, each up to the end of its line. -/
def lineComments : Mask LineComment where
  start := .code
  step state current rest :=
    match state with
    | .code =>
      if current = '/' ∧ rest.head? = some '/' then (.comment, true)
      else if current = '"' then (.string, false)
      else (.code, false)
    | .string => if current = '"' then (.code, false) else (.string, false)
    | .comment => if current = '\n' then (.code, false) else (.comment, true)

/-- The text with its comments hidden. -/
def hideComments (text : Text) : Text :=
  lineComments.apply (blockComments.apply text)

end ClassOutline.Mask
