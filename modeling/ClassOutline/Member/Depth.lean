import ClassOutline.Member.Literal
/-!
# Depth

How deep a place in a text lies in braces and parentheses.  Brackets in literals do not count, and
the end of a line closes an open literal.

A cursor follows a text to places that lie ever further on, and reads each character once.
-/

namespace ClassOutline

/-- The brackets and the literal that are open at a place. -/
structure Depth where
  /-- Opening minus closing braces so far. -/
  braces : Int := 0
  /-- Opening minus closing parentheses so far. -/
  parens : Int := 0
  /-- The mark of the open literal. -/
  mark : Option Char := none
deriving DecidableEq, Repr

namespace Depth

/-- The depth behind a character. -/
def step (depth : Depth) (character : Char) : Depth :=
  let mark := if character = '\n' then none else depth.mark
  let depth := { depth with mark := Literal.after mark character }
  if Literal.covers mark character then depth
  else if character = '{' then { depth with braces := depth.braces + 1 }
  else if character = '}' then { depth with braces := depth.braces - 1 }
  else if character = '(' then { depth with parens := depth.parens + 1 }
  else if character = ')' then { depth with parens := depth.parens - 1 }
  else depth

/-- The depth at the end of a text. -/
def ofText (text : Text) : Depth :=
  text.foldl step {}

/-- Whether a place lies directly in the body of a class. -/
def isInBody (depth : Depth) : Bool :=
  depth.braces = 1 && depth.parens = 0

/-- A place in a text, with the depth there. -/
structure Cursor where
  /-- The text behind the place. -/
  unread : Text
  /-- The byte offset of the place. -/
  offset : Nat := 0
  /-- The depth at the place. -/
  depth : Depth := {}
deriving DecidableEq, Repr

namespace Cursor

/-- The cursor moved on to a byte offset; it never moves back. -/
def moveTo (target : Nat) (cursor : Cursor) : Cursor :=
  read cursor.offset cursor.depth cursor.unread
where
  /-- Reads the characters that begin before the target. -/
  read (offset : Nat) (depth : Depth) : Text → Cursor
    | [] => { unread := [], offset, depth }
    | current :: rest =>
      if offset < target then read (offset + current.utf8Size) (depth.step current) rest
      else { unread := current :: rest, offset, depth }

end Cursor

end Depth

end ClassOutline
