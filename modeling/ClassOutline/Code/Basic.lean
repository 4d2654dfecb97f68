import ClassOutline.Outline
/-!
# Generated code

The text of generated functions, and where it is put into the source of the class.
-/

namespace ClassOutline

/-- Generated text. -/
inductive GeneratedCode where
  /-- Text for the body of the class. -/
  | inside (text : Text)
  /-- Declarations for the body of the class, and definitions for the text behind it. -/
  | apart (declaration definition : Text)
deriving DecidableEq, Repr

/-- Text that is put in at the start of a line. -/
structure Insertion where
  /-- The line, counted from zero. -/
  line : Nat
  /-- The text. -/
  text : Text
deriving DecidableEq, Repr

namespace GeneratedCode

/-- The text for the body of the class. -/
def declaration : GeneratedCode → Text
  | .inside text => text
  | .apart declaration _ => declaration

/-- The text for behind the class, if the code has any. -/
def definition? : GeneratedCode → Option Text
  | .inside _ => none
  | .apart _ definition => some definition

/-- Whether there is no text at all. -/
def isEmpty (code : GeneratedCode) : Bool :=
  code.declaration.isEmpty && code.definition?.all List.isEmpty

/--
What is put into the source of a class.  The text for the body opens a public section at the line
of the closing brace.  Definitions go to the line behind it and are put in first, so that they do
not move the other place.
-/
def insertions (code : GeneratedCode) (outline : Outline) : List Insertion :=
  match code with
  | .inside text => [{ line := outline.endLine, text := "\n public:".toList ++ text }]
  | .apart declaration definition =>
    [{ line := outline.endLine + 1, text := definition },
      { line := outline.endLine, text := "\n public:\n".toList ++ declaration }]

end GeneratedCode

end ClassOutline
