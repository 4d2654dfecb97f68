import ClassOutline.Outline
/-!
# Renderings of generated functions

A generated function is written in three texts: complete, for the body of the class; as a
declaration, for the body too; and as a definition, for the text behind the class.
-/

namespace ClassOutline

/-- Generated functions, in each of the texts in which they are written. -/
structure Renderings where
  /-- Complete functions for the body of the class. -/
  inside : Text := []
  /-- Declarations for the body of the class. -/
  declaration : Text := []
  /-- Definitions for the text behind the class. -/
  definition : Text := []
deriving DecidableEq, Repr

namespace Renderings

/-- Functions with others behind them, in each text. -/
def append (first second : Renderings) : Renderings where
  inside := first.inside ++ second.inside
  declaration := first.declaration ++ second.declaration
  definition := first.definition ++ second.definition

instance : Append Renderings :=
  ⟨append⟩

end Renderings

end ClassOutline
