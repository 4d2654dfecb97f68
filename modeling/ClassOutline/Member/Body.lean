import ClassOutline.Member.Declaration
import ClassOutline.Member.Depth
import ClassOutline.Member.FunctionPointer
import ClassOutline.Member.Shape
import ClassOutline.Member.Statement
/-!
# Bodies

The data members of a block are those that its statements declare directly in the body of the
class: statements with the shape of data, at the depth of one brace and outside parentheses.
-/

namespace ClassOutline

/-- The data members found in a block. -/
structure Body where
  /-- The members, in order. -/
  members : List DataMember := []
  /-- The number of declarations that could not be resolved. -/
  unresolved : Nat := 0
deriving DecidableEq, Repr

namespace Body

/-- The body with what one more declaration in front of it gives. -/
def cons (found : Except Failure (List DataMember)) (body : Body) : Body :=
  match found with
  | .ok members => { body with members := members ++ body.members }
  | .error _ => { body with unresolved := body.unresolved + 1 }

/-- The members that a statement of a given shape declares. -/
def membersOf (shape : Shape) (statement : Text) : Except Failure (List DataMember) :=
  if shape = .functionPointer then (FunctionPointer.member statement).map fun member => [member]
  else Declaration.members statement

/--
The members that statements declare.  The cursor stands at or in front of the first statement; it
is moved only to statements with the shape of data.
-/
def ofStatements (cursor : Depth.Cursor) : List Statement → Body
  | [] => {}
  | statement :: statements =>
    match (Shape.ofStatement? statement.text).filter Shape.isData with
    | none => ofStatements cursor statements
    | some shape =>
      let cursor := cursor.moveTo statement.offset
      let later := ofStatements cursor statements
      if cursor.depth.isInBody then later.cons (membersOf shape statement.text) else later

/-- The data members of the text of a block. -/
def ofText (text : Text) : Body :=
  ofStatements { unread := text } (Statement.ofText text)

end Body

end ClassOutline
