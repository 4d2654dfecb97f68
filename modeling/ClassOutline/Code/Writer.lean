import ClassOutline.Code.Action
import ClassOutline.Code.Basic
import ClassOutline.Code.Templates
/-!
# Writers

A writer renders the functions of an action in all texts, and keeps the texts for the place where
its functions go.
-/

namespace ClassOutline

namespace Writer

/-- Everything, for all members that are not static. -/
def renderAll (writer : Writer) : Renderings :=
  writer.renderConstructor .all ++ writer.renderDestructor ++ writer.renderCopySemantics
    ++ writer.renderMoveSemantics ++ writer.renderAccessors .all true true
    ++ writer.renderStringConversion ++ writer.renderStreamOperator .all
    ++ writer.renderEqualityOperator ++ writer.renderBoolOperator

/-- The functions of an action.  Actions that do not depend on members ignore the coverage. -/
def render (writer : Writer) (action : Action) (coverage : Coverage) : Renderings :=
  match action with
  | .all => writer.renderAll
  | .constructor => writer.renderConstructor coverage
  | .destructor => writer.renderDestructor
  | .copySemantics => writer.renderCopySemantics
  | .moveSemantics => writer.renderMoveSemantics
  | .getters => writer.renderAccessors coverage true false
  | .setters => writer.renderAccessors coverage false true
  | .gettersAndSetters => writer.renderAccessors coverage true true
  | .stringConversion => writer.renderStringConversion
  | .streamOperator => writer.renderStreamOperator coverage
  | .equalityOperator => writer.renderEqualityOperator
  | .boolOperator => writer.renderBoolOperator

/-- The texts for the place where the functions go. -/
def place (writer : Writer) (renderings : Renderings) : GeneratedCode :=
  match writer.placement with
  | .inside => .inside renderings.inside
  | .apart => .apart renderings.declaration renderings.definition

/-- The code for an action. -/
def generate (writer : Writer) (action : Action) (coverage : Coverage) : GeneratedCode :=
  writer.place (writer.render action coverage)

/-! ## One method for each action -/

/-- The code of a constructor. -/
def constructor (writer : Writer) (coverage : Coverage) : GeneratedCode :=
  writer.generate .constructor coverage

/-- The code of a destructor. -/
def destructor (writer : Writer) : GeneratedCode :=
  writer.generate .destructor .all

/-- The code of a copy constructor and a copy assignment. -/
def copySemantics (writer : Writer) : GeneratedCode :=
  writer.generate .copySemantics .all

/-- The code of a move constructor and a move assignment. -/
def moveSemantics (writer : Writer) : GeneratedCode :=
  writer.generate .moveSemantics .all

/-- The code with getters. -/
def getters (writer : Writer) (coverage : Coverage) : GeneratedCode :=
  writer.generate .getters coverage

/-- The code with setters. -/
def setters (writer : Writer) (coverage : Coverage) : GeneratedCode :=
  writer.generate .setters coverage

/-- The code with getters and then setters. -/
def gettersAndSetters (writer : Writer) (coverage : Coverage) : GeneratedCode :=
  writer.generate .gettersAndSetters coverage

/-- The code of a conversion to a string. -/
def stringConversion (writer : Writer) : GeneratedCode :=
  writer.generate .stringConversion .all

/-- The code of a stream operator. -/
def streamOperator (writer : Writer) (coverage : Coverage) : GeneratedCode :=
  writer.generate .streamOperator coverage

/-- The code of an equality operator. -/
def equalityOperator (writer : Writer) : GeneratedCode :=
  writer.generate .equalityOperator .all

/-- The code of a conversion to a truth value. -/
def boolOperator (writer : Writer) : GeneratedCode :=
  writer.generate .boolOperator .all

/-- The code with everything, for all members that are not static. -/
def all (writer : Writer) : GeneratedCode :=
  writer.generate .all .all

/--
The code of the method for an action.  The coverage reaches the methods that take one; the
others cover all members that are not static.
-/
def byMethod (writer : Writer) (action : Action) (coverage : Coverage) : GeneratedCode :=
  match action with
  | .all => writer.all
  | .constructor => writer.constructor coverage
  | .destructor => writer.destructor
  | .copySemantics => writer.copySemantics
  | .moveSemantics => writer.moveSemantics
  | .getters => writer.getters coverage
  | .setters => writer.setters coverage
  | .gettersAndSetters => writer.gettersAndSetters coverage
  | .stringConversion => writer.stringConversion
  | .streamOperator => writer.streamOperator coverage
  | .equalityOperator => writer.equalityOperator
  | .boolOperator => writer.boolOperator

end Writer

end ClassOutline
