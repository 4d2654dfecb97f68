import ClassOutline.Text.Basic
/-!
# Actions

The kinds of member functions that can be generated.
-/

namespace ClassOutline

/-- What is to be generated. -/
inductive Action where
  /-- Everything below, for all members that are not static. -/
  | all
  /-- A constructor that initializes members from its parameters. -/
  | constructor
  /-- A destructor. -/
  | destructor
  /-- A copy constructor and a copy assignment. -/
  | copySemantics
  /-- A move constructor and a move assignment. -/
  | moveSemantics
  /-- Functions that return members. -/
  | getters
  /-- Functions that assign members. -/
  | setters
  /-- The getters and then the setters. -/
  | gettersAndSetters
  /-- A conversion to a string by means of the stream operator. -/
  | stringConversion
  /-- An operator that writes the object to a stream. -/
  | streamOperator
  /-- An equality operator. -/
  | equalityOperator
  /-- A conversion to a truth value. -/
  | boolOperator
deriving DecidableEq, Repr

namespace Action

/-- The actions, in the order of a menu. -/
def menu : List Action :=
  [.all, .constructor, .destructor, .copySemantics, .moveSemantics, .getters, .setters,
    .gettersAndSetters, .stringConversion, .streamOperator, .equalityOperator, .boolOperator]

/-- The title of an action in a menu. -/
def title : Action → Text
  | .all => "Generate All".toList
  | .constructor => "Generate Constructors".toList
  | .destructor => "Generate Destructors".toList
  | .copySemantics => "Generate Copy Semantics".toList
  | .moveSemantics => "Generate Move Semantics".toList
  | .getters => "Generate Getters".toList
  | .setters => "Generate Setters".toList
  | .gettersAndSetters => "Generate Getters And Setters".toList
  | .stringConversion => "Generate ToString".toList
  | .streamOperator => "Generate operator<<".toList
  | .equalityOperator => "Generate operator==".toList
  | .boolOperator => "Generate operator bool()".toList

/-- Whether an action depends on the selected members. -/
def usesCoverage : Action → Bool
  | .constructor | .getters | .setters | .gettersAndSetters | .streamOperator => true
  | _ => false

end Action

end ClassOutline
