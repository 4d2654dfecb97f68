import ClassOutline.Code.Writer
/-!
# Functions and their forms

A generated function is a signature and a body.  It is written in one of three forms: complete in
the body of the class, as a declaration there, or as a definition behind the class.

For each action there is a list of such functions, which depends on the class and the coverage alone.
The templates are worded without it; that what is filled into them are the forms of its functions is
a theorem about the templates.
-/

namespace ClassOutline

/-- The body of a generated function. -/
inductive FunctionBody where
  /--
  No statements.  Inside the class a semicolon follows the braces; `closed` tells whether one does
  behind the class too.
  -/
  | empty (closed : Bool)
  /-- A statement on the line of the signature. -/
  | line (statement : Text)
  /-- Statements on lines of their own. -/
  | block (statements : List Text)
deriving DecidableEq, Repr

/-- A generated function. -/
structure GeneratedFunction where
  /-- A word in front of the signature that stands inside the class only. -/
  specifier : Text := []
  /-- The result type, up to the name of the function. -/
  result : Text := []
  /-- Whether the function is a member of the class, whose name then qualifies its own name. -/
  isMember : Bool := true
  /-- The name, the parameters and the qualifiers behind them. -/
  declarator : Text
  /-- The initializers of members, as `member(value)`. -/
  initializers : List Text := []
  /-- The body. -/
  body : FunctionBody
deriving DecidableEq, Repr

namespace FunctionBody

/-- The text of a body between the signature, indented by `outer`, and the end of the line. -/
def render (isInside : Bool) (outer inner : Text) : FunctionBody → Text
  | .empty closed => "\x7b\x7d".toList ++ if isInside || closed then [';'] else []
  | .line statement => " \x7b ".toList ++ statement ++ " \x7d".toList
  | .block statements =>
    " \x7b\n".toList ++ (statements.flatMap fun statement => inner ++ statement ++ ['\n'])
      ++ outer ++ "\x7d".toList

end FunctionBody

namespace GeneratedFunction

/-- The signature as it is written in the body of the class. -/
def signature (function : GeneratedFunction) : Text :=
  function.specifier ++ function.result ++ function.declarator

/-- The list of initializers, with the colon in front of it. -/
def initializerClause (function : GeneratedFunction) : Text :=
  initializerList function.initializers

/-- The complete function in the body of the class. -/
def inside (indent : Text) (function : GeneratedFunction) : Text :=
  ['\n'] ++ indent ++ function.signature ++ function.initializerClause
    ++ function.body.render true indent (indent ++ indent) ++ ['\n']

/-- The declaration in the body of the class. -/
def declaration (indent : Text) (function : GeneratedFunction) : Text :=
  indent ++ function.signature ++ [';', '\n']

/-- The definition behind the class of a given name. -/
def definition (className indent : Text) (function : GeneratedFunction) : Text :=
  ['\n'] ++ function.result
    ++ (if function.isMember then className ++ [':', ':'] else [])
    ++ function.declarator ++ function.initializerClause
    ++ function.body.render false [] indent ++ ['\n']

end GeneratedFunction

/-! ## Functions of one data member -/

namespace DataMember

/-- The initializer of the member. -/
def initializer (member : DataMember) (value : Text) : Text :=
  member.name ++ ['('] ++ value ++ [')']

/-- The function that returns the member. -/
def getter (member : DataMember) : GeneratedFunction where
  result := member.getterType
  declarator := "get".toList ++ member.accessorName ++ "() const".toList
  body := .line ("return ".toList ++ member.name ++ [';'])

/-- The function that assigns the member of a class. -/
def setter (outline : Outline) (member : DataMember) : GeneratedFunction where
  result := "void ".toList
  declarator :=
    "set".toList ++ member.accessorName ++ ['('] ++ member.parameter "val".toList ++ [')']
  body :=
    let owner := if member.isStatic then outline.name ++ "::".toList else "this->".toList
    .line (owner ++ member.name ++ " = val;".toList)

end DataMember

namespace Outline

/-! ## Constructors, assignments and the destructor -/

/-- The constructor that initializes members from parameters of their names. -/
def constructor (outline : Outline) (members : List DataMember) : GeneratedFunction where
  declarator :=
    outline.ownName ++ ['(']
      ++ commaSeparated (members.map fun member => member.parameter member.name) ++ [')']
  initializers := members.map fun member => member.initializer member.name
  body := .empty !members.isEmpty

/-- The destructor. -/
def destructor (outline : Outline) : GeneratedFunction where
  declarator := ['~'] ++ outline.ownName ++ "()".toList
  body := .empty true

/--
A constructor from another object and the assignment that destroys the object and constructs it
anew.  `source` writes the value that is taken over from a part of the other object.
-/
def semantics (outline : Outline) (otherParameter : Text) (source : Text → Text) :
    List GeneratedFunction :=
  let other := "rhs".toList
  let arguments := ['('] ++ otherParameter ++ [')']
  [{ declarator := outline.ownName ++ arguments
     initializers := outline.instanceMembers.map fun member =>
       member.initializer (source (other ++ ['.'] ++ member.name))
     body := .empty true },
    { result := outline.name ++ " &".toList
      declarator := "operator=".toList ++ arguments
      body := .block
        ["if (this == &rhs) return *this;".toList,
          "this->~".toList ++ outline.ownName ++ "();".toList,
          "new (this) ".toList ++ outline.name ++ ['('] ++ source other ++ ");".toList,
          "return *this;".toList] }]

/-- The copy constructor and the copy assignment. -/
def copySemantics (outline : Outline) : List GeneratedFunction :=
  outline.semantics ("const ".toList ++ outline.name ++ " &rhs".toList) id

/-- The move constructor and the move assignment. -/
def moveSemantics (outline : Outline) : List GeneratedFunction :=
  outline.semantics (outline.name ++ " &&rhs".toList) fun part =>
    "std::move(".toList ++ part ++ [')']

/-! ## Conversions and operators -/

/-- The conversion to a string. -/
def stringConversion : GeneratedFunction where
  result := "std::string ".toList
  declarator := "toString() const".toList
  body := .block
    ["std::ostringstream os;".toList, "os << *this;".toList, "return os.str();".toList]

/-- The operator that writes the name of the class and the values of members to a stream. -/
def streamOperator (outline : Outline) (members : List DataMember) : GeneratedFunction where
  specifier := "friend ".toList
  result := "std::ostream &".toList
  isMember := false
  declarator :=
    "operator<<(std::ostream &os, const ".toList ++ outline.name ++ " &obj)".toList
  body :=
    let values := members.map fun member =>
      member.name ++ "=\" << obj.".toList ++ member.name ++ " << \"".toList
    .block
      ["return os << \"".toList ++ outline.name ++ " [".toList ++ commaSeparated values
        ++ "]\";".toList]

/-- The equality operator. -/
def equalityOperator (outline : Outline) : GeneratedFunction where
  result := "bool ".toList
  declarator := "operator==(const ".toList ++ outline.name ++ " &rhs) const".toList
  body := .line "return false;".toList

/-- The conversion to a truth value. -/
def boolOperator : GeneratedFunction where
  specifier := "explicit ".toList
  declarator := "operator bool() const".toList
  body := .line "return true;".toList

/-! ## Actions -/

/-- The functions that an action other than `all` generates, in order. -/
def partFunctions (outline : Outline) (coverage : Coverage) :
    Action → List GeneratedFunction
  | .all => []
  | .constructor => [outline.constructor (coverage.membersOf false outline)]
  | .destructor => [outline.destructor]
  | .copySemantics => outline.copySemantics
  | .moveSemantics => outline.moveSemantics
  | .getters => (coverage.membersOf true outline).map DataMember.getter
  | .setters => (coverage.membersOf true outline).map (DataMember.setter outline)
  | .gettersAndSetters =>
    (coverage.membersOf true outline).map DataMember.getter
      ++ (coverage.membersOf true outline).map (DataMember.setter outline)
  | .stringConversion => [stringConversion]
  | .streamOperator => [outline.streamOperator (coverage.membersOf true outline)]
  | .equalityOperator => [outline.equalityOperator]
  | .boolOperator => [boolOperator]

/-- The actions that make up the action `all`, in order. -/
def partsOfAll : List Action :=
  [.constructor, .destructor, .copySemantics, .moveSemantics, .gettersAndSetters,
    .stringConversion, .streamOperator, .equalityOperator, .boolOperator]

/-- The functions that an action generates, in order. -/
def functions (outline : Outline) (action : Action) (coverage : Coverage) :
    List GeneratedFunction :=
  if action = .all then partsOfAll.flatMap (outline.partFunctions .all)
  else outline.partFunctions coverage action

end Outline

/-! ## Their code -/

/-- The renderings of functions in a given order. -/
def Renderings.ofFunctions (className indent : Text) (functions : List GeneratedFunction) :
    Renderings where
  inside := functions.flatMap (·.inside indent)
  declaration := functions.flatMap (·.declaration indent)
  definition := functions.flatMap (·.definition className indent)

/-- The code for functions in a given order. -/
def Writer.code (writer : Writer) (functions : List GeneratedFunction) : GeneratedCode :=
  match writer.placement with
  | .inside => .inside (functions.flatMap (·.inside writer.indent))
  | .apart =>
    .apart (functions.flatMap (·.declaration writer.indent))
      (functions.flatMap (·.definition writer.outline.name writer.indent))

end ClassOutline
