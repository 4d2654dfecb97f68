import ClassOutline.Code.Coverage
import ClassOutline.Code.Pieces
import ClassOutline.Code.Renderings
import ClassOutline.Code.Style
/-!
# Templates of functions

A writer generates member functions for one class.  Each kind of function has three templates, one
for each text in which it is written, and the templates are filled in one by one: nothing but their
wording makes the texts fit together.
-/

namespace ClassOutline

/-- A writer of member functions for one class. -/
structure Writer where
  /-- The class. -/
  outline : Outline
  /-- Where the functions go. -/
  placement : Placement
  /-- One level of indentation. -/
  indent : Text
deriving DecidableEq, Repr

namespace Writer

/-- The writer for a class in a style.  The functions of a template go inside in every style. -/
def ofStyle (outline : Outline) (style : Style) : Writer where
  outline
  placement := if outline.isTemplate then .inside else style.placement
  indent := style.indent

/-! ## Constructors, assignments and the destructor -/

/-- The constructor that initializes members from parameters of their names. -/
def renderConstructor (writer : Writer) (coverage : Coverage) : Renderings :=
  let indent := writer.indent
  let name := writer.outline.name
  let ownName := writer.outline.ownName
  let members := coverage.membersOf false writer.outline
  if members.isEmpty then
    { inside := "\n".toList ++ indent ++ ownName ++ "()\x7b\x7d;\n".toList
      declaration := indent ++ ownName ++ "();\n".toList
      definition := "\n".toList ++ name ++ "::".toList ++ ownName ++ "()\x7b\x7d\n".toList }
  else
    let parameters := commaSeparated (members.map fun member => member.parameter member.name)
    let initializers := initializerList (members.map fun member =>
      member.name ++ "(".toList ++ member.name ++ ")".toList)
    { inside :=
        "\n".toList ++ indent ++ ownName ++ "(".toList ++ parameters ++ ")".toList ++ initializers
          ++ "\x7b\x7d;\n".toList
      declaration := indent ++ ownName ++ "(".toList ++ parameters ++ ");\n".toList
      definition :=
        "\n".toList ++ name ++ "::".toList ++ ownName ++ "(".toList ++ parameters ++ ")".toList
          ++ initializers ++ "\x7b\x7d;\n".toList }

/-- The destructor. -/
def renderDestructor (writer : Writer) : Renderings :=
  let indent := writer.indent
  let name := writer.outline.name
  let ownName := writer.outline.ownName
  { inside := "\n".toList ++ indent ++ "~".toList ++ ownName ++ "()\x7b\x7d;\n".toList
    declaration := indent ++ "~".toList ++ ownName ++ "();\n".toList
    definition :=
      "\n".toList ++ name ++ "::~".toList ++ ownName ++ "()\x7b\x7d;\n".toList }

/-- The statements of an assignment that destroys the object and constructs it anew. -/
def assignmentBody (writer : Writer) (source outer inner : Text) : Text :=
  inner ++ "if (this == &rhs) return *this;\n".toList
    ++ inner ++ "this->~".toList ++ writer.outline.ownName ++ "();\n".toList
    ++ inner ++ "new (this) ".toList ++ writer.outline.name ++ "(".toList ++ source
    ++ ");\n".toList
    ++ inner ++ "return *this;\n".toList
    ++ outer ++ "\x7d\n".toList

/-- A constructor from another object, and the assignment that constructs the object anew from it. -/
def renderSemantics (writer : Writer) (parameter initializers source : Text) : Renderings :=
  let indent := writer.indent
  let name := writer.outline.name
  let ownName := writer.outline.ownName
  { inside :=
      "\n".toList ++ indent ++ ownName ++ "(".toList ++ parameter ++ ")".toList ++ initializers
        ++ "\x7b\x7d;\n\n".toList ++ indent ++ name ++ " &operator=(".toList ++ parameter
        ++ ") \x7b\n".toList ++ writer.assignmentBody source indent (indent ++ indent)
    declaration :=
      indent ++ ownName ++ "(".toList ++ parameter ++ ");\n".toList
        ++ indent ++ name ++ " &operator=(".toList ++ parameter ++ ");\n".toList
    definition :=
      "\n".toList ++ name ++ "::".toList ++ ownName ++ "(".toList ++ parameter ++ ")".toList
        ++ initializers ++ "\x7b\x7d;\n\n".toList ++ name ++ " &".toList ++ name
        ++ "::operator=(".toList ++ parameter ++ ") \x7b\n".toList
        ++ writer.assignmentBody source [] indent }

/-- The copy constructor and the copy assignment. -/
def renderCopySemantics (writer : Writer) : Renderings :=
  let initializers := initializerList (writer.outline.instanceMembers.map fun member =>
    member.name ++ "(rhs.".toList ++ member.name ++ ")".toList)
  writer.renderSemantics ("const ".toList ++ writer.outline.name ++ " &rhs".toList) initializers
    "rhs".toList

/-- The move constructor and the move assignment. -/
def renderMoveSemantics (writer : Writer) : Renderings :=
  let initializers := initializerList (writer.outline.instanceMembers.map fun member =>
    member.name ++ "(std::move(rhs.".toList ++ member.name ++ "))".toList)
  writer.renderSemantics (writer.outline.name ++ " &&rhs".toList) initializers
    "std::move(rhs)".toList

/-! ## Accessors -/

/-- The function that returns a member. -/
def renderGetter (writer : Writer) (member : DataMember) : Renderings :=
  let indent := writer.indent
  let name := writer.outline.name
  let result := member.getterType
  let accessor := "get".toList ++ member.accessorName ++ "() const".toList
  let body := "\x7b return ".toList ++ member.name ++ "; \x7d".toList
  { inside :=
      "\n".toList ++ indent ++ result ++ accessor ++ " ".toList ++ body ++ "\n".toList
    declaration := indent ++ result ++ accessor ++ ";\n".toList
    definition :=
      "\n".toList ++ result ++ name ++ "::".toList ++ accessor ++ " ".toList ++ body
        ++ "\n".toList }

/-- The function that assigns a member. -/
def renderSetter (writer : Writer) (member : DataMember) : Renderings :=
  let indent := writer.indent
  let name := writer.outline.name
  let signature :=
    "set".toList ++ member.accessorName ++ "(".toList ++ member.parameter "val".toList
      ++ ")".toList
  let target :=
    if member.isStatic then name ++ "::".toList ++ member.name
    else "this->".toList ++ member.name
  let body := "\x7b ".toList ++ target ++ " = val; \x7d".toList
  { inside :=
      "\n".toList ++ indent ++ "void ".toList ++ signature ++ " ".toList ++ body ++ "\n".toList
    declaration := indent ++ "void ".toList ++ signature ++ ";\n".toList
    definition :=
      "\nvoid ".toList ++ name ++ "::".toList ++ signature ++ " ".toList ++ body
        ++ "\n".toList }

/-- The getters of the covered members, if they are wanted, and behind them the setters. -/
def renderAccessors (writer : Writer) (coverage : Coverage) (getters setters : Bool) :
    Renderings :=
  let members := coverage.membersOf true writer.outline
  let written : Renderings :=
    if getters then members.foldl (fun written member => written ++ writer.renderGetter member) {}
    else {}
  if setters then
    members.foldl (fun written member => written ++ writer.renderSetter member) written
  else written

/-! ## Conversions and operators -/

/-- The statements of the conversion to a string. -/
def conversionBody (outer inner : Text) : Text :=
  inner ++ "std::ostringstream os;\n".toList
    ++ inner ++ "os << *this;\n".toList
    ++ inner ++ "return os.str();\n".toList
    ++ outer ++ "\x7d\n".toList

/-- The conversion to a string. -/
def renderStringConversion (writer : Writer) : Renderings :=
  let indent := writer.indent
  let name := writer.outline.name
  { inside :=
      "\n".toList ++ indent ++ "std::string toString() const \x7b\n".toList
        ++ conversionBody indent (indent ++ indent)
    declaration := indent ++ "std::string toString() const;\n".toList
    definition :=
      "\nstd::string ".toList ++ name ++ "::toString() const \x7b\n".toList
        ++ conversionBody [] indent }

/-- The operator that writes the name of the class and the values of members to a stream. -/
def renderStreamOperator (writer : Writer) (coverage : Coverage) : Renderings :=
  let indent := writer.indent
  let name := writer.outline.name
  let values := commaSeparated ((coverage.membersOf true writer.outline).map fun member =>
    member.name ++ "=\" << obj.".toList ++ member.name ++ " << \"".toList)
  let statement := "return os << \"".toList ++ name ++ " [".toList ++ values ++ "]\";".toList
  let signature :=
    "std::ostream &operator<<(std::ostream &os, const ".toList ++ name ++ " &obj)".toList
  { inside :=
      "\n".toList ++ indent ++ "friend ".toList ++ signature ++ " \x7b\n".toList ++ indent ++ indent
        ++ statement ++ "\n".toList ++ indent ++ "\x7d\n".toList
    declaration := indent ++ "friend ".toList ++ signature ++ ";\n".toList
    definition :=
      "\n".toList ++ signature ++ " \x7b\n".toList ++ indent ++ statement ++ "\n\x7d\n".toList }

/-- The equality operator. -/
def renderEqualityOperator (writer : Writer) : Renderings :=
  let indent := writer.indent
  let name := writer.outline.name
  { inside :=
      "\n".toList ++ indent ++ "bool operator==(const ".toList ++ name
        ++ " &rhs) const \x7b return false; \x7d\n".toList
    declaration := indent ++ "bool operator==(const ".toList ++ name ++ " &rhs) const;\n".toList
    definition :=
      "\nbool ".toList ++ name ++ "::operator==(const ".toList ++ name
        ++ " &rhs) const \x7b return false; \x7d\n".toList }

/-- The conversion to a truth value. -/
def renderBoolOperator (writer : Writer) : Renderings :=
  let indent := writer.indent
  let name := writer.outline.name
  { inside :=
      "\n".toList ++ indent ++ "explicit operator bool() const \x7b return true; \x7d\n".toList
    declaration := indent ++ "explicit operator bool() const;\n".toList
    definition :=
      "\n".toList ++ name ++ "::operator bool() const \x7b return true; \x7d\n".toList }

end Writer

end ClassOutline
