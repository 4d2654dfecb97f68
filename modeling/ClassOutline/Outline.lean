import ClassOutline.Text.Capital
/-!
# Class outlines

What is recovered of a class declaration: its name, the template clause above it, its base classes,
its data members and the lines it covers.  An outline owns its texts; nothing in it refers back to
the source.
-/

namespace ClassOutline

/-! ## Base classes -/

/-- How a base class is inherited. -/
inductive Access where
  /-- Inherited as `public`, also when nothing is written. -/
  | publicly
  /-- Inherited as `protected`. -/
  | protectedly
  /-- Inherited as `private`. -/
  | privately
deriving DecidableEq, Repr

namespace Access

instance : Inhabited Access := ⟨.publicly⟩

/-- The word that is written for an access. -/
def word : Access → Text
  | .publicly => "public".toList
  | .protectedly => "protected".toList
  | .privately => "private".toList

/-- The accesses. -/
def all : List Access :=
  [.publicly, .protectedly, .privately]

end Access

/-- An entry of the list of base classes. -/
structure Base where
  /-- The name, with template arguments. -/
  name : Text
  /-- How the base is inherited. -/
  access : Access := default
  /-- Whether the base is inherited virtually. -/
  isVirtual : Bool := false
deriving DecidableEq, Repr

/-! ## Data members -/

/-- A data member of a class. -/
structure DataMember where
  /-- The name, without the marks of a pointer, a reference or an array. -/
  name : Text
  /--
  The text of the type.  It ends with the mark that the declarator adds; an array is written as a
  pointer.
  -/
  declaredType : Text
  /-- Whether the member is declared `static`. -/
  isStatic : Bool := false
  /-- Whether accessors may pass the member by value. -/
  byValue : Bool := false
  /-- Whether the member is declared with an array extent. -/
  isArray : Bool := false
deriving DecidableEq, Repr

namespace DataMember

/-- The name as it ends the name of an accessor: with its first character in capital form. -/
def accessorName (member : DataMember) : Text :=
  member.name.capitalize

end DataMember

/-! ## Outlines -/

/-- The outline of a class declaration. -/
structure Outline where
  /-- The name as written, with the template arguments of a specialization. -/
  name : Text
  /-- The template clause above the declaration; empty if there is none. -/
  templateClause : Text := []
  /-- The base classes, in order of declaration. -/
  bases : List Base := []
  /-- The data members, in order of declaration. -/
  members : List DataMember := []
  /-- The line of the declaring word, counted from zero. -/
  startLine : Nat
  /-- The line of the closing brace, counted from zero. -/
  endLine : Nat
deriving DecidableEq, Repr

namespace Outline

/-- The bare outline of a class on given lines.  It ends no earlier than it starts. -/
def onLines (name : Text) (startLine endLine : Nat) : Outline where
  name := name
  startLine := startLine
  endLine := max endLine startLine

/-- Whether the class is declared with a template clause. -/
def isTemplate (outline : Outline) : Bool :=
  !outline.templateClause.isEmpty

/-- Whether a line lies in the declaration. -/
def coversLine (outline : Outline) (line : Nat) : Bool :=
  outline.startLine ≤ line && line ≤ outline.endLine

/-- The members that are not static, in order of declaration. -/
def instanceMembers (outline : Outline) : List DataMember :=
  outline.members.filter fun member => !member.isStatic

/-- The first member with a given name. -/
def member? (outline : Outline) (name : Text) : Option DataMember :=
  outline.members.find? fun member => member.name = name

end Outline

end ClassOutline
