import ClassOutline.Outline
/-!
# Pieces of generated code

Lists, parameters, result types and names, as they stand in the templates of functions.  Where a
type is written, or a definition is qualified, the name of the class stands in full, as in
`geo::Grid<float>`.  Constructors and destructors are named by its own name alone, as in `Grid`.
-/

namespace ClassOutline

/-- Entries joined by commas. -/
def commaSeparated (entries : List Text) : Text :=
  [',', ' '].intercalate entries

/-- The list of initializers of a constructor with the colon in front of it; nothing if it is empty. -/
def initializerList (initializers : List Text) : Text :=
  if initializers.isEmpty then []
  else " : ".toList ++ commaSeparated initializers

namespace DataMember

/-- The parameter that passes the member under a given name. -/
def parameter (member : DataMember) (name : Text) : Text :=
  if member.byValue then member.declaredType ++ [' '] ++ name
  else "const ".toList ++ member.declaredType ++ " &".toList ++ name

/--
The type that the getter returns.  What is not passed by value is returned as constant, an array as
a pointer to constants.
-/
def getterType (member : DataMember) : Text :=
  if member.isArray then
    if "const".toList.isPrefixOf member.declaredType then member.declaredType ++ [' ']
    else "const ".toList ++ member.declaredType ++ [' ']
  else if member.byValue then member.declaredType ++ [' ']
  else "const ".toList ++ member.declaredType ++ " &".toList

end DataMember

/-- The name without enclosing scopes and template arguments. -/
def Outline.ownName (outline : Outline) : Text :=
  let name : Text := outline.name.takeWhile (· ≠ '<')
  match name.cutAtLast? [':', ':'] with
  | some (_, last) => last
  | none => name

end ClassOutline
