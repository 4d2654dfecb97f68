import ClassOutline.Code.Action
import ClassOutline.Code.Basic
import ClassOutline.Code.Coverage
import ClassOutline.Code.Style
import ClassOutline.Json.Basic
/-!
# Generated code as JSON

A value with alternatives is written as an object whose only key names the alternative, or as a word
where nothing belongs to it.  The two texts of code that stands apart are read from an object only.
-/

namespace ClassOutline

namespace Json

/-- Reads an object with a single key: the key and its value. -/
def readAlternative : Json → Option (Text × Json)
  | .object [(name, value)] => some (name, value)
  | _ => none

end Json

namespace Placement

/-- The word that is written for a placement. -/
def word : Placement → Text
  | .inside => "inline".toList
  | .apart => "out_of_line".toList

/-- The written form of a placement. -/
def toJson (placement : Placement) : Json :=
  .text placement.word

/-- Reads a placement. -/
def ofJson? : Json → Option Placement :=
  Json.readWord [.inside, .apart] word

end Placement

namespace Style

/-- The keys of the written form, in order. -/
def keys : List String :=
  ["placement", "indent"]

/-- The written form of a style. -/
def toJson (style : Style) : Json :=
  .object
    [("placement".toList, style.placement.toJson),
      ("indent".toList, .text style.indent)]

/-- Reads a style.  A key that is left out has the value of the standard style. -/
def ofJson? (json : Json) : Option Style := do
  let record ← json.asRecord? keys keys.length
  let placement ← record.readEntryD "placement" Placement.ofJson? ({} : Style).placement
  let indent ← record.readEntryD "indent" Json.readText ({} : Style).indent
  return { placement, indent }

end Style

namespace Action

/-- The word that is written for an action. -/
def word : Action → Text
  | .all => "all".toList
  | .constructor => "constructor".toList
  | .destructor => "destructor".toList
  | .copySemantics => "copy_semantics".toList
  | .moveSemantics => "move_semantics".toList
  | .getters => "getters".toList
  | .setters => "setters".toList
  | .gettersAndSetters => "getters_and_setters".toList
  | .stringConversion => "to_string".toList
  | .streamOperator => "stream_operator".toList
  | .equalityOperator => "equality_operator".toList
  | .boolOperator => "bool_operator".toList

/-- The written form of an action. -/
def toJson (action : Action) : Json :=
  .text action.word

/-- Reads an action. -/
def ofJson? : Json → Option Action :=
  Json.readWord menu word

end Action

namespace Coverage

/-- The written form of a coverage. -/
def toJson : Coverage → Json
  | .all => .text "All".toList
  | .named names => .object [("Named".toList, Json.list Json.text names)]

/-- Reads a coverage. -/
def ofJson? (json : Json) : Option Coverage :=
  if json.word? = some "All".toList then some .all
  else do
    let (name, value) ← json.readAlternative
    if name = "Named".toList then
      return .named (← Json.readList Json.readText value)
    else none

end Coverage

namespace GeneratedCode

/-- The written form of a code. -/
def toJson : GeneratedCode → Json
  | .inside text => .object [("Inline".toList, .text text)]
  | .apart declaration definition =>
    .object
      [("OutOfLine".toList,
        .object
          [("declaration".toList, .text declaration),
            ("definition".toList, .text definition)])]

/-- Reads a code. -/
def ofJson? (json : Json) : Option GeneratedCode := do
  let (name, value) ← json.readAlternative
  if name = "Inline".toList then
    return .inside (← value.readText)
  else if name = "OutOfLine".toList then
    let declaration ← value.readEntry "declaration" Json.readText
    let definition ← value.readEntry "definition" Json.readText
    return .apart declaration definition
  else none

end GeneratedCode

namespace Insertion

/-- The keys of the written form, in order. -/
def keys : List String :=
  ["line", "text"]

/-- The written form of an insertion. -/
def toJson (insertion : Insertion) : Json :=
  .object
    [("line".toList, .natural insertion.line),
      ("text".toList, .text insertion.text)]

/-- Reads an insertion. -/
def ofJson? (json : Json) : Option Insertion := do
  let record ← json.asRecord? keys 0
  let line ← record.readEntry "line" Json.readNatural
  let text ← record.readEntry "text" Json.readText
  return { line, text }

end Insertion

end ClassOutline
