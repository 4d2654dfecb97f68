import ClassOutline.Json.Basic
import ClassOutline.Outline
/-!
# Outlines as JSON
-/

namespace ClassOutline

namespace Access

/-- The written form of an access. -/
def toJson (access : Access) : Json :=
  .text access.word

/-- Reads an access. -/
def ofJson? : Json → Option Access :=
  Json.readWord all word

end Access

namespace Base

/-- The keys of the written form, in order. -/
def keys : List String :=
  ["name", "access", "is_virtual"]

/-- The written form of a base class. -/
def toJson (base : Base) : Json :=
  .object
    [("name".toList, .text base.name),
      ("access".toList, base.access.toJson),
      ("is_virtual".toList, .bool base.isVirtual)]

/-- Reads a base class. -/
def ofJson? (json : Json) : Option Base := do
  let record ← json.asRecord? keys 0
  let name ← record.readEntry "name" Json.readText
  let access ← record.readEntry "access" Access.ofJson?
  let isVirtual ← record.readEntry "is_virtual" Json.readBool
  return { name, access, isVirtual }

end Base

namespace DataMember

/-- The keys of the written form, in order. -/
def keys : List String :=
  ["name", "declared_type", "is_static", "is_fundamental", "is_array"]

/-- The written form of a data member. -/
def toJson (member : DataMember) : Json :=
  .object
    [("name".toList, .text member.name),
      ("declared_type".toList, .text member.declaredType),
      ("is_static".toList, .bool member.isStatic),
      ("is_fundamental".toList, .bool member.byValue),
      ("is_array".toList, .bool member.isArray)]

/-- Reads a data member. -/
def ofJson? (json : Json) : Option DataMember := do
  let record ← json.asRecord? keys 0
  let name ← record.readEntry "name" Json.readText
  let declaredType ← record.readEntry "declared_type" Json.readText
  let isStatic ← record.readEntry "is_static" Json.readBool
  let byValue ← record.readEntry "is_fundamental" Json.readBool
  let isArray ← record.readEntry "is_array" Json.readBool
  return { name, declaredType, isStatic, byValue, isArray }

end DataMember

namespace Outline

/-- The keys of the written form, in order. -/
def keys : List String :=
  ["name", "template_preamble", "bases", "fields", "start_line", "end_line"]

/-- The written form of an outline. -/
def toJson (outline : Outline) : Json :=
  .object
    [("name".toList, .text outline.name),
      ("template_preamble".toList, .text outline.templateClause),
      ("bases".toList, Json.list Base.toJson outline.bases),
      ("fields".toList, Json.list DataMember.toJson outline.members),
      ("start_line".toList, .natural outline.startLine),
      ("end_line".toList, .natural outline.endLine)]

/-- Reads an outline. -/
def ofJson? (json : Json) : Option Outline := do
  let record ← json.asRecord? keys 0
  let name ← record.readEntry "name" Json.readText
  let templateClause ← record.readEntry "template_preamble" Json.readText
  let bases ← record.readEntry "bases" (Json.readList Base.ofJson?)
  let members ← record.readEntry "fields" (Json.readList DataMember.ofJson?)
  let startLine ← record.readEntry "start_line" Json.readNatural
  let endLine ← record.readEntry "end_line" Json.readNatural
  return { name, templateClause, bases, members, startLine, endLine }

end Outline

end ClassOutline
