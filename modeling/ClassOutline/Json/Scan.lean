import ClassOutline.Json.Outline
import ClassOutline.Scan.Project
/-!
# Scans as JSON

The time of a scan is written in whole milliseconds, as a number of 64 bits.
-/

namespace ClassOutline

namespace Tally

/-- The keys of the written form, in order. -/
def keys : List String :=
  ["blocks_found", "classes_extracted", "classes_rejected", "fields_extracted", "lines_skipped"]

/-- The written form of a tally. -/
def toJson (tally : Tally) : Json :=
  .object
    [("blocks_found".toList, .natural tally.blocks),
      ("classes_extracted".toList, .natural tally.classes),
      ("classes_rejected".toList, .natural tally.rejected),
      ("fields_extracted".toList, .natural tally.members),
      ("lines_skipped".toList, .natural tally.unresolved)]

/-- Reads a tally. -/
def ofJson? (json : Json) : Option Tally := do
  let record ← json.asRecord? keys 0
  let blocks ← record.readEntry "blocks_found" Json.readNatural
  let classes ← record.readEntry "classes_extracted" Json.readNatural
  let rejected ← record.readEntry "classes_rejected" Json.readNatural
  let members ← record.readEntry "fields_extracted" Json.readNatural
  let unresolved ← record.readEntry "lines_skipped" Json.readNatural
  return { blocks, classes, rejected, members, unresolved }

end Tally

namespace ScanOptions

/-- The keys of the written form, in order. -/
def keys : List String :=
  ["max_source_size", "skip_static_fields", "parallel", "parallel_workers"]

/-- The written form of options. -/
def toJson (options : ScanOptions) : Json :=
  .object
    [("max_source_size".toList, .natural options.sizeLimit),
      ("skip_static_fields".toList, .bool options.skipStatic),
      ("parallel".toList, .bool options.parallel),
      ("parallel_workers".toList, (options.workers.map Json.natural).getD .null)]

/-- Reads options.  The number of workers may be left out. -/
def ofJson? (json : Json) : Option ScanOptions := do
  let record ← json.asRecord? keys 0
  let sizeLimit ← record.readEntry "max_source_size" Json.readNatural
  let skipStatic ← record.readEntry "skip_static_fields" Json.readBool
  let parallel ← record.readEntry "parallel" Json.readBool
  let workers ← record.readEntryD "parallel_workers" (Json.readOptional Json.readNatural) none
  return { sizeLimit, skipStatic, parallel, workers }

end ScanOptions

namespace FileScan

/-- The nanoseconds of a millisecond. -/
def millisecond : Nat := 1000000

/-- The number of the values that 64 bits can have. -/
def timeLimit : Nat := 18446744073709551616

/-- The time in whole milliseconds, of which the lowest 64 bits are kept. -/
def milliseconds (scan : FileScan) : Nat :=
  scan.elapsed / millisecond % timeLimit

/-- The keys of the written form, in order. -/
def keys : List String :=
  ["file_path", "classes", "metrics", "extract_time", "line_count", "byte_count"]

/-- The written form of the scan of a file. -/
def toJson (scan : FileScan) : Json :=
  .object
    [("file_path".toList, .text scan.path),
      ("classes".toList, Json.list Outline.toJson scan.outlines),
      ("metrics".toList, scan.tally.toJson),
      ("extract_time".toList, .natural scan.milliseconds),
      ("line_count".toList, .natural scan.lineCount),
      ("byte_count".toList, .natural scan.byteCount)]

/-- Reads the scan of a file. -/
def ofJson? (json : Json) : Option FileScan := do
  let record ← json.asRecord? keys 0
  let path ← record.readEntry "file_path" Json.readText
  let outlines ← record.readEntry "classes" (Json.readList Outline.ofJson?)
  let tally ← record.readEntry "metrics" Tally.ofJson?
  let milliseconds ← record.readEntry "extract_time" Json.readNatural
  let lineCount ← record.readEntry "line_count" Json.readNatural
  let byteCount ← record.readEntry "byte_count" Json.readNatural
  return { path, outlines, tally, elapsed := milliseconds * millisecond, lineCount, byteCount }

end FileScan

namespace Project

/-- The keys of the written form, in order. -/
def keys : List String :=
  ["files", "failed_files"]

/-- The written form of a path and the message for it. -/
def failureToJson : Text × Text → Json
  | (path, message) => .array [.text path, .text message]

/-- The written form of a project. -/
def toJson (project : Project) : Json :=
  .object
    [("files".toList, Json.list FileScan.toJson project.files),
      ("failed_files".toList, Json.list failureToJson project.failures)]

/-- Reads a project. -/
def ofJson? (json : Json) : Option Project := do
  let record ← json.asRecord? keys 0
  let files ← record.readEntry "files" (Json.readList FileScan.ofJson?)
  let failures ←
    record.readEntry "failed_files" (Json.readList (Json.readPair Json.readText Json.readText))
  return { files, failures }

end Project

end ClassOutline
