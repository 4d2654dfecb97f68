import ClassOutline.Scan.Basic
import ClassOutline.Scan.FileSystem
/-!
# Projects

A project is the result of scanning a list of files.  The files that could be scanned and those
that could not are listed apart, each in the order of the paths.
-/

namespace ClassOutline

/-- The result of scanning a file. -/
structure FileScan where
  /-- The path of the file. -/
  path : Text
  /-- The outlines, in order. -/
  outlines : List Outline
  /-- What was counted. -/
  tally : Tally
  /-- The time that the scan took, in nanoseconds. -/
  elapsed : Nat
  /-- The number of lines of the file. -/
  lineCount : Nat
  /-- The number of bytes of the file. -/
  byteCount : Nat
deriving DecidableEq, Repr

namespace FileScan

/-- The number of data members of all outlines. -/
def memberCount (scan : FileScan) : Nat :=
  (scan.outlines.flatMap Outline.members).length

/-- The text of which bytes are the UTF-8 form. -/
def decode? (content : List UInt8) : Option Text :=
  (String.fromUTF8? ⟨content.toArray⟩).map String.toList

/-- The scan of the text of a file. -/
def ofText (options : ScanOptions) (path text : Text) : FileScan :=
  let scan := Scan.ofSource options text
  { path
    outlines := scan.outlines
    tally := scan.tally
    elapsed := 0
    lineCount := text.lines.length
    byteCount := text.width }

/-- The scan of the file at a path.  The size of the file is looked at before its content. -/
def ofPath (options : ScanOptions) (system : FileSystem) (path : Text) :
    Except Failure FileScan :=
  match system.entry path with
  | .error cause => .error (.unreadable path cause)
  | .ok (.directory size) =>
    if options.sizeLimit < size then .error (.tooLarge path size)
    else .error (.unreadable path .directory)
  | .ok (.file content) =>
    if options.sizeLimit < content.length then .error (.tooLarge path content.length)
    else
      match decode? content with
      | some text => .ok (ofText options path text)
      | none => .error (.unreadable path .notText)

end FileScan

/-- The result of scanning a list of files. -/
structure Project where
  /-- The files that were scanned. -/
  files : List FileScan := []
  /-- The paths of the files that could not be scanned, with the messages. -/
  failures : List (Text × Text) := []
deriving DecidableEq, Repr

namespace Project

/-- The number of files, scanned or not. -/
def fileCount (project : Project) : Nat :=
  project.files.length + project.failures.length

/-- The number of outlines of all files. -/
def classCount (project : Project) : Nat :=
  (project.files.flatMap FileScan.outlines).length

/-- The part of the files that was scanned, from 0 to 1; it is 0 if there is no file. -/
def scannedShare (project : Project) : Float :=
  if project.fileCount = 0 then 0
  else Float.ofNat project.files.length / Float.ofNat project.fileCount

/-- The counts of all scanned files together. -/
def tally (project : Project) : Tally :=
  project.files.foldl (fun total file => total + file.tally) {}

/-- The project with the outcome for one more path. -/
def record (project : Project) (path : Text) (outcome : Except Failure FileScan) : Project :=
  match outcome with
  | .ok file => { project with files := project.files ++ [file] }
  | .error failure => { project with failures := project.failures ++ [(path, failure.message)] }

/-- Scans files one after the other. -/
def inSequence (options : ScanOptions) (system : FileSystem) (paths : List Text) : Project :=
  paths.foldl (fun project path => project.record path (FileScan.ofPath options system path)) {}

/-- Scans all files first, each by itself, and then records the outcomes in the order of paths. -/
def inParallel (options : ScanOptions) (system : FileSystem) (paths : List Text) : Project :=
  let outcomes := paths.map fun path => (path, FileScan.ofPath options system path)
  outcomes.foldl (fun project (path, outcome) => project.record path outcome) {}

/--
Scans files as the options ask for.  Workers may be refused; the files are then scanned one after
the other.
-/
def ofPaths (options : ScanOptions) (hasWorkers : Bool) (system : FileSystem)
    (paths : List Text) : Project :=
  if options.parallel && hasWorkers then inParallel options system paths
  else inSequence options system paths

end Project

end ClassOutline
