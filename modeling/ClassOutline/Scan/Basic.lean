import ClassOutline.ClassHead
import ClassOutline.Mask.Friend
import ClassOutline.Member.Body
import ClassOutline.Scan.Caret
import ClassOutline.Scan.Options
import ClassOutline.Scan.Tally
/-!
# Scans

A scan outlines the classes that a source declares, in order, and counts what it saw.  A block with
a malformed head adds to the counts but not to the outlines, so every source has a scan.
-/

namespace ClassOutline

/-- The result of scanning a source. -/
structure Scan where
  /-- The outlines, in order. -/
  outlines : List Outline := []
  /-- What was counted. -/
  tally : Tally := {}
deriving DecidableEq, Repr

namespace Scan

/-- The scan with one more outline at the end. -/
def add (scan : Scan) (outline : Outline) : Scan where
  outlines := scan.outlines ++ [outline]
  tally :=
    { scan.tally with
      classes := scan.tally.classes + 1
      members := scan.tally.members + outline.members.length }

/-- The scan with more outlines at the end. -/
def addAll (scan : Scan) (outlines : List Outline) : Scan :=
  outlines.foldl add scan

/-- The outline of a block with a given head and body. -/
def outlineOf (options : ScanOptions) (head : ClassHead) (body : Body) : Outline :=
  { Outline.onLines head.name head.startLine head.endLine with
    templateClause := head.templateClause
    bases := head.bases
    members := body.members.filter fun member => !(options.skipStatic && member.isStatic) }

/-- The scan with what one more block gives. -/
def addBlock (options : ScanOptions) (scan : Scan) (block : Block) : Scan :=
  match ClassHead.ofBlock block with
  | .error _ => { scan with tally.rejected := scan.tally.rejected + 1 }
  | .ok head =>
    let body := Body.ofText block.text
    let counted := { scan with tally.unresolved := scan.tally.unresolved + body.unresolved }
    counted.add (outlineOf options head body)

/-- The scan of a source. -/
def ofSource (options : ScanOptions) (source : Text) : Scan :=
  let blocks := Block.ofText (Mask.visible source)
  blocks.foldl (addBlock options) { tally.blocks := blocks.length }

/-- Whether the scan holds no outline. -/
def isEmpty (scan : Scan) : Bool :=
  scan.outlines.isEmpty

/-- The first outline with a given name. -/
def outline? (scan : Scan) (name : Text) : Option Outline :=
  scan.outlines.find? fun outline => outline.name = name

/-- The outline at a line.  It fails if the scan is empty. -/
def atLine (scan : Scan) (line : Nat) : Except Failure Outline :=
  Caret.pick scan.outlines line

/--
Takes the outline at a line out of the scan: the outline, and the others, of which the last takes
its place.  It fails if the scan is empty.
-/
def takeAtLine (scan : Scan) (line : Nat) : Except Failure (Outline × List Outline) :=
  match (Caret.index? scan.outlines line).bind fun index =>
      scan.outlines[index]?.map fun outline => (index, outline) with
  | some (index, outline) =>
    .ok (outline, (scan.outlines.set index (scan.outlines.getLast?.getD outline)).dropLast)
  | none => .error .noClass

/-- The outline at a line of a source.  It fails if the source declares no class. -/
def outlineAt (options : ScanOptions) (source : Text) (line : Nat) : Except Failure Outline :=
  ((ofSource options source).takeAtLine line).map Prod.fst

end Scan

end ClassOutline
