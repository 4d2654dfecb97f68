import ClassOutline.Failure
import ClassOutline.Scan.Path
/-!
# File systems

A file system is what is found at each path; it does not change while files are scanned.  A file
tree is a file system that starts empty and is filled one entry at a time.

A path is followed part by part, and each part but the last must lead to a directory.  So a path
may name its way through a directory that it leaves again, but not through one that is missing.
-/

namespace ClassOutline

/-- What can be found at a path. -/
inductive Entry where
  /-- A directory, with the size that the system states for it. -/
  | directory (size : Nat)
  /-- A file with its bytes. -/
  | file (content : List UInt8)
deriving DecidableEq, Repr

/-- What is found at each path, or why nothing is. -/
structure FileSystem where
  /-- What is found at a path. -/
  entry : Text → Except ReadFailure Entry

/-! ## Places -/

/-- A place below the root of a tree, or below one of the directories that contain the root. -/
structure Place where
  /-- The number of levels between the root and the directory that the names start from. -/
  above : Nat := 0
  /-- The names on the way down. -/
  names : List Text := []
deriving DecidableEq, Repr

namespace Place

/-- The directory that contains a place. -/
def up (place : Place) : Place :=
  if place.names = [] then { place with above := place.above + 1 }
  else { place with names := place.names.dropLast }

/-- The place of a given name in a directory. -/
def down (place : Place) (name : Text) : Place :=
  { place with names := place.names ++ [name] }

/-- The place to which a part of a path leads from a directory. -/
def step (place : Place) (part : Text) : Place :=
  if Path.isHere part then place
  else if part = Path.parent then place.up
  else place.down part

end Place

/-! ## Trees -/

/-- The directories and files below one directory, each by its place. -/
structure FileTree where
  /-- The entries; a later one replaces an earlier one of the same place. -/
  entries : List (Place × Entry) := []
deriving DecidableEq, Repr

namespace FileTree

/-- The size stated for a directory. -/
def directorySize : Nat := 4096

/-- What is found at a place in a directory that is there. -/
def find (tree : FileTree) (place : Place) : Except ReadFailure Entry :=
  match place.names.getLast? with
  | none => .ok (.directory directorySize)
  | some name =>
    if Path.longestPart < name.width then .error .nameTooLong
    else
      match tree.entries.lookup place with
      | some entry => .ok entry
      | none => .error .absent

/-- What is found by the rest of a path, from the place that has been reached. -/
def findFrom (tree : FileTree) (place : Place) : List Text → Except ReadFailure Entry
  | [] => tree.find place
  | part :: parts =>
    match tree.find place with
    | .ok (.directory _) => tree.findFrom (place.step part) parts
    | .ok (.file _) => .error .notDirectory
    | .error cause => .error cause

/-- Why a path leads nowhere in any tree: a tree holds nothing at the empty and absolute paths. -/
def refusal? (path : Text) : Option ReadFailure :=
  if path.contains '\x00' then some .zeroInPath
  else if Path.longest < path.width then some .nameTooLong
  else if path.head?.all (· = '/') then some .absent
  else none

/-- The file system of a tree, for paths that start at its root. -/
def toFileSystem (tree : FileTree) : FileSystem where
  entry path :=
    match refusal? path with
    | some cause => .error cause
    | none => tree.findFrom {} (Path.parts path)

/-! ## Growing a tree -/

/-- The tree with an entry at a place, whatever was there. -/
def put (tree : FileTree) (place : Place) (entry : Entry) : FileTree where
  entries := (place, entry) :: tree.entries

/-- Putting an entry somewhere changes nothing that is found elsewhere. -/
theorem find_put_of_ne
    (tree : FileTree)
    {place other : Place}
    (entry : Entry)
    (different : other ≠ place) :
    (tree.put place entry).find other = tree.find other := by
  have unequal : (other == place) = false := by simpa using different
  simp only [find, put, List.lookup_cons, unequal]

/--
Makes the directories on the way along the parts of a path: the tree and the place that is reached.
It fails if a file stands in the way or a name is too long.
-/
def makeWay? (tree : FileTree) (place : Place) : List Text → Option (FileTree × Place)
  | [] => some (tree, place)
  | part :: parts =>
    let next := place.step part
    match tree.find next with
    | .ok (.directory _) => tree.makeWay? next parts
    | .error .absent => (tree.put next (.directory directorySize)).makeWay? next parts
    | _ => none

/-- The tree with a directory at the end of a path.  One that is there already stays. -/
def insertDirectory? (tree : FileTree) (parts : List Text) : Option FileTree :=
  let final := parts.reverse.takeWhile Path.isHere
  match parts.reverse.dropWhile Path.isHere with
  | [] => some tree
  | last :: front => do
    let (tree, place) ← tree.makeWay? {} front.reverse
    -- A dot stays in the directory before it, so it does not make that directory.
    if final.contains ['.'] && !(tree.find (place.step last)).isOk then none
    else (tree.makeWay? place [last]).map Prod.fst

/-- The tree with a file at the end of a path, which must be a name that no directory has. -/
def insertFile? (tree : FileTree) (parts : List Text) (content : List UInt8) : Option FileTree := do
  let last ← parts.getLast?
  if Path.isHere last ∨ last = Path.parent then none
  let (tree, place) ← tree.makeWay? {} parts.dropLast
  let place := place.down last
  match tree.find place with
  | .ok (.file _) => some (tree.put place (.file content))
  | .error .absent => some (tree.put place (.file content))
  | _ => none

/--
The tree with an entry at a path, and the directories on the way to it.  It fails where the system
would refuse to create them.  The empty path names no file, and no directory that has to be made.
-/
def insert? (tree : FileTree) (path : Text) (entry : Entry) : Option FileTree :=
  if path ≠ [] ∧ (refusal? path).isSome then none
  else
    match entry with
    | .directory _ => tree.insertDirectory? (Path.parts path)
    | .file content => tree.insertFile? (Path.parts path) content

end FileTree

end ClassOutline
