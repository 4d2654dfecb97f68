import ClassOutline.Text.Basic
/-!
# Paths

A path is a text whose parts are separated by slashes.  Which sources can be scanned is told from
the extension of the last part.
-/

namespace ClassOutline.Path

/-- The parts of a path. -/
def parts (path : Text) : List Text :=
  path.splitWhere (· = '/')

/-- Whether a part names the directory that it stands in. -/
def isHere (part : Text) : Bool :=
  part = [] || part = ['.']

/-- The part that names the parent of a directory. -/
def parent : Text :=
  ['.', '.']

/-- The number of bytes that a part of a path may have. -/
def longestPart : Nat := 255

/-- The number of bytes that a path may have. -/
def longest : Nat := 4095

/-- The last part that counts: the parts for the directory itself at the end are left out. -/
def lastPart? (path : Text) : Option Text :=
  ((parts path).reverse.dropWhile isHere).head?

/-- What follows the last dot of a part, if something stands in front of that dot. -/
def extension? (part : Text) : Option Text :=
  if part = parent then none
  else
    match part.cutAtLast? ['.'] with
    | some (_ :: _, after) => some after
    | _ => none

/-- The language that sources are written in. -/
def language : Text :=
  "cpp".toList

/-- The extensions of sources, with their dots. -/
def sourceExtensions : List Text :=
  [".h".toList, ".hh".toList, ".hpp".toList, ".hxx".toList, ".h++".toList, ".c".toList,
    ".cc".toList, ".cpp".toList, ".cxx".toList, ".c++".toList, ".ipp".toList, ".inl".toList,
    ".tpp".toList]

/--
Whether a path names a source, in whatever case its extension is written.  Case is that of ASCII:
no other character has a letter of these extensions as its lower case.
-/
def namesSource (path : Text) : Bool :=
  match (lastPart? path).bind extension? with
  | some extension => sourceExtensions.contains ('.' :: extension.map Char.toLower)
  | none => false

end ClassOutline.Path
