import ClassOutline.Text.Basic
/-!
# Failures

Why a class, a member or a file could not be read, and the message for each cause.
-/

namespace ClassOutline

/-- Why a file could not be read. -/
inductive ReadFailure where
  /-- There is nothing at the path. -/
  | absent
  /-- The path names a directory. -/
  | directory
  /-- A part of the path that should be a directory is not one. -/
  | notDirectory
  /-- A part of the path, or the whole path, is longer than the system allows. -/
  | nameTooLong
  /-- The path holds the character with the code zero. -/
  | zeroInPath
  /-- The content is not UTF-8. -/
  | notText
  /-- Another cause, as described by the system. -/
  | other (description : Text)
deriving DecidableEq, Repr

namespace ReadFailure

/-- The description of a cause. -/
def message : ReadFailure → Text
  | .absent => "No such file or directory (os error 2)".toList
  | .directory => "Is a directory (os error 21)".toList
  | .notDirectory => "Not a directory (os error 20)".toList
  | .nameTooLong => "File name too long (os error 36)".toList
  | .zeroInPath => "file name contained an unexpected NUL byte".toList
  | .notText => "stream did not contain valid UTF-8".toList
  | .other description => description

end ReadFailure

/--
Why something could not be outlined.  A malformed name drops a class and an unresolved declaration
drops a member; the other causes reach the caller.
-/
inductive Failure where
  /-- The source declares no class. -/
  | noClass
  /-- The angle brackets of a class name do not match. -/
  | malformedName (name : Text)
  /-- A declaration could not be split into a type and names. -/
  | unresolvedDeclaration (line : Text)
  /-- A file could not be read. -/
  | unreadable (path : Text) (cause : ReadFailure)
  /-- A file has more bytes than the limit allows. -/
  | tooLarge (path : Text) (size : Nat)
deriving DecidableEq, Repr

namespace Failure

/-- The message for a cause. -/
def message : Failure → Text
  | .noClass => "No class or struct found".toList
  | .malformedName name => "Malformed class name: ".toList ++ name
  | .unresolvedDeclaration line => "Unresolved declarator: ".toList ++ line
  | .unreadable path cause =>
    "IO error reading ".toList ++ path ++ ": ".toList ++ cause.message
  | .tooLarge path size =>
    "File ".toList ++ path ++ " exceeds maximum size (".toList ++ Nat.toDigits 10 size
      ++ " bytes)".toList

end Failure

end ClassOutline
