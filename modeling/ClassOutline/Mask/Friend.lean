import ClassOutline.Mask.Comment
/-!
# Hiding friend declarations

A friend declaration names a class without declaring one.  It is hidden from its first word to the
end of the line.
-/

namespace ClassOutline.Mask

/-- What the pass over friend declarations is reading. -/
inductive FriendLine where
  /-- Text in front of the first friend declaration of the line. -/
  | code
  /-- The rest of a line behind the start of a friend declaration. -/
  | declaration
deriving DecidableEq, Repr

/-- The words that begin a friend declaration. -/
def friendClass : Text :=
  "friend class".toList

/-- Hides the rest of each line from a friend declaration on. -/
def friendLines : Mask FriendLine where
  start := .code
  step state current rest :=
    match state with
    | .code =>
      if friendClass.isPrefixOf (current :: rest) then (.declaration, true) else (.code, false)
    | .declaration => if current = '\n' then (.code, false) else (.declaration, true)

/-- The text with its friend declarations hidden. -/
def hideFriends (text : Text) : Text :=
  friendLines.apply text

/-- The text in which declarations are looked for: comments and friend declarations are hidden. -/
def visible (source : Text) : Text :=
  hideFriends (hideComments source)

end ClassOutline.Mask
