import ClassOutline.Block
import ClassOutline.Failure
import ClassOutline.Outline
import ClassOutline.Text.Bracket
/-!
# Class heads

The head of a block is what stands between its declaring word and its body: the name of the class
and, behind a colon, its base classes.  The template clause is looked for directly above the block.
-/

namespace ClassOutline

/-- What is read of a class declaration in front of its body. -/
structure ClassHead where
  /-- The name of the class. -/
  name : Text
  /-- The template clause above the declaration; empty if there is none. -/
  templateClause : Text
  /-- The base classes, in order. -/
  bases : List Base
  /-- The line of the declaring word, counted from zero. -/
  startLine : Nat
  /-- The line of the end of the block, counted from zero. -/
  endLine : Nat
deriving DecidableEq, Repr

namespace ClassHead

/-! ## The name -/

/-- The text between the declaring word and the body. -/
def headOf (declaration : Text) : Text :=
  Text.trim
    ((declaration.takeWhile (· ≠ '{')).dropWhile fun character =>
      !Reserved.isDelimiter character)

/--
Cuts a head at its first single colon outside angle brackets, for a head reached with `depth`
open angle brackets behind a given character.  A colon next to a colon is a scope mark.
-/
def cutAtColon? (depth : Int) (previous : Option Char) : Text → Option (Text × Text)
  | [] => none
  | current :: rest =>
    if current = ':' ∧ depth = 0 ∧ rest.head? ≠ some ':' ∧ previous ≠ some ':' then
      some ([], rest)
    else
      let depth :=
        if current = '<' then depth + 1 else if current = '>' then depth - 1 else depth
      (cutAtColon? depth (some current) rest).map fun (before, after) =>
        (current :: before, after)

/--
A class name may stand if it has as many closing as opening angle brackets and an opening one comes
first.
-/
def LegalName (name : Text) : Prop :=
  name.count '<' = name.count '>' ∧
    name.find? (fun character => character = '<' || character = '>') ≠ some '>'

instance (name : Text) : Decidable (LegalName name) :=
  inferInstanceAs (Decidable (_ ∧ _))

/-- The name without a final word `final`. -/
def dropFinal (name : Text) : Text :=
  match name.dropEnding? "final".toList with
  | some rest => if rest.getLast?.any Text.isBlank then rest.trimEnd else name
  | none => name

/-! ## The template clause -/

/-- The characters that end a statement, a scope or a directive. -/
def isBreak (character : Char) : Bool :=
  [';', '{', '}', '#'].contains character

/--
The template clause directly above a block, or the empty text.  It reaches from the last word
`template` to a closing angle bracket, with no end of a statement between them.
-/
def templateClauseOf (block : Block) : Text :=
  if (block.past.dropWhile Text.isBlank).head? = some '>' then
    match block.above.cutAtLast? "template".toList with
    | some (before, after) =>
      let clause := Text.trim ("template".toList ++ after)
      if Reserved.standsAlone before.getLast? after.head? before.reverse
          && !clause.any isBreak
      then clause else []
    | none => []
  else []

/-! ## The base classes -/

/-- The words of an entry that do not belong to the name of the base. -/
def baseSpecifiers : List Text :=
  ["public".toList, "protected".toList, "private".toList, "virtual".toList]

/-- The base class of an entry, if the entry names one. -/
def baseOf? (entry : Text) : Option Base :=
  let words := entry.words
  let name := Text.unwords (words.filter fun word => !baseSpecifiers.contains word)
  if name = [] then none
  else some
    { name
      access :=
        if words.contains "protected".toList then .protectedly
        else if words.contains "private".toList then .privately
        else .publicly
      isVirtual := words.contains "virtual".toList }

/-- The entries of a list of bases: a comma inside brackets separates nothing. -/
def baseEntries (clause : Text) : List Text :=
  let pieces := (Text.splitWhere (· = ',') clause).filter fun piece => Text.trim piece ≠ []
  Text.regroup [','] (fun entry => ¬ Text.Balanced entry) pieces

/-- The base classes of a list of bases. -/
def basesOf (clause : Text) : List Base :=
  (baseEntries clause).filterMap baseOf?

/-! ## The head of a block -/

/-- The head of a block.  It fails on a name with angle brackets that do not match. -/
def ofBlock (block : Block) : Except Failure ClassHead :=
  let head := headOf block.text
  let (name, bases) :=
    match cutAtColon? 0 none head with
    | some (before, after) => (Text.trim before, basesOf after)
    | none => (head, [])
  if LegalName name then
    .ok
      { name := dropFinal name
        templateClause := templateClauseOf block
        bases
        startLine := block.past.lineBreaks
        endLine := block.past.lineBreaks + block.text.lineBreaks }
  else .error (.malformedName name)

end ClassHead

end ClassOutline
