import ClassOutline.Reserved
import ClassOutline.Text.Blank
/-!
# Blocks

A block is a stretch of text that may declare a class: it begins at the word `class` or `struct`
and ends with the brace that closes its body.

The text is first cut into regions.  The first region begins at the first occurrence of one of the
two words, whether or not it is a keyword there.  A region ends where one of them next stands alone
and the region so far has as many closing as opening braces.  A region that opens a brace then
gives one block, and any other region gives none.
-/

namespace ClassOutline

/-- A stretch of a text, with the text in front of it. -/
structure Block where
  /-- The characters in front of the block, the nearest one first. -/
  past : Text
  /-- The text of the block. -/
  text : Text
deriving DecidableEq, Repr

namespace Block

/-- The text in front of the block. -/
def above (block : Block) : Text :=
  block.past.reverse

/-- The byte offset of the block in the text it was cut from. -/
def offset (block : Block) : Nat :=
  block.past.width

theorem offset_eq_width_above (block : Block) : block.offset = block.above.width :=
  (Text.width_reverse block.past).symm

/-- The words that declare a class. -/
def declarationWords : List Text :=
  ["class".toList, "struct".toList]

/-- The declaring word that a text begins with. -/
def declarationWord? (text : Text) : Option Text :=
  declarationWords.find? fun word => word.isPrefixOf text

/--
Whether a declaration begins here: one of the declaring words stands alone.  The first argument
holds the characters before it, the nearest one first.
-/
def beginsDeclaration (past rest : Text) : Bool :=
  match declarationWord? rest with
  | some word => Reserved.standsAlone past.head? (rest.drop word.length).head? past
  | none => false

/-- How a character changes the number of open braces. -/
def braceChange (character : Char) : Int :=
  if character = '{' then 1 else if character = '}' then -1 else 0

/-! ## Regions -/

/--
Continues a region with `depth` open braces: the rest of its text, and the regions after it.  The
first argument holds all characters before the rest, the nearest one first.
-/
def regionsFrom (past : Text) (depth : Int) : Text → Text × List Block
  | [] => ([], [])
  | current :: rest =>
    if depth = 0 ∧ beginsDeclaration past (current :: rest) then
      let (text, regions) := regionsFrom (current :: past) (braceChange current) rest
      ([], ⟨past, current :: text⟩ :: regions)
    else
      let (text, regions) := regionsFrom (current :: past) (depth + braceChange current) rest
      (current :: text, regions)

/-- A region and the regions after it make up the text. -/
theorem append_flatten_regionsFrom
    (past : Text)
    (depth : Int)
    (text : Text) :
    (regionsFrom past depth text).1 ++
        ((regionsFrom past depth text).2.map Block.text).flatten =
      text := by
  induction text generalizing past depth with
  | nil => rfl
  | cons current rest hypothesis =>
    rw [regionsFrom]
    split
    · simpa using hypothesis (current :: past) (braceChange current)
    · simpa using hypothesis (current :: past) (depth + braceChange current)

/-- The regions of the rest of a text in front of which no region has begun. -/
def regionsAfter (past : Text) : Text → List Block
  | [] => []
  | current :: rest =>
    if (declarationWord? (current :: rest)).isSome then
      let (text, regions) := regionsFrom (current :: past) (braceChange current) rest
      ⟨past, current :: text⟩ :: regions
    else regionsAfter (current :: past) rest

/-- The regions of a text, in order. -/
def regions (text : Text) : List Block :=
  regionsAfter [] text

/-! ## Blocks of regions -/

/--
The shortest beginning of a text that holds an opening brace and as many closing as opening ones,
for a text reached with `depth` open braces.
-/
def closedPart? (opened : Bool) (depth : Int) : Text → Option Text
  | [] => none
  | current :: rest =>
    let opened := opened || current = '{'
    let depth := depth + braceChange current
    if opened ∧ depth = 0 then some [current]
    else (closedPart? opened depth rest).map (current :: ·)

/--
The block of a region, if the region opens a brace.  It ends with the brace that closes the body,
or, if none does, with the last character that is not blank.
-/
def ofRegion? (region : Block) : Option Block :=
  if region.text.contains '{' then
    some { region with text := (closedPart? false 0 region.text).getD region.text.trimEnd }
  else none

/-- The blocks of a text, in order. -/
def ofText (text : Text) : List Block :=
  (regions text).filterMap ofRegion?

end Block

end ClassOutline
