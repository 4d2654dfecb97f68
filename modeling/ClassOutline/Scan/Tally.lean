/-!
# Tallies

What a scan counts.  Tallies of separate scans are added up field by field.
-/

namespace ClassOutline

/-- The counts of a scan. -/
structure Tally where
  /-- The blocks that may declare a class. -/
  blocks : Nat := 0
  /-- The classes outlined. -/
  classes : Nat := 0
  /-- The blocks dropped for a malformed name. -/
  rejected : Nat := 0
  /-- The data members found. -/
  members : Nat := 0
  /-- The declarations that could not be resolved. -/
  unresolved : Nat := 0
deriving DecidableEq, Repr

namespace Tally

/-- Tallies are added field by field. -/
instance : Add Tally where
  add left right :=
    { blocks := left.blocks + right.blocks
      classes := left.classes + right.classes
      rejected := left.rejected + right.rejected
      members := left.members + right.members
      unresolved := left.unresolved + right.unresolved }

/-- The blocks whose head was read, with or without success. -/
def candidates (tally : Tally) : Nat :=
  tally.classes + tally.rejected

end Tally

end ClassOutline
