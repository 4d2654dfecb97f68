import ClassOutline.Outline
/-!
# Coverage

Which data members the generated code covers.
-/

namespace ClassOutline

/-- Which data members of a class are covered. -/
inductive Coverage where
  /-- All members that are not static. -/
  | all
  /-- The members with these names. -/
  | named (names : List Text)
deriving DecidableEq, Repr

namespace Coverage

/--
The members of a class that are covered, in order of declaration.  Static members are covered only
by name, and only where they are allowed; names of no member cover nothing.
-/
def membersOf (coverage : Coverage) (allowStatic : Bool) (outline : Outline) :
    List DataMember :=
  match coverage with
  | .all => outline.instanceMembers
  | .named names =>
    outline.members.filter fun member =>
      (allowStatic || !member.isStatic) && names.contains member.name

end Coverage

end ClassOutline
