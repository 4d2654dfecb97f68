import ClassOutline.Proofs.Code.Agreement
import ClassOutline.Proofs.Scan.Caret
/-!
# Leaving static members out

A scan that leaves static members out goes through the same blocks as one that keeps them, step for
step, and the two differ in nothing but the static members and their number.  So the class at the
caret is the same.

Generated code covers static members only where they are named.  An outline without its static
members therefore gives the same code as the whole outline, unless an action that allows static
members is given names.
-/

namespace ClassOutline

/-! ## Outlines -/

namespace Outline

/-- The members that are static, in order of declaration. -/
def staticMembers (outline : Outline) : List DataMember :=
  outline.members.filter DataMember.isStatic

/-- The outline without its static members. -/
def withoutStatic (outline : Outline) : Outline :=
  { outline with members := outline.instanceMembers }

variable (outline : Outline)

theorem length_withoutStatic :
    outline.withoutStatic.members.length + outline.staticMembers.length =
      outline.members.length := by
  rw [Nat.add_comm]
  simpa [withoutStatic, instanceMembers, staticMembers] using
    (List.length_eq_length_filter_add (l := outline.members) DataMember.isStatic).symm

@[simp]
theorem instanceMembers_withoutStatic :
    outline.withoutStatic.instanceMembers = outline.instanceMembers := by
  simp [withoutStatic, instanceMembers]

end Outline

/-! ## Scans -/

namespace Scan

/-- The number of static members of all outlines. -/
def staticCount (scan : Scan) : Nat :=
  (scan.outlines.flatMap Outline.staticMembers).length

/-- The scan without static members, and without their number. -/
def withoutStatic (scan : Scan) : Scan where
  outlines := scan.outlines.map Outline.withoutStatic
  tally := { scan.tally with members := scan.tally.members - scan.staticCount }

/-- One scan is another without its static members. -/
structure LosesStatic (full bare : Scan) : Prop where
  /-- The outlines differ in static members only. -/
  outlines : bare.outlines = full.outlines.map Outline.withoutStatic
  /-- The counts differ by the number of static members only. -/
  tally : full.tally = { bare.tally with members := bare.tally.members + full.staticCount }

namespace LosesStatic

variable {full bare : Scan}

theorem eq_withoutStatic (loses : LosesStatic full bare) : bare = full.withoutStatic := by
  apply ext loses.outlines
  rw [withoutStatic, loses.tally]
  simp

theorem add
    (loses : LosesStatic full bare)
    (outline : Outline) :
    LosesStatic (full.add outline) (bare.add outline.withoutStatic) := by
  constructor
  · simp [Scan.add, loses.outlines]
  · have counted : (full.add outline).staticCount =
        full.staticCount + outline.staticMembers.length := by
      simp [staticCount, Scan.add]
    have parts := outline.length_withoutStatic
    rw [counted]
    simp only [Scan.add, loses.tally]
    ext
    case members =>
      simp only
      omega
    all_goals rfl

end LosesStatic

theorem outlineOf_skipStatic
    (options : ScanOptions)
    (head : ClassHead)
    (body : Body) :
    outlineOf { options with skipStatic := true } head body =
      (outlineOf { options with skipStatic := false } head body).withoutStatic := by
  simp [outlineOf, Outline.withoutStatic, Outline.instanceMembers]

/-- Reading one more block makes no other difference. -/
theorem LosesStatic.addBlock
    {full bare : Scan}
    (loses : LosesStatic full bare)
    (options : ScanOptions)
    (block : Block) :
    LosesStatic (addBlock { options with skipStatic := false } full block)
      (addBlock { options with skipStatic := true } bare block) := by
  rw [Scan.addBlock, Scan.addBlock]
  cases ClassHead.ofBlock block with
  | error failure =>
    constructor
    · exact loses.outlines
    · simp only [loses.tally]
      rfl
  | ok head =>
    have counted (unresolved : Nat) :
        LosesStatic { full with tally.unresolved := full.tally.unresolved + unresolved }
          { bare with tally.unresolved := bare.tally.unresolved + unresolved } := by
      refine ⟨loses.outlines, ?_⟩
      simp only [loses.tally]
      rfl
    dsimp only
    rw [outlineOf_skipStatic]
    exact (counted _).add _

theorem LosesStatic.foldl_addBlock
    {full bare : Scan}
    (loses : LosesStatic full bare)
    (options : ScanOptions)
    (blocks : List Block) :
    LosesStatic (blocks.foldl (Scan.addBlock { options with skipStatic := false }) full)
      (blocks.foldl (Scan.addBlock { options with skipStatic := true }) bare) := by
  induction blocks generalizing full bare with
  | nil => exact loses
  | cons block blocks hypothesis => exact hypothesis (loses.addBlock options block)

theorem losesStatic_ofSource
    (options : ScanOptions)
    (source : Text) :
    LosesStatic (ofSource { options with skipStatic := false } source)
      (ofSource { options with skipStatic := true } source) := by
  have start (blocks : Nat) : LosesStatic { tally.blocks := blocks } { tally.blocks := blocks } :=
    ⟨rfl, rfl⟩
  exact (start _).foldl_addBlock options _

end Scan

/-! ## The class at the caret -/

namespace Caret

/-- The search for the class at the caret looks at nothing but lines. -/
theorem index?_map
    {change : Outline → Outline}
    (sameLines : ∀ outline,
      (change outline).startLine = outline.startLine ∧ (change outline).endLine = outline.endLine)
    (outlines : List Outline)
    (line : Nat) :
    index? (outlines.map change) line = index? outlines line := by
  by_cases empty : outlines = []
  · rw [empty, List.map_nil]
  · have covers : (fun outline : Outline => outline.coversLine line) ∘ change =
        fun outline => outline.coversLine line := by
      funext outline
      simp [Outline.coversLine, sameLines]
    have starts : (fun outline : Outline => decide (outline.startLine < line)) ∘ change =
        fun outline => decide (outline.startLine < line) := by
      funext outline
      simp [sameLines]
    have stillNotEmpty : outlines.map change ≠ [] := by simpa using empty
    rw [index?_eq line stillNotEmpty, index?_eq line empty, List.findIdx?_map,
      List.takeWhile_map, covers, starts, List.length_map]

theorem pick_map
    {change : Outline → Outline}
    (sameLines : ∀ outline,
      (change outline).startLine = outline.startLine ∧ (change outline).endLine = outline.endLine)
    (outlines : List Outline)
    (line : Nat) :
    pick (outlines.map change) line = (pick outlines line).map change := by
  rw [pick, pick, index?_map sameLines]
  cases found : index? outlines line with
  | none => rfl
  | some index =>
    have inRange := index?_lt_length found
    simp [inRange, Except.map]

end Caret

/-! ## Generated code -/

namespace Outline

variable (outline : Outline)

/-- No part of the code for all members depends on static ones. -/
theorem partFunctions_withoutStatic (action : Action) :
    outline.withoutStatic.partFunctions .all action = outline.partFunctions .all action := by
  have members := outline.instanceMembers_withoutStatic
  cases action with
  | all => rfl
  | constructor => simp only [partFunctions, Coverage.membersOf, members]; rfl
  | destructor => rfl
  | copySemantics => simp only [partFunctions, copySemantics, semantics, members]; rfl
  | moveSemantics => simp only [partFunctions, moveSemantics, semantics, members]; rfl
  | getters => simp only [partFunctions, Coverage.membersOf, members]
  | setters => simp only [partFunctions, Coverage.membersOf, members]; rfl
  | gettersAndSetters => simp only [partFunctions, Coverage.membersOf, members]; rfl
  | stringConversion => rfl
  | streamOperator => simp only [partFunctions, Coverage.membersOf, members]; rfl
  | equalityOperator => rfl
  | boolOperator => rfl

theorem functions_withoutStatic (action : Action) :
    outline.withoutStatic.functions action .all = outline.functions action .all := by
  have parts : outline.withoutStatic.partFunctions .all = outline.partFunctions .all :=
    funext outline.partFunctions_withoutStatic
  simp only [functions, parts]

/-- A constructor covers no static members, even if they are named. -/
theorem membersOf_withoutStatic (coverage : Coverage) :
    coverage.membersOf false outline.withoutStatic = coverage.membersOf false outline := by
  cases coverage with
  | all => exact outline.instanceMembers_withoutStatic
  | named names =>
    simp [Coverage.membersOf, withoutStatic, instanceMembers, List.filter_filter, Bool.and_comm]

end Outline

namespace Writer

variable (outline : Outline) (style : Style)

/-- What a writer needs to know of a class besides the functions has nothing to do with members. -/
theorem code_withoutStatic (functions : List GeneratedFunction) :
    (ofStyle outline.withoutStatic style).code functions =
      (ofStyle outline style).code functions := rfl

theorem generate_withoutStatic (action : Action) :
    (ofStyle outline.withoutStatic style).generate action .all =
      (ofStyle outline style).generate action .all := by
  rw [generate_eq_code, generate_eq_code, code_withoutStatic]
  exact congrArg (ofStyle outline style).code (outline.functions_withoutStatic action)

theorem generate_constructor_withoutStatic (coverage : Coverage) :
    (ofStyle outline.withoutStatic style).generate .constructor coverage =
      (ofStyle outline style).generate .constructor coverage := by
  have covered := outline.membersOf_withoutStatic coverage
  have functions : outline.withoutStatic.functions .constructor coverage =
      outline.functions .constructor coverage := by
    simp only [Outline.functions, reduceCtorEq, if_false, Outline.partFunctions, covered]
    rfl
  rw [generate_eq_code, generate_eq_code, code_withoutStatic]
  exact congrArg (ofStyle outline style).code functions

end Writer

namespace Scan

/--
Leaving static members out takes them and their number from the scan, and changes nothing else.  So
the caret refers to the same class.  The code for all members, and every constructor, is the same
for an outline with and without its static members.
-/
theorem ofSource_skipStatic
    (options : ScanOptions)
    (source : Text) :
    (ofSource { options with skipStatic := true } source =
        (ofSource { options with skipStatic := false } source).withoutStatic ∧
      (ofSource { options with skipStatic := true } source).tally.members +
          (ofSource { options with skipStatic := false } source).staticCount =
        (ofSource { options with skipStatic := false } source).tally.members) ∧
      (∀ line,
        Caret.index? (ofSource { options with skipStatic := true } source).outlines line =
            Caret.index? (ofSource { options with skipStatic := false } source).outlines line ∧
          outlineAt { options with skipStatic := true } source line =
            (outlineAt { options with skipStatic := false } source line).map
              Outline.withoutStatic) ∧
        ∀ outline style,
          (∀ action,
            (Writer.ofStyle outline.withoutStatic style).generate action .all =
              (Writer.ofStyle outline style).generate action .all) ∧
            ∀ coverage,
              (Writer.ofStyle outline.withoutStatic style).generate .constructor coverage =
                (Writer.ofStyle outline style).generate .constructor coverage := by
  have loses := losesStatic_ofSource options source
  have sameLines (outline : Outline) :
      outline.withoutStatic.startLine = outline.startLine ∧
        outline.withoutStatic.endLine = outline.endLine :=
    ⟨rfl, rfl⟩
  refine ⟨⟨loses.eq_withoutStatic, ?_⟩, fun line => ⟨?_, ?_⟩, fun outline style => ?_⟩
  · rw [loses.tally]
  · rw [loses.outlines]
    exact Caret.index?_map sameLines _ line
  · rw [outlineAt_eq_pick, outlineAt_eq_pick, loses.outlines]
    exact Caret.pick_map sameLines _ line
  · exact ⟨Writer.generate_withoutStatic outline style,
      Writer.generate_constructor_withoutStatic outline style⟩

end Scan

end ClassOutline
