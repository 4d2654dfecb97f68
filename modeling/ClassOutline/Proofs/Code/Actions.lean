import ClassOutline.Proofs.Code.Agreement
/-!
# What an action generates

An action that stands for several others gives their code, one after the other, in each rendering:
the getters and setters are the getters and then the setters, and everything is nine parts in a
fixed order, each for all members that are not static.

Of a list of names, only those of members of the class matter, whatever their order and number.  The
members that are named are covered once each, in order of declaration, by the actions that depend on
the coverage; the constructor leaves out the static ones among them.  All other actions give the
same code for every coverage.
-/

namespace ClassOutline

/-! ## Composite actions -/

/-- A code is made of others, put one behind the other in each rendering. -/
inductive GeneratedCode.IsJoined : GeneratedCode → List GeneratedCode → Prop where
  | inside (texts : List Text) : IsJoined (.inside texts.flatten) (texts.map .inside)
  | apart (parts : List (Text × Text)) :
    IsJoined (.apart (parts.map Prod.fst).flatten (parts.map Prod.snd).flatten)
      (parts.map fun part => .apart part.1 part.2)

namespace Writer

variable (writer : Writer)

/-- The code of groups of functions is that of each group, one behind the other. -/
theorem isJoined_code (groups : List (List GeneratedFunction)) :
    (writer.code groups.flatten).IsJoined (groups.map writer.code) := by
  have grouped (render : GeneratedFunction → Text) :
      groups.flatten.flatMap render =
        (groups.map fun functions => functions.flatMap render).flatten := by
    rw [← List.flatMap_id, List.flatMap_assoc, List.flatMap_def]
    rfl
  cases placement : writer.placement with
  | inside =>
    have code_eq : writer.code = fun functions =>
        .inside (functions.flatMap (·.inside writer.indent)) := by
      funext functions
      rw [code, placement]
    have joined := GeneratedCode.IsJoined.inside
      (groups.map fun functions => functions.flatMap (·.inside writer.indent))
    rw [← grouped, List.map_map] at joined
    rw [code_eq]
    exact joined
  | apart =>
    have code_eq : writer.code = fun functions =>
        .apart (functions.flatMap (·.declaration writer.indent))
          (functions.flatMap (·.definition writer.outline.name writer.indent)) := by
      funext functions
      rw [code, placement]
    have joined := GeneratedCode.IsJoined.apart (groups.map fun functions =>
      (functions.flatMap (·.declaration writer.indent),
        functions.flatMap (·.definition writer.outline.name writer.indent)))
    simp only [List.map_map, Function.comp_def] at joined
    rw [← grouped, ← grouped] at joined
    rw [code_eq]
    exact joined

/-- An action with the functions of other actions, in order, has the code of each of them. -/
theorem isJoined_generate
    {action : Action}
    {coverage partCoverage : Coverage}
    {parts : List Action}
    (functions : writer.outline.functions action coverage =
      parts.flatMap fun part => writer.outline.functions part partCoverage) :
    (writer.generate action coverage).IsJoined
      (parts.map fun part => writer.generate part partCoverage) := by
  have joined := writer.isJoined_code
    (parts.map fun part => writer.outline.functions part partCoverage)
  rw [← List.flatMap_def, ← functions, List.map_map] at joined
  simp only [generate_eq_code]
  exact joined

theorem isJoined_gettersAndSetters (coverage : Coverage) :
    (writer.generate .gettersAndSetters coverage).IsJoined
      ([.getters, .setters].map fun part => writer.generate part coverage) := by
  refine writer.isJoined_generate ?_
  rw [List.flatMap_cons, List.flatMap_singleton]
  rfl

theorem isJoined_all (coverage : Coverage) :
    (writer.generate .all coverage).IsJoined
      (Outline.partsOfAll.map fun part => writer.generate part .all) := by
  refine writer.isJoined_generate ?_
  rfl

/-- The method for an action gives the code of the action. -/
theorem byMethod_eq_generate
    (action : Action)
    (coverage : Coverage) :
    writer.byMethod action coverage = writer.generate action coverage := by
  cases action <;> rfl

/--
The code of a composite action is the code of its parts, in order and in each rendering: getters
and setters with the coverage that is given, and everything with all members that are not static,
whatever the coverage.  And each method gives the code of its action.
-/
theorem isJoined_composites :
    (∀ coverage,
      (writer.generate .gettersAndSetters coverage).IsJoined
          [writer.generate .getters coverage, writer.generate .setters coverage] ∧
        (writer.generate .all coverage).IsJoined
          [writer.generate .constructor .all, writer.generate .destructor .all,
            writer.generate .copySemantics .all, writer.generate .moveSemantics .all,
            writer.generate .gettersAndSetters .all, writer.generate .stringConversion .all,
            writer.generate .streamOperator .all, writer.generate .equalityOperator .all,
            writer.generate .boolOperator .all]) ∧
      ∀ action coverage, writer.byMethod action coverage = writer.generate action coverage :=
  ⟨fun coverage => ⟨writer.isJoined_gettersAndSetters coverage, writer.isJoined_all coverage⟩,
    writer.byMethod_eq_generate⟩

end Writer

/-! ## Coverage by names -/

/-- Two lists have the same names of members of a class, in whatever order and number. -/
def Outline.SameNames (outline : Outline) (first second : List Text) : Prop :=
  ∀ member ∈ outline.members, member.name ∈ first ↔ member.name ∈ second

instance (outline : Outline) (first second : List Text) :
    Decidable (outline.SameNames first second) :=
  inferInstanceAs (Decidable (∀ member ∈ outline.members, _))

/-- The members of a class that have one of some names, in order of declaration. -/
def Outline.membersNamed (outline : Outline) (names : List Text) : List DataMember :=
  outline.members.filter fun member => member.name ∈ names

/-- The code that covers given members, by each action that depends on the coverage. -/
structure Writer.Covers (writer : Writer) (coverage : Coverage) (members : List DataMember) :
    Prop where
  getters : writer.generate .getters coverage = writer.code (members.map DataMember.getter)
  setters :
    writer.generate .setters coverage = writer.code (members.map (DataMember.setter writer.outline))
  gettersAndSetters :
    writer.generate .gettersAndSetters coverage =
      writer.code (members.map DataMember.getter ++
        members.map (DataMember.setter writer.outline))
  streamOperator :
    writer.generate .streamOperator coverage = writer.code [writer.outline.streamOperator members]
  constructor :
    writer.generate .constructor coverage =
      writer.code [writer.outline.constructor (members.filter fun member => !member.isStatic)]

namespace Coverage

variable (outline : Outline)

theorem membersOf_named (names : List Text) :
    (named names).membersOf true outline = outline.membersNamed names := by
  simp [membersOf, Outline.membersNamed]

/-- Where static members are not allowed, the other ones are left. -/
theorem membersOf_false (coverage : Coverage) :
    coverage.membersOf false outline =
      (coverage.membersOf true outline).filter fun member => !member.isStatic := by
  cases coverage with
  | all => simp [membersOf, Outline.instanceMembers]
  | named names => simp [membersOf, List.filter_filter]

/-- The names of all members that are not static select them where no others are allowed. -/
theorem membersOf_names_instanceMembers :
    (named (outline.instanceMembers.map DataMember.name)).membersOf false outline =
      Coverage.all.membersOf false outline := by
  refine List.filter_congr fun member isMember => ?_
  cases isStatic : member.isStatic with
  | true => simp
  | false =>
    have isInstance : member ∈ outline.instanceMembers :=
      List.mem_filter.mpr ⟨isMember, by simp [isStatic]⟩
    simpa using ⟨member, isInstance, rfl⟩

end Coverage

theorem Outline.SameNames.membersNamed_eq
    {outline : Outline}
    {first second : List Text}
    (same : outline.SameNames first second) :
    outline.membersNamed first = outline.membersNamed second :=
  List.filter_congr fun member isMember => decide_eq_decide.mpr (same member isMember)

namespace Writer

variable (writer : Writer)

/-- Each coverage covers the members that it selects. -/
theorem covers (coverage : Coverage) :
    writer.Covers coverage (coverage.membersOf true writer.outline) where
  getters := writer.generate_eq_code .getters coverage
  setters := writer.generate_eq_code .setters coverage
  gettersAndSetters := writer.generate_eq_code .gettersAndSetters coverage
  streamOperator := writer.generate_eq_code .streamOperator coverage
  constructor := by
    rw [← Coverage.membersOf_false]
    exact writer.generate_eq_code .constructor coverage

/-- Actions that do not depend on the coverage give the same code for every coverage. -/
theorem generate_eq_of_not_usesCoverage
    {action : Action}
    (notUsed : action.usesCoverage = false)
    (first second : Coverage) :
    writer.generate action first = writer.generate action second := by
  cases action with
  | constructor | getters | setters | gettersAndSetters | streamOperator => contradiction
  | all | destructor | copySemantics | moveSemantics => rfl
  | stringConversion | equalityOperator | boolOperator => rfl

/-- What covers the same members gives the same code. -/
theorem Covers.generate_eq
    {writer : Writer}
    {first second : Coverage}
    {members : List DataMember}
    (coversFirst : writer.Covers first members)
    (coversSecond : writer.Covers second members)
    (action : Action) :
    writer.generate action first = writer.generate action second := by
  cases action with
  | constructor => exact coversFirst.constructor.trans coversSecond.constructor.symm
  | getters => exact coversFirst.getters.trans coversSecond.getters.symm
  | setters => exact coversFirst.setters.trans coversSecond.setters.symm
  | gettersAndSetters =>
    exact coversFirst.gettersAndSetters.trans coversSecond.gettersAndSetters.symm
  | streamOperator => exact coversFirst.streamOperator.trans coversSecond.streamOperator.symm
  | _ => exact writer.generate_eq_of_not_usesCoverage rfl first second

end Writer

/-- A class with one member. -/
def Outline.counter : Outline where
  name := "Counter".toList
  members := [{ name := "total".toList, declaredType := "int".toList, byValue := true }]
  startLine := 0
  endLine := 2

/-- An action that depends on the coverage tells the one member of a class from none. -/
theorem Writer.generate_counter_ne
    {action : Action}
    (used : action.usesCoverage = true) :
    (ofStyle Outline.counter {}).generate action .all ≠
      (ofStyle Outline.counter {}).generate action (.named []) := by
  cases action with
  | constructor => decide +kernel
  | getters => decide +kernel
  | setters => decide +kernel
  | gettersAndSetters => decide +kernel
  | streamOperator => decide +kernel
  | _ => contradiction

theorem Action.usesCoverage_iff (action : Action) :
    action.usesCoverage = true ↔
      ∃ outline style first second,
        (Writer.ofStyle outline style).generate action first ≠
          (Writer.ofStyle outline style).generate action second := by
  constructor
  · intro used
    exact ⟨Outline.counter, {}, .all, .named [], Writer.generate_counter_ne used⟩
  · rintro ⟨outline, style, first, second, different⟩
    rw [← Bool.not_eq_false]
    intro notUsed
    exact different ((Writer.ofStyle outline style).generate_eq_of_not_usesCoverage notUsed _ _)

/--
Names select members by their set alone.  Lists with the same names of members give the same code
for every action; the members with these names are covered, once each and in order of declaration,
and the constructor leaves out the static ones among them.  The names of all members that are not
static give the constructor of all members.  And an action depends on the coverage exactly if there
is a class, a style and two coverages for which its code differs.
-/
theorem Writer.generate_named
    (writer : Writer)
    {first second : List Text}
    (same : writer.outline.SameNames first second) :
    (∀ action, writer.generate action (.named first) = writer.generate action (.named second)) ∧
      writer.Covers (.named first) (writer.outline.membersNamed first) ∧
      writer.constructor (.named (writer.outline.instanceMembers.map DataMember.name)) =
        writer.constructor .all ∧
      ∀ action : Action, action.usesCoverage = true ↔
        ∃ outline style coverage coverage',
          (ofStyle outline style).generate action coverage ≠
            (ofStyle outline style).generate action coverage' := by
  have coversFirst := writer.covers (.named first)
  have coversSecond := writer.covers (.named second)
  rw [Coverage.membersOf_named] at coversFirst coversSecond
  rw [← same.membersNamed_eq] at coversSecond
  refine ⟨coversFirst.generate_eq coversSecond, coversFirst, ?_, Action.usesCoverage_iff⟩
  have members := Coverage.membersOf_names_instanceMembers writer.outline
  rw [Coverage.membersOf_false, Coverage.membersOf_false] at members
  rw [constructor, constructor, (writer.covers _).constructor, (writer.covers _).constructor,
    members]

/-- Names in another order, twice, and of no member. -/
theorem Writer.generate_named_counter :
    let outline : Outline :=
      { name := "Counter".toList
        members :=
          [{ name := "total".toList, declaredType := "int".toList, isStatic := true },
            { name := "value".toList, declaredType := "int".toList },
            { name := "label".toList, declaredType := "std::string".toList }]
        startLine := 2
        endLine := 6 }
    let first := ["label".toList, "missing".toList, "total".toList, "label".toList]
    let second := ["total".toList, "label".toList]
    outline.SameNames first second ∧
      ∀ action, (ofStyle outline .apart).generate action (.named first) =
        (ofStyle outline .apart).generate action (.named second) := by
  intro outline first second
  have same : outline.SameNames first second := by decide
  exact ⟨same, ((ofStyle outline .apart).generate_named same).1⟩

end ClassOutline
