import ClassOutline.Proofs.Code.Forms
/-!
# Texts of generated functions

Every generated function is put together from the names and the types of an outline and from fixed
fragments.  A property of texts that holds of the fragments, and that is kept when texts are joined,
enclosed or begun with a capital, holds of all texts of all functions as soon as it holds of the
names and the types.
-/

namespace ClassOutline

/-! ## Names of an outline -/

/-- The own name of a class is a part of its name. -/
theorem Outline.ownName_isInfix (outline : Outline) : outline.ownName <:+: outline.name := by
  have isPrefix : outline.name.takeWhile (· ≠ '<') <:+: outline.name :=
    (List.takeWhile_prefix _).isInfix
  rw [Outline.ownName]
  split
  · next before last cut =>
    have shape := Text.eq_append_of_cutAtLast? cut
    have isSuffix : last <:+ outline.name.takeWhile (· ≠ '<') :=
      ⟨before ++ [':', ':'], shape.symm⟩
    exact isSuffix.isInfix.trans isPrefix
  · exact isPrefix

/-- Only members of the outline are covered. -/
theorem Coverage.mem_of_mem_membersOf
    {coverage : Coverage}
    {allowStatic : Bool}
    {outline : Outline}
    {member : DataMember}
    (isCovered : member ∈ coverage.membersOf allowStatic outline) :
    member ∈ outline.members := by
  cases coverage with
  | all => exact (List.mem_filter.mp isCovered).1
  | named names => exact (List.mem_filter.mp isCovered).1

/-! ## The functions of all actions -/

/-- A property holds of each function that can be generated for an outline. -/
structure Outline.EachFunction (outline : Outline) (property : GeneratedFunction → Prop) :
    Prop where
  constructor :
    ∀ members, (∀ member ∈ members, member ∈ outline.members) →
      property (outline.constructor members)
  destructor : property outline.destructor
  copySemantics : ∀ function ∈ outline.copySemantics, property function
  moveSemantics : ∀ function ∈ outline.moveSemantics, property function
  getter : ∀ member ∈ outline.members, property member.getter
  setter : ∀ member ∈ outline.members, property (member.setter outline)
  stringConversion : property Outline.stringConversion
  streamOperator :
    ∀ members, (∀ member ∈ members, member ∈ outline.members) →
      property (outline.streamOperator members)
  equalityOperator : property outline.equalityOperator
  boolOperator : property Outline.boolOperator

namespace Outline.EachFunction

variable {outline : Outline} {property : GeneratedFunction → Prop}

theorem partFunctions
    (each : outline.EachFunction property)
    (coverage : Coverage)
    (action : Action) :
    ∀ function ∈ outline.partFunctions coverage action, property function := by
  have covered {allowStatic : Bool} : ∀ member ∈ coverage.membersOf allowStatic outline,
      member ∈ outline.members := fun _ => Coverage.mem_of_mem_membersOf
  have getters : ∀ function ∈ (coverage.membersOf true outline).map DataMember.getter,
      property function := by
    intro function isFunction
    obtain ⟨member, isMember, rfl⟩ := List.mem_map.mp isFunction
    exact each.getter member (covered member isMember)
  have setters : ∀ function ∈ (coverage.membersOf true outline).map (DataMember.setter outline),
      property function := by
    intro function isFunction
    obtain ⟨member, isMember, rfl⟩ := List.mem_map.mp isFunction
    exact each.setter member (covered member isMember)
  have single {only : GeneratedFunction} (holds : property only) :
      ∀ function ∈ [only], property function := by
    simpa using holds
  cases action with
  | all => exact fun _ isFunction => absurd isFunction List.not_mem_nil
  | constructor => exact single (each.constructor _ covered)
  | destructor => exact single each.destructor
  | copySemantics => exact each.copySemantics
  | moveSemantics => exact each.moveSemantics
  | getters => exact getters
  | setters => exact setters
  | gettersAndSetters =>
    intro function isFunction
    exact (List.mem_append.mp isFunction).elim (getters function) (setters function)
  | stringConversion => exact single each.stringConversion
  | streamOperator => exact single (each.streamOperator _ covered)
  | equalityOperator => exact single each.equalityOperator
  | boolOperator => exact single each.boolOperator

/-- Each function of an action has the property. -/
theorem functions
    (each : outline.EachFunction property)
    (action : Action)
    (coverage : Coverage) :
    ∀ function ∈ outline.functions action coverage, property function := by
  intro function isFunction
  rw [Outline.functions] at isFunction
  split at isFunction
  · obtain ⟨part, -, isPart⟩ := List.mem_flatMap.mp isFunction
    exact each.partFunctions .all part function isPart
  · exact each.partFunctions coverage action function isFunction

end Outline.EachFunction

/-! ## Declarators -/

/-- A declarator: the own name of a function, its parameters and the qualifiers behind them. -/
structure Declarator where
  ownName : Text
  parameters : List Text := []
  qualifiers : Text := []

/-- The text of a declarator. -/
def Declarator.text (declarator : Declarator) : Text :=
  declarator.ownName ++ (['('] ++ commaSeparated declarator.parameters ++ [')'])
    ++ declarator.qualifiers

section Declarators

variable (outline : Outline) (member : DataMember) (members : List DataMember)

theorem DataMember.declarator_getter :
    member.getter.declarator =
      Declarator.text
        { ownName := "get".toList ++ member.accessorName, qualifiers := " const".toList } := by
  rw [Declarator.text, List.append_assoc _ _ " const".toList]
  rfl

theorem DataMember.declarator_setter :
    (member.setter outline).declarator =
      Declarator.text
        { ownName := "set".toList ++ member.accessorName
          parameters := [member.parameter "val".toList] } := by
  simp only [DataMember.setter, Declarator.text, commaSeparated, List.intercalate_singleton,
    List.append_assoc, List.append_nil]

theorem Outline.declarator_constructor :
    (outline.constructor members).declarator =
      Declarator.text
        { ownName := outline.ownName
          parameters := members.map fun member => member.parameter member.name } := by
  simp only [Outline.constructor, Declarator.text, List.append_assoc, List.append_nil]

theorem Outline.declarator_destructor :
    outline.destructor.declarator = Declarator.text { ownName := ['~'] ++ outline.ownName } := by
  rw [Declarator.text, List.append_nil]
  rfl

/-- The one parameter of a constructor or an assignment. -/
theorem Outline.declarator_semantics (name parameter : Text) :
    name ++ (['('] ++ parameter ++ [')']) =
      Declarator.text { ownName := name, parameters := [parameter] } := by
  simp only [Declarator.text, commaSeparated, List.intercalate_singleton, List.append_nil]

theorem Outline.declarator_stringConversion :
    Outline.stringConversion.declarator =
      Declarator.text { ownName := "toString".toList, qualifiers := " const".toList } :=
  rfl

theorem Outline.declarator_streamOperator :
    (outline.streamOperator members).declarator =
      Declarator.text
        { ownName := "operator<<".toList
          parameters :=
            ["std::ostream &os".toList, "const ".toList ++ outline.name ++ " &obj".toList] } := by
  have joined (first second : Text) :
      commaSeparated [first, second] = first ++ ([',', ' '] ++ second) := by
    simp [commaSeparated, List.intercalate]
  have written : (outline.streamOperator members).declarator =
      "operator<<(std::ostream &os, const ".toList ++ outline.name ++ " &obj)".toList := rfl
  rw [written, Declarator.text, joined]
  simp only [List.append_assoc, List.append_nil]
  rfl

theorem Outline.declarator_equalityOperator :
    outline.equalityOperator.declarator =
      Declarator.text
        { ownName := "operator==".toList
          parameters := ["const ".toList ++ outline.name ++ " &rhs".toList]
          qualifiers := " const".toList } := by
  have written : outline.equalityOperator.declarator =
      "operator==(const ".toList ++ outline.name ++ " &rhs) const".toList := rfl
  rw [written]
  simp only [Declarator.text, commaSeparated, List.intercalate_singleton, List.append_assoc]
  rfl

theorem Outline.declarator_boolOperator :
    Outline.boolOperator.declarator =
      Declarator.text { ownName := "operator bool".toList, qualifiers := " const".toList } :=
  rfl

end Declarators

/-! ## Properties that are kept -/

namespace Code

/-- The characters that enclose texts in generated code, and the end of the line. -/
def delimiters : Text :=
  "\n\"()\x7b\x7d".toList

/-- A text without enclosing characters, on one line. -/
def Undelimited (text : Text) : Prop :=
  ∀ character ∈ text, character ∉ delimiters

instance (text : Text) : Decidable (Undelimited text) :=
  inferInstanceAs (Decidable (∀ character ∈ text, _))

/-- Delimiters have no capital form. -/
theorem capital_of_mem_delimiters :
    ∀ character ∈ delimiters, Text.capital character = [character] := by
  decide +kernel

/-- Capital letters and the characters behind the closing brace are no delimiters. -/
theorem ofNat_not_mem_delimiters
    {code : Nat}
    (isCapital : 65 ≤ code ∧ code ≤ 90 ∨ 126 ≤ code) :
    Char.ofNat code ∉ delimiters := by
  have codes : ∀ delimiter ∈ delimiters, delimiter.toNat ≠ 0 ∧
      (delimiter.toNat < 65 ∨ 90 < delimiter.toNat ∧ delimiter.toNat < 126) := by
    decide
  -- A number that is no code point stands for the character with the code zero.
  have value : (Char.ofNat code).toNat = code ∨ (Char.ofNat code).toNat = 0 := by
    by_cases isCodePoint : code.isValidChar
    · rw [Char.ofNat, dif_pos isCodePoint]
      exact .inl rfl
    · rw [Char.ofNat, dif_neg isCodePoint]
      exact .inr rfl
  intro isDelimiter
  have bounds := codes _ isDelimiter
  omega

/-- The capital form of a character that is no delimiter has none. -/
theorem undelimited_capital
    {character : Char}
    (noDelimiter : character ∉ delimiters) :
    Undelimited (Text.capital character) := by
  have forms : ∀ entry ∈ Text.capitalForms, Undelimited (entry.2.map Char.ofNat) := by
    decide +kernel
  have runs : ∀ run ∈ Text.capitalRuns,
      65 ≤ run.capital ∧ run.capital + (run.last - run.first) ≤ 90 ∨ 126 ≤ run.capital := by
    decide +kernel
  rw [Text.capital]
  split
  · next form found =>
    obtain ⟨front, back, shape⟩ := List.lookup_eq_some_iff.mp found
    exact forms (character.toNat, form) (by simp [shape])
  · split
    · next run found =>
      have inRun := List.find?_some found
      have bounds := runs run (List.mem_of_find?_eq_some found)
      simp only [Bool.and_eq_true, decide_eq_true_eq] at inRun
      exact List.forall_mem_singleton.mpr (ofNat_not_mem_delimiters (by omega))
    · exact List.forall_mem_singleton.mpr noDelimiter

/-- A property of texts that joining them keeps, and that delimiters alone can spoil. -/
structure KeptByJoining (property : Text → Prop) : Prop where
  undelimited : ∀ text, Undelimited text → property text
  append : ∀ {left right}, property left → property right → property (left ++ right)

/-- A property of texts that putting the parts of a function together keeps. -/
structure Kept (property : Text → Prop) : Prop extends KeptByJoining property where
  enclosed : ∀ {text}, property text → property (['('] ++ text ++ [')'])
  quoted : ∀ {text}, property text → property (['"'] ++ text ++ ['"'])
  capitalize : ∀ {name : Text}, property name → property name.capitalize

/-- A property holds of the names and the types of an outline. -/
structure HoldsOfNames (property : Text → Prop) (outline : Outline) : Prop where
  name : property outline.name
  ownName : property outline.ownName
  memberName : ∀ member ∈ outline.members, property member.name
  memberType : ∀ member ∈ outline.members, property member.declaredType

end Code

/-- The statements of a body. -/
def FunctionBody.statements : FunctionBody → List Text
  | .empty _ => []
  | .line statement => [statement]
  | .block statements => statements

/-- A property holds of all texts of a function. -/
structure GeneratedFunction.Throughout (property : Text → Prop) (function : GeneratedFunction) :
    Prop where
  specifier : property function.specifier
  result : property function.result
  declarator : property function.declarator
  initializers : ∀ initializer ∈ function.initializers, property initializer
  statements : ∀ statement ∈ function.body.statements, property statement

namespace Code.KeptByJoining

variable {property : Text → Prop} {function : GeneratedFunction}

theorem nothing
    (kept : KeptByJoining property) :
    property [] :=
  kept.undelimited [] (by decide)

theorem commaSeparated
    {entries : List Text}
    (kept : KeptByJoining property)
    (holds : ∀ entry ∈ entries, property entry) :
    property (commaSeparated entries) := by
  induction entries with
  | nil => exact kept.nothing
  | cons entry entries hypothesis =>
    have later := hypothesis fun other member => holds other (List.mem_cons_of_mem _ member)
    have here := holds entry List.mem_cons_self
    cases entries with
    | nil => rwa [ClassOutline.commaSeparated, List.intercalate_singleton]
    | cons next entries =>
      have separator := kept.undelimited [',', ' '] (by decide)
      have shape : ClassOutline.commaSeparated (entry :: next :: entries) =
          entry ++ ([',', ' '] ++ ClassOutline.commaSeparated (next :: entries)) := by
        simp [ClassOutline.commaSeparated, List.intercalate]
      rw [shape]
      exact kept.append here (kept.append separator later)

/-- A capital does not spoil the property, if the rest of a text has it whenever the text does. -/
theorem capitalize
    {name : Text}
    (kept : KeptByJoining property)
    (tail :
      ∀ {first : Char} {rest : Text}, first ∉ delimiters → property (first :: rest) →
        property rest)
    (holds : property name) :
    property name.capitalize := by
  cases name with
  | nil => exact holds
  | cons first rest =>
    by_cases isDelimiter : first ∈ delimiters
    · rw [Text.capitalize, capital_of_mem_delimiters first isDelimiter]
      exact holds
    · exact kept.append (kept.undelimited _ (undelimited_capital isDelimiter))
        (tail isDelimiter holds)

theorem initializerClause
    (kept : KeptByJoining property)
    (throughout : function.Throughout property) :
    property function.initializerClause := by
  rw [GeneratedFunction.initializerClause, initializerList]
  split
  · exact kept.nothing
  · exact kept.append (kept.undelimited " : ".toList (by decide))
      (kept.commaSeparated throughout.initializers)

theorem signature
    (kept : KeptByJoining property)
    (throughout : function.Throughout property) :
    property function.signature :=
  kept.append (kept.append throughout.specifier throughout.result) throughout.declarator

/-- The name of the class qualifies the functions that are members of it. -/
theorem qualifiedSignature
    {className : Text}
    (kept : KeptByJoining property)
    (throughout : function.Throughout property)
    (nameHolds : property className) :
    property (function.result ++ (if function.isMember then className ++ [':', ':'] else [])
      ++ function.declarator) := by
  refine kept.append (kept.append throughout.result ?_) throughout.declarator
  split
  · exact kept.append nameHolds (kept.undelimited [':', ':'] (by decide))
  · exact kept.nothing

end Code.KeptByJoining

namespace Code.Kept

open GeneratedFunction

variable {property : Text → Prop} {outline : Outline} {member : DataMember}

/-- A name, parenthesized arguments and what stands behind them. -/
theorem call
    {name arguments behind : Text}
    (kept : Kept property)
    (nameHolds : property name)
    (argumentsHold : property arguments)
    (behindHolds : property behind) :
    property (name ++ (['('] ++ arguments ++ [')']) ++ behind) :=
  kept.append (kept.append nameHolds (kept.enclosed argumentsHold)) behindHolds

theorem declarator
    {declarator : Declarator}
    (kept : Kept property)
    (ownName : property declarator.ownName)
    (parameters : ∀ parameter ∈ declarator.parameters, property parameter)
    (qualifiers : property declarator.qualifiers) :
    property declarator.text :=
  kept.call ownName (kept.commaSeparated parameters) qualifiers

/-! ### Functions of one data member -/

theorem parameter
    {name : Text}
    (kept : Kept property)
    (type : property member.declaredType)
    (holds : property name) :
    property (member.parameter name) := by
  rw [DataMember.parameter]
  split
  · exact kept.append (kept.append type (kept.undelimited " ".toList (by decide))) holds
  · exact kept.append (kept.append (kept.append (kept.undelimited "const ".toList (by decide)) type)
      (kept.undelimited " &".toList (by decide))) holds

theorem initializer
    {value : Text}
    (kept : Kept property)
    (name : property member.name)
    (holds : property value) :
    property (member.initializer value) := by
  rw [DataMember.initializer, List.append_assoc, List.append_assoc, ← List.append_assoc ['(']]
  exact kept.append name (kept.enclosed holds)

theorem getterType
    (kept : Kept property)
    (type : property member.declaredType) :
    property member.getterType := by
  have constant := kept.append (kept.undelimited "const ".toList (by decide)) type
  have blank := kept.undelimited " ".toList (by decide)
  rw [DataMember.getterType]
  split
  · split
    · exact kept.append type blank
    · exact kept.append constant blank
  · split
    · exact kept.append type blank
    · exact kept.append constant (kept.undelimited " &".toList (by decide))

theorem throughout_getter
    (kept : Kept property)
    (names : HoldsOfNames property outline)
    (isMember : member ∈ outline.members) :
    Throughout property member.getter where
  specifier := kept.nothing
  result := kept.getterType (names.memberType member isMember)
  declarator := by
    rw [DataMember.declarator_getter]
    exact kept.declarator
      (kept.append (kept.undelimited "get".toList (by decide))
        (kept.capitalize (names.memberName member isMember)))
      (fun _ member => absurd member List.not_mem_nil)
      (kept.undelimited " const".toList (by decide))
  initializers _ member := absurd member List.not_mem_nil
  statements := List.forall_mem_singleton.mpr
    (kept.append (kept.append (kept.undelimited "return ".toList (by decide))
      (names.memberName member isMember)) (kept.undelimited ";".toList (by decide)))

theorem throughout_setter
    (kept : Kept property)
    (names : HoldsOfNames property outline)
    (isMember : member ∈ outline.members) :
    Throughout property (member.setter outline) where
  specifier := kept.nothing
  result := kept.undelimited "void ".toList (by decide)
  declarator := by
    rw [DataMember.declarator_setter]
    exact kept.declarator
      (kept.append (kept.undelimited "set".toList (by decide))
        (kept.capitalize (names.memberName member isMember)))
      (List.forall_mem_singleton.mpr (kept.parameter (names.memberType member isMember)
        (kept.undelimited "val".toList (by decide))))
      kept.nothing
  initializers _ member := absurd member List.not_mem_nil
  statements := by
    refine List.forall_mem_singleton.mpr (kept.append (kept.append ?_
      (names.memberName member isMember)) (kept.undelimited " = val;".toList (by decide)))
    split
    · exact kept.append names.name (kept.undelimited "::".toList (by decide))
    · exact kept.undelimited "this->".toList (by decide)

/-! ### Functions of a class -/

theorem throughout_constructor
    {members : List DataMember}
    (kept : Kept property)
    (names : HoldsOfNames property outline)
    (areMembers : ∀ member ∈ members, member ∈ outline.members) :
    Throughout property (outline.constructor members) where
  specifier := kept.nothing
  result := kept.nothing
  declarator := by
    rw [Outline.declarator_constructor]
    refine kept.declarator names.ownName (fun parameter isParameter => ?_) kept.nothing
    obtain ⟨member, isMember, rfl⟩ := List.mem_map.mp isParameter
    exact kept.parameter (names.memberType member (areMembers member isMember))
      (names.memberName member (areMembers member isMember))
  initializers := by
    intro initializer isInitializer
    obtain ⟨member, isMember, rfl⟩ := List.mem_map.mp isInitializer
    have name := names.memberName member (areMembers member isMember)
    exact kept.initializer name name
  statements _ member := absurd member List.not_mem_nil

theorem throughout_destructor
    (kept : Kept property)
    (names : HoldsOfNames property outline) :
    Throughout property outline.destructor where
  specifier := kept.nothing
  result := kept.nothing
  declarator := kept.append (kept.append (kept.undelimited "~".toList (by decide)) names.ownName)
    (kept.enclosed kept.nothing)
  initializers _ member := absurd member List.not_mem_nil
  statements _ member := absurd member List.not_mem_nil

theorem throughout_semantics
    {otherParameter : Text}
    {source : Text → Text}
    (kept : Kept property)
    (names : HoldsOfNames property outline)
    (parameterHolds : property otherParameter)
    (sourceHolds : ∀ part, property part → property (source part)) :
    ∀ function ∈ outline.semantics otherParameter source, Throughout property function := by
  have arguments := kept.enclosed parameterHolds
  have other := kept.undelimited "rhs".toList (by decide)
  refine List.forall_mem_cons.mpr ⟨?_, List.forall_mem_singleton.mpr ?_⟩
  · refine
      { specifier := kept.nothing
        result := kept.nothing
        declarator := kept.append names.ownName arguments
        initializers := ?_
        statements := fun _ member => absurd member List.not_mem_nil }
    intro initializer isInitializer
    obtain ⟨member, isMember, rfl⟩ := List.mem_map.mp isInitializer
    have name := names.memberName member (List.mem_filter.mp isMember).1
    exact kept.initializer name (sourceHolds _
      (kept.append (kept.append other (kept.undelimited ".".toList (by decide))) name))
  · refine
      { specifier := kept.nothing
        result := kept.append names.name (kept.undelimited " &".toList (by decide))
        declarator := kept.append (kept.undelimited "operator=".toList (by decide)) arguments
        initializers := fun _ member => absurd member List.not_mem_nil
        statements := ?_ }
    have ending := kept.undelimited ";".toList (by decide)
    have checked := kept.call (kept.undelimited "if ".toList (by decide))
      (kept.undelimited "this == &rhs".toList (by decide))
      (kept.undelimited " return *this;".toList (by decide))
    have destroyed := kept.append
      (kept.append (kept.undelimited "this->~".toList (by decide)) names.ownName)
      (kept.append (kept.enclosed kept.nothing) ending)
    have renewed := kept.append
      (kept.call (kept.undelimited "new ".toList (by decide))
        (kept.undelimited "this".toList (by decide)) (kept.undelimited " ".toList (by decide)))
      (kept.append names.name (kept.append (kept.enclosed (sourceHolds _ other)) ending))
    have returned := kept.undelimited "return *this;".toList (by decide)
    have shape : "new (this) ".toList ++ outline.name ++ ['('] ++ source "rhs".toList ++
        ");".toList = "new ".toList ++ (['('] ++ "this".toList ++ [')']) ++ " ".toList ++
          (outline.name ++ (['('] ++ source "rhs".toList ++ [')'] ++ ";".toList)) := by
      simp only [List.append_assoc]
      rfl
    simp only [FunctionBody.statements, List.forall_mem_cons]
    rw [shape]
    exact ⟨checked, destroyed, renewed, returned, by simp⟩

theorem throughout_copySemantics
    (kept : Kept property)
    (names : HoldsOfNames property outline) :
    ∀ function ∈ outline.copySemantics, Throughout property function :=
  kept.throughout_semantics names
    (kept.append (kept.append (kept.undelimited "const ".toList (by decide)) names.name)
      (kept.undelimited " &rhs".toList (by decide)))
    fun _ holds => holds

theorem throughout_moveSemantics
    (kept : Kept property)
    (names : HoldsOfNames property outline) :
    ∀ function ∈ outline.moveSemantics, Throughout property function := by
  refine kept.throughout_semantics names
    (kept.append names.name (kept.undelimited " &&rhs".toList (by decide))) fun part holds => ?_
  have moved := kept.append (kept.undelimited "std::move".toList (by decide)) (kept.enclosed holds)
  rw [← List.append_assoc, ← List.append_assoc] at moved
  exact moved

theorem throughout_stringConversion
    (kept : Kept property) :
    Throughout property Outline.stringConversion where
  specifier := kept.nothing
  result := kept.undelimited "std::string ".toList (by decide)
  declarator := kept.call (kept.undelimited "toString".toList (by decide)) kept.nothing
    (kept.undelimited " const".toList (by decide))
  initializers _ member := absurd member List.not_mem_nil
  statements := by
    have opened := kept.undelimited "std::ostringstream os;".toList (by decide)
    have written := kept.undelimited "os << *this;".toList (by decide)
    have returned := kept.call (kept.undelimited "return os.str".toList (by decide)) kept.nothing
      (kept.undelimited ";".toList (by decide))
    simp only [Outline.stringConversion, FunctionBody.statements, List.forall_mem_cons]
    exact ⟨opened, written, returned, by simp⟩

/-- The name of the class and the names of members stand in literals, the values between them. -/
theorem throughout_streamOperator
    {members : List DataMember}
    (kept : Kept property)
    (names : HoldsOfNames property outline)
    (areMembers : ∀ member ∈ members, member ∈ outline.members) :
    Throughout property (outline.streamOperator members) where
  specifier := kept.undelimited "friend ".toList (by decide)
  result := kept.undelimited "std::ostream &".toList (by decide)
  declarator := by
    have stream := kept.undelimited "std::ostream &os".toList (by decide)
    have object := kept.append
      (kept.append (kept.undelimited "const ".toList (by decide)) names.name)
      (kept.undelimited " &obj".toList (by decide))
    rw [Outline.declarator_streamOperator]
    exact kept.declarator (kept.undelimited "operator<<".toList (by decide))
      (List.forall_mem_cons.mpr ⟨stream, List.forall_mem_singleton.mpr object⟩) kept.nothing
  initializers _ member := absurd member List.not_mem_nil
  statements := by
    have values : ∀ value ∈ members.map fun member =>
        member.name ++ "=\" << obj.".toList ++ member.name ++ " << \"".toList,
        property value := by
      intro value isValue
      obtain ⟨member, isMember, rfl⟩ := List.mem_map.mp isValue
      have name := names.memberName member (areMembers member isMember)
      have written := kept.append
        (kept.append (kept.undelimited " << obj.".toList (by decide)) name)
        (kept.undelimited " << ".toList (by decide))
      have shape : member.name ++ "=\" << obj.".toList ++ member.name ++ " << \"".toList =
          member.name ++ "=".toList ++
            (['"'] ++ (" << obj.".toList ++ member.name ++ " << ".toList) ++ ['"']) := by
        simp only [List.append_assoc]
        rfl
      rw [shape]
      exact kept.append (kept.append name (kept.undelimited "=".toList (by decide)))
        (kept.quoted written)
    have literal := kept.append
      (kept.append (kept.append names.name (kept.undelimited " [".toList (by decide)))
        (kept.commaSeparated values))
      (kept.undelimited "]".toList (by decide))
    have output := kept.append
      (kept.append (kept.undelimited "return os << ".toList (by decide)) (kept.quoted literal))
      (kept.undelimited ";".toList (by decide))
    have shape (list : Text) : "return os << \"".toList ++ outline.name ++ " [".toList ++ list ++
        "]\";".toList = "return os << ".toList ++
          (['"'] ++ (outline.name ++ " [".toList ++ list ++ "]".toList) ++ ['"']) ++
            ";".toList := by
      simp only [List.append_assoc]
      rfl
    refine List.forall_mem_singleton.mpr ?_
    rw [shape]
    exact output

theorem throughout_equalityOperator
    (kept : Kept property)
    (names : HoldsOfNames property outline) :
    Throughout property outline.equalityOperator where
  specifier := kept.nothing
  result := kept.undelimited "bool ".toList (by decide)
  declarator := by
    have parameter := kept.append
      (kept.append (kept.undelimited "const ".toList (by decide)) names.name)
      (kept.undelimited " &rhs".toList (by decide))
    rw [Outline.declarator_equalityOperator]
    exact kept.declarator (kept.undelimited "operator==".toList (by decide))
      (List.forall_mem_singleton.mpr parameter) (kept.undelimited " const".toList (by decide))
  initializers _ member := absurd member List.not_mem_nil
  statements := List.forall_mem_singleton.mpr (kept.undelimited "return false;".toList (by decide))

theorem throughout_boolOperator
    (kept : Kept property) :
    Throughout property Outline.boolOperator where
  specifier := kept.undelimited "explicit ".toList (by decide)
  result := kept.nothing
  declarator := kept.call (kept.undelimited "operator bool".toList (by decide)) kept.nothing
    (kept.undelimited " const".toList (by decide))
  initializers _ member := absurd member List.not_mem_nil
  statements := List.forall_mem_singleton.mpr (kept.undelimited "return true;".toList (by decide))

/-- What is kept and holds of the names and the types holds of all texts of all functions. -/
theorem throughout_functions
    (kept : Kept property)
    (names : HoldsOfNames property outline) :
    ∀ action coverage, ∀ function ∈ outline.functions action coverage,
      Throughout property function :=
  Outline.EachFunction.functions
    { constructor := fun _ => kept.throughout_constructor names
      destructor := kept.throughout_destructor names
      copySemantics := kept.throughout_copySemantics names
      moveSemantics := kept.throughout_moveSemantics names
      getter := fun _ => kept.throughout_getter names
      setter := fun _ => kept.throughout_setter names
      stringConversion := kept.throughout_stringConversion
      streamOperator := fun _ => kept.throughout_streamOperator names
      equalityOperator := kept.throughout_equalityOperator names
      boolOperator := kept.throughout_boolOperator }

end Code.Kept

end ClassOutline
