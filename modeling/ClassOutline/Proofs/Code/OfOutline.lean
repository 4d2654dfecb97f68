import ClassOutline.Proofs.Code.Functions
import ClassOutline.Proofs.Code.Unnoticed
/-!
# The functions of an outline

All functions that are generated for an outline go unnoticed if the names of the outline are inert:
the fixed fragments around the names are inert too, and no small letters meet where they are joined.
-/

namespace ClassOutline.Code

open Written

/-! ## Outlines with inert names -/

/-- The name and the type of a member are inert, and the type begins with a name. -/
structure InertMember (member : DataMember) : Prop where
  name : Inert [] member.name
  type : Inert nameMarks member.declaredType
  typeBegins : ∃ first ∈ member.declaredType.head?, isNameCharacter first = true

/-- The name of the class is inert, and its members are. -/
structure InertOutline (outline : Outline) : Prop where
  name : Inert nameMarks outline.name
  nameBegins : ∃ first ∈ outline.name.head?, isNameCharacter first = true
  members : ∀ member ∈ outline.members, InertMember member

/-! ## Accessors -/

section Accessors

variable {member : DataMember}

theorem InertMember.nameMarks
    (inert : InertMember member) :
    Inert nameMarks member.name :=
  inert.name.mono (by simp)

/-- A parameter begins with a name. -/
theorem inert_parameter
    {name : Text}
    (inert : InertMember member)
    (inertName : Inert nameMarks name) :
    Inert nameMarks (member.parameter name) ∧
      ∃ first ∈ (member.parameter name).head?, isNameCharacter first = true := by
  have separated : Sealed nameMarks [' '] := by decide
  have mark : Sealed nameMarks " &".toList := by decide
  have constant : Sealed nameMarks "const ".toList := by decide
  rw [DataMember.parameter]
  cases member.byValue with
  | true =>
    obtain ⟨first, isFirst, isName⟩ := inert.typeBegins
    refine ⟨(inert.type.append_sealed separated (by decide)).append inertName, first, ?_, isName⟩
    simp [Option.mem_def.mp isFirst]
  | false =>
    exact ⟨((constant.append inert.type).append_sealed mark (by decide)).append inertName, 'c', rfl,
      by decide⟩

theorem sealed_getterType
    (inert : InertMember member) :
    Sealed nameMarks member.getterType := by
  have separated : Sealed nameMarks [' '] := by decide
  have mark : Sealed nameMarks " &".toList := by decide
  have constant : Sealed nameMarks "const ".toList := by decide
  have asWritten := inert.type.append_sealed separated (by decide)
  rw [DataMember.getterType]
  split
  · split
    · exact asWritten
    · exact (constant.append inert.type).append_sealed separated (by decide)
  · split
    · exact asWritten
    · exact (constant.append inert.type).append_sealed mark (by decide)

/-- An accessor is named by a word and the capitalized name of the member. -/
theorem isLabel_accessor
    {word : Text}
    (inert : InertMember member)
    (inertWord : Inert nameMarks word) :
    IsLabel (word ++ member.accessorName) :=
  .inr ((inert_append_capitalize inertWord inert.name).mono (by decide))

theorem unnoticed_getter
    (inert : InertMember member) :
    Unnoticed member.getter where
  specifier := List.mem_cons_self
  result := sealed_getterType inert
  declarator :=
    ⟨"get".toList ++ member.accessorName, ") const".toList, rfl,
      isLabel_accessor inert (by decide), isParameterList_closing _ (by decide)⟩
  initializers _ member := absurd member List.not_mem_nil
  body := by
    have returned : Sealed nameMarks "return ".toList := by decide
    exact ⟨"return ".toList ++ member.name, rfl,
      closed_of_plain (returned.append inert.nameMarks).plain⟩

theorem unnoticed_setter
    {outline : Outline}
    (inertOutline : InertOutline outline)
    (inert : InertMember member) :
    Unnoticed (member.setter outline) where
  specifier := List.mem_cons_self
  result := by
    change Sealed nameMarks "void ".toList
    decide
  declarator := by
    obtain ⟨inertParameter, begins⟩ := @inert_parameter member "val".toList inert (by decide)
    refine ⟨"set".toList ++ member.accessorName, member.parameter "val".toList ++ [')'], ?_,
      isLabel_accessor inert (by decide),
      isParameterList_append (closed_of_plain inertParameter.plain) begins (by decide)⟩
    rw [DataMember.setter, List.append_assoc _ ['('], List.append_assoc]
    rfl
  initializers _ member := absurd member List.not_mem_nil
  body := by
    have value : Inert plainMarks " = val".toList := by decide
    have scope : Sealed plainMarks "::".toList := by decide
    have object : Sealed plainMarks "this->".toList := by decide
    have owner : Sealed plainMarks
        (if member.isStatic then outline.name ++ "::".toList else "this->".toList) := by
      split
      · exact inertOutline.name.plain.append_sealed scope (by decide)
      · exact object
    refine ⟨_, ?_, closed_of_plain
      ((owner.append inert.nameMarks.plain).append value (by decide))⟩
    rw [List.append_assoc _ " = val".toList]
    rfl

end Accessors

/-! ## Constructors, assignments and the destructor -/

section Constructors

variable {outline : Outline}

theorem InertOutline.ownName
    (inert : InertOutline outline) :
    Inert nameMarks outline.ownName :=
  inert.name.of_isInfix outline.ownName_isInfix

theorem InertOutline.isLabel_ownName
    (inert : InertOutline outline) :
    IsLabel outline.ownName :=
  .inr (inert.ownName.mono (by decide))

/-- The initializer of a member by a value without open parentheses. -/
theorem closed_initializer
    {member : DataMember}
    {value : Text}
    (inert : InertMember member)
    (closedValue : Closed value) :
    Closed (member.initializer value) :=
  closed_call (closed_of_plain inert.nameMarks.plain) closedValue

theorem begins_commaSeparated
    {entry : Text}
    (entries : List Text)
    (begins : ∃ first ∈ entry.head?, isNameCharacter first = true) :
    ∃ first ∈ (commaSeparated (entry :: entries)).head?, isNameCharacter first = true := by
  cases entries with
  | nil => rwa [commaSeparated, List.intercalate_singleton]
  | cons next entries =>
    rw [commaSeparated, List.intercalate_cons_cons, List.append_assoc]
    exact Text.exists_head?_append begins _

/-- The parameters of a constructor. -/
theorem isParameterList_parameters
    {members : List DataMember}
    (inert : ∀ member ∈ members, InertMember member) :
    IsParameterList
      (commaSeparated (members.map fun member => member.parameter member.name) ++ [')']) := by
  cases members with
  | nil => exact isParameterList_closing _ (by decide)
  | cons member members =>
    have inertFirst := inert member List.mem_cons_self
    have inertAll : ∀ entry ∈ (member :: members).map fun member => member.parameter member.name,
        Inert nameMarks entry := by
      intro entry isEntry
      obtain ⟨other, isMember, rfl⟩ := List.mem_map.mp isEntry
      have inertOther := inert other isMember
      exact (inert_parameter inertOther inertOther.nameMarks).1
    exact isParameterList_append (closed_of_plain (inert_commaSeparated inertAll (by decide)).plain)
      (begins_commaSeparated _ (inert_parameter inertFirst inertFirst.nameMarks).2) (by decide)

theorem unnoticed_constructor
    {members : List DataMember}
    (inertOutline : InertOutline outline)
    (inert : ∀ member ∈ members, InertMember member) :
    Unnoticed (outline.constructor members) where
  specifier := List.mem_cons_self
  result := by
    change Sealed nameMarks []
    decide
  declarator := by
    refine ⟨_, _, ?_, inertOutline.isLabel_ownName, isParameterList_parameters inert⟩
    rw [Outline.constructor, List.append_assoc _ ['('], List.append_assoc]
    rfl
  initializers := by
    intro initializer isInitializer
    obtain ⟨member, isMember, rfl⟩ := List.mem_map.mp isInitializer
    have inertMember := inert member isMember
    exact closed_initializer inertMember (closed_of_plain inertMember.nameMarks.plain)
  body := trivial

theorem unnoticed_destructor
    (inert : InertOutline outline) :
    Unnoticed outline.destructor where
  specifier := List.mem_cons_self
  result := by
    change Sealed nameMarks []
    decide
  declarator := by
    have tilde : Sealed ('~' :: nameMarks) ['~'] := by decide
    refine ⟨['~'] ++ outline.ownName, [')'], ?_,
      .inr (tilde.append (inert.ownName.mono (by decide))), isParameterList_closing _ (by decide)⟩
    rfl
  initializers _ member := absurd member List.not_mem_nil
  body := trivial

/-- The body that destroys an object and constructs it anew from another value. -/
theorem unnoticed_reconstruction
    {value : Text}
    (inert : InertOutline outline)
    (closed : Closed value) :
    IsUnnoticedBody (.block
      ["if (this == &rhs) return *this;".toList,
        "this->~".toList ++ outline.ownName ++ "();".toList,
        "new (this) ".toList ++ outline.name ++ ['('] ++ value ++ ");".toList,
        "return *this;".toList]) := by
  have object : Sealed plainMarks "this->~".toList := by decide
  have closedOwn := closed_of_plain (object.append inert.ownName.plain)
  have anew : Sealed headerMarks "new (this) ".toList := by decide
  have anewParens : Statement.parens "new (this) ".toList = 0 := by decide
  have closedName : Closed ("new (this) ".toList ++ outline.name) :=
    ⟨anew.append inert.name.plain.header, by
      rw [Statement.parens_append, anewParens, inert.name.plain.parens_eq_zero]
      rfl⟩
  have destroyed := statement_of_closed (closed_call closedOwn (@closed_of_plain [] (by decide)))
  have constructed := statement_of_closed (closed_call closedName closed)
  have closedGuard : Closed "if (this == &rhs) return *this".toList := ⟨by decide, by decide⟩
  have closedResult : Closed "return *this".toList := ⟨by decide, by decide⟩
  intro statement isStatement
  simp only [List.mem_cons, List.not_mem_nil, or_false] at isStatement
  rcases isStatement with rfl | rfl | rfl | rfl
  · exact statement_of_closed closedGuard
  · simpa using destroyed
  · simpa using constructed
  · exact statement_of_closed closedResult

/-- The functions that take over another object, given how they write it and its parts. -/
theorem unnoticed_semantics
    {otherParameter : Text}
    {source : Text → Text}
    (inert : InertOutline outline)
    (inertOther : Inert nameMarks otherParameter)
    (begins : ∃ first ∈ otherParameter.head?, isNameCharacter first = true)
    (closedSource : ∀ part, Closed part → Closed (source part)) :
    ∀ function ∈ outline.semantics otherParameter source, Unnoticed function := by
  have parameters : IsParameterList (otherParameter ++ [')']) :=
    isParameterList_append (closed_of_plain inertOther.plain) begins (by decide)
  have other : Inert plainMarks "rhs".toList := by decide
  intro function isFunction
  rw [Outline.semantics, List.mem_cons, List.mem_singleton] at isFunction
  rcases isFunction with rfl | rfl
  · constructor
    · exact List.mem_cons_self
    · change Sealed nameMarks []
      decide
    · exact ⟨_, _, rfl, inert.isLabel_ownName, parameters⟩
    · intro initializer isInitializer
      obtain ⟨member, isMember, rfl⟩ := List.mem_map.mp isInitializer
      have inertMember := inert.members member (List.mem_filter.mp isMember).1
      have dot : Sealed plainMarks ['.'] := by decide
      exact closed_initializer inertMember (closedSource _ (closed_of_plain
        ((other.append_sealed dot (by decide)).append inertMember.nameMarks.plain)))
    · trivial
  · constructor
    · exact List.mem_cons_self
    · have mark : Sealed nameMarks " &".toList := by decide
      exact inert.name.append_sealed mark (by decide)
    · exact ⟨_, _, rfl, .inl (by decide), parameters⟩
    · exact fun _ member => absurd member List.not_mem_nil
    · exact unnoticed_reconstruction inert (closedSource _ (closed_of_plain other))

end Constructors

/-! ## Conversions and operators -/

section Operators

variable {outline : Outline}

theorem unnoticed_stringConversion : Unnoticed Outline.stringConversion where
  specifier := List.mem_cons_self
  result := by
    change Sealed nameMarks "std::string ".toList
    decide
  declarator :=
    ⟨"toString".toList, ") const".toList, rfl, .inr (by decide),
      isParameterList_closing _ (by decide)⟩
  initializers _ member := absurd member List.not_mem_nil
  body := by
    have closedStream : Closed "std::ostringstream os".toList := ⟨by decide, by decide⟩
    have closedOutput : Closed "os << *this".toList := ⟨by decide, by decide⟩
    have closedResult : Closed "return os.str()".toList := ⟨by decide, by decide⟩
    intro statement isStatement
    simp only [List.mem_cons, List.not_mem_nil, or_false] at isStatement
    rcases isStatement with rfl | rfl | rfl
    · exact statement_of_closed closedStream
    · exact statement_of_closed closedOutput
    · exact statement_of_closed closedResult

/-- The statement that writes the values of members, each behind its name, in literals. -/
theorem inert_output
    {members : List DataMember}
    (inert : InertOutline outline)
    (inertMembers : ∀ member ∈ members, InertMember member) :
    Inert literalMarks
      ("return os << \"".toList ++ outline.name ++ " [".toList ++
        commaSeparated (members.map fun member =>
          member.name ++ "=\" << obj.".toList ++ member.name ++ " << \"".toList) ++
        "]\";".toList) := by
  have output : Sealed literalMarks "return os << \"".toList := by decide
  have listOpens : Sealed literalMarks " [".toList := by decide
  have listCloses : Sealed literalMarks "]\";".toList := by decide
  have sign : Sealed literalMarks "=\" << obj.".toList := by decide
  have ending : Sealed literalMarks " << \"".toList := by decide
  have inertValues : ∀ value ∈ members.map (fun member =>
      member.name ++ "=\" << obj.".toList ++ member.name ++ " << \"".toList),
      Inert literalMarks value := by
    intro value isValue
    obtain ⟨member, isMember, rfl⟩ := List.mem_map.mp isValue
    have inertName : Inert literalMarks member.name :=
      (inertMembers member isMember).name.mono (by simp)
    exact (((inertName.append_sealed sign (by decide)).append inertName).append_sealed ending
      (by decide)).toInert
  have front := (output.append (inert.name.mono (by decide))).append_sealed listOpens (by decide)
  exact ((front.append (inert_commaSeparated inertValues (by decide))).append_sealed listCloses
    (by decide)).toInert

theorem unnoticed_streamOperator
    {members : List DataMember}
    (inert : InertOutline outline)
    (inertMembers : ∀ member ∈ members, InertMember member) :
    Unnoticed (outline.streamOperator members) where
  specifier := List.mem_cons_of_mem _ List.mem_cons_self
  result := by
    change Sealed nameMarks "std::ostream &".toList
    decide
  declarator := by
    have stream : Sealed nameMarks "std::ostream &os, const ".toList := by decide
    have object : Inert nameMarks " &obj".toList := by decide
    have inertParameters := (stream.append inert.name).append object (by decide)
    refine ⟨"operator<<".toList,
      "std::ostream &os, const ".toList ++ outline.name ++ " &obj".toList ++ ")".toList, ?_,
      .inl (by decide), isParameterList_append (closed_of_plain inertParameters.plain)
        ⟨'s', rfl, by decide⟩ (by decide)⟩
    rw [List.append_assoc _ " &obj".toList]
    rfl
  initializers _ member := absurd member List.not_mem_nil
  body := by
    have inertStatement := inert_output inert inertMembers
    have parenless : Statement.Parenless
        ("return os << \"".toList ++ outline.name ++ " [".toList ++
          commaSeparated (members.map fun member =>
            member.name ++ "=\" << obj.".toList ++ member.name ++ " << \"".toList) ++
          "]\";".toList) := fun character member =>
      ⟨fun opens => inertStatement.not_mem (by decide) (by decide) (opens ▸ member),
        fun closes => inertStatement.not_mem (by decide) (by decide) (closes ▸ member)⟩
    intro statement isStatement
    obtain rfl := List.mem_singleton.mp isStatement
    exact ⟨inertStatement.mono (by decide), parens_after _ parenless⟩

theorem unnoticed_equalityOperator
    (inert : InertOutline outline) :
    Unnoticed outline.equalityOperator where
  specifier := List.mem_cons_self
  result := by
    change Sealed nameMarks "bool ".toList
    decide
  declarator := by
    have constant : Sealed nameMarks "const ".toList := by decide
    have other : Inert nameMarks " &rhs".toList := by decide
    have inertParameter := (constant.append inert.name).append other (by decide)
    refine ⟨"operator==".toList,
      "const ".toList ++ outline.name ++ " &rhs".toList ++ ") const".toList, ?_,
      .inl (by decide), isParameterList_append (closed_of_plain inertParameter.plain)
        ⟨'c', rfl, by decide⟩ (by decide)⟩
    rw [List.append_assoc _ " &rhs".toList]
    rfl
  initializers _ member := absurd member List.not_mem_nil
  body := ⟨"return false".toList, rfl, by decide, by decide⟩

theorem unnoticed_boolOperator : Unnoticed Outline.boolOperator where
  specifier := List.mem_cons_of_mem _ (List.mem_cons_of_mem _ List.mem_cons_self)
  result := by
    change Sealed nameMarks []
    decide
  declarator :=
    ⟨"operator bool".toList, ") const".toList, rfl, .inl (by decide),
      isParameterList_closing _ (by decide)⟩
  initializers _ member := absurd member List.not_mem_nil
  body := ⟨"return true".toList, rfl, by decide, by decide⟩

end Operators

/-! ## Actions -/

section Actions

variable {outline : Outline}

theorem unnoticed_copySemantics
    (inert : InertOutline outline) :
    ∀ function ∈ outline.copySemantics, Unnoticed function := by
  have constant : Sealed nameMarks "const ".toList := by decide
  have other : Inert nameMarks " &rhs".toList := by decide
  exact unnoticed_semantics inert ((constant.append inert.name).append other (by decide))
    ⟨'c', rfl, by decide⟩ fun _ closed => closed

theorem unnoticed_moveSemantics
    (inert : InertOutline outline) :
    ∀ function ∈ outline.moveSemantics, Unnoticed function := by
  have other : Inert nameMarks " &&rhs".toList := by decide
  have moved : Closed "std::move".toList := ⟨by decide, by decide⟩
  exact unnoticed_semantics inert (inert.name.append other (by decide))
    (Text.exists_head?_append inert.nameBegins _) fun part closed => closed_call moved closed

/-- No function that is generated for an outline with inert names is noticed. -/
theorem unnoticed_functions
    (inert : InertOutline outline)
    (action : Action)
    (coverage : Coverage) :
    ∀ function ∈ outline.functions action coverage, Unnoticed function := by
  have inertMembers {members : List DataMember}
      (areMembers : ∀ member ∈ members, member ∈ outline.members) :
      ∀ member ∈ members, InertMember member :=
    fun member isMember => inert.members member (areMembers member isMember)
  exact Outline.EachFunction.functions
    { constructor := fun _ areMembers => unnoticed_constructor inert (inertMembers areMembers)
      destructor := unnoticed_destructor inert
      copySemantics := unnoticed_copySemantics inert
      moveSemantics := unnoticed_moveSemantics inert
      getter := fun member isMember => unnoticed_getter (inert.members member isMember)
      setter := fun member isMember => unnoticed_setter inert (inert.members member isMember)
      stringConversion := unnoticed_stringConversion
      streamOperator := fun _ areMembers => unnoticed_streamOperator inert (inertMembers areMembers)
      equalityOperator := unnoticed_equalityOperator inert
      boolOperator := unnoticed_boolOperator }
    action coverage

end Actions

end ClassOutline.Code
