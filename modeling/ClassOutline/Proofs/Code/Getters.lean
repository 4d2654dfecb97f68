import ClassOutline.Proofs.Code.Actions
import ClassOutline.Proofs.Text.Append
import ClassOutline.Proofs.Text.Words
/-!
# Result types of getters

A getter is not to let its caller change the member.  It returns a fundamental member as it is
declared, any other member as a constant reference, and an array as a pointer to constants: the
first word of that type is `const`, which is put in front of the declared type unless it stands
there.

The rule is followed for everything but arrays.  The type of an array is taken to be constant if its
text begins with the letters of `const`, and these need not be a word: the type of an array of
`constant_t` is returned as it is declared.  Blanks in front of the word hide it in turn.
-/

namespace ClassOutline

/-! ## The type of a member that may not be changed -/

namespace DataMember

/-- The type under which a member can be handed out without being exposed to changes. -/
def constantType (member : DataMember) : Text :=
  if member.isArray then
    if member.declaredType.words.head? = some "const".toList then member.declaredType
    else "const ".toList ++ member.declaredType
  else if member.byValue then member.declaredType
  else "const ".toList ++ member.declaredType ++ " &".toList

/-- That type as the result of a function: a name follows a reference mark without a blank. -/
def constantResult (member : DataMember) : Text :=
  member.constantType ++ if member.isArray || member.byValue then [' '] else []

/-- In that type of an array, `const` is the first word. -/
theorem head?_words_constantType
    {member : DataMember}
    (isArray : member.isArray = true) :
    member.constantType.words.head? = some "const".toList := by
  rw [constantType, if_pos isArray]
  split
  · assumption
  · have shape : "const ".toList ++ member.declaredType =
        "const".toList ++ ' ' :: member.declaredType := rfl
    rw [shape]
    exact Text.head?_words_append_cons (by decide) (by decide) (by decide) _

/-- The type of an array begins with the letters `const` exactly if they are its first word. -/
def ShowsConst (member : DataMember) : Prop :=
  member.isArray = true →
    ("const".toList <+: member.declaredType ↔
      member.declaredType.words.head? = some "const".toList)

variable {member : DataMember}

theorem getterType_of_showsConst
    (shows : member.ShowsConst) :
    member.getterType = member.constantResult := by
  rw [getterType, constantResult, constantType]
  cases isArray : member.isArray with
  | true =>
    simp only [if_true, Bool.true_or, List.isPrefixOf_iff_prefix, shows isArray]
    split <;> rfl
  | false =>
    cases member.byValue with
    | true => rfl
    | false => exact (List.append_nil _).symm

/-- The word is missing where the letters stand in front of a longer word. -/
theorem clash_of_letters
    {type : Text}
    (begins : "const".toList <+: type)
    (notFirst : type.words.head? ≠ some "const".toList) :
    Text.Clash (type ++ [' ']) ("const ".toList ++ type ++ [' ']) := by
  obtain ⟨rest, rfl⟩ := begins
  cases rest with
  | nil => exact absurd (by decide) notFirst
  | cons first rest =>
    have noSpace : first ≠ ' ' := by
      rintro rfl
      exact notFirst (Text.head?_words_append_cons (by decide) (by decide) (by decide) rest)
    have clash := Text.clash_append_cons noSpace "const".toList (rest ++ [' '])
      ("const".toList ++ first :: rest ++ [' '])
    rwa [List.append_assoc, List.append_assoc]

/-- The word is put in front a second time where blanks stand in front of the first. -/
theorem clash_of_blanks
    {type : Text}
    (notBegins : ¬ "const".toList <+: type)
    (isFirst : type.words.head? = some "const".toList) :
    Text.Clash ("const ".toList ++ type ++ [' ']) (type ++ [' ']) := by
  cases type with
  | nil => contradiction
  | cons first rest =>
    have notLetter : 'c' ≠ first := by
      rintro rfl
      exact notBegins (Text.isPrefix_of_head?_words isFirst (by decide))
    exact Text.clash_append_cons notLetter [] _ _

theorem clash_of_not_showsConst
    (notShown : ¬ member.ShowsConst) :
    Text.Clash member.getterType member.constantResult := by
  rw [ShowsConst, Classical.not_imp] at notShown
  obtain ⟨isArray, notShown⟩ := notShown
  simp only [getterType, constantResult, constantType, isArray, if_true, Bool.true_or,
    List.isPrefixOf_iff_prefix]
  by_cases begins : "const".toList <+: member.declaredType
  · have notFirst : member.declaredType.words.head? ≠ some "const".toList := fun isFirst =>
      notShown (iff_of_true begins isFirst)
    rw [if_pos begins, if_neg notFirst]
    exact clash_of_letters begins notFirst
  · have isFirst : member.declaredType.words.head? = some "const".toList :=
      Decidable.byContradiction fun notFirst => notShown (iff_of_false begins notFirst)
    rw [if_neg begins, if_pos isFirst]
    exact clash_of_blanks begins isFirst

instance : Decidable member.ShowsConst :=
  inferInstanceAs (Decidable (_ → _))

theorem getterType_eq_iff : member.getterType = member.constantResult ↔ member.ShowsConst :=
  ⟨fun same => Decidable.byContradiction fun notShown =>
    (clash_of_not_showsConst notShown).ne same, getterType_of_showsConst⟩

theorem clash_of_getterType_ne
    (different : member.getterType ≠ member.constantResult) :
    Text.Clash member.getterType member.constantResult :=
  clash_of_not_showsConst fun shows => different (getterType_of_showsConst shows)

end DataMember

/-! ## The getters of a class -/

/--
The code is made of a getter for each member, all with results that are written as given: inside the
class, or declared there and defined behind it.
-/
def GeneratedCode.AreGetters
    (className indent : Text)
    (members : List DataMember)
    (result : DataMember → Text) :
    GeneratedCode → Prop
  | .inside text =>
    text = members.flatMap fun member =>
      ['\n'] ++ indent ++ result member ++
        ("get".toList ++ member.accessorName ++ "() const \x7b return ".toList ++ member.name ++
          "; \x7d\n".toList)
  | .apart declaration definition =>
    (declaration = members.flatMap fun member =>
      indent ++ result member ++ ("get".toList ++ member.accessorName ++ "() const;\n".toList)) ∧
      definition = members.flatMap fun member =>
        ['\n'] ++ result member ++
          (className ++ "::get".toList ++ member.accessorName ++ "() const \x7b return ".toList ++
            member.name ++ "; \x7d\n".toList)

section Renderings

variable (member : DataMember) (className indent : Text)

theorem DataMember.inside_getter :
    member.getter.inside indent =
      ['\n'] ++ indent ++ member.getterType ++
        ("get".toList ++ member.accessorName ++ "() const \x7b return ".toList ++ member.name ++
          "; \x7d\n".toList) := by
  simp only [GeneratedFunction.inside, DataMember.getter, GeneratedFunction.signature,
    GeneratedFunction.initializerClause, FunctionBody.render, List.append_assoc]
  rfl

theorem DataMember.declaration_getter :
    member.getter.declaration indent =
      indent ++ member.getterType ++
        ("get".toList ++ member.accessorName ++ "() const;\n".toList) := by
  simp only [GeneratedFunction.declaration, DataMember.getter, GeneratedFunction.signature,
    List.append_assoc]
  rfl

theorem DataMember.definition_getter :
    member.getter.definition className indent =
      ['\n'] ++ member.getterType ++
        (className ++ "::get".toList ++ member.accessorName ++ "() const \x7b return ".toList ++
          member.name ++ "; \x7d\n".toList) := by
  simp only [GeneratedFunction.definition, DataMember.getter, if_true,
    GeneratedFunction.initializerClause, FunctionBody.render, List.append_assoc]
  rfl

end Renderings

/-- The getters of a class have given results if they are written with them. -/
theorem Writer.areGetters_iff
    (writer : Writer)
    (coverage : Coverage)
    {result : DataMember → Text}
    (clash : ∀ member ∈ coverage.membersOf true writer.outline,
      member.getterType ≠ result member → Text.Clash member.getterType (result member)) :
    (writer.getters coverage).AreGetters writer.outline.name writer.indent
        (coverage.membersOf true writer.outline) result ↔
      ∀ member ∈ coverage.membersOf true writer.outline, member.getterType = result member := by
  rw [Writer.getters, (writer.covers coverage).getters, Writer.code]
  cases writer.placement with
  | inside =>
    simp only [GeneratedCode.AreGetters, List.flatMap_map, DataMember.inside_getter]
    exact Text.flatMap_eq_flatMap_iff _ _ clash
  | apart =>
    simp only [GeneratedCode.AreGetters, List.flatMap_map, DataMember.declaration_getter,
      DataMember.definition_getter]
    rw [Text.flatMap_eq_flatMap_iff _ _ clash, Text.flatMap_eq_flatMap_iff _ _ clash, and_self]

/--
The getters of all covered members return what does not expose the members, in each rendering,
exactly if the type of each covered array begins with the letters `const` only where these are its
first word, and does begin with them where they are.  What an array is to be returned as does have
`const` for its first word.
-/
theorem Writer.getters_returnConstant_iff
    (outline : Outline)
    (style : Style)
    (coverage : Coverage) :
    (((ofStyle outline style).getters coverage).AreGetters outline.name style.indent
        (coverage.membersOf true outline) DataMember.constantResult ↔
      ∀ member ∈ coverage.membersOf true outline, member.ShowsConst) ∧
      ∀ member ∈ coverage.membersOf true outline, member.isArray = true →
        member.constantType.words.head? = some "const".toList := by
  have written := (ofStyle outline style).areGetters_iff coverage fun member _ =>
    DataMember.clash_of_getterType_ne
  have asShown : (∀ member ∈ coverage.membersOf true outline,
      member.getterType = member.constantResult) ↔
        ∀ member ∈ coverage.membersOf true outline, member.ShowsConst :=
    forall_congr' fun _ => imp_congr_right fun _ => DataMember.getterType_eq_iff
  exact ⟨written.trans asShown, fun _ _ isArray => DataMember.head?_words_constantType isArray⟩

/-- The getter of an array whose elements have a type named `constant_t`. -/
theorem Writer.not_areGetters_lettersOfConst :
    let outline : Outline :=
      { name := "B".toList
        members :=
          [{ name := "data".toList, declaredType := "constant_t*".toList, isArray := true }]
        startLine := 0
        endLine := 2 }
    (ofStyle outline {}).getters .all =
        .inside "\n\tconstant_t* getData() const \x7b return data; \x7d\n".toList ∧
      ¬ ((ofStyle outline {}).getters .all).AreGetters outline.name ['\t']
        (Coverage.membersOf .all true outline) DataMember.constantResult := by
  intro outline
  have written := (ofStyle outline {}).areGetters_iff .all fun member _ =>
    DataMember.clash_of_getterType_ne
  refine ⟨by decide +kernel, fun areGetters => ?_⟩
  have same := written.mp areGetters _ List.mem_cons_self
  exact absurd same (by decide)

end ClassOutline
