import ClassOutline.Proofs.Member.Spelling
/-!
# The common type of a declaration

All members that a line declares are of one type, and it has as many closing as opening brackets of
each kind.  Every declarator may add the mark of a pointer or reference to the type, or the star that
stands for an array.  This holds of every line, whatever its tokens are: a line in which no such type
stands in front of the declarators is not resolved.
-/

namespace ClassOutline

/-- A type that members may share. -/
structure IsCommonType (type : Text) : Prop where
  notEmpty : type ≠ []
  balanced : Text.Balanced type
  /-- The word that makes members static is no part of their type. -/
  notStatic : Declaration.staticWord ∉ Text.splitWhere (· = ' ') type

/-- The marks that make a pointer or a reference of a type. -/
def indirectionMarks : List Text :=
  ["*".toList, "&".toList, "&&".toList]

/-- The member is declared with a given type, by a declarator of one of three forms. -/
inductive IsOfType (type : Text) (isStatic : Bool) : DataMember → Prop where
  /-- A pointer or a reference, which is passed by value whatever the type. -/
  | indirect (name mark : Text) (isMark : mark ∈ indirectionMarks) :
      IsOfType type isStatic
        { name, declaredType := type ++ mark, isStatic, byValue := true, isArray := false }
  /-- An array, whose type is written as that of a pointer. -/
  | array (name : Text) :
      IsOfType type isStatic
        { name
          declaredType := type ++ ['*']
          isStatic
          byValue := Declaration.isBuiltinType type
          isArray := true }
  /-- A member of the type itself. -/
  | plain (name : Text) :
      IsOfType type isStatic
        { name
          declaredType := type
          isStatic
          byValue := Declaration.isBuiltinType type
          isArray := false }

namespace Declaration

/-- Every declarator declares a member of the type in front of it. -/
theorem isOfType_memberOf
    (type declarator : Text)
    (isStatic : Bool) :
    IsOfType type isStatic { memberOf type declarator with isStatic } := by
  rw [memberOf.eq_def]
  split
  · exact .indirect _ ['*'] (by decide)
  · exact .indirect _ ['&', '&'] (by decide)
  · exact .indirect _ ['&'] (by decide)
  · split
    · exact .array _
    · exact .plain _

/-- The tokens of the type are some of the tokens of the line. -/
theorem mem_passedTokens_of_mem_typeTokens
    {line token : Text}
    (member : token ∈ typeTokens line) :
    token ∈ passedTokens line := by
  rw [typeTokens, typeAndDeclarators] at member
  split at member
  · exact (List.takeWhile_prefix _).subset member
  · exact (List.dropLast_prefix _).subset member

/-- The type of a line is made of tokens other than `static`, and they are its parts. -/
theorem notStatic_typeOf
    {line : Text}
    (notEmpty : typeOf line ≠ []) :
    staticWord ∉ Text.splitWhere (· = ' ') (typeOf line) := by
  have noSpace : ∀ token ∈ (typeTokens line).filter (· ≠ staticWord),
      ∀ character ∈ token, decide (character = ' ') = false := by
    intro token member character inside
    have notBlank : Text.isBlank character = false :=
      noBlank_of_mem_passedTokens
        (mem_passedTokens_of_mem_typeTokens (List.mem_of_mem_filter member)) character inside
    exact decide_eq_false fun isSpace => absurd notBlank (by rw [isSpace]; decide)
  have someToken : (typeTokens line).filter (· ≠ staticWord) ≠ [] := by
    intro empty
    apply notEmpty
    rw [typeOf, empty]
    rfl
  have parts : Text.splitWhere (· = ' ') (typeOf line) =
      (typeTokens line).filter (· ≠ staticWord) :=
    Text.splitWhere_unwords someToken (by decide) noSpace
  intro isPart
  rw [parts] at isPart
  simpa using (List.mem_filter.mp isPart).2

/-- A line is resolved only if its type is one that members may share. -/
theorem isCommonType_typeOf
    {line : Text}
    {declared : List DataMember}
    (declares : members line = .ok declared)
    (notEmpty : declared ≠ []) :
    IsCommonType (typeOf line) := by
  obtain ⟨typeNotEmpty, balanced⟩ := (of_members_eq_ok declares).1.resolve_left notEmpty
  exact ⟨typeNotEmpty, balanced, notStatic_typeOf typeNotEmpty⟩

/--
A line that does not end with a semicolon declares nothing, and the members that any other line
declares are of one type.
-/
theorem members_ofOneType (line : Text) :
    (line.trim.getLast? ≠ some ';' → members line = .ok []) ∧
      ∀ declared, members line = .ok declared → declared ≠ [] →
        ∃ type isStatic, IsCommonType type ∧
          ∀ member ∈ declared, IsOfType type isStatic member := by
  constructor
  · intro noSemicolon
    have notEnded : line.trim.dropEnding? [';'] = none := by
      cases dropped : line.trim.dropEnding? [';'] with
      | none => rfl
      | some body =>
        have shape := Text.eq_append_of_dropEnding? dropped
        exact absurd (by rw [shape, List.getLast?_concat]) noSemicolon
    rw [members, notEnded]
  · intro declared declares notEmpty
    refine ⟨typeOf line, (typeTokens line).contains staticWord,
      isCommonType_typeOf declares notEmpty, ?_⟩
    intro member isMember
    rw [(of_members_eq_ok declares).2] at isMember
    obtain ⟨declarator, -, rfl⟩ := List.mem_map.mp isMember
    exact isOfType_memberOf _ _ _

/-- A line of four members in which a value takes a comma with it, and one that is not ended. -/
theorem members_ofOneType_static :
    let line : Text := " static map<int, T> a = 1, *b{2}, &&c, d[4]; ".toList
    let unended : Text := "int x".toList
    (unended.trim.getLast? ≠ some ';' ∧ members unended = .ok []) ∧
      ∃ declared, members line = .ok declared ∧ declared ≠ [] ∧
        (declared.map fun member => (member.name, member.declaredType)) =
          [("a".toList, "map<int,T>".toList), ("b".toList, "map<int,T>*".toList),
            ("c".toList, "map<int,T>&&".toList), ("d".toList, "map<int,T>*".toList)] ∧
          ∃ type isStatic, IsCommonType type ∧
            ∀ member ∈ declared, IsOfType type isStatic member := by
  intro line unended
  have noSemicolon : unended.trim.getLast? ≠ some ';' := by decide
  have declares : members line = .ok
      [{ name := "a".toList, declaredType := "map<int,T>".toList, isStatic := true },
        { name := "b".toList, declaredType := "map<int,T>*".toList, isStatic := true,
          byValue := true },
        { name := "c".toList, declaredType := "map<int,T>&&".toList, isStatic := true,
          byValue := true },
        { name := "d".toList, declaredType := "map<int,T>*".toList, isStatic := true,
          isArray := true }] := by
    decide
  refine ⟨⟨noSemicolon, (members_ofOneType unended).1 noSemicolon⟩, _, declares, by simp, rfl, ?_⟩
  exact (members_ofOneType line).2 _ declares (by simp)

end Declaration

end ClassOutline
