import ClassOutline.Proofs.Member.Tokens
import ClassOutline.Proofs.Written.Name
/-!
# Decorated names

A declarator is a name alone, a name marked as a pointer, as a reference or as a reference to a
temporary value, or a name with the extent of an array.  The marks are read off again, and what is
left is the name.
-/

namespace ClassOutline.Written

/-- How a name is decorated in a declarator. -/
inductive Decoration where
  | plain
  | pointer
  | reference
  | temporary
  | array (extent : Word)

namespace Decoration

/-- The text of a decorated name. -/
def text (name : Word) : Decoration → Text
  | .plain => name.text
  | .pointer => '*' :: name.text
  | .reference => '&' :: name.text
  | .temporary => '&' :: '&' :: name.text
  | .array extent => name.text ++ '[' :: (extent.text ++ [']'])

/-- The member that a decorated name declares with a type, which may be a built-in one. -/
def member (name : Word) (type : Text) (isBuiltin isStatic : Bool) : Decoration → DataMember
  | .plain =>
    { name := name.text, declaredType := type, isStatic, byValue := isBuiltin }
  | .pointer =>
    { name := name.text, declaredType := type ++ ['*'], isStatic, byValue := true }
  | .reference =>
    { name := name.text, declaredType := type ++ ['&'], isStatic, byValue := true }
  | .temporary =>
    { name := name.text, declaredType := type ++ ['&', '&'], isStatic, byValue := true }
  | .array _ =>
    { name := name.text, declaredType := type ++ ['*'], isStatic, byValue := isBuiltin,
      isArray := true }

/-- The extent of an array, if the name is decorated with one. -/
def extent? : Decoration → Option Word
  | .array extent => some extent
  | _ => none

variable (name : Word) (decoration : Decoration)

/-- A decorated name is made of name characters and its marks. -/
theorem characters :
    ∀ character ∈ decoration.text name,
      isNameCharacter character = true ∨ character ∈ "*&[]".toList := by
  have ofWord (word : Word) : ∀ character ∈ word.text,
      isNameCharacter character = true ∨ character ∈ "*&[]".toList :=
    fun character member => .inl (word.isWord.2 character member)
  cases decoration with
  | plain => exact ofWord name
  | pointer | reference | temporary =>
    simpa [text] using ofWord name
  | array extent =>
    intro character member
    rcases List.mem_append.mp member with inName | behind
    · exact ofWord name character inName
    · rcases List.mem_cons.mp behind with rfl | later
      · exact .inr (by simp)
      · rcases List.mem_append.mp later with inExtent | isEnd
        · exact ofWord extent character inExtent
        · obtain rfl := List.mem_singleton.mp isEnd
          exact .inr (by simp)

theorem not_mem
    {mark : Char}
    (noName : isNameCharacter mark = false)
    (noMark : mark ∉ "*&[]".toList) :
    mark ∉ decoration.text name := by
  intro member
  rcases decoration.characters name mark member with isLetter | isMark
  · rw [noName] at isLetter
    contradiction
  · exact noMark isMark

theorem text_ne_nil : decoration.text name ≠ [] := by
  cases decoration with
  | plain => exact name.isWord.1
  | pointer | reference | temporary => exact List.cons_ne_nil _ _
  | array extent => exact List.append_ne_nil_of_left_ne_nil name.isWord.1 _

theorem balanced : Text.Balanced (decoration.text name) := by
  have absent (bracket : Char) (isBracket : bracket ∈ "\x7b\x7d()<>".toList) :
      (decoration.text name).count bracket = 0 := by
    have foreign : ∀ bracket ∈ "\x7b\x7d()<>".toList,
        isNameCharacter bracket = false ∧ bracket ∉ "*&[]".toList := by
      decide
    obtain ⟨noName, noMark⟩ := foreign bracket isBracket
    exact List.count_eq_zero.mpr (decoration.not_mem name noName noMark)
  refine ⟨?_, ?_, ?_⟩ <;> rw [absent _ (by decide), absent _ (by decide)]

theorem count_quote : (decoration.text name).count '"' = 0 :=
  List.count_eq_zero.mpr (decoration.not_mem name (by decide) (by decide))

theorem isDeclarator : Declaration.IsDeclarator (decoration.text name) := by
  constructor
  · exact decoration.text_ne_nil name
  · intro character member
    rcases decoration.characters name character member with isLetter | isMark
    · exact isBlank_eq_false_of_isNameCharacter isLetter
    · have marksNotBlank : ∀ mark ∈ "*&[]".toList, Text.isBlank mark = false := by decide
      exact marksNotBlank character isMark
  · exact decoration.not_mem name (by decide) (by decide)
  · exact decoration.not_mem name (by decide) (by decide)
  · exact Declaration.isFragment_append_comma (decoration.balanced name)
      (by rw [decoration.count_quote])
  · have noSign : '=' ∉ decoration.text name := decoration.not_mem name (by decide) (by decide)
    exact fun equal => noSign (equal ▸ List.mem_cons_self)

/-- A decorated name is whole unless it is the name that is read as a fragment. -/
theorem isFragment_eq_false
    (noPrefix : name.text ≠ "_STD".toList) :
    Declaration.isFragment (decoration.text name) = false := by
  refine Declaration.isFragment_eq_false (decoration.balanced name)
    (by rw [decoration.count_quote]) ?_ (Declaration.noScope_of_getLast? ?_)
  · cases decoration with
    | plain => exact noPrefix
    | pointer | reference | temporary =>
      exact fun equal => absurd (List.cons.inj equal).1 (by decide)
    | array extent =>
      intro equal
      have noBracket : '[' ∉ "_STD".toList := by decide
      exact noBracket (equal ▸ by simp [text])
  · exact fun ends => decoration.not_mem name (by decide) (by decide) (List.mem_of_getLast? ends)

/-- A name with no mark in front of it may have the extent of an array behind it. -/
theorem memberOf_append
    (type behind : Text) :
    Declaration.memberOf type (name.text ++ behind) =
      if (name.text ++ behind).contains '[' then
        { name := (name.text ++ behind).takeWhile (· ≠ '[')
          declaredType := type ++ ['*']
          byValue := Declaration.isBuiltinType type
          isArray := true }
      else
        { name := name.text ++ behind
          declaredType := type
          byValue := Declaration.isBuiltinType type } := by
  obtain ⟨first, rest, shape⟩ := List.exists_cons_of_ne_nil name.isWord.1
  have isLetter := name.isWord.2 first (by simp [shape])
  have noStar : first ≠ '*' := ne_of_isNameCharacter isLetter (by decide)
  have noAmpersand : first ≠ '&' := ne_of_isNameCharacter isLetter (by decide)
  rw [shape, List.cons_append, Declaration.memberOf.eq_def]
  split
  · next equal => exact absurd (List.cons.inj equal).1 noStar
  · next equal => exact absurd (List.cons.inj equal).1 noAmpersand
  · next equal => exact absurd (List.cons.inj equal).1 noAmpersand
  · rfl

/-- A decorated name is read as the member that it declares. -/
theorem memberOf_text
    (type : Text)
    (isStatic : Bool) :
    { Declaration.memberOf type (decoration.text name) with isStatic } =
      decoration.member name type (Declaration.isBuiltinType type) isStatic := by
  cases decoration with
  | plain =>
    have noBracket : '[' ∉ name.text := name.isWord.not_mem (by decide)
    have read := memberOf_append name type []
    rw [List.append_nil] at read
    rw [text, read, if_neg (by simpa using noBracket)]
    rfl
  | pointer => rfl
  | reference =>
    obtain ⟨first, rest, shape⟩ := List.exists_cons_of_ne_nil name.isWord.1
    have noAmpersand : first ≠ '&' :=
      ne_of_isNameCharacter (name.isWord.2 first (by simp [shape])) (by decide)
    rw [text, Declaration.memberOf.eq_def, member, shape]
    split
    · next equal => simp at equal
    · next equal => exact absurd (List.cons.inj (List.cons.inj equal).2).1 noAmpersand
    · next equal => rw [(List.cons.inj equal).2]
    · next noReference => exact absurd rfl (noReference _)
  | temporary => rfl
  | array extent =>
    have noBracket : '[' ∉ name.text := name.isWord.not_mem (by decide)
    rw [text, memberOf_append, if_pos (by simp), Text.takeWhile_append_cons noBracket]
    rfl

end Decoration

end ClassOutline.Written
