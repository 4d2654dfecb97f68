import ClassOutline.Member.Declaration
import ClassOutline.Proofs.Text.Words
/-!
# Built-in types

A type is a built-in one if each of its words is, and a star separates words as a blank does.  So a
star behind a type changes nothing, and no other mark stands in a built-in type.
-/

namespace ClassOutline.Declaration

open Text

/-- The words on either side of a blank are looked up by themselves. -/
theorem isBuiltinType_append_blank
    (left right : Text) :
    isBuiltinType (left ++ ' ' :: right) = (isBuiltinType left && isBuiltinType right) := by
  rw [isBuiltinType, splitWhere_append_cons left right rfl, List.all_append]
  rfl

/-- A star behind a type changes nothing. -/
theorem isBuiltinType_append_star (type : Text) :
    isBuiltinType (type ++ ['*']) = isBuiltinType type := by
  have noWord : builtinWords.contains [] = true := by decide
  rw [isBuiltinType, splitWhere_append_cons type [] rfl, List.all_append, splitWhere,
    List.all_cons, noWord, List.all_nil, Bool.and_true, Bool.and_true]
  rfl

theorem isBuiltinType_unwords (words : List Text) :
    isBuiltinType (unwords words) = words.all isBuiltinType := by
  induction words with
  | nil => decide
  | cons first rest hypothesis =>
    cases rest with
    | nil => simp [unwords]
    | cons second rest =>
      rw [unwords_cons_cons, isBuiltinType_append_blank, hypothesis]
      rfl

/-- A word without stars is a built-in type if it is one of the built-in words. -/
theorem isBuiltinType_of_whole
    {word : Text}
    (whole : ∀ character ∈ word, character ≠ ' ' ∧ character ≠ '*') :
    isBuiltinType word = builtinWords.contains word := by
  have unsplit : ∀ character ∈ word,
      (decide (character = ' ') || decide (character = '*')) = false := by
    intro character member
    obtain ⟨noSpace, noStar⟩ := whole character member
    simp [noSpace, noStar]
  rw [isBuiltinType, splitWhere_eq_singleton unsplit]
  simp

/-- A built-in type is made of the characters of the built-in words, of blanks and of stars. -/
theorem mem_of_isBuiltinType
    {type : Text}
    {character : Char}
    (isBuiltin : isBuiltinType type = true)
    (member : character ∈ type) :
    character = ' ' ∨ character = '*' ∨ character ∈ builtinWords.flatten := by
  rw [isBuiltinType, List.all_eq_true] at isBuiltin
  let separates (character : Char) : Bool :=
    character = ' ' || character = '*'
  have cut : separates character = true ∨ ∃ part ∈ splitWhere separates type, character ∈ part :=
    mem_splitWhere member
  rcases cut with separates | ⟨part, isPart, inside⟩
  · rcases (Bool.or_eq_true _ _).mp separates with isSpace | isStar
    · exact .inl (of_decide_eq_true isSpace)
    · exact .inr (.inl (of_decide_eq_true isStar))
  · have isWord : part ∈ builtinWords := List.contains_iff_mem.mp (isBuiltin part isPart)
    exact .inr (.inr (List.mem_flatten.mpr ⟨part, isWord, inside⟩))

end ClassOutline.Declaration
