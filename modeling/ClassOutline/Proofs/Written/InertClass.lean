import ClassOutline.Proofs.Code.OfOutline
import ClassOutline.Proofs.Written.ClassModel
/-!
# Inert names of written classes

If the word `function` is barred from the names of a written class too, the names of its outline are
inert: its own name, those of its members, and the types with the marks of the declarators.
-/

namespace ClassOutline.Written

open Code

variable {barred : List Text}

/-- The sought words stand in no name. -/
theorem isBarred_of_mem_soughtWords
    (functionBarred : "function".toList ∈ barred) :
    ∀ word ∈ soughtWords, word ∈ reservedWords ++ barred ∧ IsWord word := by
  have classes : ∀ word ∈ Block.declarationWords, word ∈ reservedWords ∧ IsWord word := by decide
  intro word isSought
  have split : soughtWords = Block.declarationWords ++ ["function".toList] := by decide
  rw [split, List.mem_append, List.mem_singleton] at isSought
  rcases isSought with isClass | rfl
  · obtain ⟨isReserved, isWord⟩ := classes word isClass
    exact ⟨List.mem_append_left _ isReserved, isWord⟩
  · exact ⟨List.mem_append_right _ functionBarred, by decide⟩

theorem Identifier.inert
    (identifier : Identifier barred)
    (functionBarred : "function".toList ∈ barred) :
    Inert [] identifier.text where
  characters character member := .inl (identifier.isWord.2 character member)
  lacks word isSought :=
    identifier.lacks word (isBarred_of_mem_soughtWords functionBarred word isSought).1

theorem Path.inert
    (path : Path barred)
    (functionBarred : "function".toList ∈ barred) :
    Inert nameMarks path.text where
  characters character member := by
    rcases path.characters character member with isName | rfl
    · exact .inl isName
    · exact .inr (by decide)
  lacks word isSought := by
    obtain ⟨isBarred, isWord⟩ := isBarred_of_mem_soughtWords functionBarred word isSought
    exact path.lacks isBarred isWord

namespace MemberLine

theorem inert_typeText
    (line : MemberLine barred)
    (functionBarred : "function".toList ∈ barred) :
    Inert nameMarks line.typeText where
  characters character member := by
    rcases Text.mem_intercalate member with isSpace | ⟨text, isText, inText⟩
    · obtain rfl := List.mem_singleton.mp isSpace
      exact .inr (by decide)
    · obtain ⟨name, -, rfl⟩ := List.mem_map.mp isText
      have wider : ∀ mark ∈ ":<>".toList ++ tight, mark ∈ nameMarks := by decide
      rcases name.isName.characters character inText with isLetter | isMark | isComma
      · exact .inl isLetter
      · exact .inr (wider character (List.mem_append_left _ isMark))
      · exact .inr (wider character (List.mem_append_right _ isComma))
  lacks word isSought := by
    obtain ⟨isBarred, isWord⟩ := isBarred_of_mem_soughtWords functionBarred word isSought
    refine Text.lacks_intercalate isWord.1 (by simp) ?_ ?_
    · have noSpace : ' ' ∉ word := isWord.not_mem (by decide)
      simpa using noSpace
    · intro text member
      obtain ⟨name, -, rfl⟩ := List.mem_map.mp member
      exact name.isName.lacks (by decide) isBarred isWord

theorem begins_typeText (line : MemberLine barred) :
    ∃ first ∈ line.typeText.head?, isNameCharacter first = true := by
  obtain ⟨name, names, shape⟩ := List.exists_cons_of_ne_nil line.typeNotEmpty
  rw [typeText, shape, List.map_cons]
  cases names with
  | nil =>
    have alone : Text.unwords [name.text] = name.text := List.intercalate_singleton
    rw [List.map_nil, alone]
    exact name.isName.begins
  | cons next names =>
    rw [List.map_cons, Text.unwords_cons_cons]
    exact Text.exists_head?_append name.isName.begins _

/-- The members of a line have inert names and types. -/
theorem inertMember
    (line : MemberLine barred)
    (functionBarred : "function".toList ∈ barred) :
    ∀ member ∈ line.members, InertMember member := by
  intro member isMember
  obtain ⟨declarator, -, rfl⟩ := List.mem_map.mp isMember
  have type := line.inert_typeText functionBarred
  have begins := line.begins_typeText
  have marked {mark : Text} (inertMark : Sealed nameMarks mark)
      (notLower : ∃ first ∈ mark.head?, first.isLower = false) :
      Inert nameMarks (line.typeText ++ mark) ∧
        ∃ first ∈ (line.typeText ++ mark).head?, isNameCharacter first = true :=
    ⟨(type.append_sealed inertMark notLower).toInert, Text.exists_head?_append begins mark⟩
  obtain ⟨name, decoration, -⟩ := declarator
  have inertName := name.inert functionBarred
  cases decoration with
  | plain => exact ⟨inertName, type, begins⟩
  | pointer | array extent =>
    obtain ⟨inertType, begins⟩ := @marked ['*'] (by decide) (by decide)
    exact ⟨inertName, inertType, begins⟩
  | reference =>
    obtain ⟨inertType, begins⟩ := @marked ['&'] (by decide) (by decide)
    exact ⟨inertName, inertType, begins⟩
  | temporary =>
    obtain ⟨inertType, begins⟩ := @marked ['&', '&'] (by decide) (by decide)
    exact ⟨inertName, inertType, begins⟩

end MemberLine

/-- The outline of a written class has inert names. -/
theorem ClassModel.inertOutline
    (options : ScanOptions)
    (startLine : Nat)
    (model : ClassModel barred)
    (functionBarred : "function".toList ∈ barred) :
    InertOutline (model.outline options startLine) where
  name := model.line.name.inert functionBarred
  nameBegins := model.line.name.begins
  members member isMember := by
    obtain ⟨line, -, inLine⟩ := List.mem_flatMap.mp (List.mem_filter.mp isMember).1
    exact line.inertMember functionBarred member inLine

end ClassOutline.Written
