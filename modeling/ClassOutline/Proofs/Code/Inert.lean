import ClassOutline.Code.Pieces
import ClassOutline.Proofs.Block.Regions
import ClassOutline.Proofs.Member.Lines
import ClassOutline.Proofs.Written.Name
/-!
# Inert texts

Generated code is put together from the names of an outline and from fixed fragments.  In none of
them stands a word by which the scan would find a declaration or a callable object.  Such a word
cannot come about where two fragments meet either, as long as one of them has no small letter there.
-/

namespace ClassOutline.Code

open Written

/-! ## Sought words -/

/-- The words by which the scan finds classes and callable objects. -/
def soughtWords : List Text :=
  ["class".toList, "struct".toList, "function".toList]

theorem isLower_of_mem_soughtWords :
    ∀ word ∈ soughtWords, ∀ character ∈ word, character.isLower = true := by
  decide

theorem soughtWord_ne_nil : ∀ word ∈ soughtWords, word ≠ [] := by
  decide

theorem not_mem_soughtWord
    {word : Text}
    {character : Char}
    (isSought : word ∈ soughtWords)
    (notLower : character.isLower = false) :
    character ∉ word := fun member => by
  simp [isLower_of_mem_soughtWords word isSought character member] at notLower

/-! ## Inert texts -/

/-- A text of name characters and given marks in which no sought word stands. -/
structure Inert (marks text : Text) : Prop where
  characters : ∀ character ∈ text, isNameCharacter character = true ∨ character ∈ marks
  lacks : ∀ word ∈ soughtWords, text.Lacks word

/-- An inert text that does not end with a small letter. -/
structure Sealed (marks text : Text) : Prop extends Inert marks text where
  ends : ∀ last ∈ text.getLast?, last.isLower = false

/-- How a text begins is decided at its first character, without a search through all characters. -/
instance decidableBegins (text : Text) (kind : Char → Prop) [DecidablePred kind] :
    Decidable (∃ first ∈ text.head?, kind first) :=
  Option.decidableExistsMem text.head?

instance (marks text : Text) : Decidable (Inert marks text) :=
  decidable_of_iff
    ((∀ character ∈ text, isNameCharacter character = true ∨ character ∈ marks) ∧
      ∀ word ∈ soughtWords, text.Lacks word)
    ⟨fun ⟨characters, lacks⟩ => ⟨characters, lacks⟩, fun inert => ⟨inert.characters, inert.lacks⟩⟩

instance (marks text : Text) : Decidable (Sealed marks text) :=
  decidable_of_iff
    (Inert marks text ∧ ∀ last ∈ text.getLast?, last.isLower = false)
    ⟨fun ⟨inert, ends⟩ => ⟨inert, ends⟩, fun closed => ⟨closed.toInert, closed.ends⟩⟩

variable {marks left right text : Text}

namespace Inert

theorem mono
    {wider : Text}
    (inert : Inert marks text)
    (isWider : ∀ mark ∈ marks, mark ∈ wider) :
    Inert wider text where
  characters character member := (inert.characters character member).imp_right (isWider character)
  lacks := inert.lacks

theorem not_mem
    {mark : Char}
    (inert : Inert marks text)
    (noName : isNameCharacter mark = false)
    (noMark : mark ∉ marks) :
    mark ∉ text := by
  intro member
  rcases inert.characters mark member with isLetter | isMark
  · rw [noName] at isLetter
    contradiction
  · exact noMark isMark

/-- Two inert texts make one if the second does not begin with a small letter. -/
theorem append
    (inertLeft : Inert marks left)
    (inertRight : Inert marks right)
    (begins : ∀ first ∈ right.head?, first.isLower = false) :
    Inert marks (left ++ right) where
  characters character member :=
    (List.mem_append.mp member).elim (inertLeft.characters character)
      (inertRight.characters character)
  lacks word isSought := by
    have lacksLeft := inertLeft.lacks word isSought
    have lacksRight := inertRight.lacks word isSought
    cases right with
    | nil => rwa [List.append_nil]
    | cons first rest =>
      have foreign := not_mem_soughtWord isSought (begins first rfl)
      rw [Text.lacks_append_cons _ _ foreign]
      exact ⟨lacksLeft, lacksRight.of_isInfix (List.suffix_cons _ _).isInfix⟩

theorem append_sealed
    (inertLeft : Inert marks left)
    (sealedRight : Sealed marks right)
    (begins : ∃ first ∈ right.head?, first.isLower = false) :
    Sealed marks (left ++ right) := by
  obtain ⟨first, isFirst, notLower⟩ := begins
  refine ⟨inertLeft.append sealedRight.toInert fun other isOther => ?_, fun last isLast => ?_⟩
  · rw [Option.mem_def.mp isFirst] at isOther
    exact Option.some.inj isOther ▸ notLower
  · obtain ⟨start, final, rfl⟩ := (List.eq_nil_or_concat right).resolve_left
      (List.ne_nil_of_mem (List.mem_of_mem_head? isFirst))
    refine sealedRight.ends last ?_
    simpa using isLast

end Inert

namespace Sealed

theorem mono
    {wider : Text}
    (closed : Sealed marks text)
    (isWider : ∀ mark ∈ marks, mark ∈ wider) :
    Sealed wider text :=
  ⟨closed.toInert.mono isWider, closed.ends⟩

theorem append
    (sealedLeft : Sealed marks left)
    (inertRight : Inert marks right) :
    Inert marks (left ++ right) := by
  rcases List.eq_nil_or_concat left with rfl | ⟨start, last, rfl⟩
  · exact inertRight
  · rw [List.concat_eq_append] at sealedLeft ⊢
    have notLower := sealedLeft.ends last (by simp)
    constructor
    · intro character member
      exact (List.mem_append.mp member).elim (sealedLeft.characters character)
        (inertRight.characters character)
    · intro word isSought
      have lacksStart := (sealedLeft.lacks word isSought).of_isInfix
        (List.prefix_append start [last]).isInfix
      rw [List.append_assoc, List.singleton_append,
        Text.lacks_append_cons _ _ (not_mem_soughtWord isSought notLower)]
      exact ⟨lacksStart, inertRight.lacks word isSought⟩

theorem append_sealed
    (sealedLeft : Sealed marks left)
    (sealedRight : Sealed marks right) :
    Sealed marks (left ++ right) := by
  refine ⟨sealedLeft.append sealedRight.toInert, fun last isLast => ?_⟩
  cases right with
  | nil => exact sealedLeft.ends last (by simpa using isLast)
  | cons first rest => exact sealedRight.ends last (by simpa using isLast)

end Sealed

/-- Inert entries with commas between them make an inert text. -/
theorem inert_commaSeparated
    {entries : List Text}
    (inert : ∀ entry ∈ entries, Inert marks entry)
    (isMark : ∀ mark ∈ [',', ' '], mark ∈ marks) :
    Inert marks (commaSeparated entries) where
  characters character member := by
    rcases Text.mem_intercalate member with inSeparator | ⟨entry, isEntry, inEntry⟩
    · exact .inr (isMark character inSeparator)
    · exact (inert entry isEntry).characters character inEntry
  lacks word isSought :=
    Text.lacks_intercalate (soughtWord_ne_nil word isSought) (by simp)
      (fun character member => not_mem_soughtWord isSought (by
        have separators : ∀ mark ∈ [',', ' '], mark.isLower = false := by decide
        exact separators character member))
      fun entry isEntry => (inert entry isEntry).lacks word isSought

/-! ## Capital letters -/

/-- The capital form of a name character is a name character that is no small letter. -/
theorem exists_capital_eq
    {character : Char}
    (isName : isNameCharacter character = true) :
    ∃ capital, Text.capital character = [capital] ∧ isNameCharacter capital = true ∧
      capital.isLower = false := by
  have ofCode : ∀ code < 123, isNameCharacter (Char.ofNat code) = true →
      ∃ capital ∈ (Text.capital (Char.ofNat code)).head?,
        Text.capital (Char.ofNat code) = [capital] ∧ isNameCharacter capital = true ∧
          capital.isLower = false := by
    decide +kernel
  have bounds := toNat_of_isNameCharacter isName
  have ofCharacter := ofCode character.toNat (by omega)
  rw [Char.ofNat_toNat] at ofCharacter
  obtain ⟨capital, -, isCapital⟩ := ofCharacter isName
  exact ⟨capital, isCapital⟩

/-- A name behind a word joins no small letter to it if it is written with a capital. -/
theorem inert_append_capitalize
    {name : Text}
    (inert : Inert marks text)
    (inertName : Inert [] name) :
    Inert marks (text ++ name.capitalize) := by
  cases name with
  | nil =>
    rw [Text.capitalize, List.append_nil]
    exact inert
  | cons first rest =>
    have isName := (inertName.characters first List.mem_cons_self).resolve_right List.not_mem_nil
    obtain ⟨capital, capitalShape, isCapital, notLower⟩ := exists_capital_eq isName
    have inertCapital : Inert marks (capital :: rest) := by
      constructor
      · intro character member
        rcases List.mem_cons.mp member with rfl | later
        · exact .inl isCapital
        · exact .inl ((inertName.characters character (List.mem_cons_of_mem _ later)).resolve_right
            List.not_mem_nil)
      · intro word isSought
        rw [Text.lacks_cons _ (soughtWord_ne_nil word isSought)
          (not_mem_soughtWord isSought notLower)]
        exact (inertName.lacks word isSought).of_isInfix (List.suffix_cons _ _).isInfix
    rw [Text.capitalize, capitalShape]
    exact inert.append inertCapital fun other isOther => by
      rwa [← Option.some.inj isOther]

end ClassOutline.Code
