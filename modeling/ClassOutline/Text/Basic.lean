/-!
# Text

A text is the list of its characters.  Offsets into a text are counted in bytes of its UTF-8
form, so an offset is the width of the part of the text in front of it.  Lines are ended by the
line feed alone.

The operations here cut a text: at a byte offset, at a word, at separating characters, or after
each line.  Cutting never loses a character: the parts, with the separators put back, are the
text again.
-/

namespace ClassOutline

/-- A text: its characters in order. -/
abbrev Text := List Char

namespace Text

/-! ## Decisions -/

-- What holds of the characters of a text is decided along the text.  Without the priority, a
-- decision may go through all characters that there are.

instance (priority := high) decidableForallMem
    (property : Char → Prop)
    [DecidablePred property]
    (text : Text) :
    Decidable (∀ character ∈ text, property character) :=
  List.decidableBAll property text

instance (priority := high) decidableForallMemOption
    (property : Char → Prop)
    [DecidablePred property]
    (found : Option Char) :
    Decidable (∀ character ∈ found, property character) :=
  Option.decidableForallMem found

/-! ## Sizes -/

/-- The number of bytes of the UTF-8 form. -/
def width : Text → Nat
  | [] => 0
  | first :: rest => first.utf8Size + width rest

@[simp]
theorem width_nil : width [] = 0 := rfl

@[simp]
theorem width_cons
    (first : Char)
    (rest : Text) :
    width (first :: rest) = first.utf8Size + width rest := rfl

@[simp]
theorem width_append
    (left right : Text) :
    width (left ++ right) = width left + width right := by
  induction left with
  | nil => simp
  | cons first left hypothesis =>
    rw [List.cons_append, width_cons, width_cons, hypothesis, Nat.add_assoc]

theorem eq_nil_of_width
    {text : Text}
    (noWidth : text.width = 0) :
    text = [] := by
  cases text with
  | nil => rfl
  | cons first rest =>
    have positive := first.utf8Size_pos
    rw [width_cons] at noWidth
    omega

theorem width_reverse (text : Text) : width text.reverse = width text := by
  induction text with
  | nil => rfl
  | cons first rest hypothesis =>
    rw [List.reverse_cons, width_append, width_cons, width_cons, width_nil, hypothesis]
    omega

theorem width_replicate
    (number : Nat)
    (character : Char) :
    width (List.replicate number character) = number * character.utf8Size := by
  induction number with
  | zero => simp
  | succ number hypothesis =>
    rw [List.replicate_succ, width_cons, hypothesis, Nat.succ_mul, Nat.add_comm]

/-- The number of line feeds. -/
def lineBreaks (text : Text) : Nat :=
  text.count '\n'

theorem lineBreaks_append
    (left right : Text) :
    lineBreaks (left ++ right) = lineBreaks left + lineBreaks right :=
  List.count_append

theorem lineBreaks_reverse (text : Text) : lineBreaks text.reverse = lineBreaks text :=
  List.count_reverse

/-! ## Cutting at a byte offset -/

/-- The parts before and after a byte offset, if the offset lies between two characters. -/
def cutAtByte? (offset : Nat) : Text → Option (Text × Text)
  | [] => if offset = 0 then some ([], []) else none
  | first :: rest =>
    if offset = 0 then some ([], first :: rest)
    else if offset < first.utf8Size then none
    else
      (cutAtByte? (offset - first.utf8Size) rest).map fun (before, after) =>
        (first :: before, after)

theorem eq_append_of_cutAtByte?
    {offset : Nat}
    {text before after : Text}
    (cut : cutAtByte? offset text = some (before, after)) :
    text = before ++ after ∧ before.width = offset := by
  induction text generalizing offset before with
  | nil =>
    by_cases atStart : offset = 0
    · simp_all [cutAtByte?]
    · simp [cutAtByte?, atStart] at cut
  | cons first rest hypothesis =>
    by_cases atStart : offset = 0
    · simp_all [cutAtByte?]
    · by_cases inside : offset < first.utf8Size
      · simp [cutAtByte?, atStart, inside] at cut
      · simp only [cutAtByte?, atStart, inside, if_false, Option.map_eq_some_iff] at cut
        obtain ⟨⟨front, behind⟩, cutRest, equal⟩ := cut
        obtain ⟨rfl, rfl⟩ := Prod.mk.inj equal
        obtain ⟨rfl, size⟩ := hypothesis cutRest
        exact ⟨rfl, by rw [width_cons, size]; omega⟩

theorem cutAtByte?_width_append
    (before after : Text) :
    cutAtByte? before.width (before ++ after) = some (before, after) := by
  induction before with
  | nil => cases after <;> simp [cutAtByte?]
  | cons first rest hypothesis =>
    have positive := first.utf8Size_pos
    have notAtStart : first.utf8Size ≠ 0 := by omega
    have notInside : ¬ first.utf8Size + width rest < first.utf8Size := by omega
    simp [cutAtByte?, notAtStart, notInside, hypothesis]

/--
The characters that begin before a byte offset.  An offset beyond the end takes the whole text.
-/
def takeBytes (offset : Nat) : Text → Text
  | [] => []
  | first :: rest =>
    if offset = 0 then [] else first :: takeBytes (offset - first.utf8Size) rest

theorem takeBytes_width_append
    (before after : Text) :
    takeBytes before.width (before ++ after) = before := by
  induction before with
  | nil => cases after <;> simp [takeBytes]
  | cons first rest hypothesis =>
    have positive := first.utf8Size_pos
    have notAtStart : first.utf8Size ≠ 0 := by omega
    simp [takeBytes, notAtStart, hypothesis]

/-- The character one of whose bytes is at a byte offset, if the text reaches that far. -/
def charAtByte? (offset : Nat) : Text → Option Char
  | [] => none
  | first :: rest =>
    if offset < first.utf8Size then some first
    else charAtByte? (offset - first.utf8Size) rest

theorem charAtByte?_width_append
    (before after : Text) :
    charAtByte? before.width (before ++ after) = after.head? := by
  induction before with
  | nil =>
    cases after with
    | nil => rfl
    | cons first rest => simp [charAtByte?, first.utf8Size_pos]
  | cons first rest hypothesis =>
    have notInside : ¬ first.utf8Size + width rest < first.utf8Size := by omega
    simp [charAtByte?, notInside, hypothesis]

/-- The byte in front of a cut belongs to the last character in front of it. -/
theorem charAtByte?_pred_width_append
    (before after : Text)
    (notEmpty : before ≠ []) :
    charAtByte? (before.width - 1) (before ++ after) = before.getLast? := by
  induction before with
  | nil => contradiction
  | cons first rest hypothesis =>
    have positive := first.utf8Size_pos
    cases rest with
    | nil =>
      have inside : first.utf8Size - 1 < first.utf8Size := by omega
      simp [charAtByte?, inside]
    | cons second rest =>
      have positive' := second.utf8Size_pos
      have notInside :
          ¬ first.utf8Size + (second.utf8Size + width rest) - 1 < first.utf8Size := by omega
      have shifted :
          first.utf8Size + (second.utf8Size + width rest) - 1 - first.utf8Size =
            width (second :: rest) - 1 := by
        rw [width_cons]
        omega
      have equal := hypothesis (by simp)
      rw [← shifted] at equal
      simpa [charAtByte?, notInside] using equal

/-! ## Cutting at a word -/

/-- The parts before and after the first occurrence of a word. -/
def cutAt? (text word : Text) : Option (Text × Text) :=
  match text with
  | [] => if word = [] then some ([], []) else none
  | first :: rest =>
    if word.isPrefixOf (first :: rest) then some ([], (first :: rest).drop word.length)
    else (cutAt? rest word).map fun (before, after) => (first :: before, after)

theorem eq_append_of_cutAt?
    {text word before after : Text}
    (cut : cutAt? text word = some (before, after)) :
    text = before ++ word ++ after := by
  induction text generalizing before with
  | nil =>
    by_cases noWord : word = []
    · simp_all [cutAt?]
    · simp [cutAt?, noWord] at cut
  | cons first rest hypothesis =>
    rw [cutAt?] at cut
    split at cut
    · next begins =>
      obtain ⟨rfl, rfl⟩ := Prod.mk.inj (Option.some.inj cut)
      exact (List.prefix_iff_eq_append.mp (List.isPrefixOf_iff_prefix.mp begins)).symm
    · obtain ⟨⟨front, behind⟩, cutRest, equal⟩ := Option.map_eq_some_iff.mp cut
      obtain ⟨rfl, rfl⟩ := Prod.mk.inj equal
      rw [hypothesis cutRest]
      rfl

/-- The parts before and after the last occurrence of a word. -/
def cutAtLast? (text word : Text) : Option (Text × Text) :=
  match text with
  | [] => if word = [] then some ([], []) else none
  | first :: rest =>
    match cutAtLast? rest word with
    | some (before, after) => some (first :: before, after)
    | none =>
      if word.isPrefixOf (first :: rest) then some ([], (first :: rest).drop word.length)
      else none

theorem eq_append_of_cutAtLast?
    {text word before after : Text}
    (cut : cutAtLast? text word = some (before, after)) :
    text = before ++ word ++ after := by
  induction text generalizing before after with
  | nil =>
    by_cases noWord : word = []
    · simp_all [cutAtLast?]
    · simp [cutAtLast?, noWord] at cut
  | cons first rest hypothesis =>
    rw [cutAtLast?] at cut
    split at cut
    · next cutRest =>
      obtain ⟨rfl, rfl⟩ := Prod.mk.inj (Option.some.inj cut)
      rw [hypothesis cutRest]
      rfl
    · split at cut
      · next begins =>
        obtain ⟨rfl, rfl⟩ := Prod.mk.inj (Option.some.inj cut)
        exact (List.prefix_iff_eq_append.mp (List.isPrefixOf_iff_prefix.mp begins)).symm
      · contradiction

/-- Whether a word occurs in the text. -/
def mentions (text word : Text) : Bool :=
  (cutAt? text word).isSome

/-- The text without a given ending, if it has that ending. -/
def dropEnding? (text ending : Text) : Option Text :=
  if ending.isSuffixOf text then some (text.take (text.length - ending.length)) else none

theorem dropEnding?_append
    (text ending : Text) :
    dropEnding? (text ++ ending) ending = some text := by
  simp [dropEnding?, List.isSuffixOf_iff_suffix]

theorem eq_append_of_dropEnding?
    {text ending rest : Text}
    (dropped : dropEnding? text ending = some rest) :
    text = rest ++ ending := by
  rw [dropEnding?] at dropped
  split at dropped
  · next ends =>
    obtain ⟨front, rfl⟩ := List.isSuffixOf_iff_suffix.mp ends
    simp_all
  · contradiction

/-! ## Cutting at characters -/

/-- Puts a character in front of the first of the parts. -/
def consToFirst (first : Char) : List Text → List Text
  | [] => [[first]]
  | part :: parts => (first :: part) :: parts

@[simp]
theorem flatten_consToFirst
    (first : Char)
    (parts : List Text) :
    (consToFirst first parts).flatten = first :: parts.flatten := by
  cases parts <;> rfl

/-- The parts between separating characters; there is one more part than separators. -/
def splitWhere (separates : Char → Bool) : Text → List Text
  | [] => [[]]
  | first :: rest =>
    if separates first then [] :: splitWhere separates rest
    else consToFirst first (splitWhere separates rest)

theorem splitWhere_ne_nil
    (separates : Char → Bool)
    (text : Text) :
    splitWhere separates text ≠ [] := by
  cases text with
  | nil => simp [splitWhere]
  | cons first rest =>
    rw [splitWhere]
    split
    · simp
    · cases splitWhere separates rest <;> simp [consToFirst]

/-- The parts between the places of a character, with the character put back, are the text. -/
theorem intercalate_splitWhere
    (separator : Char)
    (text : Text) :
    [separator].intercalate (splitWhere (· = separator) text) = text := by
  induction text with
  | nil => rfl
  | cons first rest hypothesis =>
    obtain ⟨part, parts, split⟩ :=
      List.exists_cons_of_ne_nil (splitWhere_ne_nil (· = separator) rest)
    rw [split] at hypothesis
    by_cases isSeparator : first = separator
    · simpa [splitWhere, isSeparator, split, List.intercalate] using hypothesis
    · cases parts <;>
        simpa [splitWhere, isSeparator, split, consToFirst, List.intercalate] using hypothesis

/-- The lines of the text, each with the line feed that ends it. -/
def lines : Text → List Text
  | [] => []
  | first :: rest =>
    if first = '\n' then [first] :: lines rest else consToFirst first (lines rest)

/-- The lines of a text make up the text. -/
@[simp]
theorem flatten_lines (text : Text) : (lines text).flatten = text := by
  induction text with
  | nil => rfl
  | cons first rest hypothesis =>
    by_cases isBreak : first = '\n' <;> simp [lines, isBreak, hypothesis]

end Text

end ClassOutline
