import ClassOutline.Proofs.ClassHead.Entries
import ClassOutline.Proofs.Member.Lines
/-!
# Written names

The names of a written declaration: identifiers, paths of identifiers, and paths with a list of
arguments that are names again.  No reserved word stands anywhere in a name, and whatever a
declaration is put together from names and punctuation holds such a word only where it was written.
-/

namespace ClassOutline.Written

/-! ## Characters of names -/

/-- Whether a character may stand in an identifier. -/
def isNameCharacter (character : Char) : Bool :=
  character.isAlphanum || character = '_'

theorem ne_of_isNameCharacter
    {character mark : Char}
    (isName : isNameCharacter character = true)
    (noName : isNameCharacter mark = false) :
    character ≠ mark := by
  rintro rfl
  rw [isName] at noName
  contradiction

theorem toNat_of_isNameCharacter
    {character : Char}
    (isName : isNameCharacter character = true) :
    48 ≤ character.toNat ∧ character.toNat ≤ 122 := by
  rcases (Bool.or_eq_true _ _).mp isName with isAlphanum | isMark
  · change (decide (65 ≤ character.val ∧ character.val ≤ 90) ||
      (decide (97 ≤ character.val) && decide (character.val ≤ 122)) ||
        (decide (48 ≤ character.val) && decide (character.val ≤ 57))) = true at isAlphanum
    simp only [Bool.or_eq_true, Bool.and_eq_true, decide_eq_true_eq,
      UInt32.le_iff_toNat_le] at isAlphanum
    change ((65 ≤ character.toNat ∧ character.toNat ≤ 90) ∨
      97 ≤ character.toNat ∧ character.toNat ≤ 122) ∨
        48 ≤ character.toNat ∧ character.toNat ≤ 57 at isAlphanum
    omega
  · obtain rfl : character = '_' := by simpa using isMark
    decide

theorem isBlank_eq_false_of_isNameCharacter
    {character : Char}
    (isName : isNameCharacter character = true) :
    Text.isBlank character = false := by
  have bounds := toNat_of_isNameCharacter isName
  rw [← Bool.not_eq_true, Text.isBlank, List.any_eq_true]
  rintro ⟨range, member, inside⟩
  simp only [Bool.and_eq_true, decide_eq_true_eq] at inside
  simp only [Text.blankRanges, List.mem_cons, List.not_mem_nil, or_false] at member
  rcases member with rfl | rfl | rfl | rfl | rfl | rfl | rfl | rfl | rfl | rfl <;> omega

/-- No statement is cut at a name character. -/
theorem cuts_eq_false_of_isNameCharacter
    {character : Char}
    (isName : isNameCharacter character = true) :
    Statement.cuts character = false := by
  rw [← Bool.not_eq_true, Statement.cuts, List.contains_iff_mem]
  intro isCut
  have noNames : ∀ mark ∈ [';', '{', '}', '(', ')', '"', '\'', '\n'],
      isNameCharacter mark = false := by
    decide
  exact ne_of_isNameCharacter isName (noNames character isCut) rfl

/-- A text of name characters. -/
def IsWord (word : Text) : Prop :=
  word ≠ [] ∧ ∀ character ∈ word, isNameCharacter character = true

instance (word : Text) : Decidable (IsWord word) :=
  inferInstanceAs (Decidable (_ ∧ _))

theorem IsWord.not_mem
    {word : Text}
    {mark : Char}
    (isWord : IsWord word)
    (noName : isNameCharacter mark = false) :
    mark ∉ word :=
  fun member => ne_of_isNameCharacter (isWord.2 mark member) noName rfl

/-- A text of name characters as a value of its own. -/
structure Word where
  text : Text
  isWord : IsWord text

/-! ## Identifiers and paths -/

/-- The words that stand in no name. -/
def reservedWords : List Text :=
  ["class".toList, "struct".toList, "public".toList, "protected".toList, "private".toList,
    "friend".toList, "template".toList, "typename".toList, "using".toList, "typedef".toList,
    "static".toList]

variable {barred : List Text}

/-- An identifier, in which neither reserved words nor further barred ones stand. -/
structure Identifier (barred : List Text) where
  text : Text
  isWord : IsWord text
  lacks : ∀ word ∈ reservedWords ++ barred, text.Lacks word

/-- The identifier as a word. -/
def Identifier.word (identifier : Identifier barred) : Word where
  text := identifier.text
  isWord := identifier.isWord

/-- Identifiers with scope marks between them. -/
structure Path (barred : List Text) where
  identifiers : List (Identifier barred)
  notEmpty : identifiers ≠ []

/-- The text of the path. -/
def Path.text (path : Path barred) : Text :=
  "::".toList.intercalate (path.identifiers.map Identifier.text)

/--
The text of a path, or of one with a list of arguments in angle brackets behind it.  The arguments
are names too, with a separator between them.
-/
inductive IsName (barred : List Text) (separator : Text) : Text → Prop where
  | path (path : Path barred) : IsName barred separator path.text
  | applied
      (path : Path barred)
      (arguments : List Text)
      (areNames : ∀ argument ∈ arguments, IsName barred separator argument) :
      IsName barred separator (path.text ++ '<' :: (separator.intercalate arguments ++ ['>']))

/-- A name whose arguments are joined by a separator. -/
structure Name (barred : List Text) (separator : Text) where
  text : Text
  isName : IsName barred separator text

/-! ## Paths -/

namespace Path

theorem text_ne_nil (path : Path barred) : path.text ≠ [] := by
  obtain ⟨identifier, rest, shape⟩ := List.exists_cons_of_ne_nil path.notEmpty
  cases rest <;> simp [text, shape, identifier.isWord.1]

/-- A path is made of name characters and colons. -/
theorem characters
    (path : Path barred) :
    ∀ character ∈ path.text, isNameCharacter character = true ∨ character = ':' := by
  intro character member
  rcases Text.mem_intercalate member with inMark | ⟨text, isText, inText⟩
  · exact .inr (by simpa using inMark)
  · obtain ⟨identifier, -, rfl⟩ := List.mem_map.mp isText
    exact .inl (identifier.isWord.2 character inText)

theorem begins (path : Path barred) :
    ∃ first ∈ path.text.head?, isNameCharacter first = true := by
  obtain ⟨identifier, rest, shape⟩ := List.exists_cons_of_ne_nil path.notEmpty
  obtain ⟨first, letters, textShape⟩ := List.exists_cons_of_ne_nil identifier.isWord.1
  refine ⟨first, ?_, identifier.isWord.2 first (by simp [textShape])⟩
  cases rest <;> simp [text, shape, textShape]

theorem ends (path : Path barred) :
    ∃ last ∈ path.text.getLast?, isNameCharacter last = true := by
  obtain ⟨identifiers, notEmpty⟩ := path
  rw [text]
  dsimp only
  induction identifiers with
  | nil => contradiction
  | cons identifier identifiers hypothesis =>
    cases identifiers with
    | nil =>
      obtain ⟨letters, last, textShape⟩ :=
        (List.eq_nil_or_concat identifier.text).resolve_left identifier.isWord.1
      rw [List.concat_eq_append] at textShape
      refine ⟨last, ?_, identifier.isWord.2 last (by simp [textShape])⟩
      simp [textShape]
    | cons next identifiers =>
      obtain ⟨last, isLast, isName⟩ := hypothesis (by simp)
      refine ⟨last, ?_, isName⟩
      rw [List.map_cons] at isLast
      rw [List.map_cons, List.map_cons, List.intercalate_cons_cons, List.getLast?_append,
        Option.mem_def.mp isLast]
      rfl

theorem lacks
    {word : Text}
    (path : Path barred)
    (isBarred : word ∈ reservedWords ++ barred)
    (isWord : IsWord word) :
    path.text.Lacks word := by
  refine Text.lacks_intercalate isWord.1 (by simp) ?_ ?_
  · intro character member
    obtain rfl : character = ':' := by simpa using member
    exact isWord.not_mem (by decide)
  · intro text member
    obtain ⟨identifier, -, rfl⟩ := List.mem_map.mp member
    exact identifier.lacks word isBarred

end Path

/-! ## Names -/

/-- The texts that may stand between the arguments of a name. -/
def separators : List Text :=
  [",".toList, ", ".toList]

namespace IsName

variable {separator text : Text}

/-- A name is made of name characters and the punctuation of paths and arguments. -/
theorem characters (isName : IsName barred separator text) :
    ∀ character ∈ text,
      isNameCharacter character = true ∨ character ∈ ":<>".toList ∨ character ∈ separator := by
  induction isName with
  | path path =>
    intro character member
    exact (path.characters character member).imp_right fun isColon => .inl (by simp [isColon])
  | applied path arguments _ hypothesis =>
    intro character member
    rcases List.mem_append.mp member with inPath | behind
    · exact (path.characters character inPath).imp_right fun isColon => .inl (by simp [isColon])
    · rcases List.mem_cons.mp behind with rfl | later
      · exact .inr (.inl (by simp))
      · rcases List.mem_append.mp later with inArguments | isEnd
        · rcases Text.mem_intercalate inArguments with inSeparator | ⟨argument, isArgument, inside⟩
          · exact .inr (.inr inSeparator)
          · exact hypothesis argument isArgument character inside
        · obtain rfl := List.mem_singleton.mp isEnd
          exact .inr (.inl (by simp))

theorem not_mem
    {mark : Char}
    (isName : IsName barred separator text)
    (isSeparator : separator ∈ separators)
    (noName : isNameCharacter mark = false)
    (noPunctuation : mark ∉ ":<>, ".toList) :
    mark ∉ text := by
  intro member
  have inPunctuation : ∀ separator ∈ separators, ∀ character ∈ separator,
      character ∈ ":<>, ".toList := by
    decide
  have wider : ∀ character ∈ ":<>".toList, character ∈ ":<>, ".toList := by decide
  rcases isName.characters mark member with isLetter | isMark | inSeparator
  · rw [noName] at isLetter
    contradiction
  · exact noPunctuation (wider mark isMark)
  · exact noPunctuation (inPunctuation _ isSeparator mark inSeparator)

theorem begins (isName : IsName barred separator text) :
    ∃ first ∈ text.head?, isNameCharacter first = true := by
  cases isName with
  | path path => exact path.begins
  | applied path arguments => exact Text.exists_head?_append path.begins _

theorem ends (isName : IsName barred separator text) :
    ∃ last ∈ text.getLast?, isNameCharacter last = true ∨ last = '>' := by
  cases isName with
  | path path =>
    obtain ⟨last, isLast, isLetter⟩ := path.ends
    exact ⟨last, isLast, .inl isLetter⟩
  | applied path arguments =>
    refine ⟨'>', ?_, .inr rfl⟩
    rw [← List.cons_append, ← List.append_assoc, List.getLast?_concat]
    rfl

theorem lacks
    {word : Text}
    (isName : IsName barred separator text)
    (isSeparator : separator ∈ separators)
    (isBarred : word ∈ reservedWords ++ barred)
    (isWord : IsWord word) :
    text.Lacks word := by
  have separates : ∀ separator ∈ separators,
      separator ≠ [] ∧ ∀ character ∈ separator, isNameCharacter character = false := by
    decide
  obtain ⟨separatorNotEmpty, noNames⟩ := separates separator isSeparator
  induction isName with
  | path path => exact path.lacks isBarred isWord
  | applied path arguments _ hypothesis =>
    rw [Text.lacks_append_cons _ _ (isWord.not_mem (by decide)),
      Text.lacks_append_cons _ _ (isWord.not_mem (by decide))]
    refine ⟨path.lacks isBarred isWord, ?_, Text.lacks_nil isWord.1⟩
    exact Text.lacks_intercalate isWord.1 separatorNotEmpty
      (fun character member => isWord.not_mem (noNames character member)) hypothesis

theorem nest?_path
    (path : Path barred)
    (depth : Nat)
    (seen : Bool) :
    ClassHead.nest? (depth, seen) path.text = some (depth, true) := by
  have bare : ∀ character ∈ path.text, character ≠ ',' ∧ character ≠ '<' ∧ character ≠ '>' := by
    intro character member
    rcases path.characters character member with isLetter | rfl
    · exact
        ⟨ne_of_isNameCharacter isLetter (by decide), ne_of_isNameCharacter isLetter (by decide),
          ne_of_isNameCharacter isLetter (by decide)⟩
    · decide
  obtain ⟨first, isFirst, isLetter⟩ := path.begins
  have notBlank : (path.text.any fun character => !Text.isBlank character) = true :=
    List.any_eq_true.mpr ⟨first, List.mem_of_mem_head? isFirst, by
      simp [isBlank_eq_false_of_isNameCharacter isLetter]⟩
  rw [ClassHead.nest?_of_bare depth seen bare, notBlank, Bool.or_true]

/-- Inside brackets, arguments with separators between them are passed. -/
theorem nest?_intercalate
    {arguments : List Text}
    (isSeparator : separator ∈ separators)
    (pass : ∀ argument ∈ arguments, ∀ depth seen,
      ClassHead.nest? (depth, seen) argument = some (depth, true))
    (depth : Nat)
    (seen : Bool)
    (notEmpty : seen = true ∨ arguments ≠ []) :
    ClassHead.nest? (depth + 1, seen) (separator.intercalate arguments) =
      some (depth + 1, true) := by
  have separated :
      ClassHead.nest? (depth + 1, true) separator = some (depth + 1, false) := by
    obtain rfl | rfl : separator = [','] ∨ separator = [',', ' '] := by
      simpa [separators] using isSeparator
    · simp [ClassHead.nest?_cons, ClassHead.nestStep?]
    · have blank : Text.isBlank ' ' = true := by decide
      simp [ClassHead.nest?_cons, ClassHead.nestStep?, blank]
  induction arguments generalizing seen with
  | nil => simpa using notEmpty
  | cons argument arguments hypothesis =>
    have passFirst := pass argument List.mem_cons_self (depth + 1) seen
    have later := hypothesis
      (fun other member => pass other (List.mem_cons_of_mem _ member)) false
    cases arguments with
    | nil => rw [List.intercalate_singleton, passFirst]
    | cons next arguments =>
      rw [List.intercalate_cons_cons, ClassHead.nest?_append, ClassHead.nest?_append, passFirst,
        Option.bind_some, separated, Option.bind_some, later (.inr (by simp))]

/-- The angle brackets of a name nest, and its commas stand inside them. -/
theorem nest?_eq
    (isName : IsName barred separator text)
    (isSeparator : separator ∈ separators)
    (depth : Nat)
    (seen : Bool) :
    ClassHead.nest? (depth, seen) text = some (depth, true) := by
  induction isName generalizing depth seen with
  | path path => exact nest?_path path depth seen
  | applied path arguments _ hypothesis =>
    have inside := nest?_intercalate isSeparator hypothesis depth true (.inl rfl)
    rw [ClassHead.nest?_append, nest?_path, Option.bind_some, ClassHead.nest?_cons]
    simp [ClassHead.nestStep?, ClassHead.nest?_append, ClassHead.nest?_cons, inside]

/-- A name is one entry of a list of bases. -/
theorem isEntry
    (isName : IsName barred separator text)
    (isSeparator : separator ∈ separators) :
    ClassHead.IsEntry text := by
  refine ClassHead.isEntry_of_nest? (isName.nest?_eq isSeparator 0 false) ?_
  intro character member isBracket
  have foreign : ∀ bracket ∈ ['{', '}', '(', ')'],
      isNameCharacter bracket = false ∧ bracket ∉ ":<>, ".toList := by
    decide
  obtain ⟨noName, noPunctuation⟩ := foreign character isBracket
  exact isName.not_mem isSeparator noName noPunctuation member

/-- The brackets of a name match. -/
theorem balanced
    (isName : IsName barred separator text)
    (isSeparator : separator ∈ separators) :
    Text.Balanced text :=
  (isName.isEntry isSeparator).balanced

/-- A name with a comma between its arguments is a single word. -/
theorem noBlank
    (isName : IsName barred [','] text) :
    ∀ character ∈ text, Text.isBlank character = false := by
  intro character member
  rcases isName.characters character member with isLetter | isMark | isComma
  · exact isBlank_eq_false_of_isNameCharacter isLetter
  · have marksNotBlank : ∀ mark ∈ ":<>".toList, Text.isBlank mark = false := by decide
    exact marksNotBlank character isMark
  · obtain rfl := List.mem_singleton.mp isComma
    decide

/-- The words of a name are found again. -/
theorem spaced
    (isName : IsName barred [',', ' '] text) :
    Text.Spaced text := by
  have ofPath (path : Path barred) : ∀ character ∈ path.text, Text.isBlank character = false := by
    intro character member
    rcases path.characters character member with isLetter | rfl
    · exact isBlank_eq_false_of_isNameCharacter isLetter
    · decide
  induction isName with
  | path path => exact Text.spaced_of_noBlank path.text_ne_nil (ofPath path)
  | applied path arguments _ hypothesis =>
    have frontNoBlank : ∀ character ∈ path.text ++ ['<'], Text.isBlank character = false := by
      intro character member
      rcases List.mem_append.mp member with inPath | isBracket
      · exact ofPath path character inPath
      · obtain rfl := List.mem_singleton.mp isBracket
        decide
    have endNoBlank : ∀ character ∈ ['>'], Text.isBlank character = false := by decide
    have shape (inside : Text) :
        path.text ++ '<' :: (inside ++ ['>']) = (path.text ++ ['<']) ++ (inside ++ ['>']) := by
      simp
    rw [shape]
    by_cases empty : arguments = []
    · subst empty
      refine (Text.spaced_of_noBlank ?_ ?_).append_left frontNoBlank
      · simp
      · simpa using endNoBlank
    · exact ((Text.spaced_intercalate empty hypothesis).append_right endNoBlank).append_left
        frontNoBlank

end IsName

end ClassOutline.Written
