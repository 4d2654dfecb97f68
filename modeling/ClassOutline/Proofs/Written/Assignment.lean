import ClassOutline.Proofs.Member.Values
import ClassOutline.Proofs.Written.Decoration
/-!
# Assigned values

A name behind a type declares a single member.  An initial value behind it should change nothing.
It is taken out only as far as it is a token behind an equals sign that is a token itself: what else
is left behind the name becomes the name of the member, and the name becomes a word of its type.  An
equals sign that is not a token of its own stays in the name or in the type.
-/

namespace ClassOutline.Written

open Declaration

/-- A type and a name, with a text that may be assigned to the name. -/
structure Assignment where
  type : List Word
  name : Word
  value : Text
  typeNotEmpty : type ≠ []
  notStatic : ∀ word ∈ type, word.text ≠ staticWord
  noBrace : '{' ∉ value
  enclosesCommas : value.EnclosesCommas

namespace Assignment

variable (assignment : Assignment)

/-- The words of the type. -/
def typeWords : List Text :=
  assignment.type.map Word.text

/-- The type and the name. -/
def declaration : Text :=
  Text.unwords (assignment.typeWords ++ [assignment.name.text])

/-- The type and the name with the value behind a sign. -/
def assigned (sign : Text) : Text :=
  assignment.declaration ++ sign ++ assignment.value

/-- With the value, a single member is declared that is declared without the value too. -/
def KeepsMember (sign : Text) : Prop :=
  ∃ member,
    members (assignment.declaration ++ [';']) = .ok [member] ∧
      members (assignment.assigned sign ++ [';']) = .ok [member]

/-- An equals sign, with blanks around it or not. -/
def signs : List Text :=
  [" = ".toList, "=".toList]

/-! ## Words and characters -/

theorem isWord_of_mem : ∀ word ∈ assignment.typeWords ++ [assignment.name.text], IsWord word := by
  intro word member
  rcases List.mem_append.mp member with inType | isName
  · obtain ⟨typeWord, -, rfl⟩ := List.mem_map.mp inType
    exact typeWord.isWord
  · obtain rfl := List.mem_singleton.mp isName
    exact assignment.name.isWord

theorem typeWords_ne_nil : assignment.typeWords ≠ [] := by
  simpa [typeWords] using assignment.typeNotEmpty

theorem areWords : Text.AreWords (assignment.typeWords ++ [assignment.name.text]) :=
  fun word member =>
    have isWord := assignment.isWord_of_mem word member
    ⟨isWord.1, fun character inWord =>
      isBlank_eq_false_of_isNameCharacter (isWord.2 character inWord)⟩

theorem words_declaration :
    assignment.declaration.words = assignment.typeWords ++ [assignment.name.text] :=
  Text.words_unwords assignment.areWords

/-- Between blanks, a sign is a word of its own. -/
theorem words_spaced :
    (assignment.assigned " = ".toList).words =
      assignment.declaration.words ++ ['='] :: assignment.value.words := by
  have shape : assignment.assigned " = ".toList =
      assignment.declaration ++ ' ' :: (['='] ++ ' ' :: assignment.value) := by
    simp [assigned]
  rw [shape, Text.words_append_cons _ _ (by decide), Text.words_append_cons _ _ (by decide)]
  rfl

/-- Otherwise it belongs to the word of the name. -/
theorem words_tight :
    ∃ added more,
      (assignment.assigned "=".toList).words =
        assignment.typeWords ++ (assignment.name.text ++ '=' :: added) :: more := by
  have shape : assignment.assigned "=".toList =
      Text.unwords assignment.typeWords ++
        ' ' :: (assignment.name.text ++ ['='] ++ assignment.value) := by
    rw [assigned, declaration,
      Text.unwords_append assignment.typeWords_ne_nil (List.cons_ne_nil _ _)]
    simp [Text.unwords]
  have noBlank : ∀ character ∈ assignment.name.text ++ ['='], Text.isBlank character = false := by
    intro character member
    rcases List.mem_append.mp member with inName | isSign
    · exact isBlank_eq_false_of_isNameCharacter (assignment.name.isWord.2 character inName)
    · obtain rfl := List.mem_singleton.mp isSign
      decide
  have typeAreWords : Text.AreWords assignment.typeWords :=
    fun word member => assignment.areWords word (List.mem_append_left _ member)
  obtain ⟨added, more, wordsBehind⟩ :=
    Text.exists_words_append (by simp) noBlank assignment.value
  refine ⟨added, more, ?_⟩
  rw [shape, Text.words_append_cons _ _ (by decide), Text.words_unwords typeAreWords, wordsBehind]
  simp

/-- The type and the name are made of name characters and blanks. -/
theorem characters :
    ∀ character ∈ assignment.declaration, isNameCharacter character = true ∨ character = ' ' := by
  intro character member
  rcases Text.mem_intercalate member with isSpace | ⟨word, isWord, inWord⟩
  · exact .inr (List.mem_singleton.mp isSpace)
  · exact .inl ((assignment.isWord_of_mem word isWord).2 character inWord)

theorem not_mem
    {mark : Char}
    (noName : isNameCharacter mark = false)
    (notSpace : mark ≠ ' ') :
    mark ∉ assignment.declaration := by
  intro member
  rcases assignment.characters mark member with isLetter | isSpace
  · rw [noName] at isLetter
    contradiction
  · exact notSpace isSpace

theorem begins : ∃ first ∈ assignment.declaration.head?, Text.isBlank first = false := by
  have spaced : Text.Spaced assignment.declaration := ⟨_, by simp, assignment.areWords, rfl⟩
  exact spaced.begins

theorem begins_assigned (sign : Text) :
    ∃ first ∈ (assignment.assigned sign).head?, Text.isBlank first = false := by
  rw [assigned, List.append_assoc]
  exact Text.exists_head?_append assignment.begins _

theorem enclosesCommas_append
    {text : Text}
    (encloses : text.EnclosesCommas) :
    (assignment.declaration ++ text).EnclosesCommas := by
  have foreign : ∀ mark ∈ ['(', ')', ','], isNameCharacter mark = false ∧ mark ≠ ' ' := by decide
  refine encloses.append_left fun mark isMark => ?_
  obtain ⟨noName, notSpace⟩ := foreign mark isMark
  exact assignment.not_mem noName notSpace

theorem assigned_enclosesCommas
    {sign : Text}
    (isSign : sign ∈ signs) :
    (assignment.assigned sign).EnclosesCommas := by
  have bare : ∀ sign ∈ signs, ∀ mark ∈ ['(', ')', ','], mark ∉ sign := by decide
  rw [assigned, List.append_assoc]
  exact assignment.enclosesCommas_append
    (assignment.enclosesCommas.append_left (bare sign isSign))

theorem assigned_noBrace
    {sign : Text}
    (isSign : sign ∈ signs) :
    '{' ∉ assignment.assigned sign := by
  have bare : ∀ sign ∈ signs, '{' ∉ sign := by decide
  have inDeclaration : '{' ∉ assignment.declaration := assignment.not_mem (by decide) (by decide)
  simp [assigned, inDeclaration, bare sign isSign, assignment.noBrace]

/-! ## Tokens of the type and the name -/

/-- A word is read as a fragment only if it is one of them. -/
theorem eq_of_isFragment
    {word : Text}
    (isWord : IsWord word)
    (fragment : isFragment word = true) :
    word = "_STD".toList := by
  by_contra notPrefix
  have whole := Decoration.plain.isFragment_eq_false ⟨word, isWord⟩ notPrefix
  rw [Decoration.text, fragment] at whole
  contradiction

/-- Tokens of a type and a name: the last of them is the declarator, the others make up the type. -/
structure Tokenized (front : List Text) (stem : Text) : Prop where
  tokens_eq : tokens assignment.declaration = front ++ [stem]
  areWords : ∀ token ∈ front, IsWord token
  notStatic : ∀ token ∈ front, token ≠ staticWord
  isWord : IsWord stem
  /-- What is added to the name is added to its token. -/
  tokens_added : ∀ (added : Text) (more : List Text), ∃ addedLater later,
    Text.regroup [] isFragment (assignment.typeWords ++ (assignment.name.text ++ added) :: more) =
      front ++ (stem ++ added ++ addedLater) :: later

theorem isWord_of_mem_tokens : ∀ token ∈ tokens assignment.declaration, IsWord token := by
  intro token member
  refine ⟨?_, fun character inToken => ?_⟩
  · rw [tokens, words_declaration] at member
    rcases Text.mem_or_of_mem_regroup member with isPiece | ⟨piece, isPiece, -, isPrefix⟩
    · exact (assignment.isWord_of_mem token isPiece).1
    · rintro rfl
      exact (assignment.isWord_of_mem piece isPiece).1 (List.prefix_nil.mp isPrefix)
  · have inTokens : character ∈ (tokens assignment.declaration).flatten :=
      List.mem_flatten.mpr ⟨token, member, inToken⟩
    rw [flatten_tokens] at inTokens
    obtain ⟨inText, notBlank⟩ := List.mem_filter.mp inTokens
    rcases assignment.characters character inText with isLetter | rfl
    · exact isLetter
    · exact absurd notBlank (by decide)

theorem exists_tokenized : ∃ front stem, assignment.Tokenized front stem := by
  obtain ⟨front, stem, isPrefix, split, tokens_added⟩ :=
    @Text.regroup_concat [] isFragment _ assignment.typeWords_ne_nil assignment.name.text
  have tokens_eq : tokens assignment.declaration = front ++ [stem] := by
    rw [tokens, words_declaration, split]
  have areWords := assignment.isWord_of_mem_tokens
  rw [tokens_eq] at areWords
  have notStatic : ∀ token ∈ front, token ≠ staticWord := by
    intro token member
    rcases Text.mem_or_of_mem_regroup (isPrefix.subset member) with
      isPiece | ⟨piece, isPiece, fragment, begins⟩
    · obtain ⟨word, isWord, rfl⟩ := List.mem_map.mp isPiece
      exact assignment.notStatic word isWord
    · have isWord := assignment.isWord_of_mem piece (List.mem_append_left _ isPiece)
      obtain rfl := eq_of_isFragment isWord fragment
      rintro rfl
      exact absurd begins (by decide)
  exact ⟨front, stem, tokens_eq, fun token member => areWords token (List.mem_append_left _ member),
    notStatic, areWords stem (by simp), tokens_added⟩

/-! ## Members -/

namespace Tokenized

variable {assignment : Assignment} {front : List Text} {stem : Text}
variable (tokenized : assignment.Tokenized front stem)

include tokenized

theorem isTypeToken : ∀ token ∈ front, IsTypeToken token := by
  intro token member
  have isWord := tokenized.areWords token member
  have whole : isFragment token = false := by
    refine @Text.complete_of_mem_dropLast [] isFragment assignment.declaration.words token ?_
    rw [← tokens, tokenized.tokens_eq, List.dropLast_concat]
    exact member
  have notComma : endsWithComma token = false :=
    endsWithComma_eq_false (isWord.not_mem (by decide))
  exact
    { notEmpty := isWord.1
      noBlank := fun character inToken =>
        isBlank_eq_false_of_isNameCharacter (isWord.2 character inToken)
      noBrace := isWord.not_mem (by decide)
      whole
      noComma := notComma
      noSign := fun equal => isWord.not_mem (by decide) (equal ▸ List.mem_cons_self)
      balanced := balanced_of_whole whole }

theorem stem_ne_sign (behind : Text) : stem ++ behind ≠ ['='] := by
  obtain ⟨first, rest, shape⟩ := List.exists_cons_of_ne_nil tokenized.isWord.1
  intro equal
  rw [shape, List.cons_append] at equal
  have isLetter := tokenized.isWord.2 first (by simp [shape])
  exact ne_of_isNameCharacter isLetter (by decide) (List.cons.inj equal).1

/-- The single member that the tokens declare. -/
def member : DataMember :=
  Decoration.plain.member ⟨stem, tokenized.isWord⟩ (Text.unwords front)
    (isBuiltinType (Text.unwords front)) false

/-- A text declares the member if no more than the tokens is left of it. -/
theorem members_eq
    {text : Text}
    (begins : ∃ first ∈ text.head?, Text.isBlank first = false)
    (passes : (withoutValues false (tokens text)).map withoutBraces = front ++ [stem])
    (notEmpty : front ≠ []) :
    members (text ++ [';']) = .ok [tokenized.member] := by
  have isDeclarator : ∀ declarator ∈ [stem], IsDeclarator declarator := by
    intro declarator member
    obtain rfl := List.mem_singleton.mp member
    exact Decoration.plain.isDeclarator ⟨_, tokenized.isWord⟩
  have listedPasses : (withoutValues false (tokens text)).map withoutBraces =
      staticWords false ++ front ++ listed [stem] := passes
  have read := Decoration.plain.memberOf_text ⟨stem, tokenized.isWord⟩ (Text.unwords front) false
  rw [members_of_listed begins listedPasses tokenized.isTypeToken tokenized.notStatic notEmpty
    isDeclarator (by simp), List.map_singleton, member, ← read]
  rfl

/-- If all of the tokens are left of a text with the member, no more is left of it. -/
theorem eq_nil_of_members_eq
    {text first : Text}
    {rest : List Text}
    (begins : ∃ first ∈ text.head?, Text.isBlank first = false)
    (encloses : text.EnclosesCommas)
    (noBrace : '{' ∉ text)
    (passes : (withoutValues false (tokens text)).map withoutBraces = front ++ first :: rest)
    (notEmpty : front ≠ [])
    (declares : members (text ++ [';']) = .ok [tokenized.member]) :
    rest = [] := by
  rcases List.eq_nil_or_concat rest with empty | ⟨later, last, rfl⟩
  · exact empty
  exfalso
  rw [List.concat_eq_append, ← List.cons_append, ← List.append_assoc] at passes
  obtain ⟨-, sameMember⟩ := eq_of_members_eq_ok begins encloses noBrace passes declares
  have sameStatic := congrArg DataMember.isStatic sameMember
  have sameType := congrArg DataMember.declaredType sameMember
  have notStatic : first ≠ staticWord := by
    rintro rfl
    simp [member, Decoration.member] at sameStatic
  have kept : (front ++ first :: later).filter (· ≠ staticWord) =
      front ++ first :: later.filter (· ≠ staticWord) := by
    have frontKept : front.filter (· ≠ staticWord) = front :=
      List.filter_eq_self.mpr fun token inFront =>
        decide_eq_true (tokenized.notStatic token inFront)
    rw [List.filter_append, frontKept, List.filter_cons_of_pos (by simpa using notStatic)]
  -- The type is longer by a further word at least.
  have isPrefix := prefix_declaredType
    (Text.unwords ((front ++ first :: later).filter (· ≠ staticWord))) last
  rw [← sameType, kept, Text.unwords_append notEmpty (List.cons_ne_nil _ _)] at isPrefix
  have longer := isPrefix.length_le
  simp only [member, Decoration.member, List.length_append, List.length_cons] at longer
  omega

/-- An equals sign behind the name is no part of the member. -/
theorem members_ne_of_sign
    {text added : Text}
    (begins : ∃ first ∈ text.head?, Text.isBlank first = false)
    (encloses : text.EnclosesCommas)
    (noBrace : '{' ∉ text)
    (passes : (withoutValues false (tokens text)).map withoutBraces =
      front ++ [stem ++ '=' :: added]) :
    members (text ++ [';']) ≠ .ok [tokenized.member] := by
  intro declares
  obtain ⟨-, sameMember⟩ := eq_of_members_eq_ok begins encloses noBrace passes declares
  have sameName := congrArg DataMember.name sameMember
  have read := Decoration.memberOf_append ⟨stem, tokenized.isWord⟩
    (Text.unwords (front.filter (· ≠ staticWord))) ('=' :: added)
  dsimp only at read sameName
  rw [read] at sameName
  split at sameName
  · have noBracket : ∀ character ∈ stem, decide (character ≠ '[') = true := fun character inStem =>
      decide_eq_true (ne_of_isNameCharacter (tokenized.isWord.2 character inStem) (by decide))
    rw [List.takeWhile_append_of_pos noBracket] at sameName
    simp [member, Decoration.member] at sameName
  · simp [member, Decoration.member] at sameName

/-- The declaration declares the member, if there is a token in front of the name. -/
theorem members_declaration_iff (member : DataMember) :
    members (assignment.declaration ++ [';']) = .ok [member] ↔
      front ≠ [] ∧ member = tokenized.member := by
  have encloses : assignment.declaration.EnclosesCommas := by
    have whole := @enclosesCommas_append assignment [] ⟨rfl, by simp⟩
    rwa [List.append_nil] at whole
  have noBrace : '{' ∉ assignment.declaration := assignment.not_mem (by decide) (by decide)
  have stemNoSign : stem ≠ ['='] := by simpa using tokenized.stem_ne_sign []
  have passes := passes_cons encloses noBrace tokenized.tokens_eq
    (fun token inFront => (tokenized.isTypeToken token inFront).noSign) stemNoSign
  constructor
  · intro declares
    obtain ⟨notEmpty, -⟩ :=
      eq_of_members_eq_ok assignment.begins encloses noBrace passes declares
    rw [tokenized.members_eq assignment.begins passes notEmpty] at declares
    exact ⟨notEmpty, by simpa using declares.symm⟩
  · rintro ⟨notEmpty, rfl⟩
    exact tokenized.members_eq assignment.begins passes notEmpty

/-! ## Tokens behind the name -/

/-- What is behind a sign that is a token of its own is read token by token. -/
theorem tokens_spaced (whole : isFragment stem = false) :
    tokens (assignment.assigned " = ".toList) =
      front ++ stem :: ['='] :: tokens assignment.value := by
  have wholeSign : isFragment ['='] = false := by decide
  rw [tokens, words_spaced, Text.regroup_append tokenized.tokens_eq, Text.extend_of_complete whole,
    Text.regroup, Text.extend_of_complete wholeSign]
  rfl

/-- Behind a name that is read as a fragment, the sign is added to its token. -/
theorem tokens_spaced_of_fragment (fragment : isFragment stem = true) :
    ∃ added later,
      tokens (assignment.assigned " = ".toList) =
        front ++ (stem ++ '=' :: added) :: later := by
  obtain ⟨added, later, extended⟩ :=
    Text.exists_extend [] isFragment (stem ++ [] ++ ['=']) assignment.value.words
  refine ⟨added, later, ?_⟩
  rw [tokens, words_spaced, Text.regroup_append tokenized.tokens_eq, Text.regroup.extend,
    if_pos fragment, extended]
  simp

/-- A sign directly behind the name is added to its token. -/
theorem tokens_tight :
    ∃ added later,
      tokens (assignment.assigned "=".toList) =
        front ++ (stem ++ '=' :: added) :: later := by
  obtain ⟨added, more, wordsBehind⟩ := assignment.words_tight
  obtain ⟨addedLater, later, shape⟩ := tokenized.tokens_added ('=' :: added) more
  refine ⟨added ++ addedLater, later, ?_⟩
  rw [tokens, wordsBehind, shape]
  simp

/-! ## Values that change the member -/

/-- If the sign is added to the token of the name, the member is another one. -/
theorem members_ne_of_added
    {sign added : Text}
    {later : List Text}
    (isSign : sign ∈ signs)
    (split : tokens (assignment.assigned sign) = front ++ (stem ++ '=' :: added) :: later)
    (notEmpty : front ≠ []) :
    members (assignment.assigned sign ++ [';']) ≠ .ok [tokenized.member] := by
  have encloses := assignment.assigned_enclosesCommas isSign
  have noBrace := assignment.assigned_noBrace isSign
  have passes := passes_cons encloses noBrace split
    (fun token member => (tokenized.isTypeToken token member).noSign) (tokenized.stem_ne_sign _)
  intro declares
  have empty := tokenized.eq_nil_of_members_eq (assignment.begins_assigned sign) encloses noBrace
    passes notEmpty declares
  rw [empty] at passes
  exact tokenized.members_ne_of_sign (assignment.begins_assigned sign) encloses noBrace passes
    declares

/-- The member is kept if it is declared without the value and with it. -/
theorem keepsMember_iff_members_eq (sign : Text) :
    assignment.KeepsMember sign ↔
      front ≠ [] ∧ members (assignment.assigned sign ++ [';']) = .ok [tokenized.member] := by
  constructor
  · rintro ⟨member, alone, assigned⟩
    obtain ⟨notEmpty, rfl⟩ := (tokenized.members_declaration_iff member).mp alone
    exact ⟨notEmpty, assigned⟩
  · rintro ⟨notEmpty, assigned⟩
    exact ⟨_, (tokenized.members_declaration_iff _).mpr ⟨notEmpty, rfl⟩, assigned⟩

/-- If the token of the name is whole, what is left of the value must be nothing. -/
theorem members_spaced_iff
    (whole : isFragment stem = false)
    (notEmpty : front ≠ []) :
    members (assignment.assigned " = ".toList ++ [';']) = .ok [tokenized.member] ↔
      withoutValues true (tokens assignment.value) = [] := by
  have isSign : " = ".toList ∈ signs := by decide
  have encloses := assignment.assigned_enclosesCommas isSign
  have noBrace := assignment.assigned_noBrace isSign
  have begins := assignment.begins_assigned " = ".toList
  have stemNoSign : stem ≠ ['='] := by simpa using tokenized.stem_ne_sign []
  have passes := passes_cons encloses noBrace (tokenized.tokens_spaced whole)
    (fun token inFront => (tokenized.isTypeToken token inFront).noSign) stemNoSign
  rw [withoutValues, if_pos rfl] at passes
  constructor
  · exact tokenized.eq_nil_of_members_eq begins encloses noBrace passes notEmpty
  · intro empty
    rw [empty] at passes
    exact tokenized.members_eq begins passes notEmpty

end Tokenized

/--
With blanks around the equals sign the member is kept exactly if it is declared without the value,
its token is whole, and of any two neighbouring tokens of the value one is an equals sign.  Without
blanks there it is never kept.
-/
theorem keepsMember_iff :
    (assignment.KeepsMember " = ".toList ↔
      2 ≤ (tokens assignment.declaration).length ∧
        (tokens assignment.declaration).getLast? ≠ some "_STD".toList ∧
          (tokens assignment.value).IsChain fun left right => left = ['='] ∨ right = ['=']) ∧
      ¬ assignment.KeepsMember "=".toList := by
  obtain ⟨front, stem, tokenized⟩ := assignment.exists_tokenized
  have frontNotEmpty : 2 ≤ (tokens assignment.declaration).length ↔ front ≠ [] := by
    rw [tokenized.tokens_eq, List.length_append, List.length_singleton, ← List.length_pos_iff]
    omega
  have lastToken : (tokens assignment.declaration).getLast? = some stem := by
    rw [tokenized.tokens_eq, List.getLast?_concat]
  have wholeIff : some stem ≠ some "_STD".toList ↔ isFragment stem = false := by
    constructor
    · intro notPrefix
      rw [← Bool.not_eq_true]
      exact fun fragment => notPrefix (congrArg some (eq_of_isFragment tokenized.isWord fragment))
    · rintro whole equal
      rw [Option.some.inj equal] at whole
      exact absurd whole (by decide)
  rw [tokenized.keepsMember_iff_members_eq, tokenized.keepsMember_iff_members_eq, frontNotEmpty,
    lastToken, wholeIff, ← withoutValues_eq_nil_iff]
  refine ⟨and_congr_right fun notEmpty => ?_, ?_⟩
  · by_cases fragment : isFragment stem = true
    · obtain ⟨added, later, split⟩ := tokenized.tokens_spaced_of_fragment fragment
      have changed := tokenized.members_ne_of_added (by decide) split notEmpty
      exact iff_of_false changed fun kept => by simp [fragment] at kept
    · have whole : isFragment stem = false := Bool.eq_false_iff.mpr fragment
      rw [tokenized.members_spaced_iff whole notEmpty, and_iff_right whole]
  · rintro ⟨notEmpty, declares⟩
    obtain ⟨added, later, split⟩ := tokenized.tokens_tight
    exact tokenized.members_ne_of_added (by decide) split notEmpty declares

/-- A sum takes the place of the name, and without blanks the sign stays. -/
theorem members_assigned_sum :
    ∃ assignment : Assignment,
      assignment.declaration = "int x".toList ∧ assignment.value = "a + b".toList ∧
        members (assignment.declaration ++ [';']) =
          .ok [{ name := "x".toList, declaredType := "int".toList, byValue := true }] ∧
        members (assignment.assigned " = ".toList ++ [';']) =
          .ok [{ name := "b".toList, declaredType := "int x +".toList, byValue := false }] ∧
        members (assignment.assigned "=".toList ++ [';']) =
          .ok [{ name := "b".toList, declaredType := "int x=a +".toList, byValue := false }] := by
  let assignment : Assignment :=
    { type := [⟨"int".toList, by decide⟩]
      name := ⟨"x".toList, by decide⟩
      value := "a + b".toList
      typeNotEmpty := List.cons_ne_nil _ _
      notStatic := by decide
      noBrace := by decide
      enclosesCommas := ⟨rfl, fun front behind shape => by
        have noComma : ',' ∉ "a + b".toList := by decide
        exact absurd (shape ▸ by simp) noComma⟩ }
  exact ⟨assignment, rfl, rfl, by decide, by decide, by decide⟩

end Assignment

end ClassOutline.Written
