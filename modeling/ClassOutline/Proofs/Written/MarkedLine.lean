import ClassOutline.Proofs.Member.BuiltinTypes
import ClassOutline.Proofs.Member.Values
import ClassOutline.Proofs.Written.Decoration
/-!
# Marks between a type and a name

The mark of a pointer or of a reference may stand at the name, at the type, or between blanks.  At
the name it is read as a part of the declarator, and the member may then be passed by value.
Elsewhere it is read as a part of the type, and only built-in types are looked up there.  A star
separates the words that are looked up; the mark of a reference does not.
-/

namespace ClassOutline

namespace Written

open Declaration

/-! ## Parts of a line -/

/-- A word of a type: an identifier, perhaps with template arguments in angle brackets. -/
structure BaseWord where
  name : Word
  /-- The arguments with their brackets. -/
  arguments : Text
  enclosed : arguments = [] ∨ ∃ inside, arguments = '<' :: (inside ++ ['>'])
  noBlank : ∀ character ∈ arguments, Text.isBlank character = false
  noBrace : '{' ∉ arguments
  balanced : Text.Balanced arguments
  evenQuotes : arguments.count '"' % 2 = 0

/-- The text of the word. -/
def BaseWord.text (word : BaseWord) : Text :=
  word.name.text ++ word.arguments

/-- The mark of a pointer, of a reference, or of a reference to a temporary value. -/
inductive Mark where
  | pointer
  | reference
  | temporary
deriving DecidableEq

/-- The text of the mark. -/
def Mark.text : Mark → Text
  | .pointer => ['*']
  | .reference => ['&']
  | .temporary => ['&', '&']

/-- A name with the mark in front of it. -/
def Mark.decoration : Mark → Decoration
  | .pointer => .pointer
  | .reference => .reference
  | .temporary => .temporary

theorem Mark.text_append (mark : Mark) (name : Word) :
    mark.text ++ name.text = mark.decoration.text name := by
  cases mark <;> rfl

theorem Mark.getLast?_append (mark : Mark) (front : Text) :
    (front ++ mark.text).getLast? ≠ some 'D' := by
  cases mark <;> simp [text]

/-- Where a mark stands between a type and a name. -/
inductive Spacing where
  | atName
  | atType
  | apart

/-- A type, a mark and a name. -/
structure MarkedLine where
  /-- The words of the type in front of the last. -/
  front : List BaseWord
  last : BaseWord
  mark : Mark
  name : Word

namespace MarkedLine

variable (line : MarkedLine)

/-- The words of the type. -/
def type : List Text :=
  (line.front ++ [line.last]).map BaseWord.text

/-- The text of the line without its semicolon. -/
def text : Spacing → Text
  | .atName => Text.unwords line.type ++ ' ' :: (line.mark.text ++ line.name.text)
  | .atType => Text.unwords line.type ++ line.mark.text ++ ' ' :: line.name.text
  | .apart => Text.unwords line.type ++ ' ' :: (line.mark.text ++ ' ' :: line.name.text)

/--
Wherever the mark stands, the line declares one member with the name, which may be passed by value,
and its type is the same up to spaces.
-/
def ReadsAlike : Prop :=
  ∃ member : Spacing → DataMember,
    (∀ spacing,
      members (line.text spacing ++ [';']) = .ok [member spacing] ∧
        (member spacing).name = line.name.text ∧ (member spacing).byValue = true) ∧
      ∀ spacing other,
        (member spacing).declaredType.filter (· ≠ ' ') =
          (member other).declaredType.filter (· ≠ ' ')

/-- The words in front of the declarator. -/
def typeWords : Spacing → List Text
  | .atName => line.type
  | .atType => line.front.map BaseWord.text ++ [line.last.text ++ line.mark.text]
  | .apart => line.type ++ [line.mark.text]

/-- How the name is decorated. -/
def decoration : Spacing → Decoration
  | .atName => line.mark.decoration
  | .atType | .apart => .plain

/-- The declarator. -/
def declarator (spacing : Spacing) : Text :=
  (line.decoration spacing).text line.name

/-! ## Words -/

theorem typeWords_ne_nil (spacing : Spacing) : line.typeWords spacing ≠ [] := by
  cases spacing <;> simp [typeWords, type]

theorem text_eq_unwords (spacing : Spacing) :
    line.text spacing = Text.unwords (line.typeWords spacing ++ [line.declarator spacing]) := by
  have single (word : Text) : Text.unwords [word] = word := List.intercalate_singleton
  have typeNotEmpty : line.type ≠ [] := by simp [type]
  cases spacing with
  | atName =>
    rw [typeWords, Text.unwords_append typeNotEmpty (List.cons_ne_nil _ _), single, text,
      Mark.text_append]
    rfl
  | atType =>
    have extended : Text.unwords (line.typeWords .atType) =
        Text.unwords line.type ++ line.mark.text := by
      rw [typeWords, type, List.map_append, List.map_singleton]
      generalize line.front.map BaseWord.text = front
      cases front with
      | nil => simp [Text.unwords]
      | cons first front =>
        rw [Text.unwords_append (List.cons_ne_nil _ _) (List.cons_ne_nil _ _),
          Text.unwords_append (List.cons_ne_nil _ _) (List.cons_ne_nil _ _), single, single]
        simp
    rw [Text.unwords_append (line.typeWords_ne_nil .atType) (List.cons_ne_nil _ _), extended, single]
    rfl
  | apart =>
    rw [typeWords, List.append_assoc, List.singleton_append,
      Text.unwords_append typeNotEmpty (List.cons_ne_nil _ _), Text.unwords_cons_cons, single]
    rfl

end MarkedLine

/-! ## Parts of types -/

/-- A text that is put together from words of types and marks, and begins with a word. -/
structure IsTypePart (part : Text) : Prop where
  begins : ∃ first ∈ part.head?, isNameCharacter first = true
  ends : ∃ last ∈ part.getLast?, last ≠ ',' ∧ last ≠ ':'
  noBlank : ∀ character ∈ part, Text.isBlank character = false
  noBrace : '{' ∉ part
  balanced : Text.Balanced part
  evenQuotes : part.count '"' % 2 = 0

namespace IsTypePart

variable {part other : Text}

theorem append
    (isPart : IsTypePart part)
    (isOther : IsTypePart other) :
    IsTypePart (part ++ other) := by
  have balanced := isPart.balanced
  have balancedOther := isOther.balanced
  have evenQuotes := isPart.evenQuotes
  have evenQuotesOther := isOther.evenQuotes
  constructor
  · exact Text.exists_head?_append isPart.begins other
  · exact Text.exists_getLast?_append isOther.ends part
  · intro character member
    exact (List.mem_append.mp member).elim (isPart.noBlank character) (isOther.noBlank character)
  · simpa using ⟨isPart.noBrace, isOther.noBrace⟩
  · simp only [Text.Balanced, List.count_append] at balanced balancedOther ⊢
    omega
  · rw [List.count_append]
    omega

theorem append_mark
    (isPart : IsTypePart part)
    (mark : Mark) :
    IsTypePart (part ++ mark.text) := by
  have ends : ∃ last ∈ mark.text.getLast?, last ≠ ',' ∧ last ≠ ':' := by
    cases mark <;> exact ⟨_, rfl, by decide⟩
  have marks : (∀ character ∈ mark.text, Text.isBlank character = false) ∧ '{' ∉ mark.text ∧
      (∀ bracket ∈ ['{', '}', '(', ')', '<', '>', '"'], mark.text.count bracket = 0) := by
    cases mark <;> decide
  obtain ⟨noBlank, noBrace, absent⟩ := marks
  have balanced := isPart.balanced
  constructor
  · exact Text.exists_head?_append isPart.begins mark.text
  · exact Text.exists_getLast?_append ends part
  · intro character member
    exact (List.mem_append.mp member).elim (isPart.noBlank character) (noBlank character)
  · simpa using ⟨isPart.noBrace, noBrace⟩
  · simp only [Text.Balanced, List.count_append] at balanced ⊢
    simpa [absent] using balanced
  · rw [List.count_append, absent '"' (by decide), Nat.add_zero]
    exact isPart.evenQuotes

/-- A part that is read as a fragment is the one word that is always read so. -/
theorem eq_of_isFragment
    (isPart : IsTypePart part)
    (fragment : isFragment part = true) :
    part = "_STD".toList := by
  obtain ⟨last, isLast, -, noColon⟩ := isPart.ends
  by_contra notPrefix
  have noScope : part.getLast? ≠ some ':' := by
    intro ends
    exact noColon (Option.some.inj ((Option.mem_def.mp isLast).symm.trans ends))
  have whole := Declaration.isFragment_eq_false isPart.balanced isPart.evenQuotes notPrefix
    (noScope_of_getLast? noScope)
  rw [fragment] at whole
  contradiction

/-- That word ends with a letter. -/
theorem isFragment_eq_false
    (isPart : IsTypePart part)
    (noLetter : part.getLast? ≠ some 'D') :
    isFragment part = false := by
  rw [← Bool.not_eq_true]
  intro fragment
  apply noLetter
  rw [isPart.eq_of_isFragment fragment]
  rfl

theorem isTypeToken
    (isPart : IsTypePart part)
    (whole : isFragment part = false) :
    IsTypeToken part := by
  obtain ⟨first, isFirst, isLetter⟩ := isPart.begins
  obtain ⟨last, isLast, noComma, -⟩ := isPart.ends
  constructor
  · exact List.ne_nil_of_mem (List.mem_of_mem_head? isFirst)
  · exact isPart.noBlank
  · exact isPart.noBrace
  · exact whole
  · rw [endsWithComma, decide_eq_false_iff_not, Option.mem_def.mp isLast]
    exact fun equal => noComma (Option.some.inj equal)
  · rintro rfl
    obtain rfl := Option.some.inj isFirst
    contradiction
  · exact isPart.balanced

end IsTypePart

theorem BaseWord.isTypePart (word : BaseWord) : IsTypePart word.text := by
  have isWord := word.name.isWord
  have foreign : ∀ bracket ∈ ['{', '}', '(', ')', '<', '>', '"'],
      isNameCharacter bracket = false := by
    decide
  have absent (bracket : Char) (isBracket : bracket ∈ ['{', '}', '(', ')', '<', '>', '"']) :
      word.name.text.count bracket = 0 :=
    List.count_eq_zero.mpr (isWord.not_mem (foreign bracket isBracket))
  have balanced := word.balanced
  constructor
  · obtain ⟨first, letters, shape⟩ := List.exists_cons_of_ne_nil isWord.1
    exact ⟨first, by simp [text, shape], isWord.2 first (by simp [shape])⟩
  · rcases word.enclosed with none | ⟨inside, shape⟩
    · obtain ⟨letters, last, shape⟩ := (List.eq_nil_or_concat word.name.text).resolve_left isWord.1
      rw [List.concat_eq_append] at shape
      have isLetter := isWord.2 last (by simp [shape])
      refine ⟨last, by simp [text, none, shape], ?_, ?_⟩
      · exact ne_of_isNameCharacter isLetter (by decide)
      · exact ne_of_isNameCharacter isLetter (by decide)
    · refine ⟨'>', ?_, by decide⟩
      rw [text, shape, ← List.cons_append, ← List.append_assoc, List.getLast?_concat]
      rfl
  · intro character member
    rcases List.mem_append.mp member with inName | inArguments
    · exact isBlank_eq_false_of_isNameCharacter (isWord.2 character inName)
    · exact word.noBlank character inArguments
  · simpa [text] using ⟨isWord.not_mem (by decide), word.noBrace⟩
  · simp only [Text.Balanced, text, List.count_append] at balanced ⊢
    simpa [absent] using balanced
  · rw [text, List.count_append, absent '"' (by decide), Nat.zero_add]
    exact word.evenQuotes

/-! ## Tokens -/

namespace MarkedLine

variable (line : MarkedLine)

theorem isTypePart_of_mem_type : ∀ word ∈ line.type, IsTypePart word := by
  intro word member
  obtain ⟨baseWord, -, rfl⟩ := List.mem_map.mp member
  exact baseWord.isTypePart

theorem isTypePart_atType : ∀ word ∈ line.typeWords .atType, IsTypePart word := by
  intro word member
  rcases List.mem_append.mp member with inFront | isLast
  · obtain ⟨baseWord, -, rfl⟩ := List.mem_map.mp inFront
    exact baseWord.isTypePart
  · obtain rfl := List.mem_singleton.mp isLast
    exact line.last.isTypePart.append_mark line.mark

theorem isDeclarator (spacing : Spacing) : IsDeclarator (line.declarator spacing) :=
  (line.decoration spacing).isDeclarator line.name

theorem areWords (spacing : Spacing) :
    Text.AreWords (line.typeWords spacing ++ [line.declarator spacing]) := by
  have ofPart {word : Text} (isPart : IsTypePart word) :
      word ≠ [] ∧ ∀ character ∈ word, Text.isBlank character = false := by
    obtain ⟨first, isFirst, -⟩ := isPart.begins
    exact ⟨List.ne_nil_of_mem (List.mem_of_mem_head? isFirst), isPart.noBlank⟩
  have ofMark : line.mark.text ≠ [] ∧
      ∀ character ∈ line.mark.text, Text.isBlank character = false := by
    cases line.mark <;> decide
  intro word member
  rcases List.mem_append.mp member with inType | isDeclarator
  · cases spacing with
    | atName => exact ofPart (line.isTypePart_of_mem_type word inType)
    | atType => exact ofPart (line.isTypePart_atType word inType)
    | apart =>
      rcases List.mem_append.mp inType with inWords | isMark
      · exact ofPart (line.isTypePart_of_mem_type word inWords)
      · obtain rfl := List.mem_singleton.mp isMark
        exact ofMark
  · obtain rfl := List.mem_singleton.mp isDeclarator
    exact ⟨(line.isDeclarator spacing).notEmpty, (line.isDeclarator spacing).noBlank⟩

theorem tokens_text (spacing : Spacing) :
    tokens (line.text spacing) =
      Text.regroup [] isFragment (line.typeWords spacing ++ [line.declarator spacing]) := by
  rw [tokens, text_eq_unwords, Text.words_unwords (line.areWords spacing)]

theorem begins (spacing : Spacing) :
    ∃ first ∈ (line.text spacing).head?, Text.isBlank first = false := by
  have spaced : Text.Spaced (line.text spacing) :=
    ⟨_, by simp, line.areWords spacing, (line.text_eq_unwords spacing).symm⟩
  exact spaced.begins

/-- At the type, a mark keeps the name apart from the tokens of the type, and makes them whole. -/
theorem exists_tokens_atType :
    ∃ type, type = Text.regroup [] isFragment (line.typeWords .atType) ∧
      type.flatten = (line.typeWords .atType).flatten ∧
        (∀ token ∈ type, IsTypeToken token) ∧
          tokens (line.text .atType) = type ++ [line.name.text] := by
  have areParts : ∀ group ∈ Text.regroup [] isFragment (line.typeWords .atType),
      IsTypePart group :=
    Text.forall_mem_regroup line.isTypePart_atType fun group piece isGroup isPiece => by
      rw [List.append_nil]
      exact isGroup.append isPiece
  have flattened : (Text.regroup [] isFragment (line.typeWords .atType)).flatten =
      (line.typeWords .atType).flatten :=
    Text.flatten_regroup _
  obtain ⟨front, last, shape⟩ := (List.eq_nil_or_concat
    (Text.regroup [] isFragment (line.typeWords .atType))).resolve_left
      (Text.regroup_ne_nil (line.typeWords_ne_nil .atType))
  rw [List.concat_eq_append] at shape
  -- The last group ends with the mark.
  have wholeLast : isFragment last = false := by
    refine (areParts last (by simp [shape])).isFragment_eq_false ?_
    intro isLetter
    refine line.mark.getLast?_append
      ((line.front.map BaseWord.text).flatten ++ line.last.text) ?_
    have sameText : (line.front.map BaseWord.text).flatten ++ line.last.text ++ line.mark.text =
        front.flatten ++ last := by
      have sameFlat := flattened
      rw [shape] at sameFlat
      simpa [typeWords] using sameFlat.symm
    rw [sameText, List.getLast?_append, isLetter]
    rfl
  refine ⟨_, rfl, flattened, fun token member => ?_, ?_⟩
  · refine (areParts token member).isTypeToken ?_
    rw [shape] at member
    rcases List.mem_append.mp member with inFront | isLast
    · have isEarlier : token ∈ (Text.regroup [] isFragment (line.typeWords .atType)).dropLast := by
        rw [shape, List.dropLast_concat]
        exact inFront
      exact Text.complete_of_mem_dropLast isEarlier
    · obtain rfl := List.mem_singleton.mp isLast
      exact wholeLast
  · rw [line.tokens_text, Text.regroup_append shape, Text.extend_of_complete wholeLast, shape,
      List.append_assoc]
    rfl

/-! ## Members -/

/-- The words that make up the type, without `static`. -/
def typed (spacing : Spacing) : List Text :=
  (line.typeWords spacing).filter (· ≠ staticWord)

/-- The member that is read if no word of the type is read as a fragment. -/
def memberAt (spacing : Spacing) : DataMember :=
  (line.decoration spacing).member line.name (Text.unwords (line.typed spacing))
    (isBuiltinType (Text.unwords (line.typed spacing)))
    ((line.typeWords spacing).contains staticWord)

theorem areTypeTokens
    (ordinary : ∀ word ∈ line.type, word ≠ "_STD".toList)
    (spacing : Spacing) :
    ∀ word ∈ line.typeWords spacing, IsTypeToken word := by
  have ofType : ∀ word ∈ line.type, IsTypeToken word := by
    intro word member
    have isPart := line.isTypePart_of_mem_type word member
    refine isPart.isTypeToken ?_
    rw [← Bool.not_eq_true]
    exact fun fragment => ordinary word member (isPart.eq_of_isFragment fragment)
  cases spacing with
  | atName => exact ofType
  | atType =>
    intro word member
    rcases List.mem_append.mp member with inFront | isLast
    · refine ofType word ?_
      rw [type, List.map_append]
      exact List.mem_append_left _ inFront
    · obtain rfl := List.mem_singleton.mp isLast
      have isPart := line.last.isTypePart.append_mark line.mark
      exact isPart.isTypeToken (isPart.isFragment_eq_false (line.mark.getLast?_append _))
  | apart =>
    have ofMark : IsTypeToken line.mark.text := by
      cases line.mark <;> constructor <;> decide
    intro word member
    rcases List.mem_append.mp member with inType | isMark
    · exact ofType word inType
    · obtain rfl := List.mem_singleton.mp isMark
      exact ofMark

/-- If no word of the type is read as a fragment, the words are the tokens. -/
theorem members_text
    (ordinary : ∀ word ∈ line.type, word ≠ "_STD".toList)
    (spacing : Spacing) :
    members (line.text spacing ++ [';']) =
      if line.typed spacing = [] then .error (.unresolvedDeclaration (line.text spacing ++ [';']))
      else .ok [line.memberAt spacing] := by
  have areTokens := line.areTypeTokens ordinary spacing
  have split : tokens (line.text spacing) = line.typeWords spacing ++ [line.declarator spacing] := by
    rw [line.tokens_text]
    refine Text.regroup_of_whole fun word member => ?_
    rw [List.dropLast_concat] at member
    exact (areTokens word member).whole
  rw [members_of_tokens (line.begins spacing) split areTokens (line.isDeclarator spacing),
    declarator, Decoration.memberOf_text]
  rfl

theorem name_memberAt (spacing : Spacing) : (line.memberAt spacing).name = line.name.text := by
  cases spacing with
  | atName =>
    rw [memberAt, decoration]
    cases line.mark <;> rfl
  | atType => rfl
  | apart => rfl

/-- No word with a mark behind it is `static`. -/
theorem append_mark_ne_staticWord (word : Text) : word ++ line.mark.text ≠ staticWord := by
  intro equal
  have ends := congrArg List.getLast? equal
  have endsInLetter : staticWord.getLast? = some 'c' := by decide
  rw [endsInLetter] at ends
  cases mark : line.mark <;> simp [mark, Mark.text] at ends

theorem typed_eq
    (notStatic : line.last.text ≠ staticWord)
    (spacing : Spacing) :
    line.typed spacing =
      (line.front.map BaseWord.text).filter (· ≠ staticWord) ++
        match spacing with
        | .atName => [line.last.text]
        | .atType => [line.last.text ++ line.mark.text]
        | .apart => [line.last.text, line.mark.text] := by
  have markedKept := line.append_mark_ne_staticWord line.last.text
  have markKept : line.mark.text ≠ staticWord := by
    simpa using line.append_mark_ne_staticWord []
  cases spacing <;>
    simp [typed, typeWords, type, notStatic, markedKept, markKept]

/-- Without spaces, the type is made of its words. -/
theorem filter_unwords_typed (spacing : Spacing) :
    (Text.unwords (line.typed spacing)).filter (· ≠ ' ') = (line.typed spacing).flatten := by
  refine Text.filter_unwords fun word member isSpace => ?_
  have isWord := line.areWords spacing word
    (List.mem_append_left _ (List.mem_of_mem_filter member))
  exact absurd (isWord.2 ' ' isSpace) (by decide)

/-- At the name, the mark is added to the type. -/
theorem filter_declaredType_atName :
    (line.memberAt .atName).declaredType.filter (· ≠ ' ') =
      (line.typed .atName).flatten ++ line.mark.text := by
  have declared : (line.memberAt .atName).declaredType =
      Text.unwords (line.typed .atName) ++ line.mark.text := by
    rw [memberAt, decoration]
    cases line.mark <;> rfl
  have markKept : line.mark.text.filter (· ≠ ' ') = line.mark.text := by
    cases line.mark <;> rfl
  rw [declared, List.filter_append, line.filter_unwords_typed, markKept]

/-- Without spaces, the type is the same wherever the mark stands. -/
theorem filter_declaredType
    (notStatic : line.last.text ≠ staticWord)
    (spacing : Spacing) :
    (line.memberAt spacing).declaredType.filter (· ≠ ' ') =
      (line.typed .atName).flatten ++ line.mark.text := by
  cases spacing with
  | atName => exact line.filter_declaredType_atName
  | atType | apart =>
    refine (line.filter_unwords_typed _).trans ?_
    rw [line.typed_eq notStatic, line.typed_eq notStatic]
    simp

/-- If the type ends with `static`, the mark at the type makes another word of it. -/
theorem filter_declaredType_ne
    (isStatic : line.last.text = staticWord) :
    (line.memberAt .atName).declaredType.filter (· ≠ ' ') ≠
      (line.memberAt .atType).declaredType.filter (· ≠ ' ') := by
  have markedKept := line.append_mark_ne_staticWord line.last.text
  have atType : (line.memberAt .atType).declaredType.filter (· ≠ ' ') =
      (line.typed .atName).flatten ++ (staticWord ++ line.mark.text) := by
    refine (line.filter_unwords_typed _).trans ?_
    rw [isStatic] at markedKept
    simp [typed, typeWords, type, isStatic, markedKept]
  rw [line.filter_declaredType_atName, atType]
  intro same
  have isEmpty : staticWord = [] :=
    List.self_eq_append_left.mp (List.append_cancel_left same)
  exact absurd isEmpty (by decide)

/-- A pointer to a built-in type may be passed by value. -/
theorem byValue_memberAt
    (isPointer : line.mark = .pointer)
    (builtin : ∀ word ∈ line.type, word ∈ builtinWords)
    (notStatic : line.last.text ≠ staticWord)
    (spacing : Spacing) :
    (line.memberAt spacing).byValue = true := by
  have isBuiltin : ∀ word ∈ builtinWords, isBuiltinType word = true := by decide
  have ofFront : ∀ word ∈ (line.front.map BaseWord.text).filter (· ≠ staticWord),
      isBuiltinType word = true := by
    intro word member
    refine isBuiltin word (builtin word ?_)
    rw [type, List.map_append]
    exact List.mem_append_left _ (List.mem_of_mem_filter member)
  have ofLast : isBuiltinType line.last.text = true := by
    refine isBuiltin _ (builtin _ ?_)
    simp [type]
  have ofMark : isBuiltinType ['*'] = true := by decide
  cases spacing with
  | atName =>
    rw [memberAt, decoration]
    cases line.mark <;> rfl
  | atType =>
    show isBuiltinType (Text.unwords (line.typed .atType)) = true
    rw [isBuiltinType_unwords, line.typed_eq notStatic, List.all_append,
      List.all_eq_true.mpr ofFront, isPointer, Mark.text]
    simp [isBuiltinType_append_star, ofLast]
  | apart =>
    show isBuiltinType (Text.unwords (line.typed .apart)) = true
    rw [isBuiltinType_unwords, line.typed_eq notStatic, List.all_append,
      List.all_eq_true.mpr ofFront, isPointer, Mark.text]
    simp [ofLast, ofMark]

/-! ## The spacing of marks -/

section ByValue

variable {line : MarkedLine} {member : DataMember}
variable (declares : members (line.text .atType ++ [';']) = .ok [member])
variable (byValue : member.byValue = true)

include declares byValue

/-- A member with its mark at the type is passed by value only if its type is a built-in one. -/
theorem characters_of_byValue :
    ∀ character ∈ (line.typeWords .atType).flatten,
      character = '*' ∨ character ∈ builtinWords.flatten := by
  obtain ⟨type, -, flattened, areTokens, split⟩ := line.exists_tokens_atType
  rw [members_of_tokens (line.begins .atType) split areTokens
    (Decoration.plain.isDeclarator line.name)] at declares
  split at declares
  · contradiction
  have isBuiltin : isBuiltinType (Text.unwords (type.filter (· ≠ staticWord))) = true := by
    have read := Decoration.plain.memberOf_text line.name
      (Text.unwords (type.filter (· ≠ staticWord))) (type.contains staticWord)
    obtain rfl := (List.cons.inj (Except.ok.inj declares)).1
    exact (congrArg DataMember.byValue read).symm.trans byValue
  rw [isBuiltinType_unwords, List.all_eq_true] at isBuiltin
  intro character member
  rw [← flattened] at member
  obtain ⟨token, isToken, inside⟩ := List.mem_flatten.mp member
  by_cases isStatic : token = staticWord
  · have isWord : staticWord ∈ builtinWords := by decide
    exact .inr (List.mem_flatten.mpr ⟨token, isStatic ▸ isWord, inside⟩)
  · have isKept : token ∈ type.filter (· ≠ staticWord) :=
      List.mem_filter.mpr ⟨isToken, decide_eq_true isStatic⟩
    refine (mem_of_isBuiltinType (isBuiltin token isKept) inside).resolve_left ?_
    rintro rfl
    exact absurd ((areTokens token isToken).noBlank ' ' inside) (by decide)

theorem mark_eq_of_byValue : line.mark = .pointer := by
  have ofMark : ∀ character ∈ line.mark.text, character = '*' ∨ character ∈ builtinWords.flatten := by
    intro character member
    refine characters_of_byValue declares byValue character ?_
    rw [typeWords, List.flatten_append]
    simp [member]
  have noMark : ¬ ('&' = '*' ∨ '&' ∈ builtinWords.flatten) := by decide
  cases mark : line.mark with
  | pointer => rfl
  | reference => exact absurd (ofMark '&' (by rw [mark]; decide)) noMark
  | temporary => exact absurd (ofMark '&' (by rw [mark]; decide)) noMark

theorem characters_of_mem_type :
    ∀ word ∈ line.type, ∀ character ∈ word,
      character = '*' ∨ character ∈ builtinWords.flatten := by
  intro word member character inside
  refine characters_of_byValue declares byValue character (List.mem_flatten.mpr ?_)
  rw [type, List.map_append] at member
  rcases List.mem_append.mp member with inFront | isLast
  · exact ⟨word, List.mem_append_left _ inFront, inside⟩
  · obtain rfl := List.mem_singleton.mp isLast
    exact ⟨_, by simp [typeWords], List.mem_append_left line.mark.text inside⟩

theorem ordinary_of_byValue : ∀ word ∈ line.type, word ≠ "_STD".toList := by
  rintro word member rfl
  have foreign : ¬ ('S' = '*' ∨ 'S' ∈ builtinWords.flatten) := by decide
  exact foreign (characters_of_mem_type declares byValue _ member 'S' (by decide))

/-- The words of a type without arguments hold no stars. -/
theorem whole_of_byValue :
    ∀ word ∈ line.type, ∀ character ∈ word, character ≠ ' ' ∧ character ≠ '*' := by
  intro word member
  obtain ⟨baseWord, isBase, rfl⟩ := List.mem_map.mp member
  have noArguments : baseWord.arguments = [] := by
    rcases baseWord.enclosed with none | ⟨inside, shape⟩
    · exact none
    · have foreign : ¬ ('<' = '*' ∨ '<' ∈ builtinWords.flatten) := by decide
      have isInside : '<' ∈ baseWord.text := by simp [BaseWord.text, shape]
      exact absurd (characters_of_mem_type declares byValue _ member '<' isInside) foreign
  intro character inside
  rw [BaseWord.text, noArguments, List.append_nil] at inside
  have isLetter := baseWord.name.isWord.2 character inside
  exact ⟨ne_of_isNameCharacter isLetter (by decide), ne_of_isNameCharacter isLetter (by decide)⟩

theorem isBuiltinType_typed : ∀ word ∈ line.typed .atType, isBuiltinType word = true := by
  have ordinary := ordinary_of_byValue declares byValue
  rw [line.members_text ordinary] at declares
  split at declares
  · contradiction
  · obtain rfl := (List.cons.inj (Except.ok.inj declares)).1
    have isBuiltin : isBuiltinType (Text.unwords (line.typed .atType)) = true := byValue
    rw [isBuiltinType_unwords] at isBuiltin
    exact List.all_eq_true.mp isBuiltin

/-- All words of the type are words of built-in types. -/
theorem builtin_of_byValue : ∀ word ∈ line.type, word ∈ builtinWords := by
  have isPointer := mark_eq_of_byValue declares byValue
  have isBuiltin := isBuiltinType_typed declares byValue
  intro word member
  have whole := whole_of_byValue declares byValue word member
  by_cases isStatic : word = staticWord
  · rw [isStatic]
    decide
  have found : isBuiltinType word = true := by
    rw [type, List.map_append] at member
    rcases List.mem_append.mp member with inFront | isLast
    · refine isBuiltin word (List.mem_filter.mpr ⟨?_, decide_eq_true isStatic⟩)
      exact List.mem_append_left _ inFront
    · obtain rfl := List.mem_singleton.mp isLast
      rw [← isBuiltinType_append_star]
      refine isBuiltin _ (List.mem_filter.mpr ⟨?_, decide_eq_true ?_⟩)
      · simp [typeWords, isPointer, Mark.text]
      · simpa [isPointer, Mark.text] using line.append_mark_ne_staticWord line.last.text
  rw [isBuiltinType_of_whole whole] at found
  exact List.contains_iff_mem.mp found

end ByValue

/--
The line is read alike exactly if the mark is that of a pointer, all words of the type are words of
built-in types, and the last of them is not `static`.
-/
theorem readsAlike_iff :
    line.ReadsAlike ↔
      line.mark = .pointer ∧ (∀ word ∈ line.type, word ∈ builtinWords) ∧
        line.last.text ≠ staticWord := by
  constructor
  · rintro ⟨member, reads, sameType⟩
    obtain ⟨declares, -, byValue⟩ := reads .atType
    have ordinary := ordinary_of_byValue declares byValue
    have isRead (spacing : Spacing) : line.memberAt spacing = member spacing := by
      have read := (reads spacing).1
      rw [line.members_text ordinary] at read
      split at read
      · contradiction
      · exact (List.cons.inj (Except.ok.inj read)).1
    refine ⟨mark_eq_of_byValue declares byValue, builtin_of_byValue declares byValue, ?_⟩
    intro isStatic
    apply line.filter_declaredType_ne isStatic
    rw [isRead, isRead]
    exact sameType .atName .atType
  · rintro ⟨isPointer, builtin, notStatic⟩
    have ordinary : ∀ word ∈ line.type, word ≠ "_STD".toList := by
      have noPrefix : ∀ word ∈ builtinWords, word ≠ "_STD".toList := by decide
      exact fun word member => noPrefix word (builtin word member)
    refine ⟨line.memberAt, fun spacing => ⟨?_, ?_, ?_⟩, fun spacing other => ?_⟩
    · have notEmpty : line.typed spacing ≠ [] := by
        rw [line.typed_eq notStatic]
        cases spacing <;> simp
      rw [line.members_text ordinary, if_neg notEmpty]
    · exact line.name_memberAt spacing
    · exact line.byValue_memberAt isPointer builtin notStatic spacing
    · rw [line.filter_declaredType notStatic, line.filter_declaredType notStatic]

/-- The line `Foo *x`. -/
def pointerToClass : MarkedLine where
  front := []
  last :=
    { name := ⟨"Foo".toList, by decide⟩
      arguments := []
      enclosed := .inl rfl
      noBlank := by simp
      noBrace := by simp
      balanced := by decide
      evenQuotes := rfl }
  mark := .pointer
  name := ⟨"x".toList, by decide⟩

/-- A pointer to a class is passed by value if its star stands at the name, and not otherwise. -/
theorem members_pointerToClass :
    members "Foo *x;".toList =
        .ok [{ name := "x".toList, declaredType := "Foo*".toList, byValue := true }] ∧
      members "Foo* x;".toList =
        .ok [{ name := "x".toList, declaredType := "Foo*".toList, byValue := false }] ∧
      pointerToClass.text .atName = "Foo *x".toList ∧
      pointerToClass.text .atType = "Foo* x".toList ∧
      ¬ pointerToClass.ReadsAlike := by
  have atName : members "Foo *x;".toList =
      .ok [{ name := "x".toList, declaredType := "Foo*".toList, byValue := true }] := by
    decide
  have atType : members "Foo* x;".toList =
      .ok [{ name := "x".toList, declaredType := "Foo*".toList, byValue := false }] := by
    decide
  have isText : pointerToClass.text .atType ++ [';'] = "Foo* x;".toList := by decide
  refine ⟨atName, atType, by decide, by decide, ?_⟩
  rintro ⟨member, reads, -⟩
  obtain ⟨declares, -, byValue⟩ := reads .atType
  rw [isText, atType] at declares
  have isRead := (List.cons.inj (Except.ok.inj declares)).1
  rw [← isRead] at byValue
  exact Bool.false_ne_true byValue

end MarkedLine

end Written

end ClassOutline
