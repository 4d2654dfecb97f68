import ClassOutline.Proofs.Written.Decoration
/-!
# Written lines of members

A line of members is written as a type and declarators with commas between them, perhaps with
`static` in front.  It declares one member for each declarator.
-/

namespace ClassOutline.Written

variable {barred : List Text}

/-! ## Declarators -/

/-- A declarator without a value: a decorated name.  No barred word stands in it. -/
structure Declarator (barred : List Text) where
  name : Identifier barred
  decoration : Decoration
  extentLacks : ∀ extent ∈ decoration.extent?, ∀ word ∈ reservedWords ++ barred,
    extent.text.Lacks word

namespace Declarator

/-- The text of a declarator. -/
def text (declarator : Declarator barred) : Text :=
  declarator.decoration.text declarator.name.word

/-- The member that a declarator declares with a type, which may be a built-in one. -/
def member (type : Text) (isBuiltin isStatic : Bool) (declarator : Declarator barred) :
    DataMember :=
  declarator.decoration.member declarator.name.word type isBuiltin isStatic

variable (declarator : Declarator barred)

/-- A declarator is made of name characters and its marks. -/
theorem characters :
    ∀ character ∈ declarator.text,
      isNameCharacter character = true ∨ character ∈ "*&[]".toList :=
  declarator.decoration.characters declarator.name.word

theorem lacks
    {word : Text}
    (isBarred : word ∈ reservedWords ++ barred)
    (isWord : IsWord word) :
    declarator.text.Lacks word := by
  obtain ⟨name, decoration, extentLacks⟩ := declarator
  have ofName : name.word.text.Lacks word := name.lacks word isBarred
  have ofMark {mark : Char} {rest : Text} (noName : isNameCharacter mark = false)
      (lacks : rest.Lacks word) : Text.Lacks (mark :: rest) word :=
    (Text.lacks_cons _ isWord.1 (isWord.not_mem noName)).mpr lacks
  cases decoration with
  | plain => exact ofName
  | pointer | reference => exact ofMark (by decide) ofName
  | temporary => exact ofMark (by decide) (ofMark (by decide) ofName)
  | array extent =>
    have ofExtent : extent.text.Lacks word := extentLacks extent rfl word isBarred
    rw [text, Decoration.text, Text.lacks_append_cons _ _ (isWord.not_mem (by decide)),
      Text.lacks_append_cons _ _ (isWord.not_mem (by decide))]
    exact ⟨ofName, ofExtent, Text.lacks_nil isWord.1⟩

theorem isDeclarator : Declaration.IsDeclarator declarator.text :=
  declarator.decoration.isDeclarator declarator.name.word

/-- A declarator is read as the member that it declares. -/
theorem memberOf_text
    (type : Text)
    (isStatic : Bool) :
    { Declaration.memberOf type declarator.text with isStatic } =
      declarator.member type (Declaration.isBuiltinType type) isStatic :=
  declarator.decoration.memberOf_text declarator.name.word type isStatic

end Declarator

/-! ## Lines -/

/-- The separator of the arguments of a type. -/
abbrev tight : Text :=
  [',']

/-- A line of members, perhaps with `static` in front of its type. -/
structure MemberLine (barred : List Text) where
  isStatic : Bool
  type : List (Name barred tight)
  declarators : List (Declarator barred)
  typeNotEmpty : type ≠ []
  declaratorsNotEmpty : declarators ≠ []

namespace MemberLine

/-- The text of the type. -/
def typeText (line : MemberLine barred) : Text :=
  Text.unwords (line.type.map Name.text)

/-- The text of the line without its semicolon. -/
def text (line : MemberLine barred) : Text :=
  (if line.isStatic then "static ".toList else []) ++
    line.typeText ++ ' ' :: [',', ' '].intercalate (line.declarators.map Declarator.text)

/-- Whether all words of the type belong to the built-in types. -/
def isBuiltin (line : MemberLine barred) : Bool :=
  line.type.all fun name => Declaration.builtinWords.contains name.text

/-- The members that the line declares. -/
def members (line : MemberLine barred) : List DataMember :=
  line.declarators.map (Declarator.member line.typeText line.isBuiltin line.isStatic)

theorem isTypeToken
    {name : Name barred tight}
    (noPrefix : name.text ≠ "_STD".toList) :
    Declaration.IsTypeToken name.text := by
  have isSeparator : tight ∈ separators := by decide
  have absent (mark : Char) (noName : isNameCharacter mark = false)
      (noPunctuation : mark ∉ ":<>, ".toList) : mark ∉ name.text :=
    name.isName.not_mem isSeparator noName noPunctuation
  have balanced := name.isName.balanced isSeparator
  obtain ⟨last, isLast, endsName⟩ := name.isName.ends
  have noEnd (mark : Char) (noName : isNameCharacter mark = false) (noBracket : mark ≠ '>') :
      name.text.getLast? ≠ some mark := by
    rw [Option.mem_def.mp isLast]
    rintro equal
    obtain rfl := Option.some.inj equal
    rcases endsName with isLetter | isBracket
    · rw [noName] at isLetter
      contradiction
    · exact noBracket isBracket
  constructor
  · obtain ⟨first, isFirst, -⟩ := name.isName.begins
    exact List.ne_nil_of_mem (List.mem_of_mem_head? isFirst)
  · exact name.isName.noBlank
  · exact absent '{' (by decide) (by decide)
  · refine Declaration.isFragment_eq_false balanced ?_ noPrefix ?_
    · rw [List.count_eq_zero.mpr (absent '"' (by decide) (by decide))]
    · exact Declaration.noScope_of_getLast? (noEnd ':' (by decide) (by decide))
  · rw [Declaration.endsWithComma, decide_eq_false_iff_not]
    exact noEnd ',' (by decide) (by decide)
  · intro equal
    exact absent '=' (by decide) (by decide) (equal ▸ List.mem_cons_self)
  · exact balanced

theorem ne_staticWord (name : Name barred tight) : name.text ≠ Declaration.staticWord := by
  have lacks : name.text.Lacks Declaration.staticWord :=
    name.isName.lacks (by decide) (List.mem_append_left _ (by decide)) (by decide)
  exact fun equal => lacks (equal ▸ List.infix_rfl)

theorem text_eq_textOf (line : MemberLine barred) :
    line.text =
      Declaration.textOf line.isStatic (line.type.map Name.text)
        (line.declarators.map Declarator.text) := by
  have typeNotEmpty : line.type.map Name.text ≠ [] := by simpa using line.typeNotEmpty
  have listedNotEmpty : Declaration.listed (line.declarators.map Declarator.text) ≠ [] :=
    Declaration.listed_ne_nil (by simpa using line.declaratorsNotEmpty)
  rw [Declaration.textOf, Declaration.unwords_staticWords_append _ typeNotEmpty listedNotEmpty,
    Declaration.unwords_listed]
  rfl

theorem isBuiltinType_typeText (line : MemberLine barred) :
    Declaration.isBuiltinType line.typeText = line.isBuiltin := by
  have whole : ∀ text ∈ line.type.map Name.text, ∀ character ∈ text,
      (decide (character = ' ') || decide (character = '*')) = false := by
    intro text isText character member
    obtain ⟨name, -, rfl⟩ := List.mem_map.mp isText
    have notBlank := name.isName.noBlank character member
    have noStar : '*' ∉ name.text := name.isName.not_mem (by decide) (by decide) (by decide)
    have noSpace : character ≠ ' ' := by
      rintro rfl
      exact absurd notBlank (by decide)
    have notStar : character ≠ '*' := fun equal => noStar (equal ▸ member)
    simp [noSpace, notStar]
  rw [Declaration.isBuiltinType, typeText,
    Text.splitWhere_unwords (by simpa using line.typeNotEmpty) (by decide) whole, List.all_map]
  rfl

/-- The line declares its members, unless a word of its type is read as a fragment. -/
theorem members_text
    {line : MemberLine barred}
    (noPrefix : ∀ name ∈ line.type, name.text ≠ "_STD".toList) :
    Declaration.members (line.text ++ [';']) = .ok line.members := by
  rw [text_eq_textOf, Declaration.members_textOf line.isStatic, List.map_map, members]
  · congr 1
    refine List.map_congr_left fun declarator _ => ?_
    rw [← isBuiltinType_typeText, ← declarator.memberOf_text]
    rfl
  · intro token member
    obtain ⟨name, isName, rfl⟩ := List.mem_map.mp member
    exact isTypeToken (noPrefix name isName)
  · intro token member
    obtain ⟨name, -, rfl⟩ := List.mem_map.mp member
    exact ne_staticWord name
  · simpa using line.typeNotEmpty
  · intro text member
    obtain ⟨declarator, -, rfl⟩ := List.mem_map.mp member
    exact declarator.isDeclarator
  · simpa using line.declaratorsNotEmpty

/-! ## The line as a statement -/

theorem lacks
    {word : Text}
    (line : MemberLine barred)
    (isBarred : word ∈ reservedWords ++ barred)
    (isWord : IsWord word)
    (notStatic : Text.Lacks "static".toList word) :
    line.text.Lacks word := by
  have noSpace : ' ' ∉ word := isWord.not_mem (by decide)
  have typeLacks : line.typeText.Lacks word := by
    refine Text.lacks_intercalate isWord.1 (by simp) (by simpa using noSpace) ?_
    intro text member
    obtain ⟨name, -, rfl⟩ := List.mem_map.mp member
    exact name.isName.lacks (by decide) isBarred isWord
  have listLacks : Text.Lacks ([',', ' '].intercalate (line.declarators.map Declarator.text))
      word := by
    refine Text.lacks_intercalate isWord.1 (by simp) ?_ ?_
    · have noComma : ',' ∉ word := isWord.not_mem (by decide)
      simpa using ⟨noComma, noSpace⟩
    · intro text member
      obtain ⟨declarator, -, rfl⟩ := List.mem_map.mp member
      exact declarator.lacks isBarred isWord
  have behind := (Text.lacks_append_cons _ _ noSpace).mpr ⟨typeLacks, listLacks⟩
  rw [text]
  cases line.isStatic with
  | false => exact behind
  | true =>
    have shape : (if true = true then "static ".toList else []) ++ line.typeText ++
        ' ' :: [',', ' '].intercalate (line.declarators.map Declarator.text) =
        "static".toList ++ ' ' :: (line.typeText ++
          ' ' :: [',', ' '].intercalate (line.declarators.map Declarator.text)) := by
      simp
    rw [shape]
    exact (Text.lacks_append_cons _ _ noSpace).mpr ⟨notStatic, behind⟩

/-- A line is made of name characters and the punctuation of types and declarators. -/
theorem characters (line : MemberLine barred) :
    ∀ character ∈ line.text,
      isNameCharacter character = true ∨ character ∈ ":<>, *&[]".toList := by
  have ofType : ∀ token ∈ line.type.map Name.text, ∀ character ∈ token,
      isNameCharacter character = true ∨ character ∈ ":<>, *&[]".toList := by
    intro token member character inside
    obtain ⟨name, -, rfl⟩ := List.mem_map.mp member
    have wider : ∀ mark ∈ ":<>".toList, mark ∈ ":<>, *&[]".toList := by decide
    rcases name.isName.characters character inside with isLetter | isMark | isComma
    · exact .inl isLetter
    · exact .inr (wider character isMark)
    · obtain rfl := List.mem_singleton.mp isComma
      exact .inr (by decide)
  have ofDeclarator : ∀ token ∈ line.declarators.map Declarator.text, ∀ character ∈ token,
      isNameCharacter character = true ∨ character ∈ ":<>, *&[]".toList := by
    intro token member character inside
    obtain ⟨declarator, -, rfl⟩ := List.mem_map.mp member
    have wider : ∀ mark ∈ "*&[]".toList, mark ∈ ":<>, *&[]".toList := by decide
    exact (declarator.characters character inside).imp_right (wider character)
  have ofStatic : ∀ character ∈ Declaration.staticWord,
      isNameCharacter character = true ∨ character ∈ ":<>, *&[]".toList := by
    decide
  have ofTokens := Declaration.forall_tokens line.isStatic ofType ofStatic
    fun token member => ⟨ofDeclarator token member, fun character inside => by
      rcases List.mem_append.mp inside with inToken | isComma
      · exact ofDeclarator token member character inToken
      · obtain rfl := List.mem_singleton.mp isComma
        exact .inr (by decide)⟩
  rw [text_eq_textOf]
  intro character member
  rcases Text.mem_intercalate member with isSpace | ⟨token, isToken, inToken⟩
  · obtain rfl := List.mem_singleton.mp isSpace
    exact .inr (by decide)
  · exact ofTokens token isToken character inToken

theorem plain (line : MemberLine barred) : Statement.Plain line.text := by
  intro character member
  have marksPlain : ∀ mark ∈ ":<>, *&[]".toList, Statement.cuts mark = false := by decide
  rcases line.characters character member with isLetter | isMark
  · exact cuts_eq_false_of_isNameCharacter isLetter
  · exact marksPlain character isMark

theorem begins (line : MemberLine barred) :
    ∃ first ∈ line.text.head?, Text.isBlank first = false := by
  have spaced : Text.Spaced line.typeText := by
    refine ⟨line.type.map Name.text, by simpa using line.typeNotEmpty, ?_, rfl⟩
    intro text member
    obtain ⟨name, -, rfl⟩ := List.mem_map.mp member
    obtain ⟨first, isFirst, -⟩ := name.isName.begins
    exact ⟨List.ne_nil_of_mem (List.mem_of_mem_head? isFirst), name.isName.noBlank⟩
  rw [text]
  cases line.isStatic with
  | false =>
    rw [if_neg Bool.false_ne_true, List.nil_append]
    exact Text.exists_head?_append spaced.begins _
  | true => exact ⟨'s', rfl, by decide⟩

theorem isData (line : MemberLine barred) : Statement.IsData line.text := by
  have keywords : ∀ keyword ∈ Shape.otherKeywords, keyword ∈ reservedWords ∧ IsWord keyword ∧
      Text.Lacks "static".toList keyword := by
    decide
  refine ⟨line.plain, line.begins, fun keyword isKeyword => ?_⟩
  obtain ⟨isReserved, isWord, notStatic⟩ := keywords keyword isKeyword
  exact line.lacks (List.mem_append_left _ isReserved) isWord notStatic

end MemberLine

end ClassOutline.Written
