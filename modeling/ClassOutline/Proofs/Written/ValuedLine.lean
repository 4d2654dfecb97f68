import ClassOutline.Proofs.Written.Decoration
/-!
# Written lines with initial values

A declarator may give its member an initial value, behind an equals sign between blanks or in braces
directly behind the name.  A comma that follows the value follows the declarator, once the value is
taken out.  So the line declares the same members as the line without the values.
-/

namespace ClassOutline.Written

/-! ## Parts of a line -/

/-- A word of a type. -/
structure IsTypeWord (word : Text) : Prop where
  notEmpty : word ≠ []
  noBlank : ∀ character ∈ word, Text.isBlank character = false
  noMark : ∀ mark ∈ ['{', '}', '"', ';'], mark ∉ word
  parens : word.count '(' = word.count ')'
  angles : word.count '<' = word.count '>'
  noSign : word ≠ ['=']
  notStatic : word ≠ Declaration.staticWord
  noPrefix : word ≠ "_STD".toList
  noScope : ¬ "::".toList <:+ word
  noComma : word.getLast? ≠ some ','

/-- A value that may stand behind an equals sign. -/
structure IsValue (value : Text) : Prop where
  notEmpty : value ≠ []
  noBlank : ∀ character ∈ value, Text.isBlank character = false
  balanced : Text.Balanced value
  evenQuotes : value.count '"' % 2 = 0
  noSign : value ≠ ['=']
  noPrefix : value ≠ "_STD".toList
  noScope : ¬ "::".toList <:+ value
  noCommaFirst : value.head? ≠ some ','
  noCommaLast : value.getLast? ≠ some ','

/-- A value that may stand in braces. -/
structure IsEnclosedValue (value : Text) : Prop where
  noBlank : ∀ character ∈ value, Text.isBlank character = false
  balanced : Text.Balanced value
  evenQuotes : value.count '"' % 2 = 0

/-- How a declarator gives its member an initial value, if it does. -/
inductive InitialValue where
  | none
  | assigned (value : Text) (isValue : IsValue value)
  | enclosed (value : Text) (isValue : IsEnclosedValue value)

/-- A declarator that may give its member an initial value. -/
structure ValuedDeclarator where
  name : Word
  decoration : Decoration
  value : InitialValue
  /-- The name is not the word that is read as a fragment. -/
  noPrefix : name.text ≠ "_STD".toList

/-- A line of members, perhaps with `static` in front of its type. -/
structure ValuedLine where
  isStatic : Bool
  type : List Text
  declarators : List ValuedDeclarator
  areTypeWords : ∀ word ∈ type, IsTypeWord word
  typeNotEmpty : type ≠ []
  declaratorsNotEmpty : declarators ≠ []

theorem IsTypeWord.isTypeToken
    {word : Text}
    (isTypeWord : IsTypeWord word) :
    Declaration.IsTypeToken word := by
  have absent (mark : Char) (isMark : mark ∈ ['{', '}', '"', ';']) : word.count mark = 0 :=
    List.count_eq_zero.mpr (isTypeWord.noMark mark isMark)
  have balanced : Text.Balanced word :=
    ⟨by rw [absent '{' (by decide), absent '}' (by decide)], isTypeWord.parens, isTypeWord.angles⟩
  constructor
  · exact isTypeWord.notEmpty
  · exact isTypeWord.noBlank
  · exact isTypeWord.noMark '{' (by decide)
  · exact Declaration.isFragment_eq_false balanced (by rw [absent '"' (by decide)])
      isTypeWord.noPrefix isTypeWord.noScope
  · rw [Declaration.endsWithComma, decide_eq_false_iff_not]
    exact isTypeWord.noComma
  · exact isTypeWord.noSign
  · exact balanced

/-! ## Words -/

/-- The comma behind an item with others behind it. -/
def commaBefore {Item : Type} (later : List Item) : Text :=
  if later.isEmpty then [] else [',']

theorem commaBefore_eq {Item : Type} (later : List Item) :
    commaBefore later = [] ∨ commaBefore later = [','] := by
  cases later with
  | nil => exact .inl rfl
  | cons item later => exact .inr rfl

theorem listed_cons
    (declarator : Text)
    (later : List Text) :
    Declaration.listed (declarator :: later) =
      (declarator ++ commaBefore later) :: Declaration.listed later := by
  cases later with
  | nil => simp [Declaration.listed, commaBefore]
  | cons next later => rfl

namespace ValuedDeclarator

/-- The text of the declarator without its value. -/
def bare (declarator : ValuedDeclarator) : Text :=
  declarator.decoration.text declarator.name

/-- The text of the declarator. -/
def text (declarator : ValuedDeclarator) : Text :=
  match declarator.value with
  | .none => declarator.bare
  | .assigned value _ => declarator.bare ++ " = ".toList ++ value
  | .enclosed value _ => declarator.bare ++ '{' :: value ++ ['}']

/-- The words of the declarator, with a comma behind them or not. -/
def words (comma : Text) (declarator : ValuedDeclarator) : List Text :=
  match declarator.value with
  | .none => [declarator.bare ++ comma]
  | .assigned value _ => [declarator.bare, ['='], value ++ comma]
  | .enclosed value _ => [declarator.bare ++ '{' :: value ++ ['}'] ++ comma]

/-- The words of declarators with commas between them. -/
def allWords : List ValuedDeclarator → List Text
  | [] => []
  | declarator :: later => declarator.words (commaBefore later) ++ allWords later

variable (declarator : ValuedDeclarator) {comma : Text}

theorem words_ne_nil (comma : Text) : declarator.words comma ≠ [] := by
  rw [words]
  split <;> exact List.cons_ne_nil _ _

theorem unwords_words (comma : Text) :
    Text.unwords (declarator.words comma) = declarator.text ++ comma := by
  rw [words, text]
  split <;> simp [Text.unwords]

/-- The words make up the text of the declarators. -/
theorem unwords_allWords (declarators : List ValuedDeclarator) :
    Text.unwords (allWords declarators) = [',', ' '].intercalate (declarators.map text) := by
  induction declarators with
  | nil => rfl
  | cons declarator later hypothesis =>
    cases later with
    | nil =>
      rw [allWords, allWords, List.append_nil, unwords_words]
      simp [commaBefore]
    | cons next later =>
      have laterNotEmpty : allWords (next :: later) ≠ [] :=
        List.append_ne_nil_of_left_ne_nil (next.words_ne_nil _) _
      rw [allWords, Text.unwords_append (declarator.words_ne_nil _) laterNotEmpty, unwords_words,
        hypothesis]
      simp [commaBefore]

theorem bare_isDeclarator : Declaration.IsDeclarator declarator.bare :=
  declarator.decoration.isDeclarator declarator.name

theorem bare_append_ne_sign (behind : Text) : declarator.bare ++ behind ≠ ['='] := by
  obtain ⟨first, rest, shape⟩ := List.exists_cons_of_ne_nil declarator.bare_isDeclarator.notEmpty
  intro equal
  rw [shape, List.cons_append] at equal
  have isFirst : '=' ∈ declarator.bare := by simp [shape, (List.cons.inj equal).1]
  exact declarator.decoration.not_mem declarator.name (by decide) (by decide) isFirst

/-- A declarator with a value in braces is not cut in the middle. -/
theorem whole_enclosed
    {value : Text}
    (isValue : IsEnclosedValue value) :
    Declaration.isFragment (declarator.bare ++ '{' :: value ++ ['}']) = false := by
  have balanced := declarator.decoration.balanced declarator.name
  have noQuote := declarator.decoration.count_quote declarator.name
  have balancedValue := isValue.balanced
  have evenQuotes := isValue.evenQuotes
  refine Declaration.isFragment_eq_false ?_ ?_ ?_ (Declaration.noScope_of_getLast? ?_)
  · simp only [Text.Balanced] at balanced balancedValue ⊢
    simp [bare, balanced, balancedValue]
  · simp [bare, noQuote, evenQuotes]
  · intro equal
    have noBrace : '{' ∉ "_STD".toList := by decide
    exact noBrace (equal ▸ by simp)
  · rw [List.getLast?_concat]
    decide

/-- A word that is whole is so with a comma behind it. -/
theorem whole_append
    {word : Text}
    (isComma : comma = [] ∨ comma = [','])
    (whole : Declaration.isFragment word = false) :
    Declaration.isFragment (word ++ comma) = false := by
  rcases isComma with rfl | rfl
  · rwa [List.append_nil]
  · exact Declaration.isFragment_append_comma (Declaration.balanced_of_whole whole)
      (Declaration.evenQuotes_of_whole whole)

/-- No word is cut in the middle of a construct. -/
theorem whole_words
    (isComma : comma = [] ∨ comma = [',']) :
    ∀ word ∈ declarator.words comma, Declaration.isFragment word = false := by
  have wholeBare : Declaration.isFragment declarator.bare = false :=
    declarator.decoration.isFragment_eq_false declarator.name declarator.noPrefix
  intro word member
  rw [words] at member
  split at member
  · obtain rfl := List.mem_singleton.mp member
    exact whole_append isComma wholeBare
  · next value isValue _ =>
    have wholeValue : Declaration.isFragment value = false :=
      Declaration.isFragment_eq_false isValue.balanced isValue.evenQuotes isValue.noPrefix
        isValue.noScope
    simp only [List.mem_cons, List.not_mem_nil, or_false] at member
    rcases member with rfl | rfl | rfl
    · exact wholeBare
    · decide
    · exact whole_append isComma wholeValue
  · next value isValue _ =>
    obtain rfl := List.mem_singleton.mp member
    exact whole_append isComma (declarator.whole_enclosed isValue)

theorem areWords_words
    (isComma : comma = [] ∨ comma = [',']) :
    Text.AreWords (declarator.words comma) := by
  have commaNoBlank : ∀ character ∈ comma, Text.isBlank character = false := by
    rcases isComma with rfl | rfl <;> decide
  have marksNoBlank : ∀ mark ∈ ['=', '{', '}'], Text.isBlank mark = false := by decide
  have bareNoBlank := declarator.bare_isDeclarator.noBlank
  have bareNotEmpty := declarator.bare_isDeclarator.notEmpty
  have alone : bare declarator ++ comma ≠ [] ∧
      ∀ character ∈ bare declarator ++ comma, Text.isBlank character = false := by
    refine ⟨by simp [bareNotEmpty], fun character member => ?_⟩
    exact (List.mem_append.mp member).elim (bareNoBlank character) (commaNoBlank character)
  intro word member
  rw [words] at member
  split at member
  · obtain rfl := List.mem_singleton.mp member
    exact alone
  · next value isValue _ =>
    simp only [List.mem_cons, List.not_mem_nil, or_false] at member
    rcases member with rfl | rfl | rfl
    · exact ⟨bareNotEmpty, bareNoBlank⟩
    · decide
    · refine ⟨by simp [isValue.notEmpty], fun character member => ?_⟩
      exact (List.mem_append.mp member).elim (isValue.noBlank character) (commaNoBlank character)
  · next value isValue _ =>
    obtain rfl := List.mem_singleton.mp member
    refine ⟨by simp, fun character member => ?_⟩
    simp only [List.mem_append, List.mem_cons, List.not_mem_nil, or_false] at member
    rcases member with ((inBare | isOpening | inValue) | isClosing) | inComma
    · exact bareNoBlank character inBare
    · exact marksNoBlank character (by simp [isOpening])
    · exact isValue.noBlank character inValue
    · exact marksNoBlank character (by simp [isClosing])
    · exact commaNoBlank character inComma

/-! ## Passes -/

/-- A comma behind a value is one behind the declarator. -/
theorem withCommaOf_value
    {value : Text}
    (isValue : IsValue value)
    (isComma : comma = [] ∨ comma = [','])
    (rest : List Text) :
    Declaration.withCommaOf (['='] :: (value ++ comma) :: rest) declarator.bare =
      declarator.bare ++ comma := by
  have noComma : Declaration.endsWithComma declarator.bare = false :=
    Declaration.endsWithComma_eq_false declarator.bare_isDeclarator.noComma
  rw [Declaration.withCommaOf, noComma]
  rcases isComma with rfl | rfl
  · have noEnd : Declaration.endsWithComma value = false := by
      rw [Declaration.endsWithComma, decide_eq_false_iff_not]
      exact isValue.noCommaLast
    simp [noEnd, isValue.noCommaFirst]
  · simp [Declaration.endsWithComma]

/-- The first word of declarators is no equals sign. -/
theorem head?_allWords (declarators : List ValuedDeclarator) :
    ∀ sign ∈ (allWords declarators).head?, sign ≠ ['='] := by
  cases declarators with
  | nil => simp [allWords]
  | cons declarator later =>
    have bareNoSign := declarator.bare_isDeclarator.noSign
    rw [allWords, words]
    split
    · simpa using declarator.bare_append_ne_sign _
    · simpa using bareNoSign
    · simpa using declarator.bare_append_ne_sign _

/-- The passes over the tokens leave a declarator without its value. -/
theorem passes_words
    (isComma : comma = [] ∨ comma = [','])
    {rest : List Text}
    (noSign : ∀ sign ∈ rest.head?, sign ≠ ['=']) :
    (Declaration.withoutValues false (declarator.words comma ++ rest)).map
        Declaration.withoutBraces =
      (declarator.bare ++ comma) ::
        (Declaration.withoutValues false rest).map Declaration.withoutBraces := by
  have noBrace : '{' ∉ declarator.bare ++ comma := by
    rcases isComma with rfl | rfl <;> simpa using declarator.bare_isDeclarator.noBrace
  have kept : Declaration.withoutBraces (declarator.bare ++ comma) = declarator.bare ++ comma := by
    rw [Declaration.withoutBraces, if_neg (by simpa using noBrace)]
  rw [words]
  split
  · have noSignHere : declarator.bare ++ comma ≠ ['='] := declarator.bare_append_ne_sign comma
    rw [Declaration.withoutValues_append (by simpa using noSignHere) noSign,
      List.singleton_append, List.map_cons, kept]
  · next value isValue _ =>
    have valueNoSign : value ++ comma ≠ ['='] := by
      rcases isComma with rfl | rfl
      · rw [List.append_nil]
        exact isValue.noSign
      · intro equal
        have ends := congrArg List.getLast? equal
        simp at ends
    have bareNoSign : declarator.bare ≠ ['='] := declarator.bare_isDeclarator.noSign
    simp only [List.cons_append, List.nil_append]
    rw [Declaration.withoutValues, if_neg bareNoSign, if_neg Bool.false_ne_true,
      Declaration.withoutValues, if_pos rfl, Declaration.withoutValues, if_neg valueNoSign,
      if_pos rfl, declarator.withCommaOf_value isValue isComma, List.map_cons, kept]
  · next value isValue _ =>
    have cut : Declaration.withoutBraces (declarator.bare ++ '{' :: value ++ ['}'] ++ comma) =
        declarator.bare ++ comma := by
      have front : (declarator.bare ++ '{' :: value ++ ['}'] ++ comma).takeWhile (· ≠ '{') =
          declarator.bare := by
        rw [List.append_assoc, List.append_assoc, List.cons_append]
        exact Text.takeWhile_append_cons declarator.bare_isDeclarator.noBrace _
      rw [Declaration.withoutBraces, if_pos (by simp), front]
      rcases isComma with rfl | rfl
      · rw [List.append_nil, Declaration.endsWithComma, List.getLast?_concat]
        rfl
      · rw [Declaration.endsWithComma, List.getLast?_concat]
        rfl
    have noSignHere : declarator.bare ++ '{' :: value ++ ['}'] ++ comma ≠ ['='] := by
      rw [List.append_assoc, List.append_assoc]
      exact declarator.bare_append_ne_sign _
    rw [Declaration.withoutValues_append (by simpa using noSignHere) noSign,
      List.singleton_append, List.map_cons, cut]

/-- The passes over the tokens leave the declarators without their values. -/
theorem passes_allWords (declarators : List ValuedDeclarator) :
    (Declaration.withoutValues false (allWords declarators)).map Declaration.withoutBraces =
      Declaration.listed (declarators.map bare) := by
  induction declarators with
  | nil => rfl
  | cons declarator later hypothesis =>
    have sameComma : commaBefore (later.map bare) = commaBefore later := by
      cases later <;> rfl
    rw [allWords, declarator.passes_words (commaBefore_eq later) (head?_allWords later), hypothesis,
      List.map_cons, listed_cons, sameComma]

end ValuedDeclarator

/-! ## Lines -/

namespace ValuedLine

open ValuedDeclarator

/-- The text of the type. -/
def typeText (line : ValuedLine) : Text :=
  Text.unwords line.type

/-- The text of the line without its semicolon. -/
def text (line : ValuedLine) : Text :=
  (if line.isStatic then "static ".toList else []) ++
    line.typeText ++ ' ' :: [',', ' '].intercalate (line.declarators.map ValuedDeclarator.text)

/-- The members that the line declares. -/
def members (line : ValuedLine) : List DataMember :=
  line.declarators.map fun declarator =>
    declarator.decoration.member declarator.name line.typeText
      (Declaration.isBuiltinType line.typeText) line.isStatic

variable (line : ValuedLine)

/-- The words of the line. -/
def words : List Text :=
  Declaration.staticWords line.isStatic ++ line.type ++ allWords line.declarators

theorem areTypeTokens : ∀ word ∈ line.type, Declaration.IsTypeToken word :=
  fun word member => (line.areTypeWords word member).isTypeToken

/-- What holds of `static`, of the words of types and of those of declarators holds of all. -/
theorem forall_words
    {property : Text → Prop}
    (ofStatic : property Declaration.staticWord)
    (ofType : ∀ word, IsTypeWord word → property word)
    (ofDeclarator : ∀ (declarator : ValuedDeclarator) (comma : Text),
      (comma = [] ∨ comma = [',']) → ∀ word ∈ declarator.words comma, property word) :
    ∀ word ∈ line.words, property word := by
  have ofAllWords (declarators : List ValuedDeclarator) :
      ∀ word ∈ allWords declarators, property word := by
    induction declarators with
    | nil => exact fun word member => nomatch member
    | cons declarator later hypothesis =>
      intro word member
      rcases List.mem_append.mp member with inFirst | inLater
      · exact ofDeclarator declarator _ (commaBefore_eq later) word inFirst
      · exact hypothesis word inLater
  intro word member
  rcases List.mem_append.mp member with inFront | inDeclarators
  · rcases List.mem_append.mp inFront with isStatic | inType
    · cases written : line.isStatic with
      | false => simp [written, Declaration.staticWords] at isStatic
      | true =>
        obtain rfl : word = Declaration.staticWord := by
          simpa [written, Declaration.staticWords] using isStatic
        exact ofStatic
    · exact ofType word (line.areTypeWords word inType)
  · exact ofAllWords line.declarators word inDeclarators

theorem areWords : Text.AreWords line.words :=
  line.forall_words (by decide) (fun _ isTypeWord => ⟨isTypeWord.notEmpty, isTypeWord.noBlank⟩)
    fun declarator _ => declarator.areWords_words

theorem whole : ∀ word ∈ line.words, Declaration.isFragment word = false :=
  line.forall_words (by decide) (fun _ isTypeWord => isTypeWord.isTypeToken.whole)
    fun declarator _ => declarator.whole_words

theorem words_ne_nil : line.words ≠ [] := by
  refine List.append_ne_nil_of_left_ne_nil (List.append_ne_nil_of_right_ne_nil _ ?_) _
  exact line.typeNotEmpty

theorem unwords_words : Text.unwords line.words = line.text := by
  have declaratorsNotEmpty : allWords line.declarators ≠ [] := by
    obtain ⟨declarator, later, shape⟩ := List.exists_cons_of_ne_nil line.declaratorsNotEmpty
    rw [shape]
    exact List.append_ne_nil_of_left_ne_nil (declarator.words_ne_nil _) _
  rw [words, Declaration.unwords_staticWords_append _ line.typeNotEmpty declaratorsNotEmpty,
    unwords_allWords]
  rfl

/-- The passes over the tokens leave the line without the values. -/
theorem passes_text :
    (Declaration.withoutValues false (Declaration.tokens line.text)).map
        Declaration.withoutBraces =
      Declaration.staticWords line.isStatic ++ line.type ++
        Declaration.listed (line.declarators.map bare) := by
  have isTokens : Declaration.tokens line.text = line.words := by
    rw [Declaration.tokens, ← unwords_words, Text.words_unwords line.areWords]
    exact Text.regroup_of_whole fun word member =>
      line.whole word ((List.dropLast_sublist line.words).subset member)
  have areTokens := Declaration.areTypeTokens_front line.isStatic line.areTypeTokens
  rw [isTokens, words,
    Declaration.withoutValues_append (fun word member => (areTokens word member).noSign)
      (head?_allWords line.declarators),
    List.map_append, passes_allWords,
    Declaration.map_withoutBraces fun word member => (areTokens word member).noBrace]

/-- The line declares the members that it declares without the values. -/
theorem members_valued : Declaration.members (line.text ++ [';']) = .ok line.members := by
  have spaced : Text.Spaced line.text :=
    ⟨line.words, line.words_ne_nil, line.areWords, line.unwords_words⟩
  have areDeclarators : ∀ text ∈ line.declarators.map bare, Declaration.IsDeclarator text := by
    intro text member
    obtain ⟨declarator, -, rfl⟩ := List.mem_map.mp member
    exact declarator.bare_isDeclarator
  have notStatic : ∀ word ∈ line.type, word ≠ Declaration.staticWord :=
    fun word member => (line.areTypeWords word member).notStatic
  rw [Declaration.members_of_listed spaced.begins line.passes_text line.areTypeTokens notStatic
    line.typeNotEmpty areDeclarators (by simpa using line.declaratorsNotEmpty), List.map_map,
    members]
  refine congrArg Except.ok (List.map_congr_left fun declarator _ => ?_)
  exact declarator.decoration.memberOf_text declarator.name line.typeText line.isStatic

/-- A pointer with a value that holds a comma and brackets, an array with empty braces, a name. -/
theorem members_threeValues :
    ∃ line : ValuedLine,
      line.text = "static char *first = f(1,g<2>()), rows[n]\x7b\x7d, last".toList ∧
        Declaration.members (line.text ++ [';']) = .ok
          [{ name := "first".toList, declaredType := "char*".toList, isStatic := true,
             byValue := true },
            { name := "rows".toList, declaredType := "char*".toList, isStatic := true,
              byValue := true, isArray := true },
            { name := "last".toList, declaredType := "char".toList, isStatic := true,
              byValue := true }] :=
  ⟨{ isStatic := true
     type := ["char".toList]
     declarators :=
      [{ name := ⟨"first".toList, by decide⟩, decoration := .pointer
         value := .assigned "f(1,g<2>())".toList (by constructor <;> decide)
         noPrefix := by decide },
        { name := ⟨"rows".toList, by decide⟩, decoration := .array ⟨"n".toList, by decide⟩
          value := .enclosed [] (by constructor <;> decide), noPrefix := by decide },
        { name := ⟨"last".toList, by decide⟩, decoration := .plain
          value := .none, noPrefix := by decide }]
     areTypeWords := by
      intro word member
      obtain rfl := List.mem_singleton.mp member
      constructor <;> decide
     typeNotEmpty := by decide
     declaratorsNotEmpty := List.cons_ne_nil _ _ }, rfl, members_valued _⟩

end ValuedLine

end ClassOutline.Written
