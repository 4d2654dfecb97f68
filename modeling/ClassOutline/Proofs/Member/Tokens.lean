import ClassOutline.Member.Declaration
import ClassOutline.Proofs.Text.Groups
import ClassOutline.Proofs.Text.Words
/-!
# Declarations written token by token

A declaration may be written as the tokens of its type and its declarators, with commas between the
declarators and single blanks between all of them.  It then declares one member for each declarator,
of the type that the tokens make up.
-/

namespace ClassOutline.Declaration

/-- Declarators with a comma behind each but the last. -/
def listed : List Text → List Text
  | [] => []
  | [declarator] => [declarator]
  | declarator :: next :: declarators => (declarator ++ [',']) :: listed (next :: declarators)

/-- A token of a type. -/
structure IsTypeToken (token : Text) : Prop where
  notEmpty : token ≠ []
  noBlank : ∀ character ∈ token, Text.isBlank character = false
  noBrace : '{' ∉ token
  whole : isFragment token = false
  noComma : endsWithComma token = false
  noSign : token ≠ ['=']
  balanced : Text.Balanced token

/-- A declarator without a value. -/
structure IsDeclarator (declarator : Text) : Prop where
  notEmpty : declarator ≠ []
  noBlank : ∀ character ∈ declarator, Text.isBlank character = false
  noBrace : '{' ∉ declarator
  noComma : ',' ∉ declarator
  /-- With a comma behind it the declarator is whole. -/
  whole : isFragment (declarator ++ [',']) = false
  noSign : declarator ≠ ['=']

theorem isFragment_eq_false
    {token : Text}
    (balanced : Text.Balanced token)
    (evenQuotes : token.count '"' % 2 = 0)
    (noPrefix : token ≠ "_STD".toList)
    (noScope : ¬ "::".toList <:+ token) :
    isFragment token = false := by
  have noSuffix : "::".toList.isSuffixOf token = false := by
    rwa [← Bool.not_eq_true, List.isSuffixOf_iff_suffix]
  simp only [isFragment, balanced, not_true_eq_false, decide_false, evenQuotes, noPrefix, noSuffix,
    Bool.and_false]
  rfl

theorem noScope_of_getLast?
    {token : Text}
    (noColon : token.getLast? ≠ some ':') :
    ¬ "::".toList <:+ token := by
  rintro ⟨front, rfl⟩
  exact noColon (by simp)

/-- A token with a comma behind it is whole if it is balanced. -/
theorem isFragment_append_comma
    {token : Text}
    (balanced : Text.Balanced token)
    (evenQuotes : token.count '"' % 2 = 0) :
    isFragment (token ++ [',']) = false := by
  refine isFragment_eq_false ?_ ?_ ?_ (noScope_of_getLast? (by simp))
  · simpa [Text.Balanced] using balanced
  · simpa using evenQuotes
  · intro equal
    have ends := congrArg List.getLast? equal
    simp at ends

theorem balanced_of_whole
    {token : Text}
    (whole : isFragment token = false) :
    Text.Balanced token := by
  simp only [isFragment, Bool.or_eq_false_iff, decide_eq_false_iff_not, Decidable.not_not] at whole
  exact whole.1.1.1

theorem evenQuotes_of_whole
    {token : Text}
    (whole : isFragment token = false) :
    token.count '"' % 2 = 0 := by
  simp only [isFragment, Bool.or_eq_false_iff, decide_eq_false_iff_not] at whole
  have notOdd := whole.1.1.2
  omega

/-! ## Lists of declarators -/

theorem listed_ne_nil
    {declarators : List Text}
    (notEmpty : declarators ≠ []) :
    listed declarators ≠ [] := by
  cases declarators with
  | nil => contradiction
  | cons declarator declarators => cases declarators <;> simp [listed]

theorem mem_listed
    {declarators : List Text}
    {token : Text}
    (member : token ∈ listed declarators) :
    ∃ declarator ∈ declarators, token = declarator ∨ token = declarator ++ [','] := by
  induction declarators with
  | nil => contradiction
  | cons declarator declarators hypothesis =>
    cases declarators with
    | nil => exact ⟨declarator, List.mem_cons_self, .inl (List.mem_singleton.mp member)⟩
    | cons next declarators =>
      rcases List.mem_cons.mp member with rfl | later
      · exact ⟨declarator, List.mem_cons_self, .inr rfl⟩
      · obtain ⟨other, isOther, shape⟩ := hypothesis later
        exact ⟨other, List.mem_cons_of_mem _ isOther, shape⟩

/-- The text of a list of declarators. -/
theorem unwords_listed
    (declarators : List Text) :
    Text.unwords (listed declarators) = [',', ' '].intercalate declarators := by
  induction declarators with
  | nil => rfl
  | cons declarator declarators hypothesis =>
    cases declarators with
    | nil => simp [listed, Text.unwords]
    | cons next declarators =>
      have laterNotEmpty := listed_ne_nil (List.cons_ne_nil next declarators)
      obtain ⟨token, tokens, shape⟩ := List.exists_cons_of_ne_nil laterNotEmpty
      rw [listed, shape, Text.unwords_cons_cons, ← shape, hypothesis, List.intercalate_cons_cons]
      simp

theorem isListed_append_comma
    {declarator : Text}
    (noComma : ',' ∉ declarator) :
    isListed (declarator ++ [',']) = true := by
  simp [isListed, endsWithComma, List.count_eq_zero.mpr noComma]

theorem isListed_eq_false
    {token : Text}
    (noComma : endsWithComma token = false) :
    isListed token = false := by
  simp [isListed, noComma]

theorem endsWithComma_eq_false
    {declarator : Text}
    (noComma : ',' ∉ declarator) :
    endsWithComma declarator = false := by
  rw [endsWithComma, decide_eq_false_iff_not]
  exact fun ends => noComma (List.mem_of_getLast? ends)

theorem declaratorsFrom_listed
    {declarators : List Text}
    (noCommas : ∀ declarator ∈ declarators, ',' ∉ declarator) :
    declaratorsFrom true (listed declarators) = declarators := by
  induction declarators with
  | nil => rfl
  | cons declarator declarators hypothesis =>
    have noComma := noCommas declarator List.mem_cons_self
    have later := hypothesis fun other member => noCommas other (List.mem_cons_of_mem _ member)
    cases declarators with
    | nil =>
      have notListed := isListed_eq_false (endsWithComma_eq_false noComma)
      simp [listed, declaratorsFrom, notListed]
    | cons next declarators =>
      simp [listed, declaratorsFrom, isListed_append_comma noComma, later]

/-- Without commas at the ends of tokens, the last token is the declarator. -/
theorem typeAndDeclarators_concat
    {type : List Text}
    {declarator : Text}
    (noCommas : ∀ token ∈ type ++ [declarator], endsWithComma token = false) :
    typeAndDeclarators (type ++ [declarator]) = (type, [declarator]) := by
  have noneListed : (type ++ [declarator]).any isListed = false := by
    rw [List.any_eq_false]
    intro token member
    simp [isListed_eq_false (noCommas token member)]
  rw [typeAndDeclarators, noneListed]
  simp

/-- The type and the declarators are told apart by the commas, or by the last token alone. -/
theorem typeAndDeclarators_append
    {type declarators : List Text}
    (typeNoComma : ∀ token ∈ type, endsWithComma token = false)
    (noCommas : ∀ declarator ∈ declarators, ',' ∉ declarator)
    (notEmpty : declarators ≠ []) :
    typeAndDeclarators (type ++ listed declarators) = (type, declarators) := by
  have typeNotListed : ∀ token ∈ type, isListed token = false := fun token member =>
    isListed_eq_false (typeNoComma token member)
  obtain ⟨declarator, rest, rfl⟩ := List.exists_cons_of_ne_nil notEmpty
  have noComma := noCommas declarator List.mem_cons_self
  cases rest with
  | nil =>
    refine typeAndDeclarators_concat fun token member => ?_
    rcases List.mem_append.mp member with inType | isDeclarator
    · exact typeNoComma token inType
    · obtain rfl := List.mem_singleton.mp isDeclarator
      exact endsWithComma_eq_false noComma
  | cons next rest =>
    have someListed : (type ++ listed (declarator :: next :: rest)).any isListed = true := by
      rw [List.any_append, listed, List.any_cons, isListed_append_comma noComma]
      simp
    have isType : ∀ token ∈ type, (!isListed token) = true := fun token member => by
      simp [typeNotListed token member]
    have later : declaratorsFrom true (listed (next :: rest)) = next :: rest :=
      declaratorsFrom_listed fun other member =>
        noCommas other (List.mem_cons_of_mem _ member)
    rw [typeAndDeclarators, someListed]
    simp only [if_true, List.takeWhile_append_of_pos isType, List.dropWhile_append_of_pos isType,
      listed, List.takeWhile_cons, List.dropWhile_cons, isListed_append_comma noComma,
      Bool.not_true, Bool.false_eq_true, if_false, List.append_nil, declaratorsFrom, later,
      List.dropLast_concat]

/-! ## The passes over the tokens -/

theorem withCommaOf_of_noSign
    {rest : List Text}
    (noSign : ∀ sign ∈ rest.head?, sign ≠ ['='])
    (token : Text) :
    withCommaOf rest token = token := by
  rw [withCommaOf.eq_def]
  split
  · next sign value later =>
    rw [if_neg]
    exact fun ends => noSign sign rfl ends.1
  · rfl

/-- Tokens in front of which no value is taken out stay, up to the next equals sign. -/
theorem withoutValues_append
    {front rest : List Text}
    (noSigns : ∀ token ∈ front, token ≠ ['='])
    (noSign : ∀ sign ∈ rest.head?, sign ≠ ['=']) :
    withoutValues false (front ++ rest) = front ++ withoutValues false rest := by
  induction front with
  | nil => rfl
  | cons token front hypothesis =>
    have noSignsLater : ∀ other ∈ front, other ≠ ['='] := fun other member =>
      noSigns other (List.mem_cons_of_mem _ member)
    have noSignNext : ∀ sign ∈ (front ++ rest).head?, sign ≠ ['='] := by
      cases front with
      | nil => exact noSign
      | cons next front =>
        intro sign isNext
        obtain rfl := Option.some.inj isNext
        exact noSignsLater next List.mem_cons_self
    rw [List.cons_append, withoutValues, if_neg (noSigns token List.mem_cons_self),
      withCommaOf_of_noSign noSignNext, hypothesis noSignsLater]
    rfl

/-- Without equals signs no token is a value. -/
theorem withoutValues_of_noSign
    {tokens : List Text}
    (noSigns : ∀ token ∈ tokens, token ≠ ['=']) :
    withoutValues false tokens = tokens := by
  have whole := @withoutValues_append tokens [] noSigns (by simp)
  rwa [List.append_nil, withoutValues, List.append_nil] at whole

theorem map_withoutBraces
    {tokens : List Text}
    (noBraces : ∀ token ∈ tokens, '{' ∉ token) :
    tokens.map withoutBraces = tokens := by
  conv => rhs; rw [← List.map_id tokens]
  refine List.map_congr_left fun token member => ?_
  simp [withoutBraces, noBraces token member]

/-! ## Members -/

/-- The members that a text declares whose tokens are left as a type and declarators. -/
theorem members_of_passes
    {declaration : Text}
    {passed type declarators : List Text}
    (begins : ∃ first ∈ declaration.head?, Text.isBlank first = false)
    (passes : (withoutValues false (tokens declaration)).map withoutBraces = passed)
    (notEmpty : passed ≠ [])
    (split : typeAndDeclarators passed = (type, declarators)) :
    members (declaration ++ [';']) =
      if Text.unwords (type.filter (· ≠ staticWord)) = [] ∨
          ¬ Text.Balanced (Text.unwords (type.filter (· ≠ staticWord))) then
        .error (.unresolvedDeclaration (declaration ++ [';']))
      else
        .ok <| (declarators.filter (· ≠ [])).map fun declarator =>
          { memberOf (Text.unwords (type.filter (· ≠ staticWord))) declarator with
            isStatic := type.contains staticWord } := by
  have solid : Text.Solid (declaration ++ [';']) :=
    Text.solid_append_singleton begins (by decide)
  obtain ⟨token, rest, rfl⟩ := List.exists_cons_of_ne_nil notEmpty
  rw [members]
  dsimp only
  rw [Text.trim_of_solid solid, Text.dropEnding?_append]
  dsimp only
  rw [passes]
  dsimp only
  rw [split]

theorem balanced_unwords
    {tokens : List Text}
    (balanced : ∀ token ∈ tokens, Text.Balanced token) :
    Text.Balanced (Text.unwords tokens) := by
  induction tokens with
  | nil => decide
  | cons token tokens hypothesis =>
    have later := hypothesis fun other member => balanced other (List.mem_cons_of_mem _ member)
    have first := balanced token List.mem_cons_self
    cases tokens with
    | nil => simpa [Text.unwords] using first
    | cons next tokens =>
      rw [Text.unwords_cons_cons]
      simp only [Text.Balanced, List.count_append, List.count_cons] at first later ⊢
      simpa using ⟨by omega, by omega, by omega⟩

/-- The member of a text with a single declarator. -/
theorem members_of_tokens
    {text declarator : Text}
    {type : List Text}
    (begins : ∃ first ∈ text.head?, Text.isBlank first = false)
    (split : tokens text = type ++ [declarator])
    (areTypeTokens : ∀ token ∈ type, IsTypeToken token)
    (isDeclarator : IsDeclarator declarator) :
    members (text ++ [';']) =
      if type.filter (· ≠ staticWord) = [] then .error (.unresolvedDeclaration (text ++ [';']))
      else
        .ok [{ memberOf (Text.unwords (type.filter (· ≠ staticWord))) declarator with
          isStatic := type.contains staticWord }] := by
  have forAll {property : Text → Prop} (ofType : ∀ token ∈ type, property token)
      (ofDeclarator : property declarator) : ∀ token ∈ type ++ [declarator], property token := by
    intro token member
    rcases List.mem_append.mp member with inType | isLast
    · exact ofType token inType
    · obtain rfl := List.mem_singleton.mp isLast
      exact ofDeclarator
  have noSigns := forAll (fun token member => (areTypeTokens token member).noSign)
    isDeclarator.noSign
  have noBraces := forAll (fun token member => (areTypeTokens token member).noBrace)
    isDeclarator.noBrace
  have noCommas := forAll (fun token member => (areTypeTokens token member).noComma)
    (endsWithComma_eq_false isDeclarator.noComma)
  have passes : (withoutValues false (tokens text)).map withoutBraces = type ++ [declarator] := by
    rw [split, withoutValues_of_noSign noSigns, map_withoutBraces noBraces]
  have areKept : ∀ token ∈ type.filter (· ≠ staticWord), IsTypeToken token :=
    fun token member => areTypeTokens token (List.mem_filter.mp member).1
  have balanced := balanced_unwords fun token member => (areKept token member).balanced
  rw [members_of_passes begins passes (by simp) (typeAndDeclarators_concat noCommas)]
  cases shape : type.filter (· ≠ staticWord) with
  | nil => simp [Text.unwords]
  | cons first rest =>
    rw [shape] at areKept balanced
    have firstNotEmpty := (areKept first List.mem_cons_self).notEmpty
    have notEmpty : Text.unwords (first :: rest) ≠ [] := by
      cases rest <;> simp [Text.unwords, firstNotEmpty]
    simp [notEmpty, balanced, isDeclarator.notEmpty]

/-- The word `static` in front of a type, if it is written. -/
def staticWords (isStatic : Bool) : List Text :=
  if isStatic then [staticWord] else []

theorem isTypeToken_staticWord : IsTypeToken staticWord := by
  constructor <;> decide

/-- The text of a declaration without its semicolon. -/
def textOf (isStatic : Bool) (type declarators : List Text) : Text :=
  Text.unwords (staticWords isStatic ++ type ++ listed declarators)

/-- The text of a declaration with its type and what is behind it. -/
theorem unwords_staticWords_append
    {type behind : List Text}
    (isStatic : Bool)
    (typeNotEmpty : type ≠ [])
    (behindNotEmpty : behind ≠ []) :
    Text.unwords (staticWords isStatic ++ type ++ behind) =
      (if isStatic then "static ".toList else []) ++
        Text.unwords type ++ ' ' :: Text.unwords behind := by
  rw [List.append_assoc, List.append_assoc, ← Text.unwords_append typeNotEmpty behindNotEmpty]
  cases isStatic with
  | false => rfl
  | true =>
    rw [staticWords, if_pos rfl, if_pos rfl,
      Text.unwords_append (List.cons_ne_nil _ _) (List.append_ne_nil_of_left_ne_nil typeNotEmpty _)]
    rfl

theorem dropLast_listed
    {declarators : List Text}
    {token : Text}
    (member : token ∈ (listed declarators).dropLast) :
    ∃ declarator ∈ declarators, token = declarator ++ [','] := by
  induction declarators with
  | nil => contradiction
  | cons declarator declarators hypothesis =>
    cases declarators with
    | nil => contradiction
    | cons next declarators =>
      rw [listed, List.dropLast_cons_of_ne_nil (listed_ne_nil (by simp))] at member
      rcases List.mem_cons.mp member with rfl | later
      · exact ⟨declarator, List.mem_cons_self, rfl⟩
      · obtain ⟨other, isOther, shape⟩ := hypothesis later
        exact ⟨other, List.mem_cons_of_mem _ isOther, shape⟩

section Written

variable {type declarators : List Text}

/-- What holds of the tokens of a type and of declarators, with a comma or not, holds of all. -/
theorem forall_tokens
    {property : Text → Prop}
    (isStatic : Bool)
    (ofType : ∀ token ∈ type, property token)
    (ofStatic : property staticWord)
    (ofDeclarator : ∀ declarator ∈ declarators,
      property declarator ∧ property (declarator ++ [','])) :
    ∀ token ∈ staticWords isStatic ++ type ++ listed declarators, property token := by
  intro token member
  rcases List.mem_append.mp member with inFront | inList
  · rcases List.mem_append.mp inFront with isWord | inType
    · cases isStatic with
      | false => contradiction
      | true =>
        obtain rfl := List.mem_singleton.mp isWord
        exact ofStatic
    · exact ofType token inType
  · obtain ⟨declarator, isDeclarator, shape⟩ := mem_listed inList
    obtain ⟨alone, withComma⟩ := ofDeclarator declarator isDeclarator
    rcases shape with rfl | rfl
    · exact alone
    · exact withComma

/-- The word `static` may be one more token of the type. -/
theorem areTypeTokens_front
    (isStatic : Bool)
    (areTypeTokens : ∀ token ∈ type, IsTypeToken token) :
    ∀ token ∈ staticWords isStatic ++ type, IsTypeToken token := by
  intro token member
  rcases List.mem_append.mp member with isWord | inType
  · cases isStatic with
    | false => contradiction
    | true =>
      obtain rfl := List.mem_singleton.mp isWord
      exact isTypeToken_staticWord
  · exact areTypeTokens token inType

theorem areWords_tokens
    (isStatic : Bool)
    (areTypeTokens : ∀ token ∈ type, IsTypeToken token)
    (areDeclarators : ∀ declarator ∈ declarators, IsDeclarator declarator) :
    Text.AreWords (staticWords isStatic ++ type ++ listed declarators) := by
  refine forall_tokens isStatic
    (fun token member =>
      ⟨(areTypeTokens token member).notEmpty, (areTypeTokens token member).noBlank⟩)
    ⟨isTypeToken_staticWord.notEmpty, isTypeToken_staticWord.noBlank⟩ fun declarator member => ?_
  obtain ⟨notEmpty, noBlank, -⟩ := areDeclarators declarator member
  refine ⟨⟨notEmpty, noBlank⟩, by simp, fun character inside => ?_⟩
  rcases List.mem_append.mp inside with inDeclarator | isComma
  · exact noBlank character inDeclarator
  · obtain rfl := List.mem_singleton.mp isComma
    decide

theorem tokens_textOf
    (isStatic : Bool)
    (areTypeTokens : ∀ token ∈ type, IsTypeToken token)
    (areDeclarators : ∀ declarator ∈ declarators, IsDeclarator declarator)
    (notEmpty : declarators ≠ []) :
    tokens (textOf isStatic type declarators) =
      staticWords isStatic ++ type ++ listed declarators := by
  rw [tokens, textOf, Text.words_unwords (areWords_tokens isStatic areTypeTokens areDeclarators)]
  refine Text.regroup_of_whole fun token member => ?_
  rw [List.dropLast_append_of_ne_nil (listed_ne_nil notEmpty)] at member
  rcases List.mem_append.mp member with inFront | inList
  · exact (areTypeTokens_front isStatic areTypeTokens token inFront).whole
  · obtain ⟨declarator, isDeclarator, rfl⟩ := dropLast_listed inList
    exact (areDeclarators declarator isDeclarator).whole

theorem textOf_ne_nil
    (type : List Text)
    (isStatic : Bool)
    (notEmpty : declarators ≠ []) :
    staticWords isStatic ++ type ++ listed declarators ≠ [] :=
  List.append_ne_nil_of_right_ne_nil _ (listed_ne_nil notEmpty)

theorem spaced_textOf
    (isStatic : Bool)
    (areTypeTokens : ∀ token ∈ type, IsTypeToken token)
    (areDeclarators : ∀ declarator ∈ declarators, IsDeclarator declarator)
    (notEmpty : declarators ≠ []) :
    Text.Spaced (textOf isStatic type declarators) :=
  ⟨_, textOf_ne_nil type isStatic notEmpty,
    areWords_tokens isStatic areTypeTokens areDeclarators, rfl⟩

/-- No pass changes the tokens of a written declaration. -/
theorem passes_textOf
    (isStatic : Bool)
    (areTypeTokens : ∀ token ∈ type, IsTypeToken token)
    (areDeclarators : ∀ declarator ∈ declarators, IsDeclarator declarator)
    (notEmpty : declarators ≠ []) :
    (withoutValues false (tokens (textOf isStatic type declarators))).map withoutBraces =
      staticWords isStatic ++ type ++ listed declarators := by
  have noSigns : ∀ token ∈ staticWords isStatic ++ type ++ listed declarators, token ≠ ['='] := by
    refine forall_tokens isStatic (fun token member => (areTypeTokens token member).noSign)
      isTypeToken_staticWord.noSign fun declarator member =>
        ⟨(areDeclarators declarator member).noSign, fun equal => ?_⟩
    have ends := congrArg List.getLast? equal
    simp at ends
  have noBraces : ∀ token ∈ staticWords isStatic ++ type ++ listed declarators, '{' ∉ token := by
    refine forall_tokens isStatic (fun token member => (areTypeTokens token member).noBrace)
      isTypeToken_staticWord.noBrace fun declarator member => ?_
    have noBrace := (areDeclarators declarator member).noBrace
    exact ⟨noBrace, by simpa using noBrace⟩
  rw [tokens_textOf isStatic areTypeTokens areDeclarators notEmpty, withoutValues_of_noSign noSigns,
    map_withoutBraces noBraces]

theorem filter_staticWord
    (isStatic : Bool)
    (notStatic : ∀ token ∈ type, token ≠ staticWord) :
    (staticWords isStatic ++ type).filter (· ≠ staticWord) = type := by
  have kept : type.filter (· ≠ staticWord) = type :=
    List.filter_eq_self.mpr fun token member => decide_eq_true (notStatic token member)
  rw [List.filter_append, kept]
  cases isStatic <;> simp [staticWords]

theorem contains_staticWord
    (isStatic : Bool)
    (notStatic : ∀ token ∈ type, token ≠ staticWord) :
    (staticWords isStatic ++ type).contains staticWord = isStatic := by
  cases isStatic with
  | true => simp [staticWords]
  | false =>
    rw [staticWords, if_neg (by simp), List.nil_append, ← Bool.not_eq_true, List.contains_iff_mem]
    exact fun member => notStatic _ member rfl

/-- The members that a text declares whose tokens are left as those of a written declaration. -/
theorem members_of_listed
    {declaration : Text}
    {isStatic : Bool}
    (begins : ∃ first ∈ declaration.head?, Text.isBlank first = false)
    (passes : (withoutValues false (tokens declaration)).map withoutBraces =
      staticWords isStatic ++ type ++ listed declarators)
    (areTypeTokens : ∀ token ∈ type, IsTypeToken token)
    (notStatic : ∀ token ∈ type, token ≠ staticWord)
    (typeNotEmpty : type ≠ [])
    (areDeclarators : ∀ declarator ∈ declarators, IsDeclarator declarator)
    (notEmpty : declarators ≠ []) :
    members (declaration ++ [';']) =
      .ok (declarators.map fun declarator =>
        { memberOf (Text.unwords type) declarator with isStatic }) := by
  have split := typeAndDeclarators_append
    (fun token member => (areTypeTokens_front isStatic areTypeTokens token member).noComma)
    (fun declarator member => (areDeclarators declarator member).noComma) notEmpty
  have kept : declarators.filter (· ≠ []) = declarators :=
    List.filter_eq_self.mpr fun declarator member =>
      decide_eq_true (areDeclarators declarator member).notEmpty
  have resolved : ¬ (Text.unwords type = [] ∨ ¬ Text.Balanced (Text.unwords type)) := by
    have typeSpaced : Text.Spaced (Text.unwords type) :=
      ⟨type, typeNotEmpty, fun token member =>
        ⟨(areTypeTokens token member).notEmpty, (areTypeTokens token member).noBlank⟩, rfl⟩
    obtain ⟨first, isFirst, -⟩ := typeSpaced.begins
    rintro (empty | unbalanced)
    · simp [empty] at isFirst
    · exact unbalanced (balanced_unwords fun token member => (areTypeTokens token member).balanced)
  rw [members_of_passes begins passes (textOf_ne_nil type isStatic notEmpty) split,
    filter_staticWord isStatic notStatic, if_neg resolved, kept,
    contains_staticWord isStatic notStatic]

/-- The members that a written declaration declares. -/
theorem members_textOf
    (isStatic : Bool)
    (areTypeTokens : ∀ token ∈ type, IsTypeToken token)
    (notStatic : ∀ token ∈ type, token ≠ staticWord)
    (typeNotEmpty : type ≠ [])
    (areDeclarators : ∀ declarator ∈ declarators, IsDeclarator declarator)
    (notEmpty : declarators ≠ []) :
    members (textOf isStatic type declarators ++ [';']) =
      .ok (declarators.map fun declarator =>
        { memberOf (Text.unwords type) declarator with isStatic }) :=
  members_of_listed (spaced_textOf isStatic areTypeTokens areDeclarators notEmpty).begins
    (passes_textOf isStatic areTypeTokens areDeclarators notEmpty) areTypeTokens notStatic
    typeNotEmpty areDeclarators notEmpty

end Written

end ClassOutline.Declaration
