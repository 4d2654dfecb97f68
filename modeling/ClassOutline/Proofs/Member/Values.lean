import Mathlib.Data.List.Chain
import ClassOutline.Proofs.Member.Tokens
/-!
# Values of several tokens

An equals sign takes out the token behind it and no more.  What is left of a value of several tokens
is read as though it belonged to the type and the declarators; nothing is left of it exactly if of
any two neighbouring tokens one is an equals sign.

If the commas of a declaration stand inside its parentheses, no token begins or ends with one: in
front of each token the parentheses match.
-/

namespace ClassOutline

/-! ## Commas inside parentheses -/

namespace Text

/-- The characters of the words of a text are those that are not blank. -/
theorem flatten_words (text : Text) :
    (words text).flatten = text.filter fun character => !isBlank character := by
  have parts : (splitWhere isBlank text).flatten =
      text.filter fun character => !isBlank character := by
    induction text with
    | nil => rfl
    | cons first rest hypothesis =>
      obtain ⟨part, later, split⟩ := List.exists_cons_of_ne_nil (splitWhere_ne_nil isBlank rest)
      rw [split] at hypothesis
      cases blank : isBlank first <;> simp [splitWhere, blank, split, consToFirst, ← hypothesis]
  rw [words, List.flatten_filter_ne_nil, parts]

/-- Parentheses that match, with all commas inside them. -/
structure EnclosesCommas (text : Text) : Prop where
  closed : text.count '(' = text.count ')'
  inside : ∀ front behind, text = front ++ ',' :: behind → front.count ')' < front.count '('

/-- Nothing changes if no parenthesis and no comma stands in front. -/
theorem EnclosesCommas.append_left
    {front text : Text}
    (encloses : EnclosesCommas text)
    (bare : ∀ mark ∈ ['(', ')', ','], mark ∉ front) :
    EnclosesCommas (front ++ text) := by
  have noOpening : front.count '(' = 0 := List.count_eq_zero.mpr (bare '(' (by decide))
  have noClosing : front.count ')' = 0 := List.count_eq_zero.mpr (bare ')' (by decide))
  refine ⟨?_, fun before behind shape => ?_⟩
  · rw [List.count_append, List.count_append, noOpening, noClosing, encloses.closed]
  · rcases List.append_eq_append_iff.mp shape with ⟨added, rfl, later⟩ | ⟨added, whole, later⟩
    · have isInside := encloses.inside added behind later
      rw [List.count_append, List.count_append, noOpening, noClosing]
      omega
    · exfalso
      cases added with
      | nil =>
        have isInside := encloses.inside [] behind (by simpa using later.symm)
        simp at isInside
      | cons first added =>
        obtain rfl := (List.cons.inj later).1
        exact bare ',' (by decide) (by simp [whole])

end Text

namespace Declaration

open Text

/-- The characters of the tokens of a text are those that are not blank. -/
theorem flatten_tokens (text : Text) :
    (tokens text).flatten = text.filter fun character => !isBlank character := by
  rw [tokens, flatten_regroup, flatten_words]

/-- In front of a place in a token, the text holds what the tokens hold. -/
theorem exists_of_tokens_eq
    {text token before after : Text}
    {earlier later : List Text}
    {mark : Char}
    (split : tokens text = earlier ++ token :: later)
    (shape : token = before ++ mark :: after) :
    ∃ front behind, text = front ++ mark :: behind ∧
      ∀ character, isBlank character = false →
        front.count character = (earlier.flatten ++ before).count character := by
  have whole := flatten_tokens text
  rw [split, shape, List.flatten_append, List.flatten_cons] at whole
  have cut : (text.filter fun character => !isBlank character) =
      (earlier.flatten ++ before) ++ mark :: (after ++ later.flatten) := by
    rw [← whole]
    simp
  obtain ⟨front, rest, rfl, frontKept, restKept⟩ := List.filter_eq_append_iff.mp cut
  obtain ⟨blanks, behind, rfl, areBlank, -, -⟩ := List.filter_eq_cons_iff.mp restKept
  refine ⟨front ++ blanks, behind, by simp, fun character notBlank => ?_⟩
  have noBlank : character ∉ blanks := fun member => areBlank character member (by simp [notBlank])
  have counted : front.count character = (earlier.flatten ++ before).count character := by
    rw [← frontKept, List.count_filter (by simp [notBlank])]
  rw [List.count_append, counted, List.count_eq_zero.mpr noBlank, Nat.add_zero]

/-- The brackets of tokens match, up to any that is not the last. -/
theorem balanced_flatten_of_complete
    {text : Text}
    {earlier later : List Text}
    (split : tokens text = earlier ++ later)
    (notLast : later ≠ []) :
    Text.Balanced earlier.flatten := by
  have perToken : ∀ token ∈ earlier, Text.Balanced token := by
    intro token member
    have isEarlier : token ∈ (tokens text).dropLast := by
      rw [split, List.dropLast_append_of_ne_nil notLast]
      exact List.mem_append_left _ member
    exact balanced_of_whole (complete_of_mem_dropLast isEarlier)
  simp only [Text.Balanced, List.count_flatten]
  exact
    ⟨by rw [List.map_congr_left fun token member => (perToken token member).1],
      by rw [List.map_congr_left fun token member => (perToken token member).2.1],
      by rw [List.map_congr_left fun token member => (perToken token member).2.2]⟩

/-- If all commas stand inside parentheses, no token begins or ends with one. -/
theorem commas_of_mem_tokens
    {text token : Text}
    (encloses : EnclosesCommas text)
    (member : token ∈ tokens text) :
    token.head? ≠ some ',' ∧ token.getLast? ≠ some ',' := by
  obtain ⟨earlier, later, split⟩ := List.append_of_mem member
  have unmatched {before after : Text} (shape : token = before ++ ',' :: after) :
      (earlier.flatten ++ before).count '(' ≠ (earlier.flatten ++ before).count ')' := by
    obtain ⟨front, behind, textShape, counted⟩ := exists_of_tokens_eq split shape
    have isInside := encloses.inside front behind textShape
    rw [counted '(' (by decide), counted ')' (by decide)] at isInside
    omega
  have matchedEarlier : earlier.flatten.count '(' = earlier.flatten.count ')' :=
    (balanced_flatten_of_complete split (List.cons_ne_nil _ _)).2.1
  constructor
  · intro isFirst
    obtain ⟨rest, shape⟩ := List.head?_eq_some_iff.mp isFirst
    exact @unmatched [] rest shape (by simpa using matchedEarlier)
  · intro isLast
    obtain ⟨front, shape⟩ := List.getLast?_eq_some_iff.mp isLast
    have matched : (earlier.flatten ++ token).count '(' = (earlier.flatten ++ token).count ')' := by
      cases later with
      | nil =>
        have opening := congrArg (List.count '(') (flatten_tokens text)
        have closing := congrArg (List.count ')') (flatten_tokens text)
        rw [split, List.count_filter (by decide)] at opening closing
        simpa [encloses.closed, ← closing] using opening
      | cons next later =>
        have splitBehind : tokens text = (earlier ++ [token]) ++ next :: later := by
          rw [split]
          simp
        simpa using (balanced_flatten_of_complete splitBehind (List.cons_ne_nil _ _)).2.1
    refine unmatched shape ?_
    simpa [shape] using matched

/-! ## Values -/

theorem withCommaOf_of_noComma
    {rest : List Text}
    (noCommas : ∀ value ∈ rest, value.head? ≠ some ',' ∧ value.getLast? ≠ some ',')
    (token : Text) :
    withCommaOf rest token = token := by
  rw [withCommaOf.eq_def]
  split
  · next sign value later =>
    obtain ⟨noFirst, noLast⟩ := noCommas value (by simp)
    rw [if_neg]
    rintro ⟨-, first | last, -⟩
    · exact noFirst first
    · exact noLast (by simpa [endsWithComma] using last)
  · rfl

/-- If no token begins or ends with a comma, values are taken out and nothing else changes. -/
theorem withoutValues_cons
    {token : Text}
    {rest : List Text}
    (isValue : Bool)
    (noCommas : ∀ value ∈ rest, value.head? ≠ some ',' ∧ value.getLast? ≠ some ',') :
    withoutValues isValue (token :: rest) =
      if token = ['='] then withoutValues true rest
      else if isValue then withoutValues false rest
      else token :: withoutValues false rest := by
  rw [withoutValues, withCommaOf_of_noComma noCommas]

/-- What is left are tokens. -/
theorem withoutValues_sublist
    {tokens : List Text}
    (isValue : Bool)
    (noCommas : ∀ token ∈ tokens, token.head? ≠ some ',' ∧ token.getLast? ≠ some ',') :
    (withoutValues isValue tokens).Sublist tokens := by
  induction tokens generalizing isValue with
  | nil => exact List.Sublist.refl []
  | cons token rest hypothesis =>
    have noCommasLater := fun value member => noCommas value (List.mem_cons_of_mem _ member)
    have later (isValue : Bool) := hypothesis isValue noCommasLater
    rw [withoutValues_cons isValue noCommasLater]
    split
    · exact (later true).cons token
    · split
      · exact (later false).cons token
      · exact (later false).cons_cons token

/-- Nothing is left exactly if of any two neighbouring tokens one is an equals sign. -/
theorem withoutValues_eq_nil_iff (tokens : List Text) :
    withoutValues true tokens = [] ↔
      tokens.IsChain fun left right => left = ['='] ∨ right = ['='] := by
  -- Where no value is awaited, the next token must be an equals sign.
  have both : (withoutValues true tokens = [] ↔
        tokens.IsChain fun left right => left = ['='] ∨ right = ['=']) ∧
      (withoutValues false tokens = [] ↔ (∀ first ∈ tokens.head?, first = ['=']) ∧
        tokens.IsChain fun left right => left = ['='] ∨ right = ['=']) := by
    induction tokens with
    | nil => simp [withoutValues]
    | cons token rest hypothesis =>
      obtain ⟨ofValue, ofOther⟩ := hypothesis
      rw [List.isChain_cons, withoutValues, withoutValues]
      by_cases isSign : token = ['=']
      · simp [isSign, ofValue]
      · simp [isSign, ofOther]
  exact both.1

/-- What the passes leave are tokens. -/
theorem mem_tokens_of_mem_passes
    {text token : Text}
    (encloses : EnclosesCommas text)
    (member : token ∈ withoutValues false (tokens text)) :
    token ∈ tokens text :=
  (withoutValues_sublist false fun _ => commas_of_mem_tokens encloses).subset member

/-- Without braces, the passes take values out and change nothing else. -/
theorem passes_eq
    {text : Text}
    (encloses : EnclosesCommas text)
    (noBrace : '{' ∉ text) :
    (withoutValues false (tokens text)).map withoutBraces = withoutValues false (tokens text) := by
  refine map_withoutBraces fun token member inToken => noBrace ?_
  have inTokens : '{' ∈ (tokens text).flatten :=
    List.mem_flatten.mpr ⟨token, mem_tokens_of_mem_passes encloses member, inToken⟩
  rw [flatten_tokens] at inTokens
  exact (List.mem_filter.mp inTokens).1

/-- Values are taken out behind the first token that is kept. -/
theorem passes_cons
    {text token : Text}
    {front later : List Text}
    (encloses : EnclosesCommas text)
    (noBrace : '{' ∉ text)
    (split : tokens text = front ++ token :: later)
    (noSigns : ∀ other ∈ front, other ≠ ['='])
    (noSign : token ≠ ['=']) :
    (withoutValues false (tokens text)).map withoutBraces =
      front ++ token :: withoutValues false later := by
  have noCommasLater : ∀ value ∈ later, value.head? ≠ some ',' ∧ value.getLast? ≠ some ',' :=
    fun value member => commas_of_mem_tokens encloses (by simp [split, member])
  rw [passes_eq encloses noBrace, split, withoutValues_append noSigns (by simpa using noSign),
    withoutValues_cons false noCommasLater, if_neg noSign, if_neg Bool.false_ne_true]

/-! ## Single members -/

/-- If all commas stand inside parentheses, a single member is that of the last token. -/
theorem eq_of_members_eq_ok
    {text declarator : Text}
    {type : List Text}
    {member : DataMember}
    (begins : ∃ first ∈ text.head?, isBlank first = false)
    (encloses : EnclosesCommas text)
    (noBrace : '{' ∉ text)
    (passes : (withoutValues false (tokens text)).map withoutBraces = type ++ [declarator])
    (declares : members (text ++ [';']) = .ok [member]) :
    type ≠ [] ∧
      member =
        { memberOf (unwords (type.filter (· ≠ staticWord))) declarator with
          isStatic := type.contains staticWord } := by
  have noCommas : ∀ token ∈ type ++ [declarator], endsWithComma token = false := by
    intro token isToken
    rw [← passes, passes_eq encloses noBrace] at isToken
    have noComma := (commas_of_mem_tokens encloses (mem_tokens_of_mem_passes encloses isToken)).2
    simpa [endsWithComma] using noComma
  rw [members_of_passes begins passes (by simp) (typeAndDeclarators_concat noCommas)] at declares
  split at declares
  · contradiction
  · next resolved =>
    rw [not_or] at resolved
    constructor
    · rintro rfl
      exact resolved.1 rfl
    · by_cases empty : declarator = []
      · simp [empty] at declares
      · simpa [empty] using declares.symm

/-- The type of a member begins with the type in front of its declarator. -/
theorem prefix_declaredType (type declarator : Text) :
    type <+: (memberOf type declarator).declaredType := by
  rw [memberOf.eq_def]
  split
  · exact List.prefix_append _ _
  · exact List.prefix_append _ _
  · exact List.prefix_append _ _
  · split
    · exact List.prefix_append _ _
    · exact List.prefix_refl _

end Declaration

end ClassOutline
