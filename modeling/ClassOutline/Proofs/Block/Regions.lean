import ClassOutline.Block
import ClassOutline.Proofs.Reserved
/-!
# Blocks of texts put together

A text is scanned for blocks from left to right, with the braces open since the first region
began.  The scan of a text that begins with a known part goes on behind that part, in the state
that the part leaves.  Two kinds of parts are known: calm texts, in which no declaration begins,
and declarations.
-/

namespace ClassOutline.Block

/-! ## Open braces -/

/-- Opening minus closing braces. -/
def braces : Text → Int
  | [] => 0
  | first :: rest => braceChange first + braces rest

@[simp]
theorem braces_nil : braces [] = 0 := rfl

@[simp]
theorem braces_cons
    (first : Char)
    (rest : Text) :
    braces (first :: rest) = braceChange first + braces rest := rfl

@[simp]
theorem braces_append
    (left right : Text) :
    braces (left ++ right) = braces left + braces right := by
  induction left with
  | nil => simp
  | cons first left hypothesis =>
    rw [List.cons_append, braces_cons, braces_cons, hypothesis, Int.add_assoc]

theorem braces_eq_count_sub_count (text : Text) :
    braces text = (text.count '{' : Int) - text.count '}' := by
  induction text with
  | nil => rfl
  | cons first rest hypothesis =>
    rw [braces_cons, hypothesis, List.count_cons, List.count_cons, braceChange]
    by_cases opens : first = '{'
    · subst opens
      simp only [beq_self_eq_true, if_true, Int.natCast_add]
      have notClosing : ('{' == '}') = false := by decide
      simp only [notClosing, Bool.false_eq_true, if_false]
      omega
    · by_cases closes : first = '}'
      · subst closes
        simp [opens]
        omega
      · simp [opens, closes]

/-- No brace stands in the text. -/
def Braceless (text : Text) : Prop :=
  ∀ character ∈ text, character ≠ '{' ∧ character ≠ '}'

instance (text : Text) : Decidable (Braceless text) :=
  inferInstanceAs (Decidable (∀ character ∈ text, _))

theorem Braceless.append
    {left right : Text}
    (bracelessLeft : Braceless left)
    (bracelessRight : Braceless right) :
    Braceless (left ++ right) :=
  fun character member =>
    (List.mem_append.mp member).elim (bracelessLeft character) (bracelessRight character)

theorem braceChange_eq_zero
    {character : Char}
    (noOpening : character ≠ '{')
    (noClosing : character ≠ '}') :
    braceChange character = 0 := by
  simp [braceChange, noOpening, noClosing]

theorem Braceless.braces_eq_zero
    {text : Text}
    (braceless : Braceless text) :
    braces text = 0 := by
  induction text with
  | nil => rfl
  | cons first rest hypothesis =>
    obtain ⟨noOpening, noClosing⟩ := braceless first List.mem_cons_self
    have restZero := hypothesis fun character member =>
      braceless character (List.mem_cons_of_mem _ member)
    rw [braces_cons, braceChange_eq_zero noOpening noClosing, restZero]
    rfl

/-! ## Nested braces -/

/-- Each closing brace of the text closes one that is opened in it, and none is left open. -/
structure Nested (text : Text) : Prop where
  opened : ∀ front, front <+: text → 0 ≤ braces front
  closed : braces text = 0

theorem Braceless.nested
    {text : Text}
    (braceless : Braceless text) :
    Nested text where
  opened front isPrefix := by
    have bracelessFront : Braceless front := fun character member =>
      braceless character (isPrefix.subset member)
    exact Int.le_of_eq bracelessFront.braces_eq_zero.symm
  closed := braceless.braces_eq_zero

theorem Nested.append
    {left right : Text}
    (nestedLeft : Nested left)
    (nestedRight : Nested right) :
    Nested (left ++ right) where
  opened front isPrefix := by
    rcases List.prefix_or_prefix_of_prefix isPrefix (List.prefix_append left right) with
      shorter | ⟨more, rfl⟩
    · exact nestedLeft.opened front shorter
    · have opened := nestedRight.opened more ((List.prefix_append_right_inj left).mp isPrefix)
      rw [braces_append, nestedLeft.closed, Int.zero_add]
      exact opened
  closed := by rw [braces_append, nestedLeft.closed, nestedRight.closed, Int.add_zero]

/-- A nested text in braces is nested. -/
theorem Nested.enclosed
    {text : Text}
    (nested : Nested text) :
    Nested ('{' :: (text ++ ['}'])) where
  opened front isPrefix := by
    cases front with
    | nil => exact Int.le_refl 0
    | cons first front =>
      obtain ⟨rfl, inside⟩ := List.cons_prefix_cons.mp isPrefix
      rcases List.prefix_concat_iff.mp inside with rfl | shorter
      · simp [nested.closed, braceChange]
      · have opened := nested.opened front shorter
        simp only [braces_cons, braceChange, if_true]
        omega
  closed := by simp [nested.closed, braceChange]

/-! ## One step of the scan -/

/-- A region begins at depth zero, so the depth is the number of open braces all along the text. -/
theorem regionsFrom_cons
    (past : Text)
    (depth : Int)
    (current : Char)
    (rest : Text) :
    regionsFrom past depth (current :: rest) =
      let later := regionsFrom (current :: past) (depth + braceChange current) rest
      if depth = 0 ∧ beginsDeclaration past (current :: rest) then
        ([], ⟨past, current :: later.1⟩ :: later.2)
      else (current :: later.1, later.2) := by
  rw [regionsFrom]
  split
  · next atStart => simp [atStart.1]
  · rfl

/-- The blocks of the regions that begin in the rest of a text, inside a region. -/
def blocksFrom (past : Text) (depth : Int) (text : Text) : List Block :=
  (regionsFrom past depth text).2.filterMap ofRegion?

/-- The blocks of the rest of a text, in front of which no region has begun. -/
def blocksAfter (past : Text) (text : Text) : List Block :=
  (regionsAfter past text).filterMap ofRegion?

@[simp]
theorem blocksFrom_nil
    (past : Text)
    (depth : Int) :
    blocksFrom past depth [] = [] := rfl

theorem ofText_eq_blocksAfter (text : Text) : ofText text = blocksAfter [] text := rfl

/-! ## Calm texts -/

theorem isDelimiter_eq_false_of_mem_declarationWords :
    ∀ word ∈ declarationWords, ∀ character ∈ word, Reserved.isDelimiter character = false := by
  decide

theorem declarationWord_ne_nil :
    ∀ word ∈ declarationWords, word ≠ [] := by
  decide

/-- No declaring word begins another one, so the word at a place is known. -/
theorem declarationWord?_append
    {word : Text}
    (isWord : word ∈ declarationWords)
    (rest : Text) :
    declarationWord? (word ++ rest) = some word := by
  have isSome : (declarationWord? (word ++ rest)).isSome = true := by
    rw [declarationWord?, List.find?_isSome]
    exact ⟨word, isWord, List.isPrefixOf_iff_prefix.mpr (List.prefix_append word rest)⟩
  obtain ⟨other, found⟩ := Option.isSome_iff_exists.mp isSome
  have isOther : other ∈ declarationWords := List.mem_of_find?_eq_some found
  have begins : other <+: word ++ rest :=
    List.isPrefixOf_iff_prefix.mp (by simpa using List.find?_some found)
  have noPrefix : ∀ first ∈ declarationWords, ∀ second ∈ declarationWords,
      first.isPrefixOf second = true → first = second := by
    decide
  rw [found]
  rcases List.prefix_or_prefix_of_prefix begins (List.prefix_append word rest) with
    shorter | longer
  · exact congrArg some
      (noPrefix _ isOther _ isWord (List.isPrefixOf_iff_prefix.mpr shorter))
  · exact congrArg some
      (noPrefix _ isWord _ isOther (List.isPrefixOf_iff_prefix.mpr longer)).symm

theorem not_mem_of_isDelimiter
    {word : Text}
    {delimiter : Char}
    (isWord : word ∈ declarationWords)
    (isDelimiter : Reserved.isDelimiter delimiter = true) :
    delimiter ∉ word := fun member => by
  simp [isDelimiter_eq_false_of_mem_declarationWords word isWord delimiter member] at isDelimiter

/--
No declaring word stands in the text, nor one that begins in it and ends behind it: the last
character is in none of them.
-/
structure Calm (text : Text) : Prop where
  lacks : ∀ word ∈ declarationWords, text.Lacks word
  ends : ∀ last ∈ text.getLast?, ∀ word ∈ declarationWords, last ∉ word

theorem calm_nil : Calm [] :=
  ⟨fun word isWord => Text.lacks_nil (declarationWord_ne_nil word isWord), by simp⟩

/-- Characters that are in no declaring word make a calm text. -/
theorem calm_of_foreign
    {text : Text}
    (foreign : ∀ character ∈ text, ∀ word ∈ declarationWords, character ∉ word) :
    Calm text where
  lacks word isWord := Text.lacks_of_foreign (declarationWord_ne_nil word isWord)
    fun character member => foreign character member word isWord
  ends last isLast := foreign last (List.mem_of_getLast? isLast)

theorem Calm.append
    {left right : Text}
    (calmLeft : Calm left)
    (calmRight : Calm right) :
    Calm (left ++ right) := by
  rcases List.eq_nil_or_concat left with rfl | ⟨start, last, rfl⟩
  · exact calmRight
  · rw [List.concat_eq_append] at calmLeft ⊢
    constructor
    · intro word isWord
      have foreign := calmLeft.ends last (by simp) word isWord
      have lacksStart := (calmLeft.lacks word isWord).of_isInfix
        (List.prefix_append start [last]).isInfix
      rw [List.append_assoc, List.singleton_append, Text.lacks_append_cons _ _ foreign]
      exact ⟨lacksStart, calmRight.lacks word isWord⟩
    · intro character isLast
      cases right with
      | nil => exact calmLeft.ends character (by simpa using isLast)
      | cons first rest => exact calmRight.ends character (by simpa using isLast)

theorem Calm.of_isSuffix
    {text behind : Text}
    (calm : Calm text)
    (isSuffix : behind <:+ text) :
    Calm behind := by
  refine ⟨fun word isWord => (calm.lacks word isWord).of_isInfix isSuffix.isInfix,
    fun last isLast => calm.ends last ?_⟩
  obtain ⟨front, rfl⟩ := isSuffix
  rw [List.getLast?_append, Option.mem_def.mp isLast]
  rfl

/-- No declaring word begins in a calm text, whatever follows it. -/
theorem Calm.declarationWord?_eq_none
    {text : Text}
    (calm : Calm text)
    (notEmpty : text ≠ [])
    (rest : Text) :
    declarationWord? (text ++ rest) = none := by
  obtain ⟨start, last, rfl⟩ := (List.eq_nil_or_concat text).resolve_left notEmpty
  rw [List.concat_eq_append] at calm ⊢
  rw [declarationWord?, List.find?_eq_none]
  intro word isWord begins
  rw [List.append_assoc, List.singleton_append, List.isPrefixOf_iff_prefix] at begins
  have inStart := Text.isPrefix_of_isPrefix_append_cons (calm.ends last (by simp) word isWord) begins
  have lacksStart := (calm.lacks word isWord).of_isInfix (List.prefix_append start [last]).isInfix
  exact lacksStart inStart.isInfix

/-- Inside a region, the scan passes a text at no place of which a declaration begins. -/
theorem regionsFrom_append_of_quiet
    {past text rest : Text}
    (depth : Int)
    (quiet : ∀ front behind, text = front ++ behind → behind ≠ [] →
      beginsDeclaration (front.reverse ++ past) (behind ++ rest) = false) :
    regionsFrom past depth (text ++ rest) =
      let later := regionsFrom (text.reverse ++ past) (depth + braces text) rest
      (text ++ later.1, later.2) := by
  induction text generalizing past depth with
  | nil => simp
  | cons first text hypothesis =>
    have here := quiet [] (first :: text) rfl (by simp)
    have later := @hypothesis (first :: past) (depth + braceChange first)
      fun front behind shape notEmpty => by
        have quietThere := quiet (first :: front) behind (by rw [shape]; rfl) notEmpty
        simpa using quietThere
    rw [List.cons_append] at here ⊢
    rw [regionsFrom_cons, later]
    simp only [List.reverse_nil, List.nil_append] at here
    simp [here, Int.add_assoc]

/-- No declaration begins in a calm text, whatever stands in front of it and behind it. -/
theorem Calm.beginsDeclaration_eq_false
    {text : Text}
    (calm : Calm text)
    (notEmpty : text ≠ [])
    (past rest : Text) :
    beginsDeclaration past (text ++ rest) = false := by
  rw [beginsDeclaration, calm.declarationWord?_eq_none notEmpty]

/-- The scan runs through a calm text. -/
theorem regionsFrom_append
    {text : Text}
    (past : Text)
    (depth : Int)
    (calm : Calm text)
    (rest : Text) :
    regionsFrom past depth (text ++ rest) =
      let later := regionsFrom (text.reverse ++ past) (depth + braces text) rest
      (text ++ later.1, later.2) := by
  refine regionsFrom_append_of_quiet depth fun front behind shape notEmpty => ?_
  have calmBehind := calm.of_isSuffix (shape ▸ List.suffix_append front behind)
  exact calmBehind.beginsDeclaration_eq_false notEmpty _ rest

theorem blocksFrom_append
    {text : Text}
    (past : Text)
    (depth : Int)
    (calm : Calm text)
    (rest : Text) :
    blocksFrom past depth (text ++ rest) =
      blocksFrom (text.reverse ++ past) (depth + braces text) rest := by
  rw [blocksFrom, regionsFrom_append past depth calm rest]
  rfl

theorem regionsAfter_append
    {text : Text}
    (past : Text)
    (calm : Calm text)
    (rest : Text) :
    regionsAfter past (text ++ rest) = regionsAfter (text.reverse ++ past) rest := by
  induction text generalizing past with
  | nil => rfl
  | cons first text hypothesis =>
    have noWord := calm.declarationWord?_eq_none (by simp) rest
    rw [List.cons_append] at noWord
    rw [List.cons_append, regionsAfter, noWord]
    simp [hypothesis (first :: past) (calm.of_isSuffix (List.suffix_cons first text))]

theorem blocksAfter_append
    {text : Text}
    (past : Text)
    (calm : Calm text)
    (rest : Text) :
    blocksAfter past (text ++ rest) = blocksAfter (text.reverse ++ past) rest := by
  rw [blocksAfter, regionsAfter_append past calm rest]
  rfl

end ClassOutline.Block
