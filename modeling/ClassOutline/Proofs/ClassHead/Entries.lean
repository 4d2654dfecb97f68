import Mathlib.Data.List.Basic
import ClassOutline.ClassHead
import ClassOutline.Proofs.Text.Groups
import ClassOutline.Proofs.Text.Words
/-!
# Entries of a list of bases

The entries of a list of bases are found again if all their commas stand inside brackets: in front
of such a comma the brackets do not match, so the pieces around it are put together again, and at
the end of an entry they match.

The words of an entry are specifiers and the words of the name.  So a base is found again behind its
specifiers if none of them is a word of its name.
-/

namespace ClassOutline.ClassHead

/-- A text that is one entry of a list of bases. -/
structure IsEntry (entry : Text) : Prop where
  balanced : Text.Balanced entry
  /-- In front of a comma some brackets do not. -/
  commasInside : ∀ before after, entry = before ++ ',' :: after → ¬ Text.Balanced before
  /-- Between the commas stands something that is not blank. -/
  notBlank : ∀ piece ∈ Text.splitWhere (· = ',') entry, Text.trim piece ≠ []

/-- Behind a group, the pieces of a text are put together if the group is incomplete up to them. -/
theorem extend_splitWhere
    {text piece : Text}
    {pieces : List Text}
    (incomplete : Text → Bool)
    (group : Text)
    (split : Text.splitWhere (· = ',') text = piece :: pieces)
    (isIncomplete : ∀ before after, text = before ++ ',' :: after →
      incomplete (group ++ before) = true)
    (more : List Text) :
    Text.regroup.extend [','] incomplete (group ++ piece) (pieces ++ more) =
      Text.regroup.extend [','] incomplete (group ++ text) more := by
  induction text generalizing group piece pieces with
  | nil =>
    obtain ⟨rfl, rfl⟩ := List.cons.inj split
    rfl
  | cons first text hypothesis =>
    obtain ⟨next, later, splitLater⟩ :=
      List.exists_cons_of_ne_nil (Text.splitWhere_ne_nil (· = ',') text)
    have incompleteLater : ∀ before after, text = before ++ ',' :: after →
        incomplete (group ++ [first] ++ before) = true := by
      intro before after shape
      simpa using isIncomplete (first :: before) after (by rw [shape]; rfl)
    have joined := hypothesis (group ++ [first]) splitLater incompleteLater
    rw [Text.splitWhere, splitLater] at split
    by_cases isComma : first = ','
    · subst isComma
      obtain ⟨rfl, rfl⟩ := List.cons.inj split
      have here := isIncomplete [] text rfl
      rw [List.append_nil] at here ⊢
      rw [List.cons_append, Text.regroup.extend, if_pos here, joined]
      simp
    · rw [if_neg (by simpa using isComma)] at split
      obtain ⟨rfl, rfl⟩ := List.cons.inj split
      simpa using joined

theorem filter_splitWhere
    {entry : Text}
    (isEntry : IsEntry entry) :
    (Text.splitWhere (· = ',') entry).filter (fun piece => Text.trim piece ≠ []) =
      Text.splitWhere (· = ',') entry :=
  List.filter_eq_self.mpr fun piece member => decide_eq_true (isEntry.notBlank piece member)

/-- Entries joined by commas are found again. -/
theorem baseEntries_intercalate
    {entries : List Text}
    (notEmpty : entries ≠ [])
    (areEntries : ∀ entry ∈ entries, IsEntry entry) :
    baseEntries ([','].intercalate entries) = entries := by
  induction entries with
  | nil => contradiction
  | cons entry entries hypothesis =>
    have isEntry := areEntries entry List.mem_cons_self
    have complete := @Text.extend_of_complete [','] (fun entry => ¬ Text.Balanced entry) entry
      (by simpa using isEntry.balanced)
    obtain ⟨piece, pieces, split⟩ :=
      List.exists_cons_of_ne_nil (Text.splitWhere_ne_nil (· = ',') entry)
    have joined (more : List Text) := extend_splitWhere
      (fun entry => ¬ Text.Balanced entry) [] split
      (fun before after shape => by simpa using isEntry.commasInside before after shape) more
    simp only [List.nil_append] at joined
    have kept := filter_splitWhere isEntry
    rw [split] at kept
    cases entries with
    | nil =>
      have whole := joined []
      rw [complete, List.append_nil] at whole
      simp only [baseEntries, List.intercalate_singleton, split, kept]
      exact whole
    | cons next entries =>
      have later := hypothesis (by simp) fun other member =>
        areEntries other (List.mem_cons_of_mem _ member)
      rw [baseEntries] at later
      rw [baseEntries, List.intercalate_cons_cons, List.append_assoc, List.singleton_append,
        Text.splitWhere_append_cons _ _ (by decide), List.filter_append, split, kept]
      rw [List.cons_append, Text.regroup, joined, complete, later]

/-- What holds neither brackets nor commas may stand in front of an entry. -/
theorem IsEntry.append_left
    {entry front : Text}
    (isEntry : IsEntry entry)
    (bare : ∀ mark ∈ "\x7b\x7d()<>,".toList, mark ∉ front) :
    IsEntry (front ++ entry) := by
  have counted (bracket : Char) (isBracket : bracket ∈ "\x7b\x7d()<>,".toList) (text : Text) :
      (front ++ text).count bracket = text.count bracket := by
    rw [List.count_append, List.count_eq_zero.mpr (bare bracket isBracket), Nat.zero_add]
  have balanced_iff (text : Text) : Text.Balanced (front ++ text) ↔ Text.Balanced text := by
    rw [Text.Balanced, counted _ (by decide), counted _ (by decide), counted _ (by decide),
      counted _ (by decide), counted _ (by decide), counted _ (by decide)]
    rfl
  constructor
  · exact (balanced_iff entry).mpr isEntry.balanced
  · intro before after shape
    rcases Text.of_append_eq_append_cons shape with ⟨inner, rfl⟩ | ⟨outer, rfl, entryShape⟩
    · exact absurd (List.mem_append_right _ List.mem_cons_self) (bare ',' (by decide))
    · rw [balanced_iff]
      exact isEntry.commasInside outer after entryShape
  · obtain ⟨part, parts, split⟩ :=
      List.exists_cons_of_ne_nil (Text.splitWhere_ne_nil (· = ',') entry)
    have whole : ∀ character ∈ front, decide (character = ',') = false := by
      intro character member
      refine decide_eq_false ?_
      rintro rfl
      exact bare ',' (by decide) member
    rw [Text.splitWhere_append whole split]
    intro piece member
    rcases List.mem_cons.mp member with rfl | isLater
    · have partNotBlank := isEntry.notBlank part (split ▸ List.mem_cons_self)
      obtain ⟨character, inPart, notBlank⟩ := Text.exists_notBlank_of_trim partNotBlank
      exact List.ne_nil_of_mem (Text.mem_trim (List.mem_append_right front inPart) notBlank)
    · exact isEntry.notBlank piece (split ▸ List.mem_cons_of_mem _ isLater)

/-! ## The words of an entry -/

theorem areWords_baseSpecifiers : Text.AreWords baseSpecifiers := by
  unfold Text.AreWords
  decide

variable {specifiers : List Text} {name : Text}

/-- The text of an entry: specifiers with a blank behind each, and the name. -/
def entryText (specifiers : List Text) (name : Text) : Text :=
  specifiers.flatMap (· ++ [' ']) ++ name

theorem areWords_specifiers
    (areSpecifiers : ∀ word ∈ specifiers, word ∈ baseSpecifiers) :
    Text.AreWords specifiers :=
  fun word member => areWords_baseSpecifiers word (areSpecifiers word member)

theorem spaced_entryText
    (areSpecifiers : ∀ word ∈ specifiers, word ∈ baseSpecifiers)
    (spaced : Text.Spaced name) :
    Text.Spaced (entryText specifiers name) :=
  Text.spaced_flatMap_append (areWords_specifiers areSpecifiers) spaced

/-- The specifiers hold no brackets and no commas. -/
theorem isEntry_entryText
    (areSpecifiers : ∀ word ∈ specifiers, word ∈ baseSpecifiers)
    (isEntry : IsEntry name) :
    IsEntry (' ' :: entryText specifiers name) := by
  have bareSpecifiers : ∀ mark ∈ "\x7b\x7d()<>,".toList, ∀ word ∈ baseSpecifiers, mark ∉ word := by
    decide
  have shape : ' ' :: entryText specifiers name =
      (' ' :: specifiers.flatMap (· ++ [' '])) ++ name := by
    simp [entryText]
  rw [shape]
  refine isEntry.append_left fun mark isMark member => ?_
  have notSpace : ∀ mark ∈ "\x7b\x7d()<>,".toList, mark ≠ ' ' := by decide
  rcases List.mem_cons.mp member with isSpace | inSpecifiers
  · exact notSpace mark isMark isSpace
  · obtain ⟨word, isWord, inside⟩ := List.mem_flatMap.mp inSpecifiers
    rcases List.mem_append.mp inside with inWord | isSpace
    · exact bareSpecifiers mark isMark word (areSpecifiers word isWord) inWord
    · exact notSpace mark isMark (List.mem_singleton.mp isSpace)

/-- An entry is read as the base that its specifiers and its name describe. -/
theorem baseOf?_entryText
    (areSpecifiers : ∀ word ∈ specifiers, word ∈ baseSpecifiers)
    (spaced : Text.Spaced name)
    (noSpecifier : ∀ word ∈ baseSpecifiers, word ∉ name.words) :
    baseOf? (' ' :: entryText specifiers name) =
      some
        { name
          access :=
            if "protected".toList ∈ specifiers then .protectedly
            else if "private".toList ∈ specifiers then .privately
            else .publicly
          isVirtual := specifiers.contains "virtual".toList } := by
  have words : Text.words (' ' :: entryText specifiers name) = specifiers ++ name.words := by
    have behindBlank : Text.words (' ' :: entryText specifiers name) =
        Text.words (entryText specifiers name) :=
      Text.words_append_cons [] _ (by decide)
    rw [behindBlank, entryText, Text.words_flatMap_append (areWords_specifiers areSpecifiers)]
  have kept : (specifiers ++ name.words).filter (fun word => !baseSpecifiers.contains word) =
      name.words := by
    rw [List.filter_append, List.filter_eq_nil_iff.mpr, List.nil_append, List.filter_eq_self]
    · intro word member
      rw [Bool.not_eq_true', ← Bool.not_eq_true, List.contains_iff_mem]
      exact fun isSpecifier => noSpecifier word isSpecifier member
    · intro word member
      simpa using areSpecifiers word member
  have contains {word : Text} (isSpecifier : word ∈ baseSpecifiers) :
      (specifiers ++ name.words).contains word = specifiers.contains word := by
    rw [Bool.eq_iff_iff, List.contains_iff_mem, List.contains_iff_mem, List.mem_append]
    exact or_iff_left (noSpecifier word isSpecifier)
  have notEmpty : name ≠ [] := by
    obtain ⟨first, isFirst, -⟩ := spaced.begins
    exact List.ne_nil_of_mem (List.mem_of_mem_head? isFirst)
  rw [baseOf?, words, kept, spaced.unwords_words, if_neg notEmpty, contains (by decide),
    contains (by decide), contains (by decide)]
  simp only [List.contains_iff_mem]

/-- Entries with a comma and a blank between them are read one by one. -/
theorem basesOf_intercalate
    {Entry : Type}
    {text : Entry → Text}
    {base : Entry → Base}
    {entries : List Entry}
    (notEmpty : entries ≠ [])
    (areEntries : ∀ entry ∈ entries, IsEntry (' ' :: text entry))
    (read : ∀ entry ∈ entries, baseOf? (' ' :: text entry) = some (base entry)) :
    basesOf (' ' :: [',', ' '].intercalate (entries.map text)) = entries.map base := by
  have clause : ∀ texts : List Text, texts ≠ [] →
      ' ' :: [',', ' '].intercalate texts = [','].intercalate (texts.map (' ' :: ·)) := by
    intro texts notEmpty
    induction texts with
    | nil => contradiction
    | cons text texts hypothesis =>
      cases texts with
      | nil => simp
      | cons next texts =>
        rw [List.map_cons, List.map_cons, List.intercalate_cons_cons, List.intercalate_cons_cons,
          ← List.map_cons, ← hypothesis (by simp)]
        simp
  have areEntriesMapped : ∀ entry ∈ (entries.map text).map (' ' :: ·), IsEntry entry := by
    intro other member
    obtain ⟨_, isText, rfl⟩ := List.mem_map.mp member
    obtain ⟨entry, isEntry, rfl⟩ := List.mem_map.mp isText
    exact areEntries entry isEntry
  rw [clause _ (by simpa using notEmpty), basesOf,
    baseEntries_intercalate (by simpa using notEmpty) areEntriesMapped, List.map_map,
    List.filterMap_map, ← List.filterMap_eq_map]
  exact List.filterMap_congr read

/-! ## Nested entries -/

/--
Follows a text through angle brackets: their depth, and whether something that is not blank has been
met since the last comma.  A comma must stand inside brackets and behind something not blank.
-/
def nestStep? (state : Nat × Bool) (character : Char) : Option (Nat × Bool) :=
  if character = ',' then
    if 0 < state.1 ∧ state.2 = true then some (state.1, false) else none
  else if character = '<' then some (state.1 + 1, true)
  else if character = '>' then if 0 < state.1 then some (state.1 - 1, true) else none
  else some (state.1, state.2 || !Text.isBlank character)

/-- The state in which a text is left that is reached in a given one. -/
def nest? (state : Nat × Bool) (text : Text) : Option (Nat × Bool) :=
  text.foldlM nestStep? state

@[simp]
theorem nest?_nil (state : Nat × Bool) : nest? state [] = some state := rfl

theorem nest?_cons
    (state : Nat × Bool)
    (first : Char)
    (rest : Text) :
    nest? state (first :: rest) = (nestStep? state first).bind (nest? · rest) := rfl

theorem nest?_append
    (state : Nat × Bool)
    (left right : Text) :
    nest? state (left ++ right) = (nest? state left).bind (nest? · right) :=
  List.foldlM_append

/-- Characters that are neither commas nor angle brackets are passed. -/
theorem nest?_of_bare
    {text : Text}
    (depth : Nat)
    (seen : Bool)
    (bare : ∀ character ∈ text, character ≠ ',' ∧ character ≠ '<' ∧ character ≠ '>') :
    nest? (depth, seen) text = some (depth, seen || text.any fun character => !Text.isBlank character)
    := by
  induction text generalizing seen with
  | nil => simp
  | cons first rest hypothesis =>
    obtain ⟨noComma, noOpening, noClosing⟩ := bare first List.mem_cons_self
    have later := hypothesis (seen || !Text.isBlank first) fun character member =>
      bare character (List.mem_cons_of_mem _ member)
    rw [nest?_cons]
    simp [nestStep?, noComma, noOpening, noClosing, later, Bool.or_assoc]

theorem count_of_nest?
    {state reached : Nat × Bool}
    {text : Text}
    (nests : nest? state text = some reached) :
    reached.1 + text.count '>' = state.1 + text.count '<' := by
  induction text generalizing state with
  | nil =>
    obtain rfl := Option.some.inj nests
    rfl
  | cons first rest hypothesis =>
    rw [nest?_cons] at nests
    obtain ⟨next, step, later⟩ := Option.bind_eq_some_iff.mp nests
    have counted := hypothesis later
    rw [nestStep?] at step
    rw [List.count_cons, List.count_cons]
    by_cases isComma : first = ','
    · rw [if_pos isComma] at step
      split at step
      · obtain rfl := Option.some.inj step
        simpa [isComma] using counted
      · contradiction
    · rw [if_neg isComma] at step
      by_cases opens : first = '<'
      · rw [if_pos opens] at step
        obtain rfl := Option.some.inj step
        simp [opens] at counted ⊢
        omega
      · rw [if_neg opens] at step
        by_cases closes : first = '>'
        · rw [if_pos closes] at step
          split at step
          · next positive =>
            obtain rfl := Option.some.inj step
            simp [closes] at counted ⊢
            omega
          · contradiction
        · rw [if_neg closes] at step
          obtain rfl := Option.some.inj step
          simpa [opens, closes] using counted

/-- Every piece between commas holds a character that is not blank. -/
theorem exists_notBlank_of_nest?
    {state : Nat × Bool}
    {depth : Nat}
    {text piece : Text}
    {pieces : List Text}
    (nests : nest? state text = some (depth, true))
    (split : Text.splitWhere (· = ',') text = piece :: pieces) :
    (state.2 = true ∨ ∃ character ∈ piece, Text.isBlank character = false) ∧
      ∀ other ∈ pieces, ∃ character ∈ other, Text.isBlank character = false := by
  induction text generalizing state piece pieces with
  | nil =>
    obtain rfl := Option.some.inj nests
    obtain ⟨rfl, rfl⟩ := List.cons.inj split
    simp
  | cons first rest hypothesis =>
    obtain ⟨next, later, splitLater⟩ :=
      List.exists_cons_of_ne_nil (Text.splitWhere_ne_nil (· = ',') rest)
    rw [nest?_cons] at nests
    obtain ⟨reached, step, nestsLater⟩ := Option.bind_eq_some_iff.mp nests
    obtain ⟨inNext, inLater⟩ := hypothesis nestsLater splitLater
    rw [Text.splitWhere, splitLater] at split
    by_cases isComma : first = ','
    · rw [if_pos (by simpa using isComma)] at split
      obtain ⟨rfl, rfl⟩ := List.cons.inj split
      rw [nestStep?, if_pos isComma] at step
      split at step
      · next inside =>
        obtain rfl := Option.some.inj step
        refine ⟨.inl inside.2, fun other member => ?_⟩
        rcases List.mem_cons.mp member with rfl | isLater
        · simpa using inNext
        · exact inLater other isLater
      · contradiction
    · rw [if_neg (by simpa using isComma)] at split
      obtain ⟨rfl, rfl⟩ := List.cons.inj split
      refine ⟨?_, inLater⟩
      cases blank : Text.isBlank first with
      | false => exact .inr ⟨first, List.mem_cons_self, blank⟩
      | true =>
        have noOpening : first ≠ '<' := by
          rintro rfl
          exact absurd blank (by decide)
        have noClosing : first ≠ '>' := by
          rintro rfl
          exact absurd blank (by decide)
        simp only [nestStep?, isComma, noOpening, noClosing, if_false, blank, Bool.not_true,
          Bool.or_false] at step
        obtain rfl := Option.some.inj step
        rcases inNext with seen | ⟨character, member, notBlank⟩
        · exact .inl seen
        · exact .inr ⟨character, List.mem_cons_of_mem _ member, notBlank⟩

/-- A text whose angle brackets nest, with all commas inside them, is an entry. -/
theorem isEntry_of_nest?
    {entry : Text}
    (nests : nest? (0, false) entry = some (0, true))
    (bare : ∀ character ∈ entry, character ∉ ['{', '}', '(', ')']) :
    IsEntry entry := by
  have noBracket (bracket : Char) (isBracket : bracket ∈ ['{', '}', '(', ')']) :
      entry.count bracket = 0 :=
    List.count_eq_zero.mpr fun member => bare bracket member isBracket
  constructor
  · have counted := count_of_nest? nests
    refine ⟨?_, ?_, by omega⟩
    · rw [noBracket '{' (by simp), noBracket '}' (by simp)]
    · rw [noBracket '(' (by simp), noBracket ')' (by simp)]
  · rintro before after shape ⟨-, -, sameAngles⟩
    rw [shape, nest?_append] at nests
    obtain ⟨state, nestsBefore, nestsAfter⟩ := Option.bind_eq_some_iff.mp nests
    have counted := count_of_nest? nestsBefore
    rw [nest?_cons] at nestsAfter
    obtain ⟨reached, step, -⟩ := Option.bind_eq_some_iff.mp nestsAfter
    rw [nestStep?, if_pos rfl] at step
    split at step
    · next inside => omega
    · contradiction
  · obtain ⟨piece, pieces, split⟩ :=
      List.exists_cons_of_ne_nil (Text.splitWhere_ne_nil (· = ',') entry)
    obtain ⟨inFirst, inOthers⟩ := exists_notBlank_of_nest? nests split
    rw [split]
    intro other member
    obtain ⟨character, inside, notBlank⟩ :
        ∃ character ∈ other, Text.isBlank character = false := by
      rcases List.mem_cons.mp member with rfl | isLater
      · exact inFirst.resolve_left (by simp)
      · exact inOthers other isLater
    exact List.ne_nil_of_mem (Text.mem_trim inside notBlank)

end ClassOutline.ClassHead
