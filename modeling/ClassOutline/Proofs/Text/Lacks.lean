import ClassOutline.Text.Basic
/-!
# Texts without a word

A text lacks a word if the word occurs nowhere in it.  A character that the word does not contain
cuts a text into two parts, and the text lacks the word exactly if both parts do.  So a text put
together from names with punctuation between them lacks every word that the names lack.

The operations that look for a word find nothing in a text that lacks it.
-/

namespace ClassOutline.Text

/-- The word occurs nowhere in the text. -/
def Lacks (text word : Text) : Prop :=
  ¬ word <:+: text

theorem lacks_nil
    {word : Text}
    (notEmpty : word ≠ []) :
    Lacks [] word := by
  simpa [Lacks] using notEmpty

theorem Lacks.of_isInfix
    {text part word : Text}
    (lacks : Lacks text word)
    (isPart : part <:+: text) :
    Lacks part word :=
  fun occurs => lacks (occurs.trans isPart)

theorem Lacks.isPrefixOf_eq_false
    {text word : Text}
    (lacks : Lacks text word) :
    word.isPrefixOf text = false := by
  rw [← Bool.not_eq_true]
  intro begins
  exact lacks (List.isPrefixOf_iff_prefix.mp begins).isInfix

/-! ## Cutting at a character that is not in the word -/

theorem isPrefix_of_isPrefix_append_cons
    {word left right : Text}
    {separator : Char}
    (foreign : separator ∉ word)
    (begins : word <+: left ++ separator :: right) :
    word <+: left := by
  induction left generalizing word with
  | nil =>
    cases word with
    | nil => exact List.nil_prefix
    | cons first rest =>
      have equal : first = separator := (List.cons_prefix_cons.mp begins).1
      exact absurd (equal ▸ List.mem_cons_self) foreign
  | cons current left hypothesis =>
    cases word with
    | nil => exact List.nil_prefix
    | cons first rest =>
      obtain ⟨rfl, beginsRest⟩ := List.cons_prefix_cons.mp begins
      have foreignRest : separator ∉ rest := fun member =>
        foreign (List.mem_cons_of_mem _ member)
      exact List.cons_prefix_cons.mpr ⟨rfl, hypothesis foreignRest beginsRest⟩

theorem isPrefixOf_append_cons
    {word : Text}
    (left right : Text)
    {separator : Char}
    (foreign : separator ∉ word) :
    word.isPrefixOf (left ++ separator :: right) = word.isPrefixOf left := by
  rw [Bool.eq_iff_iff, List.isPrefixOf_iff_prefix, List.isPrefixOf_iff_prefix]
  exact
    ⟨isPrefix_of_isPrefix_append_cons foreign, fun begins =>
      begins.trans (List.prefix_append _ _)⟩

theorem head?_append_cons
    (left right : Text)
    (separator : Char) :
    (left ++ separator :: right).head? = (left ++ [separator]).head? := by
  cases left <;> rfl

/-- A word does not reach across a character that it does not contain. -/
theorem lacks_append_cons
    {word : Text}
    (left right : Text)
    {separator : Char}
    (foreign : separator ∉ word) :
    Lacks (left ++ separator :: right) word ↔ Lacks left word ∧ Lacks right word := by
  constructor
  · intro lacks
    exact
      ⟨lacks.of_isInfix List.infix_append_left,
        lacks.of_isInfix ⟨left ++ [separator], [], by simp⟩⟩
  · rintro ⟨lacksLeft, lacksRight⟩ occurs
    induction left with
    | nil =>
      rcases List.infix_cons_iff.mp occurs with begins | later
      · have empty : word <+: [] :=
          isPrefix_of_isPrefix_append_cons foreign begins
        exact lacksLeft empty.isInfix
      · exact lacksRight later
    | cons current left hypothesis =>
      rcases List.infix_cons_iff.mp occurs with begins | later
      · have inLeft : word <+: current :: left :=
          isPrefix_of_isPrefix_append_cons foreign begins
        exact lacksLeft inLeft.isInfix
      · exact hypothesis (lacksLeft.of_isInfix (List.suffix_cons _ _).isInfix) later

theorem lacks_cons
    {word : Text}
    {separator : Char}
    (text : Text)
    (notEmpty : word ≠ [])
    (foreign : separator ∉ word) :
    Lacks (separator :: text) word ↔ Lacks text word := by
  rw [← List.nil_append (separator :: text), lacks_append_cons [] text foreign]
  exact and_iff_right (lacks_nil notEmpty)

theorem lacks_append_of_foreign
    {left right word : Text}
    (foreign : ∀ character ∈ left, character ∉ word)
    (lacks : Lacks right word) :
    Lacks (left ++ right) word := by
  induction left with
  | nil => exact lacks
  | cons first rest hypothesis =>
    have notEmpty : word ≠ [] := fun empty => lacks (empty ▸ List.nil_infix)
    rw [List.cons_append, lacks_cons _ notEmpty (foreign first List.mem_cons_self)]
    exact hypothesis fun character member => foreign character (List.mem_cons_of_mem _ member)

theorem lacks_of_foreign
    {text word : Text}
    (notEmpty : word ≠ [])
    (foreign : ∀ character ∈ text, character ∉ word) :
    Lacks text word := by
  simpa using lacks_append_of_foreign foreign (lacks_nil notEmpty)

/-- Two texts with foreign characters between them lack a word if both do. -/
theorem Lacks.append_append
    {left separator right word : Text}
    (lacksLeft : Lacks left word)
    (lacksRight : Lacks right word)
    (notEmpty : separator ≠ [])
    (foreign : ∀ character ∈ separator, character ∉ word) :
    Lacks (left ++ separator ++ right) word := by
  obtain ⟨first, rest, rfl⟩ := List.exists_cons_of_ne_nil notEmpty
  rw [List.append_assoc, List.cons_append,
    lacks_append_cons _ _ (foreign first List.mem_cons_self)]
  exact
    ⟨lacksLeft, lacks_append_of_foreign
      (fun character member => foreign character (List.mem_cons_of_mem _ member)) lacksRight⟩

theorem mem_intercalate
    {separator : Text}
    {texts : List Text}
    {character : Char}
    (member : character ∈ separator.intercalate texts) :
    character ∈ separator ∨ ∃ text ∈ texts, character ∈ text := by
  induction texts with
  | nil => contradiction
  | cons text texts hypothesis =>
    cases texts with
    | nil =>
      rw [List.intercalate_singleton] at member
      exact .inr ⟨text, List.mem_cons_self, member⟩
    | cons next texts =>
      rw [List.intercalate_cons_cons, List.append_assoc] at member
      rcases List.mem_append.mp member with inText | later
      · exact .inr ⟨text, List.mem_cons_self, inText⟩
      · rcases List.mem_append.mp later with inSeparator | inRest
        · exact .inl inSeparator
        · refine (hypothesis inRest).imp_right ?_
          rintro ⟨other, isOther, inside⟩
          exact ⟨other, List.mem_cons_of_mem _ isOther, inside⟩

/-- Texts joined by a separator of foreign characters lack a word if all of them do. -/
theorem lacks_intercalate
    {separator word : Text}
    {texts : List Text}
    (wordNotEmpty : word ≠ [])
    (notEmpty : separator ≠ [])
    (foreign : ∀ character ∈ separator, character ∉ word)
    (lacks : ∀ text ∈ texts, Lacks text word) :
    Lacks (separator.intercalate texts) word := by
  induction texts with
  | nil => exact lacks_nil wordNotEmpty
  | cons text texts hypothesis =>
    have lacksText : Lacks text word := lacks text List.mem_cons_self
    have lacksRest := hypothesis fun other member => lacks other (List.mem_cons_of_mem _ member)
    cases texts with
    | nil => simpa [List.intercalate] using lacksText
    | cons next texts =>
      rw [List.intercalate_cons_cons]
      exact lacksText.append_append lacksRest notEmpty foreign

theorem lacks_flatMap
    {ending word : Text}
    {texts : List Text}
    (wordNotEmpty : word ≠ [])
    (notEmpty : ending ≠ [])
    (foreign : ∀ character ∈ ending, character ∉ word)
    (lacks : ∀ text ∈ texts, Lacks text word) :
    Lacks (texts.flatMap (· ++ ending)) word := by
  induction texts with
  | nil => exact lacks_nil wordNotEmpty
  | cons text texts hypothesis =>
    have lacksRest := hypothesis fun other member => lacks other (List.mem_cons_of_mem _ member)
    rw [List.flatMap_cons]
    exact (lacks text List.mem_cons_self).append_append lacksRest notEmpty foreign

/-! ## Looking for a word -/

theorem cutAt?_eq_none
    {text word : Text}
    (lacks : Lacks text word) :
    cutAt? text word = none := by
  cases cut : cutAt? text word with
  | none => rfl
  | some parts =>
    obtain ⟨before, after⟩ := parts
    have occurs := eq_append_of_cutAt? cut
    exact absurd ⟨before, after, occurs.symm⟩ lacks

theorem cutAt?_append
    {word : Text}
    (notEmpty : word ≠ [])
    (rest : Text) :
    cutAt? (word ++ rest) word = some ([], rest) := by
  obtain ⟨first, tail, rfl⟩ := List.exists_cons_of_ne_nil notEmpty
  have begins : (first :: tail).isPrefixOf (first :: (tail ++ rest)) = true :=
    List.isPrefixOf_iff_prefix.mpr (List.prefix_append (first :: tail) rest)
  rw [List.cons_append, cutAt?, if_pos begins, ← List.cons_append, List.drop_left]

theorem lacks_of_cutAt?_eq_none
    {text word : Text}
    (cut : cutAt? text word = none) :
    Lacks text word := by
  induction text with
  | nil =>
    by_cases noWord : word = []
    · simp [cutAt?, noWord] at cut
    · exact lacks_nil noWord
  | cons first rest hypothesis =>
    rw [cutAt?] at cut
    split at cut
    · contradiction
    · next noPrefix =>
      intro occurs
      rcases List.infix_cons_iff.mp occurs with begins | later
      · exact noPrefix (List.isPrefixOf_iff_prefix.mpr begins)
      · exact hypothesis (Option.map_eq_none_iff.mp cut) later

theorem mentions_eq_false_iff
    {text word : Text} :
    mentions text word = false ↔ Lacks text word := by
  rw [mentions, Option.isSome_eq_false_iff, Option.isNone_iff_eq_none]
  exact ⟨lacks_of_cutAt?_eq_none, cutAt?_eq_none⟩

instance (text word : Text) : Decidable (Lacks text word) :=
  decidable_of_iff _ mentions_eq_false_iff

theorem cutAtLast?_eq_none
    {text word : Text}
    (lacks : Lacks text word) :
    cutAtLast? text word = none := by
  cases cut : cutAtLast? text word with
  | none => rfl
  | some parts =>
    obtain ⟨before, after⟩ := parts
    have occurs := eq_append_of_cutAtLast? cut
    exact absurd ⟨before, after, occurs.symm⟩ lacks

theorem lacks_of_cutAtLast?_eq_none
    {text word : Text}
    (cut : cutAtLast? text word = none) :
    Lacks text word := by
  induction text with
  | nil =>
    by_cases noWord : word = []
    · simp [cutAtLast?, noWord] at cut
    · exact lacks_nil noWord
  | cons first rest hypothesis =>
    rw [cutAtLast?] at cut
    split at cut
    · contradiction
    · next cutRest =>
      intro occurs
      rcases List.infix_cons_iff.mp occurs with begins | later
      · rw [if_pos (List.isPrefixOf_iff_prefix.mpr begins)] at cut
        contradiction
      · exact hypothesis cutRest later

/-- Behind its start, the last occurrence of a word is followed by no other one. -/
theorem lacks_of_cutAtLast?_eq_some
    {text before after rest : Text}
    {first : Char}
    (cut : cutAtLast? text (first :: rest) = some (before, after)) :
    Lacks (rest ++ after) (first :: rest) := by
  induction text generalizing before after with
  | nil => simp [cutAtLast?] at cut
  | cons current text hypothesis =>
    rw [cutAtLast?] at cut
    split at cut
    · next cutRest =>
      obtain ⟨rfl, rfl⟩ := Prod.mk.inj (Option.some.inj cut)
      exact hypothesis cutRest
    · next noneBehind =>
      split at cut
      · next begins =>
        obtain ⟨rfl, rfl⟩ := Prod.mk.inj (Option.some.inj cut)
        have behind : rest ++ (current :: text).drop (first :: rest).length = text :=
          (List.cons.inj (List.prefix_iff_eq_append.mp (List.isPrefixOf_iff_prefix.mp begins))).2
        rw [behind]
        exact lacks_of_cutAtLast?_eq_none noneBehind
      · contradiction

/-- If a word stands in the first of two texts alone, the second lies behind its last occurrence. -/
theorem exists_of_cutAtLast?_append_cons
    {word left right before after : Text}
    {separator : Char}
    (foreign : separator ∉ word)
    (lacks : Lacks right word)
    (cut : cutAtLast? (left ++ separator :: right) word = some (before, after)) :
    ∃ between, left = before ++ word ++ between ∧ after = between ++ separator :: right := by
  induction left generalizing before after with
  | nil =>
    have wordNotEmpty : word ≠ [] := fun empty => lacks (empty ▸ List.nil_infix)
    have lacksBoth : Lacks (separator :: right) word := (lacks_cons _ wordNotEmpty foreign).mpr lacks
    rw [List.nil_append, cutAtLast?_eq_none lacksBoth] at cut
    contradiction
  | cons first left hypothesis =>
    rw [List.cons_append, cutAtLast?] at cut
    split at cut
    · next found =>
      obtain ⟨rfl, rfl⟩ := Prod.mk.inj (Option.some.inj cut)
      obtain ⟨between, rfl, rfl⟩ := hypothesis found
      exact ⟨between, rfl, rfl⟩
    · split at cut
      · next begins =>
        obtain ⟨rfl, rfl⟩ := Prod.mk.inj (Option.some.inj cut)
        rw [List.isPrefixOf_iff_prefix, ← List.cons_append] at begins
        obtain ⟨between, shape⟩ := isPrefix_of_isPrefix_append_cons foreign begins
        refine ⟨between, shape.symm, ?_⟩
        rw [← List.cons_append, ← shape]
        simp
      · contradiction

/-- The last occurrence of a word in a text is the last one in front of a given beginning too. -/
theorem cutAtLast?_append_of_some
    {text word before after : Text}
    (front : Text)
    (cut : cutAtLast? text word = some (before, after)) :
    cutAtLast? (front ++ text) word = some (front ++ before, after) := by
  induction front with
  | nil => exact cut
  | cons first front hypothesis => simp [cutAtLast?, hypothesis]

/-- An occurrence of a word is the last one if the word does not begin again behind its start. -/
theorem cutAtLast?_append
    {first : Char}
    {rest : Text}
    (before after : Text)
    (lacks : Lacks (rest ++ after) (first :: rest)) :
    cutAtLast? (before ++ (first :: rest) ++ after) (first :: rest) = some (before, after) := by
  have here : cutAtLast? ((first :: rest) ++ after) (first :: rest) = some ([], after) := by
    have begins : (first :: rest).isPrefixOf (first :: (rest ++ after)) = true :=
      List.isPrefixOf_iff_prefix.mpr (List.prefix_append (first :: rest) after)
    rw [List.cons_append, cutAtLast?, cutAtLast?_eq_none lacks]
    simp [begins]
  simpa using cutAtLast?_append_of_some before here

end ClassOutline.Text
