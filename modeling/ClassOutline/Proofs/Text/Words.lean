import ClassOutline.Text.Blank
/-!
# Words and trimmed texts

A blank between two texts separates their words, and a text without blanks is a word of its own.
So words joined by single spaces are found again.

A text is solid if it neither begins nor ends with a blank.  Trimming finds a solid text again
among blanks.
-/

namespace ClassOutline.Text

/-! ## Parts of a text -/

theorem splitWhere_append_cons
    {separates : Char → Bool}
    {separator : Char}
    (left right : Text)
    (isSeparator : separates separator = true) :
    splitWhere separates (left ++ separator :: right) =
      splitWhere separates left ++ splitWhere separates right := by
  induction left with
  | nil => simp [splitWhere, isSeparator]
  | cons first rest hypothesis =>
    obtain ⟨part, parts, split⟩ :=
      List.exists_cons_of_ne_nil (splitWhere_ne_nil separates rest)
    by_cases first_separates : separates first = true
    · simp [splitWhere, first_separates, hypothesis]
    · simp [splitWhere, first_separates, hypothesis, split, consToFirst]

theorem splitWhere_eq_singleton
    {separates : Char → Bool}
    {text : Text}
    (whole : ∀ character ∈ text, separates character = false) :
    splitWhere separates text = [text] := by
  induction text with
  | nil => rfl
  | cons first rest hypothesis =>
    have splitRest := hypothesis fun character member =>
      whole character (List.mem_cons_of_mem _ member)
    simp [splitWhere, whole first List.mem_cons_self, splitRest, consToFirst]

theorem splitWhere_append
    {separates : Char → Bool}
    {left right part : Text}
    {parts : List Text}
    (whole : ∀ character ∈ left, separates character = false)
    (split : splitWhere separates right = part :: parts) :
    splitWhere separates (left ++ right) = (left ++ part) :: parts := by
  induction left with
  | nil => exact split
  | cons first left hypothesis =>
    have later := hypothesis fun character member => whole character (List.mem_cons_of_mem _ member)
    simp [splitWhere, whole first List.mem_cons_self, later, consToFirst]

theorem isPrefix_of_splitWhere
    {separates : Char → Bool}
    {text part : Text}
    {parts : List Text}
    (split : splitWhere separates text = part :: parts) :
    part <+: text := by
  induction text generalizing part parts with
  | nil =>
    obtain ⟨rfl, -⟩ := List.cons.inj split
    exact List.nil_prefix
  | cons first rest hypothesis =>
    rw [splitWhere] at split
    split at split
    · obtain ⟨rfl, -⟩ := List.cons.inj split
      exact List.nil_prefix
    · obtain ⟨next, later, splitRest⟩ :=
        List.exists_cons_of_ne_nil (splitWhere_ne_nil separates rest)
      rw [splitRest, consToFirst] at split
      obtain ⟨rfl, -⟩ := List.cons.inj split
      exact List.cons_prefix_cons.mpr ⟨rfl, hypothesis splitRest⟩

theorem infix_of_mem_splitWhere
    {separates : Char → Bool}
    {text part : Text}
    (member : part ∈ splitWhere separates text) :
    part <:+: text := by
  induction text generalizing part with
  | nil =>
    obtain rfl : part = [] := by simpa [splitWhere] using member
    exact List.nil_infix
  | cons first rest hypothesis =>
    rw [splitWhere] at member
    split at member
    · rcases List.mem_cons.mp member with rfl | later
      · exact List.nil_infix
      · exact List.infix_cons (hypothesis later)
    · obtain ⟨next, parts, split⟩ :=
        List.exists_cons_of_ne_nil (splitWhere_ne_nil separates rest)
      rw [split, consToFirst] at member
      rcases List.mem_cons.mp member with rfl | later
      · have begins : next <+: rest := isPrefix_of_splitWhere split
        exact (List.cons_prefix_cons.mpr ⟨rfl, begins⟩).isInfix
      · exact List.infix_cons (hypothesis (split ▸ List.mem_cons_of_mem _ later))

/-- A character of a text separates parts, or it stands in one of them. -/
theorem mem_splitWhere
    {separates : Char → Bool}
    {text : Text}
    {character : Char}
    (member : character ∈ text) :
    separates character = true ∨ ∃ part ∈ splitWhere separates text, character ∈ part := by
  induction text with
  | nil => contradiction
  | cons first rest hypothesis =>
    rw [splitWhere]
    by_cases isSeparator : separates first = true
    · rw [if_pos isSeparator]
      rcases List.mem_cons.mp member with rfl | later
      · exact .inl isSeparator
      · obtain separator | ⟨part, isPart, inside⟩ := hypothesis later
        · exact .inl separator
        · exact .inr ⟨part, List.mem_cons_of_mem _ isPart, inside⟩
    · obtain ⟨next, parts, split⟩ :=
        List.exists_cons_of_ne_nil (splitWhere_ne_nil separates rest)
      rw [if_neg isSeparator, split, consToFirst]
      rcases List.mem_cons.mp member with rfl | later
      · exact .inr ⟨_, List.mem_cons_self, List.mem_cons_self⟩
      · obtain separator | ⟨part, isPart, inside⟩ := hypothesis later
        · exact .inl separator
        · rw [split] at isPart
          rcases List.mem_cons.mp isPart with rfl | isLater
          · exact .inr ⟨_, List.mem_cons_self, List.mem_cons_of_mem _ inside⟩
          · exact .inr ⟨part, List.mem_cons_of_mem _ isLater, inside⟩

/-- A character of a text put together from two parts stands in one of them. -/
theorem of_append_eq_append_cons
    {left right front behind : Text}
    {mark : Char}
    (shape : left ++ right = front ++ mark :: behind) :
    (∃ inner, left = front ++ mark :: inner) ∨
      ∃ outer, front = left ++ outer ∧ right = outer ++ mark :: behind := by
  rcases List.append_eq_append_iff.mp shape with outside | ⟨inner, leftShape, rest⟩
  · exact .inr outside
  · cases inner with
    | nil =>
      rw [List.append_nil] at leftShape
      exact .inr ⟨[], by rw [leftShape, List.append_nil], rest.symm⟩
    | cons first inner =>
      obtain ⟨rfl, -⟩ := List.cons.inj rest
      exact .inl ⟨inner, leftShape⟩

/-- What holds at every place of a character is decided along the text. -/
instance decidableForallCut
    (mark : Char)
    (property : Text → Text → Prop)
    [∀ before after, Decidable (property before after)] :
    (text : Text) →
      Decidable (∀ before after, text = before ++ mark :: after → property before after)
  | [] => isTrue fun before after shape => by simp at shape
  | first :: rest =>
    have := decidableForallCut mark (fun before after => property (first :: before) after) rest
    decidable_of_iff
      ((first = mark → property [] rest) ∧
        ∀ before after, rest = before ++ mark :: after → property (first :: before) after) <| by
      constructor
      · rintro ⟨here, later⟩ before after shape
        cases before with
        | nil =>
          obtain ⟨isMark, rfl⟩ := List.cons.inj shape
          exact here isMark
        | cons other before =>
          obtain ⟨rfl, shapeLater⟩ := List.cons.inj shape
          exact later before after shapeLater
      · intro all
        exact
          ⟨fun isMark => all [] rest (by rw [isMark]; rfl),
            fun before after shape => all (first :: before) after (by rw [shape]; rfl)⟩

theorem takeWhile_append_of_not_mem
    {mark : Char}
    {front : Text}
    (notMember : mark ∉ front)
    (rest : Text) :
    (front ++ rest).takeWhile (· ≠ mark) = front ++ rest.takeWhile (· ≠ mark) :=
  List.takeWhile_append_of_pos fun _ inFront =>
    decide_eq_true fun same => notMember (same ▸ inFront)

/-- A text is read up to the first occurrence of a character. -/
theorem takeWhile_append_cons
    {mark : Char}
    {left : Text}
    (notMember : mark ∉ left)
    (right : Text) :
    (left ++ mark :: right).takeWhile (· ≠ mark) = left := by
  rw [takeWhile_append_of_not_mem notMember, List.takeWhile_cons_of_neg (by simp), List.append_nil]

theorem dropWhile_append_cons
    {mark : Char}
    {left : Text}
    (notMember : mark ∉ left)
    (right : Text) :
    (left ++ mark :: right).dropWhile (· ≠ mark) = mark :: right := by
  have before : ∀ character ∈ left, decide (character ≠ mark) = true :=
    fun character member => decide_eq_true fun equal => notMember (equal ▸ member)
  rw [List.dropWhile_append_of_pos before, List.dropWhile_cons_of_neg (by simp)]

/-- Texts that are the same are the same up to the first occurrence of a character. -/
theorem append_cons_inj
    {mark : Char}
    {left right behind behind' : Text}
    (notInLeft : mark ∉ left)
    (notInRight : mark ∉ right)
    (same : left ++ mark :: behind = right ++ mark :: behind') :
    left = right := by
  rw [← takeWhile_append_cons notInLeft behind, same, takeWhile_append_cons notInRight]

/-! ## Words -/

/-- A blank separates the words of the texts around it. -/
theorem words_append_cons
    {blank : Char}
    (left right : Text)
    (isBlankBetween : isBlank blank = true) :
    words (left ++ blank :: right) = words left ++ words right := by
  rw [words, splitWhere_append_cons left right isBlankBetween, List.filter_append]
  rfl

/-- Blanks behind a text add no words. -/
theorem words_append_blanks
    (text : Text)
    {blanks : Text}
    (blank : ∀ character ∈ blanks, isBlank character = true) :
    words (text ++ blanks) = words text := by
  induction blanks generalizing text with
  | nil => rw [List.append_nil]
  | cons first rest hypothesis =>
    have later := hypothesis (text ++ [first]) fun character member =>
      blank character (List.mem_cons_of_mem _ member)
    have oneBlank : words (text ++ [first]) = words text := by
      rw [words_append_cons text [] (blank first List.mem_cons_self)]
      exact List.append_nil _
    rw [List.append_cons, later, oneBlank]

theorem words_eq_singleton
    {text : Text}
    (notEmpty : text ≠ [])
    (noBlank : ∀ character ∈ text, isBlank character = false) :
    words text = [text] := by
  simp [words, splitWhere_eq_singleton noBlank, notEmpty]

theorem head?_words_append_cons
    {word : Text}
    {blank : Char}
    (notEmpty : word ≠ [])
    (noBlank : ∀ character ∈ word, isBlank character = false)
    (isBlankBehind : isBlank blank = true)
    (rest : Text) :
    (word ++ blank :: rest).words.head? = some word := by
  rw [words_append_cons word rest isBlankBehind, words_eq_singleton notEmpty noBlank,
    List.singleton_append, List.head?_cons]

/-- A text begins with its first word, unless it begins with a blank. -/
theorem isPrefix_of_head?_words
    {first : Char}
    {rest word : Text}
    (isFirst : (words (first :: rest)).head? = some word)
    (notBlank : isBlank first = false) :
    word <+: first :: rest := by
  obtain ⟨part, parts, split⟩ := List.exists_cons_of_ne_nil
    (splitWhere_ne_nil isBlank (first :: rest))
  have notEmpty : part ≠ [] := by
    rintro rfl
    rw [splitWhere, if_neg (by simp [notBlank])] at split
    cases later : splitWhere isBlank rest <;> simp [consToFirst, later] at split
  rw [words, split, List.filter_cons_of_pos (by simpa using notEmpty), List.head?_cons] at isFirst
  obtain rfl := Option.some.inj isFirst
  exact isPrefix_of_splitWhere split

/-- A text without blanks belongs to the first word. -/
theorem exists_words_append
    {left : Text}
    (notEmpty : left ≠ [])
    (noBlank : ∀ character ∈ left, isBlank character = false)
    (right : Text) :
    ∃ added later, words (left ++ right) = (left ++ added) :: later := by
  obtain ⟨part, parts, split⟩ := List.exists_cons_of_ne_nil (splitWhere_ne_nil isBlank right)
  refine ⟨part, parts.filter (· ≠ []), ?_⟩
  rw [words, splitWhere_append noBlank split, List.filter_cons_of_pos (by simp [notEmpty])]

theorem infix_of_mem_words
    {text word : Text}
    (member : word ∈ words text) :
    word <:+: text :=
  infix_of_mem_splitWhere (List.mem_filter.mp member).1

/-- Texts that are words of their own. -/
def AreWords (texts : List Text) : Prop :=
  ∀ text ∈ texts, text ≠ [] ∧ ∀ character ∈ text, isBlank character = false

theorem AreWords.append
    {left right : List Text}
    (areWordsLeft : AreWords left)
    (areWordsRight : AreWords right) :
    AreWords (left ++ right) :=
  fun text member =>
    (List.mem_append.mp member).elim (areWordsLeft text) (areWordsRight text)

theorem unwords_cons_cons
    (first second : Text)
    (texts : List Text) :
    unwords (first :: second :: texts) = first ++ ' ' :: unwords (second :: texts) := by
  simp [unwords, List.intercalate]

theorem unwords_append
    {left right : List Text}
    (notEmptyLeft : left ≠ [])
    (notEmptyRight : right ≠ []) :
    unwords (left ++ right) = unwords left ++ ' ' :: unwords right := by
  induction left with
  | nil => contradiction
  | cons first rest hypothesis =>
    cases rest with
    | nil =>
      obtain ⟨next, later, rfl⟩ := List.exists_cons_of_ne_nil notEmptyRight
      rw [List.singleton_append, unwords_cons_cons]
      simp [unwords, List.intercalate]
    | cons second rest =>
      rw [List.cons_append, List.cons_append, unwords_cons_cons, unwords_cons_cons,
        ← List.cons_append, hypothesis (by simp)]
      simp

/-- Words joined by single spaces are found again. -/
theorem words_unwords
    {texts : List Text}
    (areWords : AreWords texts) :
    words (unwords texts) = texts := by
  induction texts with
  | nil => rfl
  | cons first rest hypothesis =>
    obtain ⟨notEmpty, noBlank⟩ := areWords first List.mem_cons_self
    have wordsRest := hypothesis fun text member =>
      areWords text (List.mem_cons_of_mem _ member)
    cases rest with
    | nil => simpa [unwords, List.intercalate] using words_eq_singleton notEmpty noBlank
    | cons second rest =>
      rw [unwords_cons_cons, words_append_cons _ _ (by decide), wordsRest,
        words_eq_singleton notEmpty noBlank]
      rfl

theorem splitWhere_unwords
    {separates : Char → Bool}
    {texts : List Text}
    (notEmpty : texts ≠ [])
    (atBlank : separates ' ' = true)
    (whole : ∀ text ∈ texts, ∀ character ∈ text, separates character = false) :
    splitWhere separates (unwords texts) = texts := by
  induction texts with
  | nil => contradiction
  | cons first rest hypothesis =>
    have splitFirst := splitWhere_eq_singleton (whole first List.mem_cons_self)
    cases rest with
    | nil => simpa [unwords] using splitFirst
    | cons second rest =>
      have splitRest := hypothesis (by simp) fun text member =>
        whole text (List.mem_cons_of_mem _ member)
      rw [unwords_cons_cons, splitWhere_append_cons _ _ atBlank, splitFirst, splitRest]
      rfl

/-- Without its spaces, a text of words is the words put together. -/
theorem filter_unwords
    {texts : List Text}
    (noSpace : ∀ text ∈ texts, ' ' ∉ text) :
    (unwords texts).filter (· ≠ ' ') = texts.flatten := by
  have kept {text : Text} (whole : ' ' ∉ text) : text.filter (· ≠ ' ') = text :=
    List.filter_eq_self.mpr fun character member =>
      decide_eq_true fun isSpace => whole (isSpace ▸ member)
  induction texts with
  | nil => rfl
  | cons first rest hypothesis =>
    have keptFirst := kept (noSpace first List.mem_cons_self)
    have later := hypothesis fun text member => noSpace text (List.mem_cons_of_mem _ member)
    cases rest with
    | nil => simpa [unwords] using keptFirst
    | cons second rest =>
      rw [unwords_cons_cons, List.filter_append, keptFirst, List.filter_cons_of_neg (by simp),
        later]
      rfl

/-- Texts with a separator between them and one behind them have one behind each of them. -/
theorem intercalate_append
    {texts : List Text}
    (notEmpty : texts ≠ [])
    (separator : Text) :
    separator.intercalate texts ++ separator = texts.flatMap (· ++ separator) := by
  induction texts with
  | nil => contradiction
  | cons first rest hypothesis =>
    cases rest with
    | nil => simp
    | cons second rest =>
      rw [List.intercalate_cons_cons, List.append_assoc, hypothesis (by simp)]
      rfl

/-- Texts with a separator between them and one in front have one in front of each of them. -/
theorem append_intercalate
    {texts : List Text}
    (notEmpty : texts ≠ [])
    (separator : Text) :
    separator ++ separator.intercalate texts = texts.flatMap (separator ++ ·) := by
  induction texts with
  | nil => contradiction
  | cons first rest hypothesis =>
    cases rest with
    | nil => simp
    | cons second rest =>
      rw [List.intercalate_cons_cons, List.append_assoc, hypothesis (by simp), ← List.append_assoc]
      rfl

/-! ## Evenly spaced texts -/

/-- The text is made of words with single spaces between them. -/
def Spaced (text : Text) : Prop :=
  ∃ texts, texts ≠ [] ∧ AreWords texts ∧ unwords texts = text

theorem Spaced.unwords_words
    {text : Text}
    (spaced : Spaced text) :
    unwords (words text) = text := by
  obtain ⟨texts, -, areWords, rfl⟩ := spaced
  rw [words_unwords areWords]

theorem spaced_of_noBlank
    {text : Text}
    (notEmpty : text ≠ [])
    (noBlank : ∀ character ∈ text, isBlank character = false) :
    Spaced text := by
  refine ⟨[text], by simp, ?_, by simp [unwords, List.intercalate]⟩
  intro other member
  obtain rfl := List.mem_singleton.mp member
  exact ⟨notEmpty, noBlank⟩

/-- A text without blanks in front belongs to the first word. -/
theorem Spaced.append_left
    {text left : Text}
    (spaced : Spaced text)
    (noBlank : ∀ character ∈ left, isBlank character = false) :
    Spaced (left ++ text) := by
  obtain ⟨texts, notEmpty, areWords, rfl⟩ := spaced
  obtain ⟨first, rest, rfl⟩ := List.exists_cons_of_ne_nil notEmpty
  refine ⟨(left ++ first) :: rest, by simp, ?_, ?_⟩
  · intro other member
    rcases List.mem_cons.mp member with rfl | later
    · obtain ⟨firstNotEmpty, firstNoBlank⟩ := areWords first List.mem_cons_self
      refine ⟨by simp [firstNotEmpty], fun character inText => ?_⟩
      exact (List.mem_append.mp inText).elim (noBlank character) (firstNoBlank character)
    · exact areWords other (List.mem_cons_of_mem _ later)
  · cases rest <;> simp [unwords, List.intercalate]

theorem Spaced.begins
    {text : Text}
    (spaced : Spaced text) :
    ∃ first ∈ text.head?, isBlank first = false := by
  obtain ⟨texts, notEmpty, areWords, rfl⟩ := spaced
  obtain ⟨word, rest, rfl⟩ := List.exists_cons_of_ne_nil notEmpty
  obtain ⟨wordNotEmpty, noBlank⟩ := areWords word List.mem_cons_self
  obtain ⟨first, letters, rfl⟩ := List.exists_cons_of_ne_nil wordNotEmpty
  refine ⟨first, ?_, noBlank first List.mem_cons_self⟩
  cases rest <;> simp [unwords]

theorem Spaced.append_append
    {left right : Text}
    (spacedLeft : Spaced left)
    (spacedRight : Spaced right) :
    Spaced (left ++ ' ' :: right) := by
  obtain ⟨leftTexts, leftNotEmpty, leftWords, rfl⟩ := spacedLeft
  obtain ⟨rightTexts, rightNotEmpty, rightWords, rfl⟩ := spacedRight
  exact
    ⟨leftTexts ++ rightTexts, by simp [leftNotEmpty], leftWords.append rightWords,
      unwords_append leftNotEmpty rightNotEmpty⟩

/-- A text without blanks behind belongs to the last word. -/
theorem Spaced.append_right
    {text right : Text}
    (spaced : Spaced text)
    (noBlank : ∀ character ∈ right, isBlank character = false) :
    Spaced (text ++ right) := by
  obtain ⟨texts, notEmpty, areWords, rfl⟩ := spaced
  induction texts with
  | nil => contradiction
  | cons first rest hypothesis =>
    obtain ⟨firstNotEmpty, firstNoBlank⟩ := areWords first List.mem_cons_self
    cases rest with
    | nil =>
      have joined : unwords [first] ++ right = first ++ right := by
        simp [unwords, List.intercalate]
      rw [joined]
      refine spaced_of_noBlank (by simp [firstNotEmpty]) fun character inText => ?_
      exact (List.mem_append.mp inText).elim (firstNoBlank character) (noBlank character)
    | cons second rest =>
      have spacedRest := hypothesis (by simp) fun text member =>
        areWords text (List.mem_cons_of_mem _ member)
      have parts : unwords (first :: second :: rest) ++ right =
          first ++ ' ' :: (unwords (second :: rest) ++ right) := by
        rw [unwords_cons_cons, List.append_assoc, List.cons_append]
      rw [parts]
      exact (spaced_of_noBlank firstNotEmpty firstNoBlank).append_append spacedRest

theorem spaced_intercalate
    {texts : List Text}
    (notEmpty : texts ≠ [])
    (spaced : ∀ text ∈ texts, Spaced text) :
    Spaced ([',', ' '].intercalate texts) := by
  induction texts with
  | nil => contradiction
  | cons text texts hypothesis =>
    have spacedText := spaced text List.mem_cons_self
    cases texts with
    | nil => rwa [List.intercalate_singleton]
    | cons next texts =>
      have spacedRest := hypothesis (by simp) fun other member =>
        spaced other (List.mem_cons_of_mem _ member)
      have shape : [',', ' '].intercalate (text :: next :: texts) =
          (text ++ [',']) ++ ' ' :: [',', ' '].intercalate (next :: texts) := by
        rw [List.intercalate_cons_cons]
        simp
      have commaNotBlank : ∀ character ∈ [','], isBlank character = false := by decide
      rw [shape]
      exact (spacedText.append_right commaNotBlank).append_append spacedRest

/-- Words with a blank behind each stand in front of the words of a text. -/
theorem words_flatMap_append
    {texts : List Text}
    (areWords : AreWords texts)
    (text : Text) :
    words (texts.flatMap (· ++ [' ']) ++ text) = texts ++ words text := by
  induction texts with
  | nil => rfl
  | cons first rest hypothesis =>
    obtain ⟨notEmpty, noBlank⟩ := areWords first List.mem_cons_self
    have later := hypothesis fun other member => areWords other (List.mem_cons_of_mem _ member)
    rw [List.flatMap_cons, List.append_assoc, List.append_assoc, List.singleton_append,
      words_append_cons _ _ (by decide), words_eq_singleton notEmpty noBlank, later]
    rfl

theorem spaced_flatMap_append
    {texts : List Text}
    {text : Text}
    (areWords : AreWords texts)
    (spaced : Spaced text) :
    Spaced (texts.flatMap (· ++ [' ']) ++ text) := by
  induction texts with
  | nil => exact spaced
  | cons first rest hypothesis =>
    obtain ⟨notEmpty, noBlank⟩ := areWords first List.mem_cons_self
    have later := hypothesis fun other member => areWords other (List.mem_cons_of_mem _ member)
    rw [List.flatMap_cons, List.append_assoc, List.append_assoc, List.singleton_append]
    exact (spaced_of_noBlank notEmpty noBlank).append_append later

/-! ## Ends -/

/-- A text begins as the first of its parts does. -/
theorem exists_head?_append
    {property : Char → Prop}
    {left : Text}
    (begins : ∃ first ∈ left.head?, property first)
    (right : Text) :
    ∃ first ∈ (left ++ right).head?, property first := by
  obtain ⟨first, isFirst, holds⟩ := begins
  refine ⟨first, ?_, holds⟩
  rw [List.head?_append, Option.mem_def.mp isFirst]
  rfl

/-- A text ends as the last of its parts does. -/
theorem exists_getLast?_append
    {property : Char → Prop}
    {right : Text}
    (ends : ∃ last ∈ right.getLast?, property last)
    (left : Text) :
    ∃ last ∈ (left ++ right).getLast?, property last := by
  obtain ⟨last, isLast, holds⟩ := ends
  refine ⟨last, ?_, holds⟩
  rw [List.getLast?_append, Option.mem_def.mp isLast]
  rfl

/-! ## Trimming -/

/-- The text neither begins nor ends with a blank. -/
def Solid (text : Text) : Prop :=
  (∀ first ∈ text.head?, isBlank first = false) ∧ ∀ last ∈ text.getLast?, isBlank last = false

theorem solid_of_noBlank
    {text : Text}
    (noBlank : ∀ character ∈ text, isBlank character = false) :
    Solid text :=
  ⟨fun first member => noBlank first (List.mem_of_mem_head? member),
    fun last member => noBlank last (List.mem_of_mem_getLast? member)⟩

theorem solid_append_singleton
    {text : Text}
    {last : Char}
    (begins : ∃ first ∈ text.head?, isBlank first = false)
    (notBlank : isBlank last = false) :
    Solid (text ++ [last]) := by
  obtain ⟨first, isFirst, firstNotBlank⟩ := begins
  constructor
  · intro other isOther
    rw [List.head?_append, Option.mem_def.mp isFirst] at isOther
    obtain rfl := Option.some.inj isOther
    exact firstNotBlank
  · intro other isOther
    obtain rfl : last = other := by simpa using isOther
    exact notBlank

/-- What stands between two texts does not matter to the ends. -/
theorem Solid.append_append
    {left right : Text}
    (solidLeft : Solid left)
    (leftNotEmpty : left ≠ [])
    (solidRight : Solid right)
    (rightNotEmpty : right ≠ [])
    (between : Text) :
    Solid (left ++ between ++ right) := by
  obtain ⟨head, rest, rfl⟩ := List.exists_cons_of_ne_nil leftNotEmpty
  obtain ⟨front, tail, rfl⟩ := (List.eq_nil_or_concat right).resolve_left rightNotEmpty
  constructor
  · intro first isFirst
    exact solidLeft.1 first (by simpa using isFirst)
  · intro last isLast
    rw [List.concat_eq_append, ← List.append_assoc, List.getLast?_concat] at isLast
    exact solidRight.2 last (by rwa [List.concat_eq_append, List.getLast?_concat])

/-- Blanks in front of a text are trimmed. -/
theorem trimStart_blank_append
    {blanks : Text}
    (blank : ∀ character ∈ blanks, isBlank character = true)
    (rest : Text) :
    trimStart (blanks ++ rest) = trimStart rest :=
  List.dropWhile_append_of_pos blank

theorem trimStart_append
    {left text : Text}
    (blank : ∀ character ∈ left, isBlank character = true)
    (starts : ∀ first ∈ text.head?, isBlank first = false) :
    trimStart (left ++ text) = text := by
  rw [trimStart_blank_append blank, trimStart]
  cases text with
  | nil => rfl
  | cons first rest => simp [starts first rfl]

theorem trimEnd_append
    {text right : Text}
    (ends : ∀ last ∈ text.getLast?, isBlank last = false)
    (blank : ∀ character ∈ right, isBlank character = true) :
    trimEnd (text ++ right) = text := by
  have reversed : (text ++ right).reverse.dropWhile isBlank = text.reverse := by
    rw [List.reverse_append]
    exact trimStart_append (fun character member => blank character (List.mem_reverse.mp member))
      fun last member => ends last (by rwa [← List.head?_reverse])
  rw [trimEnd, reversed, List.reverse_reverse]

/-- Trimming stops at a character that is not blank. -/
theorem trimStart_append_cons
    {mark : Char}
    (left right : Text)
    (notBlank : isBlank mark = false) :
    trimStart (left ++ mark :: right) = trimStart left ++ mark :: right := by
  have kept : (mark :: right).dropWhile isBlank = mark :: right :=
    List.dropWhile_cons_of_neg (by simp [notBlank])
  rw [trimStart, trimStart, List.dropWhile_append, kept]
  split
  · next empty => rw [List.isEmpty_iff.mp empty, List.nil_append]
  · rfl

theorem trimEnd_append_cons
    {mark : Char}
    (left right : Text)
    (notBlank : isBlank mark = false) :
    trimEnd (left ++ mark :: right) = left ++ mark :: trimEnd right := by
  have reversed : (left ++ mark :: right).reverse = right.reverse ++ mark :: left.reverse := by
    simp
  have trimmed := trimStart_append_cons right.reverse left.reverse notBlank
  rw [trimStart, trimStart] at trimmed
  rw [trimEnd, reversed, trimmed, trimEnd]
  simp

theorem mem_trimStart
    {text : Text}
    {character : Char}
    (member : character ∈ text)
    (notBlank : isBlank character = false) :
    character ∈ trimStart text := by
  induction text with
  | nil => contradiction
  | cons first rest hypothesis =>
    rw [trimStart, List.dropWhile_cons]
    split
    · next blank =>
      rcases List.mem_cons.mp member with rfl | later
      · rw [notBlank] at blank
        contradiction
      · exact hypothesis later
    · exact member

theorem mem_trimEnd
    {text : Text}
    {character : Char}
    (member : character ∈ text)
    (notBlank : isBlank character = false) :
    character ∈ trimEnd text :=
  List.mem_reverse.mpr (mem_trimStart (List.mem_reverse.mpr member) notBlank)

/-- Trimming takes blanks alone. -/
theorem mem_trim
    {text : Text}
    {character : Char}
    (member : character ∈ text)
    (notBlank : isBlank character = false) :
    character ∈ trim text :=
  mem_trimEnd (mem_trimStart member notBlank) notBlank

/-- Trimming finds a solid text among blanks. -/
theorem trim_append_append
    {text : Text}
    (left right : Text)
    (blankLeft : ∀ character ∈ left, isBlank character = true)
    (solid : Solid text)
    (blankRight : ∀ character ∈ right, isBlank character = true) :
    trim (left ++ text ++ right) = text := by
  cases text with
  | nil =>
    have blank : ∀ character ∈ left ++ right, isBlank character = true := fun character member =>
      (List.mem_append.mp member).elim (blankLeft character) (blankRight character)
    have started : trimStart (left ++ right ++ []) = [] :=
      trimStart_append blank (by simp)
    rw [List.append_nil] at started ⊢
    rw [trim, started]
    rfl
  | cons first rest =>
    have started : trimStart (left ++ (first :: rest ++ right)) = first :: rest ++ right :=
      trimStart_append blankLeft (by simpa using solid.1)
    rw [trim, List.append_assoc, started, trimEnd_append solid.2 blankRight]

/-- An evenly spaced text neither begins nor ends with a blank. -/
theorem Spaced.solid
    {text : Text}
    (spaced : Spaced text) :
    Solid text := by
  constructor
  · obtain ⟨first, isFirst, notBlank⟩ := spaced.begins
    intro other isOther
    obtain rfl := Option.some.inj ((Option.mem_def.mp isFirst).symm.trans isOther)
    exact notBlank
  · obtain ⟨texts, -, areWords, rfl⟩ := spaced
    induction texts with
    | nil => simp [unwords]
    | cons word rest hypothesis =>
      cases rest with
      | nil =>
        have alone : unwords [word] = word := List.intercalate_singleton
        intro last isLast
        rw [alone] at isLast
        exact (areWords word List.mem_cons_self).2 last (List.mem_of_mem_getLast? isLast)
      | cons next rest =>
        have later := hypothesis fun other member => areWords other (List.mem_cons_of_mem _ member)
        intro last isLast
        have lastLater : last ∈ (unwords (next :: rest)).getLast? := by
          obtain ⟨nextNotEmpty, -⟩ := areWords next (by simp)
          obtain ⟨letter, letters, rfl⟩ := List.exists_cons_of_ne_nil nextNotEmpty
          have notEmpty : unwords ((letter :: letters) :: rest) ≠ [] := by
            cases rest <;> simp [unwords]
          rw [unwords_cons_cons, List.getLast?_append, List.getLast?_cons] at isLast
          cases shape : (unwords ((letter :: letters) :: rest)).getLast? with
          | none => exact absurd (List.getLast?_eq_none_iff.mp shape) notEmpty
          | some character => simpa [shape] using isLast
        exact later last lastLater

theorem trimStart_isSuffix (text : Text) : text.trimStart <:+ text :=
  List.dropWhile_suffix isBlank

theorem trimEnd_isPrefix (text : Text) : text.trimEnd <+: text := by
  have isSuffix := @List.dropWhile_suffix _ text.reverse isBlank
  have isPrefix := List.reverse_prefix.mpr isSuffix
  rwa [List.reverse_reverse] at isPrefix

theorem trim_isInfix (text : Text) : text.trim <:+: text :=
  (trimEnd_isPrefix _).isInfix.trans (trimStart_isSuffix text).isInfix

/-- Behind a text trimmed at its end, only blanks are missing. -/
theorem exists_trimEnd_append (text : Text) :
    ∃ blanks, (∀ character ∈ blanks, isBlank character = true) ∧ text.trimEnd ++ blanks = text := by
  refine ⟨(text.reverse.takeWhile isBlank).reverse, fun character member => ?_, ?_⟩
  · exact List.all_eq_true.mp List.all_takeWhile character (List.mem_reverse.mp member)
  · rw [trimEnd, ← List.reverse_append, List.takeWhile_append_dropWhile, List.reverse_reverse]

/-- A trimmed text neither begins nor ends with a blank. -/
theorem solid_trim (text : Text) : Solid text.trim := by
  have notBlank {first : Char} {text : Text} (isFirst : first ∈ (text.dropWhile isBlank).head?) :
      isBlank first = false := by
    have dropped := List.head?_dropWhile_not isBlank text
    rw [Option.mem_def.mp isFirst] at dropped
    exact dropped
  constructor
  · intro first isFirst
    obtain ⟨blanks, shape⟩ := trimEnd_isPrefix text.trimStart
    refine @notBlank first text ?_
    have kept : first ∈ text.trimStart.head? := by
      rw [← shape, List.head?_append, ← trim, Option.mem_def.mp isFirst]
      rfl
    exact kept
  · intro last isLast
    rw [trim, trimEnd, List.getLast?_reverse] at isLast
    exact notBlank isLast

theorem exists_notBlank_of_trim
    {text : Text}
    (notEmpty : text.trim ≠ []) :
    ∃ character ∈ text, isBlank character = false := by
  obtain ⟨first, rest, shape⟩ := List.exists_cons_of_ne_nil notEmpty
  have notBlank := (solid_trim text).1 first (by rw [shape]; rfl)
  exact ⟨first, (trim_isInfix text).subset (shape ▸ List.mem_cons_self), notBlank⟩

theorem trim_of_solid
    {text : Text}
    (solid : Solid text) :
    trim text = text := by
  simpa using trim_append_append [] [] (by simp) solid (by simp)

end ClassOutline.Text
