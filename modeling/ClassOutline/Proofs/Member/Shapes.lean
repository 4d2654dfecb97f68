import Mathlib.Data.List.Infix
import Mathlib.Data.List.TakeWhile
import ClassOutline.Proofs.Member.Pieces
import ClassOutline.Proofs.Text.Lacks
import ClassOutline.Proofs.Text.Words
/-!
# Shapes of texts with parentheses

A text with a parenthesis is a function exactly if no mark of a pointer stands behind its first
parenthesis, and neither a callable object nor an initial value in front of it.  Blanks at the ends
of a text do not matter for its shape.
-/

namespace ClassOutline

/-! ## Words among blanks -/

namespace Text

variable {left right word : Text}

theorem mentions_eq_true_iff {text : Text} : mentions text word = true ↔ word <:+: text := by
  rw [← Bool.not_eq_false, mentions_eq_false_iff, Lacks, not_not]

/-- What is foreign to a word may stand in front of a text without mentioning the word. -/
theorem mentions_append_left
    (foreign : ∀ character ∈ left, character ∉ word)
    (right : Text) :
    mentions (left ++ right) word = mentions right word := by
  have sameLack : Lacks (left ++ right) word ↔ Lacks right word :=
    ⟨fun lacks => lacks.of_isInfix (List.suffix_append _ _).isInfix,
      lacks_append_of_foreign foreign⟩
  rw [Bool.eq_iff_iff, mentions_eq_true_iff, mentions_eq_true_iff]
  exact not_iff_not.mp sameLack

/-- What is foreign to a word may stand behind a text without mentioning the word. -/
theorem mentions_append_right
    (left : Text)
    (foreign : ∀ character ∈ right, character ∉ word) :
    mentions (left ++ right) word = mentions left word := by
  have sameLack : Lacks (left ++ right) word ↔ Lacks left word := by
    cases right with
    | nil => rw [List.append_nil]
    | cons first rest =>
      rw [lacks_append_cons _ _ (foreign first List.mem_cons_self), and_iff_left_iff_imp]
      intro lacks
      have notEmpty : word ≠ [] := fun empty => lacks (empty ▸ List.nil_infix)
      exact lacks_of_foreign notEmpty fun character member =>
        foreign character (List.mem_cons_of_mem _ member)
  rw [Bool.eq_iff_iff, mentions_eq_true_iff, mentions_eq_true_iff]
  exact not_iff_not.mp sameLack

end Text

namespace Shape

/-! ## Marks behind a parenthesis -/

/-- The text from its first parenthesis on, without the delimiters there. -/
def behindParenthesis (text : Text) : Text :=
  (text.dropWhile (· ≠ '(')).dropWhile Reserved.isDelimiter

/-- What stands behind the first parenthesis makes a pointer to a function. -/
theorem ofText_eq_functionPointer_iff (text : Text) :
    ofText text = .functionPointer ↔
      ∃ mark ∈ (behindParenthesis text).head?, mark = '&' ∨ mark = '*' := by
  rw [ofText, behindParenthesis]
  cases text.dropWhile (· ≠ '(') with
  | nil => simp
  | cons first rest =>
    dsimp only
    cases ((first :: rest).dropWhile Reserved.isDelimiter).head? with
    | none =>
      dsimp only
      split
      · simp
      · split <;> simp
    | some mark =>
      by_cases ampersand : mark = '&'
      · simp [ampersand]
      · by_cases star : mark = '*'
        · simp [star]
        · simp only [Option.mem_def, Option.some.injEq, exists_eq_left', ampersand, star, or_self,
            iff_false]
          split
          · simp_all
          · simp_all
          · split
            · simp
            · split <;> simp

/-! ## Blanks -/

/-- Blanks in front of a text do not matter for its shape. -/
theorem ofText_trimStart (text : Text) : ofText text.trimStart = ofText text := by
  have blank : ∀ character ∈ text.indentation, Text.isBlank character = true :=
    fun character member => List.mem_takeWhile_imp member
  have foreign {word : Text} (noBlank : ∀ character ∈ word, Text.isBlank character = false) :
      ∀ character ∈ text.indentation, character ∉ word := by
    intro character member inWord
    have isBlank := blank character member
    rw [noBlank character inWord] at isBlank
    contradiction
  have noParenthesis : ∀ character ∈ text.indentation, decide (character ≠ '(') = true :=
    fun character member => decide_eq_true fun equal =>
      foreign (by decide) '(' (equal ▸ member) (List.mem_singleton_self _)
  have noSign : text.indentation.contains '=' = false := by
    rw [← Bool.not_eq_true, List.contains_iff_mem]
    exact fun member => foreign (by decide) '=' member (List.mem_singleton_self _)
  calc ofText text.trimStart
      = ofText (text.indentation ++ text.trimStart) := by
        have contained (front : Text) :
            (text.indentation ++ front).contains '=' = front.contains '=' := by
          rw [Bool.eq_iff_iff, List.contains_iff_mem, List.contains_iff_mem, List.mem_append]
          simp_all
        rw [ofText, ofText, List.takeWhile_append_of_pos noParenthesis,
          List.dropWhile_append_of_pos noParenthesis, contained,
          Text.mentions_append_left (foreign (by decide)),
          Text.mentions_append_left (foreign (by decide))]
    _ = ofText text := by rw [text.indentation_append_trimStart]

/-- Delimiters at the end of a text do not make a pointer to a function of it. -/
theorem ofText_append_eq_functionPointer_iff
    (text : Text)
    {ending : Text}
    (delimiters : ∀ character ∈ ending, Reserved.isDelimiter character = true) :
    ofText (text ++ ending) = .functionPointer ↔ ofText text = .functionPointer := by
  have noneLeft {characters : Text} (isSuffix : characters <:+ ending) :
      characters.dropWhile Reserved.isDelimiter = [] :=
    List.dropWhile_eq_nil_iff.mpr fun character member =>
      delimiters character (isSuffix.subset member)
  have sameMark : (behindParenthesis (text ++ ending)).head? = (behindParenthesis text).head? := by
    rw [behindParenthesis, behindParenthesis, List.dropWhile_append]
    cases behind : text.dropWhile (· ≠ '(') with
    | nil =>
      rw [List.isEmpty_nil, if_pos rfl, noneLeft (List.dropWhile_suffix _)]
      rfl
    | cons first rest =>
      rw [List.isEmpty_cons, if_neg Bool.false_ne_true, List.dropWhile_append]
      cases (first :: rest).dropWhile Reserved.isDelimiter with
      | nil => rw [List.isEmpty_nil, if_pos rfl, noneLeft (List.suffix_refl _)]
      | cons mark later => rfl
  rw [ofText_eq_functionPointer_iff, ofText_eq_functionPointer_iff, sameMark]

/-! ## Functions -/

/-- What stands around the first parenthesis makes a function. -/
theorem ofText_append_cons_eq_function_iff
    {front : Text}
    (noParenthesis : '(' ∉ front)
    (behind : Text) :
    ofText (front ++ '(' :: behind) = .function ↔
      (∀ mark ∈ (behind.dropWhile Reserved.isDelimiter).head?, mark ≠ '&' ∧ mark ≠ '*') ∧
        front.Lacks "function<".toList ∧
          ('=' ∉ front ∨ "operator".toList <:+: front ++ '(' :: behind) := by
  have opening : Reserved.isDelimiter '(' = true := by decide
  rw [ofText, Text.takeWhile_append_cons noParenthesis, Text.dropWhile_append_cons noParenthesis,
    ← Text.mentions_eq_false_iff, ← Text.mentions_eq_true_iff]
  generalize Text.mentions front "function<".toList = isCallable
  generalize (front ++ '(' :: behind).mentions "operator".toList = isOperator
  dsimp only
  rw [List.dropWhile_cons_of_pos opening]
  have decided : (if isCallable then Shape.callable
      else if front.contains '=' && !isOperator then .initialized
      else .function) = .function ↔ isCallable = false ∧ ('=' ∉ front ∨ isOperator = true) := by
    cases isCallable <;> cases isOperator <;> simp
  cases (behind.dropWhile Reserved.isDelimiter).head? with
  | none => simpa using decided
  | some mark =>
    by_cases ampersand : mark = '&'
    · simp [ampersand]
    · by_cases star : mark = '*'
      · simp [star]
      · simpa [ampersand, star] using decided

/-- Blanks at the ends of a text do not make a function of it. -/
theorem ofText_trim_eq_function_iff
    {front : Text}
    (noParenthesis : '(' ∉ front)
    (behind : Text) :
    ofText (Text.trim (front ++ '(' :: behind)) = .function ↔
      ofText (front ++ '(' :: behind) = .function := by
  obtain ⟨blanks, blank, shape⟩ := behind.exists_trimEnd_append
  have notBlank : Text.isBlank '(' = false := by decide
  have foreign {word : Text} (noBlank : ∀ character ∈ word, Text.isBlank character = false) :
      ∀ character ∈ blanks, character ∉ word := by
    intro character member inWord
    have isBlank := blank character member
    rw [noBlank character inWord] at isBlank
    contradiction
  have sameMark :
      (∀ mark ∈ (behind.dropWhile Reserved.isDelimiter).head?, mark ≠ '&' ∧ mark ≠ '*') ↔
        ∀ mark ∈ (behind.trimEnd.dropWhile Reserved.isDelimiter).head?,
          mark ≠ '&' ∧ mark ≠ '*' := by
    have noMark : ∀ mark ∈ (blanks.dropWhile Reserved.isDelimiter).head?,
        mark ≠ '&' ∧ mark ≠ '*' := by
      intro mark isMark
      have isBlank := blank mark ((List.dropWhile_sublist _).subset (List.mem_of_mem_head? isMark))
      constructor <;> rintro rfl <;> exact absurd isBlank (by decide)
    have whole := congrArg (List.dropWhile Reserved.isDelimiter) shape
    rw [List.dropWhile_append] at whole
    rw [← whole]
    cases behind.trimEnd.dropWhile Reserved.isDelimiter with
    | nil => simpa using noMark
    | cons first rest => simp
  have sameOperator :
      ("operator".toList <:+: front ++ '(' :: behind) ↔
        ("operator".toList <:+: front ++ '(' :: behind.trimEnd) := by
    have notOperator : ∀ character ∈ blanks, character ∉ "operator".toList := foreign (by decide)
    have same := Text.mentions_append_right (front ++ '(' :: behind.trimEnd) notOperator
    rw [List.append_assoc, List.cons_append, shape] at same
    rw [← Text.mentions_eq_true_iff, ← Text.mentions_eq_true_iff, same]
  calc ofText (Text.trim (front ++ '(' :: behind)) = .function
      ↔ ofText (Text.trimStart (front ++ '(' :: behind.trimEnd)) = .function := by
        rw [Text.trim, Text.trimStart_append_cons _ _ notBlank,
          Text.trimEnd_append_cons _ _ notBlank, Text.trimStart_append_cons _ _ notBlank]
    _ ↔ ofText (front ++ '(' :: behind.trimEnd) = .function := by rw [ofText_trimStart]
    _ ↔ ofText (front ++ '(' :: behind) = .function := by
        rw [ofText_append_cons_eq_function_iff noParenthesis,
          ofText_append_cons_eq_function_iff noParenthesis, sameMark, sameOperator]

/-! ## Shapes of statements -/

/-- If a statement has a shape, it is that of its text. -/
theorem eq_ofText_of_ofStatement?
    {statement : Text}
    {shape : Shape}
    (hasShape : ofStatement? statement = some shape) :
    shape = ofText statement := by
  rw [ofStatement?] at hasShape
  split at hasShape
  · contradiction
  · exact (Option.some.inj hasShape).symm

end Shape

/-- A piece with the shape of a function declares no data. -/
theorem Body.found?_of_function
    {front behind : Text}
    (noParenthesis : '(' ∉ front)
    (isFunction : Shape.ofText (front ++ '(' :: behind) = .function)
    (depth : Depth) :
    found? depth (front ++ '(' :: behind) = none := by
  have noData : (Shape.ofStatement? (Text.trim (front ++ '(' :: behind))).filter Shape.isData =
      none := by
    rw [Shape.ofStatement?, (Shape.ofText_trim_eq_function_iff noParenthesis behind).mpr isFunction]
    split <;> rfl
  rw [found?, noData]

end ClassOutline
