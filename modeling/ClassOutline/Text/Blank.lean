import ClassOutline.Text.Basic
/-!
# Blank characters

Blank are the characters with the Unicode property `White_Space`.  Trimming removes them from the
ends of a text, and the words of a text are what stands between them.
-/

namespace ClassOutline.Text

/-- The inclusive ranges of code points with the property `White_Space`. -/
def blankRanges : List (Nat × Nat) :=
  [(0x0009, 0x000D), (0x0020, 0x0020), (0x0085, 0x0085), (0x00A0, 0x00A0), (0x1680, 0x1680),
    (0x2000, 0x200A), (0x2028, 0x2029), (0x202F, 0x202F), (0x205F, 0x205F), (0x3000, 0x3000)]

/-- Whether a character is blank. -/
def isBlank (character : Char) : Bool :=
  blankRanges.any fun (least, greatest) =>
    least ≤ character.toNat && character.toNat ≤ greatest

/-- Blank covers core's notion of a whitespace character. -/
theorem isBlank_of_isWhitespace
    {character : Char}
    (whitespace : character.isWhitespace = true) :
    isBlank character = true := by
  simp only [Char.isWhitespace, Bool.or_eq_true, decide_eq_true_eq] at whitespace
  rcases whitespace with ((equal | equal) | equal) | equal <;> subst equal <;> decide

/-- The text without the blanks at its start. -/
def trimStart (text : Text) : Text :=
  text.dropWhile isBlank

/-- The text without the blanks at its end. -/
def trimEnd (text : Text) : Text :=
  (text.reverse.dropWhile isBlank).reverse

/-- The text without the blanks at either end. -/
def trim (text : Text) : Text :=
  trimEnd (trimStart text)

/-- The blanks at the start of a text. -/
def indentation (text : Text) : Text :=
  text.takeWhile isBlank

theorem indentation_append_trimStart (text : Text) :
    text.indentation ++ text.trimStart = text :=
  List.takeWhile_append_dropWhile

/-- The words of a text: its longest parts without blanks. -/
def words (text : Text) : List Text :=
  (splitWhere isBlank text).filter (· ≠ [])

/-- Words joined by single spaces. -/
def unwords (words : List Text) : Text :=
  [' '].intercalate words

end ClassOutline.Text
