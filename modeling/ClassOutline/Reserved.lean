import ClassOutline.Text.Basic
/-!
# Reserved words

A word such as `class` or `template` counts as a keyword only where it stands alone: between
delimiters, and neither as the first entry of a list of template arguments, behind `<`, nor as a
further entry of any list, behind a comma.
-/

namespace ClassOutline.Reserved

/-- The characters that may stand next to a keyword. -/
def delimiters : List Char :=
  " \r\t\n,:<([\x7b".toList

/-- Whether a character may stand next to a keyword. -/
def isDelimiter (character : Char) : Bool :=
  delimiters.contains character

/-- The ASCII whitespace characters, over which the text before a keyword is searched. -/
def isAsciiBlank (character : Char) : Bool :=
  [' ', '\t', '\n', '\x0C', '\r'].contains character

/--
Whether what follows is an entry of a list: the nearest character in front of it that is not blank
opens template arguments or is a comma.  The argument holds the characters in front of it, the
nearest one first.
-/
def continuesList (past : Text) : Bool :=
  match past.find? fun character => !isAsciiBlank character with
  | some nearest => nearest = '<' || nearest = ','
  | none => false

/--
Whether a word stands alone, given the characters next to it and all characters before it, the
nearest one first.
-/
def standsAlone (previous following : Option Char) (past : Text) : Bool :=
  previous.all isDelimiter && following.all isDelimiter && !continuesList past

/-- Whether a word that begins at a byte offset, which may lie beyond the end, stands alone. -/
def standsAloneAt (text : Text) (offset : Nat) (word : Text) : Bool :=
  standsAlone
    (if offset = 0 then none else text.charAtByte? (offset - 1))
    (text.charAtByte? (offset + word.width))
    (text.takeBytes offset).reverse

theorem standsAloneAt_width_append
    (before word after : Text) :
    standsAloneAt (before ++ word ++ after) before.width word =
      standsAlone before.getLast? after.head? before.reverse := by
  have following : Text.charAtByte? (before.width + word.width) (before ++ word ++ after) =
      after.head? := by
    rw [← Text.width_append]
    exact Text.charAtByte?_width_append (before ++ word) after
  rw [standsAloneAt, following, List.append_assoc, Text.takeBytes_width_append]
  by_cases atStart : before = []
  · subst atStart
    rfl
  · have notAtStart : before.width ≠ 0 := fun noWidth => atStart (Text.eq_nil_of_width noWidth)
    rw [if_neg notAtStart, Text.charAtByte?_pred_width_append _ _ atStart]

/-- The byte offset of the first occurrence of a word, if that occurrence stands alone. -/
def first? (word text : Text) : Option Nat :=
  match text.cutAt? word with
  | some (before, after) =>
    if standsAlone before.getLast? after.head? before.reverse then some before.width else none
  | none => none

/-- Whether the text begins with a word that stands alone. -/
def begins (word text : Text) : Bool :=
  word.isPrefixOf text && standsAlone none (text.drop word.length).head? []

end ClassOutline.Reserved
