import ClassOutline.Proofs.Text.Lacks
import ClassOutline.Reserved
import ClassOutline.Text.Blank
/-!
# Where a keyword may begin

A text is fresh if a keyword behind it is judged as at the start of a text: its last character is
a delimiter, and the nearest character that is not blank neither opens template arguments nor is a
comma.  What stands in front of a fresh text has no influence on the keywords behind it.

Texts are given here as in `standsAlone`, with the nearest character first.
-/

namespace ClassOutline.Reserved

/-- A keyword behind these characters is judged as at the start of a text. -/
structure Fresh (past : Text) : Prop where
  delimited : past.head?.all isDelimiter = true
  noList : continuesList past = false

/-- Blanks that are delimiters too. -/
def isGapCharacter (character : Char) : Bool :=
  [' ', '\t', '\r', '\n'].contains character

theorem isAsciiBlank_of_isGapCharacter
    {character : Char}
    (inGap : isGapCharacter character = true) :
    isAsciiBlank character = true := by
  simp only [isGapCharacter, List.contains_iff_mem, List.mem_cons, List.not_mem_nil,
    or_false] at inGap
  rcases inGap with rfl | rfl | rfl | rfl <;> decide

theorem isDelimiter_of_isGapCharacter
    {character : Char}
    (inGap : isGapCharacter character = true) :
    isDelimiter character = true := by
  simp only [isGapCharacter, List.contains_iff_mem, List.mem_cons, List.not_mem_nil,
    or_false] at inGap
  rcases inGap with rfl | rfl | rfl | rfl <;> decide

theorem braceless_of_isGapCharacter
    {character : Char}
    (inGap : isGapCharacter character = true) :
    character ≠ '{' ∧ character ≠ '}' := by
  constructor <;> rintro rfl <;> exact absurd inGap (by decide)

theorem continuesList_append
    (past earlier : Text)
    (noList : continuesList earlier = false) :
    continuesList (past ++ earlier) = continuesList past := by
  rw [continuesList, continuesList, List.find?_append]
  cases found : past.find? fun character => !isAsciiBlank character with
  | some nearest => rfl
  | none =>
    rw [continuesList] at noList
    simpa using noList

theorem isBlank_of_isAsciiBlank
    {character : Char}
    (blank : isAsciiBlank character = true) :
    Text.isBlank character = true := by
  simp only [isAsciiBlank, List.contains_iff_mem, List.mem_cons, List.not_mem_nil,
    or_false] at blank
  rcases blank with rfl | rfl | rfl | rfl | rfl <;> decide

/-- A text is fresh if it ends with a delimiter and with nothing that opens or continues a list. -/
theorem fresh_of_head?
    {past : Text}
    (delimited : past.head?.all isDelimiter = true)
    (noList : ∀ nearest ∈ (past.dropWhile Text.isBlank).head?, nearest ≠ '<' ∧ nearest ≠ ',') :
    Fresh past := by
  refine ⟨delimited, ?_⟩
  have noMark : ∀ nearest ∈ past.find? (fun character => !isAsciiBlank character),
      nearest ≠ '<' ∧ nearest ≠ ',' := by
    clear delimited
    induction past with
    | nil => simp
    | cons first rest hypothesis =>
      rw [List.find?_cons]
      cases asciiBlank : isAsciiBlank first with
      | true =>
        rw [List.dropWhile_cons_of_pos (isBlank_of_isAsciiBlank asciiBlank)] at noList
        exact hypothesis noList
      | false =>
        intro nearest isFirst
        obtain rfl := Option.some.inj isFirst
        cases blank : Text.isBlank first with
        | true => constructor <;> rintro rfl <;> exact absurd blank (by decide)
        | false => exact noList first (by simp [blank])
  rw [continuesList]
  cases found : past.find? fun character => !isAsciiBlank character with
  | none => rfl
  | some nearest =>
    obtain ⟨noBracket, noComma⟩ := noMark nearest found
    simp [noBracket, noComma]

/-- Nothing in front of a fresh text decides whether a word behind it stands alone. -/
theorem standsAlone_append
    (past : Text)
    {earlier : Text}
    (following : Option Char)
    (fresh : Fresh earlier) :
    standsAlone (past ++ earlier).head? following (past ++ earlier) =
      standsAlone past.head? following past := by
  rw [standsAlone, standsAlone, continuesList_append _ _ fresh.noList]
  cases past with
  | nil => simp [fresh.delimited]
  | cons first rest => rfl

/-- In front of an angle bracket, nothing decides whether a word behind it stands alone. -/
theorem standsAlone_append_bracket
    (past earlier : Text)
    (following : Option Char) :
    standsAlone (past ++ '<' :: earlier).head? following (past ++ '<' :: earlier) =
      standsAlone (past ++ ['<']).head? following (past ++ ['<']) := by
  have notBlank : isAsciiBlank '<' = false := by decide
  have sameHead : (past ++ '<' :: earlier).head? = (past ++ ['<']).head? := by
    cases past <;> rfl
  have sameList : continuesList (past ++ '<' :: earlier) = continuesList (past ++ ['<']) := by
    rw [continuesList, continuesList, List.find?_append, List.find?_append]
    simp [notBlank]
  rw [standsAlone, standsAlone, sameHead, sameList]

theorem standsAlone_of_fresh
    {past : Text}
    {following : Option Char}
    (fresh : Fresh past)
    (delimited : following.all isDelimiter = true) :
    standsAlone past.head? following past = true := by
  simp [standsAlone, fresh.delimited, fresh.noList, delimited]

theorem standsAlone_eq_false
    {previous : Char}
    (following : Option Char)
    (past : Text)
    (notDelimiter : isDelimiter previous = false) :
    standsAlone (some previous) following past = false := by
  simp [standsAlone, notDelimiter]

/-- What stands behind a delimiter does not matter. -/
theorem all_isDelimiter_append
    {head : Text}
    (delimited : head.head?.any isDelimiter = true)
    (rest : Text) :
    (head ++ rest).head?.all isDelimiter = true := by
  cases head with
  | nil => simp at delimited
  | cons first head => simpa using delimited

theorem first?_append
    {word rest : Text}
    (notEmpty : word ≠ [])
    (delimited : rest.head?.all isDelimiter = true) :
    first? word (word ++ rest) = some 0 := by
  rw [first?, Text.cutAt?_append notEmpty]
  simp [standsAlone, delimited, continuesList]

theorem begins_append
    {word rest : Text}
    (delimited : rest.head?.all isDelimiter = true) :
    begins word (word ++ rest) = true := by
  have isPrefix : word.isPrefixOf (word ++ rest) = true :=
    List.isPrefixOf_iff_prefix.mpr (List.prefix_append word rest)
  rw [begins, isPrefix, List.drop_left]
  simp [standsAlone, delimited, continuesList]

/-- The first occurrence of a word is looked for in vain in a text that lacks it. -/
theorem first?_eq_none
    {text word : Text}
    (lacks : text.Lacks word) :
    first? word text = none := by
  rw [first?, Text.cutAt?_eq_none lacks]

end ClassOutline.Reserved
