import ClassOutline.ClassHead
import ClassOutline.Proofs.Block.Seam
import ClassOutline.Proofs.Text.Words
import Mathlib.Data.List.TakeWhile
/-!
# Template clauses

The template clause of a block is looked for in everything above it.  It is found where it stands,
directly above the block, whatever stands above the clause.  And the end of a statement hides all
clauses above it.
-/

namespace ClassOutline.ClassHead

/-- The word that begins a template clause. -/
def templateWord : Text :=
  "template".toList

/-- The nearest character that is not blank ends a statement or a scope. -/
def EndsStatement (past : Text) : Prop :=
  ∀ nearest ∈ (past.dropWhile Text.isBlank).head?, nearest = ';' ∨ nearest = '}'

instance (past : Text) : Decidable (EndsStatement past) :=
  match found : (past.dropWhile Text.isBlank).head? with
  | none => isTrue fun nearest member => by simp [found] at member
  | some nearest =>
    decidable_of_iff (nearest = ';' ∨ nearest = '}')
      ⟨fun ends other member => by
        rw [found] at member
        exact Option.some.inj member ▸ ends, fun ends => ends nearest found⟩

theorem EndsStatement.fresh
    {past : Text}
    (ends : EndsStatement past)
    (delimited : past.head?.all Reserved.isDelimiter = true) :
    Reserved.Fresh past := by
  refine Reserved.fresh_of_head? delimited fun nearest member => ?_
  rcases ends nearest member with rfl | rfl <;> decide

/-- Blanks behind the end of a statement do not matter. -/
theorem EndsStatement.append_blank
    {blanks past : Text}
    (ends : EndsStatement past)
    (blank : ∀ character ∈ blanks, Text.isBlank character = true) :
    EndsStatement (blanks ++ past) := by
  rw [EndsStatement, List.dropWhile_append_of_pos blank]
  exact ends

/-- Behind the last word of a text that ends a statement, the end of the statement follows. -/
theorem EndsStatement.any_isBreak
    {before word between : Text}
    {last : Char}
    (ends : EndsStatement (before ++ (word ++ [last]) ++ between).reverse)
    (notBlank : Text.isBlank last = false)
    (noBreak : isBreak last = false) :
    between.any isBreak = true := by
  have shape : (before ++ (word ++ [last]) ++ between).reverse =
      between.reverse ++ last :: (word.reverse ++ before.reverse) := by
    simp
  rw [EndsStatement, shape] at ends
  cases found : (between.reverse.dropWhile Text.isBlank) with
  | nil =>
    have allBlank : ∀ character ∈ between.reverse, Text.isBlank character = true := by
      exact List.dropWhile_eq_nil_iff.mp found
    have nearest : ((between.reverse ++ last :: (word.reverse ++ before.reverse)).dropWhile
        Text.isBlank).head? = some last := by
      rw [List.dropWhile_append_of_pos allBlank]
      simp [notBlank]
    rcases ends last nearest with rfl | rfl <;> contradiction
  | cons nearest rest =>
    have isNearest : ((between.reverse ++ last :: (word.reverse ++ before.reverse)).dropWhile
        Text.isBlank).head? = some nearest := by
      rw [List.dropWhile_append, found]
      rfl
    have inside : nearest ∈ between.reverse :=
      List.dropWhile_subset Text.isBlank (found ▸ List.mem_cons_self)
    rw [List.any_eq_true]
    refine ⟨nearest, List.mem_reverse.mp inside, ?_⟩
    rcases ends nearest isNearest with rfl | rfl <;> decide

/-- A clause that holds the end of a statement is none. -/
theorem any_isBreak_trim
    {text : Text}
    (holds : text.any isBreak = true) :
    (Text.trim text).any isBreak = true := by
  obtain ⟨character, member, isBreakHere⟩ := List.any_eq_true.mp holds
  refine List.any_eq_true.mpr ⟨character, Text.mem_trim member ?_, isBreakHere⟩
  simp only [isBreak, List.contains_iff_mem, List.mem_cons, List.not_mem_nil,
    or_false] at isBreakHere
  rcases isBreakHere with rfl | rfl | rfl | rfl <;> decide

/-- The clause from a given word `template` on, if it is one. -/
def clauseFrom (before after : Text) : Text :=
  let clause := Text.trim (templateWord ++ after)
  if Reserved.standsAlone before.getLast? after.head? before.reverse && !clause.any isBreak
  then clause else []

theorem templateClauseOf_eq (block : Block) :
    templateClauseOf block =
      if (block.past.dropWhile Text.isBlank).head? = some '>' then
        match block.above.cutAtLast? templateWord with
        | some (before, after) => clauseFrom before after
        | none => []
      else [] := rfl

theorem clauseFrom_append
    {front : Text}
    (fresh : Reserved.Fresh front.reverse)
    (before after : Text) :
    clauseFrom (front ++ before) after = clauseFrom before after := by
  have same := Reserved.standsAlone_append before.reverse after.head? fresh
  rw [← List.reverse_append, List.head?_reverse, List.head?_reverse] at same
  rw [clauseFrom, clauseFrom, same]

theorem clauseFrom_eq_nil
    {after : Text}
    (before : Text)
    (holds : after.any isBreak = true) :
    clauseFrom before after = [] := by
  have broken : (Text.trim (templateWord ++ after)).any isBreak = true :=
    any_isBreak_trim (by rw [List.any_append, holds, Bool.or_true])
  simp [clauseFrom, broken]

/-- Lines that end a statement have no influence on the template clauses behind them. -/
theorem templateClauseOf_behind
    {front : Text}
    (ends : EndsStatement front.reverse)
    (block : Block) :
    templateClauseOf (block.behind ('\n' :: front.reverse)) = templateClauseOf block := by
  have endsLine : EndsStatement (['\n'] ++ front.reverse) := ends.append_blank (by decide)
  have fresh : Reserved.Fresh ('\n' :: front.reverse) := endsLine.fresh rfl
  have aboveShape : (block.behind ('\n' :: front.reverse)).above =
      (front ++ ['\n']) ++ block.above := by
    simp [Block.above, Block.behind]
  rw [templateClauseOf_eq, templateClauseOf_eq, aboveShape]
  cases past : block.past.dropWhile Text.isBlank with
  | nil =>
    have notClosed : ((block.behind ('\n' :: front.reverse)).past.dropWhile Text.isBlank).head? ≠
        some '>' := by
      intro isBracket
      have newlineBlank : Text.isBlank '\n' = true := by decide
      rw [Block.behind, List.dropWhile_append, past] at isBracket
      simp only [List.isEmpty_nil, if_true, List.dropWhile_cons_of_pos newlineBlank] at isBracket
      exact absurd (ends '>' isBracket) (by decide)
    rw [if_neg notClosed]
    rfl
  | cons nearest rest =>
    have sameNearest : ((block.behind ('\n' :: front.reverse)).past.dropWhile Text.isBlank).head? =
        some nearest := by
      rw [Block.behind, List.dropWhile_append, past]
      rfl
    rw [sameNearest, List.head?_cons]
    split
    · cases cut : block.above.cutAtLast? templateWord with
      | some parts =>
        rw [Text.cutAtLast?_append_of_some _ cut]
        exact clauseFrom_append (by simpa using fresh) parts.1 parts.2
      | none =>
        -- A clause that begins above the seam holds the end of the statement in front of it.
        cases cutWhole : ((front ++ ['\n']) ++ block.above).cutAtLast? templateWord with
        | none => rfl
        | some parts =>
          rw [List.append_assoc, List.singleton_append] at cutWhole
          obtain ⟨between, shape, afterShape⟩ :=
            Text.exists_of_cutAtLast?_append_cons (by decide)
              (Text.lacks_of_cutAtLast?_eq_none cut) cutWhole
          have holds : between.any isBreak = true := by
            have endsBetween : EndsStatement
                (parts.1 ++ ("templat".toList ++ ['e']) ++ between).reverse :=
              shape ▸ ends
            exact endsBetween.any_isBreak (by decide) (by decide)
          exact clauseFrom_eq_nil parts.1 (by rw [afterShape, List.any_append, holds, Bool.true_or])
    · rfl

/-- An angle bracket with blanks behind it ends the text above a block. -/
theorem nearest_of_above
    {block : Block}
    {front blanks : Text}
    (aboveShape : block.above = front ++ '>' :: blanks)
    (blank : ∀ character ∈ blanks, Text.isBlank character = true) :
    (block.past.dropWhile Text.isBlank).head? = some '>' := by
  have bracketNotBlank : Text.isBlank '>' = false := by decide
  have pastShape : block.past = blanks.reverse ++ '>' :: front.reverse := by
    have reversed := congrArg List.reverse aboveShape
    simpa [Block.above] using reversed
  rw [pastShape, List.dropWhile_append_of_pos fun character member =>
    blank character (List.mem_reverse.mp member)]
  simp [bracketNotBlank]

/-- What reaches to an angle bracket is a clause exactly if the word in front stands alone. -/
theorem clauseFrom_append_blanks
    {arguments blanks : Text}
    (before : Text)
    (closes : arguments.getLast? = some '>')
    (blank : ∀ character ∈ blanks, Text.isBlank character = true)
    (noBreak : arguments.any isBreak = false) :
    clauseFrom before (arguments ++ blanks) =
      if Reserved.standsAlone before.getLast? arguments.head? before.reverse then
        templateWord ++ arguments
      else [] := by
  obtain ⟨start, rfl⟩ := List.getLast?_eq_some_iff.mp closes
  have solid : Text.Solid (templateWord ++ (start ++ ['>'])) := by
    rw [← List.append_assoc]
    exact Text.solid_append_singleton ⟨'t', rfl, by decide⟩ (by decide)
  have trimmed : Text.trim (templateWord ++ ((start ++ ['>']) ++ blanks)) =
      templateWord ++ (start ++ ['>']) := by
    have read := Text.trim_append_append [] blanks (by simp) solid blank
    simpa using read
  have sameNext : ((start ++ ['>']) ++ blanks).head? = (start ++ ['>']).head? := by
    cases start <;> rfl
  have wordNoBreak : templateWord.any isBreak = false := by decide
  rw [clauseFrom, trimmed, sameNext, List.any_append, wordNoBreak, noBreak]
  simp

/-- Blanks behind an angle bracket add no occurrence of the word. -/
theorem lacks_append_blanks
    {text blanks : Text}
    (lacks : text.Lacks templateWord)
    (closes : text.getLast? = some '>')
    (blank : ∀ character ∈ blanks, Text.isBlank character = true) :
    Text.Lacks (text ++ blanks) templateWord := by
  obtain ⟨start, rfl⟩ := List.getLast?_eq_some_iff.mp closes
  have letters : ∀ character ∈ templateWord, Text.isBlank character = false := by decide
  have lacksBlanks : Text.Lacks blanks templateWord := by
    refine Text.lacks_of_foreign (by decide) fun character member isLetter => ?_
    have isBlank := blank character member
    rw [letters character isLetter] at isBlank
    contradiction
  rw [List.append_assoc, List.singleton_append, Text.lacks_append_cons _ _ (by decide)]
  exact ⟨lacks.of_isInfix List.infix_append_left, lacksBlanks⟩

/-- The last word `template` above a block decides alone whether a clause stands there. -/
theorem templateClauseOf_eq_ite
    {block : Block}
    {before arguments blanks : Text}
    (aboveShape : block.above = before ++ (templateWord ++ arguments) ++ blanks)
    (closes : arguments.getLast? = some '>')
    (blank : ∀ character ∈ blanks, Text.isBlank character = true)
    (lacks : Text.Lacks ("emplate".toList ++ arguments) templateWord)
    (noBreak : arguments.any isBreak = false) :
    templateClauseOf block =
      if Reserved.standsAlone before.getLast? arguments.head? before.reverse then
        templateWord ++ arguments
      else [] := by
  obtain ⟨start, isStart⟩ := List.getLast?_eq_some_iff.mp closes
  have bracketShape : block.above = (before ++ templateWord ++ start) ++ '>' :: blanks := by
    simp [aboveShape, isStart]
  have wordShape : block.above = before ++ templateWord ++ (arguments ++ blanks) := by
    simp [aboveShape]
  have lacksBehind : Text.Lacks ("emplate".toList ++ (arguments ++ blanks)) templateWord := by
    have closesBehind : ("emplate".toList ++ arguments).getLast? = some '>' := by
      rw [isStart, ← List.append_assoc, List.getLast?_concat]
    rw [← List.append_assoc]
    exact lacks_append_blanks lacks closesBehind blank
  have cut : block.above.cutAtLast? templateWord = some (before, arguments ++ blanks) := by
    rw [wordShape]
    exact Text.cutAtLast?_append before _ lacksBehind
  rw [templateClauseOf_eq, if_pos (nearest_of_above bracketShape blank), cut]
  exact clauseFrom_append_blanks before closes blank noBreak

/-- A clause that stands directly above a block, behind a fresh text, is found. -/
theorem templateClauseOf_eq_clause
    {block : Block}
    {before inside blanks : Text}
    (aboveShape : block.above = before ++ (templateWord ++ ' ' :: inside) ++ blanks)
    (fresh : Reserved.Fresh before.reverse)
    (closes : (' ' :: inside).getLast? = some '>')
    (blank : ∀ character ∈ blanks, Text.isBlank character = true)
    (lacks : Text.Lacks (' ' :: inside) templateWord)
    (noBreak : (' ' :: inside).any isBreak = false) :
    templateClauseOf block = templateWord ++ ' ' :: inside := by
  have lacksBehind : Text.Lacks ("emplate".toList ++ ' ' :: inside) templateWord := by
    rw [Text.lacks_append_cons _ _ (by decide)]
    exact ⟨by decide, lacks.of_isInfix (List.suffix_cons _ _).isInfix⟩
  have standsAlone : Reserved.standsAlone before.getLast? (' ' :: inside).head? before.reverse =
      true := by
    rw [← List.head?_reverse]
    exact Reserved.standsAlone_of_fresh fresh rfl
  rw [templateClauseOf_eq_ite aboveShape closes blank lacksBehind noBreak, if_pos standsAlone]

/-- A block has no template clause unless an angle bracket ends the text above it. -/
theorem templateClauseOf_eq_nil
    {block : Block}
    (noBracket : (block.past.dropWhile Text.isBlank).head? ≠ some '>') :
    templateClauseOf block = [] := by
  rw [templateClauseOf_eq, if_neg noBracket]

end ClassOutline.ClassHead
