import ClassOutline.Code.Writer
import ClassOutline.Proofs.ClassHead.Parts
import ClassOutline.Proofs.ClassHead.TemplateClause
import ClassOutline.Scan.Basic
/-!
# Template clauses above a class

A class is written below a template clause, which stands on a line of its own behind the end of a
statement.  The clause that is read depends on the parameters alone.  It is read as it is written if
the word `template` occurs nowhere among them, not even inside another word.

Otherwise the clause is looked for from the last occurrence among the parameters on.  So a clause
with a template among its parameters is not read, and its class is taken for one without a clause.
-/

namespace ClassOutline

namespace Written

/-- A template clause on a line behind the end of a statement. -/
structure ClauseAbove where
  earlier : Text
  parameters : Text
  /-- What stands behind the clause. -/
  gap : Text
  ends : ClassHead.EndsStatement earlier.reverse
  noBreak : parameters.any ClassHead.isBreak = false
  blank : ∀ character ∈ gap, Text.isBlank character = true

namespace ClauseAbove

variable (above : ClauseAbove)

/-- The parameters with their brackets. -/
def arguments : Text :=
  " <".toList ++ above.parameters ++ ['>']

/-- The text of the clause. -/
def clause : Text :=
  ClassHead.templateWord ++ above.arguments

/-- A block behind the clause. -/
def block (text : Text) : Block where
  past := (above.earlier ++ ['\n'] ++ above.clause ++ above.gap).reverse
  text

/-! ## The clause that is read -/

theorem above_block (text : Text) :
    (above.block text).above = above.earlier ++ ['\n'] ++ above.clause ++ above.gap :=
  List.reverse_reverse _

/-- The end of a statement stands in front of the line of the clause. -/
theorem fresh_earlier : Reserved.Fresh (above.earlier ++ ['\n']).reverse := by
  have endsLine : ClassHead.EndsStatement (['\n'] ++ above.earlier.reverse) :=
    above.ends.append_blank (by decide)
  rw [List.reverse_append]
  exact endsLine.fresh rfl

/-- The bracket behind the parameters ends nothing. -/
theorem noBreak_append
    {parameters : Text}
    (noBreak : parameters.any ClassHead.isBreak = false) :
    (parameters ++ ['>']).any ClassHead.isBreak = false := by
  have bracket : [('>' : Char)].any ClassHead.isBreak = false := by decide
  rw [List.any_append, noBreak, bracket]
  rfl

/-- Without the word among the parameters, the clause is read as it is written. -/
theorem templateClauseOf_of_lacks
    (lacks : above.parameters.Lacks ClassHead.templateWord)
    (text : Text) :
    ClassHead.templateClauseOf (above.block text) = above.clause := by
  have closed : above.arguments.getLast? = some '>' := List.getLast?_concat
  have noBreak : above.arguments.any ClassHead.isBreak = false := by
    have opening : " <".toList.any ClassHead.isBreak = false := by decide
    rw [arguments, List.append_assoc, List.any_append, opening, noBreak_append above.noBreak]
    rfl
  have lacksArguments : above.arguments.Lacks ClassHead.templateWord := by
    have notEmpty : ClassHead.templateWord ≠ [] := by decide
    have shape : above.arguments = ' ' :: '<' :: (above.parameters ++ '>' :: []) := by
      simp [arguments]
    rw [shape, Text.lacks_cons _ notEmpty (by decide), Text.lacks_cons _ notEmpty (by decide),
      Text.lacks_append_cons _ _ (by decide)]
    exact ⟨lacks, Text.lacks_nil notEmpty⟩
  exact ClassHead.templateClauseOf_eq_clause (above.above_block text) above.fresh_earlier closed
    above.blank lacksArguments noBreak

/-- Otherwise a clause is read from the last such word on, if that word stands alone. -/
theorem templateClauseOf_of_cut
    {before after : Text}
    (cut : above.parameters.cutAtLast? ClassHead.templateWord = some (before, after))
    (text : Text) :
    ClassHead.templateClauseOf (above.block text) =
      if Reserved.standsAlone ('<' :: before).getLast? (after ++ ['>']).head?
          ('<' :: before).reverse then
        ClassHead.templateWord ++ (after ++ ['>'])
      else [] := by
  have shape : above.parameters = before ++ ClassHead.templateWord ++ after :=
    Text.eq_append_of_cutAtLast? cut
  let front := above.earlier ++ ['\n'] ++ ClassHead.templateWord ++ [' ']
  have aboveShape : (above.block text).above =
      (front ++ '<' :: before) ++ (ClassHead.templateWord ++ (after ++ ['>'])) ++ above.gap := by
    rw [above_block, clause, arguments, shape]
    simp [front]
  have closed : (after ++ ['>']).getLast? = some '>' := List.getLast?_concat
  have noBreak : after.any ClassHead.isBreak = false := by
    have noneInAll := above.noBreak
    rw [shape, List.any_append, Bool.or_eq_false_iff] at noneInAll
    exact noneInAll.2
  have lacksBehind :
      Text.Lacks ("emplate".toList ++ (after ++ ['>'])) ClassHead.templateWord := by
    have lacksAfter : Text.Lacks ("emplate".toList ++ after) ClassHead.templateWord :=
      Text.lacks_of_cutAtLast?_eq_some cut
    rw [← List.append_assoc, Text.lacks_append_cons _ _ (by decide)]
    exact ⟨lacksAfter, Text.lacks_nil (by decide)⟩
  have reversed : (front ++ '<' :: before).reverse = before.reverse ++ '<' :: front.reverse := by
    simp
  rw [ClassHead.templateClauseOf_eq_ite aboveShape closed above.blank lacksBehind
    (noBreak_append noBreak), ← List.head?_reverse, ← List.head?_reverse, reversed,
    Reserved.standsAlone_append_bracket, List.reverse_cons]

/-- The clause is read as it is written exactly if the word does not occur among the parameters. -/
theorem templateClauseOf_eq_clause_iff (text : Text) :
    ClassHead.templateClauseOf (above.block text) = above.clause ↔
      above.parameters.Lacks ClassHead.templateWord := by
  refine ⟨fun same => ?_, fun lacks => above.templateClauseOf_of_lacks lacks text⟩
  cases cut : above.parameters.cutAtLast? ClassHead.templateWord with
  | none => exact Text.lacks_of_cutAtLast?_eq_none cut
  | some parts =>
    -- What is read is shorter than what is written.
    have shape := congrArg List.length (Text.eq_append_of_cutAtLast? cut)
    have lengths := congrArg List.length same
    rw [above.templateClauseOf_of_cut cut] at lengths
    rw [List.length_append, List.length_append] at shape
    split at lengths
    · simp [clause, arguments] at lengths
      omega
    · simp [clause, arguments] at lengths

/-! ## The class behind the clause -/

/-- A class with a template clause is written inside whatever the style. -/
theorem placement_ofStyle
    {head : ClassHead}
    (isTemplate : head.templateClause ≠ [])
    (options : ScanOptions)
    (body : Body)
    (style : Style) :
    (Writer.ofStyle (Scan.outlineOf options head body) style).placement = .inside := by
  have template : (Scan.outlineOf options head body).isTemplate = true := by
    rw [Outline.isTemplate, Bool.not_eq_true', List.isEmpty_eq_false_iff]
    exact isTemplate
  rw [Writer.ofStyle, template]
  rfl

/--
The head of the class is read with the clause as it is written, and so the class is taken for a
template in every style, exactly if the word `template` does not occur among the parameters.
-/
theorem recognised_iff
    {text : Text}
    (legal : ClassHead.LegalName (ClassHead.nameAndBases (ClassHead.headOf text)).1) :
    ∃ head,
      ClassHead.ofBlock (above.block text) = .ok head ∧
        ((head.templateClause = above.clause ∧
            ∀ options body style,
              (Writer.ofStyle (Scan.outlineOf options head body) style).placement = .inside) ↔
          above.parameters.Lacks ClassHead.templateWord) := by
  let head := ClassHead.ofParts (above.block text) (ClassHead.nameAndBases (ClassHead.headOf text))
  have read : ClassHead.ofBlock (above.block text) = .ok head := by
    rw [ClassHead.ofBlock_eq]
    exact if_pos legal
  refine ⟨head, read, ?_⟩
  rw [← above.templateClauseOf_eq_clause_iff text]
  refine ⟨fun recognised => recognised.1, fun same => ⟨same, ?_⟩⟩
  have notEmpty : head.templateClause ≠ [] := by
    have isClause : head.templateClause = above.clause := same
    rw [isClause, clause]
    exact List.append_ne_nil_of_left_ne_nil (by decide) _
  exact placement_ofStyle notEmpty

/-- Parameters with a default that holds angle brackets. -/
theorem recognised_default :
    ∃ above : ClauseAbove,
      above.clause = "template <typename Key, class Values = std::vector<Key>>".toList ∧
        ∃ head,
          ClassHead.ofBlock (above.block "class Box \x7b\n\x7d;".toList) = .ok head ∧
            head.templateClause = above.clause ∧
              ∀ options body style,
                (Writer.ofStyle (Scan.outlineOf options head body) style).placement = .inside := by
  let above : ClauseAbove :=
    { earlier := "template <typename T> class Other;".toList
      parameters := "typename Key, class Values = std::vector<Key>".toList
      gap := ['\n']
      ends := by decide
      noBreak := by decide
      blank := by decide }
  obtain ⟨head, read, recognised⟩ :=
    @recognised_iff above "class Box \x7b\n\x7d;".toList (by decide)
  exact ⟨above, by decide, head, read, recognised.mpr (by decide)⟩

/--
With a template among the parameters, no clause is read, and the functions of the class are written
apart from it.
-/
theorem not_recognised_templateParameter :
    ∃ above : ClauseAbove,
      above.clause = "template <template <typename> typename C>".toList ∧
        ∃ head,
          ClassHead.ofBlock (above.block "class Box \x7b\n\x7d".toList) = .ok head ∧
            head.templateClause = [] ∧
              ∀ options body,
                (Writer.ofStyle (Scan.outlineOf options head body) .apart).placement = .apart := by
  let above : ClauseAbove :=
    { earlier := []
      parameters := "template <typename> typename C".toList
      gap := ['\n']
      ends := by decide
      noBreak := by decide
      blank := by decide }
  let head : ClassHead :=
    { name := "Box".toList
      templateClause := []
      bases := []
      startLine := 2
      endLine := 3 }
  have read : ClassHead.ofBlock (above.block "class Box \x7b\n\x7d".toList) = .ok head := by decide
  exact ⟨above, by decide, head, read, rfl, fun _ _ => rfl⟩

end ClauseAbove

end Written

end ClassOutline
