import ClassOutline.Proofs.Member.Lines
/-!
# Brackets outside literals

The depth behind a text is the depth in front of it, changed by the brackets that stand outside the
literals of the text.  Whole lines that open there as many brackets as they close leave the depth as
it is, since the end of a line closes an open literal.
-/

namespace ClassOutline

/-! ## Whole lines -/

namespace Text

/-- The text is empty or ends with a line feed. -/
def WholeLines (text : Text) : Prop :=
  ∀ last ∈ text.getLast?, last = '\n'

instance (text : Text) : Decidable (WholeLines text) :=
  inferInstanceAs (Decidable (∀ last ∈ text.getLast?, last = '\n'))

theorem WholeLines.eq_nil_or
    {text : Text}
    (wholeLines : WholeLines text) :
    text = [] ∨ ∃ front, text = front ++ ['\n'] := by
  rcases List.eq_nil_or_concat text with empty | ⟨front, last, shape⟩
  · exact .inl empty
  · rw [List.concat_eq_append] at shape
    have isBreak : last = '\n' := wholeLines last (by simp [shape])
    exact .inr ⟨front, by rw [shape, isBreak]⟩

theorem wholeLines_append_newline (front : Text) : WholeLines (front ++ ['\n']) := by
  intro last isLast
  rw [List.getLast?_concat] at isLast
  exact (Option.some.inj isLast).symm

/-- Behind whole lines a new line begins. -/
theorem lines_append
    {front : Text}
    (wholeLines : WholeLines front)
    (behind : Text) :
    lines (front ++ behind) = lines front ++ lines behind := by
  rcases wholeLines.eq_nil_or with rfl | ⟨front, rfl⟩
  · rfl
  · rw [List.append_assoc]
    exact lines_append_newline front behind

/-- The part of a text behind its last line feed. -/
def lastLine (text : Text) : Text :=
  (text.reverse.takeWhile (· ≠ '\n')).reverse

theorem lastLine_append
    {line : Text}
    (noBreak : '\n' ∉ line)
    (front : Text) :
    lastLine (front ++ line) = lastLine front ++ line := by
  have passed : ∀ character ∈ line.reverse, decide (character ≠ '\n') = true := by
    intro character member
    simpa using ne_of_mem_of_not_mem (List.mem_reverse.mp member) noBreak
  rw [lastLine, lastLine, List.reverse_append, List.takeWhile_append_of_pos passed,
    List.reverse_append, List.reverse_reverse]

theorem lastLine_of_wholeLines
    {text : Text}
    (wholeLines : text.WholeLines) :
    lastLine text = [] := by
  rcases wholeLines.eq_nil_or with rfl | ⟨front, rfl⟩
  · rfl
  · rw [lastLine, List.reverse_concat, List.takeWhile_cons_of_neg (by simp), List.reverse_nil]

/-- Up to its last line feed a text is made of whole lines. -/
theorem exists_wholeLines_append (text : Text) :
    ∃ whole line, text = whole ++ line ∧ whole.WholeLines ∧ '\n' ∉ line := by
  induction text with
  | nil => exact ⟨[], [], rfl, by decide, List.not_mem_nil⟩
  | cons first text hypothesis =>
    obtain ⟨whole, line, rfl, wholeLines, noBreak⟩ := hypothesis
    by_cases startsLine : whole = [] ∧ first ≠ '\n'
    · obtain ⟨rfl, notBreak⟩ := startsLine
      exact
        ⟨[], first :: line, rfl, by decide,
          List.not_mem_cons_of_ne_of_not_mem notBreak.symm noBreak⟩
    · refine ⟨first :: whole, line, rfl, ?_, noBreak⟩
      rcases wholeLines.eq_nil_or with rfl | ⟨front, rfl⟩
      · obtain rfl : first = '\n' := by simpa using startsLine
        decide
      · exact wholeLines_append_newline (first :: front)

/-- A text is cut behind its last line feed in one way. -/
theorem append_inj_of_wholeLines
    {whole line otherWhole otherLine : Text}
    (same : whole ++ line = otherWhole ++ otherLine)
    (wholeLines : whole.WholeLines)
    (noBreak : '\n' ∉ line)
    (otherWholeLines : otherWhole.WholeLines)
    (otherNoBreak : '\n' ∉ otherLine) :
    whole = otherWhole ∧ line = otherLine := by
  have last := lastLine_append noBreak whole
  rw [same, lastLine_append otherNoBreak, lastLine_of_wholeLines wholeLines,
    lastLine_of_wholeLines otherWholeLines, List.nil_append, List.nil_append] at last
  subst last
  exact ⟨List.append_cancel_right same, rfl⟩

end Text

/-! ## Characters outside literals -/

namespace Literal

/--
The characters outside literals of a text that is reached with a mark open or not.  The end of a
line closes an open literal.
-/
def outsideFrom (mark : Option Char) : Text → Text
  | [] => []
  | current :: rest =>
    let mark := if current = '\n' then none else mark
    let later := outsideFrom (after mark current) rest
    if covers mark current then later else current :: later

/-- The characters of a text outside literals. -/
def outside (text : Text) : Text :=
  outsideFrom none text

theorem outsideFrom_sublist
    (mark : Option Char)
    (text : Text) :
    (outsideFrom mark text).Sublist text := by
  induction text generalizing mark with
  | nil => exact List.Sublist.refl []
  | cons current rest hypothesis =>
    rw [outsideFrom]
    generalize (if current = '\n' then none else mark) = mark
    by_cases covered : covers mark current = true
    · rw [if_pos covered]
      exact (hypothesis _).cons current
    · rw [if_neg covered]
      exact (hypothesis _).cons_cons current

end Literal

theorem Statement.parens_eq_count_sub_count (text : Text) :
    parens text = (text.count '(' : Int) - text.count ')' := by
  induction text with
  | nil => rfl
  | cons first rest hypothesis =>
    rw [parens_cons, hypothesis, List.count_cons, List.count_cons, parenChange]
    by_cases opens : first = '('
    · subst opens
      have notClosing : ('(' == ')') = false := by decide
      simp only [beq_self_eq_true, if_true, Int.natCast_add, notClosing, Bool.false_eq_true,
        if_false]
      omega
    · by_cases closes : first = ')'
      · subst closes
        simp [opens]
        omega
      · simp [opens, closes]

/-! ## Depth -/

namespace Depth

/-- A bracket changes the depth, unless it belongs to a literal. -/
theorem step_eq
    (depth : Depth)
    (current : Char) :
    depth.step current =
      let mark := if current = '\n' then none else depth.mark
      { braces :=
          depth.braces + if Literal.covers mark current then 0 else Block.braceChange current
        parens :=
          depth.parens + if Literal.covers mark current then 0 else Statement.parenChange current
        mark := Literal.after mark current } := by
  rw [step]
  generalize (if current = '\n' then none else depth.mark) = mark
  dsimp only
  by_cases covered : Literal.covers mark current = true
  · simp only [if_pos covered, Int.add_zero]
  · simp only [if_neg covered, Block.braceChange, Statement.parenChange]
    by_cases opensBrace : current = '{'
    · subst opensBrace
      simp
    · by_cases closesBrace : current = '}'
      · subst closesBrace
        simp [Int.sub_eq_add_neg]
      · by_cases opens : current = '('
        · subst opens
          simp
        · by_cases closes : current = ')' <;>
            simp [opensBrace, closesBrace, opens, closes, Int.sub_eq_add_neg]

/-- The brackets outside literals are counted. -/
theorem after_eq
    (depth : Depth)
    (text : Text) :
    (depth.after text).braces =
        depth.braces + Block.braces (Literal.outsideFrom depth.mark text) ∧
      (depth.after text).parens =
        depth.parens + Statement.parens (Literal.outsideFrom depth.mark text) := by
  induction text generalizing depth with
  | nil => simp [Literal.outsideFrom]
  | cons current rest hypothesis =>
    obtain ⟨braces, parens⟩ := hypothesis (depth.step current)
    rw [after_cons, braces, parens, step_eq, Literal.outsideFrom]
    dsimp only
    generalize (if current = '\n' then none else depth.mark) = mark
    by_cases covered : Literal.covers mark current = true
    · simp [covered]
    · simp [covered, Int.add_assoc]

theorem mark_after_newline
    (depth : Depth)
    (text : Text) :
    (depth.after (text ++ ['\n'])).mark = none := by
  rw [after_append, after_cons, after_nil, step_eq]
  rfl

theorem mark_after
    {depth : Depth}
    {text : Text}
    (noMark : depth.mark = none)
    (wholeLines : text.WholeLines) :
    (depth.after text).mark = none := by
  rcases wholeLines.eq_nil_or with rfl | ⟨front, rfl⟩
  · exact noMark
  · exact depth.mark_after_newline front

end Depth

/-- Whole lines that open as many braces and parentheses outside literals as they close. -/
structure Text.EvenLines (text : Text) : Prop where
  wholeLines : text.WholeLines
  braces : (Literal.outside text).count '{' = (Literal.outside text).count '}'
  parens : (Literal.outside text).count '(' = (Literal.outside text).count ')'

/-- Even lines leave the depth as it is. -/
theorem Depth.after_evenLines
    {depth : Depth}
    {text : Text}
    (noMark : depth.mark = none)
    (evenLines : text.EvenLines) :
    depth.after text = depth := by
  have counted := depth.after_eq text
  have stillNoMark := mark_after noMark evenLines.wholeLines
  have braces := Block.braces_eq_count_sub_count (Literal.outside text)
  have parens := Statement.parens_eq_count_sub_count (Literal.outside text)
  rw [evenLines.braces, Int.sub_self, Literal.outside] at braces
  rw [evenLines.parens, Int.sub_self, Literal.outside] at parens
  rw [noMark, braces, parens, Int.add_zero, Int.add_zero] at counted
  obtain ⟨sameBraces, sameParens⟩ := counted
  generalize depth.after text = reached at sameBraces sameParens stillNoMark ⊢
  obtain ⟨_, _, _⟩ := reached
  obtain ⟨_, _, _⟩ := depth
  simp_all

end ClassOutline
