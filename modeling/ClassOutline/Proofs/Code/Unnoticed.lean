import ClassOutline.Proofs.Code.Forms
import ClassOutline.Proofs.Code.Inert
import ClassOutline.Proofs.Member.Functions
/-!
# Functions that the scan does not notice

A generated function goes unnoticed if its result type, its name, its parameters, its initializers
and its statements are inert, if the parentheses of each are closed, if no mark of a pointer stands
where the parameters begin, and if no equals sign stands in front of them, unless the function is an
operator.
-/

namespace ClassOutline.Code

open Written

/-! ## Alphabets -/

/-- The marks in the names and the types of an outline. -/
def nameMarks : Text :=
  ":<>, *&".toList

/-- The marks of generated code outside parentheses, statements and literals. -/
def plainMarks : Text :=
  nameMarks ++ "\t~=.-".toList

/-- The marks of a generated function up to its first statement. -/
def headerMarks : Text :=
  plainMarks ++ "()".toList

/-- The marks of a statement without parentheses. -/
def literalMarks : Text :=
  plainMarks ++ ";\"[]".toList

/-- The marks of a line of generated code. -/
def lineMarks : Text :=
  literalMarks ++ "()".toList

variable {marks text : Text}

namespace Inert

theorem of_isInfix
    {part : Text}
    (inert : Inert marks text)
    (isPart : part <:+: text) :
    Inert marks part where
  characters character member := inert.characters character (isPart.subset member)
  lacks word isSought := (inert.lacks word isSought).of_isInfix isPart

theorem plain
    (inert : Inert nameMarks text) :
    Inert plainMarks text :=
  inert.mono (by decide)

theorem header
    (inert : Inert plainMarks text) :
    Inert headerMarks text :=
  inert.mono (by decide)

theorem line
    (inert : Inert headerMarks text) :
    Inert lineMarks text :=
  inert.mono (by decide)

theorem bare
    (inert : Inert headerMarks text) :
    Statement.Bare text := by
  have marksBare : Statement.Bare headerMarks := by decide
  intro character member
  rcases inert.characters character member with isName | isMark
  · obtain ⟨noEnd, -, -, -, -, noMark, noBreak⟩ :=
      Statement.ne_of_cuts (cuts_eq_false_of_isNameCharacter isName)
    exact ⟨noEnd, noBreak, noMark⟩
  · exact marksBare character isMark

theorem braceless
    (inert : Inert lineMarks text) :
    Block.Braceless text := by
  intro character member
  exact
    ⟨fun opens => inert.not_mem (by decide) (by decide) (opens ▸ member),
      fun closes => inert.not_mem (by decide) (by decide) (closes ▸ member)⟩

theorem parens_eq_zero
    (inert : Inert plainMarks text) :
    Statement.parens text = 0 := by
  have parenless : Statement.Parenless text := fun character member =>
    ⟨fun opens => inert.not_mem (by decide) (by decide) (opens ▸ member),
      fun closes => inert.not_mem (by decide) (by decide) (closes ▸ member)⟩
  exact parenless.parens_eq_zero

end Inert

/-! ## Unnoticed functions -/

/-- A text of a function with closed parentheses in which nothing is found. -/
structure Closed (text : Text) : Prop where
  inert : Inert headerMarks text
  parens : Statement.parens text = 0

theorem closed_of_plain
    (inert : Inert plainMarks text) :
    Closed text :=
  ⟨inert.header, inert.parens_eq_zero⟩

/-- An argument in parentheses behind a name. -/
theorem closed_call
    {name value : Text}
    (closedName : Closed name)
    (closedValue : Closed value) :
    Closed (name ++ ['('] ++ value ++ [')']) := by
  have opening : Sealed headerMarks ['('] := by decide
  have closing : Sealed headerMarks [')'] := by decide
  have front := closedName.inert.append_sealed opening (by decide)
  refine ⟨((front.append closedValue.inert).append_sealed closing (by decide)).toInert, ?_⟩
  simp [closedName.parens, closedValue.parens, Statement.parenChange]

/-- The names of operators. -/
def operatorNames : List Text :=
  ["operator=".toList, "operator<<".toList, "operator==".toList, "operator bool".toList]

/-- The words in front of a signature. -/
def specifiers : List Text :=
  [[], "friend ".toList, "explicit ".toList]

/-- The name of a constructor, a destructor, an accessor or an operator. -/
def IsLabel (label : Text) : Prop :=
  label ∈ operatorNames ∨ Inert ('~' :: nameMarks) label

/-- What stands behind the parenthesis that opens the parameters. -/
structure IsParameterList (behind : Text) : Prop where
  inert : Inert headerMarks behind
  parens : Statement.parens behind = -1
  begins : ∃ first ∈ behind.head?, isNameCharacter first = true ∨ first = ')'

/-- What may stand behind the parameters. -/
def closings : List Text :=
  [")".toList, ") const".toList]

theorem isParameterList_closing :
    ∀ closing ∈ closings, IsParameterList closing := by
  have parts : ∀ closing ∈ closings, Inert headerMarks closing ∧ Statement.parens closing = -1 ∧
      ∃ first ∈ closing.head?, isNameCharacter first = true ∨ first = ')' := by
    decide
  intro closing isClosing
  obtain ⟨inert, parens, begins⟩ := parts closing isClosing
  exact ⟨inert, parens, begins⟩

/-- A text that begins with a name and closes its parentheses may stand as the parameters. -/
theorem isParameterList_append
    {closing : Text}
    (closed : Closed text)
    (begins : ∃ first ∈ text.head?, isNameCharacter first = true)
    (isClosing : closing ∈ closings) :
    IsParameterList (text ++ closing) := by
  have noLower : ∀ closing ∈ closings, ∀ first ∈ closing.head?, first.isLower = false := by decide
  obtain ⟨first, isFirst, isName⟩ := Text.exists_head?_append begins closing
  have list := isParameterList_closing closing isClosing
  refine ⟨closed.inert.append list.inert (noLower closing isClosing), ?_,
    first, isFirst, .inl isName⟩
  rw [Statement.parens_append, closed.parens, list.parens]
  rfl

/-- A body goes unnoticed if its statements are inert and each closes its parentheses. -/
def IsUnnoticedBody : FunctionBody → Prop
  | .empty _ => True
  | .line statement => ∃ text, statement = text ++ [';'] ∧ Closed text
  | .block statements => ∀ statement ∈ statements,
      Inert lineMarks statement ∧ (Body.depthInFunction.after statement).parens = 0

/-- Parentheses are counted by their places alone. -/
theorem parens_after
    (depth : Depth)
    (parenless : Statement.Parenless text) :
    (depth.after text).parens = depth.parens := by
  induction text generalizing depth with
  | nil => rfl
  | cons first text hypothesis =>
    obtain ⟨noOpening, noClosing⟩ := parenless first List.mem_cons_self
    have one : (depth.step first).parens = depth.parens := by
      simp only [Depth.step, if_neg noOpening, if_neg noClosing]
      repeat' split
      all_goals rfl
    rw [Depth.after_cons, hypothesis _ fun character member =>
      parenless character (List.mem_cons_of_mem _ member), one]

/-- A statement of closed text. -/
theorem statement_of_closed
    (closed : Closed text) :
    Inert lineMarks (text ++ [';']) ∧
      (Body.depthInFunction.after (text ++ [';'])).parens = 0 := by
  have ending : Sealed lineMarks [';'] := by decide
  have unquoted : ∀ character ∈ text ++ [';'], Literal.isMark character = false := by
    intro character member
    rcases List.mem_append.mp member with inText | isEnd
    · exact (closed.inert.bare character inText).2.2
    · obtain rfl := List.mem_singleton.mp isEnd
      decide
  refine ⟨(closed.inert.line.append_sealed ending (by decide)).toInert, ?_⟩
  rw [Depth.after_unquoted _ unquoted rfl, Statement.parens_append, closed.parens]
  rfl

/-- The scan finds nothing in the text of the function. -/
structure Unnoticed (function : GeneratedFunction) : Prop where
  specifier : function.specifier ∈ specifiers
  result : Sealed nameMarks function.result
  declarator : ∃ label behind,
    function.declarator = label ++ '(' :: behind ∧ IsLabel label ∧ IsParameterList behind
  initializers : ∀ initializer ∈ function.initializers, Closed initializer
  body : IsUnnoticedBody function.body

end ClassOutline.Code
