import ClassOutline.Proofs.Member.Brackets
import ClassOutline.Proofs.Member.Functions
import ClassOutline.Proofs.Written.Siblings
/-!
# Declarations of methods

A method is declared on a line with the type of its result, a name, a list of parameters and perhaps
further words.  Only the first parenthesis of the line tells it from one that declares data, and
that may be a parenthesis in the type of the result.  If what stands around it makes a function of
the line, the class is read as though the line were not there.  Otherwise the line declares a member
or leaves a declaration unresolved, unless a keyword bars it.
-/

namespace ClassOutline

/-- Parentheses that are closed in the order in which they are opened. -/
structure Text.MatchesParens (text : Text) : Prop where
  opened : ∀ front, front <+: text → front.count ')' ≤ front.count '('
  closed : text.count '(' = text.count ')'

instance (text : Text) : Decidable text.MatchesParens :=
  decidable_of_iff
    ((∀ front ∈ text.inits, front.count ')' ≤ front.count '(') ∧
      text.count '(' = text.count ')') <| by
    constructor
    · rintro ⟨opened, closed⟩
      exact ⟨fun front isPrefix => opened front ((List.mem_inits front text).mpr isPrefix), closed⟩
    · rintro ⟨opened, closed⟩
      exact ⟨fun front isInit => opened front ((List.mem_inits front text).mp isInit), closed⟩

namespace Written

/-! ## Lines -/

/-- The words that may follow a list of parameters. -/
def methodSuffixes : List Text :=
  ["".toList, " const".toList, " noexcept".toList, " const override".toList]

/-- The declaration of a method. -/
structure MethodLine where
  /-- The type of the result, perhaps with a mark of a pointer or reference. -/
  result : Text
  name : Word
  parameters : Text
  suffix : Text
  begins : ∃ first ∈ result.head?, Text.isBlank first = false
  bare : Statement.Bare result
  braceless : Block.Braceless result
  closed : result.count '(' = result.count ')'
  /-- Commas and equals signs stand among the arguments of templates. -/
  guards : Declaration.GuardsMarks result
  oneLine : '\n' ∉ parameters
  matched : parameters.MatchesParens
  /-- Parentheses in literals are not needed for the others to match. -/
  matchedOutside : (Literal.outside parameters).MatchesParens
  noLiteral : Literal.afterText none parameters = none
  isSuffix : suffix ∈ methodSuffixes

namespace MethodLine

variable (line : MethodLine)

/-- What stands in front of the parameters. -/
def front : Text :=
  line.result ++ ' ' :: line.name.text

/-- What stands behind the parameters. -/
def behind : Text :=
  ')' :: line.suffix

/-- The text of the line without its semicolon. -/
def text : Text :=
  line.front ++ ['('] ++ (line.parameters ++ line.behind)

/-- The text of the line. -/
def statement : Text :=
  line.text ++ [';']

/-- One of the keywords that introduce something else stands alone where it occurs first. -/
def IsBarred : Prop :=
  ∃ keyword ∈ Shape.otherKeywords, (Reserved.first? keyword line.statement).isSome = true

/-- Around the first parenthesis, nothing makes data of the line. -/
def IsFunction : Prop :=
  ∀ front behind, line.statement = front ++ '(' :: behind → '(' ∉ front →
    (∀ mark ∈ (behind.dropWhile Reserved.isDelimiter).head?, mark ≠ '&' ∧ mark ≠ '*') ∧
      front.Lacks "function<".toList ∧
        ('=' ∉ front ∨ "operator".toList <:+: line.statement)

/-- What the line declares in the body of a class. -/
def body : Body :=
  Body.ofPieces Body.depthInBody [line.statement]

/-! ## The line as a statement -/

theorem name_not_mem
    {mark : Char}
    (noName : isNameCharacter mark = false) :
    mark ∉ line.name.text :=
  line.name.isWord.not_mem noName

theorem bare_front : Statement.Bare line.front := by
  have ofName : Statement.Bare (' ' :: line.name.text) := by
    intro character member
    rcases List.mem_cons.mp member with rfl | inName
    · decide
    · obtain ⟨noEnd, -, -, -, -, noMark, noBreak⟩ := Statement.ne_of_cuts
        (cuts_eq_false_of_isNameCharacter (line.name.isWord.2 character inName))
      exact ⟨noEnd, noBreak, noMark⟩
  exact line.bare.append ofName

theorem brace_not_mem_front : '{' ∉ line.front := by
  intro member
  rcases List.mem_append.mp member with inResult | inName
  · exact (line.braceless _ inResult).1 rfl
  · have noBrace : '{' ∉ line.name.text := line.name_not_mem (by decide)
    exact noBrace (by simpa using inName)

theorem count_front
    {mark : Char}
    (noName : isNameCharacter mark = false)
    (noBlank : mark ≠ ' ') :
    line.front.count mark = line.result.count mark := by
  have absent : (' ' :: line.name.text).count mark = 0 :=
    List.count_eq_zero.mpr (by simpa [noBlank] using line.name_not_mem noName)
  rw [front, List.count_append, absent, Nat.add_zero]

theorem parens_front : Statement.parens line.front = 0 := by
  rw [Statement.parens_eq_count_sub_count, line.count_front (by decide) (by decide),
    line.count_front (by decide) (by decide), line.closed, Int.sub_self]

theorem facts_behind :
    Statement.Bare line.behind ∧ '{' ∉ line.behind ∧ Statement.parens line.behind = -1 ∧
      (∀ mark ∈ Declaration.droppedMarks, mark ∉ line.behind) := by
  have facts : ∀ suffix ∈ methodSuffixes, Statement.Bare (')' :: suffix) ∧ '{' ∉ ')' :: suffix ∧
      Statement.parens (')' :: suffix) = -1 ∧
        ∀ mark ∈ Declaration.droppedMarks, mark ∉ ')' :: suffix := by decide
  exact facts line.suffix line.isSuffix

/-- The line is a single piece, whatever stands among its parameters. -/
theorem pieces_statement
    {indent : Text}
    (isIndent : Body.IsIndent indent) :
    Statement.pieces (indent ++ line.statement ++ ['\n']) =
      [indent ++ line.statement, ['\n']] := by
  obtain ⟨bareBehind, noBraceBehind, parensBehind, -⟩ := line.facts_behind
  have bareParenthesis : Statement.Bare ['('] := by decide
  have shape : indent ++ line.statement ++ ['\n'] =
      indent ++ line.front ++ ['('] ++ (line.parameters ++ (line.behind ++ [';', '\n'])) := by
    simp [statement, text]
  rw [shape, Statement.pieces]
  generalize Statement.beginsType _ = nested
  have ended : Statement.piecesFrom nested none 1 (line.behind ++ [';', '\n']) =
      [line.behind ++ [';'], ['\n']] := by
    refine Statement.piecesFrom_bare_append bareBehind (fun _ => noBraceBehind) ?_
    rw [parensBehind]
    exact Statement.piecesFrom_semicolon nested ['\n']
  have enclosed : Statement.piecesFrom nested none 1
      (line.parameters ++ (line.behind ++ [';', '\n'])) =
        [line.parameters ++ (line.behind ++ [';']), ['\n']] := by
    refine Statement.piecesFrom_enclosed_append line.oneLine (fun front isPrefix => ?_) ?_
    · have opened := line.matchedOutside.opened front isPrefix
      rw [Statement.parens_eq_count_sub_count]
      omega
    · have closed : Statement.parens (Literal.outsideFrom none line.parameters) = 0 := by
        rw [Statement.parens_eq_count_sub_count]
        exact Int.sub_eq_zero_of_eq (congrArg Int.ofNat line.matchedOutside.closed)
      rw [line.noLiteral, closed]
      exact ended
  have split : Statement.piecesFrom nested none 0
      (indent ++ line.front ++ ['('] ++ (line.parameters ++ (line.behind ++ [';', '\n']))) =
        [indent ++ line.front ++ ['('] ++ (line.parameters ++ (line.behind ++ [';'])), ['\n']] := by
    refine Statement.piecesFrom_bare_append
      ((isIndent.plain.bare.append line.bare_front).append bareParenthesis) (fun _ => ?_) ?_
    · have noIndent : '{' ∉ indent := isIndent.plain.not_mem (by decide)
      simpa using ⟨noIndent, line.brace_not_mem_front⟩
    · rw [Statement.parens_append, Statement.parens_append,
        isIndent.plain.parenless.parens_eq_zero, line.parens_front]
      exact enclosed
  rw [split]
  simp [statement, text]

/-! ## What the line declares -/

theorem begins_text : ∃ first ∈ line.text.head?, Text.isBlank first = false := by
  rw [text, front, List.append_assoc, List.append_assoc]
  exact Text.exists_head?_append line.begins _

theorem begins_statement : ∃ first ∈ line.statement.head?, Text.isBlank first = false :=
  Text.exists_head?_append line.begins_text _

/-- All marks that might not be kept stand between brackets. -/
theorem guardsMarks_text : Declaration.GuardsMarks line.text := by
  intro before mark after shape isMark
  have noName : ∀ mark ∈ Declaration.droppedMarks, isNameCharacter mark = false ∧ mark ≠ ' ' ∧
      mark ≠ '(' := by
    decide
  obtain ⟨notLetter, notSpace, notParenthesis⟩ := noName mark isMark
  obtain ⟨-, -, -, foreignBehind⟩ := line.facts_behind
  rcases Text.of_append_eq_append_cons shape with ⟨inner, inFront⟩ | ⟨outer, rfl, inRest⟩
  · have frontShape : line.result ++ (' ' :: line.name.text ++ ['(']) = before ++ mark :: inner := by
      simpa [front] using inFront
    rcases Text.of_append_eq_append_cons frontShape with ⟨inner, inResult⟩ | ⟨outer, -, inName⟩
    · exact line.guards before mark inner inResult isMark
    · have member : mark ∈ ' ' :: line.name.text ++ ['('] := by simp [inName]
      exact absurd member (by simp [notSpace, notParenthesis, line.name_not_mem notLetter])
  · rcases Text.of_append_eq_append_cons inRest with ⟨inner, inParameters⟩ | ⟨outer, -, inBehind⟩
    · -- Up to the mark, the parenthesis in front of the parameters is not closed.
      left
      have opened := line.matched.opened outer (inParameters ▸ List.prefix_append _ _)
      have closed := line.closed
      have opening : List.count '(' ['('] = 1 := rfl
      have closing : List.count ')' ['('] = 0 := rfl
      simp only [List.count_append, opening, closing]
      rw [line.count_front (by decide) (by decide), line.count_front (by decide) (by decide)]
      omega
    · exact absurd (by simp [inBehind]) (foreignBehind mark isMark)

theorem parenthesis_mem : '(' ∈ line.statement := by
  simp [statement, text]

/-- What is asked of the first parenthesis makes the shape of a function. -/
theorem isFunction_iff : line.IsFunction ↔ Shape.ofText line.statement = .function := by
  constructor
  · intro isFunction
    obtain ⟨front, behind, shape, first⟩ := List.eq_append_cons_of_mem line.parenthesis_mem
    have reads := isFunction front behind shape first
    rw [shape] at reads ⊢
    exact (Shape.ofText_append_cons_eq_function_iff first behind).mpr reads
  · intro isFunction front behind shape first
    rw [shape] at isFunction ⊢
    exact (Shape.ofText_append_cons_eq_function_iff first behind).mp isFunction

/-- If the line has the shape of data, it declares a member or is not resolved. -/
theorem membersOf_ne_ok_nil (shape : Shape) : Body.membersOf shape line.statement ≠ .ok [] := by
  rw [Body.membersOf]
  split
  · cases FunctionPointer.member line.statement with
    | error failure => simp [Except.map]
    | ok member => simp [Except.map]
  · exact Declaration.members_ne_ok_nil line.begins_text line.guardsMarks_text

theorem ofStatement?_statement :
    (line.IsBarred ∧ Shape.ofStatement? line.statement = none) ∨
      (¬ line.IsBarred ∧
        Shape.ofStatement? line.statement = some (Shape.ofText line.statement)) := by
  have noPunctuation : Shape.punctuation.contains line.statement = false := by
    have lackOne : ∀ sign ∈ Shape.punctuation, '(' ∉ sign ∨ ';' ∉ sign := by decide
    rw [← Bool.not_eq_true, List.contains_iff_mem]
    intro isPunctuation
    rcases lackOne _ isPunctuation with noParenthesis | noSemicolon
    · exact noParenthesis line.parenthesis_mem
    · exact noSemicolon (by simp [statement])
  have barred : (Shape.otherKeywords.any fun keyword =>
      (Reserved.first? keyword line.statement).isSome) = true ↔ line.IsBarred :=
    List.any_eq_true
  rw [Shape.ofStatement?, noPunctuation, Bool.false_or]
  by_cases isBarred : line.IsBarred
  · rw [if_pos (barred.mpr isBarred)]
    exact .inl ⟨isBarred, rfl⟩
  · rw [if_neg (barred.not.mpr isBarred)]
    exact .inr ⟨isBarred, rfl⟩

theorem found?_statement :
    Body.found? Body.depthInBody line.statement =
      ((Shape.ofStatement? line.statement).filter Shape.isData).map fun shape =>
        Body.membersOf shape line.statement := by
  have solid : Text.Solid line.statement :=
    Text.solid_append_singleton line.begins_text (by decide)
  have indentation : Text.indentation line.statement = [] := by
    obtain ⟨first, isFirst, notBlank⟩ := line.begins_statement
    obtain ⟨rest, shape⟩ := List.head?_eq_some_iff.mp (Option.mem_def.mp isFirst)
    rw [shape, Text.indentation, List.takeWhile_cons_of_neg (by simp [notBlank])]
  rw [Body.found?, Text.trim_of_solid solid, indentation]
  cases (Shape.ofStatement? line.statement).filter Shape.isData <;> rfl

/-- The line declares nothing exactly if it is barred or a function. -/
theorem body_eq_nil_iff : line.body = {} ↔ line.IsBarred ∨ line.IsFunction := by
  rw [body, Body.ofPieces, line.found?_statement, line.isFunction_iff]
  rcases line.ofStatement?_statement with ⟨isBarred, noShape⟩ | ⟨notBarred, hasShape⟩
  · rw [noShape]
    exact iff_of_true rfl (.inl isBarred)
  · by_cases isFunction : Shape.ofText line.statement = .function
    · rw [hasShape, isFunction]
      exact iff_of_true rfl (.inr rfl)
    · have isData : (Shape.ofStatement? line.statement).filter Shape.isData =
          some (Shape.ofText line.statement) := by
        rw [hasShape]
        simp [Option.filter, Shape.isData, isFunction]
      have someMember := line.membersOf_ne_ok_nil (Shape.ofText line.statement)
      rw [isData, Option.map_some]
      refine iff_of_false (fun empty => ?_) (by simp [notBarred, isFunction])
      cases found : Body.membersOf (Shape.ofText line.statement) line.statement with
      | error failure =>
        rw [found] at empty
        exact absurd (congrArg Body.unresolved empty) (Nat.succ_ne_zero _)
      | ok members =>
        rw [found] at empty someMember
        have noMember : members ++ [] = [] := congrArg Body.members empty
        rw [List.append_nil] at noMember
        exact someMember (congrArg Except.ok noMember)

/-- In the body of a class, the line declares what it declares, and the next line is read. -/
theorem ofRest_statement
    {indent : Text}
    (isIndent : Body.IsIndent indent)
    (rest : Text) :
    Body.ofRest Body.depthInBody (indent ++ line.statement ++ '\n' :: rest) =
      line.body ++
        Body.ofRest (Body.depthInBody.after (indent ++ line.statement ++ ['\n'])) rest := by
  have noBreak : '\n' ∉ indent ++ line.statement := by
    obtain ⟨bareBehind, -⟩ := line.facts_behind
    have inIndent := isIndent.plain.bare.newline_not_mem
    have inFront := line.bare_front.newline_not_mem
    have inBehind := bareBehind.newline_not_mem
    simp [statement, text, inIndent, inFront, line.oneLine, inBehind]
  have alone : Body.ofPieces Body.depthInBody [indent ++ line.statement, ['\n']] = line.body := by
    rw [body, Body.ofPieces, Body.ofPieces, Body.found?_newline,
      Body.found?_indent isIndent line.begins_statement]
    rfl
  have flattened : [indent ++ line.statement, ['\n']].flatten =
      indent ++ line.statement ++ ['\n'] := by
    simp
  rw [Body.ofRest_append_cons _ noBreak, line.pieces_statement isIndent, Body.ofPieces_append, alone,
    flattened]
  rfl

end MethodLine

/--
A class is read as without the declaration of a method exactly if the declaration is barred or a
function.
-/
theorem ofText_classAround_methodLine_iff
    {name before indent : Text}
    (isWord : IsWord name)
    (evenLines : before.EvenLines)
    (isIndent : Body.IsIndent indent)
    (line : MethodLine) :
    (Body.ofText (classAround name (before ++ (indent ++ line.statement ++ ['\n']))) =
        Body.ofText (classAround name before) ↔ line.IsBarred ∨ line.IsFunction) ∧
      ((indent ++ line.statement ++ ['\n']).EvenLines → ∀ behind,
        Body.ofText (classAround name (before ++ (indent ++ line.statement ++ ['\n']) ++ behind)) =
            Body.ofText (classAround name (before ++ behind)) ↔
          line.IsBarred ∨ line.IsFunction) := by
  have withLine (behind : Text) :
      Body.ofText (classAround name (before ++ (indent ++ line.statement ++ ['\n']) ++ behind)) =
        Body.ofRest Body.depthInBody before ++ (line.body ++
          Body.ofRest (Body.depthInBody.after (indent ++ line.statement ++ ['\n']))
            (behind ++ ['}'])) := by
    have shape : before ++ (indent ++ line.statement ++ ['\n']) ++ behind ++ ['}'] =
        before ++ (indent ++ line.statement ++ '\n' :: (behind ++ ['}'])) := by
      simp
    rw [ofText_classAround isWord, shape, Body.ofRest_evenLines_append evenLines,
      line.ofRest_statement isIndent]
  have withoutLine (behind : Text) :
      Body.ofText (classAround name (before ++ behind)) =
        Body.ofRest Body.depthInBody before ++ Body.ofRest Body.depthInBody (behind ++ ['}']) := by
    rw [ofText_classAround isWord, List.append_assoc, Body.ofRest_evenLines_append evenLines]
  rw [← line.body_eq_nil_iff]
  constructor
  · have alone := withLine []
    have without := withoutLine []
    rw [List.append_nil, List.nil_append, Body.ofRest_closingBrace] at alone without
    rw [alone, without, Body.append_right_inj, Body.append_nil]
  · intro evenLine behind
    rw [withLine, withoutLine, Depth.after_evenLines rfl evenLine, Body.append_right_inj,
      Body.append_eq_right_iff]

/-- A method with a comma in the type of its result, and with a semicolon in a literal. -/
theorem ofText_classAround_methodLine_literal :
    ∃ line : MethodLine,
      line.statement = "map<int, T*>& at(char c = ';', int n = f(1)) const;".toList ∧
        IsWord "N".toList ∧ Text.EvenLines "bool b;\n".toList ∧ Body.IsIndent "  ".toList ∧
          Text.EvenLines ("  ".toList ++ line.statement ++ ['\n']) ∧
            (Body.ofText (classAround "N".toList ("bool b;\n".toList ++
              ("  ".toList ++ line.statement ++ ['\n']) ++ "int a;\n".toList))).members.map
                DataMember.name = ["b".toList, "a".toList] := by
  let line : MethodLine :=
    { result := "map<int, T*>&".toList
      name := ⟨"at".toList, by decide⟩
      parameters := "char c = ';', int n = f(1)".toList
      suffix := " const".toList
      begins := ⟨'m', rfl, rfl⟩
      bare := by decide
      braceless := by decide
      closed := by decide
      guards := by decide
      oneLine := by decide
      matched := by decide
      matchedOutside := by decide
      noLiteral := by decide
      isSuffix := by decide }
  have isWord : IsWord "N".toList := by decide
  have evenLines : Text.EvenLines "bool b;\n".toList := ⟨by decide, by decide, by decide⟩
  have isIndent : Body.IsIndent "  ".toList := by decide
  have isText : line.statement = "map<int, T*>& at(char c = ';', int n = f(1)) const;".toList := by
    decide
  have evenLine : Text.EvenLines ("  ".toList ++ line.statement ++ ['\n']) := by
    rw [isText]
    exact ⟨by decide, by decide, by decide⟩
  have isFunction : line.IsFunction := by
    rw [line.isFunction_iff, isText]
    decide
  obtain ⟨-, unread⟩ := ofText_classAround_methodLine_iff isWord evenLines isIndent line
  refine ⟨line, isText, isWord, evenLines, isIndent, evenLine, ?_⟩
  rw [(unread evenLine "int a;\n".toList).mpr (.inr isFunction)]
  decide

/-- The line `std::function<void(int)> f(int);`. -/
def functionResult : MethodLine where
  result := "std::function<void(int)>".toList
  name := ⟨"f".toList, by decide⟩
  parameters := "int".toList
  suffix := []
  begins := ⟨'s', rfl, rfl⟩
  bare := by decide
  braceless := by decide
  closed := by decide
  guards := by decide
  oneLine := by decide
  matched := by decide
  matchedOutside := by decide
  noLiteral := by decide
  isSuffix := by decide

/-- The declaration of a method that returns a function object makes a member of its own. -/
theorem members_functionResult :
    functionResult.statement = "std::function<void(int)> f(int);".toList ∧
      (Body.ofText (classAround "N".toList (functionResult.statement ++ ['\n']))).members =
        [{ name := "f(int)".toList
           declaredType := "std::function<void(int)>".toList }] ∧
        ¬ functionResult.IsBarred ∧ ¬ functionResult.IsFunction := by
  have isText : functionResult.statement = "std::function<void(int)> f(int);".toList := by decide
  refine ⟨isText, ?_, ?_, ?_⟩
  · rw [isText]
    decide
  · rw [MethodLine.IsBarred, isText]
    decide
  · rw [MethodLine.isFunction_iff, isText]
    decide

end Written

end ClassOutline
