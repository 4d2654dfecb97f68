import ClassOutline.Proofs.Code.Unnoticed
/-!
# Texts of generated functions

The text of an unnoticed function begins no declaration and closes the braces that it opens, whether
it stands in the body of a class or behind it.  In the body no data is found in it.
-/

namespace ClassOutline

namespace Code

open Written

/-! ## Idle texts -/

/-- A text that begins no declaration, nests its braces and holds no slash. -/
structure Idle (text : Text) : Prop where
  calm : Block.Calm text
  nested : Block.Nested text
  noSlash : '/' ∉ text

variable {text rest : Text}

theorem idle_nil : Idle [] where
  calm := Block.calm_nil
  nested := Block.Braceless.nested fun _ member => absurd member List.not_mem_nil
  noSlash := List.not_mem_nil

theorem Idle.append
    (idle : Idle text)
    (idleRest : Idle rest) :
    Idle (text ++ rest) where
  calm := idle.calm.append idleRest.calm
  nested := idle.nested.append idleRest.nested
  noSlash member := (List.mem_append.mp member).elim idle.noSlash idleRest.noSlash

theorem idle_flatMap
    {Item : Type}
    {items : List Item}
    {render : Item → Text}
    (idle : ∀ item ∈ items, Idle (render item)) :
    Idle (items.flatMap render) := by
  induction items with
  | nil => exact idle_nil
  | cons item items hypothesis =>
    exact (idle item List.mem_cons_self).append
      (hypothesis fun other member => idle other (List.mem_cons_of_mem _ member))

/-- Blanks and semicolons are idle. -/
theorem idle_of_gap
    (isGap : ∀ character ∈ text, character ∈ [' ', '\t', '\n', ';']) :
    Idle text where
  calm := by
    have foreign : ∀ character ∈ [' ', '\t', '\n', ';'], ∀ word ∈ Block.declarationWords,
        character ∉ word := by
      decide
    exact Block.calm_of_foreign fun character member => foreign character (isGap character member)
  nested := by
    have noBrace : ∀ character ∈ [' ', '\t', '\n', ';'], character ≠ '{' ∧ character ≠ '}' := by
      decide
    exact Block.Braceless.nested fun character member => noBrace character (isGap character member)
  noSlash member := absurd (isGap '/' member) (by decide)

theorem Idle.enclosed
    (idle : Idle text) :
    Idle ('{' :: (text ++ ['}'])) where
  calm := by
    have opening : Block.Calm ['{'] := Block.calm_of_foreign (by decide)
    have closing : Block.Calm ['}'] := Block.calm_of_foreign (by decide)
    exact opening.append (idle.calm.append closing)
  nested := idle.nested.enclosed
  noSlash := by simpa using idle.noSlash

theorem mem_soughtWords_of_mem_declarationWords :
    ∀ word ∈ Block.declarationWords, word ∈ soughtWords := by
  decide

/-- An inert text is idle together with what follows it. -/
theorem Inert.idle_append
    (inert : Inert lineMarks text)
    (idle : Idle rest)
    (begins : ∃ first ∈ rest.head?, first.isLower = false) :
    Idle (text ++ rest) where
  calm := by
    obtain ⟨first, isFirst, notLower⟩ := begins
    obtain ⟨behind, rfl⟩ : ∃ behind, rest = first :: behind := by
      cases rest with
      | nil => contradiction
      | cons head behind => exact ⟨behind, by rw [Option.some.inj isFirst]⟩
    refine ⟨fun word isWord => ?_, fun last isLast => idle.calm.ends last ?_⟩
    · have isSought := mem_soughtWords_of_mem_declarationWords word isWord
      rw [Text.lacks_append_cons _ _ (not_mem_soughtWord isSought notLower)]
      exact ⟨inert.lacks word isSought,
        (idle.calm.lacks word isWord).of_isInfix (List.suffix_cons _ _).isInfix⟩
    · simpa [List.getLast?_append] using isLast
  nested := inert.braceless.nested.append idle.nested
  noSlash member := (List.mem_append.mp member).elim
    (inert.not_mem (by decide) (by decide)) idle.noSlash

theorem parens_commaSeparated
    {entries : List Text}
    (closed : ∀ entry ∈ entries, Statement.parens entry = 0) :
    Statement.parens (commaSeparated entries) = 0 := by
  induction entries with
  | nil => rfl
  | cons entry entries hypothesis =>
    have first := closed entry List.mem_cons_self
    have later := hypothesis fun other member => closed other (List.mem_cons_of_mem _ member)
    have separator : Statement.parens [',', ' '] = 0 := by decide
    rw [commaSeparated] at later ⊢
    cases entries with
    | nil => rwa [List.intercalate_singleton]
    | cons next entries =>
      rw [List.intercalate_cons_cons, Statement.parens_append, Statement.parens_append, first,
        separator, later]
      rfl

/-! ## Signatures of unnoticed functions -/

theorem sealed_indent
    {indent : Text}
    (isIndent : Body.IsIndent indent) :
    Sealed plainMarks indent where
  characters character member := by
    rcases isIndent character member with rfl | rfl <;> exact .inr (by decide)
  lacks word isSought := Text.lacks_of_foreign (soughtWord_ne_nil word isSought)
    fun character member => not_mem_soughtWord isSought (by
      rcases isIndent character member with rfl | rfl <;> decide)
  ends last isLast := by
    rcases isIndent last (List.mem_of_getLast? isLast) with rfl | rfl <;> decide

theorem IsLabel.inert
    {label : Text}
    (isLabel : IsLabel label) :
    Inert plainMarks label := by
  rcases isLabel with isOperator | inert
  · have inertOperators : ∀ name ∈ operatorNames, Inert plainMarks name := by decide
    exact inertOperators label isOperator
  · exact inert.mono (by decide)

/-- No pointer to a function begins with parameters. -/
theorem IsParameterList.notPointer
    {behind : Text}
    (isParameterList : IsParameterList behind) :
    ∃ first ∈ behind.head?, Reserved.isDelimiter first = false ∧ Text.isBlank first = false ∧
      first ∉ ['&', '*'] := by
  obtain ⟨first, isFirst, begins⟩ := isParameterList.begins
  refine ⟨first, isFirst, ?_⟩
  rcases begins with isName | rfl
  · have noNames : ∀ mark ∈ '&' :: '*' :: Reserved.delimiters, isNameCharacter mark = false := by
      decide
    have absent {mark : Char} (isMark : mark ∈ '&' :: '*' :: Reserved.delimiters) :
        first ≠ mark := ne_of_isNameCharacter isName (noNames mark isMark)
    refine ⟨?_, isBlank_eq_false_of_isNameCharacter isName, ?_⟩
    · rw [Reserved.isDelimiter, ← Bool.not_eq_true, List.contains_iff_mem]
      exact fun isDelimiter =>
        absent (List.mem_cons_of_mem _ (List.mem_cons_of_mem _ isDelimiter)) rfl
    · simpa using ⟨@absent '&' (by simp), @absent '*' (by simp)⟩
  · decide

theorem sealed_specifier :
    ∀ specifier ∈ specifiers, Sealed nameMarks specifier := by
  decide

namespace Unnoticed

variable {function : GeneratedFunction} {indent : Text}

/-- The signature in the body of a class is read as that of a function. -/
theorem beginsFunction_signature
    (unnoticed : Unnoticed function)
    (isIndent : Body.IsIndent indent) :
    BeginsFunction (indent ++ function.signature) := by
  obtain ⟨label, behind, shape, isLabel, isParameterList⟩ := unnoticed.declarator
  have indented := sealed_indent isIndent
  have specifier := sealed_specifier _ unnoticed.specifier
  have result := unnoticed.result
  have inert : Inert plainMarks (indent ++ function.specifier ++ function.result ++ label) :=
    ((indented.append_sealed (specifier.mono (by decide))).append_sealed
      (result.mono (by decide))).append isLabel.inert
  refine ⟨indent ++ function.specifier ++ function.result ++ label, behind, ?_, ?_⟩
  · simp [GeneratedFunction.signature, shape]
  · constructor
    · exact inert.not_mem (by decide) (by decide)
    · exact fun word isWord =>
        inert.lacks word (mem_soughtWords_of_mem_declarationWords word isWord)
    · have isPart : "function".toList <:+: "function<".toList := by decide
      have isSought : "function".toList ∈ soughtWords := by decide
      exact fun occurs => inert.lacks _ isSought (isPart.trans occurs)
    · rcases isLabel with isOperator | inertLabel
      · have begins : ∀ name ∈ operatorNames, "operator".toList <:+: name := by decide
        exact .inr ((begins label isOperator).trans (List.suffix_append _ _).isInfix)
      · left
        have noSign {text : Text} {marks : Text} (inert : Inert marks text) (noMark : '=' ∉ marks) :
            '=' ∉ text := inert.not_mem (by decide) noMark
        have indentSign : '=' ∉ indent := fun member => by
          rcases isIndent '=' member with equal | equal <;> exact absurd equal (by decide)
        simpa using ⟨indentSign, noSign specifier.toInert (by decide),
          noSign result.toInert (by decide), noSign inertLabel (by decide)⟩
    · exact isParameterList.notPointer

/-- The signature closes its parentheses, whatever stands in front of the name. -/
theorem closed_append_declarator
    {front : Text}
    (unnoticed : Unnoticed function)
    (inertFront : Sealed plainMarks front) :
    Closed (front ++ function.declarator) := by
  obtain ⟨label, behind, shape, isLabel, isParameterList⟩ := unnoticed.declarator
  have opening : Sealed headerMarks ['('] := by decide
  have inertLabel := inertFront.append isLabel.inert
  have inert : Inert headerMarks (front ++ label ++ ['('] ++ behind) :=
    (inertLabel.header.append_sealed opening (by decide)).append isParameterList.inert
  have shapeOfAll : front ++ function.declarator = front ++ label ++ ['('] ++ behind := by
    simp [shape]
  rw [shapeOfAll]
  refine ⟨inert, ?_⟩
  rw [Statement.parens_append, Statement.parens_append, inertLabel.parens_eq_zero,
    isParameterList.parens]
  rfl

theorem closed_initializerClause
    (unnoticed : Unnoticed function)
    (closed : Closed text) :
    Closed (text ++ function.initializerClause) := by
  rw [GeneratedFunction.initializerClause, initializerList]
  split
  · rwa [List.append_nil]
  · have colon : Sealed headerMarks " : ".toList := by decide
    have parens : Statement.parens (commaSeparated function.initializers) = 0 :=
      parens_commaSeparated fun initializer member =>
        (unnoticed.initializers initializer member).parens
    have inert : Inert headerMarks (commaSeparated function.initializers) :=
      inert_commaSeparated
        (fun initializer member => (unnoticed.initializers initializer member).inert) (by decide)
    rw [← List.append_assoc]
    refine ⟨(closed.inert.append_sealed colon (by decide)).append inert, ?_⟩
    rw [Statement.parens_append, Statement.parens_append, closed.parens, parens]
    rfl

end Unnoticed

/-! ## Bodies of unnoticed functions -/

section Bodies

variable {header outer inner : Text} {body : FunctionBody}

theorem idle_indent
    {indent : Text}
    (isIndent : Body.IsIndent indent) :
    Idle indent :=
  idle_of_gap fun character member => by
    rcases isIndent character member with rfl | rfl <;> decide

/-- A header and a body behind it are idle. -/
theorem idle_append_render
    (isInside : Bool)
    (inert : Inert headerMarks header)
    (unnoticed : IsUnnoticedBody body)
    (isOuter : Body.IsIndent outer)
    (isInner : Body.IsIndent inner) :
    Idle (header ++ (body.render isInside outer inner ++ ['\n'])) := by
  have newline : Idle ['\n'] := idle_of_gap (by decide)
  have space : Idle [' '] := idle_of_gap (by decide)
  cases body with
  | empty closed =>
    have ending : Idle ((if isInside || closed then [';'] else []) ++ ['\n']) := by
      split <;> exact idle_of_gap (by decide)
    rw [FunctionBody.render, List.append_assoc]
    exact inert.line.idle_append (idle_nil.enclosed.append ending) ⟨'{', rfl, by decide⟩
  | line statement =>
    obtain ⟨text, rfl, closed⟩ := unnoticed
    have ending : Idle [';', ' '] := idle_of_gap (by decide)
    have inside : Idle ([' '] ++ (text ++ [';', ' '])) :=
      space.append (closed.inert.line.idle_append ending ⟨';', rfl, by decide⟩)
    have shape : FunctionBody.render isInside outer inner (.line (text ++ [';'])) ++ ['\n'] =
        [' '] ++ ('{' :: ([' '] ++ (text ++ [';', ' ']) ++ ['}']) ++ ['\n']) := by
      simp [FunctionBody.render]
    rw [shape]
    exact inert.line.idle_append (space.append (inside.enclosed.append newline))
      ⟨' ', rfl, by decide⟩
  | block statements =>
    have lines : Idle (statements.flatMap fun statement => inner ++ statement ++ ['\n']) := by
      refine idle_flatMap fun statement member => ?_
      rw [List.append_assoc]
      exact (idle_indent isInner).append
        ((unnoticed statement member).1.idle_append newline ⟨'\n', rfl, by decide⟩)
    have inside := newline.append (lines.append (idle_indent isOuter))
    have shape : FunctionBody.render isInside outer inner (.block statements) ++ ['\n'] =
        [' '] ++ ('{' :: (['\n'] ++ ((statements.flatMap fun statement =>
          inner ++ statement ++ ['\n']) ++ outer) ++ ['}']) ++ ['\n']) := by
      simp [FunctionBody.render]
    rw [shape]
    exact inert.line.idle_append (space.append (inside.enclosed.append newline))
      ⟨' ', rfl, by decide⟩

/-- An indented statement is a line of a function. -/
theorem isFunctionLine_append
    {statement : Text}
    (isInner : Body.IsIndent inner)
    (inert : Inert lineMarks statement)
    (parens : (Body.depthInFunction.after statement).parens = 0) :
    Body.IsFunctionLine (inner ++ statement) where
  noBreak := by
    rw [List.mem_append]
    exact fun isBreak => isBreak.elim (isInner.plain.not_mem (by decide))
      (inert.not_mem (by decide) (by decide))
  braceless := isInner.plain.braceless.append inert.braceless
  closed := by
    rwa [Depth.after_append, Depth.after_plain _ isInner.plain rfl]

/-- In the body of a class, a header and a body behind it are silent. -/
theorem silent_append_render
    (begins : BeginsFunction header)
    (closed : Closed header)
    (unnoticed : IsUnnoticedBody body)
    (isOuter : Body.IsIndent outer)
    (isInner : Body.IsIndent inner) :
    Body.Silent (header ++ (body.render true outer inner ++ ['\n'])) := by
  have bare := closed.inert.bare
  have braces := closed.inert.line.braceless.braces_eq_zero
  have bareText {text : Text} (isFragment : text ∈ ["\x7b\x7d".toList, " \x7b ".toList,
      " \x7b".toList]) : Statement.Bare text ∧ Statement.parens text = 0 := by
    have fragments : ∀ fragment ∈ ["\x7b\x7d".toList, " \x7b ".toList, " \x7b".toList],
        Statement.Bare fragment ∧ Statement.parens fragment = 0 := by decide
    exact fragments text isFragment
  cases body with
  | empty isClosed =>
    obtain ⟨bareBraces, parensBraces⟩ := @bareText "\x7b\x7d".toList (by simp)
    have silent := @Body.silent_line (header ++ "\x7b\x7d".toList) [] (begins.append _)
      (bare.append bareBraces)
      (by rw [Statement.parens_append, closed.parens, parensBraces]; rfl) (by decide)
      (by rw [Block.braces_append, braces]; rfl)
    simpa [FunctionBody.render] using silent
  | line statement =>
    obtain ⟨text, rfl, closedText⟩ := unnoticed
    obtain ⟨bareBrace, parensBrace⟩ := @bareText " \x7b ".toList (by simp)
    have silent := @Body.silent_line (header ++ " \x7b ".toList ++ text) [' ', '}']
      ((begins.append _).append _) ((bare.append bareBrace).append closedText.inert.bare)
      (by
        rw [Statement.parens_append, Statement.parens_append, closed.parens, parensBrace,
          closedText.parens]
        rfl)
      (by decide)
      (by
        rw [Block.braces_append, Block.braces_append, braces,
          closedText.inert.line.braceless.braces_eq_zero]
        rfl)
    simpa [FunctionBody.render] using silent
  | block statements =>
    obtain ⟨bareBrace, parensBrace⟩ := @bareText " \x7b".toList (by simp)
    have areLines : ∀ line ∈ statements.map (inner ++ ·), Body.IsFunctionLine line := by
      intro line isLine
      obtain ⟨statement, member, rfl⟩ := List.mem_map.mp isLine
      obtain ⟨inertStatement, parens⟩ := unnoticed statement member
      exact isFunctionLine_append isInner inertStatement parens
    have silent := Body.silent_lines (begins.append " \x7b".toList) (bare.append bareBrace)
      (by rw [Statement.parens_append, closed.parens, parensBrace]; rfl)
      (by rw [Block.braces_append, braces]; rfl) areLines isOuter
    simpa [FunctionBody.render, List.flatMap_map] using silent

end Bodies

/-! ## Texts of unnoticed functions -/

namespace Unnoticed

variable {function : GeneratedFunction} {indent className : Text}

/-- The header in the body of a class. -/
theorem closed_header
    (unnoticed : Unnoticed function)
    (isIndent : Body.IsIndent indent) :
    Closed (indent ++ function.signature) := by
  have specifier := sealed_specifier _ unnoticed.specifier
  have front : Sealed plainMarks (indent ++ function.specifier ++ function.result) :=
    ((sealed_indent isIndent).append_sealed (specifier.mono (by decide))).append_sealed
      (unnoticed.result.mono (by decide))
  have closed := unnoticed.closed_append_declarator front
  simpa [GeneratedFunction.signature] using closed

theorem inside_eq
    (indent : Text)
    (function : GeneratedFunction) :
    function.inside indent =
      ['\n'] ++ (indent ++ function.signature ++ function.initializerClause ++
        (function.body.render true indent (indent ++ indent) ++ ['\n'])) := by
  simp [GeneratedFunction.inside]

theorem isIndent_append
    (isIndent : Body.IsIndent indent) :
    Body.IsIndent (indent ++ indent) :=
  fun character member =>
    (List.mem_append.mp member).elim (isIndent character) (isIndent character)

theorem idle_inside
    (unnoticed : Unnoticed function)
    (isIndent : Body.IsIndent indent) :
    Idle (function.inside indent) := by
  have newline : Idle ['\n'] := idle_of_gap (by decide)
  have closed := unnoticed.closed_initializerClause (unnoticed.closed_header isIndent)
  rw [inside_eq]
  exact newline.append (idle_append_render true closed.inert unnoticed.body isIndent
    (isIndent_append isIndent))

/-- Behind an empty line, the function is silent. -/
theorem exists_inside_eq
    (unnoticed : Unnoticed function)
    (isIndent : Body.IsIndent indent) :
    ∃ lines, function.inside indent = '\n' :: lines ∧ Body.Silent lines := by
  have closed := unnoticed.closed_initializerClause (unnoticed.closed_header isIndent)
  have begins := (unnoticed.beginsFunction_signature isIndent).append function.initializerClause
  exact ⟨_, inside_eq indent function, silent_append_render begins closed unnoticed.body isIndent
    (isIndent_append isIndent)⟩

theorem silent_inside
    (unnoticed : Unnoticed function)
    (isIndent : Body.IsIndent indent) :
    Body.Silent (function.inside indent) := by
  obtain ⟨lines, shape, silent⟩ := unnoticed.exists_inside_eq isIndent
  rw [shape]
  exact Body.silent_newline.append silent

theorem idle_declaration
    (unnoticed : Unnoticed function)
    (isIndent : Body.IsIndent indent) :
    Idle (function.declaration indent) :=
  (unnoticed.closed_header isIndent).inert.line.idle_append (idle_of_gap (by decide))
    ⟨';', rfl, by decide⟩

theorem silent_declaration
    (unnoticed : Unnoticed function)
    (isIndent : Body.IsIndent indent) :
    Body.Silent (function.declaration indent) := by
  have closed := unnoticed.closed_header isIndent
  have noBraces := closed.inert.line.braceless.braces_eq_zero
  exact @Body.silent_line _ [] (unnoticed.beginsFunction_signature isIndent) closed.inert.bare
    closed.parens (by decide) (by rw [noBraces]; rfl)

theorem definition_eq
    (className indent : Text)
    (function : GeneratedFunction) :
    function.definition className indent =
      ['\n'] ++ (function.result ++ (if function.isMember then className ++ [':', ':'] else []) ++
        function.declarator ++ function.initializerClause ++
          (function.body.render false [] indent ++ ['\n'])) := by
  simp [GeneratedFunction.definition]

theorem idle_definition
    (unnoticed : Unnoticed function)
    (isIndent : Body.IsIndent indent)
    (inertName : Inert nameMarks className) :
    Idle (function.definition className indent) := by
  have newline : Idle ['\n'] := idle_of_gap (by decide)
  have qualifier : Sealed nameMarks
      (if function.isMember then className ++ [':', ':'] else []) := by
    have scope : Sealed nameMarks [':', ':'] := by decide
    have nothing : Sealed nameMarks [] := by decide
    split
    · exact inertName.append_sealed scope (by decide)
    · exact nothing
  have front : Sealed plainMarks (function.result ++
      (if function.isMember then className ++ [':', ':'] else [])) :=
    (unnoticed.result.append_sealed qualifier).mono (by decide)
  have closed := unnoticed.closed_initializerClause (unnoticed.closed_append_declarator front)
  rw [definition_eq]
  exact newline.append (idle_append_render false closed.inert unnoticed.body
    (fun _ member => absurd member List.not_mem_nil) isIndent)

/-- Behind a class, a body ends a statement or a scope. -/
theorem exists_render_eq
    (inner : Text)
    (body : FunctionBody) :
    ∃ front, ∃ last ∈ [';', '}'], body.render false [] inner = front ++ [last] := by
  cases body with
  | empty closed =>
    cases closed with
    | false => exact ⟨['{'], '}', by decide, rfl⟩
    | true => exact ⟨"\x7b\x7d".toList, ';', by decide, rfl⟩
  | line statement =>
    exact ⟨" \x7b ".toList ++ statement ++ [' '], '}', by decide, by simp [FunctionBody.render]⟩
  | block statements => exact ⟨_, '}', by decide, rfl⟩

/-- A definition ends with the end of a statement or a scope on its line. -/
theorem exists_definition_eq
    (className indent : Text)
    (function : GeneratedFunction) :
    ∃ front, ∃ last ∈ [';', '}'],
      function.definition className indent = front ++ [last, '\n'] := by
  obtain ⟨front, last, isLast, shape⟩ := exists_render_eq indent function.body
  refine ⟨['\n'] ++ (function.result ++
    (if function.isMember then className ++ [':', ':'] else []) ++ function.declarator ++
      function.initializerClause ++ front), last, isLast, ?_⟩
  rw [definition_eq, shape]
  simp

end Unnoticed

/-! ## Generated code -/

end Code

namespace GeneratedCode

/-- The line that opens the public section of generated code, behind an empty one. -/
def heading : Text :=
  "\n public:".toList

/-- What is put in front of the closing brace. -/
def inner : GeneratedCode → Text
  | .inside text => heading ++ text
  | .apart declaration _ => heading ++ '\n' :: declaration

/-- What is put behind the line of the closing brace. -/
def outer (code : GeneratedCode) : Text :=
  code.definition?.getD []

end GeneratedCode

namespace Code

/-- The scan finds nothing in the code, neither in the body of the class nor behind it. -/
structure UnnoticedCode (code : GeneratedCode) : Prop where
  idleInner : Idle code.inner
  silent : Body.ofRest Body.depthInBody (code.inner ++ ['}']) = {}
  idleOuter : Idle code.outer
  outerEnds : code.outer = [] ∨ ∃ front, ∃ last ∈ [';', '}'], code.outer = front ++ [last, '\n']

theorem Sealed.idle
    (inert : Sealed lineMarks text) :
    Idle text where
  calm :=
    ⟨fun word isWord => inert.lacks word (mem_soughtWords_of_mem_declarationWords word isWord),
      fun last isLast word isWord => not_mem_soughtWord
        (mem_soughtWords_of_mem_declarationWords word isWord) (inert.ends last isLast)⟩
  nested := inert.braceless.nested
  noSlash := inert.not_mem (by decide) (by decide)

theorem idle_heading : Idle GeneratedCode.heading := by
  have newline : Idle ['\n'] := idle_of_gap (by decide)
  have heading : Sealed lineMarks " public:".toList := by decide
  exact newline.append heading.idle

theorem silent_heading : Body.Silent (GeneratedCode.heading ++ ['\n']) :=
  Body.silent_newline.append Body.silent_public

section Writers

variable {functions : List GeneratedFunction} {indent className : Text}

/-- Complete functions in the body of a class. -/
theorem unnoticedCode_inside
    (unnoticed : ∀ function ∈ functions, Unnoticed function)
    (isIndent : Body.IsIndent indent) :
    UnnoticedCode (.inside (functions.flatMap (·.inside indent))) where
  idleInner := idle_heading.append
    (idle_flatMap fun function member => (unnoticed function member).idle_inside isIndent)
  silent := by
    cases functions with
    | nil =>
      change Body.ofRest Body.depthInBody (GeneratedCode.heading ++ ['}']) = {}
      decide
    | cons function functions =>
      obtain ⟨lines, shape, silent⟩ :=
        (unnoticed function List.mem_cons_self).exists_inside_eq isIndent
      have silentLater : Body.Silent (functions.flatMap (·.inside indent)) :=
        Body.silent_flatMap fun other member =>
          (unnoticed other (List.mem_cons_of_mem _ member)).silent_inside isIndent
      -- The empty line in front of the first function ends the line of the heading.
      have split : (GeneratedCode.inside
          ((function :: functions).flatMap (·.inside indent))).inner =
          GeneratedCode.heading ++ ['\n'] ++ (lines ++ functions.flatMap (·.inside indent)) := by
        simp [GeneratedCode.inner, shape]
      have silentAll := silent_heading.append (silent.append silentLater)
      rw [split, silentAll]
      decide
  idleOuter := idle_nil
  outerEnds := .inl rfl

/-- Declarations in the body of a class and definitions behind it. -/
theorem unnoticedCode_apart
    (unnoticed : ∀ function ∈ functions, Unnoticed function)
    (isIndent : Body.IsIndent indent)
    (inertName : Inert nameMarks className) :
    UnnoticedCode (.apart (functions.flatMap (·.declaration indent))
      (functions.flatMap (·.definition className indent))) where
  idleInner := by
    have newline : Idle ['\n'] := idle_of_gap (by decide)
    exact idle_heading.append (newline.append
      (idle_flatMap fun function member => (unnoticed function member).idle_declaration isIndent))
  silent := by
    have silent : Body.Silent (functions.flatMap (·.declaration indent)) :=
      Body.silent_flatMap fun function member =>
        (unnoticed function member).silent_declaration isIndent
    have split : (GeneratedCode.apart (functions.flatMap (·.declaration indent))
        (functions.flatMap (·.definition className indent))).inner =
        GeneratedCode.heading ++ ['\n'] ++ functions.flatMap (·.declaration indent) := by
      simp [GeneratedCode.inner]
    rw [split, silent_heading.append silent]
    decide
  idleOuter := idle_flatMap fun function member =>
    (unnoticed function member).idle_definition isIndent inertName
  outerEnds := by
    rcases List.eq_nil_or_concat functions with rfl | ⟨functions, function, rfl⟩
    · exact .inl rfl
    · obtain ⟨front, last, isLast, shape⟩ :=
        Unnoticed.exists_definition_eq className indent function
      refine .inr ⟨functions.flatMap (·.definition className indent) ++ front, last, isLast, ?_⟩
      simp [GeneratedCode.outer, GeneratedCode.definition?, shape]

/-- The code of a writer goes unnoticed if its functions do. -/
theorem unnoticedCode_code
    {writer : Writer}
    (unnoticed : ∀ function ∈ functions, Unnoticed function)
    (isIndent : Body.IsIndent writer.indent)
    (inertName : Inert nameMarks writer.outline.name) :
    UnnoticedCode (writer.code functions) := by
  rw [Writer.code]
  split
  · exact unnoticedCode_inside unnoticed isIndent
  · exact unnoticedCode_apart unnoticed isIndent inertName

end Writers

end Code

end ClassOutline
