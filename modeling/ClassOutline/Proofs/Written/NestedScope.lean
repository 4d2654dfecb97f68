import ClassOutline.Proofs.Member.Functions
import ClassOutline.Proofs.Written.Siblings
/-!
# Nested scopes

A line that ends with an opening brace, lines that are even in brackets and close no brace in front
of them, and a line with the closing brace: a function, a nested class, an enumeration.  Whatever
stands on the lines in between, it lies at least one brace deeper than the members of the class.
The line in front of them lies at the depth of members, but it ends with a brace and not with a
semicolon; so it declares nothing, unless it is read as a pointer to a function.
-/

namespace ClassOutline

/-! ## Lines that open a brace -/

namespace Body

/-- A text that ends with an opening brace declares nothing, unless it has a mark of a pointer. -/
theorem declaresNothing_of_opening
    {front blanks : Text}
    (noPointer : Shape.ofText front ≠ .functionPointer)
    (blank : ∀ character ∈ blanks, Text.isBlank character = true) :
    DeclaresNothing (front ++ '{' :: blanks) := by
  have notBlank : Text.isBlank '{' = false := by decide
  have noBlanks : Text.trimEnd blanks = [] := @Text.trimEnd_append [] _ (by simp) blank
  have trimmed : Text.trim (front ++ '{' :: blanks) = front.trimStart ++ ['{'] := by
    rw [Text.trim, Text.trimStart_append_cons _ _ notBlank, Text.trimEnd_append_cons _ _ notBlank,
      noBlanks]
  have otherShape : Shape.ofText (front.trimStart ++ ['{']) ≠ .functionPointer := by
    rw [Ne, Shape.ofText_append_eq_functionPointer_iff _ (by decide), Shape.ofText_trimStart]
    exact noPointer
  have noMember : Declaration.members (front.trimStart ++ ['{']) = .ok [] := by
    have noEnd : (front.trimStart ++ ['{']).dropEnding? [';'] = none := by
      rw [Option.eq_none_iff_forall_ne_some]
      intro rest dropped
      have shape := congrArg List.getLast? (Text.eq_append_of_dropEnding? dropped)
      simp at shape
    have solid : Text.Solid (front.trimStart ++ ['{']) := trimmed ▸ Text.solid_trim _
    rw [Declaration.members, Text.trim_of_solid solid, noEnd]
  intro depth
  rw [found?, trimmed]
  cases isData : (Shape.ofStatement? (front.trimStart ++ ['{'])).filter Shape.isData with
  | none => exact .inl rfl
  | some shape =>
    have isShape := Shape.eq_ofText_of_ofStatement? (Option.eq_some_of_filter_eq_some isData)
    have notPointer : shape ≠ .functionPointer := isShape ▸ otherShape
    dsimp only
    rw [membersOf, if_neg notPointer, noMember]
    split
    · exact .inr rfl
    · exact .inl rfl

/-- A line that opens a brace declares nothing, whether it is cut behind the brace or not. -/
theorem ofPieces_opening
    {head : Text}
    (bare : Statement.Bare head)
    (braceless : Block.Braceless head)
    (closed : Statement.parens head = 0)
    (noPointer : Shape.ofText head ≠ .functionPointer)
    (depth : Depth) :
    ofPieces depth (Statement.pieces (head ++ ['{', '\n'])) = {} := by
  have noOpening : '{' ∉ head := fun member => (braceless _ member).1 rfl
  refine ofPieces_of_declaresNothing ?_ depth
  rw [Statement.pieces]
  cases beginsType : Statement.beginsType (head ++ ['{', '\n']) with
  | true =>
    have cut : Statement.piecesFrom true none (0 + Statement.parens head) ['{', '\n'] =
        [['{'], ['\n']] := by
      rw [closed]
      decide
    rw [Statement.piecesFrom_bare_append bare (fun _ => noOpening) cut]
    intro piece member
    simp only [List.mem_cons, List.not_mem_nil, or_false] at member
    rcases member with rfl | rfl
    · exact declaresNothing_of_opening noPointer (by simp)
    · exact declaresNothing_of_noShape (by decide)
  | false =>
    have whole : Statement.piecesFrom false none (0 + Statement.parens head) ['{', '\n'] =
        [['{', '\n']] := by
      rw [closed]
      decide
    rw [Statement.piecesFrom_bare_append bare (by simp) whole]
    intro piece member
    obtain rfl := List.mem_singleton.mp member
    exact declaresNothing_of_opening noPointer (by decide)

/-- A line that opens a brace is silent, and leads one brace deeper. -/
theorem ofRest_opening
    {front : Text}
    (bare : Statement.Bare front)
    (braceless : Block.Braceless front)
    (closed : Statement.parens front = 0)
    (noPointer : Shape.ofText front ≠ .functionPointer)
    (rest : Text) :
    ofRest depthInBody (front ++ ['{', '\n'] ++ rest) = ofRest depthInFunction rest := by
  have noBreak : '\n' ∉ front ++ ['{'] := by simpa using bare.newline_not_mem
  have unquoted : ∀ character ∈ front ++ ['{', '\n'], Literal.isMark character = false := by
    have marks : ∀ character ∈ ['{', '\n'], Literal.isMark character = false := by decide
    intro character member
    rcases List.mem_append.mp member with inFront | isEnd
    · exact (bare character inFront).2.2
    · exact marks character isEnd
  have deeper : depthInBody.after (front ++ ['{', '\n']) = depthInFunction := by
    rw [Depth.after_unquoted _ unquoted rfl]
    simp [depthInBody, depthInFunction, Block.braceChange, Statement.parenChange, closed,
      braceless.braces_eq_zero]
  have shape : front ++ ['{', '\n'] ++ rest = (front ++ ['{']) ++ '\n' :: rest := by
    simp
  have line : front ++ ['{'] ++ ['\n'] = front ++ ['{', '\n'] := by
    simp
  rw [shape, ofRest_append_cons _ noBreak, line, ofPieces_append,
    ofPieces_opening bare braceless closed noPointer, nil_append, Statement.flatten_pieces, deeper]
  rfl

end Body

/-! ## Scopes -/

/-- A nested scope, written on lines of its own. -/
structure NestedScope where
  /-- What introduces the scope, on one line. -/
  head : Text
  /-- The lines in the scope. -/
  body : Text
  /-- The blanks in front of the closing brace. -/
  indent : Text
  /-- The closing brace, with or without a semicolon. -/
  closing : Text
  bare : Statement.Bare head
  braceless : Block.Braceless head
  closed : head.count '(' = head.count ')'
  noPointer : Shape.ofText head ≠ .functionPointer
  evenLines : body.EvenLines
  /-- No brace is closed in the lines that is not opened in them. -/
  nested : ∀ front, front <+: body →
    (Literal.outside front).count '}' ≤ (Literal.outside front).count '{'
  isIndent : Body.IsIndent indent
  isClosing : closing ∈ Body.closings

namespace NestedScope

/-- The lines of the scope. -/
def text (scope : NestedScope) : Text :=
  scope.head ++ [' ', '{', '\n'] ++ scope.body ++ (scope.indent ++ scope.closing ++ ['\n'])

variable (scope : NestedScope)

/-- The line that introduces the scope leads into it. -/
theorem ofRest_head (rest : Text) :
    Body.ofRest Body.depthInBody (scope.head ++ [' '] ++ ['{', '\n'] ++ rest) =
      Body.ofRest Body.depthInFunction rest := by
  have bareBlank : Statement.Bare [' '] := by decide
  have bracelessBlank : Block.Braceless [' '] := by decide
  have closed : Statement.parens (scope.head ++ [' ']) = 0 := by
    rw [Statement.parens_append, Statement.parens_eq_count_sub_count, scope.closed, Int.sub_self]
    rfl
  have noPointer : Shape.ofText (scope.head ++ [' ']) ≠ .functionPointer := by
    rw [Ne, Shape.ofText_append_eq_functionPointer_iff _ (by decide)]
    exact scope.noPointer
  exact Body.ofRest_opening (scope.bare.append bareBlank) (scope.braceless.append bracelessBlank)
    closed noPointer rest

/-- Whatever stands in the scope lies too deep to be a member. -/
theorem ofRest_body (rest : Text) :
    Body.ofRest Body.depthInFunction (scope.body ++ rest) =
      Body.ofRest Body.depthInFunction rest := by
  have deep : Body.ofRest Body.depthInFunction scope.body = {} := by
    refine Body.ofPieces_of_deep fun front isPrefix => ?_
    rw [Statement.flatten_flatMap_pieces] at isPrefix
    have noLess := scope.nested front isPrefix
    have counted : (Body.depthInFunction.after front).braces =
        2 + Block.braces (Literal.outside front) :=
      (Body.depthInFunction.after_eq front).1
    rw [Block.braces_eq_count_sub_count] at counted
    omega
  rw [Body.ofRest_append scope.evenLines.wholeLines, deep, Body.nil_append,
    Depth.after_evenLines rfl scope.evenLines]

/-- Behind a nested scope the members are found as though it were not there. -/
theorem silent : Body.Silent scope.text := by
  intro rest
  have shape : scope.text ++ rest = scope.head ++ [' '] ++ ['{', '\n'] ++
      (scope.body ++ (scope.indent ++ scope.closing ++ '\n' :: rest)) := by
    simp [text]
  rw [shape, ofRest_head, ofRest_body, Body.ofRest_closing scope.isIndent scope.isClosing]

end NestedScope

namespace Written

/-- Without a nested scope behind even lines, a class has the same members. -/
theorem ofText_classAround_nestedScope
    {name before : Text}
    (isWord : IsWord name)
    (evenLines : before.EvenLines)
    (scope : NestedScope)
    (behind : Text) :
    Body.ofText (classAround name (before ++ scope.text ++ behind)) =
      Body.ofText (classAround name (before ++ behind)) := by
  rw [ofText_classAround isWord, ofText_classAround isWord, List.append_assoc, List.append_assoc,
    List.append_assoc, Body.ofRest_evenLines_append evenLines, scope.silent,
    Body.ofRest_evenLines_append evenLines]

/-- A method whose body declares a variable and holds a brace in a literal. -/
theorem ofText_classAround_nestedScope_method :
    ∃ scope : NestedScope,
      scope.text = "  int size() const \x7b\n    int n = '\x7d';\n  \x7d\n".toList ∧
        IsWord "N".toList ∧ Text.EvenLines "  int a;\n".toList ∧
          (Body.ofText (classAround "N".toList
            ("  int a;\n".toList ++ scope.text ++ "  bool b;\n".toList))).members.map
              DataMember.name = ["a".toList, "b".toList] := by
  have nested : ∀ front ∈ "    int n = '\x7d';\n".toList.inits,
      (Literal.outside front).count '}' ≤ (Literal.outside front).count '{' := by
    decide
  let scope : NestedScope :=
    { head := "  int size() const".toList
      body := "    int n = '\x7d';\n".toList
      indent := "  ".toList
      closing := ['}']
      bare := by decide
      braceless := by decide
      closed := by decide
      noPointer := by decide
      evenLines := ⟨by decide, by decide, by decide⟩
      nested := fun front isPrefix => nested front ((List.mem_inits front _).mpr isPrefix)
      isIndent := by decide
      isClosing := by decide }
  have isWord : IsWord "N".toList := by decide
  have evenLines : Text.EvenLines "  int a;\n".toList := ⟨by decide, by decide, by decide⟩
  refine ⟨scope, rfl, isWord, evenLines, ?_⟩
  rw [ofText_classAround_nestedScope isWord evenLines scope]
  decide

end Written

end ClassOutline
