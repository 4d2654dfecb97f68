import ClassOutline.Proofs.Code.Renderings
/-!
# Brackets and quotation marks of generated code

Generated code is nested in braces and in parentheses, and each of its lines has an even number of
quotation marks, whatever class it is generated for, as long as the types and names of its members
are nested and have no quotation marks.
-/

namespace ClassOutline

namespace Text

/-! ## Nested brackets -/

/-- A text closes as many brackets as it opens, and none that it has not opened. -/
structure NestedIn (opening closing : Char) (text : Text) : Prop where
  even : text.count opening = text.count closing
  opensFirst : ∀ front, front <+: text → front.count closing ≤ front.count opening

section Nested

variable {opening closing : Char} {left right text : Text}

instance : Decidable (NestedIn opening closing text) :=
  decidable_of_iff
    (text.count opening = text.count closing ∧
      ∀ size < text.length + 1, (text.take size).count closing ≤ (text.take size).count opening)
    ⟨fun ⟨even, opensFirst⟩ =>
      { even := even
        opensFirst := fun front isPrefix => by
          have bound := isPrefix.length_le
          rw [List.prefix_iff_eq_take.mp isPrefix]
          exact opensFirst front.length (by omega) },
      fun nested => ⟨nested.even, fun size _ => nested.opensFirst _ (List.take_prefix size text)⟩⟩

theorem nestedIn_of_not_mem
    (noOpening : opening ∉ text)
    (noClosing : closing ∉ text) :
    NestedIn opening closing text where
  even := by rw [List.count_eq_zero.mpr noOpening, List.count_eq_zero.mpr noClosing]
  opensFirst front isPrefix := by
    rw [List.count_eq_zero.mpr fun member => noClosing (isPrefix.subset member)]
    exact Nat.zero_le _

theorem NestedIn.append
    (nestedLeft : NestedIn opening closing left)
    (nestedRight : NestedIn opening closing right) :
    NestedIn opening closing (left ++ right) where
  even := by rw [List.count_append, List.count_append, nestedLeft.even, nestedRight.even]
  opensFirst front isPrefix := by
    rcases List.prefix_or_prefix_of_prefix isPrefix (List.prefix_append left right) with
      inLeft | ⟨behind, rfl⟩
    · exact nestedLeft.opensFirst front inLeft
    · have inRight := nestedRight.opensFirst behind
        ((List.prefix_append_right_inj left).mp isPrefix)
      rw [List.count_append, List.count_append, nestedLeft.even]
      omega

theorem NestedIn.enclosed
    (nested : NestedIn opening closing text)
    (different : opening ≠ closing) :
    NestedIn opening closing ([opening] ++ text ++ [closing]) where
  even := by simp [nested.even, different, different.symm]
  opensFirst front isPrefix := by
    cases front with
    | nil => exact Nat.le_refl 0
    | cons first front =>
      obtain ⟨rfl, inside⟩ := List.cons_prefix_cons.mp isPrefix
      rcases List.prefix_concat_iff.mp inside with rfl | shorter
      · simp [nested.even, different, different.symm]
      · have opened := nested.opensFirst front shorter
        simp only [List.count_cons_self, List.count_cons_of_ne different]
        omega

/-- Other characters may stand around a nested text. -/
theorem NestedIn.surrounded
    {first last : Char}
    (nested : NestedIn opening closing text)
    (noOpening : opening ≠ first ∧ opening ≠ last)
    (noClosing : closing ≠ first ∧ closing ≠ last) :
    NestedIn opening closing ([first] ++ text ++ [last]) :=
  ((nestedIn_of_not_mem (by simpa using noOpening.1) (by simpa using noClosing.1)).append
    nested).append (nestedIn_of_not_mem (by simpa using noOpening.2) (by simpa using noClosing.2))

theorem NestedIn.of_cons
    {first : Char}
    (nested : NestedIn opening closing (first :: text))
    (noOpening : first ≠ opening)
    (noClosing : first ≠ closing) :
    NestedIn opening closing text where
  even := by
    have even := nested.even
    rwa [List.count_cons_of_ne noOpening, List.count_cons_of_ne noClosing] at even
  opensFirst front isPrefix := by
    have opened := nested.opensFirst (first :: front) (List.cons_prefix_cons.mpr ⟨rfl, isPrefix⟩)
    rwa [List.count_cons_of_ne noOpening, List.count_cons_of_ne noClosing] at opened

end Nested

/-- The number of quotation marks is even. -/
def EvenlyQuoted (text : Text) : Prop :=
  text.count '"' % 2 = 0

instance (text : Text) : Decidable text.EvenlyQuoted :=
  inferInstanceAs (Decidable (_ = 0))

theorem EvenlyQuoted.append
    {left right : Text}
    (evenLeft : left.EvenlyQuoted)
    (evenRight : right.EvenlyQuoted) :
    (left ++ right).EvenlyQuoted := by
  rw [EvenlyQuoted] at evenLeft evenRight ⊢
  rw [List.count_append]
  omega

/-- A text is nested in braces and in parentheses, and each of its lines is evenly quoted. -/
structure IsBalanced (text : Text) : Prop where
  braces : NestedIn '{' '}' text
  parens : NestedIn '(' ')' text
  quotes : ∀ line ∈ text.lines, line.EvenlyQuoted

end Text

/-! ## Whole texts of functions -/

namespace Code

/-- A property of whole texts that joining them and putting them into braces keeps. -/
structure KeptInBlocks (property : Text → Prop) : Prop extends KeptByJoining property where
  lineFeed : property ['\n']
  braced : ∀ {text}, property text → property (['{'] ++ text ++ ['}'])

namespace KeptInBlocks

variable {property : Text → Prop} {function : GeneratedFunction} {indent : Text}

theorem flatMap
    {item : Type}
    {items : List item}
    {render : item → Text}
    (kept : KeptInBlocks property)
    (holds : ∀ one ∈ items, property (render one)) :
    property (items.flatMap render) := by
  induction items with
  | nil => exact kept.nothing
  | cons one items hypothesis =>
    obtain ⟨here, later⟩ := List.forall_mem_cons.mp holds
    exact kept.append here (hypothesis later)

theorem render
    {body : FunctionBody}
    {outer inner : Text}
    (kept : KeptInBlocks property)
    (statements : ∀ statement ∈ body.statements, property statement)
    (outerHolds : property outer)
    (innerHolds : property inner)
    (isInside : Bool) :
    property (body.render isInside outer inner) := by
  have blank := kept.undelimited [' '] (by decide)
  cases body with
  | empty closed =>
    have ending : property (if isInside || closed then [';'] else []) := by
      split <;> exact kept.undelimited _ (by decide)
    exact kept.append (kept.braced kept.nothing) ending
  | line statement =>
    have inBraces := kept.braced
      (kept.append (kept.append blank (statements statement List.mem_cons_self)) blank)
    have shape : FunctionBody.render isInside outer inner (.line statement) =
        [' '] ++ (['{'] ++ ([' '] ++ statement ++ [' ']) ++ ['}']) := by
      simp [FunctionBody.render]
    rw [shape]
    exact kept.append blank inBraces
  | block lines =>
    have rows : property (lines.flatMap fun statement => inner ++ statement ++ ['\n']) :=
      kept.flatMap fun statement isStatement =>
        kept.append (kept.append innerHolds (statements statement isStatement)) kept.lineFeed
    have inBraces := kept.braced (kept.append (kept.append kept.lineFeed rows) outerHolds)
    have shape : FunctionBody.render isInside outer inner (.block lines) =
        [' '] ++ (['{'] ++ (['\n'] ++ (lines.flatMap fun statement =>
          inner ++ statement ++ ['\n']) ++ outer) ++ ['}']) := by
      simp [FunctionBody.render]
    rw [shape]
    exact kept.append blank inBraces

theorem inside
    (kept : KeptInBlocks property)
    (throughout : function.Throughout property)
    (indentHolds : property indent) :
    property (function.inside indent) := by
  have header := kept.append indentHolds (kept.signature throughout)
  have body := kept.render throughout.statements indentHolds
    (kept.append indentHolds indentHolds) true
  have complete := kept.append kept.lineFeed
    (kept.append (kept.append (kept.append header (kept.initializerClause throughout)) body)
      kept.lineFeed)
  simpa only [GeneratedFunction.inside, List.append_assoc] using complete

theorem declaration
    (kept : KeptInBlocks property)
    (throughout : function.Throughout property)
    (indentHolds : property indent) :
    property (function.declaration indent) :=
  kept.append (kept.append indentHolds (kept.signature throughout))
    (kept.append (kept.undelimited [';'] (by decide)) kept.lineFeed)

theorem definition
    {className : Text}
    (kept : KeptInBlocks property)
    (throughout : function.Throughout property)
    (nameHolds : property className)
    (indentHolds : property indent) :
    property (function.definition className indent) := by
  have header := kept.qualifiedSignature throughout nameHolds
  have body := kept.render throughout.statements kept.nothing indentHolds false
  have complete := kept.append kept.lineFeed
    (kept.append (kept.append (kept.append header (kept.initializerClause throughout)) body)
      kept.lineFeed)
  simpa only [GeneratedFunction.definition, List.append_assoc] using complete

end KeptInBlocks

/-! ## Nested and evenly quoted functions -/

section Pairs

variable {opening closing : Char}

/-- The pairs of brackets of generated code. -/
def bracketPairs : List (Char × Char) :=
  [('{', '}'), ('(', ')')]

theorem delimiters_of_mem_bracketPairs :
    ∀ pair ∈ bracketPairs, pair.1 ∈ delimiters ∧ pair.2 ∈ delimiters ∧ pair.1 ≠ pair.2 ∧
      '\n' ∉ [pair.1, pair.2] ∧ '"' ∉ [pair.1, pair.2] := by
  decide

/-- Any pair of brackets around a nested text leaves it nested. -/
theorem nestedIn_bracketed
    {first last : Char}
    {text : Text}
    (isPair : (opening, closing) ∈ bracketPairs)
    (isOther : (first, last) ∈ bracketPairs)
    (nested : text.NestedIn opening closing) :
    Text.NestedIn opening closing ([first] ++ text ++ [last]) := by
  have sameOrOther : ∀ pair ∈ bracketPairs, ∀ other ∈ bracketPairs,
      other = pair ∨ (pair.1 ≠ other.1 ∧ pair.1 ≠ other.2) ∧
        (pair.2 ≠ other.1 ∧ pair.2 ≠ other.2) := by
    decide
  obtain ⟨-, -, different, -⟩ := delimiters_of_mem_bracketPairs _ isPair
  rcases sameOrOther _ isPair _ isOther with same | ⟨noOpening, noClosing⟩
  · obtain ⟨rfl, rfl⟩ := Prod.mk.inj same
    exact nested.enclosed different
  · exact nested.surrounded noOpening noClosing

theorem keptInBlocks_nestedIn
    (isPair : (opening, closing) ∈ bracketPairs) :
    KeptInBlocks (Text.NestedIn opening closing) := by
  obtain ⟨isOpening, isClosing, -, noBreak, -⟩ := delimiters_of_mem_bracketPairs _ isPair
  exact
    { undelimited := fun text undelimited =>
        Text.nestedIn_of_not_mem (fun member => undelimited _ member isOpening)
          fun member => undelimited _ member isClosing
      append := Text.NestedIn.append
      lineFeed := Text.nestedIn_of_not_mem (by simpa using Ne.symm (List.ne_of_not_mem_cons noBreak))
        (by
          have noClosing := List.not_mem_of_not_mem_cons noBreak
          simpa using Ne.symm (List.ne_of_not_mem_cons noClosing))
      braced := nestedIn_bracketed isPair (by decide) }

theorem kept_nestedIn
    (isPair : (opening, closing) ∈ bracketPairs) :
    Kept (Text.NestedIn opening closing) := by
  have kept := keptInBlocks_nestedIn isPair
  obtain ⟨isOpening, isClosing, -, -, noQuote⟩ := delimiters_of_mem_bracketPairs _ isPair
  have noOpening : opening ≠ '"' := Ne.symm (List.ne_of_not_mem_cons noQuote)
  have noClosing : closing ≠ '"' :=
    Ne.symm (List.ne_of_not_mem_cons (List.not_mem_of_not_mem_cons noQuote))
  exact
    { toKeptByJoining := kept.toKeptByJoining
      enclosed := nestedIn_bracketed isPair (by decide)
      quoted := fun nested => nested.surrounded ⟨noOpening, noOpening⟩ ⟨noClosing, noClosing⟩
      capitalize := kept.capitalize fun noDelimiter nested =>
        nested.of_cons (fun same => noDelimiter (same ▸ isOpening))
          (fun same => noDelimiter (same ▸ isClosing)) }

end Pairs

theorem keptInLines_evenlyQuoted : KeptInLines Text.EvenlyQuoted where
  undelimited text undelimited := by
    have noQuote : '"' ∉ text := fun isQuote => undelimited _ isQuote (by decide)
    rw [Text.EvenlyQuoted, List.count_eq_zero.mpr noQuote]
  append := Text.EvenlyQuoted.append
  brace := List.forall_mem_cons.mpr ⟨by decide, List.forall_mem_singleton.mpr (by decide)⟩

theorem kept_evenlyQuoted : Kept Text.EvenlyQuoted where
  toKeptByJoining := keptInLines_evenlyQuoted.toKeptByJoining
  enclosed even := by
    have opening : Text.EvenlyQuoted ['('] := by decide
    have closing : Text.EvenlyQuoted [')'] := by decide
    exact (opening.append even).append closing
  quoted even := by
    rw [Text.EvenlyQuoted] at even ⊢
    simp only [List.count_append, List.count_singleton_self]
    omega
  capitalize := keptInLines_evenlyQuoted.capitalize <| by
    intro first rest noDelimiter even
    have noQuote : first ≠ '"' := fun same => noDelimiter (same ▸ by decide)
    rwa [Text.EvenlyQuoted, List.count_cons_of_ne noQuote] at even

end Code

/-! ## Balanced code -/

open Code GeneratedFunction

/-- The name or the type of a member, as it may stand in balanced code. -/
structure Text.IsBalancedLine (text : Text) : Prop where
  onOneLine : text.OnOneLine
  unquoted : '"' ∉ text
  braces : text.NestedIn '{' '}'
  parens : text.NestedIn '(' ')'

instance (text : Text) : Decidable text.IsBalancedLine :=
  decidable_of_iff
    (text.OnOneLine ∧ '"' ∉ text ∧ text.NestedIn '{' '}' ∧ text.NestedIn '(' ')')
    ⟨fun ⟨onOneLine, unquoted, braces, parens⟩ => ⟨onOneLine, unquoted, braces, parens⟩,
      fun line => ⟨line.onOneLine, line.unquoted, line.braces, line.parens⟩⟩

/-- A function all of whose texts are nested and evenly quoted, each on one line. -/
structure GeneratedFunction.IsBalanced (function : GeneratedFunction) : Prop where
  onOneLine : function.Throughout Text.OnOneLine
  even : function.Throughout Text.EvenlyQuoted
  nested : ∀ pair ∈ bracketPairs, function.Throughout (Text.NestedIn pair.1 pair.2)

section Functions

variable {functions : List GeneratedFunction} {indent : Text}

/-- Texts that are put one behind the other are balanced if each is nested and has even lines. -/
theorem isBalanced_flatMap
    {render : GeneratedFunction → Text}
    {rows : GeneratedFunction → List Text}
    (areLines : Text.lines (functions.flatMap render) = Text.terminated (functions.flatMap rows))
    (nested :
      ∀ pair ∈ bracketPairs, ∀ function ∈ functions,
        (render function).NestedIn pair.1 pair.2)
    (even : ∀ function ∈ functions, ∀ row ∈ rows function, row.EvenlyQuoted) :
    Text.IsBalanced (functions.flatMap render) where
  braces := (keptInBlocks_nestedIn (by decide)).flatMap (nested ('{', '}') (by decide))
  parens := (keptInBlocks_nestedIn (by decide)).flatMap (nested ('(', ')') (by decide))
  quotes line isLine := by
    rw [areLines] at isLine
    obtain ⟨row, isRow, rfl⟩ := List.mem_map.mp isLine
    obtain ⟨function, isFunction, inFunction⟩ := List.mem_flatMap.mp isRow
    exact (even function isFunction row inFunction).append (by decide)

theorem isBalanced_flatMap_inside
    (balanced : ∀ function ∈ functions, function.IsBalanced)
    (indentUndelimited : Undelimited indent) :
    Text.IsBalanced (functions.flatMap (·.inside indent)) := by
  refine isBalanced_flatMap
    (lines_flatMap_inside (fun function isFunction => (balanced function isFunction).onOneLine)
      (keptInLines_onOneLine.undelimited _ indentUndelimited))
    (fun pair isPair function isFunction => ?_) fun function isFunction => ?_
  · have kept := keptInBlocks_nestedIn isPair
    exact kept.inside ((balanced function isFunction).nested pair isPair)
      (kept.undelimited _ indentUndelimited)
  · exact keptInLines_evenlyQuoted.insideLines (balanced function isFunction).even
      (keptInLines_evenlyQuoted.undelimited _ indentUndelimited)

theorem isBalanced_flatMap_declaration
    (balanced : ∀ function ∈ functions, function.IsBalanced)
    (indentUndelimited : Undelimited indent) :
    Text.IsBalanced (functions.flatMap (·.declaration indent)) := by
  have areLines := lines_flatMap_declaration
    (fun function isFunction => (balanced function isFunction).onOneLine)
    (keptInLines_onOneLine.undelimited _ indentUndelimited)
  rw [List.map_eq_flatMap] at areLines
  refine isBalanced_flatMap areLines (fun pair isPair function isFunction => ?_)
    fun function isFunction => ?_
  · have kept := keptInBlocks_nestedIn isPair
    exact kept.declaration ((balanced function isFunction).nested pair isPair)
      (kept.undelimited _ indentUndelimited)
  · exact List.forall_mem_singleton.mpr
      (keptInLines_evenlyQuoted.declarationLine (balanced function isFunction).even
        (keptInLines_evenlyQuoted.undelimited _ indentUndelimited))

theorem isBalanced_flatMap_definition
    {className : Text}
    (balanced : ∀ function ∈ functions, function.IsBalanced)
    (nameUndelimited : Undelimited className)
    (indentUndelimited : Undelimited indent) :
    Text.IsBalanced (functions.flatMap (·.definition className indent)) := by
  refine isBalanced_flatMap
    (lines_flatMap_definition (fun function isFunction => (balanced function isFunction).onOneLine)
      (keptInLines_onOneLine.undelimited _ nameUndelimited)
      (keptInLines_onOneLine.undelimited _ indentUndelimited))
    (fun pair isPair function isFunction => ?_) fun function isFunction => ?_
  · have kept := keptInBlocks_nestedIn isPair
    exact kept.definition ((balanced function isFunction).nested pair isPair)
      (kept.undelimited _ nameUndelimited) (kept.undelimited _ indentUndelimited)
  · exact keptInLines_evenlyQuoted.definitionLines (balanced function isFunction).even
      (keptInLines_evenlyQuoted.undelimited _ nameUndelimited)
      (keptInLines_evenlyQuoted.undelimited _ indentUndelimited)

end Functions

/-- The functions of a class with an undelimited name and balanced members are balanced. -/
theorem Outline.isBalanced_functions
    {outline : Outline}
    (name : Undelimited outline.name)
    (members :
      ∀ member ∈ outline.members,
        member.name.IsBalancedLine ∧ member.declaredType.IsBalancedLine)
    (action : Action)
    (coverage : Coverage) :
    ∀ function ∈ outline.functions action coverage, function.IsBalanced := by
  have throughout {property : Text → Prop} (kept : Kept property)
      (holds : ∀ text : Text, text.IsBalancedLine → property text) :
      ∀ function ∈ outline.functions action coverage, function.Throughout property := by
    refine kept.throughout_functions ?_ action coverage
    exact
      { name := kept.undelimited _ name
        ownName := kept.undelimited _ fun character member =>
          name character (outline.ownName_isInfix.subset member)
        memberName := fun member isMember => holds _ (members member isMember).1
        memberType := fun member isMember => holds _ (members member isMember).2 }
  intro function isFunction
  refine
    { onOneLine := throughout kept_onOneLine (fun _ line => line.onOneLine) function isFunction
      even := throughout kept_evenlyQuoted (fun text line => ?_) function isFunction
      nested := fun pair isPair =>
        throughout (kept_nestedIn isPair) (fun text line => ?_) function isFunction }
  · rw [Text.EvenlyQuoted, List.count_eq_zero.mpr line.unquoted]
  · rcases List.mem_cons.mp isPair with rfl | isParens
    · exact line.braces
    · obtain rfl := List.mem_singleton.mp isParens
      exact line.parens

/-- The code for any action is balanced, inside the class and behind it. -/
theorem Writer.isBalanced_generate
    {writer : Writer}
    (name : Undelimited writer.outline.name)
    (members :
      ∀ member ∈ writer.outline.members,
        member.name.IsBalancedLine ∧ member.declaredType.IsBalancedLine)
    (indent : Undelimited writer.indent)
    (action : Action)
    (coverage : Coverage) :
    (writer.generate action coverage).declaration.IsBalanced ∧
      ∀ definition ∈ (writer.generate action coverage).definition?, definition.IsBalanced := by
  have balanced := Outline.isBalanced_functions name members action coverage
  rw [generate_eq_code, code]
  split
  · refine ⟨isBalanced_flatMap_inside balanced indent, fun definition isDefinition => ?_⟩
    exact absurd isDefinition (Option.not_mem_none definition)
  · refine ⟨isBalanced_flatMap_declaration balanced indent, fun definition isDefinition => ?_⟩
    obtain rfl := Option.some.inj isDefinition
    exact isBalanced_flatMap_definition balanced name indent

/-- All functions of a class with a member that holds a function. -/
theorem Writer.isBalanced_generate_handler :
    let writer : Writer :=
      { outline :=
          { name := "net::Handler".toList
            members :=
              [{ name := "size".toList, declaredType := "int".toList, byValue := true },
                { name := "action".toList, declaredType := "std::function<void(int)>".toList }]
            startLine := 0
            endLine := 3 }
        placement := .apart
        indent := ['\t'] }
    (writer.generate .all .all).declaration.IsBalanced ∧
      ∀ definition ∈ (writer.generate .all .all).definition?, definition.IsBalanced :=
  isBalanced_generate (by decide) (by decide) (by decide) .all .all

end ClassOutline
