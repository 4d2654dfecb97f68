import ClassOutline.Proofs.Code.Agreement
import ClassOutline.Proofs.Code.Functions
import ClassOutline.Proofs.Member.Lines
/-!
# Renderings of generated functions

The code for the body of a class and the code behind it are filled into templates of their own.  As
the templates agree, they are forms of the same functions: complete in the body of the class, as a
declaration there, and as a definition behind the class.  Read line by line, the forms differ in the
header and in the indentation alone: parameters, initializers and statements are the same.

The definition drops the word that stands in front of the signature, and puts the name of the class
in front of the own name of the function, unless it is the operator that writes to a stream.  Behind
the empty braces of a constructor without parameters it lacks the semicolon.
-/

namespace ClassOutline

/-! ## Lines -/

namespace Text

/-- Lines, each with a line feed at its end. -/
def terminated (lines : List Text) : List Text :=
  lines.map (· ++ ['\n'])

theorem lines_terminated
    {rows : List Text}
    (noBreak : ∀ row ∈ rows, '\n' ∉ row) :
    lines (terminated rows).flatten = terminated rows := by
  induction rows with
  | nil => rfl
  | cons row rows hypothesis =>
    obtain ⟨noBreakHere, noBreakLater⟩ := List.forall_mem_cons.mp noBreak
    have later := hypothesis noBreakLater
    have split : (terminated (row :: rows)).flatten = row ++ '\n' :: (terminated rows).flatten := by
      simp [terminated]
    rw [split, lines_append_cons noBreakHere, later]
    rfl

/-- Texts that consist of lines are read line by line, put one behind the other. -/
theorem lines_flatMap_terminated
    {item : Type}
    {items : List item}
    {render : item → Text}
    {rows : item → List Text}
    (shape : ∀ one, render one = (terminated (rows one)).flatten)
    (noBreak : ∀ one ∈ items, ∀ row ∈ rows one, '\n' ∉ row) :
    lines (items.flatMap render) = terminated (items.flatMap rows) := by
  have joined : (terminated (items.flatMap rows)).flatten = items.flatMap render := by
    clear noBreak
    induction items with
    | nil => rfl
    | cons one items hypothesis =>
      rw [List.flatMap_cons, List.flatMap_cons, ← hypothesis, shape, terminated, terminated,
        List.map_append, List.flatten_append]
      rfl
  rw [← joined]
  refine lines_terminated fun row isRow => ?_
  obtain ⟨one, isItem, inItem⟩ := List.mem_flatMap.mp isRow
  exact noBreak one isItem row inItem

end Text

namespace GeneratedFunction

/-! ## The forms of a function -/

/-- The signature as it is written behind the class of a given name. -/
def qualifiedSignature (className : Text) (function : GeneratedFunction) : Text :=
  function.result ++ (if function.isMember then className ++ "::".toList else [])
    ++ function.declarator

/-- The lines of a complete function with a given signature. -/
def completeLines (signature ending indent : Text) (function : GeneratedFunction) : List Text :=
  let header := signature ++ function.initializerClause
  match function.body with
  | .empty _ => [header ++ "\x7b\x7d".toList ++ ending]
  | .line statement => [header ++ " \x7b ".toList ++ statement ++ " \x7d".toList]
  | .block statements =>
    (header ++ " \x7b".toList) :: (statements.map (indent ++ ·) ++ ["\x7d".toList])

/-- The lines of the complete function in the body of the class. -/
def insideLines (indent : Text) (function : GeneratedFunction) : List Text :=
  [] :: (function.completeLines function.signature [';'] indent).map (indent ++ ·)

/-- The line of the declaration. -/
def declarationLine (indent : Text) (function : GeneratedFunction) : Text :=
  indent ++ function.signature ++ [';']

/-- The lines of the definition behind the class. -/
def definitionLines (className indent : Text) (function : GeneratedFunction) : List Text :=
  [] :: function.completeLines (function.qualifiedSignature className)
    (if function.body = .empty false then [] else [';']) indent

theorem inside_eq_flatten
    (indent : Text)
    (function : GeneratedFunction) :
    function.inside indent = (Text.terminated (function.insideLines indent)).flatten := by
  cases body : function.body <;>
    simp [GeneratedFunction.inside, insideLines, completeLines, FunctionBody.render,
      Text.terminated, body, List.flatMap_def, List.map_map, Function.comp_def]

theorem declaration_eq
    (indent : Text)
    (function : GeneratedFunction) :
    function.declaration indent = function.declarationLine indent ++ ['\n'] := by
  simp [GeneratedFunction.declaration, declarationLine]

theorem definition_eq_flatten
    (className indent : Text)
    (function : GeneratedFunction) :
    function.definition className indent =
      (Text.terminated (function.definitionLines className indent)).flatten := by
  cases body : function.body with
  | empty closed =>
    cases closed <;>
      simp [GeneratedFunction.definition, definitionLines, completeLines, FunctionBody.render,
        qualifiedSignature, Text.terminated, body]
  | line statement =>
    simp [GeneratedFunction.definition, definitionLines, completeLines, FunctionBody.render,
      qualifiedSignature, Text.terminated, body]
  | block statements =>
    simp [GeneratedFunction.definition, definitionLines, completeLines, FunctionBody.render,
      qualifiedSignature, Text.terminated, body, List.flatMap_def, List.map_map,
      Function.comp_def]

end GeneratedFunction

/-! ## Properties of lines -/

namespace Code

/-- A property of lines that joining them keeps, and that braces do not spoil. -/
structure KeptInLines (property : Text → Prop) : Prop extends KeptByJoining property where
  brace : ∀ brace ∈ ['{', '}'], property [brace]

namespace KeptInLines

variable {property : Text → Prop} {function : GeneratedFunction} {indent : Text}

theorem completeLines
    {signature ending : Text}
    (kept : KeptInLines property)
    (throughout : function.Throughout property)
    (signatureHolds : property signature)
    (endingHolds : property ending)
    (indentHolds : property indent) :
    ∀ line ∈ function.completeLines signature ending indent, property line := by
  have header := kept.append signatureHolds (kept.initializerClause throughout)
  have blank := kept.undelimited [' '] (by decide)
  have opening := kept.brace '{' (by decide)
  have closing := kept.brace '}' (by decide)
  have statements := throughout.statements
  rw [GeneratedFunction.completeLines]
  cases body : function.body with
  | empty closed =>
    exact List.forall_mem_singleton.mpr
      (kept.append (kept.append header (kept.append opening closing)) endingHolds)
  | line statement =>
    rw [body] at statements
    exact List.forall_mem_singleton.mpr
      (kept.append
        (kept.append (kept.append header (kept.append (kept.append blank opening) blank))
          (statements statement List.mem_cons_self))
        (kept.append blank closing))
  | block lines =>
    rw [body] at statements
    refine List.forall_mem_cons.mpr
      ⟨kept.append header (kept.append blank opening),
        List.forall_mem_append.mpr ⟨fun line isLine => ?_, List.forall_mem_singleton.mpr closing⟩⟩
    obtain ⟨statement, isStatement, rfl⟩ := List.mem_map.mp isLine
    exact kept.append indentHolds (statements statement isStatement)

theorem insideLines
    (kept : KeptInLines property)
    (throughout : function.Throughout property)
    (indentHolds : property indent) :
    ∀ line ∈ function.insideLines indent, property line := by
  refine List.forall_mem_cons.mpr ⟨kept.undelimited [] (by decide), fun line isLine => ?_⟩
  obtain ⟨inner, isInner, rfl⟩ := List.mem_map.mp isLine
  exact kept.append indentHolds
    (kept.completeLines throughout (kept.signature throughout) (kept.undelimited [';'] (by decide))
      indentHolds inner isInner)

theorem declarationLine
    (kept : KeptInLines property)
    (throughout : function.Throughout property)
    (indentHolds : property indent) :
    property (function.declarationLine indent) :=
  kept.append (kept.append indentHolds (kept.signature throughout))
    (kept.undelimited [';'] (by decide))

theorem definitionLines
    {className : Text}
    (kept : KeptInLines property)
    (throughout : function.Throughout property)
    (nameHolds : property className)
    (indentHolds : property indent) :
    ∀ line ∈ function.definitionLines className indent, property line := by
  have ending : property (if function.body = .empty false then [] else [';']) := by
    split <;> exact kept.undelimited _ (by decide)
  exact List.forall_mem_cons.mpr ⟨kept.nothing, kept.completeLines throughout
    (kept.qualifiedSignature throughout nameHolds) ending indentHolds⟩

end KeptInLines

end Code

/-- The text has no line feed. -/
def Text.OnOneLine (text : Text) : Prop :=
  '\n' ∉ text

instance (text : Text) : Decidable text.OnOneLine :=
  inferInstanceAs (Decidable ('\n' ∉ text))

namespace Code

theorem keptInLines_onOneLine : KeptInLines Text.OnOneLine where
  undelimited _ undelimited isBreak := undelimited _ isBreak (by decide)
  append left right isBreak := (List.mem_append.mp isBreak).elim left right
  brace := by decide

theorem kept_onOneLine : Kept Text.OnOneLine where
  toKeptByJoining := keptInLines_onOneLine.toKeptByJoining
  enclosed holds := keptInLines_onOneLine.append
    (keptInLines_onOneLine.append (show '\n' ∉ ['('] by decide) holds)
    (show '\n' ∉ [')'] by decide)
  quoted holds := keptInLines_onOneLine.append
    (keptInLines_onOneLine.append (show '\n' ∉ ['"'] by decide) holds)
    (show '\n' ∉ ['"'] by decide)
  capitalize := keptInLines_onOneLine.capitalize fun _ holds isBreak =>
    holds (List.mem_cons_of_mem _ isBreak)

end Code

namespace GeneratedFunction

/-! ## The functions of a class -/

/--
A function of a class, as far as its three forms differ: a word in front of the signature, whether
the name of the class qualifies its own name, and whether a semicolon follows its empty braces.
-/
structure IsFunctionOf (outline : Outline) (function : GeneratedFunction) : Prop where
  specifier : function.specifier ∈ ["".toList, "friend ".toList, "explicit ".toList]
  declarator :
    ∃ declarator : Declarator, function.declarator = declarator.text ∧
      (function.isMember = false ↔ declarator.ownName = "operator<<".toList) ∧
      (function.body = .empty false ↔
        function.body.statements = [] ∧ declarator.ownName = outline.ownName ∧
          declarator.parameters = [])

/-- A function whose own name is not that of the stream operator, and which has statements. -/
theorem isFunctionOf_of_statements
    {outline : Outline}
    {function : GeneratedFunction}
    {declarator : Declarator}
    (specifier : function.specifier ∈ ["".toList, "friend ".toList, "explicit ".toList])
    (isDeclared : function.declarator = declarator.text)
    (isMember : function.isMember = false ↔ declarator.ownName = "operator<<".toList)
    (notEmpty : function.body.statements ≠ []) :
    function.IsFunctionOf outline where
  specifier := specifier
  declarator := by
    refine ⟨declarator, isDeclared, isMember, fun isEmpty => ?_, fun isEmpty => ?_⟩
    · exact absurd (congrArg FunctionBody.statements isEmpty) notEmpty
    · exact absurd isEmpty.1 notEmpty

end GeneratedFunction

/-- The own name of a class has no template arguments. -/
theorem Outline.not_mem_ownName (outline : Outline) : '<' ∉ outline.ownName := by
  have noBracket : '<' ∉ outline.name.takeWhile (· ≠ '<') := fun member => by
    simpa using List.all_eq_true.mp List.all_takeWhile '<' member
  rw [Outline.ownName]
  split
  · next before last cut =>
    rw [Text.eq_append_of_cutAtLast? cut] at noBracket
    exact fun member => noBracket (List.mem_append_right _ member)
  · exact noBracket

open GeneratedFunction in
/-- Each function that is generated for an outline is a function of its class. -/
theorem Outline.isFunctionOf
    (outline : Outline) :
    ∀ action coverage, ∀ function ∈ outline.functions action coverage,
      function.IsFunctionOf outline := by
  have isMember {name : Text} (otherName : name ≠ "operator<<".toList) :
      true = false ↔ name = "operator<<".toList :=
    iff_of_false Bool.noConfusion otherName
  have otherStart {name rest : Text} {first : Char} (shape : name = first :: rest)
      (notSame : first ≠ 'o') : name ≠ "operator<<".toList := by
    rintro rfl
    exact notSame (List.cons.inj shape).1.symm
  have ownName : outline.ownName ≠ "operator<<".toList := fun same =>
    outline.not_mem_ownName (same ▸ by decide)
  have assignment : "operator=".toList ≠ "operator<<".toList := by decide
  have equality : "operator==".toList ≠ "operator<<".toList := by decide
  have semantics (parameter : Text) (source : Text → Text) :
      ∀ function ∈ outline.semantics parameter source, function.IsFunctionOf outline := by
    refine List.forall_mem_cons.mpr ⟨?_, List.forall_mem_singleton.mpr ?_⟩
    · exact
        { specifier := List.mem_cons_self
          declarator := ⟨_, Outline.declarator_semantics _ _, isMember ownName, by simp⟩ }
    · exact isFunctionOf_of_statements List.mem_cons_self (Outline.declarator_semantics _ _)
        (isMember assignment) (List.cons_ne_nil _ _)
  refine Outline.EachFunction.functions
    { constructor := fun members _ => ?_
      destructor := ?_
      copySemantics := semantics _ _
      moveSemantics := semantics _ _
      getter := fun member _ => ?_
      setter := fun member _ => ?_
      stringConversion := ?_
      streamOperator := fun members _ => ?_
      equalityOperator := ?_
      boolOperator := ?_ }
  · refine
      { specifier := List.mem_cons_self
        declarator := ⟨_, outline.declarator_constructor members, isMember ownName, ?_⟩ }
    cases members <;> simp [Outline.constructor, FunctionBody.statements]
  · refine
      { specifier := List.mem_cons_self
        declarator := ⟨_, outline.declarator_destructor,
          isMember (otherStart rfl (by decide)), ?_⟩ }
    simp [Outline.destructor]
  · exact isFunctionOf_of_statements List.mem_cons_self member.declarator_getter
      (isMember (otherStart rfl (by decide))) (List.cons_ne_nil _ _)
  · exact isFunctionOf_of_statements List.mem_cons_self (member.declarator_setter outline)
      (isMember (otherStart rfl (by decide))) (List.cons_ne_nil _ _)
  · exact isFunctionOf_of_statements List.mem_cons_self Outline.declarator_stringConversion
      (isMember (by decide)) (List.cons_ne_nil _ _)
  · exact isFunctionOf_of_statements (List.mem_cons_of_mem _ List.mem_cons_self)
      (outline.declarator_streamOperator members) ⟨fun _ => rfl, fun _ => rfl⟩
      (List.cons_ne_nil _ _)
  · exact isFunctionOf_of_statements List.mem_cons_self outline.declarator_equalityOperator
      (isMember equality) (List.cons_ne_nil _ _)
  · exact isFunctionOf_of_statements (by decide) Outline.declarator_boolOperator
      (isMember (by decide)) (List.cons_ne_nil _ _)

/-! ## The renderings of a class -/

open GeneratedFunction

section Functions

variable {functions : List GeneratedFunction} {indent : Text}

theorem lines_flatMap_inside
    (onOneLine : ∀ function ∈ functions, function.Throughout Text.OnOneLine)
    (indentOnOneLine : indent.OnOneLine) :
    Text.lines (functions.flatMap (·.inside indent)) =
      Text.terminated (functions.flatMap (insideLines indent)) :=
  Text.lines_flatMap_terminated (inside_eq_flatten indent) fun function isFunction =>
    Code.keptInLines_onOneLine.insideLines (onOneLine function isFunction) indentOnOneLine

theorem lines_flatMap_declaration
    (onOneLine : ∀ function ∈ functions, function.Throughout Text.OnOneLine)
    (indentOnOneLine : indent.OnOneLine) :
    Text.lines (functions.flatMap (·.declaration indent)) =
      Text.terminated (functions.map (declarationLine indent)) := by
  rw [List.map_eq_flatMap]
  refine Text.lines_flatMap_terminated (fun function => ?_) fun function isFunction =>
    List.forall_mem_singleton.mpr (Code.keptInLines_onOneLine.declarationLine
      (onOneLine function isFunction) indentOnOneLine)
  rw [declaration_eq]
  exact List.flatten_singleton.symm

theorem lines_flatMap_definition
    {className : Text}
    (onOneLine : ∀ function ∈ functions, function.Throughout Text.OnOneLine)
    (nameOnOneLine : className.OnOneLine)
    (indentOnOneLine : indent.OnOneLine) :
    Text.lines (functions.flatMap (·.definition className indent)) =
      Text.terminated (functions.flatMap (definitionLines className indent)) :=
  Text.lines_flatMap_terminated (definition_eq_flatten className indent) fun function isFunction =>
    Code.keptInLines_onOneLine.definitionLines (onOneLine function isFunction) nameOnOneLine
      indentOnOneLine

end Functions

/--
Texts are the renderings of the functions of a class: the same functions, in the same order, complete
in the body of the class, declared there on one line each, and defined behind the class.
-/
structure AreRenderings
    (outline : Outline)
    (indent : Text)
    (functions : List GeneratedFunction)
    (inside declaration definition : Text) :
    Prop where
  areFunctions : ∀ function ∈ functions, function.IsFunctionOf outline
  inside : inside.lines = Text.terminated (functions.flatMap (insideLines indent))
  declaration : declaration.lines = Text.terminated (functions.map (declarationLine indent))
  definition :
    definition.lines = Text.terminated (functions.flatMap (definitionLines outline.name indent))

/--
The code inside the class and the code apart from it, each filled into templates of its own, are
renderings of the same functions, which depend on the class, the action and the coverage alone.
-/
theorem Writer.areRenderings
    {outline : Outline}
    {indent : Text}
    (isPlain : outline.isTemplate = false)
    (name : outline.name.OnOneLine)
    (members :
      ∀ member ∈ outline.members, member.name.OnOneLine ∧ member.declaredType.OnOneLine)
    (indentOnOneLine : indent.OnOneLine)
    (action : Action)
    (coverage : Coverage) :
    ∃ inside declaration definition,
      (ofStyle outline { placement := .inside, indent }).generate action coverage =
          .inside inside ∧
        (ofStyle outline { placement := .apart, indent }).generate action coverage =
          .apart declaration definition ∧
        AreRenderings outline indent (outline.functions action coverage) inside declaration
          definition := by
  have names : Code.HoldsOfNames Text.OnOneLine outline :=
    { name := name
      ownName := fun isBreak => name (outline.ownName_isInfix.subset isBreak)
      memberName := fun member isMember => (members member isMember).1
      memberType := fun member isMember => (members member isMember).2 }
  have onOneLine := Code.kept_onOneLine.throughout_functions names action coverage
  have placement (style : Style) : (ofStyle outline style).placement = style.placement := by
    rw [ofStyle, isPlain]
    rfl
  exact ⟨_, _, _, by rw [generate_eq_code, code, placement]; rfl,
    by rw [generate_eq_code, code, placement]; rfl,
    { areFunctions := outline.isFunctionOf action coverage
      inside := lines_flatMap_inside onOneLine indentOnOneLine
      declaration := lines_flatMap_declaration onOneLine indentOnOneLine
      definition := lines_flatMap_definition onOneLine name indentOnOneLine }⟩

/-- All functions of a class in a scope. -/
theorem Writer.areRenderings_point :
    let outline : Outline :=
      { name := "geo::Point".toList
        members :=
          [{ name := "x".toList, declaredType := "int".toList, byValue := true },
            { name := "label".toList, declaredType := "std::string".toList }]
        startLine := 0
        endLine := 3 }
    ∃ inside declaration definition,
      (ofStyle outline { placement := .inside, indent := ['\t'] }).generate .all .all =
          .inside inside ∧
        (ofStyle outline { placement := .apart, indent := ['\t'] }).generate .all .all =
          .apart declaration definition ∧
        AreRenderings outline ['\t'] (outline.functions .all .all) inside declaration definition :=
  areRenderings (by decide) (by decide) (by decide) (by decide) .all .all

end ClassOutline
