import ClassOutline.Proofs.ClassHead.TemplateClause
import ClassOutline.Proofs.Scan.Blocks
import ClassOutline.Proofs.Written.ClassLine
import ClassOutline.Proofs.Written.MemberLine
/-!
# Written classes

A class is written as a template clause on a line of its own, if it has parameters, the class line,
a line for each line of members, and the closing brace.  Behind a statement that has ended, its
block gives the outline of the class as it was written.
-/

namespace ClassOutline.Written

variable {barred : List Text}

/-! ## Where a class may be written -/

/--
A text behind which a class may be written: a declaration may begin there, and no template clause
ends there.
-/
structure Ready (past : Text) : Prop where
  fresh : Reserved.Fresh past
  noClause : (past.dropWhile Text.isBlank).head? ≠ some '>'

/-- A class may be written at the start of a text and behind the end of a statement or a scope. -/
theorem Ready.of_head?
    {past : Text}
    (delimited : past.head?.all Reserved.isDelimiter = true)
    (ends : ∀ nearest ∈ (past.dropWhile Text.isBlank).head?, nearest ∈ [';', '{', '}']) :
    Ready past := by
  constructor
  · refine Reserved.fresh_of_head? delimited fun nearest isNearest => ?_
    have noMarks : ∀ mark ∈ [';', '{', '}'], mark ≠ '<' ∧ mark ≠ ',' := by decide
    exact noMarks nearest (ends nearest isNearest)
  · exact fun isBracket => absurd (ends '>' isBracket) (by decide)

/-- Blanks between the end of a statement or a scope and the class do not matter. -/
theorem Ready.of_gap
    {gap past : Text}
    {last : Char}
    (isGap : ∀ character ∈ gap, Reserved.isGapCharacter character = true)
    (notEmpty : gap ≠ [])
    (ends : last ∈ [';', '{', '}']) :
    Ready (gap ++ last :: past) := by
  have notBlank : ∀ mark ∈ [';', '{', '}'], Text.isBlank mark = false := by decide
  obtain ⟨first, rest, rfl⟩ := List.exists_cons_of_ne_nil notEmpty
  refine Ready.of_head? ?_ fun nearest isNearest => ?_
  · simpa using Reserved.isDelimiter_of_isGapCharacter (isGap first List.mem_cons_self)
  · rw [List.dropWhile_append_of_pos fun character member =>
      Reserved.isBlank_of_isAsciiBlank
        (Reserved.isAsciiBlank_of_isGapCharacter (isGap character member)),
      List.dropWhile_cons_of_neg (by simp [notBlank last ends])] at isNearest
    exact Option.some.inj isNearest ▸ ends

/-! ## Classes -/

/-- A class as it is written. -/
structure ClassModel (barred : List Text) where
  /-- The parameters of the template; none if the class is not one. -/
  parameters : List (Identifier barred)
  line : ClassLine barred
  memberLines : List (MemberLine barred)

namespace ClassModel

/-! ## Texts -/

/-- The parameters in angle brackets. -/
def arguments (model : ClassModel barred) : Text :=
  ' ' :: '<' :: ([',', ' '].intercalate
    (model.parameters.map fun parameter => "typename ".toList ++ parameter.text) ++ ['>'])

/-- The template clause; empty if there are no parameters. -/
def templateClause (model : ClassModel barred) : Text :=
  if model.parameters = [] then [] else ClassHead.templateWord ++ model.arguments

/-- The template clause with the end of its line. -/
def templateLine (model : ClassModel barred) : Text :=
  if model.parameters = [] then [] else ClassHead.templateWord ++ model.arguments ++ ['\n']

/-- The text between the braces. -/
def body (model : ClassModel barred) : Text :=
  '\n' :: (model.memberLines.map MemberLine.text).flatMap (· ++ [';', '\n'])

/-- The text of the class. -/
def text (model : ClassModel barred) : Text :=
  model.templateLine ++
    (model.line.word ++ model.line.head ++ '{' :: (model.body ++ ['}'])) ++ [';']

/-! ## The declaration -/

theorem lacks_body
    {word : Text}
    (model : ClassModel barred)
    (isBarred : word ∈ reservedWords ++ barred)
    (isWord : IsWord word)
    (notStatic : Text.Lacks "static".toList word) :
    model.body.Lacks word := by
  rw [body, Text.lacks_cons _ isWord.1 (isWord.not_mem (by decide))]
  refine Text.lacks_flatMap isWord.1 (by simp) ?_ ?_
  · have noSemicolon : ';' ∉ word := isWord.not_mem (by decide)
    have noBreak : '\n' ∉ word := isWord.not_mem (by decide)
    simpa using ⟨noSemicolon, noBreak⟩
  · intro text member
    obtain ⟨line, -, rfl⟩ := List.mem_map.mp member
    exact line.lacks isBarred isWord notStatic

/-- The body is made of name characters and the punctuation of members. -/
theorem characters_body (model : ClassModel barred) :
    ∀ character ∈ model.body,
      isNameCharacter character = true ∨ character ∈ ":<>, *&[];\n".toList := by
  intro character member
  rcases List.mem_cons.mp member with rfl | inLines
  · exact .inr (by decide)
  · obtain ⟨text, isText, inText⟩ := List.mem_flatMap.mp inLines
    obtain ⟨line, -, rfl⟩ := List.mem_map.mp isText
    have wider : ∀ mark ∈ ":<>, *&[]".toList, mark ∈ ":<>, *&[];\n".toList := by decide
    have ending : ∀ mark ∈ [';', '\n'], mark ∈ ":<>, *&[];\n".toList := by decide
    rcases List.mem_append.mp inText with inLine | isEnd
    · exact (line.characters character inLine).imp_right (wider character)
    · exact .inr (ending character isEnd)

theorem braceless_body (model : ClassModel barred) : Block.Braceless model.body := by
  intro character member
  have marks : ∀ mark ∈ ":<>, *&[];\n".toList, mark ≠ '{' ∧ mark ≠ '}' := by decide
  rcases model.characters_body character member with isLetter | isMark
  · exact ⟨ne_of_isNameCharacter isLetter (by decide), ne_of_isNameCharacter isLetter (by decide)⟩
  · exact marks character isMark

/-- The declaration that is written. -/
def declared (model : ClassModel barred) : Block.Declared where
  word := model.line.word
  head := model.line.head
  body := model.body
  isWord := model.line.isWord
  delimited := rfl
  headLacks other isOther := by
    have words : ∀ word ∈ Block.declarationWords, word ∈ reservedWords ∧ IsWord word ∧
        ∀ specifier ∈ ClassHead.baseSpecifiers, Text.Lacks specifier word := by
      decide
    obtain ⟨isReserved, isWord, noSpecifier⟩ := words other isOther
    exact model.line.lacks_head (List.mem_append_left _ isReserved) isWord noSpecifier
  bodyLacks other isOther := by
    have words : ∀ word ∈ Block.declarationWords, word ∈ reservedWords ∧ IsWord word ∧
        Text.Lacks "static".toList word := by
      decide
    obtain ⟨isReserved, isWord, notStatic⟩ := words other isOther
    exact model.lacks_body (List.mem_append_left _ isReserved) isWord notStatic
  headBraceless := model.line.plain_head.braceless
  bodyNested := model.braceless_body.nested

theorem text_eq (model : ClassModel barred) :
    model.text = model.templateLine ++ model.declared.block ++ [';'] := rfl

/-- The text of a class template with a base and two members. -/
example :
    let type : Identifier [] := ⟨['T'], by decide, by decide⟩
    let line : ClassLine [] :=
      { word := "class".toList
        isWord := by decide
        name := ⟨[⟨['A'], by decide, by decide⟩], by decide⟩
        entries :=
          [⟨some .privately, true, ⟨_, .path ⟨[⟨['B'], by decide, by decide⟩], by decide⟩⟩⟩] }
    let members : MemberLine [] :=
      { isStatic := true
        type := [⟨_, .path ⟨[type], by decide⟩⟩]
        declarators :=
          [⟨⟨['x'], by decide, by decide⟩, .plain, by decide⟩,
            ⟨⟨['y'], by decide, by decide⟩, .pointer, by decide⟩]
        typeNotEmpty := by decide
        declaratorsNotEmpty := by decide }
    ClassModel.text ⟨[type], line, [members]⟩ =
      ("template <typename T>\nclass A : private virtual B \x7b\n" ++
        "static T x, *y;\n\x7d;").toList := by
  decide

/-! ## The template clause -/

theorem characters_arguments (model : ClassModel barred) :
    ∀ character ∈ model.arguments,
      isNameCharacter character = true ∨ character ∈ " <>,".toList := by
  intro character member
  rw [arguments, List.mem_cons, List.mem_cons, List.mem_append, List.mem_singleton] at member
  rcases member with rfl | rfl | inParameters | rfl
  · exact .inr (by decide)
  · exact .inr (by decide)
  · rcases Text.mem_intercalate inParameters with inSeparator | ⟨text, isText, inText⟩
    · have separator : ∀ mark ∈ [',', ' '], mark ∈ " <>,".toList := by decide
      exact .inr (separator character inSeparator)
    · obtain ⟨parameter, -, rfl⟩ := List.mem_map.mp isText
      have word : ∀ mark ∈ "typename ".toList,
          isNameCharacter mark = true ∨ mark ∈ " <>,".toList := by
        decide
      rcases List.mem_append.mp inText with inWord | inParameter
      · exact word character inWord
      · exact .inl (parameter.isWord.2 character inParameter)
  · exact .inr (by decide)

theorem lacks_arguments
    {word : Text}
    (model : ClassModel barred)
    (isBarred : word ∈ reservedWords ++ barred)
    (isWord : IsWord word)
    (notTypename : Text.Lacks "typename".toList word) :
    model.arguments.Lacks word := by
  have noSpace : ' ' ∉ word := isWord.not_mem (by decide)
  have noComma : ',' ∉ word := isWord.not_mem (by decide)
  rw [arguments, Text.lacks_cons _ isWord.1 noSpace,
    Text.lacks_cons _ isWord.1 (isWord.not_mem (by decide)),
    Text.lacks_append_cons _ _ (isWord.not_mem (by decide))]
  refine ⟨Text.lacks_intercalate isWord.1 (by simp) (by simpa using ⟨noComma, noSpace⟩) ?_,
    Text.lacks_nil isWord.1⟩
  intro text member
  obtain ⟨parameter, -, rfl⟩ := List.mem_map.mp member
  have shape : "typename ".toList ++ parameter.text =
      "typename".toList ++ ' ' :: parameter.text := rfl
  rw [shape, Text.lacks_append_cons _ _ noSpace]
  exact ⟨notTypename, parameter.lacks word isBarred⟩

/-- The template clause is found above the class. -/
theorem templateClauseOf_block
    {past : Text}
    (model : ClassModel barred)
    (ready : Ready past)
    (text : Text) :
    ClassHead.templateClauseOf ⟨model.templateLine.reverse ++ past, text⟩ =
      model.templateClause := by
  rw [templateLine, templateClause]
  split
  · exact ClassHead.templateClauseOf_eq_nil ready.noClause
  · have lacks : model.arguments.Lacks ClassHead.templateWord :=
      model.lacks_arguments (List.mem_append_left _ (by decide)) (by decide) (by decide)
    refine @ClassHead.templateClauseOf_eq_clause _ past.reverse _ ['\n'] ?_
      (by rw [List.reverse_reverse]; exact ready.fresh) ?_ (by decide) lacks ?_
    · simp [Block.above, arguments]
    · rw [← List.cons_append, ← List.cons_append, List.getLast?_concat]
    · rw [List.any_eq_false]
      intro character member
      have marks : ∀ mark ∈ " <>,".toList, ¬ ClassHead.isBreak mark = true := by decide
      rcases model.characters_arguments character member with isLetter | isMark
      · intro isBreak
        have breaks : ∀ mark ∈ [';', '{', '}', '#'], isNameCharacter mark = false := by decide
        rw [ClassHead.isBreak, List.contains_iff_mem] at isBreak
        exact ne_of_isNameCharacter isLetter (breaks character isBreak) rfl
      · exact marks character isMark

/-- The line of the template clause is made of name characters and its punctuation. -/
theorem characters_templateLine (model : ClassModel barred) :
    ∀ character ∈ model.templateLine,
      isNameCharacter character = true ∨ character ∈ " <>,\n".toList := by
  intro character member
  rw [templateLine] at member
  split at member
  · contradiction
  · have wider : ∀ mark ∈ " <>,".toList, mark ∈ " <>,\n".toList := by decide
    have isWord : IsWord ClassHead.templateWord := by decide
    rw [List.mem_append, List.mem_append, List.mem_singleton] at member
    rcases member with (inWord | inArguments) | rfl
    · exact .inl (isWord.2 character inWord)
    · exact (model.characters_arguments character inArguments).imp_right (wider character)
    · exact .inr (by decide)

/-- The line of the template clause begins no declaration and opens no brace. -/
theorem calm_templateLine (model : ClassModel barred) :
    Block.Calm model.templateLine ∧ Block.Braceless model.templateLine := by
  rw [templateLine]
  split
  · exact ⟨Block.calm_nil, by simp [Block.Braceless]⟩
  · have words : ∀ word ∈ Block.declarationWords, word ∈ reservedWords ∧ IsWord word ∧
        Text.Lacks "typename".toList word ∧ Text.Lacks ClassHead.templateWord word := by
      decide
    constructor
    · constructor
      · intro word isDeclarationWord
        obtain ⟨isReserved, isWord, notTypename, notTemplate⟩ := words word isDeclarationWord
        have noSpace : ' ' ∉ word := isWord.not_mem (by decide)
        have lacks := model.lacks_arguments (List.mem_append_left _ isReserved) isWord notTypename
        rw [arguments] at lacks ⊢
        rw [Text.lacks_append_cons _ _ (isWord.not_mem (by decide)),
          Text.lacks_append_cons _ _ noSpace]
        exact
          ⟨⟨notTemplate, (Text.lacks_cons _ isWord.1 noSpace).mp lacks⟩, Text.lacks_nil isWord.1⟩
      · intro last isLast word isDeclarationWord
        rw [List.getLast?_concat] at isLast
        obtain rfl := Option.some.inj isLast
        exact (words word isDeclarationWord).2.1.not_mem (by decide)
    · intro character member
      have marks : ∀ mark ∈ " <>,\n".toList, mark ≠ '{' ∧ mark ≠ '}' := by decide
      have inLine : character ∈ model.templateLine := by
        rw [templateLine, if_neg ‹_›]
        exact member
      rcases model.characters_templateLine character inLine with isLetter | isMark
      · exact ⟨ne_of_isNameCharacter isLetter (by decide),
          ne_of_isNameCharacter isLetter (by decide)⟩
      · exact marks character isMark

/-- A declaration may begin behind the line of the template clause. -/
theorem fresh_templateLine
    {past : Text}
    (model : ClassModel barred)
    (fresh : Reserved.Fresh past) :
    Reserved.Fresh (model.templateLine.reverse ++ past) := by
  rw [templateLine]
  split
  · exact fresh
  · have shape : (ClassHead.templateWord ++ model.arguments ++ ['\n']).reverse ++ past =
        '\n' :: '>' :: ((ClassHead.templateWord ++ ' ' :: '<' :: [',', ' '].intercalate
          (model.parameters.map fun parameter =>
            "typename ".toList ++ parameter.text)).reverse ++ past) := by
      simp [arguments]
    have newlineBlank : Text.isBlank '\n' = true := by decide
    have bracketNotBlank : Text.isBlank '>' = false := by decide
    rw [shape]
    refine Reserved.fresh_of_head? rfl fun nearest isNearest => ?_
    rw [List.dropWhile_cons_of_pos newlineBlank, List.dropWhile_cons_of_neg (by simp [bracketNotBlank])]
      at isNearest
    obtain rfl := Option.some.inj isNearest
    decide

/-! ## The whole text -/

/-- The words of a written class besides its names. -/
def ownWords : List Text :=
  ["template".toList, "typename".toList, "class".toList, "struct".toList, "public".toList,
    "protected".toList, "private".toList, "virtual".toList, "static".toList]

/-- A word that stands in no name and none of the own words stands nowhere in the class. -/
theorem lacks_text
    {word : Text}
    (model : ClassModel barred)
    (isBarred : word ∈ reservedWords ++ barred)
    (isWord : IsWord word)
    (notOwn : ∀ own ∈ ownWords, Text.Lacks own word) :
    model.text.Lacks word := by
  have absent {mark : Char} (noName : isNameCharacter mark = false) : mark ∉ word :=
    isWord.not_mem noName
  have templateLacks : Text.Lacks (ClassHead.templateWord ++ model.arguments) word := by
    have argumentsLack := model.lacks_arguments isBarred isWord (notOwn _ (by decide))
    rw [arguments, Text.lacks_cons _ isWord.1 (absent (by decide))] at argumentsLack
    rw [arguments, Text.lacks_append_cons _ _ (absent (by decide))]
    exact ⟨notOwn _ (by decide), argumentsLack⟩
  have headLacks : Text.Lacks (model.line.word ++ model.line.head) word := by
    have specifiers : ∀ specifier ∈ ClassHead.baseSpecifiers, specifier ∈ ownWords := by decide
    have declaring : ∀ declaring ∈ Block.declarationWords, declaring ∈ ownWords := by decide
    have lacks := model.line.lacks_head isBarred isWord fun specifier isSpecifier =>
      notOwn _ (specifiers specifier isSpecifier)
    rw [ClassLine.head, Text.lacks_cons _ isWord.1 (absent (by decide))] at lacks
    rw [ClassLine.head, Text.lacks_append_cons _ _ (absent (by decide))]
    exact ⟨notOwn _ (declaring _ model.line.isWord), lacks⟩
  have behind : Text.Lacks
      (model.line.word ++ model.line.head ++ '{' :: (model.body ++ '}' :: [';'])) word := by
    rw [Text.lacks_append_cons _ _ (absent (by decide)),
      Text.lacks_append_cons _ _ (absent (by decide)),
      Text.lacks_cons _ isWord.1 (absent (by decide))]
    exact ⟨headLacks, model.lacks_body isBarred isWord (notOwn _ (by decide)),
      Text.lacks_nil isWord.1⟩
  rw [text, templateLine]
  split
  · simpa using behind
  · have shape : ClassHead.templateWord ++ model.arguments ++ ['\n'] ++
        (model.line.word ++ model.line.head ++ '{' :: (model.body ++ ['}'])) ++ [';'] =
        (ClassHead.templateWord ++ model.arguments) ++ '\n' ::
          (model.line.word ++ model.line.head ++ '{' :: (model.body ++ '}' :: [';'])) := by
      simp
    rw [shape, Text.lacks_append_cons _ _ (absent (by decide))]
    exact ⟨templateLacks, behind⟩

/-- The punctuation of a written class. -/
def punctuation : Text :=
  ":<>, *&[]\x7b\x7d;\n".toList

/-- A written class is made of name characters and its punctuation. -/
theorem characters_text (model : ClassModel barred) :
    ∀ character ∈ model.text, isNameCharacter character = true ∨ character ∈ punctuation := by
  intro character member
  rw [text, List.mem_append, List.mem_append, List.mem_append, List.mem_append, List.mem_cons,
    List.mem_append, List.mem_singleton, List.mem_singleton] at member
  rcases member with (inTemplate | (inWord | inHead) | rfl | inBody | rfl) | rfl
  · have wider : ∀ mark ∈ " <>,\n".toList, mark ∈ punctuation := by decide
    exact (model.characters_templateLine character inTemplate).imp_right (wider character)
  · have areWords : ∀ word ∈ Block.declarationWords, IsWord word := by decide
    exact .inl ((areWords _ model.line.isWord).2 character inWord)
  · have wider : ∀ mark ∈ ":<>, ".toList, mark ∈ punctuation := by decide
    exact (model.line.characters_head character inHead).imp_right (wider character)
  · exact .inr (by decide)
  · have wider : ∀ mark ∈ ":<>, *&[];\n".toList, mark ∈ punctuation := by decide
    exact (model.characters_body character inBody).imp_right (wider character)
  · exact .inr (by decide)
  · exact .inr (by decide)

theorem slash_not_mem (model : ClassModel barred) : '/' ∉ model.text := by
  intro member
  have marks : '/' ∉ punctuation := by decide
  rcases model.characters_text '/' member with isLetter | isMark
  · exact absurd isLetter (by decide)
  · exact marks isMark

/-! ## The outline -/

/-- The members that the class declares. -/
def members (model : ClassModel barred) : List DataMember :=
  model.memberLines.flatMap MemberLine.members

/-- The outline of the class, if its declaring word stands on a given line. -/
def outline
    (options : ScanOptions)
    (startLine : Nat)
    (model : ClassModel barred) :
    Outline where
  name := model.line.name.text
  templateClause := model.templateClause
  bases := model.line.entries.map BaseEntry.base
  members := model.members.filter fun member => !(options.skipStatic && member.isStatic)
  startLine := startLine
  endLine := startLine + (model.memberLines.length + 1)

/-- What a body declares that begins with the lines of members, line by line. -/
theorem ofText_block_append
    {rest : Text}
    {declared : Block.Declared}
    (model : ClassModel barred)
    (sameHead : declared.head = model.line.head)
    (bodyShape : declared.body = model.body ++ rest) :
    Body.ofText declared.block =
      (model.memberLines.map fun line => Declaration.members (line.text ++ [';'])).foldr Body.cons
        (Body.ofRest Body.depthInBody (rest ++ ['}'])) := by
  have areData : ∀ text ∈ model.memberLines.map MemberLine.text, Statement.IsData text := by
    intro text member
    obtain ⟨line, -, rfl⟩ := List.mem_map.mp member
    exact line.isData
  have read := Body.ofText_block declared (sameHead ▸ model.line.plain_head) bodyShape areData
  rw [read, List.map_map]
  rfl

/-- What the lines of members declare, line by line. -/
theorem ofText_block (model : ClassModel barred) :
    Body.ofText model.declared.block =
      Body.ofDeclarations (model.memberLines.map fun line =>
        Declaration.members (line.text ++ [';'])) := by
  have closing : Body.ofRest Body.depthInBody ([] ++ ['}']) = {} := by decide
  rw [model.ofText_block_append rfl (List.append_nil _).symm, closing]
  rfl

theorem lineBreaks_block (model : ClassModel barred) :
    model.declared.block.lineBreaks = model.memberLines.length + 1 := by
  have noBreak {text : Text} (plain : Statement.Plain text) : text.lineBreaks = 0 :=
    List.count_eq_zero.mpr (plain.not_mem (by decide))
  have front := noBreak (@Body.plain_front _ model.declared.head model.declared.isWord model.line.plain_head)
  have lines (memberLines : List (MemberLine barred)) :
      Text.lineBreaks ((memberLines.map MemberLine.text).flatMap (· ++ [';', '\n'])) =
        memberLines.length := by
    induction memberLines with
    | nil => rfl
    | cons line memberLines hypothesis =>
      have ending : Text.lineBreaks [';', '\n'] = 1 := by decide
      rw [List.map_cons, List.flatMap_cons, Text.lineBreaks_append, Text.lineBreaks_append,
        hypothesis, noBreak line.plain, ending, List.length_cons]
      omega
  have shape : model.declared.block =
      (model.declared.word ++ model.declared.head) ++
        (['{', '\n'] ++ ((model.memberLines.map MemberLine.text).flatMap (· ++ [';', '\n']) ++
          ['}'])) := by
    simp [Block.Declared.block, declared, body]
  have opening : Text.lineBreaks ['{', '\n'] = 1 := by decide
  have closing : Text.lineBreaks ['}'] = 0 := by decide
  rw [shape, Text.lineBreaks_append, front, Text.lineBreaks_append, Text.lineBreaks_append, lines,
    opening, closing]
  omega

/-! ## Declarations that show the class -/

/-- A declaration shows the class if it has the head of the class and declares its members. -/
structure ShownBy (declared : Block.Declared) (model : ClassModel barred) : Prop where
  sameWord : declared.word = model.line.word
  sameHead : declared.head = model.line.head
  members : Body.ofText declared.block = { members := model.members }

/-- Behind the lines of members nothing may be declared. -/
theorem shownBy_of_body
    {rest : Text}
    {declared : Block.Declared}
    {model : ClassModel barred}
    (noPrefix : ∀ line ∈ model.memberLines, ∀ name ∈ line.type, name.text ≠ "_STD".toList)
    (sameWord : declared.word = model.line.word)
    (sameHead : declared.head = model.line.head)
    (bodyShape : declared.body = model.body ++ rest)
    (silent : Body.ofRest Body.depthInBody (rest ++ ['}']) = {}) :
    model.ShownBy declared where
  sameWord := sameWord
  sameHead := sameHead
  members := by
    have found (lines : List (MemberLine barred)) (resolved : ∀ line ∈ lines,
        Declaration.members (line.text ++ [';']) = .ok line.members) :
        (lines.map fun line => Declaration.members (line.text ++ [';'])).foldr Body.cons {} =
          { members := lines.flatMap MemberLine.members } := by
      induction lines with
      | nil => rfl
      | cons line lines hypothesis =>
        have later := hypothesis fun other member => resolved other (List.mem_cons_of_mem _ member)
        rw [List.map_cons, List.foldr_cons, later, resolved line List.mem_cons_self]
        rfl
    rw [model.ofText_block_append sameHead bodyShape, silent]
    exact found model.memberLines fun line member => line.members_text (noPrefix line member)

theorem shownBy_declared
    {model : ClassModel barred}
    (noPrefix : ∀ line ∈ model.memberLines, ∀ name ∈ line.type, name.text ≠ "_STD".toList) :
    model.ShownBy model.declared :=
  shownBy_of_body noPrefix rfl rfl (List.append_nil _).symm (by decide)

/-- The head of the class is read as it was written. -/
theorem ofBlock_of_sameHead
    {past : Text}
    {declared : Block.Declared}
    (model : ClassModel barred)
    (sameWord : declared.word = model.line.word)
    (sameHead : declared.head = model.line.head)
    (virtualBarred : model.line.entries = [] ∨ "virtual".toList ∈ barred)
    (ready : Ready past) :
    ClassHead.ofBlock ⟨model.templateLine.reverse ++ past, declared.block⟩ =
      .ok
        { name := model.line.name.text
          templateClause := model.templateClause
          bases := model.line.entries.map BaseEntry.base
          startLine := Text.lineBreaks (model.templateLine.reverse ++ past)
          endLine := Text.lineBreaks (model.templateLine.reverse ++ past) +
            declared.block.lineBreaks } := by
  obtain ⟨legal, kept⟩ := model.line.legalName_name
  have head := model.line.headOf_block declared sameWord sameHead
  rw [ClassHead.ofBlock_eq, head, model.line.nameAndBases_head virtualBarred, if_pos legal,
    ClassHead.ofParts, model.templateClauseOf_block ready, kept]

theorem ofBlock_block
    {past : Text}
    (model : ClassModel barred)
    (virtualBarred : model.line.entries = [] ∨ "virtual".toList ∈ barred)
    (ready : Ready past) :
    ClassHead.ofBlock ⟨model.templateLine.reverse ++ past, model.declared.block⟩ =
      .ok
        { name := model.line.name.text
          templateClause := model.templateClause
          bases := model.line.entries.map BaseEntry.base
          startLine := Text.lineBreaks (model.templateLine.reverse ++ past)
          endLine := Text.lineBreaks (model.templateLine.reverse ++ past) +
            (model.memberLines.length + 1) } := by
  rw [model.ofBlock_of_sameHead rfl rfl virtualBarred ready, model.lineBreaks_block]

/-- The outline that a declaration on a given line gives if it shows the class. -/
def outlineIn
    (options : ScanOptions)
    (startLine : Nat)
    (declared : Block.Declared)
    (model : ClassModel barred) :
    Outline :=
  { model.outline options startLine with endLine := startLine + declared.block.lineBreaks }

theorem outlineIn_declared
    (options : ScanOptions)
    (startLine : Nat)
    (model : ClassModel barred) :
    model.outlineIn options startLine model.declared = model.outline options startLine := by
  rw [outlineIn, model.lineBreaks_block]
  rfl

/-- The scan of a declaration on a given line that shows the class. -/
def scanIn
    (options : ScanOptions)
    (startLine : Nat)
    (declared : Block.Declared)
    (model : ClassModel barred) :
    Scan where
  outlines := [model.outlineIn options startLine declared]
  tally :=
    { blocks := 1
      classes := 1
      members := (model.outline options startLine).members.length }

/-- The block of a declaration that shows the class gives the outline of the class. -/
theorem ofBlocks_block
    {past : Text}
    {declared : Block.Declared}
    {model : ClassModel barred}
    (options : ScanOptions)
    (virtualBarred : model.line.entries = [] ∨ "virtual".toList ∈ barred)
    (shown : model.ShownBy declared)
    (ready : Ready past) :
    Scan.ofBlocks options [⟨model.templateLine.reverse ++ past, declared.block⟩] =
      model.scanIn options (Text.lineBreaks (model.templateLine.reverse ++ past)) declared := by
  rw [Scan.ofBlocks, List.foldl_cons, List.foldl_nil, Scan.addBlock,
    model.ofBlock_of_sameHead shown.sameWord shown.sameHead virtualBarred ready]
  dsimp only
  rw [shown.members]
  simp [Scan.add, Scan.outlineOf, Outline.onLines, scanIn, outlineIn, outline]

end ClassModel

end ClassOutline.Written
