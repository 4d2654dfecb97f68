import ClassOutline.Proofs.Block.Declared
import ClassOutline.Proofs.Member.Pieces
import ClassOutline.Proofs.Text.Words
/-!
# Bodies written line by line

A declaration may be written with its head on the first line, and one statement to a line behind it.
If no line holds further brackets, quotation marks or semicolons, its members are those that the
statements declare, in order, and then those that are found up to the closing brace.
-/

namespace ClassOutline

/-! ## Lines -/

namespace Text

/-- A text without line feeds belongs to the line in front of which it stands. -/
theorem lines_append_of_lines
    {text rest line : Text}
    {later : List Text}
    (noBreak : '\n' ∉ text)
    (split : lines rest = line :: later) :
    lines (text ++ rest) = (text ++ line) :: later := by
  induction text with
  | nil => exact split
  | cons first text hypothesis =>
    obtain ⟨notBreak, noBreakLater⟩ := List.ne_and_not_mem_of_not_mem_cons noBreak
    simp [lines, notBreak.symm, hypothesis noBreakLater, consToFirst]

theorem lines_append_cons
    {text : Text}
    (noBreak : '\n' ∉ text)
    (rest : Text) :
    lines (text ++ '\n' :: rest) = (text ++ ['\n']) :: lines rest :=
  lines_append_of_lines noBreak rfl

/-- A text is cut into lines at the end of any of its lines. -/
theorem lines_append_newline
    (front behind : Text) :
    lines (front ++ '\n' :: behind) = lines (front ++ ['\n']) ++ lines behind := by
  induction front with
  | nil => simp [lines]
  | cons first front hypothesis =>
    by_cases isBreak : first = '\n'
    · simp [lines, isBreak, hypothesis]
    · obtain ⟨part, parts, shape⟩ : ∃ part parts, lines (front ++ ['\n']) = part :: parts := by
        cases shape : lines (front ++ ['\n']) with
        | nil =>
          have whole := flatten_lines (front ++ ['\n'])
          simp [shape] at whole
        | cons part parts => exact ⟨part, parts, rfl⟩
      simp [lines, isBreak, hypothesis, shape, consToFirst]

theorem length_lines_le_one
    {line : Text}
    (noBreak : '\n' ∉ line) :
    (lines line).length ≤ 1 := by
  induction line with
  | nil => exact Nat.zero_le 1
  | cons first line hypothesis =>
    have later := hypothesis (List.not_mem_of_not_mem_cons noBreak)
    rw [lines, if_neg (Ne.symm (List.ne_of_not_mem_cons noBreak))]
    cases shape : lines line with
    | nil => exact Nat.le_refl 1
    | cons part parts =>
      rw [shape] at later
      simpa [consToFirst] using later

end Text

/-! ## Plain texts -/

namespace Statement

/-- The characters at which statements are cut, lines end or the depth changes. -/
def cuts (character : Char) : Bool :=
  [';', '{', '}', '(', ')', '"', '\'', '\n'].contains character

/-- The text holds none of those characters. -/
def Plain (text : Text) : Prop :=
  ∀ character ∈ text, cuts character = false

instance (text : Text) : Decidable (Plain text) :=
  inferInstanceAs (Decidable (∀ character ∈ text, _))

theorem Plain.append
    {left right : Text}
    (plainLeft : Plain left)
    (plainRight : Plain right) :
    Plain (left ++ right) :=
  fun character member =>
    (List.mem_append.mp member).elim (plainLeft character) (plainRight character)

theorem Plain.not_mem
    {text : Text}
    {character : Char}
    (plain : Plain text)
    (isCut : cuts character = true) :
    character ∉ text := fun member => by
  simp [plain character member] at isCut

theorem Plain.braceless
    {text : Text}
    (plain : Plain text) :
    Block.Braceless text :=
  fun character member =>
    ⟨fun opens => plain.not_mem (by decide) (opens ▸ member),
      fun closes => plain.not_mem (by decide) (closes ▸ member)⟩

theorem ne_of_cuts
    {character : Char}
    (noCut : cuts character = false) :
    character ≠ ';' ∧ character ≠ '{' ∧ character ≠ '}' ∧ character ≠ '(' ∧ character ≠ ')' ∧
      Literal.isMark character = false ∧ character ≠ '\n' := by
  simpa [cuts, Literal.isMark, and_assoc] using noCut

end Statement

/-! ## Bare texts -/

namespace Statement

/-- The text holds no character that ends a statement or a line, and no quotation mark. -/
def Bare (text : Text) : Prop :=
  ∀ character ∈ text, character ≠ ';' ∧ character ≠ '\n' ∧ Literal.isMark character = false

instance (text : Text) : Decidable (Bare text) :=
  inferInstanceAs (Decidable (∀ character ∈ text, _))

theorem Bare.append
    {left right : Text}
    (bareLeft : Bare left)
    (bareRight : Bare right) :
    Bare (left ++ right) :=
  fun character member =>
    (List.mem_append.mp member).elim (bareLeft character) (bareRight character)

theorem Bare.newline_not_mem
    {text : Text}
    (bare : Bare text) :
    '\n' ∉ text :=
  fun member => (bare '\n' member).2.1 rfl

theorem Plain.bare
    {text : Text}
    (plain : Plain text) :
    Bare text := by
  intro character member
  obtain ⟨noEnd, -, -, -, -, noMark, noBreak⟩ := ne_of_cuts (plain character member)
  exact ⟨noEnd, noBreak, noMark⟩

/-- How a character changes the number of open parentheses. -/
def parenChange (character : Char) : Int :=
  if character = '(' then 1 else if character = ')' then -1 else 0

/-- Opening minus closing parentheses. -/
def parens : Text → Int
  | [] => 0
  | first :: rest => parenChange first + parens rest

@[simp]
theorem parens_nil : parens [] = 0 := rfl

@[simp]
theorem parens_cons
    (first : Char)
    (rest : Text) :
    parens (first :: rest) = parenChange first + parens rest := rfl

@[simp]
theorem parens_append
    (left right : Text) :
    parens (left ++ right) = parens left + parens right := by
  induction left with
  | nil => simp
  | cons first left hypothesis =>
    rw [List.cons_append, parens_cons, parens_cons, hypothesis, Int.add_assoc]

/-- No parenthesis stands in the text. -/
def Parenless (text : Text) : Prop :=
  ∀ character ∈ text, character ≠ '(' ∧ character ≠ ')'

theorem Parenless.parens_eq_zero
    {text : Text}
    (parenless : Parenless text) :
    parens text = 0 := by
  induction text with
  | nil => rfl
  | cons first rest hypothesis =>
    obtain ⟨noOpening, noClosing⟩ := parenless first List.mem_cons_self
    have restZero := hypothesis fun character member =>
      parenless character (List.mem_cons_of_mem _ member)
    simp [parenChange, noOpening, noClosing, restZero]

theorem Plain.parenless
    {text : Text}
    (plain : Plain text) :
    Parenless text :=
  fun character member =>
    ⟨fun opens => plain.not_mem (by decide) (opens ▸ member),
      fun closes => plain.not_mem (by decide) (closes ▸ member)⟩

/--
A piece goes on through a bare text, and counts its parentheses.  If it begins with the head of a
class, it is cut at the first brace.
-/
theorem piecesFrom_bare_append
    {nested : Bool}
    {opened : Int}
    {text rest piece : Text}
    {pieces : List Text}
    (bare : Bare text)
    (noOpening : nested = true → '{' ∉ text)
    (split : piecesFrom nested none (opened + parens text) rest = piece :: pieces) :
    piecesFrom nested none opened (text ++ rest) = (text ++ piece) :: pieces := by
  induction text generalizing opened with
  | nil => simpa using split
  | cons first text hypothesis =>
    obtain ⟨noEnd, -, noMark⟩ := bare first List.mem_cons_self
    have later := @hypothesis (opened + parenChange first)
      (fun character member => bare character (List.mem_cons_of_mem _ member))
      (fun isNested member => noOpening isNested (List.mem_cons_of_mem _ member))
      (by rwa [parens_cons, ← Int.add_assoc] at split)
    have counted :
        (if first = '(' then opened + 1 else if first = ')' then opened - 1 else opened) =
          opened + parenChange first := by
      rw [parenChange]
      split
      · rfl
      · split <;> omega
    have covered : ¬ Literal.covers none first = true := by simp [Literal.covers, noMark]
    have uncut : ¬ (opened ≤ 0 ∧ (first = ';' ∨ first = '{' ∧ nested = true)) := by
      rintro ⟨-, ends | ⟨opens, isNested⟩⟩
      · exact noEnd ends
      · exact noOpening isNested (opens ▸ List.mem_cons_self)
    rw [List.cons_append, piecesFrom, if_neg covered, if_neg uncut]
    dsimp only
    rw [counted, later]
    rfl

/-- A plain text belongs to the piece in front of which it stands. -/
theorem piecesFrom_append
    {nested : Bool}
    {text rest piece : Text}
    {pieces : List Text}
    (plain : Plain text)
    (split : piecesFrom nested none 0 rest = piece :: pieces) :
    piecesFrom nested none 0 (text ++ rest) = (text ++ piece) :: pieces := by
  refine piecesFrom_bare_append plain.bare (fun _ => plain.not_mem (by decide)) ?_
  rwa [plain.parenless.parens_eq_zero, Int.add_zero]

/-- The end of a line is a piece of its own behind a semicolon. -/
theorem pieces_newline : piecesFrom (beginsType ['\n']) none 0 ['\n'] = [['\n']] := by
  decide

/-- Outside parentheses a semicolon ends the piece, and the rest is read as a line of its own. -/
theorem piecesFrom_semicolon
    (nested : Bool)
    (rest : Text) :
    piecesFrom nested none 0 (';' :: rest) = [';'] :: pieces rest := by
  have uncovered : Literal.covers none ';' = false := by decide
  rw [piecesFrom, uncovered, if_neg Bool.false_ne_true, if_pos ⟨Int.le_refl 0, .inl rfl⟩]
  rfl

theorem pieces_statement
    {text : Text}
    (plain : Plain text) :
    pieces (text ++ [';', '\n']) = [text ++ [';'], ['\n']] := by
  have cut := piecesFrom_semicolon (beginsType (text ++ [';', '\n'])) ['\n']
  rw [pieces, pieces_newline] at cut
  exact piecesFrom_append plain cut

/-- A bare line is a single piece, unless it begins with the head of a class. -/
theorem pieces_of_bare
    {text : Text}
    (noType : beginsType (text ++ ['\n']) = false)
    (bare : Bare text) :
    pieces (text ++ ['\n']) = [text ++ ['\n']] := by
  have whole (opened : Int) : piecesFrom false none opened ['\n'] = [['\n']] := by
    simp [piecesFrom, Literal.covers, Literal.isMark, Text.consToFirst]
  rw [pieces, noType]
  exact piecesFrom_bare_append bare (by simp) (whole _)

end Statement

/-! ## Depth -/

/-- Outside literals, the brackets of a text without quotation marks are counted. -/
theorem Depth.after_unquoted
    {text : Text}
    (depth : Depth)
    (unquoted : ∀ character ∈ text, Literal.isMark character = false)
    (noMark : depth.mark = none) :
    depth.after text =
      { braces := depth.braces + Block.braces text
        parens := depth.parens + Statement.parens text } := by
  induction text generalizing depth with
  | nil =>
    obtain ⟨braces, parens, mark⟩ := depth
    obtain rfl : mark = none := noMark
    simp
  | cons first text hypothesis =>
    have noQuote := unquoted first List.mem_cons_self
    have one : depth.step first =
        { braces := depth.braces + Block.braceChange first
          parens := depth.parens + Statement.parenChange first } := by
      obtain ⟨braces, parens, mark⟩ := depth
      obtain rfl : mark = none := noMark
      simp only [step, ite_self, Literal.covers, Literal.after, noQuote, Option.isSome_none,
        Bool.or_self, Bool.false_eq_true, if_false, Block.braceChange, Statement.parenChange]
      by_cases isOpening : first = '{'
      · subst isOpening
        simp
      · by_cases isClosing : first = '}'
        · subst isClosing
          simp [Int.sub_eq_add_neg]
        · by_cases opens : first = '('
          · subst opens
            simp
          · by_cases closes : first = ')' <;>
              simp [isOpening, isClosing, opens, closes, Int.sub_eq_add_neg]
    have later := hypothesis (depth.step first)
      (fun character member => unquoted character (List.mem_cons_of_mem _ member)) (by rw [one])
    rw [Depth.after_cons, later, one]
    simp [Int.add_assoc]

/-- A plain text does not change the depth. -/
theorem Depth.after_plain
    {text : Text}
    (depth : Depth)
    (plain : Statement.Plain text)
    (noMark : depth.mark = none) :
    depth.after text = depth := by
  obtain ⟨braces, parens, mark⟩ := depth
  obtain rfl : mark = none := noMark
  rw [after_unquoted _ (fun character member => (plain.bare character member).2.2) rfl,
    plain.braceless.braces_eq_zero, plain.parenless.parens_eq_zero, Int.add_zero, Int.add_zero]

/-! ## Statements that declare data -/

/-- A text that makes a data declaration with a semicolon behind it. -/
structure Statement.IsData (text : Text) : Prop where
  /-- The text holds no punctuation that cuts statements. -/
  plain : Statement.Plain text
  /-- The text begins with a character that is not blank. -/
  begins : ∃ first ∈ text.head?, Text.isBlank first = false
  /-- None of the keywords that introduce something else stands in the text. -/
  lacks : ∀ keyword ∈ Shape.otherKeywords, text.Lacks keyword

namespace Statement.IsData

variable {text : Text}

theorem solid (isData : IsData text) : Text.Solid (text ++ [';']) :=
  Text.solid_append_singleton isData.begins (by decide)

theorem ofStatement?_eq (isData : IsData text) :
    Shape.ofStatement? (text ++ [';']) = some .plain := by
  have noParenthesis : ∀ character ∈ text ++ [';'], character ≠ '(' := by
    intro character member
    rcases List.mem_append.mp member with inText | isEnd
    · exact fun equal => isData.plain.not_mem (by decide) (equal ▸ inText)
    · obtain rfl := List.mem_singleton.mp isEnd
      decide
  have noPunctuation : Shape.punctuation.contains (text ++ [';']) = false := by
    have startsWithCut : ∀ sign ∈ Shape.punctuation, ∀ first ∈ sign.head?, cuts first = true := by
      decide
    rw [← Bool.not_eq_true, List.contains_iff_mem]
    intro isPunctuation
    obtain ⟨first, isFirst, -⟩ := isData.begins
    have isCut := startsWithCut _ isPunctuation first (by
      rw [List.head?_append, Option.mem_def.mp isFirst]
      rfl)
    exact isData.plain.not_mem isCut (List.mem_of_mem_head? isFirst)
  have foreign : ∀ keyword ∈ Shape.otherKeywords, ';' ∉ keyword ∧ keyword ≠ [] := by decide
  have noKeyword : (Shape.otherKeywords.any fun keyword =>
      (Reserved.first? keyword (text ++ [';'])).isSome) = false := by
    rw [List.any_eq_false]
    intro keyword isKeyword
    obtain ⟨noEnd, notEmpty⟩ := foreign keyword isKeyword
    have lacks : Text.Lacks (text ++ [';']) keyword :=
      (Text.lacks_append_cons _ _ noEnd).mpr ⟨isData.lacks keyword isKeyword, Text.lacks_nil notEmpty⟩
    simp [Reserved.first?_eq_none lacks]
  have noArguments : (text ++ [';']).dropWhile (· ≠ '(') = [] := by
    have whole : ((text ++ [';']) ++ []).dropWhile (· ≠ '(') = [].dropWhile (· ≠ '(') :=
      List.dropWhile_append_of_pos fun character member =>
        decide_eq_true (noParenthesis character member)
    rwa [List.append_nil] at whole
  rw [Shape.ofStatement?, noPunctuation, noKeyword, Shape.ofText, noArguments]
  rfl

end Statement.IsData

/-! ## Members -/

namespace Body

/-- The body made of what declarations give. -/
def ofDeclarations (found : List (Except Failure (List DataMember))) : Body :=
  found.foldr cons {}

/-- The depth directly in the body of a class. -/
def depthInBody : Depth :=
  { braces := 1 }

theorem found?_statement
    {text : Text}
    (isData : Statement.IsData text) :
    found? depthInBody (text ++ [';']) = some (Declaration.members (text ++ [';'])) := by
  have noIndentation : Text.indentation (text ++ [';']) = [] := by
    obtain ⟨first, isFirst, notBlank⟩ := isData.begins
    cases text with
    | nil => contradiction
    | cons head rest =>
      obtain rfl := Option.some.inj isFirst
      simp [Text.indentation, notBlank]
  rw [found?, Text.trim_of_solid isData.solid, isData.ofStatement?_eq, noIndentation]
  rfl

theorem found?_newline (depth : Depth) : found? depth ['\n'] = none := by
  have noShape : (Shape.ofStatement? (Text.trim ['\n'])).filter Shape.isData = none := by decide
  rw [found?, noShape]

/-- The first line of a text is read piece by piece. -/
theorem ofRest_append_cons
    {line : Text}
    (depth : Depth)
    (noBreak : '\n' ∉ line)
    (rest : Text) :
    ofRest depth (line ++ '\n' :: rest) =
      ofPieces depth
        (Statement.pieces (line ++ ['\n']) ++ rest.lines.flatMap Statement.pieces) := by
  rw [ofRest, Text.lines_append_cons noBreak, List.flatMap_cons]

section ClassHead

variable {word head : Text}

theorem plain_front
    (isWord : word ∈ Block.declarationWords)
    (headPlain : Statement.Plain head) :
    Statement.Plain (word ++ head) := by
  have wordsPlain : ∀ word ∈ Block.declarationWords, Statement.Plain word := by decide
  exact (wordsPlain _ isWord).append headPlain

/-- No declaring word begins with a blank. -/
theorem trimStart_head
    (isWord : word ∈ Block.declarationWords)
    (rest : Text) :
    Text.trimStart (word ++ rest) = word ++ rest := by
  have notBlank : ∀ word ∈ Block.declarationWords, ∀ first ∈ word.head?,
      Text.isBlank first = false := by
    decide
  refine @Text.trimStart_append [] _ (by simp) fun first isFirst => ?_
  obtain ⟨letter, letters, wordShape⟩ :=
    List.exists_cons_of_ne_nil (Block.declarationWord_ne_nil _ isWord)
  refine notBlank _ isWord first ?_
  rw [wordShape] at isFirst ⊢
  exact isFirst

/-- The head of a class is no statement that declares data. -/
theorem found?_head
    (isWord : word ∈ Block.declarationWords)
    (delimited : head.head?.any Reserved.isDelimiter = true)
    (depth : Depth) :
    found? depth (word ++ head ++ ['{']) = none := by
  have areKeywords : ∀ word ∈ Block.declarationWords, word ∈ Shape.otherKeywords := by decide
  have notEmpty := Block.declarationWord_ne_nil _ isWord
  have trimmed : Text.trim (word ++ head ++ ['{']) = word ++ head ++ ['{'] := by
    rw [Text.trim, List.append_assoc, trimStart_head isWord, ← List.append_assoc]
    have ended : Text.trimEnd (word ++ head ++ ['{'] ++ []) = word ++ head ++ ['{'] :=
      Text.trimEnd_append (by simpa using (by decide)) (by simp)
    rwa [List.append_nil] at ended
  have standsAlone : (Reserved.first? word (word ++ head ++ ['{'])).isSome = true := by
    rw [List.append_assoc,
      Reserved.first?_append notEmpty (Reserved.all_isDelimiter_append delimited _)]
    rfl
  have noShape : Shape.ofStatement? (word ++ head ++ ['{']) = none := by
    rw [Shape.ofStatement?, if_pos]
    rw [Bool.or_eq_true, List.any_eq_true]
    exact .inr ⟨word, areKeywords _ isWord, standsAlone⟩
  rw [found?, trimmed, noShape]
  rfl

/-- The head of a class is a piece, and the rest is read as a line of its own. -/
theorem pieces_head
    (isWord : word ∈ Block.declarationWords)
    (delimited : head.head?.any Reserved.isDelimiter = true)
    (headPlain : Statement.Plain head)
    (rest : Text) :
    Statement.pieces (word ++ head ++ '{' :: rest) =
      (word ++ head ++ ['{']) :: Statement.pieces rest := by
  have beginsType : Statement.beginsType (word ++ head ++ '{' :: rest) = true := by
    rw [Statement.beginsType, List.any_eq_true]
    refine ⟨word, isWord, ?_⟩
    rw [List.append_assoc, trimStart_head isWord]
    exact Reserved.begins_append (Reserved.all_isDelimiter_append delimited _)
  have cut : Statement.piecesFrom true none 0 ('{' :: rest) = ['{'] :: Statement.pieces rest := by
    have uncovered : Literal.covers none '{' = false := by decide
    rw [Statement.piecesFrom, uncovered, if_neg Bool.false_ne_true,
      if_pos ⟨Int.le_refl 0, .inr ⟨rfl, rfl⟩⟩]
    rfl
  rw [Statement.pieces, beginsType]
  exact Statement.piecesFrom_append (plain_front isWord headPlain) cut

/-- Behind the head of a class, the text is read in the body of the class. -/
theorem ofText_head
    (isWord : word ∈ Block.declarationWords)
    (delimited : head.head?.any Reserved.isDelimiter = true)
    (headPlain : Statement.Plain head)
    (rest : Text) :
    ofText (word ++ head ++ '{' :: rest) = ofRest depthInBody rest := by
  have frontPlain := plain_front isWord headPlain
  have noBreak : '\n' ∉ word ++ head := frontPlain.not_mem (by decide)
  have depthBehind : ({} : Depth).after (word ++ head ++ ['{']) = depthInBody := by
    rw [Depth.after_append, Depth.after_plain _ frontPlain rfl]
    decide
  have passed (line : Text) (later : List Text) :
      ofPieces {} (Statement.pieces (word ++ head ++ '{' :: line) ++ later) =
        ofPieces depthInBody (Statement.pieces line ++ later) := by
    rw [pieces_head isWord delimited headPlain, List.cons_append, ofPieces,
      found?_head isWord delimited, depthBehind]
  rw [ofText_eq_ofRest, ofRest, ofRest]
  cases split : rest.lines with
  | nil =>
    obtain rfl : rest = [] := by
      rw [← Text.flatten_lines rest, split]
      rfl
    have opened : Text.lines ['{'] = [['{']] := rfl
    rw [Text.lines_append_of_lines noBreak opened, List.flatMap_cons, passed]
    decide
  | cons line later =>
    have opened : Text.lines ('{' :: rest) = ('{' :: line) :: later := by
      rw [Text.lines, if_neg (by decide), split]
      rfl
    rw [Text.lines_append_of_lines noBreak opened, List.flatMap_cons, passed]
    rfl

/-- The end of a line is passed. -/
theorem ofRest_newline (rest : Text) :
    ofRest depthInBody ('\n' :: rest) = ofRest depthInBody rest := by
  have split : Statement.pieces ([] ++ ['\n']) = [['\n']] := Statement.pieces_newline
  rw [← List.nil_append ('\n' :: rest), ofRest_append_cons _ List.not_mem_nil, split,
    List.singleton_append, ofPieces, found?_newline]
  rfl

/-- Behind the line with the head of a class, the text is read in the body of the class. -/
theorem ofText_head_append
    (isWord : word ∈ Block.declarationWords)
    (delimited : head.head?.any Reserved.isDelimiter = true)
    (headPlain : Statement.Plain head)
    (rest : Text) :
    ofText (word ++ head ++ '{' :: '\n' :: rest) = ofRest depthInBody rest := by
  rw [ofText_head isWord delimited headPlain, ofRest_newline]

end ClassHead

/-- In the body of a class, each line gives what its statement declares. -/
theorem ofRest_statements
    {statements : List Text}
    (areData : ∀ text ∈ statements, Statement.IsData text)
    (rest : Text) :
    ofRest depthInBody (statements.flatMap (· ++ [';', '\n']) ++ rest) =
      (statements.map fun text => Declaration.members (text ++ [';'])).foldr cons
        (ofRest depthInBody rest) := by
  induction statements with
  | nil => rfl
  | cons text statements hypothesis =>
    have isData := areData text List.mem_cons_self
    have later := hypothesis fun other member => areData other (List.mem_cons_of_mem _ member)
    have sameDepth : (depthInBody.after (text ++ [';'])).after ['\n'] = depthInBody := by
      rw [Depth.after_append, Depth.after_plain _ isData.plain rfl]
      decide
    have noBreak : '\n' ∉ text ++ [';'] := by
      simpa using isData.plain.not_mem (by decide)
    have shape : (text :: statements).flatMap (· ++ [';', '\n']) ++ rest =
        (text ++ [';']) ++ '\n' :: (statements.flatMap (· ++ [';', '\n']) ++ rest) := by
      simp
    rw [ofRest] at later
    rw [shape, ofRest_append_cons _ noBreak, List.append_assoc, List.singleton_append,
      Statement.pieces_statement isData.plain]
    simp only [List.cons_append, List.nil_append, ofPieces, found?_statement isData,
      found?_newline, sameDepth, later, List.map_cons, List.foldr_cons]

/-- The members of a declaration whose body begins with statements on lines of their own. -/
theorem ofText_block
    {statements : List Text}
    {rest : Text}
    (declared : Block.Declared)
    (headPlain : Statement.Plain declared.head)
    (bodyShape : declared.body = '\n' :: (statements.flatMap (· ++ [';', '\n']) ++ rest))
    (areData : ∀ text ∈ statements, Statement.IsData text) :
    ofText declared.block =
      (statements.map fun text => Declaration.members (text ++ [';'])).foldr cons
        (ofRest depthInBody (rest ++ ['}'])) := by
  have shape : declared.block =
      declared.word ++ declared.head ++
        '{' :: '\n' :: (statements.flatMap (· ++ [';', '\n']) ++ (rest ++ ['}'])) := by
    simp [Block.Declared.block, bodyShape]
  rw [shape, ofText_head_append declared.isWord declared.delimited headPlain,
    ofRest_statements areData]

end Body

end ClassOutline
