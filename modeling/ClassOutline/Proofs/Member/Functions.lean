import ClassOutline.Proofs.Member.Outside
import ClassOutline.Proofs.Member.Shapes
/-!
# Functions in bodies

Lines of the body of a class are silent if the members found behind them are those of the class, as
though the lines were not there.  The lines of a function are silent: the piece with its signature
has the shape of a function, or none at all, and its statements lie deeper than the members.
-/

namespace ClassOutline

/-! ## Signatures -/

/--
A text and what follows it behind an opening parenthesis begin a function: neither declares a type,
a callable object or an initial value, nor a pointer or reference to a function.
-/
structure IsSignature (front behind : Text) : Prop where
  noParenthesis : '(' ∉ front
  noType : ∀ word ∈ Block.declarationWords, front.Lacks word
  notCallable : front.Lacks "function<".toList
  notInitialized : '=' ∉ front ∨ "operator".toList <:+: front
  notPointer : ∃ first ∈ behind.head?,
    Reserved.isDelimiter first = false ∧ Text.isBlank first = false ∧ first ∉ ['&', '*']

namespace IsSignature

variable {front behind : Text}

/-- What stands behind the first parameter does not matter. -/
theorem append
    (isSignature : IsSignature front behind)
    (rest : Text) :
    IsSignature front (behind ++ rest) :=
  { isSignature with
    notPointer := Text.exists_head?_append isSignature.notPointer rest }

/-- A signature has the shape of a function. -/
theorem ofText_eq
    (isSignature : IsSignature front behind) :
    Shape.ofText (front ++ '(' :: behind) = .function := by
  rw [Shape.ofText_append_cons_eq_function_iff isSignature.noParenthesis]
  refine ⟨?_, isSignature.notCallable, ?_⟩
  · obtain ⟨first, isFirst, notDelimiter, -, notPointer⟩ := isSignature.notPointer
    obtain ⟨rest, rfl⟩ := List.head?_eq_some_iff.mp (Option.mem_def.mp isFirst)
    rw [List.dropWhile_cons_of_neg (by simp [notDelimiter])]
    simpa using notPointer
  · exact isSignature.notInitialized.imp_right fun isOperator =>
      isOperator.trans List.infix_append_left

end IsSignature

/-- The text begins with the signature of a function. -/
def BeginsFunction (text : Text) : Prop :=
  ∃ front behind, text = front ++ '(' :: behind ∧ IsSignature front behind

namespace BeginsFunction

variable {text : Text}

theorem append
    (begins : BeginsFunction text)
    (rest : Text) :
    BeginsFunction (text ++ rest) := by
  obtain ⟨front, behind, rfl, isSignature⟩ := begins
  exact ⟨front, behind ++ rest, by simp, isSignature.append rest⟩

/-- A piece with a signature declares no data. -/
theorem found?_eq_none
    (begins : BeginsFunction text)
    (depth : Depth) :
    Body.found? depth text = none := by
  obtain ⟨front, behind, rfl, isSignature⟩ := begins
  exact Body.found?_of_function isSignature.noParenthesis isSignature.ofText_eq depth

/-- A line with a signature does not begin with the head of a class. -/
theorem beginsType_eq_false
    (begins : BeginsFunction text) :
    Statement.beginsType text = false := by
  obtain ⟨front, behind, rfl, isSignature⟩ := begins
  rw [Statement.beginsType, List.any_eq_false]
  intro word isWord
  have opening : Text.isBlank '(' = false := by decide
  have foreign : '(' ∉ word := Block.not_mem_of_isDelimiter isWord (by decide)
  have lacks : Text.Lacks front.trimStart word :=
    (isSignature.noType word isWord).of_isInfix (List.dropWhile_suffix _).isInfix
  rw [Reserved.begins, Text.trimStart_append_cons _ _ opening,
    Text.isPrefixOf_append_cons _ _ foreign, lacks.isPrefixOf_eq_false]
  simp

/-- The line of a function is cut behind its first semicolon. -/
theorem pieces_append_cons
    (begins : BeginsFunction text)
    (bare : Statement.Bare text)
    (closed : Statement.parens text = 0)
    (rest : Text) :
    Statement.pieces (text ++ ';' :: rest) = (text ++ [';']) :: Statement.pieces rest := by
  have cut := Statement.piecesFrom_semicolon false rest
  rw [Statement.pieces, (begins.append _).beginsType_eq_false]
  exact Statement.piecesFrom_bare_append bare (by simp) (by rw [closed]; exact cut)

/-- The line of a function without a semicolon is not cut. -/
theorem pieces_newline
    (begins : BeginsFunction text)
    (bare : Statement.Bare text) :
    Statement.pieces (text ++ ['\n']) = [text ++ ['\n']] :=
  Statement.pieces_of_bare (begins.append _).beginsType_eq_false bare

end BeginsFunction

/-! ## Silent lines -/

namespace Body

/-- Behind the text the members are found as though it were not there. -/
def Silent (text : Text) : Prop :=
  ∀ rest, ofRest depthInBody (text ++ rest) = ofRest depthInBody rest

theorem silent_nil : Silent [] :=
  fun _ => rfl

theorem Silent.append
    {left right : Text}
    (silentLeft : Silent left)
    (silentRight : Silent right) :
    Silent (left ++ right) :=
  fun rest => by rw [List.append_assoc, silentLeft, silentRight]

theorem silent_flatMap
    {Item : Type}
    {items : List Item}
    {render : Item → Text}
    (silent : ∀ item ∈ items, Silent (render item)) :
    Silent (items.flatMap render) := by
  induction items with
  | nil => exact silent_nil
  | cons item items hypothesis =>
    exact (silent item List.mem_cons_self).append
      (hypothesis fun other member => silent other (List.mem_cons_of_mem _ member))

/-- A piece that declares no data is passed. -/
theorem ofPieces_cons_of_none
    {depth : Depth}
    {piece : Text}
    (noData : found? depth piece = none)
    (pieces : List Text) :
    ofPieces depth (piece :: pieces) = ofPieces (depth.after piece) pieces := by
  rw [ofPieces, noData]

/-- Whether a piece has the shape of data does not depend on its depth. -/
theorem found?_eq_none_of_trim
    {piece : Text}
    (depth : Depth)
    (noShape : Shape.ofStatement? piece.trim = none) :
    found? depth piece = none := by
  rw [found?, noShape]
  rfl

/-- A line is silent if it is a single piece that declares no data and keeps the depth. -/
theorem silent_of_piece
    {line : Text}
    (noBreak : '\n' ∉ line)
    (whole : Statement.pieces (line ++ ['\n']) = [line ++ ['\n']])
    (noData : found? depthInBody (line ++ ['\n']) = none)
    (sameDepth : depthInBody.after (line ++ ['\n']) = depthInBody) :
    Silent (line ++ ['\n']) := by
  intro rest
  rw [List.append_assoc, List.singleton_append, ofRest_append_cons _ noBreak, whole,
    List.singleton_append, ofPieces_cons_of_none noData, sameDepth]
  rfl

theorem silent_newline : Silent ['\n'] :=
  ofRest_newline

/-- The line that opens a public section is silent. -/
theorem silent_public : Silent " public:\n".toList :=
  @silent_of_piece " public:".toList (by decide) (by decide) (by decide) (by decide)

/-- The text that may follow the last statement of a function on its line. -/
def lineEndings : List Text :=
  [[], [' ', '}']]

/--
A function on one line is silent: its text up to the first semicolon closes its parentheses, and the
line closes its braces.
-/
theorem silent_line
    {text ending : Text}
    (begins : BeginsFunction text)
    (bare : Statement.Bare text)
    (closed : Statement.parens text = 0)
    (isEnding : ending ∈ lineEndings)
    (nested : Block.braces text + Block.braces ending = 0) :
    Silent (text ++ ';' :: (ending ++ ['\n'])) := by
  intro rest
  have endings : ∀ ending ∈ lineEndings, Statement.Bare ending ∧ Statement.parens ending = 0 ∧
      Shape.ofStatement? (Text.trim (ending ++ ['\n'])) = none ∧
        Statement.pieces (ending ++ ['\n']) = [ending ++ ['\n']] := by decide
  obtain ⟨bareEnding, closedEnding, noShape, piecesEnding⟩ := endings _ isEnding
  have noBreak : '\n' ∉ text ++ ';' :: ending := by
    simpa using ⟨bare.newline_not_mem, bareEnding.newline_not_mem⟩
  have unquoted : ∀ character ∈ text ++ [';'] ++ (ending ++ ['\n']),
      Literal.isMark character = false := by
    have marks : ∀ mark ∈ [';', '\n'], Literal.isMark mark = false := by decide
    intro character member
    simp only [List.mem_append, List.mem_singleton] at member
    rcases member with (inText | isEnd) | inEnding | isBreak
    · exact (bare character inText).2.2
    · exact marks character (by simp [isEnd])
    · exact (bareEnding character inEnding).2.2
    · exact marks character (by simp [isBreak])
  have depthBehind : (depthInBody.after (text ++ [';'])).after (ending ++ ['\n']) =
      depthInBody := by
    rw [← Depth.after_append, Depth.after_unquoted _ unquoted rfl]
    simp [depthInBody, Block.braceChange, Statement.parenChange, closed, closedEnding, nested]
  have shape : text ++ ';' :: (ending ++ ['\n']) ++ rest =
      (text ++ ';' :: ending) ++ '\n' :: rest := by
    simp
  have line : (text ++ ';' :: ending) ++ ['\n'] = text ++ ';' :: (ending ++ ['\n']) := by
    simp
  rw [shape, ofRest_append_cons _ noBreak, line, begins.pieces_append_cons bare closed,
    piecesEnding, List.cons_append, List.singleton_append,
    ofPieces_cons_of_none ((begins.append _).found?_eq_none _),
    ofPieces_cons_of_none (found?_eq_none_of_trim _ noShape), depthBehind]
  rfl

/-! ## Functions with statements on lines of their own -/

/-- The depth in the body of a function. -/
def depthInFunction : Depth :=
  { braces := 2 }

/-- A line in the body of a function: it holds no braces and leaves its parentheses closed. -/
structure IsFunctionLine (line : Text) : Prop where
  noBreak : '\n' ∉ line
  braceless : Block.Braceless line
  closed : (depthInFunction.after line).parens = 0

/-- A text without braces lies as deep in braces as the place in front of it. -/
theorem braces_after
    {text : Text}
    (depth : Depth)
    (braceless : Block.Braceless text) :
    (depth.after text).braces = depth.braces := by
  have outside : Block.Braceless (Literal.outsideFrom depth.mark text) := fun character member =>
    braceless character ((Literal.outsideFrom_sublist _ _).subset member)
  rw [(depth.after_eq text).1, outside.braces_eq_zero, Int.add_zero]

/-- The lines in the body of a function declare no data. -/
theorem ofRest_functionLines
    {lines : List Text}
    (areLines : ∀ line ∈ lines, IsFunctionLine line)
    (rest : Text) :
    ofRest depthInFunction (lines.flatMap (· ++ ['\n']) ++ rest) =
      ofRest depthInFunction rest := by
  induction lines with
  | nil => rfl
  | cons line lines hypothesis =>
    have isLine := areLines line List.mem_cons_self
    have later := hypothesis fun other member => areLines other (List.mem_cons_of_mem _ member)
    have shape : (line :: lines).flatMap (· ++ ['\n']) ++ rest =
        line ++ '\n' :: (lines.flatMap (· ++ ['\n']) ++ rest) := by
      simp
    have braceless : Block.Braceless (line ++ ['\n']) :=
      isLine.braceless.append (by decide)
    have deep : ofPieces depthInFunction (Statement.pieces (line ++ ['\n'])) = {} := by
      refine ofPieces_of_deep fun front isPrefix => ?_
      rw [Statement.flatten_pieces] at isPrefix
      have bracelessFront : Block.Braceless front := fun character member =>
        braceless character (isPrefix.subset member)
      rw [braces_after _ bracelessFront]
      decide
    have sameDepth : depthInFunction.after (line ++ ['\n']) = depthInFunction := by
      have braces := braces_after depthInFunction isLine.braceless
      have parens := isLine.closed
      rw [Depth.after_append]
      generalize depthInFunction.after line = reached at braces parens ⊢
      obtain ⟨_, _, _⟩ := reached
      obtain rfl := braces
      obtain rfl := parens
      rfl
    rw [shape, ofRest_append_cons _ isLine.noBreak, ofPieces_append, deep, nil_append,
      Statement.flatten_pieces, sameDepth]
    exact later

/-- A level of indentation. -/
def IsIndent (indent : Text) : Prop :=
  ∀ character ∈ indent, character = ' ' ∨ character = '\t'

instance (indent : Text) : Decidable (IsIndent indent) :=
  inferInstanceAs (Decidable (∀ character ∈ indent, _))

theorem IsIndent.plain
    {indent : Text}
    (isIndent : IsIndent indent) :
    Statement.Plain indent := by
  intro character member
  rcases isIndent character member with rfl | rfl <;> decide

theorem IsIndent.isBlank
    {indent : Text}
    (isIndent : IsIndent indent) :
    ∀ character ∈ indent, Text.isBlank character = true := by
  intro character member
  rcases isIndent character member with rfl | rfl <;> decide

/-- What a piece declares in the body of a class does not depend on its indentation. -/
theorem found?_indent
    {indent text : Text}
    (isIndent : IsIndent indent)
    (begins : ∃ first ∈ text.head?, Text.isBlank first = false) :
    found? depthInBody (indent ++ text) = found? depthInBody text := by
  have trimmed : Text.trim (indent ++ text) = Text.trim text := by
    rw [Text.trim, Text.trimStart_blank_append isIndent.isBlank, ← Text.trim]
  have indentation : Text.indentation (indent ++ text) = indent ∧ Text.indentation text = [] := by
    obtain ⟨first, isFirst, notBlank⟩ := begins
    obtain ⟨letters, rfl⟩ := List.head?_eq_some_iff.mp (Option.mem_def.mp isFirst)
    rw [Text.indentation, Text.indentation, List.takeWhile_append_of_pos isIndent.isBlank]
    simp [notBlank]
  rw [found?, found?, trimmed, indentation.1, indentation.2, Depth.after_plain _ isIndent.plain rfl]
  rfl

/-- How the line that closes a scope may end. -/
def closings : List Text :=
  [['}'], ['}', ';']]

/-- The line that closes the body of a function leads back into the body of the class. -/
theorem ofRest_closing
    {indent closing : Text}
    (isIndent : IsIndent indent)
    (isClosing : closing ∈ closings)
    (rest : Text) :
    ofRest depthInFunction (indent ++ closing ++ '\n' :: rest) = ofRest depthInBody rest := by
  -- The indentation belongs to the first piece; behind it there may be an empty end of the line.
  have split : ∃ first later, Statement.piecesFrom false none 0 (closing ++ ['\n']) =
      first :: later ∧ Shape.ofStatement? (Text.trim first) = none ∧
        ∀ piece ∈ later, piece = ['\n'] := by
    simp only [closings, List.mem_cons, List.not_mem_nil, or_false] at isClosing
    rcases isClosing with rfl | rfl
    · exact ⟨['}', '\n'], [], by decide⟩
    · exact ⟨['}', ';'], [['\n']], by decide⟩
  obtain ⟨first, later, split, noShape, newlines⟩ := split
  have facts : ∀ closing ∈ closings, '\n' ∉ closing ∧ Block.braces closing = -1 ∧
      Statement.parens closing = 0 ∧ (∀ character ∈ closing, Literal.isMark character = false) ∧
        Statement.beginsType (closing ++ ['\n']) = false := by
    decide
  obtain ⟨noBreak, closes, parenless, noMark, noType⟩ := facts _ isClosing
  have pieces : Statement.pieces (indent ++ closing ++ ['\n']) = (indent ++ first) :: later := by
    rw [Statement.beginsType] at noType
    rw [List.append_assoc, Statement.pieces, Statement.beginsType,
      Text.trimStart_blank_append isIndent.isBlank, noType]
    exact Statement.piecesFrom_append isIndent.plain split
  have noShapeFirst : Shape.ofStatement? (Text.trim (indent ++ first)) = none := by
    rwa [Text.trim, Text.trimStart_blank_append isIndent.isBlank]
  have nothing : ∀ piece ∈ (indent ++ first) :: later, DeclaresNothing piece := by
    intro piece member
    rcases List.mem_cons.mp member with rfl | isLater
    · exact declaresNothing_of_noShape noShapeFirst
    · rw [newlines piece isLater]
      exact declaresNothing_of_noShape (by decide)
  have unquoted : ∀ character ∈ indent ++ closing ++ ['\n'], Literal.isMark character = false := by
    intro character member
    simp only [List.mem_append, List.mem_singleton] at member
    rcases member with (inIndent | inClosing) | isBreak
    · exact (isIndent.plain.bare character inIndent).2.2
    · exact noMark character inClosing
    · subst isBreak
      decide
  have depthBehind : depthInFunction.after (indent ++ closing ++ ['\n']) = depthInBody := by
    rw [Depth.after_unquoted _ unquoted rfl]
    simp [depthInFunction, depthInBody, Block.braceChange, Statement.parenChange, closes,
      parenless, isIndent.plain.braceless.braces_eq_zero, isIndent.plain.parenless.parens_eq_zero]
  have noBreakLine : '\n' ∉ indent ++ closing := by
    simpa using ⟨isIndent.plain.bare.newline_not_mem, noBreak⟩
  rw [ofRest_append_cons _ noBreakLine, pieces, ofPieces_append,
    ofPieces_of_declaresNothing nothing, nil_append, ← pieces, Statement.flatten_pieces,
    depthBehind]
  rfl

/-- A function with its statements on lines of their own is silent. -/
theorem silent_lines
    {text indent : Text}
    {lines : List Text}
    (begins : BeginsFunction text)
    (bare : Statement.Bare text)
    (closed : Statement.parens text = 0)
    (opened : Block.braces text = 1)
    (areLines : ∀ line ∈ lines, IsFunctionLine line)
    (isIndent : IsIndent indent) :
    Silent (text ++ '\n' :: (lines.flatMap (· ++ ['\n']) ++ indent ++ ['}', '\n'])) := by
  intro rest
  have unquoted : ∀ character ∈ text ++ ['\n'], Literal.isMark character = false := by
    intro character member
    rcases List.mem_append.mp member with inText | isBreak
    · exact (bare character inText).2.2
    · obtain rfl := List.mem_singleton.mp isBreak
      decide
  have depthBehind : depthInBody.after (text ++ ['\n']) = depthInFunction := by
    rw [Depth.after_unquoted _ unquoted rfl]
    simp [depthInBody, depthInFunction, Block.braceChange, Statement.parenChange, closed, opened]
  have shape : text ++ '\n' :: (lines.flatMap (· ++ ['\n']) ++ indent ++ ['}', '\n']) ++ rest =
      text ++ '\n' :: (lines.flatMap (· ++ ['\n']) ++ (indent ++ ['}'] ++ '\n' :: rest)) := by
    simp
  have later := ofRest_functionLines areLines (indent ++ ['}'] ++ '\n' :: rest)
  rw [ofRest_closing isIndent (by decide), ofRest] at later
  rw [shape, ofRest_append_cons _ bare.newline_not_mem, begins.pieces_newline bare,
    List.singleton_append, ofPieces_cons_of_none ((begins.append _).found?_eq_none _),
    depthBehind, later]

end Body

end ClassOutline
