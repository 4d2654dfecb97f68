import Mathlib.Data.List.Chain
import Mathlib.Data.List.Flatten
import ClassOutline.Proofs.Member.Spoiled
import ClassOutline.Proofs.Written.Siblings
/-!
# Bodies on one line and on many

The declarations, methods and access labels of a class are written on lines of their own, or on one
line with spaces between them.  On lines of their own, each item is read by itself.  On one line a
label or a method spoils the piece that goes on behind it, up to the next semicolon.  The two
layouts have the same members exactly if no declaration directly behind a label or a method has any.
-/

namespace ClassOutline

/-! ## Items -/

namespace Written

open Body

/-- The words of access labels. -/
def accessWords : List Text :=
  ["public".toList, "protected".toList, "private".toList]

/-- A method without parameters, the statements of which stand on its line. -/
structure Method where
  /-- What stands in front of the parentheses: the type of the result and the name. -/
  front : Text
  statements : List Text
  begins : ∃ first ∈ front.head?, Text.isBlank first = false
  plain : Statement.Plain front
  noSign : '=' ∉ front
  notCallable : front.Lacks "function<".toList
  arePlain : ∀ statement ∈ statements, Statement.Plain statement

/-- A declaration, a method or an access label in the body of a class. -/
inductive Item where
  /-- A declaration without brackets and quotation marks, given without its semicolon. -/
  | declaration
      (text : Text)
      (plain : Statement.Plain text)
      (begins : ∃ first ∈ text.head?, Text.isBlank first = false)
  | method (method : Method)
  | label (word : Text) (isAccess : word ∈ accessWords)

namespace Item

/-- The text of an item, on one line. -/
def text : Item → Text
  | .declaration text _ _ => text ++ [';']
  | .method written =>
    written.front ++ ['(', ')', ' ', '{'] ++ onOneLine written.statements ++ [' ', '}']
  | .label word _ => word ++ [':']

/-- Whether the item is a declaration. -/
def isDeclaration : Item → Bool
  | .declaration _ _ _ => true
  | .method _ => false
  | .label _ _ => false

/-- What an item declares on a line of its own. -/
def body : Item → Body
  | .declaration text _ _ => ofPieces depthInBody [text ++ [';']]
  | .method _ => {}
  | .label _ _ => {}

end Item

/-! ## Items at the beginning of a piece -/

section

variable {indent : Text} (isIndent : IsIndent indent)

include isIndent

/-- A declaration at the beginning of a piece is read, wherever the piece begins. -/
theorem ofPieces_declaration
    {text : Text}
    (plain : Statement.Plain text)
    (begins : ∃ first ∈ text.head?, Text.isBlank first = false)
    (rest : Text)
    (later : List Text) :
    ofPieces depthInBody (Statement.pieces (indent ++ (text ++ ';' :: rest)) ++ later) =
      ofPieces depthInBody [text ++ [';']] ++
        ofPieces depthInBody (Statement.pieces rest ++ later) := by
  have plainBoth : Statement.Plain (indent ++ text) := isIndent.plain.append plain
  have split : Statement.pieces (indent ++ (text ++ ';' :: rest)) =
      [indent ++ (text ++ [';'])] ++ Statement.pieces rest := by
    rw [Statement.pieces, ← List.append_assoc,
      Statement.piecesFrom_append plainBoth (Statement.piecesFrom_semicolon _ _), List.append_assoc]
    rfl
  have sameMembers : found? depthInBody (indent ++ (text ++ [';'])) =
      found? depthInBody (text ++ [';']) :=
    found?_indent isIndent (Text.exists_head?_append begins [';'])
  have sameDepth : depthInBody.after (indent ++ (text ++ [';'])) = depthInBody := by
    rw [← List.append_assoc, Depth.after_append, Depth.after_plain _ plainBoth rfl]
    rfl
  have alone : ofPieces depthInBody [indent ++ (text ++ [';'])] =
      ofPieces depthInBody [text ++ [';']] := by
    rw [ofPieces, ofPieces, sameMembers]
    rfl
  rw [split, List.append_assoc, ofPieces_append, alone, List.flatten_singleton, sameDepth]

/-- A label spoils the piece that begins with it. -/
theorem spoiled_label
    {word : Text}
    (isAccess : word ∈ accessWords) :
    Spoiled depthInBody (indent ++ (word ++ [':'])) := by
  have facts : ∀ word ∈ accessWords, Statement.Plain (word ++ [':']) ∧ word ≠ [] ∧
      word ∈ Shape.otherKeywords ∧ ∀ first ∈ word.head?, Text.isBlank first = false := by decide
  obtain ⟨plain, notEmpty, isKeyword, notBlank⟩ := facts word isAccess
  have plainBoth := isIndent.plain.append plain
  refine ⟨plainBoth.bare, plainBoth.parenless.parens_eq_zero, Depth.after_plain _ plainBoth rfl, ?_⟩
  intro behind
  have colon : Text.isBlank ':' = false := by decide
  have trimmed : Text.trim (indent ++ (word ++ [':']) ++ behind) =
      word ++ ':' :: behind.trimEnd := by
    have noBlanks : Text.trimStart word = word := @Text.trimStart_append [] _ (by simp) notBlank
    rw [List.append_assoc, List.append_assoc, List.singleton_append, Text.trim,
      Text.trimStart_blank_append isIndent.isBlank, Text.trimStart_append_cons _ _ colon, noBlanks,
      Text.trimEnd_append_cons _ _ colon]
  refine found?_eq_none_of_trim _ ?_
  rw [trimmed, Shape.ofStatement?, if_pos]
  rw [Bool.or_eq_true, List.any_eq_true]
  refine .inr ⟨word, isKeyword, ?_⟩
  rw [Reserved.first?_append notEmpty rfl]
  rfl

/-- The head of a method spoils the piece that begins with it. -/
theorem spoiled_method (method : Method) :
    Spoiled depthInBody (indent ++ (method.front ++ ['(', ')', ' '])) := by
  have plainBoth := isIndent.plain.append method.plain
  have noParenthesis : '(' ∉ indent ++ method.front := plainBoth.not_mem (by decide)
  have bareEnd : Statement.Bare ['(', ')', ' '] := by decide
  have noSign : '=' ∉ indent ++ method.front := by
    intro member
    rcases List.mem_append.mp member with inIndent | inFront
    · exact absurd (isIndent '=' inIndent) (by decide)
    · exact method.noSign inFront
  have notCallable : Text.Lacks (indent ++ method.front) "function<".toList := by
    refine Text.lacks_append_of_foreign (fun character member => ?_) method.notCallable
    rcases isIndent character member with rfl | rfl <;> decide
  rw [← List.append_assoc]
  constructor
  · exact plainBoth.bare.append bareEnd
  · rw [Statement.parens_append, plainBoth.parenless.parens_eq_zero]
    rfl
  · rw [Depth.after_append, Depth.after_plain _ plainBoth rfl]
    rfl
  · intro behind
    have shape : indent ++ method.front ++ ['(', ')', ' '] ++ behind =
        indent ++ method.front ++ '(' :: (')' :: ' ' :: behind) := by
      simp
    have closing : Reserved.isDelimiter ')' = false := by decide
    rw [shape]
    refine found?_of_function noParenthesis ?_ _
    rw [Shape.ofText_append_cons_eq_function_iff noParenthesis,
      List.dropWhile_cons_of_neg (by simp [closing])]
    exact ⟨by simp, notCallable, .inl noSign⟩

end

/-! ## Items behind a spoiled text -/

/-- Behind the brace of a method, its statements declare nothing, and its closing brace spoils. -/
theorem exists_spoiled_of_brace
    {depth : Depth}
    {text : Text}
    (spoiled : Spoiled depth text)
    {statements : List Text}
    (arePlain : ∀ statement ∈ statements, Statement.Plain statement) :
    ∃ depthBehind textBehind, Spoiled depthBehind textBehind ∧ ∀ rest later,
      ofOpenPiece depth text ('{' :: (onOneLine statements ++ ' ' :: '}' :: rest)) later =
        ofOpenPiece depthBehind textBehind rest later := by
  cases statements with
  | nil =>
    have bare : Statement.Bare ['{', ' ', '}'] := by decide
    refine ⟨depth, text ++ ['{', ' ', '}'], spoiled.append bare rfl rfl, fun rest later => ?_⟩
    rw [ofOpenPiece, ofOpenPiece, List.append_assoc]
    rfl
  | cons statement statements =>
    refine ⟨depthInFunction, [' ', '}'], spoiled_closing, fun rest later => ?_⟩
    have plain := arePlain statement List.mem_cons_self
    have bareOpening : Statement.Bare ['{', ' '] := by decide
    have bare : Statement.Bare ('{' :: ' ' :: statement) := bareOpening.append plain.bare
    have closed : Statement.parens ('{' :: ' ' :: statement) = 0 := by
      rw [Statement.parens_cons, Statement.parens_cons, plain.parenless.parens_eq_zero]
      rfl
    have deeper : depthInBody.after ('{' :: ' ' :: statement ++ [';']) = depthInFunction := by
      have opened : depthInBody.after ['{', ' '] = depthInFunction := by decide
      have shape : '{' :: ' ' :: statement ++ [';'] = ['{', ' '] ++ (statement ++ [';']) := rfl
      rw [shape, Depth.after_append, opened, Depth.after_append, Depth.after_plain _ plain rfl]
      rfl
    have shape : '{' :: (onOneLine (statement :: statements) ++ ' ' :: '}' :: rest) =
        '{' :: ' ' :: statement ++ ';' :: (onOneLine statements ++ ' ' :: '}' :: rest) := by
      simp [onOneLine]
    rw [shape, spoiled.ofOpenPiece_semicolon bare closed, deeper]
    exact ofPieces_onOneLine (fun other member => arePlain other (List.mem_cons_of_mem _ member)) _ _

/-- Whatever is no declaration spoils the piece that begins with it. -/
theorem exists_spoiled_of_item
    {indent : Text}
    (isIndent : IsIndent indent)
    {item : Item}
    (noDeclaration : item.isDeclaration = false)
    (rest : Text)
    (later : List Text) :
    ∃ depth text, Spoiled depth text ∧
      ofPieces depthInBody (Statement.pieces (indent ++ (item.text ++ rest)) ++ later) =
        ofOpenPiece depth text rest later := by
  cases item with
  | declaration text plain begins => contradiction
  | label word isAccess =>
    refine ⟨_, _, spoiled_label isIndent isAccess, ?_⟩
    have noType : Statement.beginsType (indent ++ (word ++ [':']) ++ rest) = false := by
      have facts : ∀ word ∈ accessWords, (∀ first ∈ word.head?, Text.isBlank first = false) ∧
          ∀ keyword ∈ Block.declarationWords, ':' ∉ keyword ∧ keyword.isPrefixOf word = false := by
        decide
      obtain ⟨notBlank, noPrefix⟩ := facts word isAccess
      have colon : Text.isBlank ':' = false := by decide
      have noBlanks : Text.trimStart word = word := @Text.trimStart_append [] _ (by simp) notBlank
      rw [Statement.beginsType, List.any_eq_false, List.append_assoc, List.append_assoc,
        List.singleton_append, Text.trimStart_blank_append isIndent.isBlank,
        Text.trimStart_append_cons _ _ colon, noBlanks]
      intro keyword isKeyword
      obtain ⟨foreign, otherWord⟩ := noPrefix keyword isKeyword
      rw [Reserved.begins, Text.isPrefixOf_append_cons _ _ foreign, otherWord]
      simp
    rw [Item.text, ← List.append_assoc]
    exact ofPieces_pieces_append noType _ _
  | method method =>
    have spoiled := spoiled_method isIndent method
    have shape : indent ++ ((Item.method method).text ++ rest) =
        indent ++ (method.front ++ ['(', ')', ' ']) ++
          '{' :: (onOneLine method.statements ++ ' ' :: '}' :: rest) := by
      simp [Item.text]
    rw [shape]
    cases isType : Statement.beginsType (indent ++ (method.front ++ ['(', ')', ' ']) ++
        '{' :: (onOneLine method.statements ++ ' ' :: '}' :: rest)) with
    | false =>
      obtain ⟨depth, text, behind, reads⟩ := exists_spoiled_of_brace spoiled method.arePlain
      refine ⟨depth, text, behind, ?_⟩
      rw [ofPieces_pieces_append isType, reads]
    | true =>
      -- The piece ends at the brace, as if the method were a class.
      refine ⟨depthInFunction, [' ', '}'], spoiled_closing, ?_⟩
      have split : Statement.pieces (indent ++ (method.front ++ ['(', ')', ' ']) ++
          '{' :: (onOneLine method.statements ++ ' ' :: '}' :: rest)) =
            (indent ++ (method.front ++ ['(', ')', ' ']) ++ ['{']) ::
              Statement.pieces (onOneLine method.statements ++ ' ' :: '}' :: rest) := by
        have noBrace : '{' ∉ indent ++ (method.front ++ ['(', ')', ' ']) := by
          have plainBoth := isIndent.plain.append method.plain
          rw [← List.append_assoc]
          simpa using plainBoth.not_mem (by decide)
        rw [Statement.pieces, isType]
        refine Statement.piecesFrom_bare_append spoiled.bare (fun _ => noBrace) ?_
        rw [spoiled.closed]
        rfl
      have deeper : depthInBody.after (indent ++ (method.front ++ ['(', ')', ' ']) ++ ['{']) =
          depthInFunction := by
        rw [Depth.after_append, spoiled.leads]
        rfl
      rw [split, List.cons_append, ofPieces_cons_of_none (spoiled.nothing _), deeper]
      exact ofPieces_onOneLine method.arePlain _ _

/-- A declaration behind a spoiled text belongs to its piece, and ends it. -/
theorem ofOpenPiece_declaration
    {depth : Depth}
    {text : Text}
    (spoiled : Spoiled depth text)
    {declaration : Text}
    (plain : Statement.Plain declaration)
    (rest : Text)
    (later : List Text) :
    ofOpenPiece depth text (' ' :: (declaration ++ ';' :: rest)) later =
      ofPieces depthInBody (Statement.pieces rest ++ later) := by
  have space : Statement.Plain [' '] := by decide
  have plainBoth : Statement.Plain (' ' :: declaration) := space.append plain
  have sameDepth : depthInBody.after (' ' :: declaration ++ [';']) = depthInBody := by
    rw [Depth.after_append, Depth.after_plain _ plainBoth rfl]
    rfl
  rw [← List.cons_append,
    spoiled.ofOpenPiece_semicolon plainBoth.bare plainBoth.parenless.parens_eq_zero, sameDepth]

/-- Whatever else stands behind a spoiled text, the piece that goes on behind it is spoiled. -/
theorem exists_spoiled_of_spoiled
    {depth : Depth}
    {text : Text}
    (spoiled : Spoiled depth text)
    {item : Item}
    (noDeclaration : item.isDeclaration = false)
    (rest : Text)
    (later : List Text) :
    ∃ depthBehind textBehind, Spoiled depthBehind textBehind ∧
      ofOpenPiece depth text (' ' :: (item.text ++ rest)) later =
        ofOpenPiece depthBehind textBehind rest later := by
  have space : Statement.Plain [' '] := by decide
  cases item with
  | declaration text plain begins => contradiction
  | label word isAccess =>
    have plainLabels : ∀ word ∈ accessWords, Statement.Plain (word ++ [':']) := by decide
    have plain := space.append (plainLabels word isAccess)
    refine ⟨depth, text ++ ([' '] ++ (word ++ [':'])), spoiled.append plain.bare
      plain.parenless.parens_eq_zero plain.braceless.braces_eq_zero, ?_⟩
    rw [ofOpenPiece, ofOpenPiece, List.append_assoc]
    rfl
  | method method =>
    have plain := space.append method.plain
    have bareEnd : Statement.Bare ['(', ')', ' '] := by decide
    have headSpoiled : Spoiled depth (text ++ ([' '] ++ method.front ++ ['(', ')', ' '])) := by
      refine spoiled.append (plain.bare.append bareEnd) ?_ ?_
      · rw [Statement.parens_append, plain.parenless.parens_eq_zero]
        rfl
      · rw [Block.braces_append, plain.braceless.braces_eq_zero]
        rfl
    obtain ⟨depthBehind, textBehind, behind, reads⟩ :=
      exists_spoiled_of_brace headSpoiled method.arePlain
    refine ⟨depthBehind, textBehind, behind, ?_⟩
    rw [← reads, ofOpenPiece, ofOpenPiece]
    simp [Item.text]

/-! ## Layouts -/

namespace Item

/-- What items declare, each on a line of its own. -/
def bodies (items : List Item) : Body :=
  items.foldr (fun item later => item.body ++ later) {}

/-- The declarations that begin a piece when all items stand on one line. -/
def readable (begins : Bool) : List Item → List Item
  | [] => []
  | item :: items =>
    let later := readable item.isDeclaration items
    if begins && item.isDeclaration then item :: later else later

theorem body_of_noDeclaration
    {item : Item}
    (noDeclaration : item.isDeclaration = false) :
    item.body = {} := by
  cases item with
  | declaration text plain begins => contradiction
  | method method => rfl
  | label word isAccess => rfl

theorem newline_not_mem (item : Item) : '\n' ∉ item.text := by
  cases item with
  | declaration declared plain begins =>
    have noBreak : '\n' ∉ declared := plain.not_mem (by decide)
    simpa [text] using noBreak
  | label word isAccess =>
    have noBreak : ∀ word ∈ accessWords, '\n' ∉ word ++ [':'] := by decide
    exact noBreak word isAccess
  | method method =>
    have front : '\n' ∉ method.front := method.plain.not_mem (by decide)
    have inside : '\n' ∉ onOneLine method.statements := by
      intro member
      obtain ⟨statement, isStatement, inStatement⟩ := List.mem_flatMap.mp member
      have noBreak : '\n' ∉ statement := (method.arePlain statement isStatement).not_mem (by decide)
      exact noBreak (by simpa using inStatement)
    simpa [text] using ⟨front, inside⟩

end Item

/-- On a line of its own an item declares what it declares, and the next line is read as before. -/
theorem ofRest_item
    (item : Item)
    (rest : Text) :
    ofRest depthInBody (item.text ++ '\n' :: rest) = item.body ++ ofRest depthInBody rest := by
  have noIndent : IsIndent [] := fun character member => absurd member List.not_mem_nil
  rw [ofRest_append_cons _ item.newline_not_mem]
  cases isDeclaration : item.isDeclaration with
  | false =>
    obtain ⟨depth, text, spoiled, reads⟩ := exists_spoiled_of_item noIndent isDeclaration ['\n']
      (rest.lines.flatMap Statement.pieces)
    have whole : Statement.piecesFrom false none 0 ['\n'] = [['\n']] := by decide
    rw [← List.nil_append (item.text ++ ['\n']), reads, spoiled.ofOpenPiece_whole whole,
      Item.body_of_noDeclaration isDeclaration, nil_append]
    rfl
  | true =>
    cases item with
    | method method => contradiction
    | label word isAccess => contradiction
    | declaration text plain begins =>
      have reads := ofPieces_declaration noIndent plain begins ['\n']
        (rest.lines.flatMap Statement.pieces)
      have lineEnd : Statement.pieces ['\n'] = [['\n']] := Statement.pieces_newline
      have skipped : ofPieces depthInBody (['\n'] :: rest.lines.flatMap Statement.pieces) =
          ofRest depthInBody rest :=
        ofPieces_cons_of_none (found?_newline _) _
      rw [lineEnd, List.singleton_append, skipped] at reads
      rw [Item.text, List.append_assoc]
      exact reads

/-- On lines of their own, items declare what each of them declares. -/
theorem ofRest_items
    (items : List Item)
    (rest : Text) :
    ofRest depthInBody ((items.map Item.text).flatMap (· ++ ['\n']) ++ rest) =
      Item.bodies items ++ ofRest depthInBody rest := by
  induction items with
  | nil => exact (nil_append _).symm
  | cons item items hypothesis =>
    have shape : ((item :: items).map Item.text).flatMap (· ++ ['\n']) ++ rest =
        item.text ++ '\n' :: ((items.map Item.text).flatMap (· ++ ['\n']) ++ rest) := by
      simp
    rw [shape, ofRest_item, hypothesis, ← Body.append_assoc]
    rfl

/--
On one line, items declare what the declarations among them declare that begin a piece: those at the
beginning of the line, or directly behind another declaration.
-/
theorem ofPieces_items (items : List Item) :
    ofPieces depthInBody
        (Statement.pieces ((items.map Item.text).flatMap (' ' :: ·) ++ [' ', '}']) ++ []) =
      Item.bodies (Item.readable true items) ∧
    ∀ depth text, Spoiled depth text →
      ofOpenPiece depth text ((items.map Item.text).flatMap (' ' :: ·) ++ [' ', '}']) [] =
        Item.bodies (Item.readable false items) := by
  induction items with
  | nil =>
    have whole : Statement.piecesFrom false none 0 [' ', '}'] = [[' ', '}']] := by decide
    exact ⟨by decide, fun depth text spoiled => spoiled.ofOpenPiece_whole whole []⟩
  | cons item items hypothesis =>
    obtain ⟨readsBegin, readsSpoiled⟩ := hypothesis
    have isIndent : IsIndent [' '] := by decide
    have shape : ((item :: items).map Item.text).flatMap (' ' :: ·) ++ [' ', '}'] =
        ' ' :: (item.text ++ ((items.map Item.text).flatMap (' ' :: ·) ++ [' ', '}'])) := by
      simp
    rw [shape]
    cases isDeclaration : item.isDeclaration with
    | false =>
      refine ⟨?_, fun depth text spoiled => ?_⟩
      · obtain ⟨depth, text, spoiled, reads⟩ :=
          exists_spoiled_of_item isIndent isDeclaration _ []
        rw [Item.readable, isDeclaration]
        exact reads.trans (readsSpoiled _ _ spoiled)
      · obtain ⟨depthBehind, textBehind, behind, reads⟩ :=
          exists_spoiled_of_spoiled spoiled isDeclaration _ []
        rw [Item.readable, isDeclaration]
        exact reads.trans (readsSpoiled _ _ behind)
    | true =>
      cases item with
      | method method => contradiction
      | label word isAccess => contradiction
      | declaration text plain begins =>
        refine ⟨?_, fun depth openText spoiled => ?_⟩
        · have reads := ofPieces_declaration isIndent plain begins
            ((items.map Item.text).flatMap (' ' :: ·) ++ [' ', '}']) []
          rw [readsBegin] at reads
          rw [Item.text, List.append_assoc]
          exact reads
        · rw [Item.text, List.append_assoc, List.singleton_append,
            ofOpenPiece_declaration spoiled plain, readsBegin]
          rfl

/-- A class with its items on lines of their own. -/
def apart (name : Word) (items : List Item) : Text :=
  classAround name.text (['\n'].intercalate (items.map Item.text) ++ ['\n'])

/-- A class with its items on one line, with single spaces between them. -/
def together (name : Word) (items : List Item) : Text :=
  "class".toList ++ ' ' :: (name.text ++ [' ', '{', ' '] ++ Text.unwords (items.map Item.text) ++
    [' ', '}'])

variable (name : Word) (items : List Item)

theorem ofText_apart : ofText (apart name items) = Item.bodies items := by
  rw [apart, ofText_classAround name.isWord]
  by_cases noItems : items = []
  · rw [noItems]
    exact (ofRest_newline _).trans (ofRest_closingBrace _)
  · rw [Text.intercalate_append (by simpa using noItems), ofRest_items, ofRest_closingBrace,
      append_nil]

/-- On one line, only the readable declarations declare members. -/
theorem ofText_together :
    ofText (together name items) = Item.bodies (Item.readable true items) := by
  have namePlain : Statement.Plain name.text := fun character member =>
    cuts_eq_false_of_isNameCharacter (name.isWord.2 character member)
  have space : Statement.Plain [' '] := by decide
  have headPlain : Statement.Plain ([' '] ++ name.text ++ [' ']) :=
    (space.append namePlain).append space
  have shape : together name items = "class".toList ++ ([' '] ++ name.text ++ [' ']) ++
      '{' :: ([' '] ++ [' '].intercalate (items.map Item.text) ++ [' ', '}']) := by
    simp [together, Text.unwords]
  rw [shape, ofText_head (by decide) (by rfl) headPlain]
  by_cases noItems : items = []
  · rw [noItems]
    decide
  · have oneLine : Text.lines ((items.map Item.text).flatMap (' ' :: ·) ++ [' ', '}']) =
        [(items.map Item.text).flatMap (' ' :: ·) ++ [' ', '}']] := by
      have noBreak : '\n' ∉ (items.map Item.text).flatMap (' ' :: ·) := by
        intro member
        obtain ⟨text, isText, inText⟩ := List.mem_flatMap.mp member
        obtain ⟨item, -, rfl⟩ := List.mem_map.mp isText
        exact item.newline_not_mem (by simpa using inText)
      exact Text.lines_append_of_lines noBreak rfl
    rw [Text.append_intercalate (by simpa using noItems)]
    exact (congrArg (ofPieces depthInBody <| List.flatMap Statement.pieces ·) oneLine).trans
      (ofPieces_items items).1

/-- The members that an item declares in a class of its own. -/
def Item.members (item : Item) : List DataMember :=
  (ofText (apart name [item])).members

namespace Item

theorem members_eq (item : Item) : item.members name = item.body.members := by
  rw [members, ofText_apart]
  exact List.append_nil _

theorem members_bodies : (bodies items).members = items.flatMap (members name) := by
  induction items with
  | nil => rfl
  | cons item items hypothesis =>
    rw [List.flatMap_cons, ← hypothesis, members_eq]
    rfl

theorem readable_sublist (begins : Bool) : (readable begins items).Sublist items := by
  induction items generalizing begins with
  | nil => exact List.Sublist.refl []
  | cons item items hypothesis =>
    have later := hypothesis item.isDeclaration
    rw [readable]
    split
    · exact later.cons_cons item
    · exact later.cons item

/-- All members are declared by readable items if no other item declares any. -/
theorem flatMap_readable_iff (begins : Bool) :
    (readable begins items).flatMap (members name) = items.flatMap (members name) ↔
      (∀ first ∈ items.head?, begins = true ∨ first.members name = []) ∧
        items.IsChain fun previous next =>
          previous.isDeclaration = true ∨ next.members name = [] := by
  induction items generalizing begins with
  | nil => simp [readable]
  | cons item items hypothesis =>
    have later := hypothesis item.isDeclaration
    have dropped : (readable item.isDeclaration items).flatMap (members name) =
        item.members name ++ items.flatMap (members name) ↔
          item.members name = [] ∧ (readable item.isDeclaration items).flatMap (members name) =
            items.flatMap (members name) := by
      constructor
      · intro equal
        have fewer := ((readable_sublist items item.isDeclaration).flatMap (members name)).length_le
        have lengths := congrArg List.length equal
        rw [List.length_append] at lengths
        have none : item.members name = [] := List.eq_nil_of_length_eq_zero (by omega)
        rw [none, List.nil_append] at equal
        exact ⟨none, equal⟩
      · rintro ⟨none, equal⟩
        rw [none, equal, List.nil_append]
    rw [List.isChain_cons, ← later, readable, List.flatMap_cons]
    cases begins with
    | false => simpa using dropped
    | true =>
      cases isDeclaration : item.isDeclaration with
      | true => simp
      | false =>
        have none : item.members name = [] := by
          rw [members_eq, body_of_noDeclaration isDeclaration]
        simp [none]

end Item

/--
A class has the same members with its items on one line as with its items on lines of their own
exactly if each item that stands directly behind a method or an access label declares no members.
-/
theorem members_together_iff :
    (ofText (together name items)).members = (ofText (apart name items)).members ↔
      items.IsChain fun previous next =>
        previous.isDeclaration = true ∨ next.members name = [] := by
  rw [ofText_together, ofText_apart, Item.members_bodies name, Item.members_bodies name,
    Item.flatMap_readable_iff]
  simp

/-- The items `public:` and `int x;`. -/
def labelledMember : List Item :=
  [.label "public".toList (by decide),
    .declaration "int x".toList (by decide) ⟨'i', rfl, by decide⟩]

/-- On one line with the label in front of it, the member is not found. -/
theorem members_labelledMember :
    let name : Word := ⟨"T".toList, by decide⟩
    together name labelledMember = "class T \x7b public: int x; \x7d".toList ∧
      apart name labelledMember = "class T \x7b\npublic:\nint x;\n\x7d".toList ∧
      (ofText (together name labelledMember)).members = [] ∧
      (ofText (apart name labelledMember)).members =
        [{ name := "x".toList, declaredType := "int".toList, byValue := true }] := by
  intro name
  have isTogether : together name labelledMember = "class T \x7b public: int x; \x7d".toList := by
    decide
  have isApart : apart name labelledMember = "class T \x7b\npublic:\nint x;\n\x7d".toList := by
    decide
  rw [isTogether, isApart]
  exact ⟨rfl, rfl, by decide, by decide⟩

end Written

end ClassOutline
