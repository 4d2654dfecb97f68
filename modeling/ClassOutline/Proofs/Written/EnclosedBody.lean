import ClassOutline.Proofs.Block.Greedy
import ClassOutline.Proofs.Block.Seam
import ClassOutline.Proofs.Mask.Comments
import ClassOutline.Proofs.Mask.Seam
import ClassOutline.Proofs.Member.Outside
import ClassOutline.Proofs.Scan.Blocks
import Mathlib.Data.List.Infix
/-!
# Bodies put into a class

A body is put into the class `T`, on lines of its own.  The members of the class should be those
that are read in the body.  But braces are counted in two ways: where members are looked for, those
in literals do not count, and where the end of the class is looked for, they do.

The scan finds one class in any case.  Its text is cut off at the first place in the body where more
braces are closed than opened, with the braces of literals counted.  If there is no such place, the
members are all found.
-/

namespace ClassOutline

/-! ## Masking a text in front of the end of a line -/

namespace Mask

variable {State : Type}

/-- The end of the text is for the mask like the end of a line. -/
def EndsAsAtLine (mask : Mask State) : Prop :=
  ∀ state current rest, mask.step state current (rest ++ ['\n']) = mask.step state current rest

theorem applyFrom_newline
    {mask : Mask State}
    (endsAsAtLine : mask.EndsAsAtLine)
    (state : State)
    (text : Text) :
    mask.applyFrom state (text ++ ['\n']) = mask.applyFrom state text ++ ['\n'] := by
  induction text generalizing state with
  | nil => simp [applyFrom_cons, applyFrom, hidden]
  | cons current rest hypothesis =>
    rw [List.cons_append, applyFrom_cons, applyFrom_cons, endsAsAtLine, hypothesis,
      List.append_assoc]

theorem stateAfter_newline
    {mask : Mask State}
    (endsAsAtLine : mask.EndsAsAtLine)
    (state : State)
    (text : Text) :
    mask.stateAfter state (text ++ ['\n']) =
      (mask.step (mask.stateAfter state text) '\n' []).1 := by
  induction text generalizing state with
  | nil => rfl
  | cons current rest hypothesis =>
    rw [List.cons_append, stateAfter, stateAfter, endsAsAtLine, hypothesis]

/-- Behind a line, a text stays that stays in the state which is reached there. -/
theorem apply_append_newline
    {mask : Mask State}
    (endsAtLine : mask.EndsAtLine)
    (endsAsAtLine : mask.EndsAsAtLine)
    {text behind : Text}
    (stays : mask.applyFrom (mask.stateAfter mask.start (text ++ ['\n'])) behind = behind) :
    mask.apply (text ++ '\n' :: behind) = mask.apply text ++ '\n' :: behind := by
  rw [apply, applyFrom_append endsAtLine, stays, applyFrom_newline endsAsAtLine, List.append_assoc]
  rfl

theorem endsAsAtLine_blockComments : blockComments.EndsAsAtLine := by
  intro state current rest
  cases rest <;> cases state <;> simp [blockComments]

theorem endsAsAtLine_lineComments : lineComments.EndsAsAtLine := by
  intro state current rest
  cases rest <;> cases state <;> simp [lineComments]

theorem endsAsAtLine_friendLines : friendLines.EndsAsAtLine := by
  intro state current rest
  have sameBeginning := friendClass_isPrefixOf (current :: rest) []
  rw [List.cons_append] at sameBeginning
  cases state <;> simp only [friendLines, sameBeginning]

/-- The marks that open comments. -/
def openingMarks : List Text :=
  ["//".toList, "/*".toList]

theorem clearOf_of_lacks
    {marks : List Text}
    {text : Text}
    {inString : Bool}
    (notEmpty : ∀ mark ∈ marks, mark ≠ [])
    (lacks : ∀ mark ∈ marks, text.Lacks mark) :
    ClearOf marks inString text := by
  rw [clearOf_iff notEmpty]
  intro mark isMark front behind shape
  exact absurd ⟨front, behind, shape.symm⟩ (lacks mark isMark)

/-- Where spaces take the place of characters, no word without spaces arises. -/
theorem Hides.lacks
    {source masked word : Text}
    (hides : Hides source masked)
    (notEmpty : word ≠ [])
    (noSpace : ' ' ∉ word)
    (lacks : source.Lacks word) :
    masked.Lacks word := by
  rintro ⟨left, right, rfl⟩
  obtain ⟨first, letters, rfl⟩ := List.exists_cons_of_ne_nil notEmpty
  have noSpaceInside : ∀ character ∈ first :: letters, character ≠ ' ' :=
    fun character member isSpace => noSpace (isSpace ▸ member)
  rw [List.append_assoc] at hides
  obtain ⟨front, behind, rfl, -, hidesBehind⟩ :=
    hides.exists_cut_before (noSpaceInside first List.mem_cons_self)
  obtain ⟨later, rfl, -⟩ := @Hides.exists_eq_append _ (first :: letters) _ hidesBehind noSpaceInside
  exact lacks ⟨front, later, by simp⟩

/-- The pass over block comments is outside them, in front of a given text. -/
def OutsideComments (state : BlockComment) (text : Text) : Prop :=
  state ≠ .comment ∧ (state = .closing → text.head? = some '/')

/-- Where no comment opens, the pass over block comments follows strings and stays outside. -/
theorem outsideComments_step
    {state : BlockComment}
    {current : Char}
    {rest : Text}
    (noMark : state.inString = false → ∀ mark ∈ openingMarks, ¬ mark <+: current :: rest)
    (outside : OutsideComments state (current :: rest)) :
    OutsideComments (blockComments.step state current rest).1 rest ∧
      (blockComments.step state current rest).1.inString = toggle state.inString current := by
  have marks : openingMarks = [['/', '/'], ['/', '*']] := by decide
  rw [marks, List.forall_mem_cons, List.forall_mem_singleton, pair_prefix_iff,
    pair_prefix_iff] at noMark
  cases state with
  | code =>
    have noOpening := (noMark rfl).2
    by_cases closes : current = '*' ∧ rest.head? = some '/'
    · simp [blockComments, closes, OutsideComments, BlockComment.inString, toggle]
    · by_cases isQuote : current = '"' <;>
        simp [blockComments, noOpening, closes, isQuote, OutsideComments, BlockComment.inString,
          toggle]
  | string =>
    by_cases isQuote : current = '"' <;>
      simp [blockComments, isQuote, OutsideComments, BlockComment.inString, toggle]
  | comment => exact absurd rfl outside.1
  | closing =>
    obtain rfl : current = '/' := Option.some.inj (outside.2 rfl)
    simp [blockComments, OutsideComments, BlockComment.inString, toggle]

theorem outsideComments_stateAfter
    {state : BlockComment}
    {text : Text}
    (noOpening : ClearOf openingMarks state.inString text)
    (outside : OutsideComments state text) :
    OutsideComments (blockComments.stateAfter state text) [] := by
  induction text generalizing state with
  | nil => exact outside
  | cons current rest hypothesis =>
    obtain ⟨noMark, noOpeningLater⟩ := noOpening
    obtain ⟨outsideLater, follows⟩ := outsideComments_step noMark outside
    exact hypothesis (by rwa [follows]) outsideLater

theorem stateAfter_blockComments_newline
    {text : Text}
    (noOpening : ClearOf openingMarks false text) :
    blockComments.stateAfter .code (text ++ ['\n']) = .code ∨
      blockComments.stateAfter .code (text ++ ['\n']) = .string := by
  obtain ⟨notComment, notClosing⟩ :=
    @outsideComments_stateAfter .code text noOpening ⟨by decide, by simp⟩
  rw [stateAfter_newline endsAsAtLine_blockComments]
  cases reached : blockComments.stateAfter .code text with
  | code => exact .inl rfl
  | string => exact .inr rfl
  | comment => exact absurd reached notComment
  | closing => exact absurd (notClosing reached) (by simp)

theorem stateAfter_lineComments_newline
    (text : Text) :
    lineComments.stateAfter .code (text ++ ['\n']) = .code ∨
      lineComments.stateAfter .code (text ++ ['\n']) = .string := by
  rw [stateAfter_newline endsAsAtLine_lineComments]
  cases lineComments.stateAfter .code text with
  | code => exact .inl rfl
  | string => exact .inr rfl
  | comment => exact .inl rfl

/-- Behind a text in which no comment opens, lines in which nothing can be hidden stay. -/
theorem visible_append_of_noOpening
    {text behind : Text}
    (noOpening : ClearOf openingMarks false text)
    (noSlash : '/' ∉ behind)
    (noFriend : behind.Lacks friendClass) :
    visible (text ++ '\n' :: behind) = visible text ++ '\n' :: behind := by
  have blockStays := applyFrom_blockComments_eq_self
    (stateAfter_blockComments_newline noOpening) noSlash
  have lineStays := applyFrom_lineComments_eq_self
    (stateAfter_lineComments_newline (blockComments.apply text)) noSlash
  have friendStays : friendLines.applyFrom (friendLines.stateAfter .code
      (hideComments text ++ ['\n'])) behind = behind := by
    rw [stateAfter_friendLines]
    exact hideFriends_eq_self noFriend
  rw [visible, hideComments,
    apply_append_newline endsAtLine_blockComments endsAsAtLine_blockComments blockStays,
    apply_append_newline endsAtLine_lineComments endsAsAtLine_lineComments lineStays]
  exact apply_append_newline endsAtLine_friendLines endsAsAtLine_friendLines friendStays

end Mask

/-! ## Texts in which no declaration begins -/

namespace Block

/-- The end of the text is for a declaration like the end of a line. -/
theorem beginsDeclaration_newline
    (past front : Text) :
    beginsDeclaration past (front ++ ['\n']) = beginsDeclaration past front := by
  have foreign : ∀ word ∈ declarationWords, '\n' ∉ word := by decide
  have sameWord : declarationWord? (front ++ ['\n']) = declarationWord? front := by
    have same : ∀ word ∈ declarationWords,
        word.isPrefixOf (front ++ ['\n']) = word.isPrefixOf front :=
      fun word isWord => Text.isPrefixOf_append_cons front [] (foreign word isWord)
    simp only [declarationWord?, declarationWords, List.find?_cons, List.mem_cons,
      forall_eq_or_imp] at same ⊢
    rw [same.1, same.2.1]
    rfl
  rw [beginsDeclaration, beginsDeclaration, sameWord]
  cases found : declarationWord? front with
  | none => rfl
  | some word =>
    obtain ⟨rest, rfl⟩ : word <+: front :=
      List.isPrefixOf_iff_prefix.mp (by simpa using List.find?_some found)
    have atBreak : Reserved.isDelimiter '\n' = true := by decide
    dsimp only
    rw [List.append_assoc, List.drop_left, List.drop_left]
    cases rest <;> simp [Reserved.standsAlone, atBreak]

/-- A text in which no keyword stands is quiet behind a fresh text and in front of other lines. -/
theorem beginsDeclaration_eq_false
    {past front behind : Text}
    (fresh : Reserved.Fresh past)
    (noKeyword : ¬ KeywordAt front behind)
    (rest : Text) :
    beginsDeclaration (front.reverse ++ past) (behind ++ '\n' :: rest) = false := by
  rw [keywordAt_iff, Bool.not_eq_true] at noKeyword
  rw [beginsDeclaration_append fresh, beginsDeclaration_line, beginsDeclaration_newline, noKeyword]

/-- A text in which a brace is never closed is deep all along. -/
theorem deep_of_closedPart?_eq_none
    {depth : Int}
    {text : Text}
    (positive : 0 < depth)
    (unclosed : closedPart? true depth text = none) :
    ∀ front, front <+: text → 0 < depth + braces front := by
  induction text generalizing depth with
  | nil =>
    intro front isPrefix
    rw [List.prefix_nil.mp isPrefix, braces_nil, Int.add_zero]
    exact positive
  | cons current rest hypothesis =>
    rw [closedPart?, Bool.true_or] at unclosed
    split at unclosed
    · contradiction
    · next goesOn =>
      have lower : -1 ≤ braceChange current := by
        rw [braceChange]
        split <;> [skip; split] <;> decide
      have positiveLater : 0 < depth + braceChange current := by
        have notZero : depth + braceChange current ≠ 0 := fun zero => goesOn ⟨rfl, zero⟩
        omega
      have later := hypothesis positiveLater (Option.map_eq_none_iff.mp unclosed)
      intro front isPrefix
      cases front with
      | nil => simpa using positive
      | cons first front =>
        obtain ⟨rfl, isLater⟩ := List.cons_prefix_cons.mp isPrefix
        rw [braces_cons, ← Int.add_assoc]
        exact later front isLater

end Block

/-! ## Braces in literals -/

namespace Depth

/-- Opening minus closing braces in literals, for a text that is reached with a mark open or not. -/
def literalBraces (mark : Option Char) : Text → Int
  | [] => 0
  | current :: rest =>
    let mark := if current = '\n' then none else mark
    (if Literal.covers mark current then Block.braceChange current else 0) +
      literalBraces (Literal.after mark current) rest

/-- Braces that are counted everywhere are those outside literals and those in them. -/
theorem braces_eq_add_literalBraces
    (depth : Depth)
    (text : Text) :
    Block.braces text =
      (depth.after text).braces - depth.braces + literalBraces depth.mark text := by
  induction text generalizing depth with
  | nil => simp [literalBraces]
  | cons current rest hypothesis =>
    have later := hypothesis (depth.step current)
    have step := depth.step_eq current
    rw [Block.braces_cons, after_cons, literalBraces]
    rw [step] at later ⊢
    dsimp only at later ⊢
    generalize (if current = '\n' then none else depth.mark) = mark at later ⊢
    by_cases covered : Literal.covers mark current = true
    · simp only [if_pos covered] at later ⊢
      omega
    · simp only [if_neg covered] at later ⊢
      omega

end Depth

/-! ## The last line of a class -/

namespace Body

/-- The semicolon behind the body of a class declares nothing. -/
theorem ofText_append_semicolon (front : Text) :
    ofText (front ++ "\n\x7d;".toList) = ofText (front ++ "\n\x7d".toList) := by
  have nothing (ending : Text) (isEnding : ending ∈ [['}', ';'], ['}']]) (depth : Depth) :
      ofPieces depth (ending.lines.flatMap Statement.pieces) = {} := by
    have noShape : ∀ ending ∈ [['}', ';'], ['}']],
        ∀ piece ∈ (Text.lines ending).flatMap Statement.pieces,
          Shape.ofStatement? piece.trim = none := by
      decide
    exact ofPieces_of_declaresNothing
      (fun piece member => declaresNothing_of_noShape (noShape ending isEnding piece member)) depth
  have withSemicolon : "\n\x7d;".toList = '\n' :: ['}', ';'] := by decide
  have bare : "\n\x7d".toList = '\n' :: ['}'] := by decide
  rw [ofText_eq_ofRest, ofText_eq_ofRest, withSemicolon, bare, ofRest, ofRest,
    Text.lines_append_newline front ['}', ';'], Text.lines_append_newline front ['}'],
    List.flatMap_append, List.flatMap_append, ofPieces_append, ofPieces_append,
    nothing ['}', ';'] (by simp),
    nothing ['}'] (by simp)]

end Body

/-! ## The class around a body -/

namespace Written

/-- A text that may be put into a class. -/
structure EnclosedBody where
  text : Text
  /-- No comment opens in the text. -/
  noOpening : Mask.ClearOf Mask.openingMarks false text
  /-- Nowhere in the text a class is declared. -/
  noKeyword : ∀ front behind, Mask.visible text = front ++ behind → ¬ Block.KeywordAt front behind
  /-- Outside literals, each closing brace of the text closes one that is opened in it. -/
  opened : ∀ front, front <+: text → 0 ≤ (Depth.ofText front).braces
  /-- Outside literals, no brace of the text is left open. -/
  closed : (Depth.ofText text).braces = 0

namespace EnclosedBody

/-- What is written in front of a body. -/
def opening : Text :=
  "class T \x7b\n".toList

/-- What is written behind a body. -/
def closing : Text :=
  "\n\x7d;\n".toList

/-- The body in a class. -/
def source (body : EnclosedBody) : Text :=
  opening ++ body.text ++ closing

/-- The declaration of that class. -/
def declaration (body : EnclosedBody) : Text :=
  opening ++ body.text ++ "\n\x7d".toList

/-- The body as it is visible. -/
def shown (body : EnclosedBody) : Text :=
  Mask.visible body.text

/-- Up to its end, a beginning of the body first closes one more brace than it opens. -/
structure ClosesClass (body : EnclosedBody) (part : Text) : Prop where
  isPrefix : part <+: body.shown
  closes : Block.braces part = -1
  least : ∀ other, other <+: body.shown → Block.braces other = -1 → part <+: other

/-- The text that is taken for the declaration of the class. -/
def IsExtent (body : EnclosedBody) (extent : Text) : Prop :=
  (∃ part, body.ClosesClass part ∧ extent = opening ++ part) ∨
    (∀ part, ¬ body.ClosesClass part) ∧ extent = opening ++ body.shown ++ "\n\x7d".toList

/-- The source declares one class, and it has the members that are read in its declaration. -/
def KeepsMembers (body : EnclosedBody) : Prop :=
  ∃ outline, (Scan.ofSource {} body.source).outlines = [outline] ∧
    outline.members = (Body.ofText body.declaration).members

/-- A text in which the words and marks do not stand at all may be put into a class. -/
def ofLacks
    (text : Text)
    (lacksMarks : ∀ mark ∈ Mask.openingMarks, text.Lacks mark)
    (lacksWords : ∀ word ∈ Block.declarationWords, text.Lacks word)
    (opened : ∀ front, front <+: text → 0 ≤ (Depth.ofText front).braces)
    (closed : (Depth.ofText text).braces = 0) :
    EnclosedBody where
  text
  noOpening := Mask.clearOf_of_lacks (by decide) lacksMarks
  noKeyword := by
    rintro front behind shape ⟨word, isWord, ⟨rest, rfl⟩, -⟩
    have notEmpty := Block.declarationWord_ne_nil word isWord
    have noSpace : ∀ word ∈ Block.declarationWords, ' ' ∉ word := by decide
    have lacks := (Mask.hides_visible text).lacks notEmpty (noSpace word isWord)
      (lacksWords word isWord)
    exact lacks ⟨front, rest, by rw [shape, List.append_assoc]⟩
  opened
  closed

/-! ## The region of the class -/

theorem visible_source (body : EnclosedBody) :
    Mask.visible body.source = opening ++ (body.shown ++ closing) := by
  have front : opening = "class T \x7b".toList ++ ['\n'] := by decide
  have behind : closing = '\n' :: "\x7d;\n".toList := by decide
  have shape : body.source =
      "class T \x7b".toList ++ '\n' :: (body.text ++ '\n' :: "\x7d;\n".toList) := by
    rw [source, front, behind]
    simp
  have visibleFront : Mask.visible ("class T \x7b".toList ++ ['\n']) = opening := by decide
  have visibleBehind : Mask.visible (body.text ++ '\n' :: "\x7d;\n".toList) =
      body.shown ++ '\n' :: "\x7d;\n".toList :=
    Mask.visible_append_of_noOpening body.noOpening (by decide) (by decide)
  rw [shape, Mask.visible_append (by decide), visibleFront, visibleBehind, ← behind]

/-- The whole text is one region. -/
theorem regions_visible (body : EnclosedBody) :
    Block.regions (opening ++ (body.shown ++ closing)) =
      [⟨[], opening ++ (body.shown ++ closing)⟩] := by
  have split : opening = 'c' :: "lass T \x7b\n".toList := by decide
  have isWord : (Block.declarationWord?
      ('c' :: ("lass T \x7b\n".toList ++ (body.shown ++ closing)))).isSome = true := by
    have shape : 'c' :: ("lass T \x7b\n".toList ++ (body.shown ++ closing)) =
        "class".toList ++ (" T \x7b\n".toList ++ (body.shown ++ closing)) := by simp
    rw [shape, Block.declarationWord?_append (by decide)]
    rfl
  have calmFront : Block.Calm "lass T \x7b\n".toList := ⟨by decide, by decide⟩
  have calmBehind : Block.Calm closing := Block.calm_of_foreign (by decide)
  have quiet (front behind : Text) (shape : body.shown = front ++ behind) (_ : behind ≠ []) :
      Block.beginsDeclaration (front.reverse ++ ("lass T \x7b\n".toList.reverse ++ ['c']))
        (behind ++ closing) = false :=
    Block.beginsDeclaration_eq_false ⟨by decide, by decide⟩ (body.noKeyword front behind shape) _
  have behind (past : Text) (depth : Int) :
      Block.regionsFrom past depth closing = (closing, []) := by
    have ended := Block.regionsFrom_append past depth calmBehind []
    simpa [Block.regionsFrom] using ended
  rw [Block.regions, split, List.cons_append, Block.regionsAfter, if_pos isWord,
    Block.regionsFrom_append _ _ calmFront, Block.regionsFrom_append_of_quiet _ quiet, behind]

/-! ## The block of the class -/

theorem closedPart?_opening (rest : Text) :
    Block.closedPart? false 0 (opening ++ rest) =
      (Block.closedPart? true 1 rest).map (opening ++ ·) := by
  have split : opening = "class T ".toList ++ ['{', '\n'] := by decide
  have braceless : Block.Braceless "class T ".toList := by decide
  have behindHead : Block.closedPart? false 0 (['{', '\n'] ++ rest) =
      (Block.closedPart? true 1 rest).map (['{', '\n'] ++ ·) := by
    simp [Block.closedPart?, Block.braceChange, Function.comp_def]
  rw [split, List.append_assoc, Block.Declared.closedPart?_append braceless (by decide),
    behindHead, Option.map_map]
  rfl

/-- The block ends where more braces are closed than opened, or else in the last line. -/
theorem exists_blocks_visible (body : EnclosedBody) :
    ∃ text, Block.ofText (Mask.visible body.source) = [⟨[], opening ++ text⟩] ∧
      ∃ extent, body.IsExtent extent ∧ Body.ofText (opening ++ text) = Body.ofText extent := by
  have opens : (opening ++ (body.shown ++ closing)).contains '{' = true :=
    List.contains_iff_mem.mpr (List.mem_append_left _ (by decide))
  have blocks : Block.ofText (Mask.visible body.source) =
      [⟨[], ((Block.closedPart? true 1 (body.shown ++ closing)).map (opening ++ ·)).getD
        (opening ++ (body.shown ++ closing)).trimEnd⟩] := by
    rw [visible_source, Block.ofText, regions_visible, List.filterMap_cons, Block.ofRegion?,
      if_pos opens, closedPart?_opening]
    rfl
  obtain ⟨isLeast, noPart⟩ := @Block.closedPart?_least true 1 body.shown (by decide)
  cases closed : Block.closedPart? true 1 body.shown with
  | some part =>
    obtain ⟨closes, least⟩ := isLeast part closed
    have isPart : body.ClosesClass part :=
      { isPrefix := (Block.closedPart?_eq_some closed (by decide)).1
        closes := by omega
        least := fun other isPrefix closesOther => least other isPrefix (.inl rfl) (by omega) }
    rw [Block.closedPart?_append_of_some closed] at blocks
    exact ⟨part, blocks, opening ++ part, .inl ⟨part, isPart, rfl⟩, rfl⟩
  | none =>
    have noCloser : ∀ part, ¬ body.ClosesClass part := fun part isPart =>
      noPart closed part isPart.isPrefix ⟨.inl rfl, by have := isPart.closes; omega⟩
    have isExtent : body.IsExtent (opening ++ body.shown ++ "\n\x7d".toList) :=
      .inr ⟨noCloser, rfl⟩
    have deep := Block.deep_of_closedPart?_eq_none (by decide) closed
    rw [Block.Declared.closedPart?_append_of_deep deep] at blocks
    by_cases balanced : Block.braces body.shown = 0
    · have ends : Block.closedPart? true (1 + Block.braces body.shown) closing =
          some "\n\x7d".toList := by
        rw [balanced]
        decide
      rw [ends] at blocks
      refine ⟨body.shown ++ "\n\x7d".toList, blocks, _, isExtent, ?_⟩
      rw [List.append_assoc]
    · -- The class is never closed, and all of the last line belongs to the block.
      have unclosed : Block.closedPart? true (1 + Block.braces body.shown) closing = none := by
        have positive := deep body.shown List.prefix_rfl
        have least : ∀ front ∈ closing.inits, -1 ≤ Block.braces front := by decide
        have stays := @Block.Declared.closedPart?_append_of_deep (1 + Block.braces body.shown)
          closing (fun front isPrefix => by
            have := least front ((List.mem_inits front closing).mpr isPrefix)
            omega) []
        rwa [List.append_nil] at stays
      have ends : (opening ++ (body.shown ++ closing)).trimEnd =
          opening ++ (body.shown ++ "\n\x7d;".toList) := by
        have split : closing = "\n\x7d;".toList ++ ['\n'] := by decide
        have isLast : "\n\x7d;".toList.getLast? = some ';' := by decide
        rw [split, ← List.append_assoc, ← List.append_assoc, Text.trimEnd_append]
        · rw [List.append_assoc]
        · rw [List.getLast?_append, isLast, Option.some_or]
          decide
        · decide
      rw [unclosed] at blocks
      refine ⟨body.shown ++ "\n\x7d;".toList, ?_, _, isExtent, ?_⟩
      · rw [blocks, ← ends]
        rfl
      · rw [← List.append_assoc, Body.ofText_append_semicolon]

/-! ## The members of the class -/

/-- The head of the class names it, whatever is taken for its body. -/
theorem exists_ofBlock (text : Text) :
    ∃ head, ClassHead.ofBlock ⟨[], opening ++ text⟩ = .ok head ∧ head.name = "T".toList := by
  have head : ClassHead.headOf (opening ++ text) = "T".toList := by
    have shape : opening ++ text = "class".toList ++ ' ' :: "T ".toList ++ '{' :: '\n' :: text := by
      have split : opening = "class".toList ++ ' ' :: "T ".toList ++ ['{', '\n'] := by decide
      rw [split, List.append_assoc]
      rfl
    rw [shape, ClassHead.headOf_append (by decide) (by decide)]
    decide
  rw [ClassHead.ofBlock]
  dsimp only
  rw [head]
  exact ⟨_, rfl, rfl⟩

/-- The class is found, with the members that are read up to its end. -/
theorem exists_outline (body : EnclosedBody) :
    ∃ extent, body.IsExtent extent ∧
      ∃ outline, (Scan.ofSource {} body.source).outlines = [outline] ∧
        outline.name = "T".toList ∧ outline.members = (Body.ofText extent).members := by
  obtain ⟨text, blocks, extent, isExtent, same⟩ := body.exists_blocks_visible
  obtain ⟨head, found, isName⟩ := exists_ofBlock text
  have outline : Scan.outlineOfBlock? {} ⟨[], opening ++ text⟩ =
      some (Scan.outlineOf {} head (Body.ofText (opening ++ text))) := by
    rw [Scan.outlineOfBlock?, found]
  refine ⟨extent, isExtent, Scan.outlineOf {} head (Body.ofText (opening ++ text)), ?_, isName, ?_⟩
  · rw [Scan.outlines_ofSource, blocks, List.filterMap_cons, outline]
    rfl
  · rw [Scan.outlineOf, same]
    simp

/-- A class whose literals never close more braces than they open ends in its last line. -/
theorem isExtent_declaration
    {body : EnclosedBody}
    (allVisible : body.shown = body.text)
    (noCloser : ∀ front, front <+: body.text → 0 ≤ Depth.literalBraces none front)
    {extent : Text}
    (isExtent : body.IsExtent extent) :
    extent = body.declaration := by
  rcases isExtent with ⟨part, isPart, -⟩ | ⟨-, rfl⟩
  · have isPrefix := isPart.isPrefix
    rw [allVisible] at isPrefix
    have counted := Depth.braces_eq_add_literalBraces {} part
    have outside : 0 ≤ (({} : Depth).after part).braces := body.opened part isPrefix
    have inside : 0 ≤ Depth.literalBraces none part := noCloser part isPrefix
    have closes := isPart.closes
    have startsAtZero : ({} : Depth).braces = 0 := rfl
    have startsUnquoted : ({} : Depth).mark = none := rfl
    rw [startsUnquoted] at counted
    omega
  · rw [declaration, allVisible]

/--
A body put into a class makes one class.  Its members are those that are read up to the first place
in the body where one more brace is closed than opened, and in all of the declaration if there is no
such place.  So they are those of the declaration exactly if it declares none behind that place; and
this holds if nothing is hidden and the literals nowhere close more braces than they have opened.
-/
theorem keepsMembers_iff (body : EnclosedBody) :
    (∃ extent, body.IsExtent extent ∧
      (∃ outline, (Scan.ofSource {} body.source).outlines = [outline] ∧
        outline.name = "T".toList ∧ outline.members = (Body.ofText extent).members) ∧
      (body.KeepsMembers ↔
        (Body.ofText extent).members = (Body.ofText body.declaration).members)) ∧
      (body.shown = body.text →
        (∀ front, front <+: body.text → 0 ≤ Depth.literalBraces none front) →
          body.KeepsMembers) := by
  obtain ⟨extent, isExtent, outline, found, isName, members⟩ := body.exists_outline
  have iff : body.KeepsMembers ↔
      (Body.ofText extent).members = (Body.ofText body.declaration).members := by
    rw [KeepsMembers, found, ← members]
    simp
  refine ⟨⟨extent, isExtent, ⟨outline, found, isName, members⟩, iff⟩, fun allVisible noCloser => ?_⟩
  rw [iff, isExtent_declaration allVisible noCloser isExtent]

/-- The body in which a character literal closes a brace, and a member follows. -/
def braceLiteral : EnclosedBody :=
  ofLacks "char c = '\x7d';\nint n;".toList (by decide) (by decide)
    (by
      have opened : ∀ front ∈ "char c = '\x7d';\nint n;".toList.inits,
          0 ≤ (Depth.ofText front).braces := by
        decide
      exact fun front isPrefix => opened front ((List.mem_inits _ _).mpr isPrefix))
    (by decide)

/-- The literal ends the class, and the member in front of it and the one behind it are lost. -/
theorem outlines_braceLiteral :
    (Scan.ofSource {} braceLiteral.source).outlines.map Outline.members = [[]] ∧
      (Body.ofText braceLiteral.declaration).members.map DataMember.name =
        ["c".toList, "n".toList] ∧ ¬ braceLiteral.KeepsMembers := by
  have lost : (Scan.ofSource {} braceLiteral.source).outlines.map Outline.members = [[]] := by
    decide
  have declared : (Body.ofText braceLiteral.declaration).members.map DataMember.name =
      ["c".toList, "n".toList] := by
    decide
  refine ⟨lost, declared, ?_⟩
  rintro ⟨outline, found, members⟩
  rw [found, List.map_cons, List.map_nil, members] at lost
  rw [(List.cons.inj lost).1] at declared
  contradiction

end EnclosedBody

end Written

end ClassOutline
