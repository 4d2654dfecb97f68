import ClassOutline.Proofs.Mask.Geometry
/-!
# Comments that stay visible

A text is read from left to right with a string open or not: a quotation mark opens a string and
the next one closes it.  Where no string is open, a mark of a comment should not be met any more
once comments are hidden.

Each of the two passes clears the text of its own marks, as it reads strings itself.  Line comments
never stay visible.  But the pass over block comments also sees the quotation marks in line
comments, which the second pass hides.  So a mark of a block comment stays visible outside strings
exactly where the two passes do not agree on the strings in front of it.
-/

namespace ClassOutline.Mask

/-! ## Reading strings -/

/-- Whether a string is open behind a character, given whether one is open in front of it. -/
def toggle (inString : Bool) (character : Char) : Bool :=
  if character = '"' then !inString else inString

/-- Whether a string is open behind a text. -/
def endsInString (text : Text) : Bool :=
  text.foldl toggle false

/-- The mark that opens line comments. -/
def lineMarks : List Text :=
  ["//".toList]

/-- The marks that open and close block comments. -/
def blockMarks : List Text :=
  ["/*".toList, "*/".toList]

/-- Reading on from a given state, none of the marks is met outside strings. -/
def ClearOf (marks : List Text) : Bool → Text → Prop
  | _, [] => True
  | inString, current :: rest =>
    (inString = false → ∀ mark ∈ marks, ¬ mark <+: current :: rest) ∧
      ClearOf marks (toggle inString current) rest

/-- No mark of a comment is met outside strings. -/
def CommentFree (text : Text) : Prop :=
  ClearOf (lineMarks ++ blockMarks) false text

theorem clearOf_append
    {first second : List Text}
    (inString : Bool)
    (text : Text) :
    ClearOf (first ++ second) inString text ↔
      ClearOf first inString text ∧ ClearOf second inString text := by
  induction text generalizing inString with
  | nil => simp [ClearOf]
  | cons current rest hypothesis =>
    simp only [ClearOf, List.forall_mem_append, hypothesis]
    constructor
    · rintro ⟨here, later⟩
      exact ⟨⟨fun outside => (here outside).1, later.1⟩, fun outside => (here outside).2, later.2⟩
    · rintro ⟨⟨hereFirst, laterFirst⟩, hereSecond, laterSecond⟩
      exact
        ⟨fun outside => ⟨hereFirst outside, hereSecond outside⟩, laterFirst, laterSecond⟩

/-- No mark is met outside strings if in front of each a string is open. -/
theorem clearOf_iff
    {marks : List Text}
    (notEmpty : ∀ mark ∈ marks, mark ≠ [])
    (inString : Bool)
    (text : Text) :
    ClearOf marks inString text ↔
      ∀ mark ∈ marks, ∀ front behind, text = front ++ mark ++ behind →
        front.foldl toggle inString = true := by
  induction text generalizing inString with
  | nil =>
    refine iff_of_true trivial fun mark member front behind shape => ?_
    exact absurd (List.append_eq_nil_iff.mp (List.append_eq_nil_iff.mp shape.symm).1).2
      (notEmpty mark member)
  | cons current rest hypothesis =>
    rw [ClearOf, hypothesis]
    constructor
    · rintro ⟨here, later⟩ mark member front behind shape
      cases front with
      | nil =>
        have begins : mark <+: current :: rest := ⟨behind, shape.symm⟩
        cases inString with
        | false => exact absurd begins (here rfl mark member)
        | true => rfl
      | cons first front =>
        obtain ⟨rfl, restShape⟩ := List.cons.inj shape
        exact later mark member front behind restShape
    · intro inside
      refine ⟨?_, fun mark member front behind shape => ?_⟩
      · rintro rfl mark member ⟨behind, shape⟩
        exact absurd (inside mark member [] behind shape.symm) (by decide)
      · exact inside mark member (current :: front) behind (by rw [shape]; rfl)

/-! ## What hiding does to marks -/

/-- The mark holds no space and begins with a character that is not blank. -/
def IsMark (mark : Text) : Prop :=
  (∀ character ∈ mark, character ≠ ' ') ∧ ∃ first ∈ mark.head?, first ≠ '\n'

theorem isMark_of_mem : ∀ mark ∈ lineMarks ++ blockMarks, IsMark mark := by
  have noSpaces : ∀ mark ∈ lineMarks ++ blockMarks, ∀ character ∈ mark, character ≠ ' ' := by
    decide
  have begins : ∀ mark ∈ lineMarks ++ blockMarks, mark.head? = some '/' ∨ mark.head? = some '*' := by
    decide
  intro mark member
  refine ⟨noSpaces mark member, ?_⟩
  rcases begins mark member with isSlash | isStar
  · exact ⟨'/', isSlash, by decide⟩
  · exact ⟨'*', isStar, by decide⟩

/-- No mark begins in what stands in place of a hidden character. -/
theorem clearOf_hidden_append
    {marks : List Text}
    (areMarks : ∀ mark ∈ marks, IsMark mark)
    (inString : Bool)
    (character : Char)
    (text : Text) :
    ClearOf marks inString (hidden character ++ text) ↔ ClearOf marks inString text := by
  have passBlank (blank : Char) (isBlank : blank = '\n' ∨ blank = ' ') (behind : Text) :
      ClearOf marks inString (blank :: behind) ↔ ClearOf marks inString behind := by
    have noMark : ∀ mark ∈ marks, ¬ mark <+: blank :: behind := by
      intro mark member begins
      obtain ⟨noSpace, first, isFirst, noBreak⟩ := areMarks mark member
      obtain ⟨letters, rfl⟩ := List.head?_eq_some_iff.mp isFirst
      obtain ⟨rfl, -⟩ := List.cons_prefix_cons.mp begins
      exact isBlank.elim noBreak (noSpace first List.mem_cons_self)
    have noQuote : blank ≠ '"' := by
      rcases isBlank with rfl | rfl <;> decide
    rw [ClearOf, toggle, if_neg noQuote]
    exact and_iff_right fun _ => noMark
  by_cases isBreak : character = '\n'
  · rw [hidden, if_pos isBreak]
    exact passBlank character (.inl isBreak) text
  · rw [hidden_eq_replicate isBreak]
    induction character.utf8Size with
    | zero => rfl
    | succ number hypothesis =>
      rw [List.replicate_succ, List.cons_append, passBlank ' ' (.inr rfl)]
      exact hypothesis

/-! ## Passes that clear marks -/

variable {State : Type}

/--
The mask follows strings from state to state and hides whatever its marks begin outside them.
Outside comments it hides nothing else.
-/
structure Clears
    (mask : Mask State)
    (marks : List Text)
    (inString inComment : State → Bool) : Prop where
  /-- Strings are followed through the text that stays visible. -/
  follows (state : State) (current : Char) (rest : Text) :
    inString (mask.step state current rest).1 =
      if (mask.step state current rest).2 then inString state
      else toggle (inString state) current
  /-- Outside strings a character at which a mark begins is hidden. -/
  hides (state : State) (current : Char) (rest : Text)
    (outside : inString state = false)
    (shows : (mask.step state current rest).2 = false) :
    ∀ mark ∈ marks, ¬ mark <+: current :: rest
  /-- In a string, and where no mark begins, nothing is hidden. -/
  shows (state : State) (current : Char) (rest : Text)
    (noComment : inComment state = false)
    (clear : inString state = false → ∀ mark ∈ marks, ¬ mark <+: current :: rest) :
    (mask.step state current rest).2 = false ∧
      inComment (mask.step state current rest).1 = false

namespace Clears

variable
  {mask : Mask State}
  {marks : List Text}
  {inString inComment : State → Bool}

/-- The masked text is clear of the marks. -/
theorem clearOf_applyFrom
    (clears : Clears mask marks inString inComment)
    (areMarks : ∀ mark ∈ marks, IsMark mark)
    (state : State)
    (text : Text) :
    ClearOf marks (inString state) (mask.applyFrom state text) := by
  induction text generalizing state with
  | nil => trivial
  | cons current rest hypothesis =>
    have later := hypothesis (mask.step state current rest).1
    have follows := clears.follows state current rest
    rw [applyFrom_cons]
    cases shown : (mask.step state current rest).2 with
    | true =>
      rw [if_pos rfl, clearOf_hidden_append areMarks]
      rw [shown, if_pos rfl] at follows
      rwa [follows] at later
    | false =>
      rw [shown, if_neg (by decide)] at follows
      rw [follows] at later
      refine ⟨fun outside mark member begins => ?_, later⟩
      -- A mark in the masked text is one in the text that is read.
      obtain ⟨behind, maskedShape⟩ := begins
      have hides : Hides (current :: rest) (mark ++ behind) := by
        rw [maskedShape]
        exact .keep current (hides_applyFrom mask _ rest)
      obtain ⟨sourceBehind, sourceShape, -⟩ := hides.exists_eq_append (areMarks mark member).1
      exact clears.hides state current rest outside shown mark member ⟨sourceBehind, sourceShape.symm⟩

/-- A text that is clear of the marks stays as it is. -/
theorem applyFrom_of_clearOf
    (clears : Clears mask marks inString inComment)
    {state : State}
    {text : Text}
    (noComment : inComment state = false)
    (clear : ClearOf marks (inString state) text) :
    mask.applyFrom state text = text := by
  induction text generalizing state with
  | nil => rfl
  | cons current rest hypothesis =>
    obtain ⟨here, clearLater⟩ := clear
    obtain ⟨shown, noCommentLater⟩ := clears.shows state current rest noComment here
    have follows := clears.follows state current rest
    rw [shown, if_neg (by decide)] at follows
    rw [← follows] at clearLater
    rw [applyFrom_cons, shown, hypothesis noCommentLater clearLater]
    rfl

end Clears

/-! ## The passes over comments -/

/-- The pass over block comments is reading a string. -/
def BlockComment.inString : BlockComment → Bool
  | .string => true
  | _ => false

/-- The pass over block comments is reading a comment. -/
def BlockComment.inComment : BlockComment → Bool
  | .comment | .closing => true
  | _ => false

/-- The pass over line comments is reading a string. -/
def LineComment.inString : LineComment → Bool
  | .string => true
  | _ => false

/-- The pass over line comments is reading a comment. -/
def LineComment.inComment : LineComment → Bool
  | .comment => true
  | _ => false

theorem pair_prefix_iff
    {first second current : Char}
    {rest : Text} :
    [first, second] <+: current :: rest ↔ current = first ∧ rest.head? = some second := by
  cases rest <;> simp [List.cons_prefix_cons, eq_comm]

theorem blockMark_prefix_iff
    {current : Char}
    {rest : Text} :
    (∀ mark ∈ blockMarks, ¬ mark <+: current :: rest) ↔
      ¬ (current = '/' ∧ rest.head? = some '*') ∧ ¬ (current = '*' ∧ rest.head? = some '/') := by
  have shape : blockMarks = [['/', '*'], ['*', '/']] := by decide
  rw [shape, List.forall_mem_cons, List.forall_mem_singleton, pair_prefix_iff, pair_prefix_iff]

theorem lineMark_prefix_iff
    {current : Char}
    {rest : Text} :
    (∀ mark ∈ lineMarks, ¬ mark <+: current :: rest) ↔
      ¬ (current = '/' ∧ rest.head? = some '/') := by
  have shape : lineMarks = [['/', '/']] := by decide
  rw [shape, List.forall_mem_singleton, pair_prefix_iff]

theorem clears_blockComments :
    Clears blockComments blockMarks BlockComment.inString BlockComment.inComment where
  follows state current rest := by
    cases state with
    | code =>
      by_cases opens : current = '/' ∧ rest.head? = some '*'
      · simp [blockComments, opens, BlockComment.inString]
      · by_cases closes : current = '*' ∧ rest.head? = some '/'
        · simp [blockComments, closes, BlockComment.inString]
        · by_cases isQuote : current = '"' <;>
            simp [blockComments, opens, closes, isQuote, toggle, BlockComment.inString]
    | string =>
      by_cases isQuote : current = '"' <;>
        simp [blockComments, isQuote, toggle, BlockComment.inString]
    | comment =>
      by_cases closes : current = '*' ∧ rest.head? = some '/' <;>
        simp [blockComments, closes, BlockComment.inString]
    | closing => rfl
  hides state current rest outside shows := by
    rw [blockMark_prefix_iff]
    cases state with
    | code =>
      refine ⟨fun opens => ?_, fun closes => ?_⟩
      · simp [blockComments, opens] at shows
      · simp [blockComments, closes] at shows
    | string => contradiction
    | comment =>
      by_cases closes : current = '*' ∧ rest.head? = some '/' <;>
        simp [blockComments, closes] at shows
    | closing => contradiction
  shows state current rest noComment clear := by
    cases state with
    | code =>
      obtain ⟨opensNone, closesNone⟩ := blockMark_prefix_iff.mp (clear rfl)
      by_cases isQuote : current = '"' <;>
        simp [blockComments, opensNone, closesNone, isQuote, BlockComment.inComment]
    | string =>
      by_cases isQuote : current = '"' <;> simp [blockComments, isQuote, BlockComment.inComment]
    | comment => contradiction
    | closing => contradiction

theorem clears_lineComments :
    Clears lineComments lineMarks LineComment.inString LineComment.inComment where
  follows state current rest := by
    cases state with
    | code =>
      by_cases opens : current = '/' ∧ rest.head? = some '/'
      · simp [lineComments, opens, LineComment.inString]
      · by_cases isQuote : current = '"' <;>
          simp [lineComments, opens, isQuote, toggle, LineComment.inString]
    | string =>
      by_cases isQuote : current = '"' <;>
        simp [lineComments, isQuote, toggle, LineComment.inString]
    | comment =>
      by_cases isBreak : current = '\n' <;>
        simp [lineComments, isBreak, toggle, LineComment.inString]
  hides state current rest outside shows := by
    rw [lineMark_prefix_iff]
    intro opens
    cases state with
    | code => simp [lineComments, opens] at shows
    | string => contradiction
    | comment => simp [lineComments, opens.1] at shows
  shows state current rest noComment clear := by
    cases state with
    | code =>
      have opensNone := lineMark_prefix_iff.mp (clear rfl)
      by_cases isQuote : current = '"' <;>
        simp [lineComments, opensNone, isQuote, LineComment.inComment]
    | string =>
      by_cases isQuote : current = '"' <;> simp [lineComments, isQuote, LineComment.inComment]
    | comment => contradiction

/-! ## Comments that are left -/

/-- The pass over block comments leaves none of their marks outside strings. -/
theorem clearOf_blockComments (source : Text) :
    ClearOf blockMarks false (blockComments.apply source) :=
  clears_blockComments.clearOf_applyFrom
    (fun mark member => isMark_of_mem mark (List.mem_append_right _ member)) .code source

/-- The pass over line comments leaves no line comment. -/
theorem clearOf_lineComments (text : Text) :
    ClearOf lineMarks false (lineComments.apply text) :=
  clears_lineComments.clearOf_applyFrom
    (fun mark member => isMark_of_mem mark (List.mem_append_left _ member)) .code text

theorem exists_utf8Size_eq (character : Char) :
    ∃ number, character.utf8Size = number + 1 := by
  have positive := character.utf8Size_pos
  exact ⟨character.utf8Size - 1, by omega⟩

/-- A character that stands first in both texts was kept, or is what it would be hidden as. -/
theorem Hides.of_cons
    {source masked : Text}
    {character : Char}
    (hides : Hides (character :: source) (character :: masked)) :
    Hides source masked := by
  generalize shape : character :: masked = shown at hides
  cases hides with
  | keep _ later =>
    obtain ⟨-, rfl⟩ := List.cons.inj shape
    exact later
  | hide _ later =>
    by_cases isBreak : character = '\n'
    · rw [hidden, if_pos isBreak] at shape
      obtain ⟨-, rfl⟩ := List.cons.inj shape
      exact later
    · obtain ⟨number, size⟩ := exists_utf8Size_eq character
      rw [hidden_eq_replicate isBreak, size, List.replicate_succ] at shape
      obtain ⟨rfl, rest⟩ := List.cons.inj shape
      obtain rfl : number = 0 := Nat.succ.inj size.symm
      obtain rfl : masked = _ := rest
      exact later

/-- Texts that arise from each other by hiding are the same. -/
theorem Hides.antisymm
    {left right : Text}
    (forward : Hides left right)
    (backward : Hides right left) :
    left = right := by
  induction forward with
  | nil => rfl
  | keep character _ hypothesis => rw [hypothesis backward.of_cons]
  | @hide source masked character _ hypothesis =>
    by_cases isBreak : character = '\n'
    · rw [hidden, if_pos isBreak] at backward ⊢
      rw [hypothesis backward.of_cons]
      rfl
    · obtain ⟨number, size⟩ := exists_utf8Size_eq character
      have spaces : hidden character = ' ' :: List.replicate number ' ' := by
        rw [hidden_eq_replicate isBreak, size, List.replicate_succ]
      -- Spaces become spaces, so the hidden character is one itself.
      rw [hidden_eq_replicate isBreak, size] at backward
      obtain ⟨rest, shape, -⟩ := backward.exists_eq_replicate_append
      rw [List.replicate_succ] at shape
      obtain ⟨rfl, -⟩ := List.cons.inj shape
      obtain rfl : number = 0 := Nat.succ.inj size.symm
      rw [spaces]
      exact congrArg (' ' :: ·) (hypothesis backward.of_cons)

/-- Exactly the texts without comments stay as they are when comments are hidden. -/
theorem hideComments_eq_self_iff (text : Text) :
    hideComments text = text ↔ CommentFree text := by
  rw [CommentFree, clearOf_append]
  constructor
  · intro same
    have blockPass : blockComments.apply text = text := by
      have backward : Hides (blockComments.apply text) text := by
        conv => rhs; rw [← same]
        exact hides_applyFrom lineComments _ _
      exact backward.antisymm (hides_applyFrom blockComments _ text)
    constructor
    · have clear := clearOf_lineComments (blockComments.apply text)
      rwa [← hideComments, same] at clear
    · have clear := clearOf_blockComments text
      rwa [blockPass] at clear
  · rintro ⟨lineClear, blockClear⟩
    have blockPass : blockComments.apply text = text :=
      clears_blockComments.applyFrom_of_clearOf rfl blockClear
    have linePass : lineComments.apply text = text :=
      clears_lineComments.applyFrom_of_clearOf rfl lineClear
    rw [hideComments, blockPass, linePass]

/--
Hiding comments once more changes nothing exactly where no comment is left.  None is left exactly
if, in front of every mark of a block comment that is left, the text with its comments hidden and
the one with block comments alone hidden agree on whether a string is open.  Line comments are
never left.
-/
theorem commentFree_hideComments_iff (source : Text) :
    ClearOf lineMarks false (hideComments source) ∧
      (hideComments (hideComments source) = hideComments source ↔
        CommentFree (hideComments source)) ∧
        (CommentFree (hideComments source) ↔
          ∀ mark ∈ blockMarks, ∀ front behind,
            hideComments source = front ++ mark ++ behind →
              endsInString front =
                endsInString ((blockComments.apply source).takeBytes front.width)) := by
  have lineClear : ClearOf lineMarks false (hideComments source) := clearOf_lineComments _
  refine ⟨lineClear, hideComments_eq_self_iff _, ?_⟩
  have notEmpty : ∀ mark ∈ blockMarks, mark ≠ [] := by decide
  rw [CommentFree, clearOf_append, and_iff_right lineClear, clearOf_iff notEmpty]
  refine forall₅_congr fun mark member front behind shape => ?_
  -- The mark stands in the text with block comments hidden, too, and there behind an open string.
  have hides : Hides (blockComments.apply source) (front ++ mark ++ behind) := by
    rw [← shape]
    exact hides_applyFrom lineComments _ _
  obtain ⟨noSpace, first, isFirst, -⟩ := isMark_of_mem mark (List.mem_append_right _ member)
  obtain ⟨letters, rfl⟩ := List.head?_eq_some_iff.mp isFirst
  rw [List.append_assoc] at hides
  obtain ⟨before, after, blockShape, hidesBefore, hidesAfter⟩ :=
    hides.exists_cut_before (noSpace first List.mem_cons_self)
  obtain ⟨later, rfl, -⟩ := @Hides.exists_eq_append _ (first :: letters) _ hidesAfter noSpace
  have blockClear := (clearOf_iff notEmpty _ _).mp (clearOf_blockComments source)
    (first :: letters) member before later (by rw [blockShape, List.append_assoc])
  have sameFront : (blockComments.apply source).takeBytes front.width = before := by
    rw [blockShape, ← hidesBefore.width_eq, Text.takeBytes_width_append]
  rw [sameFront, endsInString, endsInString, blockClear]

/-- A quotation mark in a line comment keeps the block comment behind it visible. -/
theorem not_commentFree_quotedLineComment :
    ¬ CommentFree (hideComments "// \"\n/* x */\n".toList) ∧
      hideComments (hideComments "// \"\n/* x */\n".toList) ≠
        hideComments "// \"\n/* x */\n".toList := by
  have shown : hideComments "// \"\n/* x */\n".toList = "    \n/* x */\n".toList := by decide
  have notFree : ¬ CommentFree "    \n/* x */\n".toList := by
    intro free
    rw [CommentFree, clearOf_append, @clearOf_iff blockMarks (by decide)] at free
    exact absurd (free.2 "/*".toList (by decide) "    \n".toList " x */\n".toList (by decide))
      (by decide)
  rw [shown]
  exact ⟨notFree, fun same => notFree ((hideComments_eq_self_iff _).mp same)⟩

end ClassOutline.Mask
