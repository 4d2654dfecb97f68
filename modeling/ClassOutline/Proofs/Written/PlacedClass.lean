import ClassOutline.Proofs.Scan.Locality
import ClassOutline.Proofs.Written.ClassModel
/-!
# Classes in place

In a text, a written class may hold more than its members, and more may stand behind it than blanks.
What is added does not show if the declaration still shows the class, and if the text up to the next
class begins no declaration and closes the braces that it opens.  Such classes one after the other
are read one by one.
-/

namespace ClassOutline.Written

variable {barred : List Text}

/-- The counts of a scan that outlines classes and meets nothing else. -/
def ClassFile.tallyOf (outlines : List Outline) : Tally where
  blocks := outlines.length
  classes := outlines.length
  members := (outlines.flatMap Outline.members).length

/-- A written class as it stands in a text. -/
structure PlacedClass (barred : List Text) where
  model : ClassModel barred
  declared : Block.Declared
  /-- What stands behind the closing brace, up to the next class. -/
  ending : Text
  shown : model.ShownBy declared
  calm : Block.Calm ending
  closed : Block.braces ending = 0

namespace PlacedClass

/-- The text of the class, up to the next class. -/
def text (placed : PlacedClass barred) : Text :=
  placed.model.templateLine ++ (placed.declared.block ++ placed.ending)

/-- Behind each class but the last one, another class may be written. -/
def Separated (classes : List (PlacedClass barred)) : Prop :=
  ∀ placed ∈ classes.dropLast, ∀ past, Ready (placed.text.reverse ++ past)

theorem Separated.of_cons
    {placed : PlacedClass barred}
    {classes : List (PlacedClass barred)}
    (separated : Separated (placed :: classes)) :
    (classes ≠ [] → ∀ past, Ready (placed.text.reverse ++ past)) ∧ Separated classes := by
  refine ⟨fun notEmpty => separated placed ?_, fun other member => separated other ?_⟩
  · rw [List.dropLast_cons_of_ne_nil notEmpty]
    exact List.mem_cons_self
  · rw [List.dropLast_cons_of_ne_nil (List.ne_nil_of_mem (List.dropLast_subset _ member))]
    exact List.mem_cons_of_mem _ member

/-- Another class may stand in the place of one if the next one may be written behind it. -/
theorem Separated.replace
    {before after : List (PlacedClass barred)}
    {old new : PlacedClass barred}
    (separated : Separated (before ++ old :: after))
    (readyBehind : after ≠ [] → ∀ past, Ready (new.text.reverse ++ past)) :
    Separated (before ++ new :: after) := by
  intro placed member
  rw [Separated, List.dropLast_append_cons] at separated
  rw [List.dropLast_append_cons] at member
  cases after with
  | nil => exact separated placed member
  | cons next after =>
    rw [List.dropLast_cons_cons] at separated member
    rcases List.mem_append.mp member with isBefore | isHere
    · exact separated placed (List.mem_append_left _ isBefore)
    · rcases List.mem_cons.mp isHere with rfl | isAfter
      · exact readyBehind (List.cons_ne_nil _ _)
      · exact separated placed (List.mem_append_right _ (List.mem_cons_of_mem _ isAfter))

/-! ## Blocks -/

/-- The block of the class behind a given text. -/
def blockBehind (past : Text) (placed : PlacedClass barred) : Block :=
  ⟨placed.model.templateLine.reverse ++ past, placed.declared.block⟩

/-- The blocks of classes behind a given text. -/
def blocksBehind (past : Text) : List (PlacedClass barred) → List Block
  | [] => []
  | placed :: classes =>
    placed.blockBehind past :: blocksBehind (placed.text.reverse ++ past) classes

theorem reverse_text_append
    (placed : PlacedClass barred)
    (past : Text) :
    placed.ending.reverse ++ (placed.declared.block.reverse ++
        (placed.model.templateLine.reverse ++ past)) = placed.text.reverse ++ past := by
  simp [text]

/-- Inside a region at depth zero, a class gives its block. -/
theorem blocksFrom_text_append
    {past : Text}
    (placed : PlacedClass barred)
    (fresh : Reserved.Fresh past)
    (rest : Text) :
    Block.blocksFrom past 0 (placed.text ++ rest) =
      placed.blockBehind past :: Block.blocksFrom (placed.text.reverse ++ past) 0 rest := by
  obtain ⟨calmLine, bracelessLine⟩ := placed.model.calm_templateLine
  have freshBehind := placed.model.fresh_templateLine fresh
  rw [text, List.append_assoc, List.append_assoc, Block.blocksFrom_append _ _ calmLine,
    bracelessLine.braces_eq_zero, Int.add_zero,
    placed.declared.blocksFrom_block_append _ freshBehind, if_pos rfl,
    Block.blocksFrom_append _ _ placed.calm, placed.closed, Int.add_zero, reverse_text_append]
  rfl

/-- The first class of a text gives its block and opens the first region. -/
theorem blocksAfter_text_append
    (past : Text)
    (placed : PlacedClass barred)
    (rest : Text) :
    Block.blocksAfter past (placed.text ++ rest) =
      placed.blockBehind past :: Block.blocksFrom (placed.text.reverse ++ past) 0 rest := by
  obtain ⟨calmLine, -⟩ := placed.model.calm_templateLine
  rw [text, List.append_assoc, List.append_assoc, Block.blocksAfter_append _ calmLine,
    placed.declared.blocksAfter_block_append, Block.blocksFrom_append _ _ placed.calm,
    placed.closed, Int.add_zero, reverse_text_append]
  rfl

/-- Inside a region at depth zero, classes give their blocks. -/
theorem blocksFrom_classes
    {classes : List (PlacedClass barred)}
    (past : Text)
    (ready : classes ≠ [] → Ready past)
    (separated : Separated classes) :
    Block.blocksFrom past 0 (classes.flatMap text) = blocksBehind past classes := by
  induction classes generalizing past with
  | nil => rfl
  | cons placed classes hypothesis =>
    obtain ⟨readyBehind, separatedLater⟩ := separated.of_cons
    have fresh := (ready (List.cons_ne_nil _ _)).fresh
    rw [List.flatMap_cons, placed.blocksFrom_text_append fresh,
      hypothesis _ (fun notEmpty => readyBehind notEmpty past) separatedLater]
    rfl

/-- Classes give their blocks also if the first of them opens the first region. -/
theorem blocksAfter_classes
    {past : Text}
    {classes : List (PlacedClass barred)}
    (separated : Separated classes) :
    Block.blocksAfter past (classes.flatMap text) = blocksBehind past classes := by
  cases classes with
  | nil => rfl
  | cons placed classes =>
    obtain ⟨readyBehind, separatedLater⟩ := separated.of_cons
    rw [List.flatMap_cons, placed.blocksAfter_text_append,
      blocksFrom_classes _ (fun notEmpty => readyBehind notEmpty past) separatedLater]
    rfl

/-! ## Outlines -/

/-- The outlines of classes that stand in a text from a given line on. -/
def outlinesFrom (options : ScanOptions) (line : Nat) : List (PlacedClass barred) → List Outline
  | [] => []
  | placed :: classes =>
    placed.model.outlineIn options (line + placed.model.templateLine.lineBreaks)
        placed.declared ::
      outlinesFrom options (line + placed.text.lineBreaks) classes

theorem outlinesFrom_append
    (options : ScanOptions)
    (line : Nat)
    (front behind : List (PlacedClass barred)) :
    outlinesFrom options line (front ++ behind) =
      outlinesFrom options line front ++
        outlinesFrom options (line + Text.lineBreaks (front.flatMap text)) behind := by
  induction front generalizing line with
  | nil => rfl
  | cons placed front hypothesis =>
    rw [List.cons_append, outlinesFrom, outlinesFrom, hypothesis, List.flatMap_cons,
      Text.lineBreaks_append, Nat.add_assoc]
    rfl

/-- Classes that stand further down give the same outlines further down. -/
theorem outlinesFrom_add
    (options : ScanOptions)
    (line lines : Nat)
    (classes : List (PlacedClass barred)) :
    outlinesFrom options (line + lines) classes =
      (outlinesFrom options line classes).map (Outline.moveDown lines) := by
  induction classes generalizing line with
  | nil => rfl
  | cons placed classes hypothesis =>
    have first : placed.model.outlineIn options
        (line + lines + placed.model.templateLine.lineBreaks) placed.declared =
        (placed.model.outlineIn options (line + placed.model.templateLine.lineBreaks)
          placed.declared).moveDown lines := by
      simp only [ClassModel.outlineIn, ClassModel.outline, Outline.moveDown]
      congr 1 <;> omega
    rw [outlinesFrom, outlinesFrom, List.map_cons, first, Nat.add_right_comm, hypothesis]

/-- The outlines lie within the lines of the text of the classes. -/
theorem lines_of_mem_outlinesFrom
    {options : ScanOptions}
    {line : Nat}
    {classes : List (PlacedClass barred)}
    {outline : Outline}
    (member : outline ∈ outlinesFrom options line classes) :
    line ≤ outline.startLine ∧ outline.startLine ≤ outline.endLine ∧
      outline.endLine ≤ line + Text.lineBreaks (classes.flatMap text) := by
  induction classes generalizing line with
  | nil => contradiction
  | cons placed classes hypothesis =>
    have whole : placed.text.lineBreaks = placed.model.templateLine.lineBreaks +
        (placed.declared.block.lineBreaks + placed.ending.lineBreaks) := by
      rw [text, Text.lineBreaks_append, Text.lineBreaks_append]
    rw [List.flatMap_cons, Text.lineBreaks_append]
    rcases List.mem_cons.mp member with rfl | isLater
    · simp only [ClassModel.outlineIn, ClassModel.outline]
      omega
    · have bounds := hypothesis isLater
      omega

/-- Each outline is that of one of the classes, on the line where it stands. -/
theorem exists_of_mem_outlinesFrom
    {options : ScanOptions}
    {line : Nat}
    {classes : List (PlacedClass barred)}
    {outline : Outline}
    (member : outline ∈ outlinesFrom options line classes) :
    ∃ before placed after, classes = before ++ placed :: after ∧
      outline = placed.model.outlineIn options
        (line + Text.lineBreaks (before.flatMap text) + placed.model.templateLine.lineBreaks)
        placed.declared := by
  induction classes generalizing line with
  | nil => contradiction
  | cons placed classes hypothesis =>
    rcases List.mem_cons.mp member with rfl | isLater
    · exact ⟨[], placed, classes, rfl, rfl⟩
    · obtain ⟨before, found, after, rfl, rfl⟩ := hypothesis isLater
      refine ⟨placed :: before, found, after, rfl, ?_⟩
      rw [List.flatMap_cons, Text.lineBreaks_append, Nat.add_assoc line]

/-- The scan of the blocks of classes, one class after the other. -/
theorem ofBlocks_blocksBehind
    {past : Text}
    {classes : List (PlacedClass barred)}
    (options : ScanOptions)
    (virtualBarred : "virtual".toList ∈ barred)
    (ready : classes ≠ [] → Ready past)
    (separated : Separated classes) :
    Scan.ofBlocks options (blocksBehind past classes) =
      { outlines := outlinesFrom options past.lineBreaks classes
        tally := ClassFile.tallyOf (outlinesFrom options past.lineBreaks classes) } := by
  induction classes generalizing past with
  | nil => rfl
  | cons placed classes hypothesis =>
    obtain ⟨readyBehind, separatedLater⟩ := separated.of_cons
    have first := ClassModel.ofBlocks_block options (.inr virtualBarred) placed.shown
      (ready (List.cons_ne_nil _ _))
    have later := @hypothesis (placed.text.reverse ++ past)
      (fun notEmpty => readyBehind notEmpty past) separatedLater
    have lineOfFirst : Text.lineBreaks (placed.model.templateLine.reverse ++ past) =
        past.lineBreaks + placed.model.templateLine.lineBreaks := by
      rw [Text.lineBreaks_append, Text.lineBreaks_reverse, Nat.add_comm]
    have lineLater : Text.lineBreaks (placed.text.reverse ++ past) =
        past.lineBreaks + placed.text.lineBreaks := by
      rw [Text.lineBreaks_append, Text.lineBreaks_reverse, Nat.add_comm]
    rw [blocksBehind, Scan.ofBlocks_cons, blockBehind, first, later, lineOfFirst, lineLater,
      outlinesFrom]
    apply Scan.ext
    · rfl
    · ext <;> simp [ClassModel.scanIn, ClassModel.outlineIn, ClassFile.tallyOf, Nat.add_comm]

/-! ## Texts made of classes -/

/-- Behind blanks at the start of a text a class may be written. -/
theorem ready_leading
    {leading : Text}
    (isGap : ∀ character ∈ leading, Reserved.isGapCharacter character = true) :
    Ready leading.reverse := by
  have isGapReversed : ∀ character ∈ leading.reverse, Reserved.isGapCharacter character = true :=
    fun character member => isGap character (List.mem_reverse.mp member)
  have allBlank : leading.reverse.dropWhile Text.isBlank = [] :=
    List.dropWhile_eq_nil_iff.mpr fun character member =>
      Reserved.isBlank_of_isAsciiBlank
        (Reserved.isAsciiBlank_of_isGapCharacter (isGapReversed character member))
  refine Ready.of_head? ?_ (by simp [allBlank])
  cases shape : leading.reverse with
  | nil => rfl
  | cons first rest =>
    rw [shape] at isGapReversed
    simpa using Reserved.isDelimiter_of_isGapCharacter (isGapReversed first List.mem_cons_self)

theorem calm_gap
    {gap : Text}
    (isGap : ∀ character ∈ gap, Reserved.isGapCharacter character = true) :
    Block.Calm gap ∧ Block.Braceless gap :=
  ⟨Block.calm_of_foreign fun character member _ isWord =>
      Block.not_mem_of_isDelimiter isWord
        (Reserved.isDelimiter_of_isGapCharacter (isGap character member)),
    fun character member => Reserved.braceless_of_isGapCharacter (isGap character member)⟩

/-- The end of a class and blanks behind it begin no declaration either. -/
theorem calm_semicolon_gap
    {gap : Text}
    (isGap : ∀ character ∈ gap, Reserved.isGapCharacter character = true) :
    Block.Calm (';' :: gap) ∧ Block.Braceless (';' :: gap) := by
  have semicolon : Block.Calm [';'] ∧ Block.Braceless [';'] :=
    ⟨Block.calm_of_foreign (by decide), by decide⟩
  obtain ⟨calm, braceless⟩ := calm_gap isGap
  exact ⟨semicolon.1.append calm, semicolon.2.append braceless⟩

/-- The scan of a text that is made of classes, with blanks in front of the first. -/
theorem ofSource_classes
    {leading : Text}
    {classes : List (PlacedClass barred)}
    (options : ScanOptions)
    (virtualBarred : "virtual".toList ∈ barred)
    (isGap : ∀ character ∈ leading, Reserved.isGapCharacter character = true)
    (separated : Separated classes)
    (visible : Mask.visible (leading ++ classes.flatMap text) = leading ++ classes.flatMap text) :
    Scan.ofSource options (leading ++ classes.flatMap text) =
      { outlines := outlinesFrom options leading.lineBreaks classes
        tally := ClassFile.tallyOf (outlinesFrom options leading.lineBreaks classes) } := by
  have blocks : Block.ofText (leading ++ classes.flatMap text) =
      blocksBehind leading.reverse classes := by
    rw [Block.ofText_eq_blocksAfter, Block.blocksAfter_append _ (calm_gap isGap).1,
      List.append_nil, blocksAfter_classes separated]
  rw [Scan.ofSource_eq_ofBlocks, visible, blocks,
    ofBlocks_blocksBehind options virtualBarred (fun _ => ready_leading isGap) separated,
    Text.lineBreaks_reverse]

end PlacedClass

end ClassOutline.Written
