import ClassOutline.Proofs.ClassHead.TemplateClause
import ClassOutline.Proofs.Mask.Geometry
import ClassOutline.Proofs.Mask.Seam
import ClassOutline.Proofs.Scan.Blocks
/-!
# Scanning two sources as one

Two sources may be scanned as one if nothing leaks across the seam between them: the first closes
its comments, strings and braces and ends a statement, and the second begins with a declaration, or
at least with no brace in front of the first one.  The outlines of the second then lie further
down by the lines of the first, and all counts add up.
-/

namespace ClassOutline

/-- The outline of the same class further down. -/
def Outline.moveDown (lines : Nat) (outline : Outline) : Outline :=
  { outline with
    startLine := outline.startLine + lines
    endLine := outline.endLine + lines }

/-- The head of the same class further down. -/
def ClassHead.moveDown (lines : Nat) (head : ClassHead) : ClassHead :=
  { head with
    startLine := head.startLine + lines
    endLine := head.endLine + lines }

/-- The head of a block behind another text is the same further down. -/
theorem ClassHead.ofBlock_behind
    {earlier : Text}
    {block : Block}
    (sameClause : templateClauseOf (block.behind earlier) = templateClauseOf block) :
    ofBlock (block.behind earlier) = (ofBlock block).map (moveDown earlier.lineBreaks) := by
  have sameText : (block.behind earlier).text = block.text := rfl
  have further : (block.behind earlier).past.lineBreaks =
      block.past.lineBreaks + earlier.lineBreaks := by
    simp [Block.behind, Text.lineBreaks]
  rw [ofBlock_eq, ofBlock_eq, sameText]
  split
  · simp only [Except.map, ofParts, moveDown, sameClause, sameText, further, Except.ok.injEq,
      ClassHead.mk.injEq, true_and]
    omega
  · rfl

namespace Scan

/-- The scan of the same declarations further down. -/
def moveDown (lines : Nat) (scan : Scan) : Scan :=
  { scan with outlines := scan.outlines.map (Outline.moveDown lines) }

theorem moveDown_append
    (lines : Nat)
    (left right : Scan) :
    (left ++ right).moveDown lines = left.moveDown lines ++ right.moveDown lines := by
  apply ext
  · exact List.map_append
  · rfl

theorem outlineOf_moveDown
    (options : ScanOptions)
    (lines : Nat)
    (head : ClassHead)
    (body : Body) :
    outlineOf options (head.moveDown lines) body = (outlineOf options head body).moveDown lines := by
  simp [outlineOf, Outline.onLines, ClassHead.moveDown, Outline.moveDown, Nat.add_max_add_right]

/-- Blocks behind another text give the same further down. -/
theorem ofBlocks_behind
    (options : ScanOptions)
    {earlier : Text}
    (sameClause : ∀ block : Block,
      ClassHead.templateClauseOf (block.behind earlier) = ClassHead.templateClauseOf block)
    (blocks : List Block) :
    ofBlocks options (blocks.map (Block.behind earlier)) =
      (ofBlocks options blocks).moveDown earlier.lineBreaks := by
  induction blocks with
  | nil => rfl
  | cons block blocks hypothesis =>
    have single : ofBlocks options [block.behind earlier] =
        (ofBlocks options [block]).moveDown earlier.lineBreaks := by
      simp only [ofBlocks, List.foldl_cons, List.foldl_nil, addBlock,
        ClassHead.ofBlock_behind (sameClause block)]
      cases ClassHead.ofBlock block with
      | error failure => rfl
      | ok head =>
        simp [Except.map, add, moveDown, outlineOf_moveDown, Block.behind, Outline.moveDown]
    rw [List.map_cons, ofBlocks_cons, ofBlocks_cons options block, single, hypothesis,
      moveDown_append]

/-- The conditions under which two sources may be scanned as one. -/
structure Seam (front behind : Text) : Prop where
  /-- The first source ends with a line. -/
  endsLine : front.getLast? = some '\n'
  /-- The first source closes its comments and strings. -/
  commentsClosed : Mask.CommentsClosed front
  /-- What is visible of the first source is blank or ends a statement. -/
  endsStatement : ClassHead.EndsStatement (Mask.visible front).reverse
  /-- From its first declaring word on, the first source closes the braces that it opens. -/
  bracesClosed :
    (Block.fromWord (Mask.visible front)).count '{' =
      (Block.fromWord (Mask.visible front)).count '}'
  /-- In front of its first declaration, the second source opens no brace. -/
  beginsFreely : Block.BeginsFreely (Mask.visible behind)

theorem ofText_visible_append
    {front behind : Text}
    (seam : Seam front behind) :
    ∃ earlier : Text,
      earlier.lineBreaks = front.lineBreaks ∧
        (∀ block : Block,
          ClassHead.templateClauseOf (block.behind earlier) = ClassHead.templateClauseOf block) ∧
          Block.ofText (Mask.visible (front ++ behind)) =
            Block.ofText (Mask.visible front) ++
              (Block.ofText (Mask.visible behind)).map (Block.behind earlier) := by
  obtain ⟨endsLine, commentsClosed, endsStatement, bracesClosed, beginsFreely⟩ := seam
  obtain ⟨lines, rfl⟩ := List.getLast?_eq_some_iff.mp endsLine
  obtain ⟨shown, shownShape⟩ := Mask.exists_visible_eq lines
  have sameLines := (Mask.hides_visible (lines ++ ['\n'])).lineBreaks_eq
  have newlineBlank : Text.isBlank '\n' = true := by decide
  rw [shownShape] at endsStatement bracesClosed sameLines
  rw [List.reverse_append, List.reverse_singleton, List.singleton_append,
    ClassHead.EndsStatement, List.dropWhile_cons_of_pos newlineBlank] at endsStatement
  refine ⟨'\n' :: shown.reverse, ?_, ClassHead.templateClauseOf_behind endsStatement, ?_⟩
  · rw [sameLines]
    simp [Text.lineBreaks]
  · have closes : Block.braces (Block.fromWord (shown ++ ['\n'])) = 0 := by
      rw [Block.braces_eq_count_sub_count, bracesClosed, Int.sub_self]
    rw [List.append_assoc, List.singleton_append, Mask.visible_append commentsClosed, shownShape,
      List.append_assoc, List.singleton_append]
    have endsLine : ClassHead.EndsStatement (['\n'] ++ shown.reverse) :=
      ClassHead.EndsStatement.append_blank endsStatement (by decide)
    exact Block.ofText_line closes beginsFreely (endsLine.fresh rfl)

/--
Two sources scanned as one give the outlines of the first, followed by those of the second further
down, and the sum of the counts.
-/
theorem ofSource_append
    (options : ScanOptions)
    {front behind : Text}
    (seam : Seam front behind) :
    ofSource options (front ++ behind) =
      ofSource options front ++ (ofSource options behind).moveDown front.lineBreaks := by
  obtain ⟨earlier, sameLines, sameClause, blocks⟩ := ofText_visible_append seam
  rw [ofSource_eq_ofBlocks, ofSource_eq_ofBlocks, ofSource_eq_ofBlocks, blocks, ofBlocks_append,
    ofBlocks_behind options sameClause, sameLines]

/-- A class with a comment, and a class template scanned behind it. -/
theorem ofSource_append_template :
    let front := "class A \x7b\n  int x; // \x7b\n\x7d;\n".toList
    let behind := "template <typename T>\nclass B \x7b\n\x7d;\n".toList
    Seam front behind ∧
      ofSource {} (front ++ behind) = ofSource {} front ++ (ofSource {} behind).moveDown 3 := by
  have seam : Seam "class A \x7b\n  int x; // \x7b\n\x7d;\n".toList
      "template <typename T>\nclass B \x7b\n\x7d;\n".toList :=
    { endsLine := by decide
      commentsClosed := by decide
      endsStatement := by decide
      bracesClosed := by decide
      beginsFreely := by decide }
  exact ⟨seam, ofSource_append {} seam⟩

end Scan

end ClassOutline
