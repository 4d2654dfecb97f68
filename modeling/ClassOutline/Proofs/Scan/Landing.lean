import ClassOutline.Proofs.Code.Insertions
import ClassOutline.Proofs.Scan.LineRange
import ClassOutline.Proofs.Text.Append
/-!
# Where inserted code lands

An insertion names a line, so the code for the body of a class goes to the start of the line on
which the block of the class ends, and the code for behind the class goes behind that line.
Whatever shares the line with the closing brace, the definitions land behind the brace and the
source keeps its order.

The start of that line lies in the body exactly if the body has a line feed.  Without one, the code
lands at the start of the line on which the body opens, in front of its brace and, if the class
begins on the same line, in front of the class.
-/

namespace ClassOutline

namespace Block

/-- The stretch of a block is the only one that goes up to the end of the block. -/
theorem StandsAt.append_eq
    {block : Block}
    {source before stretch behind front rest : Text}
    (standsAt : block.StandsAt source before stretch behind)
    (shape : source = front ++ rest)
    (closing : front.width = block.offset + block.text.width) :
    before ++ stretch = front ∧ behind = rest := by
  refine Text.append_inj_of_width ?_ (standsAt.width_append.trans closing.symm)
  rw [List.append_assoc, ← standsAt.shape, shape]

/-! ## The line on which a block ends -/

/-- The line on which a block ends, up to the end of the block, as it stands in the source. -/
structure HasLastLine (block : Block) (source above line behind : Text) : Prop where
  shape : source = above ++ (line ++ behind)
  wholeLines : above.WholeLines
  noBreak : '\n' ∉ line
  notEmpty : line ≠ []
  /-- The line goes up to the end of the block. -/
  closing : (above ++ line).width = block.offset + block.text.width
  lineBreaks_above : above.lineBreaks = block.past.lineBreaks + block.text.lineBreaks

/-- A block ends with a character of the source that is no blank, so it does not end a line. -/
theorem exists_hasLastLine
    {source : Text}
    {block : Block}
    (isBlock : block ∈ ofText (Mask.visible source)) :
    ∃ above line behind, block.HasLastLine source above line behind := by
  obtain ⟨before, stretch, behind, standsAt⟩ := exists_standsAt isBlock
  obtain ⟨last, isLast, notBlank⟩ := (isStretchOf_of_mem_ofText _ block isBlock).ends
  obtain ⟨start, textShape⟩ := List.getLast?_eq_some_iff.mp isLast
  have blanks : Text.isBlank ' ' = true ∧ Text.isBlank '\n' = true := by decide
  have noSpace : last ≠ ' ' := by
    rintro rfl
    simp [blanks] at notBlank
  have isNoBreak : '\n' ≠ last := by
    rintro rfl
    simp [blanks] at notBlank
  have hides := standsAt.hides
  rw [textShape] at hides
  obtain ⟨front, rfl, -⟩ := hides.exists_concat noSpace
  obtain ⟨whole, line, frontShape, wholeLines, noBreak⟩ :=
    Text.exists_wholeLines_append (before ++ front)
  have noBreakLine : '\n' ∉ line ++ [last] := by simp [noBreak, isNoBreak]
  have shape : before ++ (front ++ [last]) = whole ++ (line ++ [last]) := by
    rw [← List.append_assoc, frontShape, List.append_assoc]
  refine ⟨whole, line ++ [last], behind, ?_, wholeLines, noBreakLine, by simp, ?_, ?_⟩
  · rw [standsAt.shape, ← List.append_assoc, shape, List.append_assoc]
  · rw [← shape, standsAt.width_append]
  · have lineBreaks : (line ++ [last]).lineBreaks = 0 := List.count_eq_zero.mpr noBreakLine
    rw [← standsAt.lineBreaks_append, shape, Text.lineBreaks_append, lineBreaks, Nat.add_zero]

/-! ## The body of a block -/

/-- The block ends with a brace, and the texts stand around its first opening brace. -/
structure Encloses (block : Block) (head body : Text) : Prop where
  shape : block.text = head ++ '{' :: (body ++ ['}'])
  noBrace : '{' ∉ head

/-- A line feed stands between the first opening brace of a block and the brace it ends with. -/
def BodyAcrossLines (block : Block) : Prop :=
  ∃ head body, block.Encloses head body ∧ '\n' ∈ body

/--
The body of a block as it stands in the source.  It opens at the first opening brace of the block
and closes at the end of the block; both places are byte offsets, which hiding does not move.
-/
structure HasBody (block : Block) (source front body behind : Text) : Prop where
  /-- The body stands between two braces. -/
  shape : source = front ++ '{' :: (body ++ '}' :: behind)
  /-- The first one is the first opening brace of the block. -/
  opening : front.width = block.offset + Text.width (block.text.takeWhile (· ≠ '{'))
  /-- The other one ends the block. -/
  closing : (front ++ '{' :: (body ++ ['}'])).width = block.offset + block.text.width

section Body

variable {block : Block} {source : Text}

/-- The last line of a block is that of its closing brace. -/
theorem HasBody.append_eq
    {front body behind above line rest : Text}
    (hasBody : block.HasBody source front body behind)
    (hasLastLine : block.HasLastLine source above line rest) :
    above ++ line = front ++ '{' :: (body ++ ['}']) ∧ rest = behind := by
  refine Text.append_inj_of_width ?_ (hasLastLine.closing.trans hasBody.closing.symm)
  have same := hasLastLine.shape.symm.trans hasBody.shape
  simpa using same

/-- The body that a block encloses stands in the source, with as many line feeds. -/
theorem exists_hasBody
    {head body : Text}
    (isBlock : block ∈ ofText (Mask.visible source))
    (encloses : block.Encloses head body) :
    ∃ front inside behind,
      block.HasBody source front inside behind ∧ inside.lineBreaks = body.lineBreaks := by
  obtain ⟨before, stretch, behind, standsAt⟩ := exists_standsAt isBlock
  have hides := standsAt.hides
  rw [encloses.shape] at hides
  obtain ⟨front, later, rfl, hidesHead, hidesLater⟩ := hides.exists_cut (by decide)
  obtain ⟨inside, rfl, hidesBody⟩ := hidesLater.exists_concat (by decide)
  refine ⟨before ++ front, inside, behind, ⟨?_, ?_, ?_⟩, hidesBody.lineBreaks_eq⟩
  · simp [standsAt.shape]
  · rw [encloses.shape, Text.takeWhile_append_cons encloses.noBrace, Text.width_append,
      standsAt.width_before, hidesHead.width_eq]
  · rw [List.append_assoc, standsAt.width_append]

/-- A body in the source is one that the block encloses, with as many line feeds. -/
theorem HasBody.exists_encloses
    {front inside behind : Text}
    (isBlock : block ∈ ofText (Mask.visible source))
    (hasBody : block.HasBody source front inside behind) :
    ∃ head body, block.Encloses head body ∧ inside.lineBreaks = body.lineBreaks := by
  obtain ⟨before, stretch, rest, standsAt⟩ := exists_standsAt isBlock
  obtain ⟨same, -⟩ := standsAt.append_eq (by simpa using hasBody.shape) hasBody.closing
  have opening := hasBody.opening
  have opens : '{' ∈ block.text := by
    by_contra noBrace
    have whole : block.text.takeWhile (· ≠ '{') = block.text :=
      List.takeWhile_eq_self_iff.mpr fun character member => by
        simpa using ne_of_mem_of_not_mem member noBrace
    have closing := hasBody.closing
    have positive := '{'.utf8Size_pos
    rw [Text.width_append, Text.width_cons] at closing
    rw [whole] at opening
    omega
  obtain ⟨head, later, textShape, noBrace⟩ := List.eq_append_cons_of_mem opens
  rw [textShape, Text.takeWhile_append_cons noBrace] at opening
  -- The stretch is cut at the same brace, and the rest of it ends with the closing one.
  have hides := standsAt.hides
  rw [textShape] at hides
  obtain ⟨stretchFront, stretchLater, rfl, hidesHead, hidesLater⟩ := hides.exists_cut (by decide)
  have sameWidth : (before ++ stretchFront).width = front.width := by
    rw [Text.width_append, standsAt.width_before, hidesHead.width_eq, opening]
  rw [← List.append_assoc] at same
  obtain ⟨-, sameLater⟩ := Text.append_inj_of_width same sameWidth
  obtain rfl := (List.cons.inj sameLater).2
  obtain ⟨last, isLast, notBlank⟩ := (isStretchOf_of_mem_ofText _ block isBlock).ends
  rcases List.eq_nil_or_concat later with rfl | ⟨body, final, rfl⟩
  · simpa using hidesLater.eq_nil
  · rw [List.concat_eq_append] at hidesLater textShape
    rw [textShape, ← List.cons_append, ← List.append_assoc, List.getLast?_concat] at isLast
    obtain rfl := Option.some.inj isLast
    have noSpace : final ≠ ' ' := by
      rintro rfl
      exact absurd notBlank (by decide)
    obtain ⟨stretchBody, sameBody, hidesBody⟩ := hidesLater.exists_concat noSpace
    obtain ⟨rfl, sameLast⟩ := List.append_inj' sameBody rfl
    obtain rfl := List.singleton_inj.mp sameLast
    exact ⟨head, body, ⟨textShape, noBrace⟩, hidesBody.lineBreaks_eq⟩

end Body

end Block

/-! ## Where the code lands -/

namespace GeneratedCode

/--
The code has been put around the line on which a block ends: its text for the body at the start of
the line, its definitions behind the line.  The source keeps its order.
-/
def SurroundsLastLine (code : GeneratedCode) (block : Block) (source result : Text) : Prop :=
  ∃ above line below,
    source = above ++ (line ++ below) ∧
      result = above ++ code.inner ++ (line ++ (code.outer ++ below)) ∧
        (above.WholeLines ∧ Text.IsLineBefore below line) ∧
          above.width < block.offset + block.text.width ∧
            block.offset + block.text.width ≤ (above ++ line).width

/--
The code has been put where it belongs: its text for the body between the braces of a block, its
definitions behind them.  The source keeps its order.
-/
def LandsInBody (code : GeneratedCode) (block : Block) (source result : Text) : Prop :=
  ∃ front before after left right,
    block.HasBody source front (before ++ after) (left ++ right) ∧
      result =
        front ++ '{' :: (before ++ code.inner ++ after ++ '}' :: (left ++ code.outer ++ right))

theorem exists_inner_eq (code : GeneratedCode) : ∃ rest, code.inner = '\n' :: rest := by
  cases code with
  | inside text => exact ⟨_, rfl⟩
  | apart declaration definition => exact ⟨_, rfl⟩

section LastLine

variable {block : Block} {outline : Outline} {source above line behind : Text}

/-- The insertions put the code around the line on which the block ends. -/
theorem exists_applyTo_insertions
    (code : GeneratedCode)
    (hasLastLine : block.HasLastLine source above line behind)
    (isEndLine : above.lineBreaks = outline.endLine) :
    ∃ left right,
      behind = left ++ right ∧
        Text.IsLineBefore right (line ++ left) ∧
          (code.insertions outline).foldl Insertion.applyTo source =
            above ++ code.inner ++ (line ++ left ++ (code.outer ++ right)) := by
  obtain ⟨left, right, rfl, isLine⟩ := Text.exists_isLineBefore behind
  have isWholeLine := isLine.append hasLastLine.noBreak
  have applied := code.applyTo_insertions hasLastLine.wholeLines isEndLine isWholeLine
  refine ⟨left, right, rfl, isWholeLine, ?_⟩
  rw [← applied, hasLastLine.shape, List.append_assoc line]

/-- In a body with a line feed, the last line of the block begins behind the opening brace. -/
theorem landsInBody_of_newline
    {front body rest : Text}
    (code : GeneratedCode)
    (hasLastLine : block.HasLastLine source above line behind)
    (isEndLine : above.lineBreaks = outline.endLine)
    (hasBody : block.HasBody source front body rest)
    (hasBreak : '\n' ∈ body) :
    code.LandsInBody block source ((code.insertions outline).foldl Insertion.applyTo source) := by
  obtain ⟨same, rfl⟩ := hasBody.append_eq hasLastLine
  obtain ⟨left, right, rfl, -, result⟩ := code.exists_applyTo_insertions hasLastLine isEndLine
  obtain ⟨whole, after, rfl, wholeLines, noBreak⟩ := Text.exists_wholeLines_append body
  rcases wholeLines.eq_nil_or with rfl | ⟨start, rfl⟩
  · exact absurd hasBreak (by simpa using noBreak)
  · -- The body up to its last line feed ends the lines above the last one of the block.
    have cut : above ++ line =
        (front ++ '{' :: start ++ ['\n']) ++ (after ++ ['}']) := by
      simp [same]
    obtain ⟨rfl, rfl⟩ := Text.append_inj_of_wholeLines cut hasLastLine.wholeLines
      hasLastLine.noBreak (Text.wholeLines_append_newline _) (by simpa using noBreak)
    refine ⟨front, start ++ ['\n'], after, left, right, hasBody, ?_⟩
    rw [result]
    simp

/-- Without a line feed in the body, the code lands in front of the brace that opens it. -/
theorem newline_mem_of_landsInBody
    {code : GeneratedCode}
    (hasLastLine : block.HasLastLine source above line behind)
    (isEndLine : above.lineBreaks = outline.endLine)
    (lands : code.LandsInBody block source
      ((code.insertions outline).foldl Insertion.applyTo source)) :
    ∃ front body rest, block.HasBody source front body rest ∧ '\n' ∈ body := by
  obtain ⟨front, before, after, left, right, hasBody, result⟩ := lands
  refine ⟨front, before ++ after, left ++ right, hasBody, ?_⟩
  by_contra noBreak
  obtain ⟨same, -⟩ := hasBody.append_eq hasLastLine
  obtain ⟨_, _, _, _, put⟩ := code.exists_applyTo_insertions hasLastLine isEndLine
  obtain ⟨whole, start, rfl, wholeLines, noBreakStart⟩ := Text.exists_wholeLines_append front
  have noBreakLine : '\n' ∉ start ++ '{' :: (before ++ after ++ ['}']) := by
    simpa [noBreakStart] using noBreak
  obtain ⟨rfl, -⟩ := Text.append_inj_of_wholeLines
    (same.trans (List.append_assoc _ _ _)) hasLastLine.wholeLines hasLastLine.noBreak wholeLines
    noBreakLine
  -- The code begins with a line feed, and the line in front of the brace has none.
  obtain ⟨rest, innerShape⟩ := code.exists_inner_eq
  rw [put, innerShape, List.append_assoc above start, List.append_assoc above] at result
  have behindAbove := List.append_cancel_left result
  cases start with
  | nil => simp at behindAbove
  | cons first start =>
    obtain ⟨rfl, -⟩ := List.cons.inj behindAbove
    exact noBreakStart List.mem_cons_self

end LastLine

end GeneratedCode

namespace Scan

section Outline

variable {options : ScanOptions} {source : Text} {block : Block} {outline : Outline}

/-- The last line of a block is the one on which its outline ends. -/
theorem lineBreaks_eq_endLine
    {above line behind : Text}
    (hasLastLine : block.HasLastLine source above line behind)
    (found : outlineOfBlock? options block = some outline) :
    above.lineBreaks = outline.endLine := by
  rw [hasLastLine.lineBreaks_above, (lines_of_outlineOfBlock? found).2]

theorem bodyAcrossLines_of_landsInBody
    {code : GeneratedCode}
    (isBlock : block ∈ Block.ofText (Mask.visible source))
    (found : outlineOfBlock? options block = some outline)
    (lands : code.LandsInBody block source
      ((code.insertions outline).foldl Insertion.applyTo source)) :
    block.BodyAcrossLines := by
  obtain ⟨above, line, behind, hasLastLine⟩ := Block.exists_hasLastLine isBlock
  have isEndLine := lineBreaks_eq_endLine hasLastLine found
  obtain ⟨front, inside, rest, hasBody, hasBreak⟩ :=
    GeneratedCode.newline_mem_of_landsInBody hasLastLine isEndLine lands
  obtain ⟨head, body, encloses, sameBreaks⟩ := hasBody.exists_encloses isBlock
  have positive : 0 < inside.lineBreaks := List.count_pos_iff.mpr hasBreak
  rw [sameBreaks] at positive
  exact ⟨head, body, encloses, List.count_pos_iff.mp positive⟩

/--
The insertions of code put its two texts around the line on which the block of the class ends.  The
text for the body lands in the body, and the definitions behind it, exactly if the body goes across
lines.
-/
theorem landsInBody_insertions_iff
    (isBlock : block ∈ Block.ofText (Mask.visible source))
    (found : outlineOfBlock? options block = some outline)
    (code : GeneratedCode) :
    code.SurroundsLastLine block source
        ((code.insertions outline).foldl Insertion.applyTo source) ∧
      (code.LandsInBody block source
          ((code.insertions outline).foldl Insertion.applyTo source) ↔
        block.BodyAcrossLines) := by
  obtain ⟨above, line, behind, hasLastLine⟩ := Block.exists_hasLastLine isBlock
  have isEndLine := lineBreaks_eq_endLine hasLastLine found
  refine ⟨?_, bodyAcrossLines_of_landsInBody isBlock found, ?_⟩
  · obtain ⟨left, right, rfl, isLine, result⟩ :=
      code.exists_applyTo_insertions hasLastLine isEndLine
    have positive : line.width ≠ 0 := fun noWidth =>
      hasLastLine.notEmpty (Text.eq_nil_of_width noWidth)
    have closing := hasLastLine.closing
    refine ⟨above, line ++ left, right, ?_, result, ⟨hasLastLine.wholeLines, isLine⟩, ?_, ?_⟩
    · rw [hasLastLine.shape, List.append_assoc line]
    · rw [Text.width_append] at closing
      omega
    · rw [← closing, ← List.append_assoc, Text.width_append _ left]
      exact Nat.le_add_right _ _
  · rintro ⟨head, body, encloses, hasBreak⟩
    obtain ⟨front, inside, rest, hasBody, sameBreaks⟩ := Block.exists_hasBody isBlock encloses
    have positive : 0 < body.lineBreaks := List.count_pos_iff.mpr hasBreak
    rw [← sameBreaks] at positive
    exact code.landsInBody_of_newline hasLastLine isEndLine hasBody
      (List.count_pos_iff.mp positive)

end Outline

/-- A class with a brace in a comment, whose last member shares the line of the closing brace. -/
def classOnTwoLines : Text :=
  "struct A /* \x7b */ \x7b int x;\n int y; \x7d; int z;".toList

/-- The block of the class on two lines. -/
def blockOnTwoLines : Block :=
  { past := [], text := "struct A         \x7b int x;\n int y; \x7d".toList }

/-- The outline of the class on two lines. -/
def outlineOnTwoLines : Outline :=
  { name := ['A']
    members :=
      [{ name := ['x'], declaredType := "int".toList, byValue := true },
        { name := ['y'], declaredType := "int".toList, byValue := true }]
    startLine := 0
    endLine := 1 }

/-- A function that is declared in a class and defined behind it. -/
def declaredFunction : GeneratedCode :=
  .apart "\tvoid f();\n".toList "\nvoid A::f() \x7b\x7d\n".toList

theorem landsInBody_insertions_classOnTwoLines :
    blockOnTwoLines ∈ Block.ofText (Mask.visible classOnTwoLines) ∧
      outlineOfBlock? {} blockOnTwoLines = some outlineOnTwoLines ∧
        blockOnTwoLines.BodyAcrossLines ∧
          declaredFunction.LandsInBody blockOnTwoLines classOnTwoLines
            ((declaredFunction.insertions outlineOnTwoLines).foldl Insertion.applyTo
              classOnTwoLines) := by
  have isBlock : blockOnTwoLines ∈ Block.ofText (Mask.visible classOnTwoLines) := by decide
  have found : outlineOfBlock? {} blockOnTwoLines = some outlineOnTwoLines := by decide
  have encloses : blockOnTwoLines.Encloses "struct A         ".toList " int x;\n int y; ".toList :=
    ⟨by decide, by decide⟩
  have across : blockOnTwoLines.BodyAcrossLines := ⟨_, _, encloses, by decide⟩
  exact
    ⟨isBlock, found, across, (landsInBody_insertions_iff isBlock found declaredFunction).2.mpr across⟩

/-- A class with braces in the name of its base. -/
def bracedBase : Text :=
  "struct A : B<C\x7b\x7d> \x7b\nint x;\n\x7d;\n".toList

/-- The block of that class: it ends with the braces of the base. -/
def blockOfBracedBase : Block :=
  { past := [], text := "struct A : B<C\x7b\x7d".toList }

/-- The outline of that class. -/
def outlineOfBracedBase : Outline :=
  { name := ['A'], bases := [{ name := "B<C".toList }], startLine := 0, endLine := 0 }

/-- A function that is defined in a class. -/
def definedFunction : GeneratedCode :=
  .inside "\n\texplicit operator bool() const \x7b return true; \x7d\n".toList

/-- The body that is found has no line feed, and the code lands in front of the class. -/
theorem not_landsInBody_bracedBase :
    blockOfBracedBase ∈ Block.ofText (Mask.visible bracedBase) ∧
      outlineOfBlock? {} blockOfBracedBase = some outlineOfBracedBase ∧
        Block.braces blockOfBracedBase.text = 0 ∧
          (definedFunction.insertions outlineOfBracedBase).foldl Insertion.applyTo bracedBase =
              definedFunction.inner ++ bracedBase ∧
            ¬ definedFunction.LandsInBody blockOfBracedBase bracedBase
              ((definedFunction.insertions outlineOfBracedBase).foldl Insertion.applyTo
                bracedBase) := by
  have isBlock : blockOfBracedBase ∈ Block.ofText (Mask.visible bracedBase) := by decide
  have found : outlineOfBlock? {} blockOfBracedBase = some outlineOfBracedBase := by decide
  have noBreak : '\n' ∉ blockOfBracedBase.text := by decide
  refine ⟨isBlock, found, by decide, by decide, fun lands => noBreak ?_⟩
  obtain ⟨head, body, encloses, hasBreak⟩ := bodyAcrossLines_of_landsInBody isBlock found lands
  rw [encloses.shape]
  simp [hasBreak]

end Scan

end ClassOutline
