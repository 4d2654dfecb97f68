import ClassOutline.Proofs.Block.Extent
import ClassOutline.Proofs.Mask.Geometry
import ClassOutline.Proofs.Scan.Blocks
import Mathlib.Data.List.Forall2
/-!
# Line ranges

The lines of an outline are lines of the source itself, in which nothing is hidden.  Each outline
has a stretch of the source, from a declaring word to the end of its block, such that its lines are
those of the stretch.  The stretches follow each other without overlapping.
-/

namespace ClassOutline

/--
The outline describes the source between two byte offsets: a declaring word stands at the first,
and the lines of the outline are the lines between them.
-/
structure Outline.LiesAt (outline : Outline) (source : Text) (extent : Nat × Nat) : Prop where
  /-- The stretch is not empty. -/
  notEmpty : extent.1 < extent.2
  /-- The stretch begins with a declaring word, and its lines are those of the outline. -/
  cuts :
    ∃ before stretch after,
      source = before ++ stretch ++ after ∧
        before.width = extent.1 ∧
          (before ++ stretch).width = extent.2 ∧
            (∃ word ∈ Block.declarationWords, word <+: stretch) ∧
              outline.startLine = before.lineBreaks ∧
                outline.endLine = outline.startLine + stretch.lineBreaks

namespace Outline.LiesAt

variable {outline : Outline} {source : Text} {extent : Nat × Nat}

theorem startLine_le_endLine (liesAt : outline.LiesAt source extent) :
    outline.startLine ≤ outline.endLine := by
  obtain ⟨before, stretch, after, -, -, -, -, -, endLine⟩ := liesAt.cuts
  omega

theorem endLine_le_lineBreaks (liesAt : outline.LiesAt source extent) :
    outline.endLine ≤ source.lineBreaks := by
  obtain ⟨before, stretch, after, shape, -, -, -, startLine, endLine⟩ := liesAt.cuts
  rw [shape, Text.lineBreaks_append, Text.lineBreaks_append]
  omega

end Outline.LiesAt

/-! ## The stretch of the source that a block is cut from -/

namespace Block

/-- The stretch of the source that shows the text of a block. -/
structure StandsAt (block : Block) (source before stretch behind : Text) : Prop where
  shape : source = before ++ (stretch ++ behind)
  /-- The text in front of the block arises from that of the source by hiding characters. -/
  hidesBefore : Mask.Hides before block.above
  /-- The text of the block arises from the stretch by hiding characters. -/
  hides : Mask.Hides stretch block.text
  begins : ∃ word ∈ declarationWords, word <+: stretch

/-- A block of the visible text is a stretch of the source, too. -/
theorem exists_standsAt
    {source : Text}
    {block : Block}
    (isBlock : block ∈ ofText (Mask.visible source)) :
    ∃ before stretch behind, block.StandsAt source before stretch behind := by
  have isStretch := isStretchOf_of_mem_ofText _ block isBlock
  obtain ⟨rest, visibleShape⟩ := isStretch.isPrefix
  obtain ⟨word, isWord, later, textShape⟩ := isStretch.begins
  obtain ⟨last, isLast, notBlank⟩ := isStretch.ends
  have wordNotEmpty := declarationWord_ne_nil word isWord
  have wordsNoSpace : ∀ word ∈ declarationWords, ∀ character ∈ word, character ≠ ' ' := by
    decide
  have noSpace := wordsNoSpace word isWord
  have lastNoSpace : last ≠ ' ' := by
    rintro rfl
    exact absurd notBlank (by decide)
  have hides := Mask.hides_visible source
  rw [← visibleShape] at hides
  -- The source is cut behind the last character of the block, then in front of its first one.
  have endsWithLast : last ∈ (block.above ++ block.text).getLast? := by
    obtain ⟨start, textEnd⟩ := List.getLast?_eq_some_iff.mp isLast
    simp [textEnd]
  obtain ⟨front, behind, rfl, hidesFront, -⟩ := hides.exists_cut_behind endsWithLast lastNoSpace
  obtain ⟨first, tail, rfl⟩ := List.exists_cons_of_ne_nil wordNotEmpty
  rw [← textShape, List.cons_append] at hidesFront
  obtain ⟨before, stretch, rfl, hidesBefore, hidesStretch⟩ :=
    hidesFront.exists_cut_before (noSpace first List.mem_cons_self)
  rw [← List.cons_append] at hidesStretch
  obtain ⟨stretchRest, stretchShape, -⟩ := hidesStretch.exists_eq_append noSpace
  rw [textShape] at hidesStretch
  exact
    ⟨before, stretch, behind, List.append_assoc _ _ _, hidesBefore, hidesStretch, first :: tail,
      isWord, stretchRest, stretchShape.symm⟩

namespace StandsAt

variable {block : Block} {source before stretch behind : Text}

theorem width_before (standsAt : block.StandsAt source before stretch behind) :
    before.width = block.offset := by
  rw [standsAt.hidesBefore.width_eq, offset_eq_width_above]

theorem lineBreaks_before (standsAt : block.StandsAt source before stretch behind) :
    before.lineBreaks = block.past.lineBreaks := by
  rw [standsAt.hidesBefore.lineBreaks_eq, above, Text.lineBreaks_reverse]

theorem width_append (standsAt : block.StandsAt source before stretch behind) :
    (before ++ stretch).width = block.offset + block.text.width := by
  rw [Text.width_append, standsAt.width_before, standsAt.hides.width_eq]

theorem lineBreaks_append (standsAt : block.StandsAt source before stretch behind) :
    (before ++ stretch).lineBreaks = block.past.lineBreaks + block.text.lineBreaks := by
  rw [Text.lineBreaks_append, standsAt.lineBreaks_before, standsAt.hides.lineBreaks_eq]

end StandsAt

end Block

namespace Scan

/-- The byte offsets of the start and the end of a block. -/
def extentOf (block : Block) : Nat × Nat :=
  (block.offset, block.offset + block.text.width)

theorem liesAt_of_outlineOfBlock?
    {options : ScanOptions}
    {source : Text}
    {block : Block}
    {outline : Outline}
    (member : block ∈ Block.ofText (Mask.visible source))
    (found : outlineOfBlock? options block = some outline) :
    outline.LiesAt source (extentOf block) := by
  obtain ⟨startLine, endLine⟩ := lines_of_outlineOfBlock? found
  obtain ⟨before, stretch, behind, standsAt⟩ := Block.exists_standsAt member
  constructor
  · obtain ⟨word, isWord, later, stretchShape⟩ := standsAt.begins
    have positive : 0 < block.text.width := by
      obtain ⟨first, tail, rfl⟩ :=
        List.exists_cons_of_ne_nil (Block.declarationWord_ne_nil word isWord)
      have firstPositive := first.utf8Size_pos
      rw [← standsAt.hides.width_eq, ← stretchShape, Text.width_append, Text.width_cons]
      omega
    rw [extentOf]
    omega
  · refine ⟨before, stretch, behind, ?_, standsAt.width_before, standsAt.width_append,
      standsAt.begins, ?_, ?_⟩
    · rw [standsAt.shape, List.append_assoc]
    · rw [startLine, standsAt.lineBreaks_before]
    · rw [endLine, startLine, standsAt.hides.lineBreaks_eq]

theorem extentOf_le_of_precedes
    {earlier later : Block}
    (precedes : earlier.Precedes later) :
    (extentOf earlier).2 ≤ (extentOf later).1 := by
  obtain ⟨between, shape⟩ := precedes
  rw [extentOf, extentOf, Block.offset, Block.offset, ← shape, Text.width_append,
    Text.width_append, Text.width_reverse]
  omega

/-- The outlines of blocks, each with the block that it comes from. -/
theorem exists_forall₂_outlines
    {options : ScanOptions}
    {blocks : List Block}
    {relation : Outline → Block → Prop}
    (holds : ∀ block ∈ blocks, ∀ outline,
      outlineOfBlock? options block = some outline → relation outline block) :
    ∃ outlined : List Block,
      outlined.Sublist blocks ∧
        List.Forall₂ relation (blocks.filterMap (outlineOfBlock? options)) outlined := by
  induction blocks with
  | nil => exact ⟨[], List.Sublist.refl [], .nil⟩
  | cons block blocks hypothesis =>
    obtain ⟨outlined, isSublist, related⟩ := hypothesis fun other member =>
      holds other (List.mem_cons_of_mem _ member)
    cases found : outlineOfBlock? options block with
    | none => exact ⟨outlined, isSublist.cons block, by simpa [found] using related⟩
    | some outline =>
      refine ⟨block :: outlined, isSublist.cons_cons block, ?_⟩
      rw [List.filterMap_cons_some found]
      exact .cons (holds block List.mem_cons_self outline found) related

/-- An earlier outline ends no later than on the line on which the next one starts. -/
theorem endLine_le_startLine
    {options : ScanOptions}
    {earlier later : Block}
    {earlierOutline laterOutline : Outline}
    (precedes : earlier.Precedes later)
    (foundEarlier : outlineOfBlock? options earlier = some earlierOutline)
    (foundLater : outlineOfBlock? options later = some laterOutline) :
    earlierOutline.endLine ≤ laterOutline.startLine := by
  obtain ⟨between, shape⟩ := precedes
  rw [(lines_of_outlineOfBlock? foundEarlier).2, (lines_of_outlineOfBlock? foundLater).1, ← shape,
    Text.lineBreaks_append, Text.lineBreaks_append, Text.lineBreaks_reverse]
  omega

/--
The lines of the outlines are those of stretches of the source that begin with a declaring word and
follow each other in order.  So no outline ends before it starts or behind the last line, and an
outline starts no earlier than the line on which the one in front of it ends.
-/
theorem exists_extents_of_outlines
    (options : ScanOptions)
    (source : Text) :
    (∃ extents : List (Nat × Nat),
      List.Forall₂ (fun outline extent => outline.LiesAt source extent)
          (ofSource options source).outlines extents ∧
        extents.Pairwise fun earlier later => earlier.2 ≤ later.1) ∧
      (∀ outline ∈ (ofSource options source).outlines,
        outline.startLine ≤ outline.endLine ∧ outline.endLine ≤ source.lineBreaks) ∧
        (ofSource options source).outlines.Pairwise fun earlier later =>
          earlier.endLine ≤ later.startLine := by
  rw [outlines_ofSource]
  have ordered := Block.pairwise_ofText (Mask.visible source)
  refine ⟨?_, fun outline member => ?_, ?_⟩
  · obtain ⟨outlined, isSublist, lies⟩ :=
      exists_forall₂_outlines fun block member outline found =>
        @liesAt_of_outlineOfBlock? options source block outline member found
    refine ⟨outlined.map extentOf, List.forall₂_map_right_iff.mpr lies, ?_⟩
    exact List.pairwise_map.mpr ((ordered.sublist isSublist).imp extentOf_le_of_precedes)
  · obtain ⟨block, isBlock, found⟩ := List.mem_filterMap.mp member
    have lies := liesAt_of_outlineOfBlock? isBlock found
    exact ⟨lies.startLine_le_endLine, lies.endLine_le_lineBreaks⟩
  · refine ordered.filterMap _ ?_
    exact fun _ _ precedes _ foundEarlier _ foundLater =>
      endLine_le_startLine precedes foundEarlier foundLater

end Scan

end ClassOutline
