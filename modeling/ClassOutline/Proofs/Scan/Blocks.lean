import ClassOutline.Proofs.ClassHead.Parts
import ClassOutline.Scan.Basic
/-!
# Scans of blocks

A scan goes through the blocks of its source and adds what each of them gives.  Blocks give the
same whatever was scanned before them, so the scan of two lists of blocks in a row is the scan of
the first followed by that of the second: the outlines one after the other, and the counts added up.
-/

namespace ClassOutline

/-! ## Tallies -/

namespace Tally

@[simp]
theorem add_blocks
    (left right : Tally) :
    (left + right).blocks = left.blocks + right.blocks := rfl

@[simp]
theorem add_classes
    (left right : Tally) :
    (left + right).classes = left.classes + right.classes := rfl

@[simp]
theorem add_rejected
    (left right : Tally) :
    (left + right).rejected = left.rejected + right.rejected := rfl

@[simp]
theorem add_members
    (left right : Tally) :
    (left + right).members = left.members + right.members := rfl

@[simp]
theorem add_unresolved
    (left right : Tally) :
    (left + right).unresolved = left.unresolved + right.unresolved := rfl

@[ext]
theorem ext
    {left right : Tally}
    (blocks : left.blocks = right.blocks)
    (classes : left.classes = right.classes)
    (rejected : left.rejected = right.rejected)
    (members : left.members = right.members)
    (unresolved : left.unresolved = right.unresolved) :
    left = right := by
  cases left
  cases right
  simp_all

end Tally

/-! ## Scans in a row -/

namespace Scan

/-- One scan followed by another: outlines in order, counts added up. -/
instance : Append Scan where
  append left right :=
    { outlines := left.outlines ++ right.outlines
      tally := left.tally + right.tally }

@[simp]
theorem append_outlines
    (left right : Scan) :
    (left ++ right).outlines = left.outlines ++ right.outlines := rfl

@[simp]
theorem append_tally
    (left right : Scan) :
    (left ++ right).tally = left.tally + right.tally := rfl

theorem ext
    {left right : Scan}
    (outlines : left.outlines = right.outlines)
    (tally : left.tally = right.tally) :
    left = right := by
  cases left
  cases right
  simp_all

/-! ## The scan of a list of blocks -/

/-- The scan of a list of blocks. -/
def ofBlocks (options : ScanOptions) (blocks : List Block) : Scan :=
  blocks.foldl (addBlock options) { tally.blocks := blocks.length }

theorem ofSource_eq_ofBlocks
    (options : ScanOptions)
    (source : Text) :
    ofSource options source = ofBlocks options (Block.ofText (Mask.visible source)) := rfl

/-- What a block gives does not depend on what was scanned before. -/
theorem append_addBlock
    (options : ScanOptions)
    (earlier scan : Scan)
    (block : Block) :
    addBlock options (earlier ++ scan) block = earlier ++ addBlock options scan block := by
  rw [addBlock, addBlock]
  cases ClassHead.ofBlock block with
  | error failure =>
    apply ext
    · rfl
    · ext <;> simp [Nat.add_assoc]
  | ok head =>
    apply ext
    · simp [add]
    · ext <;> simp [add, Nat.add_assoc]

theorem append_foldl_addBlock
    (options : ScanOptions)
    (earlier scan : Scan)
    (blocks : List Block) :
    blocks.foldl (addBlock options) (earlier ++ scan) =
      earlier ++ blocks.foldl (addBlock options) scan := by
  induction blocks generalizing scan with
  | nil => rfl
  | cons block blocks hypothesis => rw [List.foldl_cons, List.foldl_cons, append_addBlock, hypothesis]

/-- The scan of two lists of blocks in a row is the scan of one followed by that of the other. -/
theorem ofBlocks_append
    (options : ScanOptions)
    (left right : List Block) :
    ofBlocks options (left ++ right) = ofBlocks options left ++ ofBlocks options right := by
  have counted (scan : Scan) (number : Nat) :
      ({ scan with tally.blocks := scan.tally.blocks + number } : Scan) =
        { tally.blocks := number } ++ scan := by
    apply ext
    · rfl
    · ext <;> simp [Nat.add_comm]
  have front :
      left.foldl (addBlock options) { tally.blocks := (left ++ right).length } =
        { tally.blocks := right.length } ++ ofBlocks options left := by
    have start : ({ tally.blocks := (left ++ right).length } : Scan) =
        { tally.blocks := right.length } ++ { tally.blocks := left.length } := by
      rw [← counted]
      simp
    rw [start, append_foldl_addBlock]
    rfl
  have moved :
      ({ tally.blocks := right.length } : Scan) ++ ofBlocks options left =
        ofBlocks options left ++ { tally.blocks := right.length } := by
    apply ext
    · simp
    · ext <;> simp [Nat.add_comm]
  rw [ofBlocks, List.foldl_append, front, moved, append_foldl_addBlock]
  rfl

theorem ofBlocks_cons
    (options : ScanOptions)
    (block : Block)
    (blocks : List Block) :
    ofBlocks options (block :: blocks) = ofBlocks options [block] ++ ofBlocks options blocks :=
  ofBlocks_append options [block] blocks

/-! ## Outlines -/

/-- The outline of a block, if its head can be read. -/
def outlineOfBlock? (options : ScanOptions) (block : Block) : Option Outline :=
  match ClassHead.ofBlock block with
  | .error _ => none
  | .ok head => some (outlineOf options head (Body.ofText block.text))

theorem outlines_ofBlocks
    (options : ScanOptions)
    (blocks : List Block) :
    (ofBlocks options blocks).outlines = blocks.filterMap (outlineOfBlock? options) := by
  induction blocks with
  | nil => rfl
  | cons block blocks hypothesis =>
    rw [ofBlocks_cons, append_outlines, hypothesis]
    simp only [ofBlocks, List.foldl_cons, List.foldl_nil, addBlock, List.filterMap_cons,
      outlineOfBlock?]
    cases ClassHead.ofBlock block with
    | error failure => rfl
    | ok head => rfl

/-- The outlines of a source are those of its blocks. -/
theorem outlines_ofSource
    (options : ScanOptions)
    (source : Text) :
    (ofSource options source).outlines =
      (Block.ofText (Mask.visible source)).filterMap (outlineOfBlock? options) := by
  rw [ofSource_eq_ofBlocks, outlines_ofBlocks]

/-- The lines of an outline are those of its block. -/
theorem lines_of_outlineOfBlock?
    {options : ScanOptions}
    {block : Block}
    {outline : Outline}
    (found : outlineOfBlock? options block = some outline) :
    outline.startLine = block.past.lineBreaks ∧
      outline.endLine = block.past.lineBreaks + block.text.lineBreaks := by
  rw [outlineOfBlock?] at found
  cases read : ClassHead.ofBlock block with
  | error failure => simp [read] at found
  | ok head =>
    rw [read] at found
    obtain rfl := Option.some.inj found
    rw [ClassHead.exists_of_ofBlock read]
    simp [outlineOf, Outline.onLines, ClassHead.ofParts]

end Scan

end ClassOutline
