import ClassOutline.Proofs.Scan.Blocks
/-!
# What the counts of a scan say

The counts of outlines and of data members are raised wherever an outline is added to a scan, so
they are the numbers of outlines and members that the scan holds.  This remains so when outlines
are added to a scan that is already there, one at a time or all those of another source.

In the scan of a source, each block is counted once as found, and once more as outlined or as
rejected.
-/

namespace ClassOutline

namespace Scan

/-! ## Outlines and members -/

/-- The scan counts the outlines and the members that it holds. -/
structure Counted (scan : Scan) : Prop where
  /-- The number of outlines. -/
  classes : scan.tally.classes = scan.outlines.length
  /-- The number of members of all outlines. -/
  members : scan.tally.members = (scan.outlines.flatMap Outline.members).length

theorem counted_blocks (blocks : Nat) : Counted { tally.blocks := blocks } :=
  ⟨rfl, rfl⟩

namespace Counted

variable {scan : Scan}

theorem add
    (counted : scan.Counted)
    (outline : Outline) :
    (scan.add outline).Counted := by
  constructor
  · simp [Scan.add, counted.classes]
  · simp [Scan.add, counted.members]

theorem addAll
    (counted : scan.Counted)
    (outlines : List Outline) :
    (scan.addAll outlines).Counted := by
  induction outlines generalizing scan with
  | nil => exact counted
  | cons outline outlines hypothesis => exact hypothesis (counted.add outline)

end Counted

/-! ## Blocks -/

/-- The scan has found a number of blocks and read some of them. -/
structure Reading (found read : Nat) (scan : Scan) : Prop extends Counted scan where
  /-- The blocks are counted when they are found. -/
  blocks : scan.tally.blocks = found
  /-- A block that was read is outlined or rejected. -/
  candidates : scan.tally.candidates = read

namespace Reading

variable {found read : Nat} {scan : Scan}

theorem addBlock
    (reading : Reading found read scan)
    (options : ScanOptions)
    (block : Block) :
    Reading found (read + 1) (addBlock options scan block) := by
  obtain ⟨⟨classes, members⟩, blocks, candidates⟩ := reading
  rw [Tally.candidates] at candidates
  rw [Scan.addBlock]
  cases ClassHead.ofBlock block with
  | error failure =>
    refine ⟨⟨classes, members⟩, blocks, ?_⟩
    rw [Tally.candidates, ← candidates, Nat.add_assoc]
  | ok head =>
    have counted (unresolved : Nat) :
        Counted { scan with tally.unresolved := scan.tally.unresolved + unresolved } :=
      ⟨classes, members⟩
    refine ⟨(counted (Body.ofText block.text).unresolved).add _, blocks, ?_⟩
    rw [Tally.candidates, ← candidates]
    exact Nat.add_right_comm scan.tally.classes 1 scan.tally.rejected

theorem foldl_addBlock
    (reading : Reading found read scan)
    (options : ScanOptions)
    (blocks : List Block) :
    Reading found (read + blocks.length) (blocks.foldl (Scan.addBlock options) scan) := by
  induction blocks generalizing read scan with
  | nil => exact reading
  | cons block blocks hypothesis =>
    have readOn := hypothesis (reading.addBlock options block)
    rwa [Nat.add_assoc, Nat.add_comm 1] at readOn

end Reading

/-- The scan of a source has read all blocks that it found. -/
theorem reading_ofSource
    (options : ScanOptions)
    (source : Text) :
    Reading (Block.ofText (Mask.visible source)).length
      (Block.ofText (Mask.visible source)).length (ofSource options source) := by
  have start (found : Nat) : Reading found 0 { tally.blocks := found } :=
    ⟨counted_blocks found, rfl, rfl⟩
  have readAll (blocks : List Block) :=
    (start blocks.length).foldl_addBlock options blocks
  simp only [Nat.zero_add] at readAll
  exact readAll _

/-! ## Sessions -/

/-- What is added to a session in one step. -/
inductive Addition where
  /-- One outline. -/
  | single (outline : Outline)
  /-- The outlines of a source. -/
  | ofSource (options : ScanOptions) (source : Text)

namespace Addition

/-- The outlines that are added, in order. -/
def outlines : Addition → List Outline
  | .single outline => [outline]
  | .ofSource options source => (Scan.ofSource options source).outlines

end Addition

/-- The scan that begins empty and grows with each addition. -/
def session (additions : List Addition) : Scan :=
  additions.foldl (fun scan addition => scan.addAll addition.outlines) {}

theorem outlines_addAll
    (scan : Scan)
    (outlines : List Outline) :
    (scan.addAll outlines).outlines = scan.outlines ++ outlines := by
  induction outlines generalizing scan with
  | nil => simp [addAll]
  | cons outline outlines hypothesis =>
    rw [addAll, List.foldl_cons, ← addAll, hypothesis]
    simp [add]

theorem addAll_append
    (scan : Scan)
    (left right : List Outline) :
    scan.addAll (left ++ right) = (scan.addAll left).addAll right :=
  List.foldl_append

/-- A session is one long addition, whatever the steps in which it was made. -/
theorem session_eq_addAll
    (additions : List Addition) :
    session additions = addAll {} (additions.flatMap Addition.outlines) := by
  have grown (scan : Scan) :
      additions.foldl (fun scan addition => scan.addAll addition.outlines) scan =
        scan.addAll (additions.flatMap Addition.outlines) := by
    induction additions generalizing scan with
    | nil => rfl
    | cons addition additions hypothesis =>
      rw [List.foldl_cons, hypothesis, List.flatMap_cons, addAll_append]
  exact grown {}

theorem counted_session
    (additions : List Addition) :
    (session additions).Counted := by
  rw [session_eq_addAll]
  exact (counted_blocks 0).addAll _

theorem outlines_session
    (additions : List Addition) :
    (session additions).outlines = additions.flatMap Addition.outlines := by
  rw [session_eq_addAll, outlines_addAll]
  exact List.nil_append _

end Scan

end ClassOutline
