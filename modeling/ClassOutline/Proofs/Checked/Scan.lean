import ClassOutline.Proofs.Checked.Bodies
import ClassOutline.Proofs.Checked.ClassHead
import ClassOutline.Proofs.Checked.Masks
import ClassOutline.Proofs.Checked.Segments
import ClassOutline.Scan.Basic
/-!
# Scans by offsets

A scan can be made in checked steps from the bytes of the source to the outlines: comments and
friend declarations are hidden in place, blocks are cut out, and heads and bodies are cut up, all by
offsets that one stage finds and another one uses.

The checked scan of every source that is not too long for its counters has a result, and the result
is the scan of the source.  So wherever a part of a text is cut out, the offsets lie in order, in
the text and between characters, every index lies in its list, every difference is one of a number
and one that is not greater, and no counter leaves its range.
-/

namespace ClassOutline.Checked

/-- The scan with what one more block gives, for a block cut out at an offset. -/
def addBlock? (options : ScanOptions) (buffer : Text) (scan : Scan) (place : Nat × Text) :
    Option Scan := do
  let head ← ofBlock? buffer place.1 place.2
  match head with
  | .error _ => some { scan with tally.rejected := scan.tally.rejected + 1 }
  | .ok head => do
    let body ← body? place.2
    let counted := { scan with tally.unresolved := scan.tally.unresolved + body.unresolved }
    some (counted.add (Scan.outlineOf options head body))

/-- The scan of a source in checked steps. -/
def ofSource? (options : ScanOptions) (source : Text) : Option Scan := do
  let buffer ← visible? source
  let blocks ← blocks? buffer
  blocks.foldlM (addBlock? options buffer) { tally.blocks := blocks.length }

theorem addBlock?_placeOf
    {buffer : Text}
    {block : Block}
    (options : ScanOptions)
    (scan : Scan)
    (isPrefix : block.above ++ block.text <+: buffer)
    (short : buffer.width < shortLimit) :
    addBlock? options buffer scan (placeOf block) = some (Scan.addBlock options scan block) := by
  obtain ⟨after, shape⟩ := isPrefix
  rw [List.append_assoc] at shape
  have isPart : block.text <:+: buffer := ⟨block.above, after, by rw [← shape, List.append_assoc]⟩
  have narrower := Text.width_le_of_isInfix isPart
  rw [addBlock?, placeOf]
  dsimp only
  rw [ofBlock?_offset shape.symm short, Scan.addBlock]
  simp only [Option.bind_eq_bind, Option.bind_some]
  cases ClassHead.ofBlock block with
  | error failure => rfl
  | ok head =>
    dsimp only
    rw [body?_eq (Nat.lt_of_le_of_lt narrower short)]
    rfl

theorem foldlM_addBlock?
    {buffer : Text}
    {blocks : List Block}
    (options : ScanOptions)
    (scan : Scan)
    (arePrefixes : ∀ block ∈ blocks, block.above ++ block.text <+: buffer)
    (short : buffer.width < shortLimit) :
    (blocks.map placeOf).foldlM (addBlock? options buffer) scan =
      some (blocks.foldl (Scan.addBlock options) scan) := by
  induction blocks generalizing scan with
  | nil => rfl
  | cons block blocks hypothesis =>
    have added := addBlock?_placeOf options scan (arePrefixes block List.mem_cons_self) short
    have later := hypothesis (Scan.addBlock options scan block) fun other member =>
      arePrefixes other (List.mem_cons_of_mem _ member)
    rw [List.map_cons, List.foldlM_cons, added]
    exact later

/-- The checked scan of a source that is not too long for its counters is its scan. -/
theorem checked_ofSource_eq_some
    (options : ScanOptions)
    {source : Text}
    (short : source.width < shortLimit) :
    ofSource? options source = some (Scan.ofSource options source) := by
  have sameWidth : (Mask.visible source).width = source.width :=
    (Mask.hides_visible source).width_eq.symm
  have shortBuffer : (Mask.visible source).width < shortLimit := by rwa [sameWidth]
  rw [ofSource?, visible?_eq]
  simp only [Option.bind_eq_bind, Option.bind_some]
  rw [blocks?_eq shortBuffer, Option.bind_some, List.length_map]
  exact foldlM_addBlock? options _
    (fun block member => (Block.isStretchOf_of_mem_ofText _ block member).isPrefix) shortBuffer

/-- A source with wide characters, a hidden friend declaration and a pointer to a function. -/
def wideSource : Text :=
  "// ö\nclass Maß : A \x7b\n friend class Öl;\n int (*länge)(T) = 0, a[2];\n\x7d;".toList

/-- The scan of that source. -/
def wideScan : Scan where
  outlines :=
    [{ Outline.onLines "Maß".toList 1 4 with
        bases := [{ name := "A".toList }]
        members :=
          [{ name := "länge".toList, declaredType := "int (*)(T)".toList, byValue := true }] }]
  tally := { blocks := 1, classes := 1, members := 1 }

theorem checked_wideSource_eq_some :
    wideSource.width < shortLimit ∧ ofSource? {} wideSource = some wideScan := by
  have short : wideSource.width < shortLimit := by decide +kernel
  have scanned : Scan.ofSource {} wideSource = wideScan := by decide +kernel
  exact ⟨short, (checked_ofSource_eq_some {} short).trans (congrArg some scanned)⟩

end ClassOutline.Checked
