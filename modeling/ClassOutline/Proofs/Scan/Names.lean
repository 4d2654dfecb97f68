import ClassOutline.Proofs.Member.Spelling
import ClassOutline.Proofs.Scan.Blocks
/-!
# Names in a scan

Every member of a scan has a spelling in one of the blocks of the source.  The names of a scan are
clean exactly if all of these spellings are simple.
-/

namespace ClassOutline.Scan

/-- The members of a block that a scan keeps, each with its spelling. -/
def spelledInBlock (options : ScanOptions) (block : Block) : List (Spelling × DataMember) :=
  match ClassHead.ofBlock block with
  | .error _ => []
  | .ok _ =>
    (Body.spelled block.text).filter fun spelled => !(options.skipStatic && spelled.2.isStatic)

/-- The members of a scan, each with its spelling. -/
def spelledMembers (options : ScanOptions) (source : Text) : List (Spelling × DataMember) :=
  (Block.ofText (Mask.visible source)).flatMap (spelledInBlock options)

variable (options : ScanOptions) (source : Text)

theorem map_snd_spelledInBlock (block : Block) :
    (spelledInBlock options block).map Prod.snd =
      (outlineOfBlock? options block).toList.flatMap Outline.members := by
  rw [spelledInBlock, outlineOfBlock?]
  cases ClassHead.ofBlock block with
  | error failure => rfl
  | ok head =>
    have kept : ((Body.spelled block.text).filter fun spelled =>
        !(options.skipStatic && spelled.2.isStatic)).map Prod.snd =
          (Body.ofText block.text).members.filter fun member =>
            !(options.skipStatic && member.isStatic) := by
      rw [← Body.map_snd_spelled, List.filter_map]
      rfl
    dsimp only
    rw [kept, outlineOf, Option.toList_some, List.flatMap_singleton]

/-- The spelled members are those of the outlines, in order. -/
theorem map_snd_spelledMembers :
    (spelledMembers options source).map Prod.snd =
      (ofSource options source).outlines.flatMap Outline.members := by
  rw [spelledMembers, outlines_ofSource]
  induction Block.ofText (Mask.visible source) with
  | nil => rfl
  | cons block blocks hypothesis =>
    rw [List.flatMap_cons, List.map_append, hypothesis, map_snd_spelledInBlock]
    cases found : outlineOfBlock? options block with
    | none => rw [List.filterMap_cons_none found]; rfl
    | some outline => rw [List.filterMap_cons_some found, List.flatMap_cons]; simp

/-- A spelled member of a scan is one of a block. -/
theorem exists_block_of_mem
    {spelled : Spelling × DataMember}
    (isSpelled : spelled ∈ spelledMembers options source) :
    ∃ block : Block, spelled ∈ Body.spelled block.text := by
  obtain ⟨block, -, inBlock⟩ := List.mem_flatMap.mp isSpelled
  rw [spelledInBlock] at inBlock
  split at inBlock
  · contradiction
  · exact ⟨block, List.mem_of_mem_filter inBlock⟩

/-- No name that is read from a declarator has a blank. -/
theorem noBlank_of_mem_spelledMembers
    {declarator : Text}
    {member : DataMember}
    (isSpelled : (.declarator declarator, member) ∈ spelledMembers options source) :
    ∀ character ∈ member.name, Text.isBlank character = false := by
  obtain ⟨block, inBlock⟩ := exists_block_of_mem options source isSpelled
  exact Body.noBlank_of_mem_spelledIn inBlock

/--
Every member of a scan has a spelling, and all names are clean exactly if all spellings are simple.
A name that is read from a declarator never has a blank: if it is not clean, it is empty or has a
mark.
-/
theorem isClean_names_iff :
    (spelledMembers options source).map Prod.snd =
        (ofSource options source).outlines.flatMap Outline.members ∧
      ((∀ outline ∈ (ofSource options source).outlines, ∀ member ∈ outline.members,
          IsClean member.name) ↔
        ∀ spelled ∈ spelledMembers options source, spelled.1.IsSimple) ∧
      ∀ declarator member, (.declarator declarator, member) ∈ spelledMembers options source →
        ∀ character ∈ member.name, Text.isBlank character = false := by
  have sameMembers := map_snd_spelledMembers options source
  have named : ∀ spelled ∈ spelledMembers options source,
      IsClean spelled.2.name ↔ spelled.1.IsSimple := by
    rintro ⟨spelling, member⟩ isSpelled
    obtain ⟨block, inBlock⟩ := exists_block_of_mem options source isSpelled
    rw [Body.name_of_mem_spelledIn inBlock, Spelling.isClean_name_iff]
  refine ⟨sameMembers, ⟨?_, ?_⟩, fun _ _ isSpelled =>
    noBlank_of_mem_spelledMembers options source isSpelled⟩
  · intro areClean spelled isSpelled
    have isMember := List.mem_map_of_mem (f := Prod.snd) isSpelled
    rw [sameMembers] at isMember
    obtain ⟨outline, isOutline, inOutline⟩ := List.mem_flatMap.mp isMember
    exact (named spelled isSpelled).mp (areClean outline isOutline spelled.2 inOutline)
  · intro areSimple outline isOutline member inOutline
    have isMember := List.mem_flatMap.mpr ⟨outline, isOutline, inOutline⟩
    rw [← sameMembers] at isMember
    obtain ⟨spelled, isSpelled, rfl⟩ := List.mem_map.mp isMember
    exact (named spelled isSpelled).mpr (areSimple spelled isSpelled)

/-- Of two stars in front of a name, one stays. -/
theorem members_twoStars :
    let source : Text := "class T \x7b\nchar **rows;\n\x7d;\n".toList
    (ofSource {} source).outlines.flatMap Outline.members =
        [{ name := "*rows".toList, declaredType := "char*".toList, byValue := true }] ∧
      ¬ ∀ outline ∈ (ofSource {} source).outlines, ∀ member ∈ outline.members,
        IsClean member.name := by
  intro source
  have members : (ofSource {} source).outlines.flatMap Outline.members =
      [{ name := "*rows".toList, declaredType := "char*".toList, byValue := true }] := by
    decide
  refine ⟨members, fun areClean => ?_⟩
  obtain ⟨outline, isOutline, inOutline⟩ := List.mem_flatMap.mp
    (members ▸ List.mem_singleton_self _)
  exact (areClean outline isOutline _ inOutline).noMark '*' (by decide) (by decide)

end ClassOutline.Scan
