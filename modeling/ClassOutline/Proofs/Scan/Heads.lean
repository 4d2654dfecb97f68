import ClassOutline.Proofs.Block.Greedy
import ClassOutline.Proofs.Scan.Blocks
/-!
# What blocks begin with

A block should begin with a keyword, and no statement should end between the keyword and the body.
Neither always holds.  The first region of a text begins at the first declaring word, be it a
keyword or a part of another word, and a region goes on behind a semicolon.

Both are harmless as long as the region opens no brace, for then it gives no block.  A region opens
no brace exactly if none opens behind its start, or if a keyword stands behind its start with no
brace in between.  So a block begins with no keyword exactly if this fails behind a first word that
is none, and it has a semicolon in its head exactly if this fails at the start of a region in which
a semicolon comes before the first brace.
-/

namespace ClassOutline.Block

/-! ## Regions without a body -/

/-- The first declaring word of a text begins between two parts of it. -/
def FirstWordAt (front behind : Text) : Prop :=
  WordAt behind ∧
    ∀ shorter longer, front = shorter ++ longer → longer ≠ [] → ¬ WordAt (longer ++ behind)

/-- A region of the greedy cut begins between two parts of a text. -/
def RegionAt (front behind : Text) : Prop :=
  ∃ cut, GreedyCut (front ++ behind) cut ∧ ∃ region ∈ cut, region.above = front

/-- No brace opens behind a place, or a keyword stands behind it with no brace in between. -/
def Bodiless (front behind : Text) : Prop :=
  '{' ∉ behind ∨
    ∃ inside rest,
      behind = inside ++ rest ∧ inside ≠ [] ∧ Braceless inside ∧ KeywordAt (front ++ inside) rest

theorem braceless_iff (text : Text) : Braceless text ↔ '{' ∉ text ∧ '}' ∉ text := by
  constructor
  · intro braceless
    exact ⟨fun opens => (braceless _ opens).1 rfl, fun closes => (braceless _ closes).2 rfl⟩
  · rintro ⟨noOpening, noClosing⟩ character member
    exact ⟨fun same => noOpening (same ▸ member), fun same => noClosing (same ▸ member)⟩

/-- A region that opens no brace may end exactly where a keyword follows and it closes none. -/
theorem mayEnd_of_noOpening
    {front inside behind : Text}
    (noOpening : '{' ∉ inside) :
    MayEnd front inside behind ↔
      inside ≠ [] ∧ Braceless inside ∧ KeywordAt (front ++ inside) behind := by
  have noneOpened : inside.count '{' = 0 := List.count_eq_zero.mpr noOpening
  have noneClosed : inside.count '{' = inside.count '}' ↔ '}' ∉ inside := by
    rw [noneOpened, eq_comm, List.count_eq_zero]
  rw [MayEnd, noneClosed, braceless_iff]
  tauto

/-- The first region of a cut opens no brace exactly if its start is followed by no body. -/
theorem CutsInto.not_mem_iff
    {front text : Text}
    {region : Block}
    {later : List Block}
    (cut : CutsInto front text (region :: later)) :
    '{' ∉ region.text ↔ Bodiless front text := by
  cases cut with
  | last noEnd =>
    refine ⟨.inl, ?_⟩
    rintro (noOpening | ⟨inside, rest, shape, notEmpty, braceless, keyword⟩)
    · exact noOpening
    · have noOpening := ((braceless_iff inside).mp braceless).1
      exact absurd ((mayEnd_of_noOpening noOpening).mpr ⟨notEmpty, braceless, keyword⟩)
        (noEnd inside rest shape)
  | @next _ inside behind _ ends least _ =>
    dsimp only
    constructor
    · intro noOpening
      obtain ⟨notEmpty, braceless, keyword⟩ := (mayEnd_of_noOpening noOpening).mp ends
      exact .inr ⟨inside, behind, rfl, notEmpty, braceless, keyword⟩
    · rintro (noOpening | ⟨other, rest, shape, notEmpty, braceless, keyword⟩)
      · exact fun opens => noOpening (List.mem_append_left _ opens)
      · have noOpening := ((braceless_iff other).mp braceless).1
        have mayEnd : MayEnd front other rest :=
          (mayEnd_of_noOpening noOpening).mpr ⟨notEmpty, braceless, keyword⟩
        rcases List.append_eq_append_iff.mp shape with ⟨longer, rfl, rfl⟩ | ⟨longer, rfl, rfl⟩
        · exact fun opens => noOpening (List.mem_append_left _ opens)
        · by_cases noMore : longer = []
          · simpa [noMore] using noOpening
          · exact absurd mayEnd (least other longer rfl noMore)

/-- The cut begins anew at each of its regions, and a keyword stands at all but the first. -/
theorem CutsInto.exists_of_mem
    {front text : Text}
    {regions : List Block}
    {region : Block}
    (cut : CutsInto front text regions)
    (member : region ∈ regions) :
    ∃ behind later,
      front ++ text = region.above ++ behind ∧ CutsInto region.above behind (region :: later) ∧
        (region.above = front ∧ behind = text ∨ KeywordAt region.above behind) := by
  induction cut with
  | @last front text noEnd =>
    obtain rfl := List.mem_singleton.mp member
    have sameFront : Block.above ⟨front.reverse, text⟩ = front := List.reverse_reverse front
    rw [sameFront]
    exact ⟨text, [], rfl, .last noEnd, .inl ⟨rfl, rfl⟩⟩
  | @next front inside behind regions ends least later hypothesis =>
    rcases List.mem_cons.mp member with rfl | inLater
    · have sameFront : Block.above ⟨front.reverse, inside⟩ = front := List.reverse_reverse front
      rw [sameFront]
      exact ⟨_, regions, rfl, .next ends least later, .inl ⟨rfl, rfl⟩⟩
    · obtain ⟨rest, others, shape, cutThere, isFirst | keyword⟩ := hypothesis inLater
      · obtain ⟨sameFront, rfl⟩ := isFirst
        refine ⟨rest, others, by rw [← shape, List.append_assoc], cutThere, .inr ?_⟩
        rw [sameFront]
        exact ends.2.1
      · exact ⟨rest, others, by rw [← shape, List.append_assoc], cutThere, .inr keyword⟩

theorem CutsInto.isPrefix
    {front text : Text}
    {region : Block}
    {later : List Block}
    (cut : CutsInto front text (region :: later)) :
    region.text <+: text := by
  cases cut with
  | last _ => exact List.prefix_rfl
  | next _ _ _ => exact List.prefix_append _ _

theorem CutsInto.exists_eq_cons
    {front text : Text}
    {regions : List Block}
    (cut : CutsInto front text regions) :
    ∃ region later, regions = region :: later ∧ region.above = front := by
  cases cut with
  | last _ => exact ⟨_, _, rfl, List.reverse_reverse front⟩
  | next _ _ _ => exact ⟨_, _, rfl, List.reverse_reverse front⟩

/-- A region has no body exactly as said, and begins at the first word or at a keyword. -/
theorem exists_of_mem_regions
    {text : Text}
    {region : Block}
    (member : region ∈ regions text) :
    ∃ behind,
      text = region.above ++ behind ∧ region.text <+: behind ∧
        ('{' ∉ region.text ↔ Bodiless region.above behind) ∧
          (FirstWordAt region.above behind ∨ KeywordAt region.above behind) := by
  have isCut : GreedyCut text (regions text) := (greedyCut_iff text _).mpr rfl
  generalize regions text = cut at member isCut
  cases isCut with
  | none _ => contradiction
  | some begins first cutRest =>
    obtain ⟨behind, later, shape, cutThere, position⟩ := cutRest.exists_of_mem member
    refine ⟨behind, shape, cutThere.isPrefix, cutThere.not_mem_iff, position.imp_left ?_⟩
    rintro ⟨sameFront, rfl⟩
    rw [sameFront]
    exact ⟨begins, first⟩

theorem regionAt_of_mem_regions
    {front behind : Text}
    {region : Block}
    (member : region ∈ regions (front ++ behind))
    (sameFront : region.above = front) :
    RegionAt front behind :=
  ⟨_, (greedyCut_iff _ _).mpr rfl, region, member, sameFront⟩

theorem FirstWordAt.regionAt
    {front behind : Text}
    (firstWord : FirstWordAt front behind) :
    RegionAt front behind := by
  have isCut : GreedyCut (front ++ behind) (regions (front ++ behind)) :=
    (greedyCut_iff _ _).mpr rfl
  refine ⟨_, isCut, ?_⟩
  generalize regions (front ++ behind) = cut at isCut
  generalize whole : front ++ behind = text at isCut
  cases isCut with
  | none noWord => exact absurd firstWord.1 (noWord front behind whole.symm)
  | some begins first cutRest =>
    obtain ⟨rfl, rfl⟩ := @eq_of_least (fun _ => WordAt) _ _ _ _ whole firstWord.1 begins
      firstWord.2 first
    obtain ⟨region, later, shape, sameFront⟩ := cutRest.exists_eq_cons
    exact ⟨region, by rw [shape]; exact List.mem_cons_self, sameFront⟩

theorem RegionAt.begins
    {front behind : Text}
    (regionAt : RegionAt front behind) :
    FirstWordAt front behind ∨ KeywordAt front behind := by
  obtain ⟨cut, isCut, region, member, rfl⟩ := regionAt
  obtain rfl := (greedyCut_iff _ cut).mp isCut
  obtain ⟨other, shape, -, -, begins⟩ := exists_of_mem_regions member
  rwa [List.append_cancel_left shape]

/-! ## Heads of blocks -/

/-- What stands in front of the first opening brace of a text. -/
def header (text : Text) : Text :=
  text.takeWhile (· ≠ '{')

theorem header_eq_of_isPrefix
    {part text : Text}
    (isPrefix : part <+: text)
    (opens : '{' ∈ part) :
    header part = header text := by
  obtain ⟨rest, rfl⟩ := isPrefix
  rw [header, header, List.takeWhile_append, if_neg fun sameLength => ?_]
  have whole := List.takeWhile_prefix (fun character => decide (character ≠ '{')) |>.eq_of_length
    sameLength
  simpa using List.takeWhile_eq_self_iff.mp whole _ opens

/-- A block that is found in front of a given rest of a text. -/
structure FoundAt (block : Block) (behind : Text) : Prop where
  isPrefix : block.text <+: behind
  opens : '{' ∈ block.text
  regionAt : RegionAt block.above behind
  hasBody : ¬ Bodiless block.above behind

theorem exists_foundAt
    {text : Text}
    {block : Block}
    (member : block ∈ ofText text) :
    ∃ behind, text = block.above ++ behind ∧ FoundAt block behind := by
  obtain ⟨region, isRegion, found⟩ := List.mem_filterMap.mp member
  obtain ⟨samePast, isPrefix, opens, -⟩ := ofRegion?_eq_some found
  have sameAbove : block.above = region.above := congrArg List.reverse samePast
  obtain ⟨behind, rfl, regionPrefix, bodiless, -⟩ := exists_of_mem_regions isRegion
  rw [sameAbove]
  refine ⟨behind, rfl, isPrefix.trans regionPrefix, opens, ?_, ?_⟩
  · rw [sameAbove]
    exact regionAt_of_mem_regions isRegion rfl
  · rw [sameAbove, ← bodiless]
    exact fun noOpening => noOpening (isPrefix.subset opens)

/-- At the start of a region with a body a block is found. -/
theorem RegionAt.exists_block
    {front behind : Text}
    (regionAt : RegionAt front behind)
    (hasBody : ¬ Bodiless front behind) :
    ∃ block ∈ ofText (front ++ behind), block.above = front := by
  obtain ⟨cut, isCut, region, member, sameFront⟩ := regionAt
  obtain rfl := (greedyCut_iff _ cut).mp isCut
  obtain ⟨other, shape, -, bodiless, -⟩ := exists_of_mem_regions member
  rw [sameFront] at shape bodiless
  obtain rfl := List.append_cancel_left shape
  have opens : '{' ∈ region.text := by
    by_contra noOpening
    exact hasBody (bodiless.mp noOpening)
  have found : ofRegion? region =
      some { region with
        text := (closedPart? false 0 region.text).getD region.text.trimEnd } := by
    rw [ofRegion?, if_pos (List.contains_iff_mem.mpr opens)]
  exact ⟨_, List.mem_filterMap.mpr ⟨region, member, found⟩, sameFront⟩

/-- What holds of no block depends on the starts of regions that have a body. -/
theorem forall_mem_ofText_iff
    {text : Text}
    {fails : Block → Prop}
    {failsAt : Text → Text → Prop}
    (same : ∀ block behind, text = block.above ++ behind → FoundAt block behind →
      (fails block ↔ failsAt block.above behind)) :
    (∀ block ∈ ofText text, ¬ fails block) ↔
      ∀ front behind, text = front ++ behind → RegionAt front behind → failsAt front behind →
        Bodiless front behind := by
  constructor
  · rintro none front behind rfl regionAt failsThere
    by_contra hasBody
    obtain ⟨block, member, rfl⟩ := regionAt.exists_block hasBody
    obtain ⟨other, shape, foundAt⟩ := exists_foundAt member
    obtain rfl := List.append_cancel_left shape
    exact none block member ((same block behind rfl foundAt).mpr failsThere)
  · intro bodiless block member failsHere
    obtain ⟨behind, shape, foundAt⟩ := exists_foundAt member
    exact foundAt.hasBody
      (bodiless _ behind shape foundAt.regionAt ((same block behind shape foundAt).mp failsHere))

/-! ## Keywords -/

/-- A block begins with a declaring word, and the word stands alone in the text. -/
def BeginsAtKeyword (text : Text) (block : Block) : Prop :=
  ∃ word ∈ declarationWords,
    word <+: block.text ∧ Reserved.standsAloneAt text block.offset word = true

instance (text : Text) (block : Block) : Decidable (BeginsAtKeyword text block) :=
  inferInstanceAs (Decidable (∃ word ∈ declarationWords, _))

theorem FoundAt.beginsAtKeyword_iff
    {block : Block}
    {behind : Text}
    (foundAt : FoundAt block behind) :
    BeginsAtKeyword (block.above ++ behind) block ↔ KeywordAt block.above behind := by
  have sameOffset : block.above.width = block.offset := block.offset_eq_width_above.symm
  rw [KeywordAt, BeginsAtKeyword, sameOffset]
  refine exists_congr fun word => and_congr_right fun isWord => and_congr_left fun _ => ?_
  -- The block holds a brace and the word does not, so the word ends inside the block.
  have noBrace : ∀ other ∈ declarationWords, '{' ∉ other := by decide
  refine ⟨fun begins => begins.trans foundAt.isPrefix, fun begins => ?_⟩
  rcases List.prefix_or_prefix_of_prefix begins foundAt.isPrefix with inside | outside
  · exact inside
  · exact absurd (outside.subset foundAt.opens) (noBrace word isWord)

end ClassOutline.Block

namespace ClassOutline.Scan

open Block

/-! ## Outlines -/

/-- The name that is read in front of the first opening brace may stand. -/
def NamesClass (declaration : Text) : Prop :=
  ClassHead.LegalName (ClassHead.nameAndBases (ClassHead.headOf declaration)).1

theorem isSome_outlineOfBlock?_iff
    (options : ScanOptions)
    {block : Block}
    {behind : Text}
    (foundAt : FoundAt block behind) :
    (outlineOfBlock? options block).isSome = true ↔ NamesClass behind := by
  have sameHead : ClassHead.headOf block.text = ClassHead.headOf behind := by
    have sameHeader := header_eq_of_isPrefix foundAt.isPrefix foundAt.opens
    rw [header, header] at sameHeader
    rw [ClassHead.headOf, ClassHead.headOf, sameHeader]
  rw [outlineOfBlock?, ClassHead.ofBlock_eq, sameHead, NamesClass]
  by_cases legal : ClassHead.LegalName (ClassHead.nameAndBases (ClassHead.headOf behind)).1
  · simp [legal]
  · simp [legal]

/--
All blocks of a text begin with a keyword exactly if the first declaring word is one, or is followed
by no body.  All outlines of a source come from such blocks exactly if, failing both, no name can be
read behind the first declaring word.
-/
theorem forall_beginsAtKeyword_iff
    (text : Text)
    (options : ScanOptions)
    (source : Text) :
    ((∀ block ∈ ofText text, BeginsAtKeyword text block) ↔
      ∀ front behind, text = front ++ behind → FirstWordAt front behind →
        KeywordAt front behind ∨ Bodiless front behind) ∧
      ((∀ block ∈ ofText (Mask.visible source), (outlineOfBlock? options block).isSome = true →
        BeginsAtKeyword (Mask.visible source) block) ↔
        ∀ front behind, Mask.visible source = front ++ behind → FirstWordAt front behind →
          KeywordAt front behind ∨ Bodiless front behind ∨ ¬ NamesClass behind) := by
  constructor
  · have blocks := @forall_mem_ofText_iff text (fun block => ¬ BeginsAtKeyword text block)
      (fun front behind => ¬ KeywordAt front behind) fun block behind shape foundAt => by
        rw [shape, foundAt.beginsAtKeyword_iff]
    simp only [not_not] at blocks
    rw [blocks]
    constructor
    · intro bodiless front behind shape firstWord
      exact or_iff_not_imp_left.mpr (bodiless front behind shape firstWord.regionAt)
    · intro either front behind shape regionAt noKeyword
      have firstWord := regionAt.begins.resolve_right noKeyword
      exact (either front behind shape firstWord).resolve_left noKeyword
  · have blocks := @forall_mem_ofText_iff (Mask.visible source)
      (fun block => (outlineOfBlock? options block).isSome = true ∧
        ¬ BeginsAtKeyword (Mask.visible source) block)
      (fun front behind => NamesClass behind ∧ ¬ KeywordAt front behind)
      fun block behind shape foundAt => by
        rw [shape, foundAt.beginsAtKeyword_iff, isSome_outlineOfBlock?_iff options foundAt]
    simp only [not_and, not_not, and_imp] at blocks
    rw [blocks]
    constructor
    · intro bodiless front behind shape firstWord
      by_cases keyword : KeywordAt front behind
      · exact .inl keyword
      · by_cases named : NamesClass behind
        · exact .inr (.inl (bodiless front behind shape firstWord.regionAt named keyword))
        · exact .inr (.inr named)
    · intro either front behind shape regionAt named noKeyword
      have firstWord := regionAt.begins.resolve_right noKeyword
      rcases either front behind shape firstWord with keyword | bodiless | notNamed
      · exact absurd keyword noKeyword
      · exact bodiless
      · exact absurd named notNamed

/-- A function whose type has a name that ends in `class_t` is outlined as a class. -/
theorem outlines_wordInName :
    let source : Text := "subclass_t make() \x7b\n\x7d\n".toList
    ofText source = [⟨"bus".toList, "class_t make() \x7b\n\x7d".toList⟩] ∧
      ¬ BeginsAtKeyword source ⟨"bus".toList, "class_t make() \x7b\n\x7d".toList⟩ ∧
        (ofSource {} source).outlines.map Outline.name = ["make()".toList] := by
  decide

/--
No block of a text has a semicolon in front of its first brace exactly if each region that begins in
front of a semicolon, and of no brace before it, is followed by no body.  No outline of a source
comes from such a block exactly if, failing that, no name can be read at the start of the region.
-/
theorem forall_not_mem_header_iff
    (text : Text)
    (options : ScanOptions)
    (source : Text) :
    ((∀ block ∈ ofText text, ';' ∉ header block.text) ↔
      ∀ front behind, text = front ++ behind → RegionAt front behind → ';' ∈ header behind →
        Bodiless front behind) ∧
      ((∀ block ∈ ofText (Mask.visible source), (outlineOfBlock? options block).isSome = true →
        ';' ∉ header block.text) ↔
        ∀ front behind, Mask.visible source = front ++ behind → RegionAt front behind →
          ';' ∈ header behind → Bodiless front behind ∨ ¬ NamesClass behind) := by
  constructor
  · refine @forall_mem_ofText_iff text (fun block => ';' ∈ header block.text)
      (fun front behind => ';' ∈ header behind) fun block behind shape foundAt => ?_
    rw [header_eq_of_isPrefix foundAt.isPrefix foundAt.opens]
  · have blocks := @forall_mem_ofText_iff (Mask.visible source)
      (fun block => (outlineOfBlock? options block).isSome = true ∧ ';' ∈ header block.text)
      (fun front behind => NamesClass behind ∧ ';' ∈ header behind)
      fun block behind shape foundAt => by
        rw [isSome_outlineOfBlock?_iff options foundAt,
          header_eq_of_isPrefix foundAt.isPrefix foundAt.opens]
    simp only [not_and, and_imp] at blocks
    rw [blocks]
    refine forall₄_congr fun front behind shape regionAt => ⟨fun bodiless ends => ?_, ?_⟩
    · by_cases named : NamesClass behind
      · exact .inl (bodiless named ends)
      · exact .inr named
    · intro either named ends
      exact (either ends).resolve_right (not_not_intro named)

/-- A function behind a forward declaration is taken for the body of the class. -/
theorem outlines_forwardDeclaration :
    let source : Text := "class X;\nvoid f() \x7b\n\x7d\n".toList
    ofText source = [⟨[], "class X;\nvoid f() \x7b\n\x7d".toList⟩] ∧
      ';' ∈ header "class X;\nvoid f() \x7b\n\x7d".toList ∧
        (ofSource {} source).outlines.map Outline.name = ["X;\nvoid f()".toList] := by
  decide

end ClassOutline.Scan
