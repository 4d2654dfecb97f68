import ClassOutline.Proofs.Block.Regions
import ClassOutline.Proofs.Text.Words
import Mathlib.Data.List.TakeWhile
/-!
# Where blocks lie

The blocks of a text are stretches of it that follow each other without overlapping.  Each begins
with one of the declaring words and ends with a character that is not blank.
-/

namespace ClassOutline.Block

/-- A block ends where the other one begins, or in front of it. -/
def Precedes (earlier later : Block) : Prop :=
  earlier.text.reverse ++ earlier.past <:+ later.past

/-- A block is a stretch of a text that begins with a declaring word and does not end in blanks. -/
structure IsStretchOf (block : Block) (text : Text) : Prop where
  isPrefix : block.above ++ block.text <+: text
  begins : ∃ word ∈ declarationWords, word <+: block.text
  ends : ∃ last ∈ block.text.getLast?, Text.isBlank last = false

/-! ## Regions -/

theorem isPrefix_regionsFrom
    (past : Text)
    (depth : Int)
    (text : Text) :
    (regionsFrom past depth text).1 <+: text := by
  conv => rhs; rw [← append_flatten_regionsFrom past depth text]
  exact List.prefix_append _ _

/-- Behind a character that is no delimiter no region begins, so a word is not cut. -/
theorem isPrefix_regionsFrom_append
    {previous : Char}
    {past word : Text}
    (depth : Int)
    (notDelimiter : Reserved.isDelimiter previous = false)
    (noDelimiters : ∀ character ∈ word, Reserved.isDelimiter character = false)
    (rest : Text) :
    word <+: (regionsFrom (previous :: past) depth (word ++ rest)).1 := by
  induction word generalizing previous past depth with
  | nil => exact List.nil_prefix
  | cons first word hypothesis =>
    have noBeginning : beginsDeclaration (previous :: past) (first :: (word ++ rest)) = false := by
      rw [beginsDeclaration]
      split
      · exact Reserved.standsAlone_eq_false _ _ notDelimiter
      · rfl
    have later := @hypothesis first (previous :: past) (depth + braceChange first)
      (noDelimiters first List.mem_cons_self)
      fun character member => noDelimiters character (List.mem_cons_of_mem _ member)
    rw [List.cons_append, regionsFrom_cons]
    simp only [noBeginning, Bool.false_eq_true, and_false, if_false]
    exact List.cons_prefix_cons.mpr ⟨rfl, later⟩

/-- A region that begins at a declaring word holds the whole word. -/
theorem exists_isPrefix_region
    {current : Char}
    {rest : Text}
    (past : Text)
    (depth : Int)
    (begins : (declarationWord? (current :: rest)).isSome = true) :
    ∃ word ∈ declarationWords,
      word <+: current :: (regionsFrom (current :: past) depth rest).1 := by
  obtain ⟨word, found⟩ := Option.isSome_iff_exists.mp begins
  have isWord : word ∈ declarationWords := List.mem_of_find?_eq_some found
  have isPrefix : word <+: current :: rest :=
    List.isPrefixOf_iff_prefix.mp (by simpa using List.find?_some found)
  have noDelimiters := isDelimiter_eq_false_of_mem_declarationWords word isWord
  refine ⟨word, isWord, ?_⟩
  obtain ⟨first, tail, rfl⟩ := List.exists_cons_of_ne_nil (declarationWord_ne_nil word isWord)
  obtain ⟨rfl, tailPrefix⟩ := List.cons_prefix_cons.mp isPrefix
  obtain ⟨later, rfl⟩ := tailPrefix
  exact List.cons_prefix_cons.mpr
    ⟨rfl,
      isPrefix_regionsFrom_append depth (noDelimiters first List.mem_cons_self)
        (fun character member => noDelimiters character (List.mem_cons_of_mem _ member)) later⟩

theorem isSome_of_beginsDeclaration
    {past rest : Text}
    (begins : beginsDeclaration past rest = true) :
    (declarationWord? rest).isSome = true := by
  rw [beginsDeclaration] at begins
  split at begins
  · next found => simp [found]
  · contradiction

/-- A region of a text: a stretch of it that begins with a declaring word. -/
def IsRegionOf (region : Block) (past text : Text) : Prop :=
  (region.above ++ region.text <+: past.reverse ++ text) ∧
    ∃ word ∈ declarationWords, word <+: region.text

theorem isRegionOf_cons
    {region : Block}
    {past rest : Text}
    {current : Char}
    (isRegion : IsRegionOf region (current :: past) rest) :
    IsRegionOf region past (current :: rest) := by
  simpa [IsRegionOf] using isRegion

theorem isRegionOf_of_declarationWord?
    {current : Char}
    {rest : Text}
    (past : Text)
    (depth : Int)
    (begins : (declarationWord? (current :: rest)).isSome = true) :
    IsRegionOf ⟨past, current :: (regionsFrom (current :: past) depth rest).1⟩ past
      (current :: rest) := by
  refine ⟨?_, exists_isPrefix_region past depth begins⟩
  exact (List.prefix_append_right_inj _).mpr
    (List.cons_prefix_cons.mpr ⟨rfl, isPrefix_regionsFrom _ _ rest⟩)

theorem isRegionOf_of_mem_regionsFrom
    {past text : Text}
    {depth : Int} :
    ∀ region ∈ (regionsFrom past depth text).2, IsRegionOf region past text := by
  induction text generalizing past depth with
  | nil => simp [regionsFrom]
  | cons current rest hypothesis =>
    intro region member
    rw [regionsFrom_cons] at member
    dsimp only at member
    split at member
    · next begins =>
      rcases List.mem_cons.mp member with rfl | later
      · exact isRegionOf_of_declarationWord? past _ (isSome_of_beginsDeclaration begins.2)
      · exact isRegionOf_cons (hypothesis region later)
    · exact isRegionOf_cons (hypothesis region member)

/-- The regions that begin inside a region lie behind its text. -/
theorem isSuffix_of_mem_regionsFrom
    {past text : Text}
    {depth : Int} :
    ∀ region ∈ (regionsFrom past depth text).2,
      (regionsFrom past depth text).1.reverse ++ past <:+ region.past := by
  induction text generalizing past depth with
  | nil => simp [regionsFrom]
  | cons current rest hypothesis =>
    intro region member
    rw [regionsFrom_cons] at member ⊢
    dsimp only at member ⊢
    split at member
    · next begins =>
      rw [if_pos begins]
      rcases List.mem_cons.mp member with rfl | later
      · exact List.suffix_rfl
      · have behind := hypothesis region later
        have here : past <:+ (regionsFrom (current :: past) (depth + braceChange current) rest).1.reverse
            ++ current :: past :=
          (List.suffix_cons current past).trans (List.suffix_append _ _)
        exact here.trans behind
    · next notBegins =>
      rw [if_neg notBegins]
      simpa using hypothesis region member

theorem pairwise_regionsFrom
    (past : Text)
    (depth : Int)
    (text : Text) :
    (regionsFrom past depth text).2.Pairwise Precedes := by
  induction text generalizing past depth with
  | nil => simp [regionsFrom]
  | cons current rest hypothesis =>
    rw [regionsFrom_cons]
    dsimp only
    split
    · refine List.pairwise_cons.mpr ⟨fun region later => ?_, hypothesis _ _⟩
      simpa [Precedes] using isSuffix_of_mem_regionsFrom region later
    · exact hypothesis _ _

theorem isRegionOf_of_mem_regionsAfter
    {past text : Text} :
    ∀ region ∈ regionsAfter past text, IsRegionOf region past text := by
  induction text generalizing past with
  | nil => simp [regionsAfter]
  | cons current rest hypothesis =>
    intro region member
    rw [regionsAfter] at member
    split at member
    · next begins =>
      rcases List.mem_cons.mp member with rfl | later
      · exact isRegionOf_of_declarationWord? past _ begins
      · exact isRegionOf_cons (isRegionOf_of_mem_regionsFrom region later)
    · exact isRegionOf_cons (hypothesis region member)

theorem pairwise_regionsAfter
    (past text : Text) :
    (regionsAfter past text).Pairwise Precedes := by
  induction text generalizing past with
  | nil => simp [regionsAfter]
  | cons current rest hypothesis =>
    rw [regionsAfter]
    split
    · refine List.pairwise_cons.mpr ⟨fun region later => ?_, pairwise_regionsFrom _ _ _⟩
      simpa [Precedes] using isSuffix_of_mem_regionsFrom region later
    · exact hypothesis _

/-! ## The block of a region -/

theorem closedPart?_eq_some
    {opened : Bool}
    {depth : Int}
    {text part : Text}
    (closed : closedPart? opened depth text = some part)
    (unclosed : ¬ (opened = true ∧ depth = 0)) :
    part <+: text ∧ (opened = false → '{' ∈ part) ∧
      ∃ last ∈ part.getLast?, Text.isBlank last = false := by
  induction text generalizing opened depth part with
  | nil => contradiction
  | cons current rest hypothesis =>
    rw [closedPart?] at closed
    split at closed
    · next ends =>
      obtain rfl := Option.some.inj closed
      -- The depth has just become zero, so the character is a brace.
      have isBrace : current = '{' ∨ current = '}' := by
        by_contra noBrace
        obtain ⟨noOpening, noClosing⟩ := not_or.mp noBrace
        rw [braceChange_eq_zero noOpening noClosing] at ends
        exact unclosed (by simpa [noOpening] using ends)
      refine ⟨by simp, fun notOpened => ?_, current, rfl, ?_⟩
      · simpa [notOpened, eq_comm] using ends.1
      · rcases isBrace with rfl | rfl <;> decide
    · next goesOn =>
      obtain ⟨later, closedLater, rfl⟩ := Option.map_eq_some_iff.mp closed
      obtain ⟨isPrefix, holdsOpening, last, isLast, notBlank⟩ := hypothesis closedLater goesOn
      refine ⟨List.cons_prefix_cons.mpr ⟨rfl, isPrefix⟩, fun notOpened => ?_, last, ?_, notBlank⟩
      · by_cases isOpening : current = '{'
        · simp [isOpening]
        · exact List.mem_cons_of_mem _ (holdsOpening (by simp [notOpened, isOpening]))
      · cases later with
        | nil => simp at isLast
        | cons second later => simpa using isLast

theorem trimEnd_of_mem
    {text : Text}
    {character : Char}
    (member : character ∈ text)
    (notBlank : Text.isBlank character = false) :
    text.trimEnd <+: text ∧ character ∈ text.trimEnd ∧
      ∃ last ∈ text.trimEnd.getLast?, Text.isBlank last = false := by
  have stays : character ∈ text.reverse.dropWhile Text.isBlank :=
    Text.mem_trimStart (List.mem_reverse.mpr member) notBlank
  refine ⟨?_, List.mem_reverse.mpr stays, ?_⟩
  · rw [← List.reverse_suffix, Text.trimEnd, List.reverse_reverse]
    exact List.dropWhile_suffix _
  · rw [Text.trimEnd, List.getLast?_reverse]
    have first := List.head?_dropWhile_not Text.isBlank text.reverse
    cases shape : text.reverse.dropWhile Text.isBlank with
    | nil => simp [shape] at stays
    | cons last rest =>
      rw [shape] at first
      exact ⟨last, rfl, first⟩

theorem ofRegion?_eq_some
    {region block : Block}
    (found : ofRegion? region = some block) :
    block.past = region.past ∧ block.text <+: region.text ∧ '{' ∈ block.text ∧
      ∃ last ∈ block.text.getLast?, Text.isBlank last = false := by
  rw [ofRegion?] at found
  split at found
  · next opens =>
    obtain rfl := Option.some.inj found
    refine ⟨rfl, ?_⟩
    dsimp only
    cases closed : closedPart? false 0 region.text with
    | some part =>
      obtain ⟨isPrefix, holdsOpening, ends⟩ := closedPart?_eq_some closed (by simp)
      exact ⟨isPrefix, holdsOpening rfl, ends⟩
    | none => exact trimEnd_of_mem (List.contains_iff_mem.mp opens) (by decide)
  · contradiction

/-! ## The blocks of a text -/

theorem isStretchOf_of_ofRegion?
    {region block : Block}
    {text : Text}
    (isRegion : IsRegionOf region [] text)
    (found : ofRegion? region = some block) :
    IsStretchOf block text := by
  obtain ⟨samePast, isPrefix, holdsOpening, ends⟩ := ofRegion?_eq_some found
  obtain ⟨regionPrefix, word, isWord, begins⟩ := isRegion
  refine ⟨?_, ⟨word, isWord, ?_⟩, ends⟩
  · have shorter : block.above ++ block.text <+: region.above ++ region.text := by
      rw [above, above, samePast]
      exact (List.prefix_append_right_inj _).mpr isPrefix
    exact shorter.trans (by simpa using regionPrefix)
  · -- The block holds a brace and the word does not, so the word ends inside the block.
    have noBrace : ∀ other ∈ declarationWords, '{' ∉ other := by decide
    rcases List.prefix_or_prefix_of_prefix begins isPrefix with inside | outside
    · exact inside
    · exact absurd (outside.subset holdsOpening) (noBrace word isWord)

theorem isStretchOf_of_mem_ofText
    (text : Text) :
    ∀ block ∈ ofText text, IsStretchOf block text := by
  intro block member
  obtain ⟨region, isRegion, found⟩ := List.mem_filterMap.mp member
  exact isStretchOf_of_ofRegion? (isRegionOf_of_mem_regionsAfter region isRegion) found

/-- Blocks follow each other without overlapping. -/
theorem pairwise_ofText (text : Text) : (ofText text).Pairwise Precedes := by
  refine (pairwise_regionsAfter [] text).filterMap _ ?_
  intro earlier later precedes earlierBlock foundEarlier laterBlock foundLater
  obtain ⟨sameEarlier, isPrefix, -⟩ := ofRegion?_eq_some foundEarlier
  obtain ⟨sameLater, -⟩ := ofRegion?_eq_some foundLater
  have shorter : earlierBlock.text.reverse ++ earlierBlock.past <:+
      earlier.text.reverse ++ earlier.past := by
    obtain ⟨rest, shape⟩ := isPrefix
    rw [sameEarlier, ← shape, List.reverse_append, List.append_assoc]
    exact List.suffix_append _ _
  rw [Precedes, sameLater]
  exact shorter.trans precedes

end ClassOutline.Block
