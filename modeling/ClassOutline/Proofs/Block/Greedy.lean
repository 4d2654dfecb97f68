import ClassOutline.Proofs.Block.Segments
import Mathlib.Data.List.Forall2
/-!
# The greedy cut

What the blocks of a text are can be said without a scan.  The first region starts at the first
occurrence of a declaring word.  Each further one starts at the first keyword behind the start of
the last one up to which as many braces are closed as are opened.  There is exactly one such cut.

A region that opens a brace gives one block, which is the shortest beginning of the region that
closes what it opens, or all of the region but the blanks at its end.
-/

namespace ClassOutline.Block

/-! ## The cut -/

/-- A declaring word begins here. -/
def WordAt (behind : Text) : Prop :=
  ∃ word ∈ declarationWords, word <+: behind

/-- A declaring word that stands alone begins between two parts of a text. -/
def KeywordAt (front behind : Text) : Prop :=
  ∃ word ∈ declarationWords,
    word <+: behind ∧ Reserved.standsAloneAt (front ++ behind) front.width word = true

/-- A region with a given inside may end here: a keyword follows, and the braces are balanced. -/
def MayEnd (front inside behind : Text) : Prop :=
  inside ≠ [] ∧ KeywordAt (front ++ inside) behind ∧ inside.count '{' = inside.count '}'

/-- From its start on, the text behind another one is cut into regions, each as short as may be. -/
inductive CutsInto : Text → Text → List Block → Prop where
  | last
      {front text : Text}
      (noEnd : ∀ inside behind, text = inside ++ behind → ¬ MayEnd front inside behind) :
      CutsInto front text [⟨front.reverse, text⟩]
  | next
      {front inside behind : Text}
      {regions : List Block}
      (ends : MayEnd front inside behind)
      (least : ∀ shorter longer, inside = shorter ++ longer → longer ≠ [] →
        ¬ MayEnd front shorter (longer ++ behind))
      (later : CutsInto (front ++ inside) behind regions) :
      CutsInto front (inside ++ behind) (⟨front.reverse, inside⟩ :: regions)

/-- The text is cut into regions from the first occurrence of a declaring word on. -/
inductive GreedyCut : Text → List Block → Prop where
  | none
      {text : Text}
      (noWord : ∀ front behind, text = front ++ behind → ¬ WordAt behind) :
      GreedyCut text []
  | some
      {front behind : Text}
      {regions : List Block}
      (begins : WordAt behind)
      (first : ∀ shorter longer, front = shorter ++ longer → longer ≠ [] →
        ¬ WordAt (longer ++ behind))
      (cut : CutsInto front behind regions) :
      GreedyCut (front ++ behind) regions

/-- The text opens a brace and closes as many braces as it opens. -/
def Closes (text : Text) : Prop :=
  '{' ∈ text ∧ text.count '{' = text.count '}'

/--
The block of a region: its shortest beginning that closes what it opens, or, if there is none, the
region without the blanks at its end.
-/
def IsBlockOf (block region : Block) : Prop :=
  block.past = region.past ∧
    ((block.text <+: region.text ∧ Closes block.text ∧
        ∀ other, other <+: region.text → Closes other → block.text <+: other) ∨
      (∀ other, other <+: region.text → ¬ Closes other) ∧ block.text = region.text.trimEnd)

/-! ## There is one cut -/

/-- Of two beginnings of a text with the same property, neither of which is longer than needed. -/
theorem eq_of_least
    {property : Text → Text → Prop}
    {first second firstRest secondRest : Text}
    (same : first ++ firstRest = second ++ secondRest)
    (holdsFirst : property first firstRest)
    (holdsSecond : property second secondRest)
    (leastFirst : ∀ shorter longer, first = shorter ++ longer → longer ≠ [] →
      ¬ property shorter (longer ++ firstRest))
    (leastSecond : ∀ shorter longer, second = shorter ++ longer → longer ≠ [] →
      ¬ property shorter (longer ++ secondRest)) :
    first = second ∧ firstRest = secondRest := by
  rcases List.append_eq_append_iff.mp same with ⟨longer, rfl, rfl⟩ | ⟨longer, rfl, rfl⟩
  · by_cases noMore : longer = []
    · simp [noMore]
    · exact absurd holdsFirst (leastSecond first longer rfl noMore)
  · by_cases noMore : longer = []
    · simp [noMore]
    · exact absurd holdsSecond (leastFirst second longer rfl noMore)

theorem CutsInto.unique
    {front text : Text}
    {first second : List Block}
    (cutFirst : CutsInto front text first)
    (cutSecond : CutsInto front text second) :
    first = second := by
  induction cutFirst generalizing second with
  | last noEnd =>
    cases cutSecond with
    | last _ => rfl
    | next ends => exact absurd ends (noEnd _ _ rfl)
  | @next front inside behind regions ends least later hypothesis =>
    generalize shape : inside ++ behind = text at cutSecond
    cases cutSecond with
    | last noEnd => exact absurd ends (noEnd _ _ shape.symm)
    | next otherEnds otherLeast otherLater =>
      obtain ⟨rfl, rfl⟩ := @eq_of_least (MayEnd front) _ _ _ _ shape ends otherEnds least otherLeast
      rw [hypothesis otherLater]

/-- A text is cut into regions in one way at most. -/
theorem GreedyCut.unique
    {text : Text}
    {first second : List Block}
    (cutFirst : GreedyCut text first)
    (cutSecond : GreedyCut text second) :
    first = second := by
  cases cutFirst with
  | none noWord =>
    cases cutSecond with
    | none _ => rfl
    | some begins => exact absurd begins (noWord _ _ rfl)
  | @some front behind _ begins least cut =>
    generalize shape : front ++ behind = text at cutSecond
    cases cutSecond with
    | none noWord => exact absurd begins (noWord _ _ shape.symm)
    | some otherBegins otherLeast otherCut =>
      obtain ⟨rfl, rfl⟩ := @eq_of_least (fun _ => WordAt) _ _ _ _ shape begins otherBegins
        least otherLeast
      exact cut.unique otherCut

/-! ## The regions are the cut -/

theorem wordAt_iff (behind : Text) :
    WordAt behind ↔ (declarationWord? behind).isSome = true := by
  simp [WordAt, declarationWord?, List.find?_isSome, List.isPrefixOf_iff_prefix]

theorem keywordAt_iff (front behind : Text) :
    KeywordAt front behind ↔ beginsDeclaration front.reverse behind = true := by
  have sameWidth : Text.width front.reverse = front.width := Text.width_reverse front
  constructor
  · rintro ⟨word, isWord, begins, standsAlone⟩
    obtain ⟨found, isFound⟩ := Option.isSome_iff_exists.mp
      ((wordAt_iff behind).mp ⟨word, isWord, begins⟩)
    have same : found = word := by
      obtain ⟨rest, rfl⟩ := begins
      rw [declarationWord?_append isWord] at isFound
      exact (Option.some.inj isFound).symm
    have keyword := @Segment.standsAloneAt_eq_beginsDeclaration front.reverse _ _ isFound
    rw [List.reverse_reverse, sameWidth, same, standsAlone] at keyword
    exact keyword.symm
  · intro begins
    obtain ⟨word, found⟩ := Option.isSome_iff_exists.mp (isSome_of_beginsDeclaration begins)
    have keyword := @Segment.standsAloneAt_eq_beginsDeclaration front.reverse _ _ found
    rw [List.reverse_reverse, sameWidth, begins] at keyword
    exact
      ⟨word, List.mem_of_find?_eq_some found,
        List.isPrefixOf_iff_prefix.mp (by simpa using List.find?_some found), keyword⟩

theorem mayEnd_iff (front inside behind : Text) :
    MayEnd front inside behind ↔
      inside ≠ [] ∧ braces inside = 0 ∧
        beginsDeclaration (inside.reverse ++ front.reverse) behind = true := by
  have counted := braces_eq_count_sub_count inside
  rw [MayEnd, keywordAt_iff, List.reverse_append]
  refine and_congr_right fun _ => ?_
  rw [and_comm]
  exact and_congr_left fun _ => by omega

/-- The scan cuts the rest of a region where it may first end. -/
theorem cutsInto_regionsFrom
    {front inside : Text}
    (text : Text)
    (notEmpty : inside ≠ [])
    (least : ∀ shorter longer, inside = shorter ++ longer → longer ≠ [] →
      ¬ MayEnd front shorter (longer ++ text)) :
    let scanned := regionsFrom (inside.reverse ++ front.reverse) (braces inside) text
    CutsInto front (inside ++ text) (⟨front.reverse, inside ++ scanned.1⟩ :: scanned.2) := by
  induction text generalizing front inside with
  | nil =>
    simp only [regionsFrom, List.append_nil] at least ⊢
    refine .last fun shorter longer shape ends => ?_
    by_cases noMore : longer = []
    · have noWord : ¬ (declarationWord? []).isSome = true := by decide
      rw [mayEnd_iff, noMore] at ends
      exact noWord (isSome_of_beginsDeclaration ends.2.2)
    · exact least shorter longer shape noMore ends
  | cons current rest hypothesis =>
    rw [regionsFrom_cons]
    dsimp only
    by_cases ends : braces inside = 0 ∧
        beginsDeclaration (inside.reverse ++ front.reverse) (current :: rest) = true
    · -- The region ends here, and the next one has just its first character.
      have later := @hypothesis (front ++ inside) [current] (by simp) fun shorter longer shape more => by
        obtain ⟨rfl, -⟩ | ⟨-, rfl⟩ := List.append_eq_singleton_iff.mp shape.symm
        · exact fun mayEnd => mayEnd.1 rfl
        · contradiction
      rw [if_pos ends, ends.1, Int.zero_add]
      simp only [List.append_nil]
      refine .next ((mayEnd_iff _ _ _).mpr ⟨notEmpty, ends⟩) least ?_
      simpa using later
    · have goesOn := @hypothesis front (inside ++ [current]) (by simp) fun shorter longer shape more => by
        rcases List.append_eq_append_iff.mp shape with ⟨tail, rfl, tailShape⟩ | ⟨tail, rfl, rfl⟩
        · obtain ⟨rfl, rfl⟩ | ⟨rfl, rfl⟩ := List.append_eq_singleton_iff.mp tailShape.symm
          · rw [List.append_nil, mayEnd_iff]
            exact fun mayEnd => ends mayEnd.2
          · contradiction
        · by_cases noMore : tail = []
          · subst noMore
            rw [List.append_nil] at ends
            rw [mayEnd_iff]
            exact fun mayEnd => ends mayEnd.2
          · have shorterMay := least shorter tail rfl noMore
            rwa [List.append_assoc]
      rw [if_neg ends]
      simpa using goesOn

theorem greedyCut_regionsAfter
    {front : Text}
    (text : Text)
    (noWord : ∀ shorter longer, front = shorter ++ longer → longer ≠ [] →
      ¬ WordAt (longer ++ text)) :
    GreedyCut (front ++ text) (regionsAfter front.reverse text) := by
  induction text generalizing front with
  | nil =>
    refine .none fun shorter longer shape begins => ?_
    by_cases noMore : longer = []
    · subst noMore
      exact absurd ((wordAt_iff []).mp begins) (by decide)
    · rw [List.append_nil] at shape
      exact noWord shorter longer shape noMore (by rwa [List.append_nil])
  | cons current rest hypothesis =>
    rw [regionsAfter]
    by_cases isWord : (declarationWord? (current :: rest)).isSome = true
    · have cut := @cutsInto_regionsFrom front [current] rest (by simp)
        fun shorter longer shape more => by
          obtain ⟨rfl, -⟩ | ⟨-, rfl⟩ := List.append_eq_singleton_iff.mp shape.symm
          · exact fun mayEnd => mayEnd.1 rfl
          · contradiction
      rw [if_pos isWord]
      refine .some ((wordAt_iff _).mpr isWord) noWord ?_
      simpa using cut
    · have later := @hypothesis (front ++ [current]) fun shorter longer shape more => by
        rcases List.append_eq_append_iff.mp shape with ⟨tail, rfl, tailShape⟩ | ⟨tail, rfl, rfl⟩
        · obtain ⟨rfl, rfl⟩ | ⟨rfl, rfl⟩ := List.append_eq_singleton_iff.mp tailShape.symm
          · exact fun begins => isWord ((wordAt_iff _).mp begins)
          · contradiction
        · by_cases noMore : tail = []
          · subst noMore
            exact fun begins => isWord ((wordAt_iff _).mp begins)
          · have shorterWord := noWord shorter tail rfl noMore
            rwa [List.append_assoc]
      rw [if_neg isWord]
      simpa using later

/-- The regions of a text are the one way to cut it. -/
theorem greedyCut_iff
    (text : Text)
    (cut : List Block) :
    GreedyCut text cut ↔ cut = regions text := by
  have isCut : GreedyCut text (regions text) :=
    @greedyCut_regionsAfter [] text fun shorter longer shape more => by
      exact absurd (List.append_eq_nil_iff.mp shape.symm).2 more
  exact ⟨fun other => other.unique isCut, fun same => same ▸ isCut⟩

/-! ## The block of a region -/

theorem closes_iff (text : Text) : Closes text ↔ '{' ∈ text ∧ braces text = 0 := by
  have counted := braces_eq_count_sub_count text
  rw [Closes]
  exact and_congr_right fun _ => by omega

/-- A closed part is the shortest one, and if none is found there is none. -/
theorem closedPart?_least
    {opened : Bool}
    {depth : Int}
    {text : Text}
    (unclosed : ¬ (opened = true ∧ depth = 0)) :
    (∀ part, closedPart? opened depth text = some part →
      depth + braces part = 0 ∧
        ∀ other, other <+: text → (opened = true ∨ '{' ∈ other) → depth + braces other = 0 →
          part <+: other) ∧
      (closedPart? opened depth text = none →
        ∀ other, other <+: text → ¬ ((opened = true ∨ '{' ∈ other) ∧ depth + braces other = 0)) := by
  have notEmpty {other : Text} (opens : opened = true ∨ '{' ∈ other)
      (closes : depth + braces other = 0) : other ≠ [] := by
    rintro rfl
    rw [braces_nil, Int.add_zero] at closes
    exact unclosed ⟨opens.resolve_right List.not_mem_nil, closes⟩
  induction text generalizing opened depth with
  | nil =>
    refine ⟨fun part closed => by contradiction, fun _ other isPrefix both => ?_⟩
    exact notEmpty both.1 both.2 (List.prefix_nil.mp isPrefix)
  | cons current rest hypothesis =>
    -- The first character of any beginning is the current one.
    have step {other : Text} (isPrefix : other <+: current :: rest)
        (opens : opened = true ∨ '{' ∈ other) (closes : depth + braces other = 0) :
        ∃ later, other = current :: later ∧ later <+: rest ∧
          ((opened || decide (current = '{')) = true ∨ '{' ∈ later) ∧
            depth + braceChange current + braces later = 0 := by
      obtain ⟨first, later, rfl⟩ := List.exists_cons_of_ne_nil (notEmpty opens closes)
      obtain ⟨rfl, isLater⟩ := List.cons_prefix_cons.mp isPrefix
      refine ⟨later, rfl, isLater, ?_, by rw [Int.add_assoc]; exact closes⟩
      rcases opens with isOpened | member
      · exact .inl (by simp [isOpened])
      · rcases List.mem_cons.mp member with rfl | inLater
        · exact .inl (by simp)
        · exact .inr inLater
    rw [closedPart?]
    by_cases ends : (opened || decide (current = '{')) = true ∧ depth + braceChange current = 0
    · rw [if_pos ends]
      refine ⟨fun part closed => ?_, fun closed => by contradiction⟩
      obtain rfl := Option.some.inj closed
      refine ⟨by simpa using ends.2, fun other isPrefix opens closes => ?_⟩
      obtain ⟨later, rfl, -⟩ := step isPrefix opens closes
      exact List.cons_prefix_cons.mpr ⟨rfl, List.nil_prefix⟩
    · obtain ⟨isLeast, noPart⟩ := hypothesis ends fun opens closes => by
        rintro rfl
        rw [braces_nil, Int.add_zero] at closes
        exact ends ⟨opens.resolve_right List.not_mem_nil, closes⟩
      rw [if_neg ends]
      constructor
      · intro part closed
        obtain ⟨part, closedLater, rfl⟩ := Option.map_eq_some_iff.mp closed
        obtain ⟨closes, least⟩ := isLeast part closedLater
        refine ⟨by rw [braces_cons, ← Int.add_assoc]; exact closes, fun other isPrefix opens sum => ?_⟩
        obtain ⟨later, rfl, isLater, opensLater, closesLater⟩ := step isPrefix opens sum
        exact List.cons_prefix_cons.mpr ⟨rfl, least later isLater opensLater closesLater⟩
      · intro closed other isPrefix both
        obtain ⟨later, rfl, isLater, opensLater, closesLater⟩ := step isPrefix both.1 both.2
        exact noPart (Option.map_eq_none_iff.mp closed) later isLater ⟨opensLater, closesLater⟩

theorem isBlockOf_of_ofRegion?
    {region block : Block}
    (found : ofRegion? region = some block) :
    IsBlockOf block region := by
  obtain ⟨isLeast, noPart⟩ := @closedPart?_least false 0 region.text (by simp)
  rw [ofRegion?] at found
  split at found
  · next opens =>
    obtain rfl := Option.some.inj found
    refine ⟨rfl, ?_⟩
    cases closed : closedPart? false 0 region.text with
    | some part =>
      obtain ⟨isPrefix, holdsOpening, -⟩ := closedPart?_eq_some closed (by simp)
      obtain ⟨closes, least⟩ := isLeast part closed
      rw [Int.zero_add] at closes
      refine .inl ⟨isPrefix, (closes_iff part).mpr ⟨holdsOpening rfl, closes⟩, ?_⟩
      intro other isOther closesOther
      obtain ⟨opensOther, sumOther⟩ := (closes_iff other).mp closesOther
      exact least other isOther (.inr opensOther) (by rw [Int.zero_add]; exact sumOther)
    | none =>
      refine .inr ⟨fun other isOther closesOther => ?_, rfl⟩
      obtain ⟨opensOther, sumOther⟩ := (closes_iff other).mp closesOther
      exact noPart closed other isOther ⟨.inr opensOther, by rw [Int.zero_add]; exact sumOther⟩
  · contradiction

theorem forall₂_isBlockOf (regions : List Block) :
    List.Forall₂ IsBlockOf (regions.filterMap ofRegion?)
      (regions.filter fun region => region.text.contains '{') := by
  induction regions with
  | nil => exact .nil
  | cons region later hypothesis =>
    by_cases opens : region.text.contains '{' = true
    · obtain ⟨block, found⟩ : ∃ block, ofRegion? region = some block := by
        rw [ofRegion?, if_pos opens]
        exact ⟨_, rfl⟩
      rw [List.filterMap_cons_some found, List.filter_cons, if_pos opens]
      exact .cons (isBlockOf_of_ofRegion? found) hypothesis
    · have noBlock : ofRegion? region = none := by
        rw [ofRegion?, if_neg opens]
      rw [List.filterMap_cons_none noBlock, List.filter_cons, if_neg opens]
      exact hypothesis

/-! ## The blocks of a text -/

/-- A block ends at the offset at which the next one begins, or in front of it. -/
theorem offset_add_width_le
    {earlier later : Block}
    (precedes : earlier.Precedes later) :
    earlier.offset + earlier.text.width ≤ later.offset := by
  obtain ⟨between, shape⟩ := precedes
  rw [offset, offset, ← shape, Text.width_append, Text.width_append, Text.width_reverse]
  omega

/--
The blocks of a text, which are found in passes too, are those of the regions that open a brace,
where the regions are the one greedy cut of the text.  So blocks do not overlap, and their offsets
increase.
-/
theorem ofText_isGreedyCut (text : Text) :
    Segment.blocks text = ofText text ∧
      (∃ regions : List Block,
        (∀ cut, GreedyCut text cut ↔ cut = regions) ∧
          List.Forall₂ IsBlockOf (ofText text)
            (regions.filter fun region => region.text.contains '{')) ∧
        (ofText text).Pairwise fun earlier later =>
          earlier.offset + earlier.text.width ≤ later.offset ∧ earlier.offset < later.offset := by
  refine ⟨Segment.blocks_eq_ofText text,
    ⟨regions text, greedyCut_iff text, forall₂_isBlockOf (regions text)⟩, ?_⟩
  refine (pairwise_ofText text).imp_of_mem fun {earlier later} isBlock _ precedes => ?_
  have apart := offset_add_width_le precedes
  have positive : 0 < earlier.text.width := by
    obtain ⟨last, isLast, -⟩ := (isStretchOf_of_mem_ofText text earlier isBlock).ends
    refine Nat.pos_of_ne_zero fun noWidth => ?_
    rw [Text.eq_nil_of_width noWidth] at isLast
    contradiction
  exact ⟨apart, by omega⟩

end ClassOutline.Block
