import ClassOutline.Proofs.Block.Declared
import ClassOutline.Proofs.Block.Extent
/-!
# Blocks cut in passes

The blocks of a text can be found in passes over lists of segments.  The text is cut at every
occurrence of a declaring word, and a segment at which the word is no keyword is glued to the one
in front of it.  Then a segment takes in those behind it until its braces are balanced.  Segments
that open no brace are dropped, and the others lose what stands behind the closing brace.

The passes find the same blocks as the single scan.  What carries the proof is one step of both
list passes taken together: the last segment is closed at an occurrence exactly if it is balanced
there and the word is a keyword.
-/

namespace ClassOutline.Block

/-! ## Segments -/

/-- A stretch of a text with the numbers of its braces. -/
structure Segment where
  block : Block
  opening : Nat
  closing : Nat
deriving DecidableEq, Repr

namespace Segment

/-- The segment of a stretch, with its braces counted. -/
def ofBlock (block : Block) : Segment where
  block
  opening := block.text.count '{'
  closing := block.text.count '}'

/-- The segment together with the one that follows it.  The counts are added up. -/
def extend (segment other : Segment) : Segment where
  block := { segment.block with text := segment.block.text ++ other.block.text }
  opening := segment.opening + other.opening
  closing := segment.closing + other.closing

/-- Whether as many braces are closed as are opened. -/
def isBalanced (segment : Segment) : Bool :=
  segment.opening = segment.closing

/-! ## The passes -/

/--
The text up to the next occurrence of a declaring word, and the stretches from each occurrence to
the next one, with their words.
-/
def stretchesFrom (past : Text) : Text → Text × List (Text × Block)
  | [] => ([], [])
  | current :: rest =>
    let (text, later) := stretchesFrom (current :: past) rest
    match declarationWord? (current :: rest) with
    | some word => ([], (word, ⟨past, current :: text⟩) :: later)
    | none => (current :: text, later)

/--
Puts one more stretch to the segments, of which the last one stands first.  The first stretch, and
one that begins with a keyword, starts a segment.
-/
def glueStep (whole : Text) : List Segment → Text × Block → List Segment
  | [], (_, block) => [ofBlock block]
  | last :: earlier, (word, block) =>
    if Reserved.standsAloneAt whole block.offset word then ofBlock block :: last :: earlier
    else last.extend (ofBlock block) :: earlier

/-- The text cut at the keywords that declare classes. -/
def splitAtKeywords (text : Text) : List Segment :=
  ((stretchesFrom [] text).2.foldl (glueStep text) []).reverse

/--
Puts one more segment to the merged ones, of which the last one stands first.  The flag tells
whether the last one still needs what follows it.
-/
def mergeStep : List Segment × Bool → Segment → List Segment × Bool
  | (last :: earlier, true), segment =>
    (last.extend segment :: earlier, !(last.extend segment).isBalanced)
  | (merged, _), segment => (segment :: merged, !segment.isBalanced)

/-- The segments with unbalanced ones extended until they are balanced. -/
def mergeUnbalanced (segments : List Segment) : List Segment :=
  (segments.foldl mergeStep ([], false)).1.reverse

/--
The text up to the place where an opening brace has been passed and the numbers of opening and
closing braces are equal; the whole text if there is no such place.
-/
def cutTail (opened : Bool) (opening closing : Nat) : Text → Text
  | [] => []
  | current :: rest =>
    let opened := opened || current = '{'
    let opening := if current = '{' then opening + 1 else opening
    let closing := if current = '}' then closing + 1 else closing
    if opened ∧ opening = closing then [current]
    else current :: cutTail opened opening closing rest

/-- The block of a stretch: without blanks around it, and without what follows the body. -/
def trimTail? (block : Block) : Option Block :=
  if block.text.trim.contains '{' then
    some
      { past := block.text.indentation.reverse ++ block.past
        text := cutTail false 0 0 block.text.trim }
  else none

/-- The blocks of a text, found in passes. -/
def blocks (text : Text) : List Block :=
  ((mergeUnbalanced (splitAtKeywords text)).filter fun segment => 0 < segment.opening).filterMap
    fun segment => trimTail? segment.block

/-! ## The list passes -/

/-- The segments that come of the last one and further stretches. -/
def gluedFrom (whole : Text) (last : Segment) : List (Text × Block) → List Segment
  | [] => [last]
  | (word, block) :: later =>
    if Reserved.standsAloneAt whole block.offset word then
      last :: gluedFrom whole (ofBlock block) later
    else gluedFrom whole (last.extend (ofBlock block)) later

/-- The merged segments that come of the last one and further segments. -/
def mergedFrom (last : Segment) : List Segment → List Segment
  | [] => [last]
  | segment :: later =>
    if last.isBalanced then last :: mergedFrom segment later
    else mergedFrom (last.extend segment) later

/-- The merged segments of a list of segments. -/
def merged : List Segment → List Segment
  | [] => []
  | first :: later => mergedFrom first later

theorem foldl_glueStep
    (whole : Text)
    (last : Segment)
    (earlier : List Segment)
    (stretches : List (Text × Block)) :
    (stretches.foldl (glueStep whole) (last :: earlier)).reverse =
      earlier.reverse ++ gluedFrom whole last stretches := by
  induction stretches generalizing last earlier with
  | nil => simp [gluedFrom]
  | cons stretch stretches hypothesis =>
    obtain ⟨word, block⟩ := stretch
    rw [List.foldl_cons, glueStep, gluedFrom]
    split
    · rw [hypothesis]
      simp
    · rw [hypothesis]

theorem foldl_mergeStep
    (last : Segment)
    (earlier segments : List Segment) :
    (segments.foldl mergeStep (last :: earlier, !last.isBalanced)).1.reverse =
      earlier.reverse ++ mergedFrom last segments := by
  induction segments generalizing last earlier with
  | nil => simp [mergedFrom]
  | cons segment segments hypothesis =>
    rw [List.foldl_cons, mergedFrom]
    cases balanced : last.isBalanced with
    | true =>
      have step : mergeStep (last :: earlier, false) segment =
          (segment :: last :: earlier, !segment.isBalanced) := rfl
      rw [Bool.not_true, step, hypothesis]
      simp
    | false =>
      rw [Bool.not_false, mergeStep, hypothesis]
      simp

theorem mergeUnbalanced_eq (segments : List Segment) :
    mergeUnbalanced segments = merged segments := by
  cases segments with
  | nil => rfl
  | cons first later => exact foldl_mergeStep first [] later

theorem extend_assoc (first second third : Segment) :
    (first.extend second).extend third = first.extend (second.extend third) := by
  simp [extend, Nat.add_assoc]

/-- What the last segment is extended by in front comes first in the first glued segment. -/
theorem gluedFrom_extend
    (whole : Text)
    (front last : Segment)
    (stretches : List (Text × Block)) :
    ∃ first later,
      gluedFrom whole last stretches = first :: later ∧
        gluedFrom whole (front.extend last) stretches = front.extend first :: later := by
  induction stretches generalizing last with
  | nil => exact ⟨last, [], rfl, rfl⟩
  | cons stretch stretches hypothesis =>
    obtain ⟨word, block⟩ := stretch
    rw [gluedFrom, gluedFrom]
    split
    · exact ⟨last, _, rfl, rfl⟩
    · rw [extend_assoc]
      exact hypothesis (last.extend (ofBlock block))

/-- One step of both passes: at a keyword behind a balanced segment the next one begins. -/
theorem merged_gluedFrom_cons
    (whole : Text)
    (last : Segment)
    (word : Text)
    (block : Block)
    (later : List (Text × Block)) :
    merged (gluedFrom whole last ((word, block) :: later)) =
      if last.isBalanced ∧ Reserved.standsAloneAt whole block.offset word then
        last :: merged (gluedFrom whole (ofBlock block) later)
      else merged (gluedFrom whole (last.extend (ofBlock block)) later) := by
  rw [gluedFrom]
  by_cases isKeyword : Reserved.standsAloneAt whole block.offset word = true
  · obtain ⟨first, others, glued, gluedExtended⟩ :=
      gluedFrom_extend whole last (ofBlock block) later
    rw [if_pos isKeyword, glued, gluedExtended, merged, mergedFrom]
    simp only [isKeyword, and_true]
    rfl
  · rw [if_neg isKeyword, if_neg fun both => isKeyword both.2]

/-! ## The passes and the scan -/

theorem isBalanced_ofBlock (block : Block) :
    (ofBlock block).isBalanced = decide (braces block.text = 0) := by
  have counted := braces_eq_count_sub_count block.text
  exact decide_eq_decide.mpr (by simp only [ofBlock]; omega)

theorem extend_ofBlock
    (past left right : Text)
    (rightPast : Text) :
    (ofBlock ⟨past, left⟩).extend (ofBlock ⟨rightPast, right⟩) = ofBlock ⟨past, left ++ right⟩ := by
  simp [extend, ofBlock]

/-- The scan asks of a word at its place what is asked of it in the whole text. -/
theorem standsAloneAt_eq_beginsDeclaration
    {past rest word : Text}
    (found : declarationWord? rest = some word) :
    Reserved.standsAloneAt (past.reverse ++ rest) past.width word = beginsDeclaration past rest := by
  obtain ⟨behind, rfl⟩ : word <+: rest :=
    List.isPrefixOf_iff_prefix.mp (by simpa using List.find?_some found)
  rw [beginsDeclaration, found, ← Text.width_reverse past, ← List.append_assoc,
    Reserved.standsAloneAt_width_append, List.getLast?_reverse, List.reverse_reverse]
  dsimp only
  rw [List.drop_left]

/-- The passes over the rest of a text go on with a region as the scan does. -/
theorem merged_gluedFrom_stretchesFrom
    {whole past text rest : Text}
    (shape : whole = past.reverse ++ text ++ rest) :
    merged (gluedFrom whole
        (ofBlock ⟨past, text ++ (stretchesFrom (text.reverse ++ past) rest).1⟩)
        (stretchesFrom (text.reverse ++ past) rest).2) =
      (⟨past, text ++ (regionsFrom (text.reverse ++ past) (braces text) rest).1⟩ ::
        (regionsFrom (text.reverse ++ past) (braces text) rest).2).map ofBlock := by
  induction rest generalizing past text with
  | nil => simp [stretchesFrom, regionsFrom, gluedFrom, merged, mergedFrom]
  | cons current rest hypothesis =>
    -- The region goes on with the character.
    have goesOn := @hypothesis past (text ++ [current]) (by rw [shape]; simp)
    have reversed : (text ++ [current]).reverse ++ past = current :: (text.reverse ++ past) := by
      simp
    have counted : braces (text ++ [current]) = braces text + braceChange current := by simp
    rw [reversed, counted, List.append_assoc, List.append_assoc, List.singleton_append,
      List.singleton_append] at goesOn
    rw [stretchesFrom, regionsFrom_cons]
    dsimp only
    cases found : declarationWord? (current :: rest) with
    | none =>
      have noBeginning : beginsDeclaration (text.reverse ++ past) (current :: rest) = false := by
        rw [beginsDeclaration, found]
      simpa [noBeginning] using goesOn
    | some word =>
      -- A region may begin with the character.
      have begins := @hypothesis (text.reverse ++ past) [current] (by rw [shape]; simp)
      have keyword := @standsAloneAt_eq_beginsDeclaration (text.reverse ++ past) _ _ found
      have sameWhole : (text.reverse ++ past).reverse ++ current :: rest = whole := by
        rw [shape]
        simp
      rw [sameWhole] at keyword
      dsimp only
      rw [List.append_nil, merged_gluedFrom_cons, isBalanced_ofBlock, extend_ofBlock]
      simp only [Block.offset, keyword]
      by_cases starts :
          braces text = 0 ∧ beginsDeclaration (text.reverse ++ past) (current :: rest) = true
      · rw [if_pos (by simpa using starts), if_pos starts]
        simp only [starts.1, Int.zero_add, List.append_nil, List.map_cons]
        simpa using begins
      · rw [if_neg (by simpa using starts), if_neg starts, goesOn]

/-- The merged segments are the regions. -/
theorem mergeUnbalanced_splitAtKeywords (text : Text) :
    mergeUnbalanced (splitAtKeywords text) = (regions text).map ofBlock := by
  have rest (past behind : Text) (shape : text = past.reverse ++ behind) :
      merged (((stretchesFrom past behind).2.foldl (glueStep text) []).reverse) =
        (regionsAfter past behind).map ofBlock := by
    induction behind generalizing past with
    | nil => rfl
    | cons current behind hypothesis =>
      have later := hypothesis (current :: past) (by rw [shape]; simp)
      rw [stretchesFrom, regionsAfter]
      dsimp only
      cases found : declarationWord? (current :: behind) with
      | none => simpa using later
      | some word =>
        have begins := @merged_gluedFrom_stretchesFrom text past [current] behind
          (by rw [shape]; simp)
        dsimp only
        rw [List.foldl_cons, glueStep, foldl_glueStep]
        simpa using begins
  rw [mergeUnbalanced_eq, splitAtKeywords]
  exact rest [] text rfl

/-! ## The end of a block -/

theorem cutTail_eq
    (opened : Bool)
    (opening closing : Nat)
    (text : Text) :
    cutTail opened opening closing text =
      (closedPart? opened ((opening : Int) - closing) text).getD text := by
  induction text generalizing opened opening closing with
  | nil => rfl
  | cons current rest hypothesis =>
    have counted :
        ((if current = '{' then opening + 1 else opening : Nat) : Int) -
            (if current = '}' then closing + 1 else closing : Nat) =
          (opening : Int) - closing + braceChange current := by
      by_cases opens : current = '{'
      · subst opens
        simp [braceChange]
        omega
      · by_cases closes : current = '}' <;> simp [braceChange, opens, closes]
        omega
    have equal : (if current = '{' then opening + 1 else opening) =
          (if current = '}' then closing + 1 else closing) ↔
        (opening : Int) - closing + braceChange current = 0 := by
      rw [← counted]
      omega
    rw [cutTail, closedPart?]
    simp only [equal, hypothesis, counted]
    split
    · rfl
    · cases closedPart? (opened || decide (current = '{'))
        ((opening : Int) - closing + braceChange current) rest <;> rfl

/-- A text without braces closes nothing that has been opened. -/
theorem closedPart?_append_braceless
    {opened : Bool}
    {depth : Int}
    {text tail : Text}
    (braceless : Braceless tail)
    (unclosed : ¬ (opened = true ∧ depth = 0)) :
    closedPart? opened depth (text ++ tail) = closedPart? opened depth text := by
  induction text generalizing opened depth with
  | nil =>
    have nothing := Declared.closedPart?_append braceless unclosed []
    simpa [closedPart?] using nothing
  | cons current text hypothesis =>
    rw [List.cons_append, closedPart?, closedPart?]
    split
    · rfl
    · next goesOn => rw [hypothesis goesOn]

theorem braceless_of_isBlank
    {text : Text}
    (blank : ∀ character ∈ text, Text.isBlank character = true) :
    Braceless text := by
  intro character member
  have isBlank := blank character member
  constructor <;> rintro rfl <;> exact absurd isBlank (by decide)

theorem exists_trimEnd_append (text : Text) :
    ∃ blanks, text = text.trimEnd ++ blanks ∧
      ∀ character ∈ blanks, Text.isBlank character = true := by
  refine ⟨(text.reverse.takeWhile Text.isBlank).reverse, ?_, fun character member => ?_⟩
  · rw [Text.trimEnd, ← List.reverse_append, List.takeWhile_append_dropWhile, List.reverse_reverse]
  · exact List.mem_takeWhile_imp (List.mem_reverse.mp member)

/-- A stretch that begins with a declaring word gives the block of its region. -/
theorem trimTail?_eq_ofRegion?
    {block : Block}
    (begins : ∃ word ∈ declarationWords, word <+: block.text)
    (opens : '{' ∈ block.text) :
    trimTail? block = ofRegion? block := by
  obtain ⟨word, isWord, behind, textShape⟩ := begins
  obtain ⟨first, letters, rfl⟩ := List.exists_cons_of_ne_nil (declarationWord_ne_nil word isWord)
  have notBlank : ∀ word ∈ declarationWords, ∀ first ∈ word.head?, Text.isBlank first = false := by
    decide
  have firstNotBlank := notBlank _ isWord first rfl
  have noIndentation : block.text.indentation = [] := by
    rw [← textShape, Text.indentation, List.cons_append, List.takeWhile_cons_of_neg]
    simp [firstNotBlank]
  have noBlanksInFront : block.text.trimStart = block.text := by
    rw [← textShape, Text.trimStart, List.cons_append, List.dropWhile_cons_of_neg]
    simp [firstNotBlank]
  obtain ⟨-, inTrimmed, -⟩ := trimEnd_of_mem opens (by decide)
  obtain ⟨blanks, shape, blank⟩ := exists_trimEnd_append block.text
  have sameClosing : closedPart? false 0 block.text = closedPart? false 0 block.text.trimEnd := by
    conv => lhs; rw [shape]
    exact closedPart?_append_braceless (braceless_of_isBlank blank) (by simp)
  have cut := cutTail_eq false 0 0 block.text.trimEnd
  rw [trimTail?, ofRegion?, Text.trim, noBlanksInFront, noIndentation,
    if_pos (List.contains_iff_mem.mpr inTrimmed), if_pos (List.contains_iff_mem.mpr opens),
    sameClosing, cut]
  rfl

/-- The passes find the blocks of a text. -/
theorem blocks_eq_ofText (text : Text) : blocks text = ofText text := by
  have begins : ∀ region ∈ regions text, ∃ word ∈ declarationWords, word <+: region.text :=
    fun region member => (isRegionOf_of_mem_regionsAfter region member).2
  rw [blocks, mergeUnbalanced_splitAtKeywords, ofText]
  generalize regions text = found at begins ⊢
  induction found with
  | nil => rfl
  | cons region later hypothesis =>
    have read := hypothesis fun other member => begins other (List.mem_cons_of_mem _ member)
    have opensIff : 0 < (ofBlock region).opening ↔ '{' ∈ region.text := List.count_pos_iff
    rw [List.map_cons]
    by_cases opens : '{' ∈ region.text
    · rw [List.filter_cons_of_pos (by simpa using opensIff.mpr opens), List.filterMap_cons,
        List.filterMap_cons, read]
      have same := trimTail?_eq_ofRegion? (begins region List.mem_cons_self) opens
      rw [← same]
      rfl
    · have noBlock : ofRegion? region = none := by
        rw [ofRegion?, if_neg (by simpa using opens)]
      rw [List.filter_cons_of_neg (by simpa using fun positive => opens (opensIff.mp positive)),
        List.filterMap_cons_none noBlock, read]

end Segment

end ClassOutline.Block
