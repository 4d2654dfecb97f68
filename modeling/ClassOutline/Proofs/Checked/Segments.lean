import ClassOutline.Proofs.Checked.Keywords
import ClassOutline.Proofs.Checked.Marks
/-!
# Segments by offsets

A segment is given by the offsets between which it lies, and its text is cut out to count the
braces.  The segments are glued together and merged by their offsets.  In the end the text of a
segment is cut out once more, and again behind the brace that closes the body.

The stretches between the marks lie side by side, so a segment that is extended by the next one ends
where that one ends.  A block ends behind a brace, which is a single byte, or at the end of its
segment.
-/

namespace ClassOutline

/-! ## Stretches side by side -/

namespace Block

/-- The blocks make up the text behind a given past. -/
def Tiles (text past : Text) : List Block → Prop
  | [] => text = past.reverse
  | block :: later => block.past = past ∧ Tiles text (block.text.reverse ++ past) later

namespace Tiles

variable {text past : Text} {block other : Block} {later : List Block}

theorem exists_eq_append
    {blocks : List Block}
    (tiles : Tiles text past blocks) :
    ∃ after, text = past.reverse ++ after := by
  induction blocks generalizing past with
  | nil => exact ⟨[], tiles.trans (List.append_nil _).symm⟩
  | cons block later hypothesis =>
    obtain ⟨after, shape⟩ := hypothesis tiles.2
    exact ⟨block.text ++ after, by rw [shape]; simp⟩

theorem shape (tiles : Tiles text past (block :: later)) :
    ∃ after, text = block.above ++ (block.text ++ after) := by
  obtain ⟨rfl, tilesLater⟩ := tiles
  obtain ⟨after, shape⟩ := tilesLater.exists_eq_append
  exact ⟨after, by rw [shape, above]; simp⟩

/-- Two blocks side by side can be put together. -/
theorem append (tiles : Tiles text past (block :: other :: later)) :
    Tiles text past ({ block with text := block.text ++ other.text } :: later) := by
  obtain ⟨samePast, -, tilesLater⟩ := tiles
  refine ⟨samePast, ?_⟩
  rwa [List.reverse_append, List.append_assoc]

end Tiles

namespace Segment

theorem tiles_stretchesFrom (past rest : Text) :
    Tiles (past.reverse ++ rest) ((stretchesFrom past rest).1.reverse ++ past)
      ((stretchesFrom past rest).2.map Prod.snd) := by
  induction rest generalizing past with
  | nil => simp [stretchesFrom, Tiles]
  | cons current rest hypothesis =>
    have later := hypothesis (current :: past)
    rw [List.reverse_cons, List.append_assoc, List.singleton_append] at later
    rw [stretchesFrom]
    cases declarationWord? (current :: rest) with
    | none => simpa using later
    | some word => exact ⟨rfl, by simpa using later⟩

/-- A stretch begins with its word. -/
theorem exists_of_mem_stretchesFrom
    {past rest : Text} :
    ∀ stretch ∈ (stretchesFrom past rest).2,
      ∃ behind, past.reverse ++ rest = stretch.2.above ++ stretch.1 ++ behind := by
  induction rest generalizing past with
  | nil => simp [stretchesFrom]
  | cons current rest hypothesis =>
    intro stretch member
    have later (isLater : stretch ∈ (stretchesFrom (current :: past) rest).2) :
        ∃ behind, past.reverse ++ current :: rest = stretch.2.above ++ stretch.1 ++ behind := by
      obtain ⟨behind, shape⟩ := hypothesis stretch isLater
      exact ⟨behind, by rw [← shape]; simp⟩
    rw [stretchesFrom] at member
    cases found : declarationWord? (current :: rest) with
    | none =>
      rw [found] at member
      exact later member
    | some word =>
      rw [found] at member
      rcases List.mem_cons.mp member with rfl | isLater
      · obtain ⟨behind, shape⟩ : word <+: current :: rest :=
          List.isPrefixOf_iff_prefix.mp (by simpa using List.find?_some found)
        exact ⟨behind, by rw [← shape]; simp [above]⟩
      · exact later isLater

theorem tiles_gluedFrom
    {text past : Text}
    {last : Segment}
    {stretches : List (Text × Block)}
    (tiles : Tiles text past (last.block :: stretches.map Prod.snd)) :
    Tiles text past ((gluedFrom text last stretches).map Segment.block) := by
  induction stretches generalizing last past with
  | nil => exact tiles
  | cons stretch stretches hypothesis =>
    obtain ⟨word, block⟩ := stretch
    rw [gluedFrom]
    split
    · exact ⟨tiles.1, hypothesis tiles.2⟩
    · exact hypothesis tiles.append

/-- The segments lie side by side. -/
theorem exists_tiles_splitAtKeywords (text : Text) :
    ∃ past, Tiles text past ((splitAtKeywords text).map Segment.block) := by
  have tiles := tiles_stretchesFrom [] text
  refine ⟨(stretchesFrom [] text).1.reverse ++ [], ?_⟩
  rw [splitAtKeywords]
  cases found : (stretchesFrom [] text).2 with
  | nil =>
    rw [found] at tiles
    exact tiles
  | cons stretch stretches =>
    obtain ⟨word, block⟩ := stretch
    rw [found] at tiles
    rw [List.foldl_cons, glueStep, foldl_glueStep]
    exact tiles_gluedFrom tiles

end Segment

end Block

namespace Checked

open Block Block.Segment

/-! ## Spans -/

/-- A segment given by its offsets in a text, with the numbers of its braces. -/
structure Span where
  start : Nat
  stop : Nat
  opening : Nat
  closing : Nat
deriving DecidableEq, Repr

namespace Span

/-- The span between two offsets, with its braces counted. -/
def between? (text : Text) (start stop : Nat) : Option Span := do
  let part ← slice? text start stop
  some { start, stop, opening := part.count '{', closing := part.count '}' }

/-- The span up to the end of the one that follows it.  The counts are added up. -/
def extend (span other : Span) : Span where
  start := span.start
  stop := other.stop
  opening := span.opening + other.opening
  closing := span.closing + other.closing

/-- Whether as many braces are closed as are opened. -/
def isBalanced (span : Span) : Bool :=
  span.opening = span.closing

/-- The place of a segment. -/
def ofSegment (segment : Segment) : Span where
  start := segment.block.offset
  stop := segment.block.offset + segment.block.text.width
  opening := segment.opening
  closing := segment.closing

theorem between?_offset
    {text after : Text}
    {block : Block}
    (shape : text = block.above ++ (block.text ++ after)) :
    between? text block.offset (block.offset + block.text.width) =
      some (ofSegment (Segment.ofBlock block)) := by
  have offset := block.offset_eq_width_above
  rw [between?, slice?_eq_some shape offset (by rw [offset])]
  rfl

/-- The spans of segments side by side are extended as the segments are. -/
theorem extend_ofSegment
    {segment other : Segment}
    (joins : other.block.past = segment.block.text.reverse ++ segment.block.past) :
    (ofSegment segment).extend (ofSegment other) = ofSegment (segment.extend other) := by
  have offset : other.block.offset = segment.block.offset + segment.block.text.width := by
    rw [Block.offset, joins, Text.width_append, Text.width_reverse, Nat.add_comm]
    rfl
  have stop : other.block.offset + other.block.text.width =
      segment.block.offset + Text.width (segment.block.text ++ other.block.text) := by
    rw [offset, Text.width_append, Nat.add_assoc]
  rw [extend]
  dsimp only [ofSegment, Segment.extend]
  rw [stop]
  rfl

end Span

/-! ## Cutting at keywords -/

/-- Puts further marks to the spans, of which the last one stands first. -/
def splitFrom? (text : Text) (spans : List Span) : List Mark → Option (List Span)
  | [] => some spans.reverse
  | mark :: later => do
    let stop := (later.head?.map Mark.offset).getD text.width
    let span ← Span.between? text mark.offset stop
    match spans with
    | [] => splitFrom? text [span] later
    | last :: earlier => do
      let isKeyword ← standsAloneAt? text mark.offset mark.word
      if isKeyword then splitFrom? text (span :: last :: earlier) later
      else splitFrom? text (last.extend span :: earlier) later

/-- The text cut at the keywords that declare classes. -/
def splitAtKeywords? (text : Text) : Option (List Span) :=
  splitFrom? text [] (marks text)

/-- A stretch ends at the next mark. -/
theorem head?_marks
    {text past : Text}
    {block : Block}
    {stretches : List (Text × Block)}
    (tiles : Tiles text past (block :: stretches.map Prod.snd)) :
    ((stretches.map Mark.ofStretch).head?.map Mark.offset).getD text.width =
      block.offset + block.text.width := by
  obtain ⟨rfl, tilesLater⟩ := tiles
  cases stretches with
  | nil =>
    have whole : text = (block.text.reverse ++ block.past).reverse := tilesLater
    rw [List.map_nil, List.head?_nil, Option.map_none, Option.getD_none, whole, Text.width_reverse,
      Text.width_append, Text.width_reverse, Nat.add_comm]
    rfl
  | cons next stretches =>
    have nextPast : next.2.past = block.text.reverse ++ block.past := tilesLater.1
    rw [List.map_cons, List.head?_cons, Option.map_some, Option.getD_some, Mark.ofStretch,
      Block.offset, nextPast, Text.width_append, Text.width_reverse, Nat.add_comm]
    rfl

/-- The past of the next block is the last segment with its past, if there is one. -/
def Joins (segments : List Segment) (past : Text) : Prop :=
  ∀ last ∈ segments.head?, past = last.block.text.reverse ++ last.block.past

theorem splitFrom?_stretches
    {text past : Text}
    {segments : List Segment}
    {stretches : List (Text × Block)}
    (tiles : Tiles text past (stretches.map Prod.snd))
    (joins : Joins segments past)
    (words : ∀ stretch ∈ stretches, ∃ behind, text = stretch.2.above ++ stretch.1 ++ behind) :
    splitFrom? text (segments.map Span.ofSegment) (stretches.map Mark.ofStretch) =
      some ((stretches.foldl (glueStep text) segments).reverse.map Span.ofSegment) := by
  induction stretches generalizing segments past with
  | nil => simp [splitFrom?]
  | cons stretch stretches hypothesis =>
    obtain ⟨word, block⟩ := stretch
    have stop := head?_marks tiles
    have wordsLater : ∀ stretch ∈ stretches, ∃ behind,
        text = stretch.2.above ++ stretch.1 ++ behind :=
      fun other member => words other (List.mem_cons_of_mem _ member)
    obtain ⟨after, shape⟩ := tiles.shape
    obtain ⟨rfl, tilesLater⟩ := tiles
    have span := Span.between?_offset shape
    rw [List.map_cons, splitFrom?, stop]
    dsimp only [Mark.ofStretch]
    rw [span, List.foldl_cons]
    simp only [Option.bind_eq_bind, Option.bind_some]
    cases segments with
    | nil =>
      have begins : Joins [Segment.ofBlock block] (block.text.reverse ++ block.past) := by
        rintro last ⟨⟩
        rfl
      exact hypothesis tilesLater begins wordsLater
    | cons last earlier =>
      have joinsLast : block.past = last.block.text.reverse ++ last.block.past := joins last rfl
      obtain ⟨behind, atWord⟩ := words (word, block) List.mem_cons_self
      have isKeyword : standsAloneAt? text block.offset word =
          some (Reserved.standsAloneAt text block.offset word) := by
        have offset := block.offset_eq_width_above
        rw [offset, atWord, standsAloneAt?_width_append, Reserved.standsAloneAt_width_append]
      rw [List.map_cons]
      dsimp only
      rw [isKeyword, Option.bind_some, glueStep]
      split
      · have begins : Joins (Segment.ofBlock block :: last :: earlier)
            (block.text.reverse ++ block.past) := by
          rintro last ⟨⟩
          rfl
        exact hypothesis tilesLater begins wordsLater
      · have goesOn : Joins (last.extend (Segment.ofBlock block) :: earlier)
            (block.text.reverse ++ block.past) := by
          rintro last ⟨⟩
          simp [Segment.extend, Segment.ofBlock, joinsLast]
        have extended : (Span.ofSegment last).extend (Span.ofSegment (Segment.ofBlock block)) =
            Span.ofSegment (last.extend (Segment.ofBlock block)) :=
          Span.extend_ofSegment joinsLast
        rw [extended]
        exact hypothesis tilesLater goesOn wordsLater

theorem splitAtKeywords?_eq (text : Text) :
    splitAtKeywords? text = some ((splitAtKeywords text).map Span.ofSegment) := by
  have places := marksFrom_eq_map [] text
  rw [Text.width_nil] at places
  rw [splitAtKeywords?, marks_eq, places]
  exact @splitFrom?_stretches text _ [] _ (tiles_stretchesFrom [] text) (by simp [Joins])
    exists_of_mem_stretchesFrom

/-! ## Merging -/

/-- Puts one more span to the merged ones, of which the last one stands first. -/
def mergeSpan : List Span × Bool → Span → List Span × Bool
  | (last :: earlier, true), span =>
    (last.extend span :: earlier, !(last.extend span).isBalanced)
  | (merged, _), span => (span :: merged, !span.isBalanced)

/--
The spans with unbalanced ones extended until they are balanced.  The text of the last one is cut
out if it is not balanced in the end.
-/
def mergeUnbalanced? (text : Text) (spans : List Span) : Option (List Span) :=
  match spans.foldl mergeSpan ([], false) with
  | (last :: earlier, true) => do
    let _ ← slice? text last.start last.stop
    some (last :: earlier).reverse
  | (merged, _) => some merged.reverse

theorem foldl_mergeSpan
    {text past : Text}
    {segments merged : List Segment}
    (unbalanced : Bool)
    (tiles : Tiles text past (segments.map Segment.block))
    (joins : Joins merged past) :
    (segments.map Span.ofSegment).foldl mergeSpan (merged.map Span.ofSegment, unbalanced) =
      ((segments.foldl mergeStep (merged, unbalanced)).1.map Span.ofSegment,
        (segments.foldl mergeStep (merged, unbalanced)).2) := by
  induction segments generalizing merged unbalanced past with
  | nil => rfl
  | cons segment segments hypothesis =>
    obtain ⟨rfl, tilesLater⟩ := tiles
    have begins (segments : List Segment) :
        Joins (segment :: segments) (segment.block.text.reverse ++ segment.block.past) := by
      rintro last ⟨⟩
      rfl
    rw [List.map_cons, List.foldl_cons, List.foldl_cons]
    cases merged with
    | nil => exact hypothesis _ tilesLater (begins [])
    | cons last earlier =>
      cases unbalanced with
      | false => exact hypothesis _ tilesLater (begins (last :: earlier))
      | true =>
        have joinsLast : segment.block.past = last.block.text.reverse ++ last.block.past :=
          joins last rfl
        have goesOn : Joins (last.extend segment :: earlier)
            (segment.block.text.reverse ++ segment.block.past) := by
          rintro last ⟨⟩
          simp [Segment.extend, joinsLast]
        rw [List.map_cons, mergeSpan, mergeStep, Span.extend_ofSegment joinsLast]
        exact hypothesis _ tilesLater goesOn

/-- The merged spans are those of the regions. -/
theorem mergeUnbalanced?_eq (text : Text) :
    mergeUnbalanced? text ((splitAtKeywords text).map Span.ofSegment) =
      some (((regions text).map Segment.ofBlock).map Span.ofSegment) := by
  obtain ⟨past, tiles⟩ := exists_tiles_splitAtKeywords text
  have fold := @foldl_mergeSpan text past _ [] false tiles (by simp [Joins])
  have merged := mergeUnbalanced_splitAtKeywords text
  rw [mergeUnbalanced] at merged
  rw [mergeUnbalanced?]
  rw [List.map_nil] at fold
  rw [fold]
  cases found : (splitAtKeywords text).foldl mergeStep ([], false) with
  | mk segments unbalanced =>
    rw [found] at merged
    have sameSpans : (segments.map Span.ofSegment).reverse =
        ((regions text).map Segment.ofBlock).map Span.ofSegment := by
      rw [← merged, List.map_reverse]
    cases segments with
    | nil => exact congrArg some sameSpans
    | cons last earlier =>
      cases unbalanced with
      | false => exact congrArg some sameSpans
      | true =>
        obtain ⟨region, isRegion, rfl⟩ :
            ∃ region ∈ regions text, Segment.ofBlock region = last := by
          rw [← List.mem_map, ← merged]
          simp
        obtain ⟨⟨after, shape⟩, -⟩ := isRegionOf_of_mem_regionsAfter region isRegion
        have offset := region.offset_eq_width_above
        have cut : slice? text (Span.ofSegment (Segment.ofBlock region)).start
            (Span.ofSegment (Segment.ofBlock region)).stop = some region.text :=
          slice?_eq_some (by simpa using shape.symm) offset
            (congrArg (· + region.text.width) offset)
        rw [← sameSpans, List.map_cons]
        dsimp only
        rw [cut]
        rfl

/-! ## The end of a block -/

/-- A number of marks, counted on at a byte. -/
def countMark? (mark code : Char) (number : Int) : Option Int :=
  if code = mark then count? shortLimit number 1 else some number

theorem countMark?_eq
    {number read : Nat}
    (counted : number ≤ read)
    (short : read + 1 < shortLimit)
    (mark code : Char) :
    countMark? mark code number =
      some ((if code = mark then number + 1 else number : Nat) : Int) := by
  have increased := @count?_eq_some shortLimit read number 1 (by omega) (by decide) short
  rw [countMark?, increased]
  split <;> rfl

/--
The offset behind the brace that closes the body.  The bytes from an index on are read, and nothing
is cut in front of the first opening brace.
-/
def cutFrom? (firstOpening index : Nat) (opening closing : Int) : Text → Option (Option Nat)
  | [] => some none
  | code :: later => do
    let opening ← countMark? '{' code opening
    let closing ← countMark? '}' code closing
    if firstOpening ≤ index ∧ opening = closing then some (some (index + 1))
    else cutFrom? firstOpening (index + 1) opening closing later

/-- The block of the segment between two offsets: its offset and its text. -/
def trimTail? (text : Text) (start stop : Nat) : Option (Option (Nat × Text)) := do
  let raw ← slice? text start stop
  let trimmed := raw.trim
  if trimmed = [] then some none
  else do
    let lead ← sub? raw.width raw.trimStart.width
    match find? trimmed ['{'] with
    | none => some none
    | some firstOpening => do
      let cut ← cutFrom? firstOpening 0 0 0 trimmed.codes
      let block ← slice? trimmed 0 (cut.getD trimmed.width)
      some (some (start + lead, block))

/-- Where the loop over the bytes of a text stands when a part of it has been read. -/
structure Cutting (seen rest : Text) (firstOpening : Nat) (opened : Bool) (opening closing : Nat) :
    Prop where
  openingCounted : opening ≤ seen.width
  closingCounted : closing ≤ seen.width
  /-- Behind the first opening brace the counts differ. -/
  passed : opened = true → firstOpening < seen.width ∧ opening ≠ closing
  ahead : opened = false → firstOpening = seen.width + Text.width (rest.takeWhile (· ≠ '{'))

namespace Cutting

variable {seen rest : Text} {current : Char} {firstOpening opening closing : Nat} {opened : Bool}

/-- At a character the first opening brace has been reached if it has been passed or is there. -/
theorem reached_iff
    (cutting : Cutting seen (current :: rest) firstOpening opened opening closing) :
    (opened || decide (current = '{')) = true ↔ firstOpening ≤ seen.width := by
  cases opened with
  | true => exact iff_of_true rfl (Nat.le_of_lt (cutting.passed rfl).1)
  | false =>
    have place := cutting.ahead rfl
    by_cases isOpening : current = '{'
    · rw [isOpening, List.takeWhile_cons_of_neg (by simp)] at place
      exact iff_of_true (by simp [isOpening]) (Nat.le_of_eq place)
    · have positive := current.utf8Size_pos
      rw [List.takeWhile_cons_of_pos (by simpa using isOpening), Text.width_cons] at place
      exact iff_of_false (by simp [isOpening]) (by omega)

theorem ahead_append
    (cutting : Cutting seen (current :: rest) firstOpening opened opening closing)
    (notYet : (opened || decide (current = '{')) = false) :
    firstOpening = Text.width (seen ++ [current]) + Text.width (rest.takeWhile (· ≠ '{')) := by
  obtain ⟨rfl, notOpening⟩ := Bool.or_eq_false_iff.mp notYet
  have place := cutting.ahead rfl
  rw [List.takeWhile_cons_of_pos (by simpa using notOpening), Text.width_cons, ← Nat.add_assoc]
    at place
  simpa using place

/-- A narrow character is counted if it is a brace. -/
theorem append_of_narrow
    (cutting : Cutting seen (current :: rest) firstOpening opened opening closing)
    (narrow : Text.IsNarrow current)
    (notCut : ¬ ((opened || decide (current = '{')) = true ∧
      (if current = '{' then opening + 1 else opening) =
        if current = '}' then closing + 1 else closing)) :
    Cutting (seen ++ [current]) rest firstOpening (opened || decide (current = '{'))
      (if current = '{' then opening + 1 else opening)
      (if current = '}' then closing + 1 else closing) := by
  have wider : Text.width (seen ++ [current]) = seen.width + 1 := by simp [narrow.utf8Size_eq]
  have openingCounted := cutting.openingCounted
  have closingCounted := cutting.closingCounted
  refine ⟨?_, ?_, fun isReached => ⟨?_, fun same => notCut ⟨isReached, same⟩⟩, cutting.ahead_append⟩
  · rw [wider]
    split <;> omega
  · rw [wider]
    split <;> omega
  · rw [wider]
    exact Nat.lt_succ_of_le (cutting.reached_iff.mp isReached)

/-- A wide character changes nothing. -/
theorem append_of_wide
    (cutting : Cutting seen (current :: rest) firstOpening opened opening closing)
    (wide : ¬ Text.IsNarrow current) :
    Cutting (seen ++ [current]) rest firstOpening opened opening closing := by
  have notOpening : current ≠ '{' := Text.ne_of_wide wide (by decide)
  have wider : Text.width (seen ++ [current]) = seen.width + current.utf8Size := by simp
  have openingCounted := cutting.openingCounted
  have closingCounted := cutting.closingCounted
  refine ⟨by omega, by omega, fun isOpened => ?_, fun notYet => ?_⟩
  · obtain ⟨isPassed, differ⟩ := cutting.passed isOpened
    exact ⟨by omega, differ⟩
  · exact cutting.ahead_append (by simp [notYet, notOpening])

/-- Nothing is cut at the bytes of a wide character. -/
theorem cutFrom?_of_wide
    (cutting : Cutting seen (current :: rest) firstOpening opened opening closing)
    (wide : ¬ Text.IsNarrow current) :
    cutFrom? firstOpening seen.width opening closing (Text.codes (current :: rest)) =
      cutFrom? firstOpening (seen.width + current.utf8Size) opening closing (Text.codes rest) := by
  have notOpening : current ≠ '{' := Text.ne_of_wide wide (by decide)
  refine @Text.read_codes_of_wide _ (fun place codes => cutFrom? firstOpening place opening closing
    codes) _ _ (fun place code later inside codeWide => ?_) wide rest
  have codeNotOpening : code ≠ '{' := Text.ne_of_wide codeWide (by decide)
  have codeNotClosing : code ≠ '}' := Text.ne_of_wide codeWide (by decide)
  have notCut : ¬ (firstOpening ≤ place ∧ (opening : Int) = closing) := by
    rintro ⟨isReached, same⟩
    cases opened with
    | true => exact (cutting.passed rfl).2 (Int.ofNat_inj.mp same)
    | false =>
      have ahead := cutting.ahead_append (by simp [notOpening])
      rw [Text.width_append, Text.width_cons, Text.width_nil] at ahead
      omega
  rw [cutFrom?, countMark?, countMark?, if_neg codeNotOpening, if_neg codeNotClosing]
  simp only [Option.bind_eq_bind, Option.bind_some]
  rw [if_neg notCut]

end Cutting

/-- The cut is made between characters, where the text is cut. -/
theorem cutFrom?_codes
    {trimmed seen rest : Text}
    {firstOpening opening closing : Nat}
    {opened : Bool}
    (shape : trimmed = seen ++ rest)
    (cutting : Cutting seen rest firstOpening opened opening closing)
    (short : trimmed.width < shortLimit) :
    ∃ cut,
      cutFrom? firstOpening seen.width opening closing rest.codes = some cut ∧
        slice? trimmed 0 (cut.getD trimmed.width) =
          some (seen ++ cutTail opened opening closing rest) := by
  induction rest generalizing seen opened opening closing with
  | nil =>
    have whole : slice? trimmed 0 trimmed.width = some seen :=
      @slice?_eq_some _ [] seen [] _ _ shape rfl (by rw [shape]; simp)
    exact ⟨none, rfl, by rw [Option.getD_none, whole, cutTail, List.append_nil]⟩
  | cons current rest hypothesis =>
    have shapeLater : trimmed = (seen ++ [current]) ++ rest := by
      rw [shape, List.append_assoc, List.singleton_append]
    have wider : Text.width (seen ++ [current]) = seen.width + current.utf8Size := by simp
    by_cases narrow : Text.IsNarrow current
    · have size := narrow.utf8Size_eq
      have inText : seen.width + 1 ≤ trimmed.width := by
        rw [shape, Text.width_append, Text.width_cons, size]
        omega
      have openingCounted := cutting.openingCounted
      have closingCounted := cutting.closingCounted
      have next := cutting.append_of_narrow narrow
      rw [narrow.codes_cons, cutFrom?, countMark?_eq openingCounted (by omega),
        countMark?_eq closingCounted (by omega), cutTail]
      simp only [Option.bind_eq_bind, Option.bind_some, Int.ofNat_inj, ← cutting.reached_iff]
      generalize (if current = '{' then opening + 1 else opening) = opening' at next ⊢
      generalize (if current = '}' then closing + 1 else closing) = closing' at next ⊢
      by_cases cuts : (opened || decide (current = '{')) = true ∧ opening' = closing'
      · have part : slice? trimmed 0 (seen.width + 1) = some (seen ++ [current]) :=
          @slice?_eq_some _ [] (seen ++ [current]) rest _ _ shapeLater rfl (by simp [size])
        exact ⟨some (seen.width + 1), by rw [if_pos cuts],
          by rw [Option.getD_some, part, if_pos cuts]⟩
      · obtain ⟨cut, loop, part⟩ := hypothesis shapeLater (next cuts)
        rw [wider, size] at loop
        exact ⟨cut, by rw [if_neg cuts, loop],
          by rw [part, if_neg cuts, List.append_assoc, List.singleton_append]⟩
    · have notOpening : current ≠ '{' := Text.ne_of_wide narrow (by decide)
      have notClosing : current ≠ '}' := Text.ne_of_wide narrow (by decide)
      have notCut : ¬ (opened = true ∧ opening = closing) := fun both =>
        (cutting.passed both.1).2 both.2
      have kept : cutTail opened opening closing (current :: rest) =
          current :: cutTail opened opening closing rest := by
        rw [cutTail]
        simp [notOpening, notClosing, notCut]
      obtain ⟨cut, loop, part⟩ := hypothesis shapeLater (cutting.append_of_wide narrow)
      rw [wider] at loop
      exact ⟨cut, by rw [cutting.cutFrom?_of_wide narrow, loop],
        by rw [part, kept, List.append_assoc, List.singleton_append]⟩

/-- The offset and the text of a block. -/
def placeOf (block : Block) : Nat × Text :=
  (block.offset, block.text)

/-- The block of a stretch is cut out of it. -/
theorem trimTail?_offset
    {text after : Text}
    {block : Block}
    (shape : text = block.above ++ (block.text ++ after))
    (short : text.width < shortLimit) :
    trimTail? text block.offset (block.offset + block.text.width) =
      some ((Segment.trimTail? block).map placeOf) := by
  have offset := block.offset_eq_width_above
  have raw : slice? text block.offset (block.offset + block.text.width) = some block.text :=
    slice?_eq_some shape offset (by rw [offset])
  rw [trimTail?, raw, Segment.trimTail?]
  simp only [Option.bind_eq_bind, Option.bind_some]
  by_cases noText : block.text.trim = []
  · rw [if_pos noText, noText]
    rfl
  · have lead : sub? block.text.width block.text.trimStart.width =
        some block.text.indentation.width := by
      have split := congrArg Text.width block.text.indentation_append_trimStart
      rw [Text.width_append] at split
      rw [← split, sub?_add_right]
    have place : block.offset + block.text.indentation.width =
        Text.width (block.text.indentation.reverse ++ block.past) := by
      rw [Text.width_append, Text.width_reverse, Nat.add_comm]
      rfl
    rw [if_neg noText, lead, find?_singleton]
    simp only [Option.bind_some]
    by_cases opens : '{' ∈ block.text.trim
    · have shorter : block.text.trim.width < shortLimit := by
        have isPart : block.text <:+: text := ⟨block.above, after, by rw [shape]; simp⟩
        have narrower := Text.width_le_of_isInfix ((Text.trim_isInfix block.text).trans isPart)
        exact Nat.lt_of_le_of_lt narrower short
      have start : Cutting [] block.text.trim
          (Text.width (block.text.trim.takeWhile (· ≠ '{'))) false 0 0 :=
        ⟨Nat.le_refl 0, Nat.le_refl 0, by simp, fun _ => (Nat.zero_add _).symm⟩
      obtain ⟨cut, loop, part⟩ := cutFrom?_codes (List.nil_append _).symm start shorter
      rw [if_pos opens, if_pos (List.contains_iff_mem.mpr opens)]
      dsimp only
      rw [Text.width_nil] at loop
      rw [List.nil_append] at part
      simp only [Int.ofNat_zero] at loop
      rw [loop]
      simp only [Option.bind_some]
      rw [part, place]
      rfl
    · rw [if_neg opens, if_neg fun found => opens (List.contains_iff_mem.mp found)]
      rfl

/-! ## The blocks of a text -/

/-- The blocks of a text, cut out by offsets. -/
def blocks? (text : Text) : Option (List (Nat × Text)) := do
  let segments ← splitAtKeywords? text
  let merged ← mergeUnbalanced? text segments
  let found ← (merged.filter (0 < ·.opening)).mapM fun span => trimTail? text span.start span.stop
  some (found.filterMap id)

/-- The blocks of a text are all cut out where the text has them. -/
theorem blocks?_eq
    {text : Text}
    (short : text.width < shortLimit) :
    blocks? text = some ((ofText text).map placeOf) := by
  have trimmed : ∀ segment ∈ ((regions text).map Segment.ofBlock).filter (0 < ·.opening),
      trimTail? text (Span.ofSegment segment).start (Span.ofSegment segment).stop =
        some ((Segment.trimTail? segment.block).map placeOf) := by
    intro segment member
    obtain ⟨region, isRegion, rfl⟩ := List.mem_map.mp (List.mem_of_mem_filter member)
    obtain ⟨⟨after, shape⟩, -⟩ := isRegionOf_of_mem_regionsAfter region isRegion
    have inText : text = region.above ++ (region.text ++ after) := by simpa using shape.symm
    exact trimTail?_offset inText short
  have found := mapM_eq_some trimmed
  have whole := Segment.blocks_eq_ofText text
  rw [Segment.blocks, mergeUnbalanced_splitAtKeywords] at whole
  have trimmedSpans :
      ((((regions text).map Segment.ofBlock).map Span.ofSegment).filter (0 < ·.opening)).mapM
        (fun span => trimTail? text span.start span.stop) =
      some ((((regions text).map Segment.ofBlock).filter (0 < ·.opening)).map
        fun segment => (Segment.trimTail? segment.block).map placeOf) := by
    rw [List.filter_map, List.mapM_map]
    exact found
  rw [blocks?, splitAtKeywords?_eq]
  simp only [Option.bind_eq_bind, Option.bind_some]
  rw [mergeUnbalanced?_eq, Option.bind_some, trimmedSpans, Option.bind_some, ← whole,
    List.filterMap_map, List.map_filterMap]
  rfl

end Checked

end ClassOutline
