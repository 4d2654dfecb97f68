import ClassOutline.Proofs.Block.Regions
/-!
# Blocks across a seam

A text is put together from two parts, the first of which ends with a line.  The blocks of the whole
are those of the first part followed by those of the second, the latter behind the first part.
This needs two things.  The first part closes the braces that it opens, so that its last region has
found its block before the seam.  And the second part opens no brace in front of its first
declaration, since up to there it belongs to that last region.
-/

namespace ClassOutline.Block

/-! ## The first declaring word -/

/-- The text in front of the first declaring word; the whole text if there is none. -/
def beforeWord : Text → Text
  | [] => []
  | current :: rest =>
    if (declarationWord? (current :: rest)).isSome then [] else current :: beforeWord rest

/-- The text from the first declaring word on; empty if there is none. -/
def fromWord : Text → Text
  | [] => []
  | current :: rest =>
    if (declarationWord? (current :: rest)).isSome then current :: rest else fromWord rest

/-- The first declaring word, if any, opens no brace in front of it and begins a declaration. -/
structure BeginsFreely (text : Text) : Prop where
  /-- No brace stands in front of the first declaring word. -/
  braceless : Braceless (beforeWord text)
  /-- The first declaring word begins a declaration. -/
  begins : fromWord text ≠ [] → beginsDeclaration (beforeWord text).reverse (fromWord text) = true

instance (text : Text) : Decidable (BeginsFreely text) :=
  decidable_of_iff
    ((∀ character ∈ beforeWord text, character ≠ '{' ∧ character ≠ '}') ∧
      (fromWord text ≠ [] → beginsDeclaration (beforeWord text).reverse (fromWord text) = true))
    ⟨fun parts => ⟨parts.1, parts.2⟩, fun freely => ⟨freely.braceless, freely.begins⟩⟩

/-! ## Blocks behind another text -/

/-- The block in a text with another one in front, given with its nearest character first. -/
def behind (earlier : Text) (block : Block) : Block :=
  { block with past := block.past ++ earlier }

theorem beginsDeclaration_append
    {earlier : Text}
    (fresh : Reserved.Fresh earlier)
    (past rest : Text) :
    beginsDeclaration (past ++ earlier) rest = beginsDeclaration past rest := by
  rw [beginsDeclaration, beginsDeclaration]
  split
  · exact Reserved.standsAlone_append past _ fresh
  · rfl

theorem regionsFrom_past_append
    {earlier : Text}
    (fresh : Reserved.Fresh earlier)
    (past : Text)
    (depth : Int)
    (text : Text) :
    regionsFrom (past ++ earlier) depth text =
      ((regionsFrom past depth text).1, (regionsFrom past depth text).2.map (behind earlier)) := by
  induction text generalizing past depth with
  | nil => rfl
  | cons current rest hypothesis =>
    have later := hypothesis (current :: past) (depth + braceChange current)
    rw [List.cons_append] at later
    rw [regionsFrom_cons, regionsFrom_cons, beginsDeclaration_append fresh, later]
    dsimp only
    split
    · simp [behind]
    · rfl

theorem regionsAfter_past_append
    {earlier : Text}
    (fresh : Reserved.Fresh earlier)
    (past text : Text) :
    regionsAfter (past ++ earlier) text = (regionsAfter past text).map (behind earlier) := by
  induction text generalizing past with
  | nil => rfl
  | cons current rest hypothesis =>
    have inside := regionsFrom_past_append fresh (current :: past) (braceChange current) rest
    have later := hypothesis (current :: past)
    rw [List.cons_append] at inside later
    rw [regionsAfter, regionsAfter, inside, later]
    split <;> rfl

theorem ofRegion?_behind
    (earlier : Text)
    (region : Block) :
    ofRegion? (region.behind earlier) = (ofRegion? region).map (behind earlier) := by
  rw [ofRegion?, ofRegion?, behind]
  dsimp only
  split <;> rfl

/-- A fresh text in front moves the blocks without changing them. -/
theorem blocksAfter_past_append
    {earlier : Text}
    (fresh : Reserved.Fresh earlier)
    (past text : Text) :
    blocksAfter (past ++ earlier) text = (blocksAfter past text).map (behind earlier) := by
  rw [blocksAfter, blocksAfter, regionsAfter_past_append fresh, List.filterMap_map,
    List.map_filterMap]
  exact congrArg (List.filterMap · _) (funext (ofRegion?_behind earlier))

/-! ## The end of a line -/

/-- No declaring word reaches across the end of a line. -/
theorem declarationWord?_line
    (front behind : Text) :
    declarationWord? (front ++ '\n' :: behind) = declarationWord? (front ++ ['\n']) := by
  have foreign : ∀ word ∈ declarationWords, '\n' ∉ word := by decide
  have same : ∀ word ∈ declarationWords,
      word.isPrefixOf (front ++ '\n' :: behind) = word.isPrefixOf (front ++ ['\n']) := by
    intro word isWord
    rw [Text.isPrefixOf_append_cons _ _ (foreign word isWord),
      Text.isPrefixOf_append_cons _ _ (foreign word isWord)]
  simp only [declarationWord?, declarationWords, List.find?_cons, List.mem_cons,
    forall_eq_or_imp] at same ⊢
  rw [same.1, same.2.1]
  rfl

theorem beginsDeclaration_line
    (past front behind : Text) :
    beginsDeclaration past (front ++ '\n' :: behind) =
      beginsDeclaration past (front ++ ['\n']) := by
  rw [beginsDeclaration, beginsDeclaration, declarationWord?_line]
  cases found : declarationWord? (front ++ ['\n']) with
  | none => rfl
  | some word =>
    have isWord : word ∈ declarationWords := List.mem_of_find?_eq_some found
    have isPrefix : word <+: front ++ ['\n'] :=
      List.isPrefixOf_iff_prefix.mp (by simpa using List.find?_some found)
    have foreign : '\n' ∉ word := not_mem_of_isDelimiter isWord (by decide)
    obtain ⟨rest, rfl⟩ := Text.isPrefix_of_isPrefix_append_cons foreign isPrefix
    simp only [List.append_assoc, List.drop_left, Text.head?_append_cons rest behind]

/-! ## The region across the seam -/

/-- A closed part is found without reading on. -/
theorem closedPart?_append_of_some
    {opened : Bool}
    {depth : Int}
    {text part : Text}
    (closed : closedPart? opened depth text = some part)
    (rest : Text) :
    closedPart? opened depth (text ++ rest) = some part := by
  induction text generalizing opened depth part with
  | nil => contradiction
  | cons current text hypothesis =>
    rw [closedPart?] at closed
    rw [List.cons_append, closedPart?]
    split at closed
    · next ends => rw [if_pos ends, closed]
    · next goesOn =>
      obtain ⟨later, closedLater, rfl⟩ := Option.map_eq_some_iff.mp closed
      rw [if_neg goesOn, hypothesis closedLater]
      rfl

/-- A text that opens a brace and closes all of them has a closed part. -/
theorem closedPart?_isSome
    {opened : Bool}
    {depth : Int}
    {text : Text}
    (opens : opened = true ∨ '{' ∈ text)
    (unclosed : ¬ (opened = true ∧ depth = 0))
    (closes : depth + braces text = 0) :
    (closedPart? opened depth text).isSome = true := by
  induction text generalizing opened depth with
  | nil =>
    rw [braces_nil, Int.add_zero] at closes
    exact absurd ⟨opens.resolve_right List.not_mem_nil, closes⟩ unclosed
  | cons current rest hypothesis =>
    rw [closedPart?]
    split
    · rfl
    · next goesOn =>
      rw [Option.isSome_map]
      refine hypothesis ?_ goesOn (by rw [Int.add_assoc]; exact closes)
      rcases opens with isOpened | isInside
      · exact .inl (by simp [isOpened])
      · rcases List.mem_cons.mp isInside with isCurrent | later
        · exact .inl (by simp [← isCurrent])
        · exact .inr later

/-- A region that closes its braces gives the same block with more text that opens none. -/
theorem ofRegion?_append
    {tail : Text}
    (past text : Text)
    (noOpening : '{' ∉ tail)
    (closes : tail = [] ∨ braces text = 0) :
    ofRegion? ⟨past, text ++ tail⟩ = ofRegion? ⟨past, text⟩ := by
  rcases closes with rfl | closes
  · rw [List.append_nil]
  · rw [ofRegion?, ofRegion?]
    by_cases opens : '{' ∈ text
    · have isSome : (closedPart? false 0 text).isSome = true :=
        closedPart?_isSome (.inr opens) (by simp) (by rw [Int.zero_add]; exact closes)
      obtain ⟨part, closed⟩ := Option.isSome_iff_exists.mp isSome
      simp [opens, closed, closedPart?_append_of_some closed tail]
    · simp [opens, noOpening]

/-- A declaration that begins here gives the block of its region. -/
theorem blocksFrom_cons
    (past : Text)
    (depth : Int)
    (current : Char)
    (rest : Text) :
    blocksFrom past depth (current :: rest) =
      let later := regionsFrom (current :: past) (depth + braceChange current) rest
      (if depth = 0 ∧ beginsDeclaration past (current :: rest) then
        (ofRegion? ⟨past, current :: later.1⟩).toList else []) ++
        later.2.filterMap ofRegion? := by
  rw [blocksFrom, regionsFrom_cons]
  dsimp only
  split
  · cases found : ofRegion?
        ⟨past, current :: (regionsFrom (current :: past) (depth + braceChange current) rest).1⟩ <;>
      simp [found]
  · rfl

theorem blocksAfter_cons
    (past : Text)
    (current : Char)
    (rest : Text) :
    blocksAfter past (current :: rest) =
      if (declarationWord? (current :: rest)).isSome then
        (ofRegion? ⟨past, current ::
            (regionsFrom (current :: past) (braceChange current) rest).1⟩).toList ++
          blocksFrom (current :: past) (braceChange current) rest
      else blocksAfter (current :: past) rest := by
  rw [blocksAfter, regionsAfter]
  split
  · cases found : ofRegion?
        ⟨past, current :: (regionsFrom (current :: past) (braceChange current) rest).1⟩ <;>
      simp [found, blocksFrom]
  · rfl

/--
Inside a region, the scan of lines that close their braces finds their blocks and goes on with what
follows them.  The last region takes in what follows up to the next declaration.
-/
theorem blocksFrom_line
    {past front behind : Text}
    {depth : Int}
    (closes : depth + braces (front ++ ['\n']) = 0)
    (noOpening : '{' ∉ (regionsFrom ('\n' :: (front.reverse ++ past)) 0 behind).1) :
    blocksFrom past depth (front ++ '\n' :: behind) =
        blocksFrom past depth (front ++ ['\n']) ++
          blocksFrom ('\n' :: (front.reverse ++ past)) 0 behind ∧
      ∃ tail,
        (regionsFrom past depth (front ++ '\n' :: behind)).1 =
            (regionsFrom past depth (front ++ ['\n'])).1 ++ tail ∧
          '{' ∉ tail ∧
            (tail = [] ∨ depth + braces (regionsFrom past depth (front ++ ['\n'])).1 = 0) := by
  induction front generalizing past depth with
  | nil =>
    have noBeginning (later : Text) : beginsDeclaration past ('\n' :: later) = false :=
      beginsDeclaration_line past [] later
    have atZero : depth + braceChange '\n' = 0 := by simpa using closes
    simp only [List.nil_append, List.reverse_nil, blocksFrom, regionsFrom_cons, noBeginning,
      atZero, Bool.false_eq_true, and_false, if_false] at noOpening ⊢
    refine ⟨rfl, _, rfl, noOpening, .inr ?_⟩
    simpa [regionsFrom] using closes
  | cons current front hypothesis =>
    have closesLater : depth + braceChange current + braces (front ++ ['\n']) = 0 := by
      rw [Int.add_assoc]
      exact closes
    have sameShape : (current :: front).reverse ++ past = front.reverse ++ current :: past := by
      simp
    rw [sameShape] at noOpening ⊢
    obtain ⟨blocksLater, tail, textLater, tailNoOpening, tailCloses⟩ :=
      hypothesis closesLater noOpening
    have sameBeginning := beginsDeclaration_line past (current :: front) behind
    rw [List.cons_append, List.cons_append] at sameBeginning ⊢
    rw [blocksFrom, blocksFrom] at blocksLater
    rw [blocksFrom_cons, blocksFrom_cons, regionsFrom_cons, regionsFrom_cons, sameBeginning]
    dsimp only
    rw [textLater, blocksLater]
    by_cases begins : depth = 0 ∧ beginsDeclaration past (current :: (front ++ ['\n'])) = true
    · -- The region that begins here gives the same block, with the tail or without it.
      have sameBlock := ofRegion?_append past
        (current :: (regionsFrom (current :: past) (depth + braceChange current)
          (front ++ ['\n'])).1) tailNoOpening
        (tailCloses.imp_right fun closed => by
          rw [begins.1, Int.zero_add] at closed ⊢
          exact closed)
      rw [List.cons_append] at sameBlock
      rw [if_pos begins, if_pos begins, if_pos begins, if_pos begins, sameBlock,
        List.append_assoc]
      exact ⟨rfl, [], rfl, List.not_mem_nil, .inl rfl⟩
    · rw [if_neg begins, if_neg begins, if_neg begins, if_neg begins]
      refine ⟨rfl, tail, rfl, tailNoOpening, tailCloses.imp_right fun closed => ?_⟩
      rw [braces_cons, ← Int.add_assoc]
      exact closed

/-! ## The first declaration behind the seam -/

/-- In front of the first declaring word of such a text, a region that is open goes on. -/
theorem regionsFrom_of_beginsFreely
    {past text : Text}
    (braceless : Braceless (beforeWord text))
    (begins : fromWord text ≠ [] →
      beginsDeclaration ((beforeWord text).reverse ++ past) (fromWord text) = true) :
    regionsFrom past 0 text = (beforeWord text, regionsAfter past text) := by
  induction text generalizing past with
  | nil => rfl
  | cons current rest hypothesis =>
    rw [beforeWord, fromWord] at begins
    rw [beforeWord] at braceless ⊢
    rw [regionsFrom_cons, regionsAfter]
    dsimp only
    by_cases isWord : (declarationWord? (current :: rest)).isSome = true
    · have here := begins (by simp [isWord])
      simp only [isWord, if_true, List.reverse_nil, List.nil_append] at here ⊢
      simp [here]
    · simp only [isWord, Bool.false_eq_true, if_false] at begins braceless ⊢
      obtain ⟨noOpening, noClosing⟩ := braceless current List.mem_cons_self
      have noBeginning : ¬ beginsDeclaration past (current :: rest) = true := by
        rw [beginsDeclaration]
        split
        · next found => simp [found] at isWord
        · simp
      have later := @hypothesis (current :: past)
        (fun character member => braceless character (List.mem_cons_of_mem _ member))
        (fun notEmpty => by simpa using begins notEmpty)
      rw [braceChange_eq_zero noOpening noClosing, Int.add_zero, later]
      simp [noBeginning]

/-- The blocks of two texts put together, behind a first part that closes its braces. -/
theorem blocksAfter_line
    {front behind : Text}
    (past : Text)
    (closes : braces (fromWord (front ++ ['\n'])) = 0)
    (freely : regionsFrom ('\n' :: (front.reverse ++ past)) 0 behind =
      (beforeWord behind, regionsAfter ('\n' :: (front.reverse ++ past)) behind))
    (noOpening : '{' ∉ beforeWord behind) :
    blocksAfter past (front ++ '\n' :: behind) =
      blocksAfter past (front ++ ['\n']) ++
        blocksAfter ('\n' :: (front.reverse ++ past)) behind := by
  induction front generalizing past with
  | nil =>
    have noWord (later : Text) : declarationWord? ('\n' :: later) = none :=
      declarationWord?_line [] later
    simp [blocksAfter, regionsAfter, noWord]
  | cons current front hypothesis =>
    have sameShape : (current :: front).reverse ++ past = front.reverse ++ current :: past := by
      simp
    have sameWord := declarationWord?_line (current :: front) behind
    rw [List.cons_append, List.cons_append] at sameWord
    rw [sameShape] at freely ⊢
    rw [List.cons_append, fromWord] at closes
    rw [List.cons_append, List.cons_append, blocksAfter_cons, blocksAfter_cons, sameWord]
    by_cases isWord : (declarationWord? (current :: (front ++ ['\n']))).isSome = true
    · rw [if_pos isWord] at closes
      have noOpeningLater :
          '{' ∉ (regionsFrom ('\n' :: (front.reverse ++ current :: past)) 0 behind).1 := by
        rw [freely]
        exact noOpening
      have closesLater : braceChange current + braces (front ++ ['\n']) = 0 := closes
      obtain ⟨blocksLater, tail, textLater, tailNoOpening, tailCloses⟩ :=
        blocksFrom_line closesLater noOpeningLater
      have sameBlock := ofRegion?_append past
        (current :: (regionsFrom (current :: past) (braceChange current) (front ++ ['\n'])).1)
        tailNoOpening tailCloses
      rw [List.cons_append] at sameBlock
      rw [if_pos isWord, if_pos isWord, textLater, sameBlock, blocksLater, List.append_assoc]
      congr 2
      rw [blocksFrom, freely]
      rfl
    · rw [if_neg isWord] at closes
      rw [if_neg isWord, if_neg isWord]
      exact hypothesis (current :: past) closes freely

/--
The blocks of two texts put together are those of the first followed by those of the second, with
the first in front of them.
-/
theorem ofText_line
    {front behind : Text}
    (closes : braces (fromWord (front ++ ['\n'])) = 0)
    (freely : BeginsFreely behind)
    (fresh : Reserved.Fresh ('\n' :: front.reverse)) :
    ofText (front ++ '\n' :: behind) =
      ofText (front ++ ['\n']) ++
        (ofText behind).map (Block.behind ('\n' :: front.reverse)) := by
  have begins : fromWord behind ≠ [] →
      beginsDeclaration ((beforeWord behind).reverse ++ '\n' :: front.reverse)
        (fromWord behind) = true := by
    intro notEmpty
    rw [beginsDeclaration_append fresh]
    exact freely.begins notEmpty
  have noOpening : '{' ∉ beforeWord behind := fun member =>
    (freely.braceless '{' member).1 rfl
  have moved := blocksAfter_past_append fresh [] behind
  rw [List.nil_append] at moved
  rw [ofText_eq_blocksAfter, ofText_eq_blocksAfter, ofText_eq_blocksAfter, ← moved]
  have across := blocksAfter_line [] closes
    (by simpa using regionsFrom_of_beginsFreely freely.braceless begins) noOpening
  simpa using across

end ClassOutline.Block
