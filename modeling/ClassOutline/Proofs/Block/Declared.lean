import ClassOutline.Proofs.Block.Regions
/-!
# Written declarations

A declaration is written as a declaring word, a head and a body in braces.  If neither head nor
body holds a declaring word, and no brace stands in the head and only nested ones in the body, the
scan of a text that begins with the declaration finds its block and goes on behind it.  Inside
another region the declaration is found at depth zero alone.
-/

namespace ClassOutline.Block

/-- The parts of a declaration in whose head and body no further declaring word stands. -/
structure Declared where
  word : Text
  /-- What stands between the declaring word and the body. -/
  head : Text
  /-- What stands between the braces. -/
  body : Text
  isWord : word ∈ declarationWords
  delimited : head.head?.any Reserved.isDelimiter = true
  headLacks : ∀ other ∈ declarationWords, head.Lacks other
  bodyLacks : ∀ other ∈ declarationWords, body.Lacks other
  headBraceless : Braceless head
  bodyNested : Nested body

namespace Declared

/-- The text of the declaration. -/
def block (declared : Declared) : Text :=
  declared.word ++ declared.head ++ '{' :: (declared.body ++ ['}'])

/-! ## The text behind the first character -/

theorem tail_lacks :
    ∀ word ∈ declarationWords, ∀ other ∈ declarationWords, Text.Lacks word.tail other := by
  decide

/-- Behind its first character, no declaration begins in the text of a declaration. -/
theorem calm_tail (declared : Declared) : Calm declared.block.tail := by
  obtain ⟨first, rest, wordShape⟩ :=
    List.exists_cons_of_ne_nil (declarationWord_ne_nil _ declared.isWord)
  have tailLacks := tail_lacks _ declared.isWord
  have tailShape : declared.block.tail =
      rest ++ declared.head ++ '{' :: (declared.body ++ ['}']) := by
    simp [block, wordShape]
  have foreign : ∀ word ∈ declarationWords, '{' ∉ word ∧ '}' ∉ word := by decide
  rw [wordShape, List.tail_cons] at tailLacks
  rw [tailShape]
  refine ⟨fun other isWord => ?_, fun last isLast other isWord => ?_⟩
  · have notEmpty := declarationWord_ne_nil other isWord
    obtain ⟨noOpening, noClosing⟩ := foreign other isWord
    have headAndRest : Text.Lacks (rest ++ declared.head) other := by
      obtain ⟨delimiter, head, headShape⟩ :
          ∃ delimiter head, declared.head = delimiter :: head := by
        cases shape : declared.head with
        | nil => simpa [shape] using declared.delimited
        | cons delimiter head => exact ⟨delimiter, head, rfl⟩
      have isDelimiter : Reserved.isDelimiter delimiter = true := by
        simpa [headShape] using declared.delimited
      have foreignDelimiter := not_mem_of_isDelimiter isWord isDelimiter
      have headLacks := declared.headLacks other isWord
      rw [headShape] at headLacks ⊢
      rw [Text.lacks_append_cons _ _ foreignDelimiter]
      exact ⟨tailLacks other isWord, headLacks.of_isInfix (List.suffix_cons _ _).isInfix⟩
    rw [Text.lacks_append_cons _ _ noOpening, Text.lacks_append_cons _ _ noClosing]
    exact ⟨headAndRest, declared.bodyLacks other isWord, Text.lacks_nil notEmpty⟩
  · obtain rfl : '}' = last := by
      simpa [List.getLast?_append, List.getLast?_cons] using isLast
    exact (foreign other isWord).2

theorem block_eq_cons (declared : Declared) :
    ∃ first, declared.block = first :: declared.block.tail ∧ braceChange first = 0 := by
  obtain ⟨first, rest, wordShape⟩ :=
    List.exists_cons_of_ne_nil (declarationWord_ne_nil _ declared.isWord)
  refine ⟨first, by simp [block, wordShape], ?_⟩
  have noBrace : ∀ word ∈ declarationWords, ∀ character ∈ word, braceChange character = 0 := by
    decide
  exact noBrace _ declared.isWord first (by simp [wordShape])

theorem braces_tail (declared : Declared) : braces declared.block.tail = 0 := by
  obtain ⟨first, shape, firstZero⟩ := declared.block_eq_cons
  have wordZero : ∀ word ∈ declarationWords, braces word = 0 := by decide
  have whole : braces declared.block = 0 := by
    simp [block, wordZero _ declared.isWord, declared.headBraceless.braces_eq_zero,
      declared.bodyNested.closed, braceChange]
  rw [shape, braces_cons, firstZero] at whole
  simpa using whole

/-! ## The block of the declaration -/

theorem closedPart?_append
    {opened : Bool}
    {depth : Int}
    {text : Text}
    (braceless : Braceless text)
    (unclosed : ¬ (opened = true ∧ depth = 0))
    (rest : Text) :
    closedPart? opened depth (text ++ rest) = (closedPart? opened depth rest).map (text ++ ·) := by
  induction text with
  | nil => simp
  | cons first text hypothesis =>
    obtain ⟨noOpening, noClosing⟩ := braceless first List.mem_cons_self
    have later := hypothesis fun character member =>
      braceless character (List.mem_cons_of_mem _ member)
    rw [List.cons_append, closedPart?]
    simp only [braceChange_eq_zero noOpening noClosing, noOpening, decide_false, Bool.or_false,
      Int.add_zero, later, Option.map_map]
    rw [if_neg unclosed]
    rfl

/-- Inside a body, the closing brace is looked for behind all that keeps the depth above zero. -/
theorem closedPart?_append_of_deep
    {depth : Int}
    {text : Text}
    (deep : ∀ front, front <+: text → 0 < depth + braces front)
    (rest : Text) :
    closedPart? true depth (text ++ rest) =
      (closedPart? true (depth + braces text) rest).map (text ++ ·) := by
  induction text generalizing depth with
  | nil => simp
  | cons first text hypothesis =>
    have stays := deep [first] (by simp)
    rw [braces_cons, braces_nil, Int.add_zero] at stays
    have later := @hypothesis (depth + braceChange first) fun front isPrefix => by
      have further := deep (first :: front) (List.cons_prefix_cons.mpr ⟨rfl, isPrefix⟩)
      rwa [braces_cons, ← Int.add_assoc] at further
    rw [List.cons_append, closedPart?, Bool.true_or, if_neg (by omega), later, braces_cons,
      Int.add_assoc, Option.map_map]
    rfl

/-- The block of a declaration ends with the brace that closes its body. -/
theorem closedPart?_block
    (declared : Declared)
    (rest : Text) :
    closedPart? false 0 (declared.block ++ rest) = some declared.block := by
  have wordBraceless : ∀ word ∈ declarationWords, Braceless word := by decide
  have front : Braceless (declared.word ++ declared.head) :=
    (wordBraceless _ declared.isWord).append declared.headBraceless
  have behind : closedPart? true 1 (declared.body ++ '}' :: rest) =
      some (declared.body ++ ['}']) := by
    have deep : ∀ front, front <+: declared.body → 0 < 1 + braces front := fun front isPrefix => by
      have opened := declared.bodyNested.opened front isPrefix
      omega
    rw [closedPart?_append_of_deep deep, declared.bodyNested.closed]
    simp [closedPart?, braceChange]
  have opening : closedPart? false 0 ('{' :: (declared.body ++ '}' :: rest)) =
      some ('{' :: (declared.body ++ ['}'])) := by
    rw [closedPart?]
    simp [braceChange, behind]
  have shape : declared.block ++ rest =
      declared.word ++ declared.head ++ '{' :: (declared.body ++ '}' :: rest) := by
    simp [block]
  rw [shape, closedPart?_append front (by simp), opening]
  rfl

theorem ofRegion?_block_append
    (declared : Declared)
    (past rest : Text) :
    ofRegion? ⟨past, declared.block ++ rest⟩ = some ⟨past, declared.block⟩ := by
  have opens : (declared.block ++ rest).contains '{' = true := by
    simp [block]
  rw [ofRegion?, if_pos opens, declared.closedPart?_block]
  rfl

/-! ## The scan behind the declaration -/

theorem declarationWord?_eq
    (declared : Declared)
    (rest : Text) :
    declarationWord? (declared.block ++ rest) = some declared.word := by
  have shape : declared.block ++ rest =
      declared.word ++ (declared.head ++ '{' :: (declared.body ++ ['}']) ++ rest) := by
    simp [block]
  rw [shape, declarationWord?_append declared.isWord]

/-- A delimiter follows the declaring word. -/
theorem isDelimiter_head_append
    (declared : Declared)
    (rest : Text) :
    (declared.head ++ rest).head?.all Reserved.isDelimiter = true :=
  Reserved.all_isDelimiter_append declared.delimited rest

/-- A declaration begins behind a fresh text. -/
theorem beginsDeclaration_block
    {past : Text}
    (declared : Declared)
    (fresh : Reserved.Fresh past)
    (rest : Text) :
    beginsDeclaration past (declared.block ++ rest) = true := by
  have shape : declared.block ++ rest =
      declared.word ++ (declared.head ++ '{' :: (declared.body ++ '}' :: rest)) := by
    simp [block]
  rw [beginsDeclaration, declared.declarationWord?_eq]
  dsimp only
  rw [shape, List.drop_left]
  exact Reserved.standsAlone_of_fresh fresh (declared.isDelimiter_head_append _)

/-- Behind its first character, the scan runs through a declaration. -/
theorem regionsFrom_tail_append
    (declared : Declared)
    (first : Char)
    (past : Text)
    (depth : Int)
    (rest : Text)
    (shape : declared.block = first :: declared.block.tail) :
    regionsFrom (first :: past) depth (declared.block.tail ++ rest) =
      let later := regionsFrom (declared.block.reverse ++ past) depth rest
      (declared.block.tail ++ later.1, later.2) := by
  have reversed :
      declared.block.reverse ++ past = declared.block.tail.reverse ++ first :: past := by
    rw [shape]
    simp
  rw [regionsFrom_append _ _ declared.calm_tail, declared.braces_tail, Int.add_zero, reversed]

/-- Inside a region, a declaration gives its block at depth zero, and none at another depth. -/
theorem blocksFrom_block_append
    {past : Text}
    (declared : Declared)
    (depth : Int)
    (fresh : Reserved.Fresh past)
    (rest : Text) :
    blocksFrom past depth (declared.block ++ rest) =
      (if depth = 0 then [⟨past, declared.block⟩] else []) ++
        blocksFrom (declared.block.reverse ++ past) depth rest := by
  obtain ⟨first, shape, firstZero⟩ := declared.block_eq_cons
  have split (later : Text) :
      declared.block ++ later = first :: (declared.block.tail ++ later) := by
    rw [← List.cons_append, ← shape]
  have begins := declared.beginsDeclaration_block fresh rest
  have region := declared.ofRegion?_block_append past
    (regionsFrom (declared.block.reverse ++ past) depth rest).1
  have later := declared.regionsFrom_tail_append first past depth rest shape
  rw [split] at begins region
  rw [blocksFrom, split, regionsFrom_cons, firstZero, Int.add_zero, later]
  by_cases atZero : depth = 0
  · simp only [begins, atZero, and_self, if_true, List.filterMap_cons] at region ⊢
    rw [region]
    rfl
  · simp [atZero, blocksFrom]

/-- The first declaration of a text gives its block and opens the first region. -/
theorem blocksAfter_block_append
    (declared : Declared)
    (past rest : Text) :
    blocksAfter past (declared.block ++ rest) =
      ⟨past, declared.block⟩ :: blocksFrom (declared.block.reverse ++ past) 0 rest := by
  obtain ⟨first, shape, firstZero⟩ := declared.block_eq_cons
  have split (later : Text) :
      declared.block ++ later = first :: (declared.block.tail ++ later) := by
    rw [← List.cons_append, ← shape]
  have isSome : (declarationWord? (declared.block ++ rest)).isSome = true := by
    rw [declared.declarationWord?_eq]
    rfl
  have region := declared.ofRegion?_block_append past
    (regionsFrom (declared.block.reverse ++ past) 0 rest).1
  have later := declared.regionsFrom_tail_append first past 0 rest shape
  rw [split] at isSome region
  rw [blocksAfter, split, regionsAfter, if_pos isSome, firstZero, later]
  simp only [List.filterMap_cons, region]
  rfl

end Declared

end ClassOutline.Block
