import ClassOutline.ClassHead
import ClassOutline.Proofs.Checked.Keywords
/-!
# Class heads by offsets

The head of a block is cut out between the offset of a delimiter and that of a brace, and cut again
at the offset of a colon.  The template clause is cut out of the text in front of the block.
-/

namespace ClassOutline.Checked

/-! ## The head of a declaration -/

/-- The text between the declaring word and the body, cut out by offsets. -/
def headOf? (declaration : Text) : Option Text := do
  let brace := (find? declaration ['{']).getD declaration.width
  let delimiter := (declaration.codes.findIdx? Reserved.isDelimiter).getD declaration.width
  let head ← slice? declaration (min delimiter brace) brace
  some head.trim

theorem headOf?_eq (declaration : Text) :
    headOf? declaration = some (ClassHead.headOf declaration) := by
  have delimiter := narrowOnly_isDelimiter.findIdx?_codes declaration
  have brace := getD_find?_singleton declaration '{'
  -- The brace is a delimiter, so the first delimiter does not lie behind it.
  have sameLead : declaration.takeWhile (fun character => !Reserved.isDelimiter character) =
      (declaration.takeWhile (· ≠ '{')).takeWhile fun character =>
        !Reserved.isDelimiter character := by
    have isDelimiter : Reserved.isDelimiter '{' = true := by decide
    rw [List.takeWhile_takeWhile]
    congr 1
    funext character
    by_cases isBrace : character = '{'
    · subst isBrace
      rw [isDelimiter]
      rfl
    · simp [isBrace]
  have shape : declaration = (declaration.takeWhile (· ≠ '{')).takeWhile
        (fun character => !Reserved.isDelimiter character) ++
      ((declaration.takeWhile (· ≠ '{')).dropWhile
        (fun character => !Reserved.isDelimiter character) ++ declaration.dropWhile (· ≠ '{')) := by
    rw [← List.append_assoc, List.takeWhile_append_dropWhile, List.takeWhile_append_dropWhile]
  have sum : Text.width (declaration.takeWhile (· ≠ '{')) =
      Text.width ((declaration.takeWhile (· ≠ '{')).takeWhile
        fun character => !Reserved.isDelimiter character) +
      Text.width ((declaration.takeWhile (· ≠ '{')).dropWhile
        fun character => !Reserved.isDelimiter character) := by
    rw [← Text.width_append, List.takeWhile_append_dropWhile]
  rw [headOf?, brace, delimiter, sameLead, slice?_eq_some shape (by omega) sum]
  rfl

/-! ## The name and the base classes -/

/--
Cuts a head at its first single colon outside angle brackets.  The bytes are read from an index on,
with a number of open brackets.
-/
def cutAtColonFrom? (head : Text) (depth : Int) (index : Nat) :
    Text → Option (Option (Text × Text))
  | [] => some none
  | code :: later =>
    if code = '<' then do
      let depth ← count? shortLimit depth 1
      cutAtColonFrom? head depth (index + 1) later
    else if code = '>' then do
      let depth ← count? shortLimit depth (-1)
      cutAtColonFrom? head depth (index + 1) later
    else if code = ':' ∧ depth = 0 then do
      let previous ← previous? head.codes index
      if head.codes[index + 1]? = some ':' ∨ previous = some ':' then
        cutAtColonFrom? head depth (index + 1) later
      else do
        let before ← slice? head 0 index
        let after ← slice? head (index + 1) head.width
        some (some (before, after))
    else cutAtColonFrom? head depth (index + 1) later

/-- The bytes of a wide character are passed over. -/
theorem cutAtColonFrom?_of_wide
    {code : Char}
    (head : Text)
    (depth : Int)
    (index : Nat)
    (later : Text)
    (wide : ¬ Text.IsNarrow code) :
    cutAtColonFrom? head depth index (code :: later) =
      cutAtColonFrom? head depth (index + 1) later := by
  have noOpening : code ≠ '<' := Text.ne_of_wide wide (by decide)
  have noClosing : code ≠ '>' := Text.ne_of_wide wide (by decide)
  have noColon : code ≠ ':' := Text.ne_of_wide wide (by decide)
  rw [cutAtColonFrom?, if_neg noOpening, if_neg noClosing, if_neg fun both => noColon both.1]

/-- At a colon outside brackets the head is cut, unless another colon stands beside it. -/
theorem cutAtColonFrom?_colon
    {head before rest : Text}
    (shape : head = before ++ ':' :: rest) :
    cutAtColonFrom? head 0 before.width (':' :: rest.codes) =
      if rest.head? = some ':' ∨ before.getLast? = some ':' then
        cutAtColonFrom? head 0 (before.width + 1) rest.codes
      else some (some (before, rest)) := by
  have narrow : Text.IsNarrow ':' := by decide
  have size : Text.width (before ++ [':']) = before.width + 1 := by
    rw [Text.width_append, Text.width_cons, narrow.utf8Size_eq, Text.width_nil]
  have shapeLater : head = (before ++ [':']) ++ rest := by simpa using shape
  have previous : previous? head.codes before.width = some before.codes.getLast? := by
    rw [shape, previous?_codes_width]
  have following : head.codes[before.width + 1]? = (Text.codes rest).head? := by
    rw [← size, shapeLater, Text.getElem?_codes_width]
  have cutFront : slice? head 0 before.width = some before :=
    @slice?_eq_some _ [] _ _ _ _ shape rfl (Nat.zero_add _).symm
  have cutBehind : slice? head (before.width + 1) head.width = some rest :=
    slice?_eq_some (by rw [shapeLater, List.append_nil]) size.symm
      (by rw [shapeLater, Text.width_append])
  rw [cutAtColonFrom?, if_neg (by decide), if_neg (by decide), if_pos ⟨rfl, rfl⟩, previous,
    following, cutFront, cutBehind]
  simp only [Option.bind_eq_bind, Option.bind_some, Text.head?_codes_eq_some_iff narrow,
    Text.getLast?_codes_eq_some_iff narrow]

/-- The rest of a head is cut where it is cut as a text. -/
theorem cutAtColonFrom?_codes
    {head before text : Text}
    {depth : Int}
    (shape : head = before ++ text)
    (counted : depth.natAbs ≤ before.width)
    (short : head.width < shortLimit) :
    cutAtColonFrom? head depth before.width text.codes =
      some ((ClassHead.cutAtColon? depth before.getLast? text).map
        fun (front, behind) => (before ++ front, behind)) := by
  induction text generalizing before depth with
  | nil => rfl
  | cons current rest hypothesis =>
    have size := current.utf8Size_pos
    have shapeLater : head = (before ++ [current]) ++ rest := by simpa using shape
    have widthLater : Text.width (before ++ [current]) = before.width + current.utf8Size := by simp
    have inHead : before.width + current.utf8Size ≤ head.width := by
      rw [shape, Text.width_append, Text.width_cons]
      omega
    -- Behind the character the reading goes on with one more character in front.
    have later (next : Int) (countedLater : next.natAbs ≤ before.width + current.utf8Size) :
        cutAtColonFrom? head next (before.width + current.utf8Size) (Text.codes rest) =
          some (((ClassHead.cutAtColon? next (some current) rest).map
            fun (front, behind) => (current :: front, behind)).map
              fun (front, behind) => (before ++ front, behind)) := by
      have read := hypothesis shapeLater (by rwa [widthLater])
      rw [widthLater, List.getLast?_append, List.getLast?_singleton, Option.some_or] at read
      rw [read, Option.map_map]
      congr 3
      funext parts
      simp
    rw [ClassHead.cutAtColon?]
    by_cases narrow : Text.IsNarrow current
    · rw [narrow.codes_cons]
      rw [narrow.utf8Size_eq] at later inHead
      by_cases isColon : current = ':' ∧ depth = 0
      · obtain ⟨rfl, rfl⟩ := isColon
        rw [cutAtColonFrom?_colon shape, later 0 (by omega)]
        simp only [ne_eq, ← not_or, true_and]
        by_cases isScope : rest.head? = some ':' ∨ before.getLast? = some ':'
        · rw [if_pos isScope, if_neg (not_not_intro isScope)]
          rfl
        · rw [if_neg isScope, if_pos isScope]
          simp
      · have noCut : ¬ (current = ':' ∧ depth = 0 ∧ rest.head? ≠ some ':' ∧
            before.getLast? ≠ some ':') := fun all => isColon ⟨all.1, all.2.1⟩
        rw [cutAtColonFrom?, if_neg isColon, if_neg noCut]
        by_cases opens : current = '<'
        · subst opens
          rw [if_pos rfl, count?_eq_some counted (by decide) (by omega)]
          exact later (depth + 1) (by omega)
        · by_cases closes : current = '>'
          · subst closes
            rw [if_neg (by decide), if_pos rfl, count?_eq_some counted (by decide) (by omega)]
            exact later (depth - 1) (by omega)
          · rw [if_neg opens, if_neg closes, later depth (by omega)]
            simp only [opens, closes, if_false]
    · have noOpening : current ≠ '<' := Text.ne_of_wide narrow (by decide)
      have noClosing : current ≠ '>' := Text.ne_of_wide narrow (by decide)
      have noColon : current ≠ ':' := Text.ne_of_wide narrow (by decide)
      rw [Text.read_codes_of_wide
        (fun index code later _ => cutAtColonFrom?_of_wide head depth index later) narrow,
        later depth (by omega)]
      simp only [noOpening, noClosing, noColon, false_and, if_false]

/-- A head is cut where it is cut as a text. -/
theorem cutAtColonFrom?_head
    {head : Text}
    (short : head.width < shortLimit) :
    cutAtColonFrom? head 0 0 head.codes = some (ClassHead.cutAtColon? 0 none head) := by
  have read := @cutAtColonFrom?_codes head [] head 0 rfl (Nat.zero_le _) short
  simpa using read

/-! ## The template clause -/

/-- The template clause at the end of a text, cut out at the offset of its first word. -/
def templateClauseOf? (above : Text) : Option Text :=
  if above.trimEnd.getLast? = some '>' then
    match findLast? above "template".toList with
    | none => some []
    | some offset => do
      let rest ← slice? above offset above.width
      let isKeyword ← standsAloneAt? above offset "template".toList
      some (if !isKeyword || rest.trim.any ClassHead.isBreak then [] else rest.trim)
  else some []

theorem templateClauseOf?_above (block : Block) :
    templateClauseOf? block.above = some (ClassHead.templateClauseOf block) := by
  have sameEnd : block.above.trimEnd.getLast? = (block.past.dropWhile Text.isBlank).head? := by
    rw [Text.trimEnd, Block.above, List.reverse_reverse, List.getLast?_reverse]
  rw [templateClauseOf?, ClassHead.templateClauseOf, sameEnd]
  split
  · rw [findLast?]
    cases cut : block.above.cutAtLast? "template".toList with
    | none => rfl
    | some parts =>
      obtain ⟨before, after⟩ := parts
      have shape := Text.eq_append_of_cutAtLast? cut
      have rest : slice? block.above before.width block.above.width =
          some ("template".toList ++ after) :=
        slice?_eq_some (by rw [List.append_nil, shape, List.append_assoc]) rfl
          (by rw [shape, List.append_assoc, Text.width_append])
      have standsAlone := standsAloneAt?_width_append before "template".toList after
      rw [← shape] at standsAlone
      simp only [Option.map_some]
      rw [rest, standsAlone]
      simp only [Option.bind_eq_bind, Option.bind_some]
      congr 1
      cases Reserved.standsAlone before.getLast? after.head? before.reverse <;>
        cases (Text.trim ("template".toList ++ after)).any ClassHead.isBreak <;> rfl
  · rfl

/-! ## The head of a block -/

/-- The head of the block that begins at an offset of a text. -/
def ofBlock? (whole : Text) (offset : Nat) (text : Text) : Option (Except Failure ClassHead) := do
  let above ← slice? whole 0 offset
  let head ← headOf? text
  let cut ← cutAtColonFrom? head 0 0 head.codes
  let (name, bases) :=
    match cut with
    | some (before, after) => (before.trim, ClassHead.basesOf after)
    | none => (head, [])
  if ClassHead.LegalName name then do
    let templateClause ← templateClauseOf? above
    some (.ok
      { name := ClassHead.dropFinal name
        templateClause
        bases
        startLine := above.lineBreaks
        endLine := above.lineBreaks + text.lineBreaks })
  else some (.error (.malformedName name))

theorem ofBlock?_offset
    {whole after : Text}
    {block : Block}
    (shape : whole = block.above ++ (block.text ++ after))
    (short : whole.width < shortLimit) :
    ofBlock? whole block.offset block.text = some (ClassHead.ofBlock block) := by
  have offset := block.offset_eq_width_above
  have above : slice? whole 0 block.offset = some block.above :=
    @slice?_eq_some _ [] _ _ _ _ shape rfl (by simp [offset])
  have sameBreaks : block.above.lineBreaks = block.past.lineBreaks :=
    Text.lineBreaks_reverse block.past
  have inBlock : ClassHead.headOf block.text <:+: block.text :=
    (Text.trim_isInfix _).trans
      ((List.dropWhile_suffix _).isInfix.trans (List.takeWhile_prefix _).isInfix)
  have inWhole : block.text <:+: whole := ⟨block.above, after, by rw [shape, List.append_assoc]⟩
  have shortHead := Nat.lt_of_le_of_lt (Text.width_le_of_isInfix (inBlock.trans inWhole)) short
  have cut := cutAtColonFrom?_head shortHead
  rw [ofBlock?, above, ClassHead.ofBlock]
  simp only [Option.bind_eq_bind, Option.bind_some, headOf?_eq, cut,
    templateClauseOf?_above, sameBreaks]
  cases ClassHead.cutAtColon? 0 none (ClassHead.headOf block.text) with
  | none =>
    dsimp only
    split <;> rfl
  | some parts =>
    dsimp only
    split <;> rfl

end ClassOutline.Checked
