import ClassOutline.Proofs.Checked.Steps
import ClassOutline.Proofs.Reserved
import Mathlib.Data.List.Induction
/-!
# Keywords by offsets

Whether a word stands alone is asked at its offset: the byte in front of it, the one behind it, and
the bytes up to it are looked at.  At the offset of a word, all of these are in the text.
-/

namespace ClassOutline.Checked

/-- The byte in front of an index, if there is one. -/
def previous? (codes : Text) (index : Nat) : Option (Option Char) :=
  if 0 < index then (sub? index 1).map (codes[·]?) else some none

/-- Whether a word that begins at an offset stands alone, decided on bytes. -/
def standsAloneAt? (text : Text) (offset : Nat) (word : Text) : Option Bool := do
  let codes := text.codes
  let previous ← previous? codes offset
  let past ← sliceList? codes 0 (min offset codes.length)
  some (Reserved.standsAlone previous codes[offset + word.width]? past.reverse)

/-- The offset of the first occurrence of a word, if that occurrence stands alone. -/
def first? (word text : Text) : Option (Option Nat) :=
  match find? text word with
  | none => some none
  | some offset => do
    let standsAlone ← standsAloneAt? text offset word
    some (if standsAlone then some offset else none)

/-- Whether the text begins with a word that stands alone. -/
def begins? (word text : Text) : Option Bool :=
  if word.isPrefixOf text then standsAloneAt? text 0 word else some false

/-- The index of the first byte that is no delimiter, from a given index on. -/
def skipDelimiters? (codes : Text) (index : Nat) : Option Nat :=
  if index < codes.length then do
    let code ← codes[index]?
    if Reserved.isDelimiter code then skipDelimiters? codes (index + 1) else some index
  else some index
termination_by codes.length - index

/-! ## Words that stand alone -/

theorem narrowOnly_contains
    {marks : List Char}
    (narrow : ∀ mark ∈ marks, Text.IsNarrow mark) :
    Text.NarrowOnly marks.contains :=
  fun character isMark => narrow character (List.contains_iff_mem.mp isMark)

theorem narrowOnly_isDelimiter : Text.NarrowOnly Reserved.isDelimiter :=
  narrowOnly_contains (by decide)

theorem narrowOnly_isAsciiBlank : Text.NarrowOnly Reserved.isAsciiBlank :=
  narrowOnly_contains (by decide)

/-- The byte in front of a place in a text is the last byte of what stands there. -/
theorem previous?_codes_width (before after : Text) :
    previous? (Text.codes (before ++ after)) before.width = some before.codes.getLast? := by
  rw [previous?]
  split
  · next notAtStart =>
    have isLast : (Text.codes (before ++ after))[before.width - 1]? = before.codes.getLast? := by
      rw [Text.codes_append, List.getElem?_append_left (by rw [Text.length_codes]; omega),
        List.getLast?_eq_getElem?, Text.length_codes]
    rw [sub?, if_pos (Nat.succ_le_of_lt notAtStart), Option.map_some, isLast]
  · next atStart =>
    obtain rfl : before = [] := Text.eq_nil_of_width (by omega)
    rfl

/-- The bytes in front of a word continue a list if the text does. -/
theorem continuesList_codes (text : Text) :
    Reserved.continuesList text.codes.reverse = Reserved.continuesList text.reverse := by
  have reads (nearest : Char) (past : Text) :
      Reserved.continuesList (nearest :: past) =
        if Reserved.isAsciiBlank nearest then Reserved.continuesList past
        else nearest = '<' || nearest = ',' := by
    rw [Reserved.continuesList, Reserved.continuesList, List.find?_cons]
    cases Reserved.isAsciiBlank nearest <;> rfl
  have wideEnds (nearest : Char) (past : Text) (wide : ¬ Text.IsNarrow nearest) :
      Reserved.continuesList (nearest :: past) = false := by
    have noBracket : nearest ≠ '<' := fun same => wide (same ▸ by decide)
    have noComma : nearest ≠ ',' := fun same => wide (same ▸ by decide)
    rw [reads, narrowOnly_isAsciiBlank.eq_false wide]
    simp [noBracket, noComma]
  induction text using List.reverseRecOn with
  | nil => rfl
  | append_singleton front last hypothesis =>
    rw [Text.codes_append, Text.codes_cons, Text.codes_nil, List.append_nil, List.reverse_append,
      List.reverse_append, List.reverse_singleton, List.singleton_append]
    by_cases narrow : Text.IsNarrow last
    · rw [narrow.codesOf_eq, List.reverse_singleton, List.singleton_append, reads, reads,
        hypothesis]
    · rcases List.eq_nil_or_concat (Text.codesOf last) with empty | ⟨earlier, code, shape⟩
      · exact absurd empty (Text.codesOf_ne_nil last)
      · have wide : ¬ Text.IsNarrow code :=
          Text.not_isNarrow_of_mem_codesOf narrow (by rw [shape]; simp)
        rw [shape, List.concat_eq_append, List.reverse_append, List.reverse_singleton,
          List.singleton_append, List.cons_append, wideEnds _ _ wide, wideEnds _ _ narrow]

theorem standsAlone_codes (before after : Text) :
    Reserved.standsAlone before.codes.getLast? after.codes.head? before.codes.reverse =
      Reserved.standsAlone before.getLast? after.head? before.reverse := by
  have all (found : Option Char) :
      found.all Reserved.isDelimiter = (found.map Reserved.isDelimiter).all id := by
    cases found <;> rfl
  rw [Reserved.standsAlone, Reserved.standsAlone, all, all, all, all,
    narrowOnly_isDelimiter.map_getLast?_codes, narrowOnly_isDelimiter.map_head?_codes,
    continuesList_codes]

/-- At the place of a word, its bytes tell whether it stands alone. -/
theorem standsAloneAt?_width_append (before word after : Text) :
    standsAloneAt? (before ++ word ++ after) before.width word =
      some (Reserved.standsAlone before.getLast? after.head? before.reverse) := by
  have following : (Text.codes (before ++ word ++ after))[before.width + word.width]? =
      after.codes.head? := by
    rw [← Text.width_append, Text.getElem?_codes_width]
  have codesShape : Text.codes (before ++ word ++ after) =
      before.codes ++ Text.codes (word ++ after) := by
    rw [List.append_assoc, Text.codes_append]
  have inText : min before.width (Text.codes (before ++ word ++ after)).length = before.width := by
    rw [codesShape, List.length_append, Text.length_codes]
    omega
  have past : sliceList? (Text.codes (before ++ word ++ after)) 0 before.width =
      some before.codes :=
    @sliceList?_eq_some _ _ [] _ _ _ _ codesShape rfl (by simp)
  have previous := previous?_codes_width before (word ++ after)
  rw [← List.append_assoc] at previous
  rw [standsAloneAt?, previous]
  dsimp only [Option.bind_eq_bind, Option.bind_some]
  rw [inText, past, following]
  dsimp only [Option.bind_some]
  rw [standsAlone_codes]

theorem first?_eq (word text : Text) : first? word text = some (Reserved.first? word text) := by
  rw [first?, Reserved.first?, find?]
  cases cut : text.cutAt? word with
  | none => rfl
  | some parts =>
    obtain ⟨before, after⟩ := parts
    have shape := Text.eq_append_of_cutAt? cut
    have standsAlone := standsAloneAt?_width_append before word after
    rw [← shape] at standsAlone
    dsimp only [Option.map_some]
    rw [standsAlone]
    rfl

theorem begins?_eq (word text : Text) : begins? word text = some (Reserved.begins word text) := by
  rw [begins?, Reserved.begins]
  split
  · next isPrefix =>
    obtain ⟨after, rfl⟩ := List.isPrefixOf_iff_prefix.mp isPrefix
    have standsAlone := standsAloneAt?_width_append [] word after
    rw [List.nil_append, Text.width_nil] at standsAlone
    rw [standsAlone, isPrefix, List.drop_left]
    rfl
  · next noPrefix =>
    rw [Bool.eq_false_iff.mpr noPrefix]
    rfl

/-! ## Delimiters in a row -/

/-- The delimiters behind a place are passed over. -/
theorem skipDelimiters?_width (before text : Text) :
    skipDelimiters? (Text.codes (before ++ text)) before.width =
      some (before.width + Text.width (text.takeWhile Reserved.isDelimiter)) := by
  induction text generalizing before with
  | nil =>
    rw [skipDelimiters?, List.append_nil, Text.length_codes, if_neg (Nat.lt_irrefl _)]
    rfl
  | cons first rest hypothesis =>
    have inText : before.width < (Text.codes (before ++ first :: rest)).length := by
      have positive := first.utf8Size_pos
      rw [Text.length_codes, Text.width_append, Text.width_cons]
      omega
    have sameProperty := narrowOnly_isDelimiter.map_head?_codes (first :: rest)
    rw [skipDelimiters?, if_pos inText, Text.getElem?_codes_width]
    obtain ⟨code, isCode⟩ : ∃ code, (Text.codes (first :: rest)).head? = some code := by
      cases found : (Text.codes (first :: rest)).head? with
      | none => simp [found] at sameProperty
      | some code => exact ⟨code, rfl⟩
    have sameDelimiter : Reserved.isDelimiter code = Reserved.isDelimiter first := by
      simpa [isCode] using sameProperty
    simp only [isCode, Option.bind_eq_bind, Option.bind_some, sameDelimiter]
    split
    · next isDelimiter =>
      have size := (narrowOnly_isDelimiter first isDelimiter).utf8Size_eq
      have later := hypothesis (before ++ [first])
      rw [List.append_assoc, List.singleton_append, Text.width_append, Text.width_cons, size,
        Text.width_nil] at later
      rw [List.takeWhile_cons_of_pos isDelimiter, Text.width_cons, size, ← Nat.add_assoc]
      exact later
    · next noDelimiter =>
      rw [List.takeWhile_cons_of_neg noDelimiter]
      rfl

end ClassOutline.Checked
