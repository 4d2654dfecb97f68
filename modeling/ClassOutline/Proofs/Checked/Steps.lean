import ClassOutline.Proofs.Text.Codes
import ClassOutline.Proofs.Text.Lacks
import ClassOutline.Proofs.Text.Words
import Mathlib.Data.List.Infix
import Mathlib.Data.List.TakeWhile
/-!
# Checked steps

A text can be worked on by byte offsets: parts are cut out between two offsets, bytes are read at an
offset, and differences of offsets are formed.  Each of these steps is possible under a condition
alone.  Here a step has no result if its condition is not met, so what is put together from such
steps has a result only if all conditions are met on the way.
-/

namespace ClassOutline

namespace Checked

/-! ## Offsets and counters -/

/-- The part of a text between two offsets, which lie in order and between characters. -/
def slice? (text : Text) (start stop : Nat) : Option Text :=
  if start ≤ stop then do
    let (_, behind) ← text.cutAtByte? start
    let (part, _) ← behind.cutAtByte? (stop - start)
    some part
  else none

/-- The part of a text is cut out if the text is made of it and of parts with fitting widths. -/
theorem slice?_eq_some
    {text before part after : Text}
    {start stop : Nat}
    (shape : text = before ++ (part ++ after))
    (isStart : start = before.width)
    (isStop : stop = before.width + part.width) :
    slice? text start stop = some part := by
  have between : stop - start = part.width := by omega
  rw [slice?, if_pos (by omega), shape, isStart, Text.cutAtByte?_width_append, isStop,
    Nat.add_sub_cancel_left]
  simp [Text.cutAtByte?_width_append]

/-- Nothing else is ever cut out of a text. -/
theorem slice?_eq_some_iff
    {text part : Text}
    {start stop : Nat} :
    slice? text start stop = some part ↔
      ∃ before after, text = before ++ (part ++ after) ∧ start = before.width ∧
        stop = before.width + part.width := by
  constructor
  · intro cut
    rw [slice?] at cut
    split at cut
    · next inOrder =>
      obtain ⟨⟨before, behind⟩, cutFront, cut⟩ := Option.bind_eq_some_iff.mp cut
      obtain ⟨⟨found, after⟩, cutBehind, same⟩ := Option.bind_eq_some_iff.mp cut
      obtain rfl := Option.some.inj same
      obtain ⟨rfl, isStart⟩ := Text.eq_append_of_cutAtByte? cutFront
      obtain ⟨rfl, isStop⟩ := Text.eq_append_of_cutAtByte? cutBehind
      exact ⟨before, after, rfl, isStart.symm, by omega⟩
    · contradiction
  · rintro ⟨before, after, shape, isStart, isStop⟩
    exact slice?_eq_some shape isStart isStop

/-- The entries of a list between two indices, which lie in order and in the list. -/
def sliceList? {Entry : Type} (entries : List Entry) (start stop : Nat) : Option (List Entry) :=
  if start ≤ stop ∧ stop ≤ entries.length then some ((entries.take stop).drop start) else none

theorem sliceList?_eq_some
    {Entry : Type}
    {entries before part after : List Entry}
    {start stop : Nat}
    (shape : entries = before ++ (part ++ after))
    (isStart : start = before.length)
    (isStop : stop = before.length + part.length) :
    sliceList? entries start stop = some part := by
  have inRange : start ≤ stop ∧ stop ≤ entries.length := by
    rw [shape, List.length_append, List.length_append]
    omega
  have front : entries.take stop = before ++ part := by
    rw [shape, isStop, ← List.append_assoc, ← List.length_append, List.take_left]
  rw [sliceList?, if_pos inRange, front, isStart, List.drop_left]

/-- The difference of two numbers, the first of which is not the smaller one. -/
def sub? (left right : Nat) : Option Nat :=
  if right ≤ left then some (left - right) else none

theorem sub?_add_right (left right : Nat) : sub? (left + right) right = some left := by
  rw [sub?, if_pos (by omega), Nat.add_sub_cancel]

/-- The limit of counters of four bytes. -/
def shortLimit : Nat :=
  2147483648

/-- The limit of counters of eight bytes. -/
def longLimit : Nat :=
  9223372036854775808

/-- A counter that has changed and stays within its limit. -/
def count? (limit : Nat) (number change : Int) : Option Int :=
  if -limit ≤ number + change ∧ number + change < limit then some (number + change) else none

/-- What a counter counts is not more than the bytes that have been read. -/
theorem count?_eq_some
    {limit read : Nat}
    {number change : Int}
    (counted : number.natAbs ≤ read)
    (byOne : change.natAbs ≤ 1)
    (short : read + 1 < limit) :
    count? limit number change = some (number + change) := by
  rw [count?, if_pos (by omega)]

/-- Whether one of the entries passes a test.  Entries are tested up to the first that passes. -/
def any? {Entry : Type} (test : Entry → Option Bool) : List Entry → Option Bool
  | [] => some false
  | entry :: entries => do
    let passed ← test entry
    if passed then some true else any? test entries

theorem any?_eq_some
    {Entry : Type}
    {test : Entry → Option Bool}
    {passes : Entry → Bool}
    {entries : List Entry}
    (tested : ∀ entry ∈ entries, test entry = some (passes entry)) :
    any? test entries = some (entries.any passes) := by
  induction entries with
  | nil => rfl
  | cons entry entries hypothesis =>
    have later := hypothesis fun other member => tested other (List.mem_cons_of_mem _ member)
    rw [any?, tested entry List.mem_cons_self, later]
    cases passed : passes entry <;> simp [passed]

/-- Steps made for all entries have a result if each of them has one. -/
theorem mapM_eq_some
    {Entry Result : Type}
    {step : Entry → Option Result}
    {result : Entry → Result}
    {entries : List Entry}
    (steps : ∀ entry ∈ entries, step entry = some (result entry)) :
    entries.mapM step = some (entries.map result) := by
  induction entries with
  | nil => rfl
  | cons entry entries hypothesis =>
    have later := hypothesis fun other member => steps other (List.mem_cons_of_mem _ member)
    rw [List.mapM_cons, steps entry List.mem_cons_self, later]
    rfl

theorem getElem?_length_append_cons
    {Entry : Type}
    (seen rest : List Entry)
    (current : Entry) :
    (seen ++ current :: rest)[seen.length]? = some current := by
  simp

theorem getElem?_succ_length_append_cons
    {Entry : Type}
    (seen rest : List Entry)
    (current : Entry) :
    (seen ++ current :: rest)[seen.length + 1]? = rest.head? := by
  rw [List.getElem?_append_right (by omega), List.head?_eq_getElem?]
  simp

/-! ## Places of words -/

/-- The offset of the first occurrence of a word. -/
def find? (text word : Text) : Option Nat :=
  (text.cutAt? word).map fun (before, _) => before.width

/-- The offset of the last occurrence of a word. -/
def findLast? (text word : Text) : Option Nat :=
  (text.cutAtLast? word).map fun (before, _) => before.width

theorem find?_singleton
    (text : Text)
    (mark : Char) :
    find? text [mark] =
      if mark ∈ text then some (Text.width (text.takeWhile (· ≠ mark))) else none := by
  induction text with
  | nil => rfl
  | cons first rest hypothesis =>
    rw [find?] at hypothesis ⊢
    rw [Text.cutAt?]
    by_cases isMark : first = mark
    · simp [isMark]
    · have notFirst : mark ≠ first := Ne.symm isMark
      have later : ((Text.cutAt? rest [mark]).map fun parts => Text.width parts.1).map
          (first.utf8Size + ·) =
            if mark ∈ rest then some (first.utf8Size + Text.width (rest.takeWhile (· ≠ mark)))
            else none := by
        rw [hypothesis]
        split <;> rfl
      simpa [isMark, notFirst, Function.comp_def] using later

/-- Behind the last occurrence of a single character there is none. -/
theorem not_mem_of_cutAtLast?_singleton
    {text before after : Text}
    {mark : Char}
    (cut : text.cutAtLast? [mark] = some (before, after)) :
    mark ∉ after := by
  induction text generalizing before with
  | nil => contradiction
  | cons first rest hypothesis =>
    rw [Text.cutAtLast?] at cut
    cases found : Text.cutAtLast? rest [mark] with
    | some parts =>
      rw [found] at cut
      obtain ⟨-, rfl⟩ := Prod.mk.inj (Option.some.inj cut)
      exact hypothesis found
    | none =>
      rw [found] at cut
      dsimp only at cut
      split at cut
      · obtain ⟨-, rfl⟩ := Prod.mk.inj (Option.some.inj cut)
        have lacks := Text.lacks_of_cutAtLast?_eq_none found
        exact fun member => lacks ((List.singleton_infix_iff mark rest).mpr member)
      · contradiction

theorem mentions_singleton
    (text : Text)
    (mark : Char) :
    text.mentions [mark] = text.contains mark := by
  have sameFound : text.mentions [mark] = (find? text [mark]).isSome := by
    rw [find?, Option.isSome_map, Text.mentions]
  rw [sameFound, find?_singleton, Bool.eq_iff_iff, List.contains_iff_mem]
  split
  · next member => exact iff_of_true rfl member
  · next notMember => exact iff_of_false (by decide) notMember

/-- What stands in front of a character is cut off at the offset of the character. -/
theorem slice?_takeWhile
    (text : Text)
    (mark : Char) :
    slice? text 0 (Text.width (text.takeWhile (· ≠ mark))) = some (text.takeWhile (· ≠ mark)) :=
  @slice?_eq_some text [] (text.takeWhile (· ≠ mark)) (text.dropWhile (· ≠ mark)) _ _
    List.takeWhile_append_dropWhile.symm rfl (Nat.zero_add _).symm

/-- Up to a single character stands all that is different from it. -/
theorem getD_find?_singleton
    (text : Text)
    (mark : Char) :
    (find? text [mark]).getD text.width = Text.width (text.takeWhile (· ≠ mark)) := by
  rw [find?_singleton]
  split
  · rfl
  · next noMark =>
    have whole : text.takeWhile (· ≠ mark) = text := by
      rw [List.takeWhile_eq_self_iff]
      intro character member
      simpa using fun same : character = mark => noMark (same ▸ member)
    rw [whole]
    rfl

end Checked

namespace Text

/-! ## Parts of texts -/

theorem width_le_of_isInfix
    {part text : Text}
    (isPart : part <:+: text) :
    part.width ≤ text.width := by
  obtain ⟨before, after, rfl⟩ := isPart
  rw [width_append, width_append]
  omega

theorem exists_dropWhile_eq
    {mark : Char}
    {text : Text}
    (member : mark ∈ text) :
    ∃ rest, text.dropWhile (· ≠ mark) = mark :: rest := by
  induction text with
  | nil => contradiction
  | cons first text hypothesis =>
    by_cases isMark : first = mark
    · exact ⟨text, by simp [isMark]⟩
    · obtain ⟨rest, dropped⟩ :=
        hypothesis ((List.mem_cons.mp member).resolve_left (Ne.symm isMark))
      exact ⟨rest, by simpa [isMark] using dropped⟩

theorem width_takeWhile_append_le
    {mark : Char}
    {front : Text}
    (member : mark ∈ front)
    (rest : Text) :
    width ((front ++ rest).takeWhile (· ≠ mark)) ≤ front.width := by
  obtain ⟨before, after, rfl, notMember⟩ := List.eq_append_cons_of_mem member
  rw [List.append_assoc, takeWhile_append_of_not_mem notMember, width_append]
  simp

/-- Where a word is found first, no occurrence lies in front. -/
theorem isPrefix_of_cutAt?
    {text word before after front behind : Text}
    (cut : cutAt? text word = some (before, after))
    (occurs : text = front ++ word ++ behind) :
    before <+: front := by
  induction text generalizing before after front with
  | nil =>
    have noBefore := eq_append_of_cutAt? cut
    rw [eq_comm, List.append_eq_nil_iff, List.append_eq_nil_iff] at noBefore
    rw [noBefore.1.1]
    exact List.nil_prefix
  | cons first rest hypothesis =>
    rw [cutAt?] at cut
    split at cut
    · obtain ⟨rfl, -⟩ := Prod.mk.inj (Option.some.inj cut)
      exact List.nil_prefix
    · next notHere =>
      obtain ⟨⟨earlier, later⟩, cutRest, same⟩ := Option.map_eq_some_iff.mp cut
      obtain ⟨rfl, -⟩ := Prod.mk.inj same
      cases front with
      | nil => exact absurd (List.isPrefixOf_iff_prefix.mpr ⟨behind, occurs.symm⟩) notHere
      | cons second front =>
        obtain ⟨rfl, occursLater⟩ := List.cons.inj occurs
        exact List.cons_prefix_cons.mpr ⟨rfl, hypothesis cutRest occursLater⟩

end Text

end ClassOutline
