import ClassOutline.Proofs.Block.Segments
import Mathlib.Data.List.Nodup
/-!
# Marks in order

The declaring words are looked for one after the other, and an occurrence of a word is not looked
for inside the one in front of it.  What is found is put in order of the offsets.

None of the words holds its first letter a second time, so its occurrences do not overlap, and no
two words begin at the same place.  The marks are therefore the places at which a declaring word
stands, from left to right, and the offset of a mark lies in front of the next one.
-/

namespace ClassOutline.Checked

/-- A word found at an offset. -/
structure Mark where
  offset : Nat
  word : Text
deriving DecidableEq, Repr

/--
The offsets of the occurrences of a word in a text that begins at a given offset.  The first
characters, of a given number, belong to an earlier occurrence.
-/
def offsetsFrom (word : Text) (skip offset : Nat) : Text → List Nat
  | [] => []
  | current :: rest =>
    match skip with
    | skip + 1 => offsetsFrom word skip (offset + current.utf8Size) rest
    | 0 =>
      if word.isPrefixOf (current :: rest) then
        offset :: offsetsFrom word (word.length - 1) (offset + current.utf8Size) rest
      else offsetsFrom word 0 (offset + current.utf8Size) rest

/-- The declaring words in a text, in order of their offsets. -/
def marks (text : Text) : List Mark :=
  (Block.declarationWords.flatMap fun word =>
    (offsetsFrom word 0 0 text).map fun offset => { offset, word }).mergeSort
      fun left right => left.offset ≤ right.offset

/-- The declaring words in a text that begins at a given offset, found from left to right. -/
def marksFrom (offset : Nat) : Text → List Mark
  | [] => []
  | current :: rest =>
    let later := marksFrom (offset + current.utf8Size) rest
    match Block.declarationWord? (current :: rest) with
    | some word => { offset, word } :: later
    | none => later

/-! ## Occurrences of one word -/

/-- No word begins among the later letters of an occurrence. -/
theorem offsetsFrom_length
    {first : Char}
    {tail letters : Text}
    (foreign : first ∉ letters)
    (offset : Nat)
    (rest : Text) :
    offsetsFrom (first :: tail) letters.length offset (letters ++ rest) =
      offsetsFrom (first :: tail) 0 offset (letters ++ rest) := by
  induction letters generalizing offset with
  | nil => rfl
  | cons letter letters hypothesis =>
    obtain ⟨notFirst, foreignLater⟩ := List.ne_and_not_mem_of_not_mem_cons foreign
    have noBeginning : (first :: tail).isPrefixOf (letter :: (letters ++ rest)) = false := by
      rw [List.isPrefixOf_cons_cons, beq_eq_false_iff_ne.mpr notFirst, Bool.false_and]
    rw [List.length_cons, List.cons_append, offsetsFrom, offsetsFrom, noBeginning,
      if_neg Bool.false_ne_true, hypothesis foreignLater]

theorem offsetsFrom_cons
    {first : Char}
    {tail : Text}
    (foreign : first ∉ tail)
    (offset : Nat)
    (current : Char)
    (rest : Text) :
    offsetsFrom (first :: tail) 0 offset (current :: rest) =
      (if (first :: tail).isPrefixOf (current :: rest) then [offset] else []) ++
        offsetsFrom (first :: tail) 0 (offset + current.utf8Size) rest := by
  rw [offsetsFrom]
  split
  · next begins =>
    obtain ⟨-, behind, shape⟩ := List.cons_prefix_cons.mp (List.isPrefixOf_iff_prefix.mp begins)
    rw [← shape, List.length_cons, Nat.add_sub_cancel, offsetsFrom_length foreign]
    rfl
  · rfl

/-! ## All declaring words -/

theorem declarationWords_eq :
    Block.declarationWords = ['c' :: "lass".toList, 's' :: "truct".toList] := by
  decide

theorem declarationWord?_eq (text : Text) :
    Block.declarationWord? text =
      if ('c' :: "lass".toList).isPrefixOf text then some ('c' :: "lass".toList)
      else if ('s' :: "truct".toList).isPrefixOf text then some ('s' :: "truct".toList)
      else none := by
  rw [Block.declarationWord?, declarationWords_eq, List.find?_cons, List.find?_singleton]
  split <;> simp_all

/-- Searching for the words one after the other finds what is found from left to right. -/
theorem perm_marksFrom
    (offset : Nat)
    (text : Text) :
    (Block.declarationWords.flatMap fun word =>
      (offsetsFrom word 0 offset text).map fun offset => ({ offset, word } : Mark)).Perm
        (marksFrom offset text) := by
  rw [declarationWords_eq]
  induction text generalizing offset with
  | nil => exact .refl _
  | cons current rest hypothesis =>
    have later := hypothesis (offset + current.utf8Size)
    simp only [List.flatMap_cons, List.flatMap_nil, List.append_nil] at later ⊢
    rw [offsetsFrom_cons (by decide), offsetsFrom_cons (by decide), marksFrom, declarationWord?_eq]
    by_cases isClass : ('c' :: "lass".toList).isPrefixOf (current :: rest) = true
    · have notStruct : ¬ ('s' :: "truct".toList).isPrefixOf (current :: rest) = true := by
        obtain ⟨rfl, -⟩ := List.cons_prefix_cons.mp (List.isPrefixOf_iff_prefix.mp isClass)
        simp
      rw [if_pos isClass, if_pos isClass, if_neg notStruct]
      exact later.cons _
    · rw [if_neg isClass, if_neg isClass]
      by_cases isStruct : ('s' :: "truct".toList).isPrefixOf (current :: rest) = true
      · rw [if_pos isStruct, if_pos isStruct]
        exact List.perm_middle.trans (later.cons _)
      · rw [if_neg isStruct, if_neg isStruct]
        exact later

theorem offset_le_of_mem_marksFrom
    {offset : Nat}
    {text : Text} :
    ∀ mark ∈ marksFrom offset text, offset ≤ mark.offset := by
  induction text generalizing offset with
  | nil => simp [marksFrom]
  | cons current rest hypothesis =>
    intro mark member
    have behind (later : mark ∈ marksFrom (offset + current.utf8Size) rest) :
        offset ≤ mark.offset :=
      Nat.le_trans (Nat.le_add_right _ _) (hypothesis mark later)
    rw [marksFrom] at member
    split at member
    · rcases List.mem_cons.mp member with rfl | later
      · exact Nat.le_refl _
      · exact behind later
    · exact behind member

theorem pairwise_marksFrom
    (offset : Nat)
    (text : Text) :
    (marksFrom offset text).Pairwise fun left right => left.offset < right.offset := by
  induction text generalizing offset with
  | nil => exact .nil
  | cons current rest hypothesis =>
    have later := hypothesis (offset + current.utf8Size)
    rw [marksFrom]
    split
    · refine later.cons fun mark member => ?_
      have positive := current.utf8Size_pos
      have behind := offset_le_of_mem_marksFrom mark member
      dsimp only
      omega
    · exact later

/-- The marks in order are those found from left to right. -/
theorem marks_eq (text : Text) : marks text = marksFrom 0 text := by
  have sorted :
      (marks text).Pairwise fun left right => decide (left.offset ≤ right.offset) = true :=
    List.pairwise_mergeSort
      (fun first second third => by
        rw [decide_eq_true_eq, decide_eq_true_eq, decide_eq_true_eq]
        exact Nat.le_trans)
      (fun left right => by
        rw [Bool.or_eq_true, decide_eq_true_eq, decide_eq_true_eq]
        exact Nat.le_total _ _)
      _
  have inOrder := pairwise_marksFrom 0 text
  have same : (marks text).Perm (marksFrom 0 text) :=
    (List.mergeSort_perm _ _).trans (perm_marksFrom 0 text)
  refine List.Perm.eq_of_pairwise ?_ sorted (inOrder.imp fun before => ?_) same
  · intro left right isLeft isRight before behind
    have nodup : ((marksFrom 0 text).map Mark.offset).Nodup :=
      List.pairwise_map.mpr (inOrder.imp Nat.ne_of_lt)
    have sameOffset : left.offset = right.offset :=
      Nat.le_antisymm (of_decide_eq_true before) (of_decide_eq_true behind)
    exact List.inj_on_of_nodup_map nodup (same.subset isLeft) isRight sameOffset
  · exact decide_eq_true (Nat.le_of_lt before)

/-- The mark at the beginning of a stretch. -/
def Mark.ofStretch (stretch : Text × Block) : Mark :=
  { offset := stretch.2.offset, word := stretch.1 }

/-- The marks are the places of the stretches. -/
theorem marksFrom_eq_map
    (past text : Text) :
    marksFrom past.width text =
      (Block.Segment.stretchesFrom past text).2.map Mark.ofStretch := by
  induction text generalizing past with
  | nil => rfl
  | cons current rest hypothesis =>
    have later := hypothesis (current :: past)
    rw [Text.width_cons, Nat.add_comm] at later
    rw [marksFrom, Block.Segment.stretchesFrom]
    dsimp only
    rw [later]
    cases Block.declarationWord? (current :: rest) <;> rfl

end ClassOutline.Checked
