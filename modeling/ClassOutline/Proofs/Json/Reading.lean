import ClassOutline.Json.Basic
/-!
# Reading what is written

A word is read back if no two values have the same one, and a list or an optional value is read back
if its values are.  A key that is taken out of an object is missing, and the other keys keep their
values.
-/

namespace ClassOutline.Json

variable {α : Type} {write : α → Json} {read : Json → Option α}

/-- What is written is read back, and different values are written differently. -/
structure Lossless (write : α → Json) (read : Json → Option α) : Prop where
  readBack : ∀ value, read (write value) = some value
  distinct : ∀ first second, write first = write second → first = second

theorem Lossless.of_readBack
    (readBack : ∀ value, read (write value) = some value) :
    Lossless write read where
  readBack := readBack
  distinct first second same := by
    have sameRead := congrArg read same
    rw [readBack, readBack] at sameRead
    exact Option.some.inj sameRead

/-! ## Words, lists and optional values -/

/-- Values with different words are told apart by them. -/
theorem readWord_text
    {values : List α}
    {word : α → Text}
    (different : (values.map word).Nodup)
    {value : α}
    (member : value ∈ values) :
    readWord values word (.text (word value)) = some value := by
  rw [readWord, word?, Option.bind_some]
  induction values with
  | nil => contradiction
  | cons first values hypothesis =>
    obtain ⟨firstDiffers, laterDifferent⟩ := List.nodup_cons.mp different
    rcases List.mem_cons.mp member with rfl | isLater
    · exact List.find?_cons_of_pos (decide_eq_true rfl)
    · have notFirst : word first ≠ word value := fun same =>
        firstDiffers (same ▸ List.mem_map_of_mem isLater)
      rw [List.find?_cons_of_neg (by simpa using notFirst), hypothesis laterDifferent isLater]

theorem Lossless.readList_list
    (lossless : Lossless write read)
    (values : List α) :
    readList read (list write values) = some values := by
  have found := @Json.readList_list α α write read id lossless.readBack values
  rwa [List.map_id] at found

theorem Lossless.readOptional_getD
    (lossless : Lossless write read)
    (notNull : ∀ value, write value ≠ .null)
    (value? : Option α) :
    readOptional read ((value?.map write).getD .null) = some value? := by
  cases value? with
  | none => rfl
  | some value =>
    have found : readOptional read (write value) = (read (write value)).map some :=
      readOptional.eq_2 read (write value) (notNull value)
    rw [Option.map_some, Option.getD_some, found, lossless.readBack, Option.map_some]

/-! ## Missing keys -/

/-- An object without some of its keys. -/
def without (removed : List String) : Json → Json
  | .object entries =>
    .object (entries.filter fun entry => !(removed.map String.toList).contains entry.1)
  | json => json

theorem entry?_without
    (removed : List String)
    (key : String)
    (json : Json) :
    entry? key (json.without removed) = if key ∈ removed then none else json.entry? key := by
  cases json with
  | object entries =>
    rw [without, entry?, entry?]
    have contains_iff : (removed.map String.toList).contains key.toList = true ↔ key ∈ removed := by
      simp [String.toList_inj]
    induction entries with
    | nil => simp
    | cons entry entries hypothesis =>
      obtain ⟨other, value⟩ := entry
      by_cases isKey : other = key.toList
      · subst isKey
        by_cases isRemoved : key ∈ removed
        · rw [List.filter_cons_of_neg (by simpa using contains_iff.mpr isRemoved), hypothesis,
            if_pos isRemoved, if_pos isRemoved]
        · rw [List.filter_cons_of_pos (by simpa using mt contains_iff.mp isRemoved),
            List.lookup_cons_self, List.lookup_cons_self, if_neg isRemoved]
      · have notKey : (key.toList == other) = false := beq_eq_false_iff_ne.mpr (Ne.symm isKey)
        rw [List.lookup_cons, notKey, ← hypothesis, List.filter_cons]
        split
        · rw [List.lookup_cons, notKey]
        · rfl
  | _ => simp [without, entry?]

theorem readEntryD_without
    (removed : List String)
    (key : String)
    (missing : α)
    (json : Json) :
    readEntryD key read missing (json.without removed) =
      if key ∈ removed then some missing else readEntryD key read missing json := by
  rw [readEntryD, readEntryD, entry?_without]
  by_cases isRemoved : key ∈ removed
  · rw [if_pos isRemoved, if_pos isRemoved]
  · rw [if_neg isRemoved, if_neg isRemoved]

end ClassOutline.Json
