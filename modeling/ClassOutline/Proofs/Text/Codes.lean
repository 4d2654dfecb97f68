import ClassOutline.Proofs.Text.Bytes
/-!
# Bytes read as characters

A byte is shown as the character with its number, so the bytes of a text are a text again.  A narrow
character is its only byte, and no byte of a wide character is narrow.  So where only narrow
characters matter, the bytes can be read like the text, with longer ways between its characters.
-/

namespace ClassOutline.Text

/-- The bytes of a character, each as the character with its number. -/
def codesOf (character : Char) : Text :=
  (String.utf8EncodeChar character).map Char.ofUInt8

/-- The bytes of a text, each as the character with its number. -/
def codes (text : Text) : Text :=
  text.flatMap codesOf

@[simp]
theorem codes_nil : codes [] = [] := rfl

theorem codes_cons
    (first : Char)
    (rest : Text) :
    codes (first :: rest) = codesOf first ++ codes rest := rfl

theorem codes_append
    (left right : Text) :
    codes (left ++ right) = codes left ++ codes right :=
  List.flatMap_append

theorem length_codesOf (character : Char) : (codesOf character).length = character.utf8Size := by
  rw [codesOf, List.length_map, String.length_utf8EncodeChar]

@[simp]
theorem length_codes (text : Text) : (codes text).length = width text := by
  induction text with
  | nil => rfl
  | cons first rest hypothesis =>
    rw [codes_cons, List.length_append, length_codesOf, hypothesis, width_cons]

theorem codesOf_ne_nil (character : Char) : codesOf character ≠ [] := fun empty => by
  have positive := character.utf8Size_pos
  rw [← length_codesOf, empty] at positive
  exact absurd positive (by decide)

theorem toNat_ofUInt8 (byte : UInt8) : (Char.ofUInt8 byte).toNat = byte.toNat :=
  UInt8.toNat_toUInt32 byte

/-- A narrow character is its only byte. -/
theorem IsNarrow.codesOf_eq
    {character : Char}
    (narrow : IsNarrow character) :
    codesOf character = [character] := by
  have same : Char.ofUInt8 character.toUInt8 = character := by
    rw [← Char.toNat_inj, toNat_ofUInt8, narrow.toNat_toUInt8]
  rw [codesOf, narrow.encoded, List.map_singleton, same]

/-- No byte of a wide character is narrow. -/
theorem not_isNarrow_of_mem_codesOf
    {character code : Char}
    (wide : ¬ IsNarrow character)
    (member : code ∈ codesOf character) :
    ¬ IsNarrow code := by
  obtain ⟨byte, isByte, rfl⟩ := List.mem_map.mp member
  have upper := toNat_of_mem_utf8EncodeChar wide isByte
  rw [IsNarrow, toNat_ofUInt8]
  exact Nat.not_lt.mpr upper

/-! ## Reading bytes -/

/-- A property that narrow characters alone may have. -/
def NarrowOnly (property : Char → Bool) : Prop :=
  ∀ character, property character = true → IsNarrow character

theorem NarrowOnly.eq_false
    {property : Char → Bool}
    {character : Char}
    (narrowOnly : NarrowOnly property)
    (wide : ¬ IsNarrow character) :
    property character = false :=
  Bool.eq_false_iff.mpr fun holds => wide (narrowOnly character holds)

/--
A reading that passes over each byte of wide characters, up to the end of a wide character, passes
over that character.
-/
theorem read_codes_of_wide
    {Result : Type}
    {read : Nat → Text → Result}
    {current : Char}
    {index : Nat}
    (skips : ∀ place code rest, place < index + current.utf8Size → ¬ IsNarrow code →
      read place (code :: rest) = read (place + 1) rest)
    (wide : ¬ IsNarrow current)
    (rest : Text) :
    read index (codes (current :: rest)) = read (index + current.utf8Size) (codes rest) := by
  have passes (front : Text) (allWide : ∀ code ∈ front, ¬ IsNarrow code) (place : Nat)
      (isEnd : place + front.length = index + current.utf8Size) :
      read place (front ++ codes rest) = read (index + current.utf8Size) (codes rest) := by
    induction front generalizing place with
    | nil => rw [← isEnd]; rfl
    | cons first front hypothesis =>
      rw [List.length_cons] at isEnd
      have later := hypothesis
        (fun code member => allWide code (List.mem_cons_of_mem _ member)) (place + 1) (by omega)
      have firstWide := allWide first List.mem_cons_self
      rw [List.cons_append, skips place first _ (by omega) firstWide, later]
  have allWide : ∀ code ∈ codesOf current, ¬ IsNarrow code :=
    fun code member => not_isNarrow_of_mem_codesOf wide member
  rw [codes_cons, passes (codesOf current) allWide index (by rw [length_codesOf])]

theorem IsNarrow.codes_cons
    {current : Char}
    (narrow : IsNarrow current)
    (rest : Text) :
    codes (current :: rest) = current :: codes rest := by
  rw [Text.codes_cons, narrow.codesOf_eq, List.singleton_append]

/-- Whether the first byte has a property of narrow characters is seen at the first character. -/
theorem NarrowOnly.map_head?_codes
    {property : Char → Bool}
    (narrowOnly : NarrowOnly property)
    (text : Text) :
    (codes text).head?.map property = text.head?.map property := by
  cases text with
  | nil => rfl
  | cons first rest =>
    by_cases narrow : IsNarrow first
    · rw [narrow.codes_cons]
      rfl
    · obtain ⟨code, later, shape⟩ := List.exists_cons_of_ne_nil (codesOf_ne_nil first)
      have wide : ¬ IsNarrow code :=
        not_isNarrow_of_mem_codesOf narrow (shape ▸ List.mem_cons_self)
      rw [Text.codes_cons, shape]
      simp [narrowOnly.eq_false narrow, narrowOnly.eq_false wide]

/-- Whether the last byte has a property of narrow characters is seen at the last character. -/
theorem NarrowOnly.map_getLast?_codes
    {property : Char → Bool}
    (narrowOnly : NarrowOnly property)
    (text : Text) :
    (codes text).getLast?.map property = text.getLast?.map property := by
  rcases List.eq_nil_or_concat text with rfl | ⟨front, last, rfl⟩
  · rfl
  · rw [List.concat_eq_append, codes_append, codes_cons, codes_nil, List.append_nil]
    by_cases narrow : IsNarrow last
    · rw [narrow.codesOf_eq]
      simp
    · rcases List.eq_nil_or_concat (codesOf last) with empty | ⟨earlier, code, shape⟩
      · exact absurd empty (codesOf_ne_nil last)
      · have wide : ¬ IsNarrow code :=
          not_isNarrow_of_mem_codesOf narrow (by rw [shape]; simp)
        rw [shape, List.concat_eq_append]
        simp [narrowOnly.eq_false narrow, narrowOnly.eq_false wide]

theorem narrowOnly_eq
    {mark : Char}
    (narrow : IsNarrow mark) :
    NarrowOnly (· = mark) :=
  fun _ isMark => of_decide_eq_true isMark ▸ narrow

theorem head?_codes_eq_some_iff
    {mark : Char}
    (narrow : IsNarrow mark)
    (text : Text) :
    (codes text).head? = some mark ↔ text.head? = some mark := by
  have isMark (found : Option Char) :
      found = some mark ↔ found.map (decide <| · = mark) = some true := by
    cases found <;> simp
  rw [isMark, isMark text.head?, (narrowOnly_eq narrow).map_head?_codes]

theorem getLast?_codes_eq_some_iff
    {mark : Char}
    (narrow : IsNarrow mark)
    (text : Text) :
    (codes text).getLast? = some mark ↔ text.getLast? = some mark := by
  have isMark (found : Option Char) :
      found = some mark ↔ found.map (decide <| · = mark) = some true := by
    cases found <;> simp
  rw [isMark, isMark text.getLast?, (narrowOnly_eq narrow).map_getLast?_codes]

/-- At a place in the text stands the first byte of what follows. -/
theorem getElem?_codes_width
    (before after : Text) :
    (codes (before ++ after))[before.width]? = (codes after).head? := by
  rw [codes_append, ← length_codes before, List.getElem?_append_right (Nat.le_refl _),
    Nat.sub_self, List.head?_eq_getElem?]

/-- A property of narrow characters is first met in the bytes where it is first met in the text. -/
theorem NarrowOnly.findIdx?_codes
    {property : Char → Bool}
    (narrowOnly : NarrowOnly property)
    (text : Text) :
    ((codes text).findIdx? property).getD (width text) =
      width (text.takeWhile fun character => !property character) := by
  induction text with
  | nil => rfl
  | cons first rest hypothesis =>
    have passes (code : Char) (fails : property code = false) (codes : Text) (width : Nat) :
        ((code :: codes).findIdx? property).getD (1 + width) =
          1 + (codes.findIdx? property).getD width := by
      rw [List.findIdx?_cons, fails, Nat.add_comm 1, Nat.add_comm 1]
      cases codes.findIdx? property <;> rfl
    have passesAll (front : Text) (fail : ∀ code ∈ front, property code = false) (width : Nat) :
        ((front ++ codes rest).findIdx? property).getD (front.length + width) =
          front.length + ((codes rest).findIdx? property).getD width := by
      induction front with
      | nil => simp
      | cons code front later =>
        have rest := later fun other member => fail other (List.mem_cons_of_mem _ member)
        rw [List.cons_append, List.length_cons, Nat.add_comm front.length, Nat.add_assoc,
          passes code (fail code List.mem_cons_self), rest, Nat.add_assoc]
    by_cases holds : property first = true
    · have narrow := narrowOnly first holds
      rw [narrow.codes_cons, List.findIdx?_cons, holds,
        List.takeWhile_cons_of_neg (by simp [holds])]
      rfl
    · have fails : property first = false := Bool.eq_false_iff.mpr holds
      have allFail : ∀ code ∈ codesOf first, property code = false := by
        intro code member
        by_cases narrow : IsNarrow first
        · rw [narrow.codesOf_eq, List.mem_singleton] at member
          rw [member, fails]
        · exact narrowOnly.eq_false (not_isNarrow_of_mem_codesOf narrow member)
      rw [codes_cons, width_cons, ← length_codesOf, passesAll _ allFail, hypothesis,
        List.takeWhile_cons_of_pos (by simp [fails]), width_cons, length_codesOf]

end ClassOutline.Text
