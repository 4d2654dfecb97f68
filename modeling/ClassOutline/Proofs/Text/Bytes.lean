import ClassOutline.Text.Basic
/-!
# Bytes of texts

The UTF-8 form of a text is a list of bytes.  A narrow character is a single byte of the lower
half, and the bytes of a wide one all lie in the upper half.  So narrow marks and words are found
in the bytes where they stand in the text.
-/

namespace ClassOutline.Text

/-- The bytes of the UTF-8 form. -/
def bytes (text : Text) : List UInt8 :=
  text.flatMap String.utf8EncodeChar

@[simp]
theorem bytes_nil : bytes [] = [] := rfl

theorem bytes_cons
    (first : Char)
    (rest : Text) :
    bytes (first :: rest) = String.utf8EncodeChar first ++ bytes rest := rfl

theorem bytes_append
    (left right : Text) :
    bytes (left ++ right) = bytes left ++ bytes right :=
  List.flatMap_append

/-- The width of a text is the number of its bytes. -/
@[simp]
theorem length_bytes (text : Text) : (bytes text).length = width text := by
  induction text with
  | nil => rfl
  | cons first rest hypothesis =>
    rw [bytes_cons, List.length_append, String.length_utf8EncodeChar, hypothesis, width_cons]

/-! ## Narrow and wide characters -/

/-- The character has a single byte. -/
def IsNarrow (character : Char) : Prop :=
  character.toNat < 128

instance (character : Char) : Decidable (IsNarrow character) :=
  inferInstanceAs (Decidable (_ < _))

theorem IsNarrow.utf8Size_eq
    {character : Char}
    (narrow : IsNarrow character) :
    character.utf8Size = 1 :=
  Char.utf8Size_eq_one_iff.mpr (UInt32.le_iff_toNat_le.mpr (Nat.le_of_lt_succ narrow))

theorem IsNarrow.encoded
    {character : Char}
    (narrow : IsNarrow character) :
    String.utf8EncodeChar character = [character.toUInt8] :=
  String.utf8EncodeChar_eq_singleton narrow.utf8Size_eq

theorem IsNarrow.toNat_toUInt8
    {character : Char}
    (narrow : IsNarrow character) :
    character.toUInt8.toNat = character.toNat :=
  (UInt32.toNat_toUInt8 character.val).trans
    (Nat.mod_eq_of_lt (Nat.lt_trans narrow (by decide)))

/-- Narrow characters have different bytes. -/
theorem IsNarrow.toUInt8_inj
    {left right : Char}
    (narrowLeft : IsNarrow left)
    (narrowRight : IsNarrow right) :
    left.toUInt8 = right.toUInt8 ↔ left = right := by
  refine ⟨fun same => ?_, fun same => same ▸ rfl⟩
  have sameCode := congrArg UInt8.toNat same
  rw [narrowLeft.toNat_toUInt8, narrowRight.toNat_toUInt8] at sameCode
  exact Char.toNat_inj.mp sameCode

/-- The bytes of a wide character lie in the upper half. -/
theorem toNat_of_mem_utf8EncodeChar
    {character : Char}
    {byte : UInt8}
    (wide : ¬ IsNarrow character)
    (member : byte ∈ String.utf8EncodeChar character) :
    128 ≤ byte.toNat := by
  have code : ¬ character.val.toNat ≤ 127 := fun small => wide (Nat.lt_succ_of_le small)
  rw [String.utf8EncodeChar] at member
  simp only [code, if_false] at member
  have upper (offset number : Nat) (bound : number < 256 - offset) (isUpper : 128 ≤ offset) :
      128 ≤ (UInt8.ofNat (number + offset)).toNat := by
    rw [UInt8.toNat_ofNat']
    omega
  split at member
  · simp only [List.mem_cons, List.not_mem_nil, or_false] at member
    rcases member with rfl | rfl <;> exact upper _ _ (by omega) (by decide)
  · split at member
    · simp only [List.mem_cons, List.not_mem_nil, or_false] at member
      rcases member with rfl | rfl | rfl <;> exact upper _ _ (by omega) (by decide)
    · simp only [List.mem_cons, List.not_mem_nil, or_false] at member
      rcases member with rfl | rfl | rfl | rfl <;> exact upper _ _ (by omega) (by decide)

theorem ne_of_wide
    {character mark : Char}
    (wide : ¬ IsNarrow character)
    (narrow : IsNarrow mark) :
    character ≠ mark :=
  fun same => wide (same ▸ narrow)

/-- No byte of a wide character is that of a narrow one. -/
theorem ne_of_mem_utf8EncodeChar
    {character mark : Char}
    {byte : UInt8}
    (wide : ¬ IsNarrow character)
    (member : byte ∈ String.utf8EncodeChar character)
    (narrow : IsNarrow mark) :
    byte ≠ mark.toUInt8 := by
  rintro rfl
  have upper := toNat_of_mem_utf8EncodeChar wide member
  rw [narrow.toNat_toUInt8] at upper
  exact absurd narrow (Nat.not_lt.mpr upper)

theorem bytes_replicate
    {mark : Char}
    (narrow : IsNarrow mark)
    (number : Nat) :
    bytes (List.replicate number mark) = List.replicate number mark.toUInt8 := by
  induction number with
  | zero => rfl
  | succ number hypothesis =>
    rw [List.replicate_succ, bytes_cons, hypothesis, narrow.encoded]
    rfl

/-! ## Finding narrow marks and words -/

theorem head?_bytes_eq_some_iff
    {mark : Char}
    (text : Text)
    (narrow : IsNarrow mark) :
    (bytes text).head? = some mark.toUInt8 ↔ text.head? = some mark := by
  cases text with
  | nil => simp
  | cons first rest =>
    rw [bytes_cons, List.head?_cons, Option.some_inj]
    by_cases firstNarrow : IsNarrow first
    · rw [firstNarrow.encoded, List.singleton_append, List.head?_cons, Option.some_inj,
        firstNarrow.toUInt8_inj narrow]
    · have notMark : first ≠ mark := fun same => firstNarrow (same ▸ narrow)
      have notEmpty : String.utf8EncodeChar first ≠ [] := fun empty => by
        have positive := first.utf8Size_pos
        rw [← String.length_utf8EncodeChar, empty] at positive
        exact absurd positive (by decide)
      obtain ⟨byte, later, encoded⟩ := List.exists_cons_of_ne_nil notEmpty
      have notByte : byte ≠ mark.toUInt8 :=
        ne_of_mem_utf8EncodeChar firstNarrow (encoded ▸ List.mem_cons_self) narrow
      simp [encoded, notMark, notByte]

/-- A word of narrow characters begins the bytes of the texts that it begins. -/
theorem bytes_isPrefixOf_bytes
    {word : Text}
    (narrow : ∀ character ∈ word, IsNarrow character)
    (text : Text) :
    (bytes word).isPrefixOf (bytes text) = word.isPrefixOf text := by
  induction word generalizing text with
  | nil => simp
  | cons letter word hypothesis =>
    have narrowLetter := narrow letter List.mem_cons_self
    have later := hypothesis fun character member =>
      narrow character (List.mem_cons_of_mem _ member)
    rw [bytes_cons, narrowLetter.encoded, List.singleton_append]
    cases text with
    | nil => rfl
    | cons first rest =>
      have sameHead := head?_bytes_eq_some_iff (first :: rest) narrowLetter
      by_cases isLetter : first = letter
      · rw [bytes_cons, isLetter, narrowLetter.encoded, List.singleton_append]
        simp [later]
      · have notHead : (bytes (first :: rest)).head? ≠ some letter.toUInt8 := fun same =>
          isLetter (Option.some.inj (sameHead.mp same))
        rw [List.isPrefixOf_cons_cons, beq_eq_false_iff_ne.mpr (Ne.symm isLetter), Bool.false_and]
        cases encoded : bytes (first :: rest) with
        | nil => rfl
        | cons byte bytes =>
          have notByte : letter.toUInt8 ≠ byte := fun same => notHead (by rw [encoded, same]; rfl)
          rw [List.isPrefixOf_cons_cons, beq_eq_false_iff_ne.mpr notByte, Bool.false_and]

/-! ## Decoding -/

/-- The bytes of a text are valid UTF-8, and what they are decoded to is the text. -/
theorem fromUTF8?_bytes (text : Text) :
    String.fromUTF8? (bytes text).toByteArray = some (String.ofList text) := by
  have isValid : (bytes text).toByteArray.IsValidUTF8 :=
    ByteArray.isValidUTF8_utf8Encode (l := text)
  rw [String.fromUTF8?, dif_pos isValid, Option.some_inj, ← String.toByteArray_inj,
    String.toByteArray_ofList]
  rfl

end ClassOutline.Text
