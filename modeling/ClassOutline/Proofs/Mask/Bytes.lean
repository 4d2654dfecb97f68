import ClassOutline.Proofs.Mask.Geometry
import ClassOutline.Proofs.Text.Bytes
import Mathlib.Data.List.Forall2
/-!
# Masking bytes

The masks can be run on the bytes of a source, each byte on its own: a hidden byte becomes a space
unless it is a line feed.  All marks that a mask looks for are narrow, so every byte of a wide
character meets the same fate, and the rewritten bytes are the bytes of the masked text.  They are
valid UTF-8 for that reason, and differ from the bytes of the source in spaces alone.
-/

namespace ClassOutline.Mask

/-! ## Passes over bytes -/

/-- What stands in place of a hidden byte. -/
def hiddenByte (byte : UInt8) : UInt8 :=
  if byte = '\n'.toUInt8 then byte else ' '.toUInt8

/-- A pass over bytes that hides some of them. -/
structure BytePass (State : Type) where
  /-- The state at the start. -/
  start : State
  /--
  Whether the current byte is hidden, and the state after it.  The last argument holds the bytes
  that follow.
  -/
  step : State → UInt8 → List UInt8 → State × Bool

namespace BytePass

variable {State : Type}

/-- What becomes of the rest of the bytes that is reached in a given state. -/
def applyFrom (pass : BytePass State) : State → List UInt8 → List UInt8
  | _, [] => []
  | state, current :: rest =>
    let (next, hides) := pass.step state current rest
    (if hides then hiddenByte current else current) :: pass.applyFrom next rest

/-- What becomes of the bytes. -/
def apply (pass : BytePass State) (bytes : List UInt8) : List UInt8 :=
  pass.applyFrom pass.start bytes

/-- Hides block comments and stray closing marks. -/
def blockComments : BytePass BlockComment where
  start := .code
  step state current rest :=
    match state with
    | .code =>
      if current = '/'.toUInt8 ∧ rest.head? = some '*'.toUInt8 then (.comment, true)
      else if current = '*'.toUInt8 ∧ rest.head? = some '/'.toUInt8 then (.closing, true)
      else if current = '"'.toUInt8 then (.string, false)
      else (.code, false)
    | .string => if current = '"'.toUInt8 then (.code, false) else (.string, false)
    | .comment =>
      if current = '*'.toUInt8 ∧ rest.head? = some '/'.toUInt8 then (.closing, true)
      else (.comment, true)
    | .closing => (.code, true)

/-- Hides line comments, each up to the end of its line. -/
def lineComments : BytePass LineComment where
  start := .code
  step state current rest :=
    match state with
    | .code =>
      if current = '/'.toUInt8 ∧ rest.head? = some '/'.toUInt8 then (.comment, true)
      else if current = '"'.toUInt8 then (.string, false)
      else (.code, false)
    | .string => if current = '"'.toUInt8 then (.code, false) else (.string, false)
    | .comment => if current = '\n'.toUInt8 then (.code, false) else (.comment, true)

/-- Hides the rest of each line from a friend declaration on. -/
def friendLines : BytePass FriendLine where
  start := .code
  step state current rest :=
    match state with
    | .code =>
      if (Text.bytes friendClass).isPrefixOf (current :: rest) then (.declaration, true)
      else (.code, false)
    | .declaration => if current = '\n'.toUInt8 then (.code, false) else (.declaration, true)

/-- The bytes with their comments hidden. -/
def hideComments (bytes : List UInt8) : List UInt8 :=
  lineComments.apply (blockComments.apply bytes)

/-- The bytes with their friend declarations hidden. -/
def hideFriends (bytes : List UInt8) : List UInt8 :=
  friendLines.apply bytes

theorem applyFrom_cons
    (pass : BytePass State)
    (state : State)
    (current : UInt8)
    (rest : List UInt8) :
    pass.applyFrom state (current :: rest) =
      (if (pass.step state current rest).2 then hiddenByte current else current) ::
        pass.applyFrom (pass.step state current rest).1 rest := rfl

/-! ## Following a mask -/

/--
The pass does to the bytes of a text what a mask does to its characters.  `Reached` holds of the
states that the mask can be in, each with the text in front of it.
-/
structure Follows
    (pass : BytePass State)
    (mask : Mask State)
    (Reached : State → Text → Prop) : Prop where
  /-- On a narrow character both do the same. -/
  narrow (state : State) (current : Char) (rest : Text)
    (isNarrow : Text.IsNarrow current) :
    pass.step state current.toUInt8 (Text.bytes rest) = mask.step state current rest
  /-- A wide character, and each byte of it, leaves the state as it is. -/
  wide (state : State) (current : Char) (rest : Text)
    (reached : Reached state (current :: rest))
    (isWide : ¬ Text.IsNarrow current) :
    ∃ hides,
      mask.step state current rest = (state, hides) ∧
        ∀ byte ∈ String.utf8EncodeChar current, ∀ behind,
          pass.step state byte behind = (state, hides)
  /-- The states that are reached. -/
  next (state : State) (current : Char) (rest : Text)
    (reached : Reached state (current :: rest)) :
    Reached (mask.step state current rest).1 rest

/-- Bytes that leave the state as it is are all hidden, or none of them is. -/
theorem applyFrom_append
    {pass : BytePass State}
    {state : State}
    {hides : Bool}
    {front : List UInt8}
    (stays : ∀ byte ∈ front, ∀ behind, pass.step state byte behind = (state, hides))
    (behind : List UInt8) :
    pass.applyFrom state (front ++ behind) =
      (if hides then front.map hiddenByte else front) ++ pass.applyFrom state behind := by
  induction front with
  | nil => simp
  | cons current front hypothesis =>
    have here := stays current List.mem_cons_self (front ++ behind)
    have later := hypothesis fun byte member => stays byte (List.mem_cons_of_mem _ member)
    rw [List.cons_append, applyFrom_cons, here, later]
    cases hides <;> rfl

theorem bytes_hidden_of_narrow
    {character : Char}
    (narrow : Text.IsNarrow character) :
    Text.bytes (hidden character) = [hiddenByte character.toUInt8] := by
  have breakNarrow : Text.IsNarrow '\n' := by decide
  by_cases isBreak : character = '\n'
  · subst isBreak
    decide
  · have noByte : character.toUInt8 ≠ '\n'.toUInt8 := fun same =>
      isBreak ((narrow.toUInt8_inj breakNarrow).mp same)
    rw [hidden_eq_replicate isBreak, narrow.utf8Size_eq, hiddenByte, if_neg noByte]
    decide

theorem bytes_hidden_of_wide
    {character : Char}
    (wide : ¬ Text.IsNarrow character) :
    Text.bytes (hidden character) = (String.utf8EncodeChar character).map hiddenByte := by
  have breakNarrow : Text.IsNarrow '\n' := by decide
  have spaceNarrow : Text.IsNarrow ' ' := by decide
  have noBreak : character ≠ '\n' := fun same => wide (same ▸ breakNarrow)
  have allSpaces : (String.utf8EncodeChar character).map hiddenByte =
      List.replicate (String.utf8EncodeChar character).length ' '.toUInt8 := by
    rw [List.map_eq_replicate_iff]
    intro byte member
    rw [hiddenByte, if_neg (Text.ne_of_mem_utf8EncodeChar wide member breakNarrow)]
  rw [hidden_eq_replicate noBreak, Text.bytes_replicate spaceNarrow, allSpaces,
    String.length_utf8EncodeChar]

/-- A pass that follows a mask turns the bytes of a text into those of the masked text. -/
theorem applyFrom_bytes
    {pass : BytePass State}
    {mask : Mask State}
    {Reached : State → Text → Prop}
    {state : State}
    {text : Text}
    (follows : pass.Follows mask Reached)
    (reached : Reached state text) :
    pass.applyFrom state (Text.bytes text) = Text.bytes (mask.applyFrom state text) := by
  induction text generalizing state with
  | nil => rfl
  | cons current rest hypothesis =>
    have later := hypothesis (follows.next state current rest reached)
    rw [Mask.applyFrom_cons, Text.bytes_append, ← later, Text.bytes_cons]
    by_cases isNarrow : Text.IsNarrow current
    · rw [isNarrow.encoded, List.singleton_append, applyFrom_cons,
        follows.narrow state current rest isNarrow]
      split
      · rw [bytes_hidden_of_narrow isNarrow]
        rfl
      · rw [Text.bytes_cons, isNarrow.encoded]
        rfl
    · obtain ⟨hides, maskStep, stays⟩ := follows.wide state current rest reached isNarrow
      rw [applyFrom_append stays, maskStep]
      cases hides with
      | false => simp [Text.bytes]
      | true => simp [bytes_hidden_of_wide isNarrow]

/-! ## The masks of this library -/

/-- The state behind the star of a closing mark is reached in front of its slash alone. -/
def ClosesInFrontOfSlash (state : BlockComment) (text : Text) : Prop :=
  state = .closing → text.head? = some '/'

theorem follows_blockComments :
    blockComments.Follows Mask.blockComments ClosesInFrontOfSlash where
  narrow state current rest isNarrow := by
    have slash : Text.IsNarrow '/' := by decide
    have star : Text.IsNarrow '*' := by decide
    have quote : Text.IsNarrow '"' := by decide
    cases state <;>
      simp only [blockComments, Mask.blockComments, isNarrow.toUInt8_inj slash,
        isNarrow.toUInt8_inj star, isNarrow.toUInt8_inj quote,
        Text.head?_bytes_eq_some_iff rest slash, Text.head?_bytes_eq_some_iff rest star]
  wide state current rest reached isWide := by
    have slash : Text.IsNarrow '/' := by decide
    have star : Text.IsNarrow '*' := by decide
    have quote : Text.IsNarrow '"' := by decide
    have noMark {mark : Char} (narrow : Text.IsNarrow mark) : current ≠ mark :=
      Text.ne_of_wide isWide narrow
    have noByte {byte : UInt8} {mark : Char} (member : byte ∈ String.utf8EncodeChar current)
        (narrow : Text.IsNarrow mark) : byte ≠ mark.toUInt8 :=
      Text.ne_of_mem_utf8EncodeChar isWide member narrow
    cases state with
    | code =>
      refine ⟨false, ?_, fun byte member behind => ?_⟩
      · simp [Mask.blockComments, noMark slash, noMark star, noMark quote]
      · simp [blockComments, noByte member slash, noByte member star,
          noByte member quote]
    | string =>
      refine ⟨false, ?_, fun byte member behind => ?_⟩
      · simp [Mask.blockComments, noMark quote]
      · simp [blockComments, noByte member quote]
    | comment =>
      refine ⟨true, ?_, fun byte member behind => ?_⟩
      · simp [Mask.blockComments, noMark star]
      · simp [blockComments, noByte member star]
    | closing =>
      have isSlash : current = '/' := Option.some.inj (reached rfl)
      exact absurd isSlash (noMark slash)
  next state current rest reached := by
    intro isClosing
    cases state with
    | code =>
      by_cases closes : current = '*' ∧ rest.head? = some '/'
      · exact closes.2
      · simp only [Mask.blockComments, if_neg closes] at isClosing
        split at isClosing <;> [skip; split at isClosing] <;> contradiction
    | string =>
      simp only [Mask.blockComments] at isClosing
      split at isClosing <;> contradiction
    | comment =>
      by_cases closes : current = '*' ∧ rest.head? = some '/'
      · exact closes.2
      · simp only [Mask.blockComments, if_neg closes] at isClosing
        contradiction
    | closing => contradiction

/-- Nothing has to be known of the states that are reached. -/
def Anywhere (_ : State) (_ : Text) : Prop :=
  True

theorem follows_lineComments : lineComments.Follows Mask.lineComments Anywhere where
  narrow state current rest isNarrow := by
    have slash : Text.IsNarrow '/' := by decide
    have quote : Text.IsNarrow '"' := by decide
    have lineFeed : Text.IsNarrow '\n' := by decide
    cases state <;>
      simp only [lineComments, Mask.lineComments, isNarrow.toUInt8_inj slash,
        isNarrow.toUInt8_inj quote, isNarrow.toUInt8_inj lineFeed,
        Text.head?_bytes_eq_some_iff rest slash]
  wide state current rest _ isWide := by
    have slash : Text.IsNarrow '/' := by decide
    have quote : Text.IsNarrow '"' := by decide
    have lineFeed : Text.IsNarrow '\n' := by decide
    have noMark {mark : Char} (narrow : Text.IsNarrow mark) : current ≠ mark :=
      Text.ne_of_wide isWide narrow
    have noByte {byte : UInt8} {mark : Char} (member : byte ∈ String.utf8EncodeChar current)
        (narrow : Text.IsNarrow mark) : byte ≠ mark.toUInt8 :=
      Text.ne_of_mem_utf8EncodeChar isWide member narrow
    cases state with
    | code =>
      refine ⟨false, ?_, fun byte member behind => ?_⟩
      · simp [Mask.lineComments, noMark slash, noMark quote]
      · simp [lineComments, noByte member slash, noByte member quote]
    | string =>
      refine ⟨false, ?_, fun byte member behind => ?_⟩
      · simp [Mask.lineComments, noMark quote]
      · simp [lineComments, noByte member quote]
    | comment =>
      refine ⟨true, ?_, fun byte member behind => ?_⟩
      · simp [Mask.lineComments, noMark lineFeed]
      · simp [lineComments, noByte member lineFeed]
  next _ _ _ _ := trivial

theorem follows_friendLines : friendLines.Follows Mask.friendLines Anywhere where
  narrow state current rest isNarrow := by
    have lineFeed : Text.IsNarrow '\n' := by decide
    have narrowWord : ∀ character ∈ friendClass, Text.IsNarrow character := by decide
    have sameBeginning := Text.bytes_isPrefixOf_bytes narrowWord (current :: rest)
    rw [Text.bytes_cons current rest, isNarrow.encoded, List.singleton_append] at sameBeginning
    cases state <;>
      simp only [friendLines, Mask.friendLines, sameBeginning, isNarrow.toUInt8_inj lineFeed]
  wide state current rest _ isWide := by
    have lineFeed : Text.IsNarrow '\n' := by decide
    have letter : Text.IsNarrow 'f' := by decide
    cases state with
    | code =>
      have wordShape : friendClass = 'f' :: "riend class".toList := by decide
      refine ⟨false, ?_, fun byte member behind => ?_⟩
      · have noBeginning : friendClass.isPrefixOf (current :: rest) = false := by
          rw [wordShape, List.isPrefixOf_cons_cons,
            beq_eq_false_iff_ne.mpr (Text.ne_of_wide isWide letter).symm, Bool.false_and]
        simp only [Mask.friendLines, noBeginning, Bool.false_eq_true, if_false]
      · have notLetter : 'f'.toUInt8 ≠ byte :=
          (Text.ne_of_mem_utf8EncodeChar isWide member letter).symm
        have noBeginning : (Text.bytes friendClass).isPrefixOf (byte :: behind) = false := by
          rw [wordShape, Text.bytes_cons, letter.encoded, List.singleton_append,
            List.isPrefixOf_cons_cons, beq_eq_false_iff_ne.mpr notLetter, Bool.false_and]
        simp only [friendLines, noBeginning, Bool.false_eq_true, if_false]
    | declaration =>
      refine ⟨true, ?_, fun byte member behind => ?_⟩
      · simp [Mask.friendLines, Text.ne_of_wide isWide lineFeed]
      · simp [friendLines, Text.ne_of_mem_utf8EncodeChar isWide member lineFeed]
  next _ _ _ _ := trivial

theorem hideComments_bytes (source : Text) :
    hideComments (Text.bytes source) = Text.bytes (Mask.hideComments source) := by
  have noClosing : ClosesInFrontOfSlash blockComments.start source := fun isClosing => by
    contradiction
  have blockPass : blockComments.apply (Text.bytes source) =
      Text.bytes (Mask.blockComments.apply source) :=
    applyFrom_bytes follows_blockComments noClosing
  rw [hideComments, blockPass]
  exact applyFrom_bytes follows_lineComments trivial

theorem hideFriends_bytes (text : Text) :
    hideFriends (Text.bytes text) = Text.bytes (Mask.hideFriends text) :=
  applyFrom_bytes follows_friendLines trivial

end BytePass

/-! ## What the rewritten bytes are -/

/-- A byte stays, or becomes a space without being a line feed. -/
def KeptOrBlanked (original rewritten : UInt8) : Prop :=
  rewritten = original ∨ rewritten = ' '.toUInt8 ∧ original ≠ '\n'.toUInt8

theorem keptOrBlanked_hiddenByte (byte : UInt8) : KeptOrBlanked byte (hiddenByte byte) := by
  rw [hiddenByte]
  split
  · exact .inl rfl
  · next noBreak => exact .inr ⟨rfl, noBreak⟩

/-- Hiding characters keeps or blanks every byte. -/
theorem Hides.forall₂_bytes
    {source masked : Text}
    (hides : Hides source masked) :
    List.Forall₂ KeptOrBlanked (Text.bytes source) (Text.bytes masked) := by
  induction hides with
  | nil => exact .nil
  | keep character _ hypothesis =>
    rw [Text.bytes_cons, Text.bytes_cons]
    exact List.rel_append (List.forall₂_same.mpr fun byte _ => .inl rfl) hypothesis
  | hide character _ hypothesis =>
    have hiddenBytes : Text.bytes (hidden character) =
        (String.utf8EncodeChar character).map hiddenByte := by
      by_cases isNarrow : Text.IsNarrow character
      · rw [BytePass.bytes_hidden_of_narrow isNarrow, isNarrow.encoded, List.map_singleton]
      · exact BytePass.bytes_hidden_of_wide isNarrow
    rw [Text.bytes_cons, Text.bytes_append, hiddenBytes]
    refine List.rel_append ?_ hypothesis
    exact List.forall₂_map_right_iff.mpr
      (List.forall₂_same.mpr fun byte _ => keptOrBlanked_hiddenByte byte)

/-- Bytes that were rewritten in place from the bytes of a source, to show a given text. -/
structure RewrittenAs (source shown : Text) (rewritten : List UInt8) : Prop where
  /-- The bytes are valid UTF-8, and the text that they are decoded to is the given one. -/
  decoded : String.fromUTF8? rewritten.toByteArray = some (String.ofList shown)
  sameLength : rewritten.length = (Text.bytes source).length
  /-- Each byte is the one at its place in the source, or a space in place of no line feed. -/
  inPlace : List.Forall₂ KeptOrBlanked (Text.bytes source) rewritten

theorem Hides.rewrittenAs
    {source shown : Text}
    (hides : Hides source shown) :
    RewrittenAs source shown (Text.bytes shown) where
  decoded := Text.fromUTF8?_bytes shown
  sameLength := hides.forall₂_bytes.length_eq.symm
  inPlace := hides.forall₂_bytes

/--
The bytes in which comments, friend declarations, or both are hidden are decoded to the text in
which they are hidden, and lie in place of the bytes of the source.
-/
theorem bytes_rewrittenAs (source : Text) :
    RewrittenAs source (hideComments source) (BytePass.hideComments (Text.bytes source)) ∧
      RewrittenAs source (hideFriends source) (BytePass.hideFriends (Text.bytes source)) ∧
        RewrittenAs source (visible source)
          (BytePass.hideFriends (BytePass.hideComments (Text.bytes source))) := by
  have hidesComments : Hides source (hideComments source) :=
    (hides_applyFrom blockComments _ source).trans (hides_applyFrom lineComments _ _)
  have hidesFriends : Hides source (hideFriends source) := hides_applyFrom friendLines _ source
  rw [BytePass.hideComments_bytes, BytePass.hideFriends_bytes, BytePass.hideFriends_bytes]
  exact ⟨hidesComments.rewrittenAs, hidesFriends.rewrittenAs, (hides_visible source).rewrittenAs⟩

end ClassOutline.Mask
