import ClassOutline.Proofs.Checked.Steps
import ClassOutline.Proofs.Mask.Bytes
import ClassOutline.Proofs.Mask.Seam
/-!
# Masks by offsets

Comments are hidden in the bytes of a source, in loops over their indices: each round reads the byte
at an index and the next one, and hides bytes in place.  Friend declarations are hidden from where
their words are found to the end of the line, and looked for again from there.  In the end the bytes
are decoded.

Every byte that is read or hidden lies among the bytes of the source, every loop comes to its end,
and what is decoded is the masked text.
-/

namespace ClassOutline

/-! ## Friend declarations -/

namespace Mask

theorem hideFriends_cons
    (current : Char)
    (rest : Text) :
    hideFriends (current :: rest) =
      if friendClass.isPrefixOf (current :: rest) then
        hidden current ++ friendLines.applyFrom .declaration rest
      else current :: hideFriends rest := by
  have start : friendLines.start = .code := rfl
  have step : friendLines.step .code current rest =
      if friendClass.isPrefixOf (current :: rest) then (.declaration, true)
      else (.code, false) := rfl
  rw [hideFriends, apply, applyFrom_cons, start, step]
  split <;> rfl

/-- In front of the first friend declaration nothing is hidden. -/
theorem hideFriends_of_cutAt?
    {text before after : Text}
    (cut : text.cutAt? friendClass = some (before, after)) :
    hideFriends text = before ++ hideFriends (friendClass ++ after) := by
  induction text generalizing before with
  | nil => contradiction
  | cons current rest hypothesis =>
    have shape := Text.eq_append_of_cutAt? cut
    rw [Text.cutAt?] at cut
    split at cut
    · obtain ⟨rfl, -⟩ := Prod.mk.inj (Option.some.inj cut)
      rw [shape]
      rfl
    · next noBeginning =>
      obtain ⟨⟨front, behind⟩, cutRest, same⟩ := Option.map_eq_some_iff.mp cut
      obtain ⟨rfl, rfl⟩ := Prod.mk.inj same
      rw [hideFriends_cons, if_neg noBeginning, hypothesis cutRest]
      rfl

/-- A friend declaration is hidden up to the end of the line. -/
theorem applyFrom_declaration (text : Text) :
    friendLines.applyFrom .declaration text =
      List.replicate (Text.width (text.takeWhile (· ≠ '\n'))) ' ' ++
        hideFriends (text.dropWhile (· ≠ '\n')) := by
  induction text with
  | nil => rfl
  | cons current rest hypothesis =>
    rw [applyFrom_cons]
    by_cases isBreak : current = '\n'
    · subst isBreak
      have noBeginning : ¬ friendClass.isPrefixOf ('\n' :: rest) = true :=
        Bool.eq_false_iff.mp (friendClass_isPrefixOf [] rest)
      have later : hideFriends ('\n' :: rest) = '\n' :: hideFriends rest := by
        rw [hideFriends_cons, if_neg noBeginning]
      rw [List.takeWhile_cons_of_neg (by simp), List.dropWhile_cons_of_neg (by simp), later]
      rfl
    · have step : friendLines.step .declaration current rest = (.declaration, true) :=
        if_neg isBreak
      rw [step, hypothesis, if_pos rfl, hidden_eq_replicate isBreak,
        List.takeWhile_cons_of_pos (by simpa using isBreak),
        List.dropWhile_cons_of_pos (by simpa using isBreak), Text.width_cons,
        List.replicate_add, List.append_assoc]

theorem hideFriends_friendClass_append (after : Text) :
    hideFriends (friendClass ++ after) =
      List.replicate (Text.width ((friendClass ++ after).takeWhile (· ≠ '\n'))) ' ' ++
        hideFriends ((friendClass ++ after).dropWhile (· ≠ '\n')) := by
  have shape : friendClass = 'f' :: "riend class".toList := by decide
  have begins : friendClass.isPrefixOf (friendClass ++ after) = true :=
    List.isPrefixOf_iff_prefix.mpr (List.prefix_append _ _)
  rw [← applyFrom_declaration]
  rw [shape, List.cons_append] at begins ⊢
  rw [hideFriends_cons, shape, if_pos begins]
  rfl

end Mask

namespace Checked

open Mask

/-- The text that bytes are decoded to. -/
def decode? (bytes : List UInt8) : Option Text :=
  (String.fromUTF8? bytes.toByteArray).map String.toList

theorem decode?_bytes (text : Text) : decode? (Text.bytes text) = some text := by
  rw [decode?, Text.fromUTF8?_bytes, Option.map_some, String.toList_ofList]

/-- The bytes with spaces between two offsets, which lie in order and among the bytes. -/
def blankBetween? (bytes : List UInt8) (start stop : Nat) : Option (List UInt8) :=
  if start ≤ stop ∧ stop ≤ bytes.length then
    some (bytes.take start ++ (List.replicate (stop - start) ' '.toUInt8 ++ bytes.drop stop))
  else none

theorem blankBetween?_append
    (front part behind : List UInt8) :
    blankBetween? (front ++ (part ++ behind)) front.length (front.length + part.length) =
      some (front ++ (List.replicate part.length ' '.toUInt8 ++ behind)) := by
  have inRange : front.length ≤ front.length + part.length ∧
      front.length + part.length ≤ (front ++ (part ++ behind)).length := by
    simp
  have dropped : (front ++ (part ++ behind)).drop (front.length + part.length) = behind := by
    rw [← List.append_assoc, ← List.length_append, List.drop_left]
  rw [blankBetween?, if_pos inRange, dropped, List.take_left, Nat.add_sub_cancel_left]

/--
Hides the friend declarations of a text behind a cursor.  The search ends if no friend declaration
is found, and has no result if it takes more rounds than are given.
-/
def hideFriendsFrom? (text : Text) (cursor : Nat) (bytes : List UInt8) :
    Nat → Option (List UInt8)
  | 0 => none
  | rounds + 1 => do
    let behind ← slice? text cursor text.width
    match find? behind friendClass with
    | none => some bytes
    | some found => do
      let start := cursor + found
      let declaration ← slice? text start text.width
      let stop := ((find? declaration ['\n']).map (start + ·)).getD text.width
      let bytes ← blankBetween? bytes start stop
      hideFriendsFrom? text stop bytes rounds

/-- The text with its friend declarations hidden. -/
def hideFriends? (text : Text) : Option Text := do
  let bytes ← hideFriendsFrom? text 0 text.bytes (text.width + 1)
  decode? bytes

/-- The first friend declaration of a text, up to the end of its line. -/
structure FirstFriend (text : Text) where
  before : Text
  declaration : Text
  later : Text
  shape : text = before ++ (declaration ++ later)
  notEmpty : 0 < declaration.width
  found : find? text friendClass = some before.width
  ends : (find? (declaration ++ later) ['\n']).getD (declaration ++ later).width = declaration.width
  masked :
    hideFriends text = before ++ (List.replicate declaration.width ' ' ++ hideFriends later)

theorem nonempty_firstFriend
    {text before after : Text}
    (cut : text.cutAt? friendClass = some (before, after)) :
    Nonempty (FirstFriend text) := by
  have split : (friendClass ++ after).takeWhile (· ≠ '\n') ++
      (friendClass ++ after).dropWhile (· ≠ '\n') = friendClass ++ after :=
    List.takeWhile_append_dropWhile
  refine
    ⟨{ before
       declaration := (friendClass ++ after).takeWhile (· ≠ '\n')
       later := (friendClass ++ after).dropWhile (· ≠ '\n')
       shape := ?_
       notEmpty := ?_
       found := by rw [find?, cut, Option.map_some]
       ends := ?_
       masked := by rw [hideFriends_of_cutAt? cut, hideFriends_friendClass_append] }⟩
  · rw [split, ← List.append_assoc]
    exact Text.eq_append_of_cutAt? cut
  · rw [List.takeWhile_append_of_pos (by decide), Text.width_append]
    exact Nat.add_pos_left (by decide) _
  · rw [split]
    exact getD_find?_singleton _ _

/-- Behind the cursor the bytes are still those of the text, and become those of the masked text. -/
theorem hideFriendsFrom?_append
    {text seen rest : Text}
    {shown : List UInt8}
    {rounds : Nat}
    (shape : text = seen ++ rest)
    (inPlace : shown.length = seen.width)
    (enough : rest.width < rounds) :
    hideFriendsFrom? text seen.width (shown ++ Text.bytes rest) rounds =
      some (shown ++ Text.bytes (hideFriends rest)) := by
  induction rounds generalizing seen rest shown with
  | zero => contradiction
  | succ rounds hypothesis =>
    have widths : text.width = seen.width + rest.width := by rw [shape, Text.width_append]
    have behind : slice? text seen.width text.width = some rest :=
      slice?_eq_some (by rw [List.append_nil]; exact shape) rfl widths
    rw [hideFriendsFrom?, behind]
    simp only [Option.bind_eq_bind, Option.bind_some]
    cases cut : rest.cutAt? friendClass with
    | none =>
      rw [find?, cut, Option.map_none, hideFriends_eq_self (Text.lacks_of_cutAt?_eq_none cut)]
    | some parts =>
      obtain ⟨before, declaration, later, rfl, notEmpty, found, ends, masked⟩ :=
        nonempty_firstFriend cut
      have atEnd : text.width = seen.width + before.width + (declaration ++ later).width := by
        rw [widths, Text.width_append, Nat.add_assoc]
      have cutBehind :
          slice? text (seen.width + before.width) text.width = some (declaration ++ later) :=
        @slice?_eq_some text (seen ++ before) (declaration ++ later) [] _ _
          (by rw [shape, List.append_nil, List.append_assoc]) (Text.width_append _ _).symm
          (by rw [atEnd, Text.width_append seen])
      have stop : ((find? (declaration ++ later) ['\n']).map
          (seen.width + before.width + ·)).getD text.width =
            seen.width + before.width + declaration.width := by
        rw [atEnd, Option.getD_map, ends]
      have blanked : blankBetween? (shown ++ Text.bytes (before ++ (declaration ++ later)))
          (seen.width + before.width) (seen.width + before.width + declaration.width) =
            some ((shown ++ Text.bytes before) ++
              (Text.bytes (List.replicate declaration.width ' ') ++ Text.bytes later)) := by
        have blanks := blankBetween?_append (shown ++ Text.bytes before) (Text.bytes declaration)
          (Text.bytes later)
        rw [List.length_append, Text.length_bytes, Text.length_bytes, inPlace] at blanks
        rw [Text.bytes_append, Text.bytes_append, ← List.append_assoc, blanks,
          Text.bytes_replicate (by decide)]
      have goesOn := @hypothesis (seen ++ (before ++ declaration)) later
        (shown ++ (Text.bytes before ++ Text.bytes (List.replicate declaration.width ' ')))
        (by rw [shape]; simp)
        (by rw [Text.bytes_replicate (by decide)]; simp [inPlace])
        (by rw [Text.width_append, Text.width_append] at enough; omega)
      rw [Text.width_append, Text.width_append, ← Nat.add_assoc] at goesOn
      rw [found]
      dsimp only
      rw [cutBehind]
      simp only [Option.bind_some]
      rw [stop, blanked, masked]
      simpa [Text.bytes_append] using goesOn

theorem hideFriends?_eq (text : Text) : hideFriends? text = some (hideFriends text) := by
  have hidden := @hideFriendsFrom?_append text [] text [] _ rfl rfl (Nat.lt_succ_self _)
  rw [hideFriends?]
  rw [Text.width_nil, List.nil_append] at hidden
  rw [hidden]
  exact decode?_bytes _

/-! ## Comments -/

/-- The bytes with the one at an index hidden. -/
def hideAt? (bytes : List UInt8) (index : Nat) : Option (List UInt8) := do
  let byte ← bytes[index]?
  some (bytes.set index (hiddenByte byte))

theorem hideAt?_append
    (seen rest : List UInt8)
    (byte : UInt8) :
    hideAt? (seen ++ byte :: rest) seen.length = some (seen ++ hiddenByte byte :: rest) := by
  simp [hideAt?]

/-- The bytes with a closing mark at an index hidden. -/
def hideClosingAt? (bytes : List UInt8) (index : Nat) : Option (List UInt8) := do
  let bytes ← hideAt? bytes index
  hideAt? bytes (index + 1)

theorem hideClosingAt?_append
    (seen rest : List UInt8)
    (star slash : UInt8) :
    hideClosingAt? (seen ++ star :: slash :: rest) seen.length =
      some (seen ++ hiddenByte star :: hiddenByte slash :: rest) := by
  have second := hideAt?_append (seen ++ [hiddenByte star]) rest slash
  rw [List.length_append, List.length_singleton] at second
  rw [hideClosingAt?, hideAt?_append]
  simpa using second

/-- What a loop over bytes is reading: code, a string, or a comment. -/
inductive Reading where
  | code
  | string
  | comment

/-- The state of the pass over block comments, which is never behind the star of a closing mark. -/
def Reading.inBlocks : Reading → BlockComment
  | code => .code
  | string => .string
  | comment => .comment

/-- The state of the pass over line comments. -/
def Reading.inLines : Reading → LineComment
  | code => .code
  | string => .string
  | comment => .comment

/--
Hides the block comments from an index on.  The loop has no result if it takes more rounds than are
given.
-/
def hideBlocksFrom? (index : Nat) (reading : Reading) (bytes : List UInt8) :
    Nat → Option (List UInt8)
  | 0 => if index < bytes.length then none else some bytes
  | rounds + 1 =>
    if index < bytes.length then do
      let current ← bytes[index]?
      let next := bytes[index + 1]?
      match reading with
      | .code =>
        if current = '/'.toUInt8 ∧ next = some '*'.toUInt8 then do
          let bytes ← hideAt? bytes index
          hideBlocksFrom? (index + 1) .comment bytes rounds
        else if current = '*'.toUInt8 ∧ next = some '/'.toUInt8 then do
          let bytes ← hideClosingAt? bytes index
          hideBlocksFrom? (index + 2) .code bytes rounds
        else if current = '"'.toUInt8 then hideBlocksFrom? (index + 1) .string bytes rounds
        else hideBlocksFrom? (index + 1) .code bytes rounds
      | .string =>
        if current = '"'.toUInt8 then hideBlocksFrom? (index + 1) .code bytes rounds
        else hideBlocksFrom? (index + 1) .string bytes rounds
      | .comment =>
        if current = '*'.toUInt8 ∧ next = some '/'.toUInt8 then do
          let bytes ← hideClosingAt? bytes index
          hideBlocksFrom? (index + 2) .code bytes rounds
        else do
          let bytes ← hideAt? bytes index
          hideBlocksFrom? (index + 1) .comment bytes rounds
    else some bytes

/-- In a number of rounds the loop does what the pass does to as many bytes. -/
def HidesBlocks (rounds : Nat) : Prop :=
  ∀ (seen rest : List UInt8) (reading : Reading), rest.length ≤ rounds →
    hideBlocksFrom? seen.length reading (seen ++ rest) rounds =
      some (seen ++ BytePass.blockComments.applyFrom reading.inBlocks rest)

namespace HidesBlocks

variable {rounds : Nat} {rest : List UInt8} {current : UInt8}

/-- The rounds that are left start behind the byte that stands in place of the current one. -/
theorem behind
    (hides : HidesBlocks rounds)
    (enough : rest.length ≤ rounds)
    (seen : List UInt8)
    (byte : UInt8)
    (reading : Reading) :
    hideBlocksFrom? (seen.length + 1) reading (seen ++ byte :: rest) rounds =
      some (seen ++ byte :: BytePass.blockComments.applyFrom reading.inBlocks rest) := by
  have goesOn := hides (seen ++ [byte]) rest reading enough
  simpa using goesOn

/-- A closing mark is hidden at once, and the rounds that are left start behind it. -/
theorem behindClosing
    (hides : HidesBlocks rounds)
    (enough : rest.length ≤ rounds)
    (seen : List UInt8)
    (closes : current = '*'.toUInt8 ∧ rest.head? = some '/'.toUInt8) :
    ((hideClosingAt? (seen ++ current :: rest) seen.length).bind fun bytes =>
        hideBlocksFrom? (seen.length + 2) .code bytes rounds) =
      some (seen ++ hiddenByte current :: BytePass.blockComments.applyFrom .closing rest) := by
  obtain ⟨behind, rfl⟩ := List.head?_eq_some_iff.mp closes.2
  have goesOn := hides (seen ++ [hiddenByte current, hiddenByte '/'.toUInt8]) behind .code
    (Nat.le_trans (Nat.le_succ _) enough)
  rw [hideClosingAt?_append]
  simpa [BytePass.applyFrom_cons, BytePass.blockComments, Reading.inBlocks] using goesOn

/-- One more round hides one more byte, or a closing mark. -/
theorem succ (hides : HidesBlocks rounds) : HidesBlocks (rounds + 1) := by
  intro seen rest reading enough
  cases rest with
  | nil => simp [hideBlocksFrom?, BytePass.applyFrom]
  | cons current rest =>
    have inRange : seen.length < (seen ++ current :: rest).length := by simp
    have enoughRest : rest.length ≤ rounds := Nat.le_of_succ_le_succ enough
    have later := hides.behind enoughRest seen
    rw [hideBlocksFrom?, if_pos inRange, getElem?_length_append_cons,
      getElem?_succ_length_append_cons, BytePass.applyFrom_cons]
    simp only [Option.bind_eq_bind, Option.bind_some]
    cases reading with
    | code =>
      have step : BytePass.blockComments.step .code current rest =
          if current = '/'.toUInt8 ∧ rest.head? = some '*'.toUInt8 then (.comment, true)
          else if current = '*'.toUInt8 ∧ rest.head? = some '/'.toUInt8 then (.closing, true)
          else if current = '"'.toUInt8 then (.string, false)
          else (.code, false) := rfl
      dsimp only
      rw [Reading.inBlocks, step]
      by_cases opens : current = '/'.toUInt8 ∧ rest.head? = some '*'.toUInt8
      · rw [if_pos opens, if_pos opens, hideAt?_append, Option.bind_some, later]
        rfl
      · rw [if_neg opens, if_neg opens]
        by_cases closes : current = '*'.toUInt8 ∧ rest.head? = some '/'.toUInt8
        · rw [if_pos closes, if_pos closes, hides.behindClosing enoughRest seen closes]
          rfl
        · rw [if_neg closes, if_neg closes]
          split
          · exact later current .string
          · exact later current .code
    | string =>
      have step : BytePass.blockComments.step .string current rest =
          if current = '"'.toUInt8 then (.code, false) else (.string, false) := rfl
      dsimp only
      rw [Reading.inBlocks, step]
      split
      · exact later current .code
      · exact later current .string
    | comment =>
      have step : BytePass.blockComments.step .comment current rest =
          if current = '*'.toUInt8 ∧ rest.head? = some '/'.toUInt8 then (.closing, true)
          else (.comment, true) := rfl
      dsimp only
      rw [Reading.inBlocks, step]
      by_cases closes : current = '*'.toUInt8 ∧ rest.head? = some '/'.toUInt8
      · rw [if_pos closes, if_pos closes, hides.behindClosing enoughRest seen closes]
        rfl
      · rw [if_neg closes, if_neg closes, hideAt?_append, Option.bind_some, later]
        rfl

end HidesBlocks

/-- The loop needs as many rounds as there are bytes, and not more. -/
theorem hidesBlocks (rounds : Nat) : HidesBlocks rounds := by
  induction rounds with
  | zero =>
    intro seen rest reading enough
    obtain rfl := List.eq_nil_of_length_eq_zero (Nat.le_zero.mp enough)
    simp [hideBlocksFrom?, BytePass.applyFrom]
  | succ rounds hypothesis => exact hypothesis.succ

/-- Hides the line comments at the indices that are left. -/
def hideLinesAt? (reading : Reading) (bytes : List UInt8) : List Nat → Option (List UInt8)
  | [] => some bytes
  | index :: later => do
    let current ← bytes[index]?
    let next := bytes[index + 1]?
    match reading with
    | .code =>
      if current = '/'.toUInt8 ∧ next = some '/'.toUInt8 then do
        let bytes ← hideAt? bytes index
        hideLinesAt? .comment bytes later
      else if current = '"'.toUInt8 then hideLinesAt? .string bytes later
      else hideLinesAt? .code bytes later
    | .string =>
      if current = '"'.toUInt8 then hideLinesAt? .code bytes later
      else hideLinesAt? .string bytes later
    | .comment =>
      if current = '\n'.toUInt8 then hideLinesAt? .code bytes later
      else do
        let bytes ← hideAt? bytes index
        hideLinesAt? .comment bytes later

theorem hideLinesAt?_append
    (seen rest : List UInt8)
    (reading : Reading) :
    hideLinesAt? reading (seen ++ rest) (List.range' seen.length rest.length) =
      some (seen ++ BytePass.lineComments.applyFrom reading.inLines rest) := by
  induction rest generalizing seen reading with
  | nil => rfl
  | cons current rest hypothesis =>
    have later (byte : UInt8) (reading : Reading) :
        hideLinesAt? reading (seen ++ byte :: rest) (List.range' (seen.length + 1) rest.length) =
          some (seen ++ byte :: BytePass.lineComments.applyFrom reading.inLines rest) := by
      have goesOn := hypothesis (seen ++ [byte]) reading
      simpa using goesOn
    rw [List.length_cons, List.range'_succ, hideLinesAt?, getElem?_length_append_cons,
      getElem?_succ_length_append_cons, BytePass.applyFrom_cons]
    simp only [Option.bind_eq_bind, Option.bind_some]
    cases reading with
    | code =>
      have step : BytePass.lineComments.step .code current rest =
          if current = '/'.toUInt8 ∧ rest.head? = some '/'.toUInt8 then (.comment, true)
          else if current = '"'.toUInt8 then (.string, false)
          else (.code, false) := rfl
      dsimp only
      rw [Reading.inLines, step]
      by_cases opens : current = '/'.toUInt8 ∧ rest.head? = some '/'.toUInt8
      · rw [if_pos opens, if_pos opens, hideAt?_append, Option.bind_some, later]
        rfl
      · rw [if_neg opens, if_neg opens]
        split
        · exact later current .string
        · exact later current .code
    | string =>
      have step : BytePass.lineComments.step .string current rest =
          if current = '"'.toUInt8 then (.code, false) else (.string, false) := rfl
      dsimp only
      rw [Reading.inLines, step]
      split
      · exact later current .code
      · exact later current .string
    | comment =>
      have step : BytePass.lineComments.step .comment current rest =
          if current = '\n'.toUInt8 then (.code, false) else (.comment, true) := rfl
      dsimp only
      rw [Reading.inLines, step]
      split
      · exact later current .code
      · rw [hideAt?_append, Option.bind_some, later]
        rfl

/-- The text with its comments hidden. -/
def hideComments? (source : Text) : Option Text := do
  let bytes ← hideBlocksFrom? 0 .code source.bytes source.bytes.length
  let bytes ← hideLinesAt? .code bytes (List.range bytes.length)
  decode? bytes

theorem hideComments?_eq (source : Text) : hideComments? source = some (hideComments source) := by
  have blocks := hidesBlocks _ [] source.bytes .code (Nat.le_refl _)
  have lines := hideLinesAt?_append [] (BytePass.blockComments.apply source.bytes) .code
  rw [List.length_nil, List.nil_append] at blocks lines
  rw [hideComments?, blocks]
  simp only [Option.bind_eq_bind, Option.bind_some, List.range_eq_range', List.nil_append]
  have start : BytePass.blockComments.applyFrom Reading.code.inBlocks source.bytes =
      BytePass.blockComments.apply source.bytes := rfl
  rw [start, lines, Option.bind_some]
  have whole : BytePass.lineComments.applyFrom Reading.code.inLines
      (BytePass.blockComments.apply source.bytes) = Text.bytes (hideComments source) :=
    BytePass.hideComments_bytes source
  rw [List.nil_append, whole, decode?_bytes]

/-- The text in which declarations are looked for. -/
def visible? (source : Text) : Option Text := do
  let text ← hideComments? source
  hideFriends? text

theorem visible?_eq (source : Text) : visible? source = some (visible source) := by
  rw [visible?, hideComments?_eq]
  exact hideFriends?_eq _

end Checked

end ClassOutline
