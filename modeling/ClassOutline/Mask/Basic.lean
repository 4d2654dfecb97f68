import ClassOutline.Text.Basic
/-!
# Masks

A mask hides parts of a text without moving the rest.  A hidden character becomes as many spaces
as it has bytes, and a hidden line feed stays, so every offset and every line number of the masked
text is one of the text itself.

A mask reads the text once, from left to right.  Its state says what kind of text it is in, and it
may look ahead at the text that follows the current character.
-/

namespace ClassOutline

/-- What stands in place of a hidden character: spaces of the same width, or the line feed. -/
def hidden (character : Char) : Text :=
  if character = '\n' then [character] else List.replicate character.utf8Size ' '

/-- Hiding a character keeps its width. -/
@[simp]
theorem width_hidden (character : Char) :
    Text.width (hidden character) = character.utf8Size := by
  rw [hidden]
  split
  · simp
  · have one : ' '.utf8Size = 1 := rfl
    rw [Text.width_replicate, one, Nat.mul_one]

/-- A pass over a text that hides some of its characters. -/
structure Mask (State : Type) where
  /-- The state at the start of a text. -/
  start : State
  /--
  Whether the current character is hidden, and the state after it.  The last argument is the text
  that follows the character.
  -/
  step : State → Char → Text → State × Bool

namespace Mask

variable {State : Type}

/-- The masked form of the rest of a text that is reached in a given state. -/
def applyFrom (mask : Mask State) : State → Text → Text
  | _, [] => []
  | state, current :: rest =>
    let (next, hides) := mask.step state current rest
    (if hides then hidden current else [current]) ++ mask.applyFrom next rest

/-- Masking keeps the width of the rest of a text. -/
theorem width_applyFrom
    (mask : Mask State)
    (state : State)
    (text : Text) :
    Text.width (mask.applyFrom state text) = Text.width text := by
  induction text generalizing state with
  | nil => rfl
  | cons current rest hypothesis =>
    rw [applyFrom, Text.width_append, hypothesis, Text.width_cons]
    congr 1
    split <;> simp

/-- The masked form of a text. -/
def apply (mask : Mask State) (text : Text) : Text :=
  mask.applyFrom mask.start text

@[simp]
theorem width_apply
    (mask : Mask State)
    (text : Text) :
    Text.width (mask.apply text) = Text.width text :=
  mask.width_applyFrom mask.start text

end Mask

end ClassOutline
