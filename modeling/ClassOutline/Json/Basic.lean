import ClassOutline.Text.Basic
/-!
# JSON values

The values in which outlines, results and options are stored.  Each type has its written form as a
JSON value and a reading.

A structure is written as an object.  It is read from an object, where a key must be there with a
value of the right kind and further keys are ignored, or from the array of exactly the values of
its keys, in order.  A word is written as a text, and is read also from the object whose only key is
the word, with `null` as its value.  Every other form is refused.
-/

namespace ClassOutline

/-- A JSON value. -/
inductive Json where
  /-- The value `null`. -/
  | null
  /-- A truth value. -/
  | bool (value : Bool)
  /-- The number with the given digits, of which the last `places` are decimal places. -/
  | number (digits : Int) (places : Nat)
  /-- A text. -/
  | text (value : Text)
  /-- An array. -/
  | array (items : List Json)
  /-- An object. -/
  | object (entries : List (Text × Json))
deriving Repr

namespace Json

instance : Inhabited Json := ⟨.null⟩

/-- The written form of a natural number. -/
def natural (value : Nat) : Json :=
  .number value 0

/-- The written form of a list. -/
def list {α : Type} (write : α → Json) (values : List α) : Json :=
  .array (values.map write)

/-- The value of a key of an object. -/
def entry? (key : String) : Json → Option Json
  | .object entries => entries.lookup key.toList
  | _ => none

/-! ## Reading -/

/-- Reads a truth value. -/
def readBool : Json → Option Bool
  | .bool value => some value
  | _ => none

/-- Reads a natural number, written without decimal places. -/
def readNatural : Json → Option Nat
  | .number (.ofNat value) 0 => some value
  | _ => none

@[simp]
theorem readNatural_natural (value : Nat) : readNatural (natural value) = some value := rfl

/-- Reads a text. -/
def readText : Json → Option Text
  | .text value => some value
  | _ => none

/-- Reads an array. -/
def readList {α : Type} (read : Json → Option α) : Json → Option (List α)
  | .array items => items.mapM read
  | _ => none

/-- A list is read as its values are. -/
theorem readList_list
    {α β : Type}
    {write : α → Json}
    {read : Json → Option β}
    {found : α → β}
    (read_write : ∀ value, read (write value) = some (found value))
    (values : List α) :
    readList read (list write values) = some (values.map found) := by
  induction values with
  | nil => rfl
  | cons value values hypothesis =>
    have rest : (values.map write).mapM read = some (values.map found) := hypothesis
    simp [readList, list, read_write, rest]

/-- Reads a pair, written as an array of two values. -/
def readPair {α β : Type} (first : Json → Option α) (second : Json → Option β) :
    Json → Option (α × β)
  | .array [left, right] => do return (← first left, ← second right)
  | _ => none

/-- Reads the value of a key that must be there. -/
def readEntry {α : Type} (key : String) (read : Json → Option α) (json : Json) : Option α :=
  (json.entry? key).bind read

/-- Reads the value of a key, or takes a given value where the object has no such key. -/
def readEntryD {α : Type} (key : String) (read : Json → Option α) (missing : α) (json : Json) :
    Option α :=
  match json.entry? key with
  | some value => read value
  | none => some missing

/--
The object that a record stands for.  An array holds the values of the first keys in order; values
may be missing for the last keys only, as many as `optional`.
-/
def asRecord? (keys : List String) (optional : Nat) : Json → Option Json
  | .object entries => some (.object entries)
  | .array items =>
    if keys.length ≤ items.length + optional ∧ items.length ≤ keys.length then
      some (.object ((keys.map String.toList).zip items))
    else none
  | _ => none

@[simp]
theorem asRecord?_object
    (keys : List String)
    (optional : Nat)
    (entries : List (Text × Json)) :
    asRecord? keys optional (.object entries) = some (.object entries) := rfl

/-- Reads a value for which `null` stands if there is none. -/
def readOptional {α : Type} (read : Json → Option α) : Json → Option (Option α)
  | .null => some none
  | json => (read json).map some

/-- The word that a value stands for. -/
def word? : Json → Option Text
  | .text word => some word
  | .object [(word, .null)] => some word
  | _ => none

/-- Reads one of the given values by the word that is written for it. -/
def readWord {α : Type} (values : List α) (word : α → Text) (json : Json) : Option α :=
  json.word?.bind fun text => values.find? fun value => word value = text

end Json

end ClassOutline
