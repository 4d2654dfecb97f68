import ClassOutline.Text.Basic
/-!
# Style of generated code

Where generated member functions go, and how they are indented.
-/

namespace ClassOutline

/-- Where generated member functions go. -/
inductive Placement where
  /-- Complete definitions in the body of the class. -/
  | inside
  /-- Declarations in the body of the class, and definitions behind the class. -/
  | apart
deriving DecidableEq, Repr

/-- How generated code is written. -/
structure Style where
  /-- Where member functions go.  Those of a template always go inside. -/
  placement : Placement := .inside
  /-- One level of indentation. -/
  indent : Text := ['\t']
deriving DecidableEq, Repr

namespace Style

/-- The style in which definitions stand behind the class. -/
def apart : Style where
  placement := .apart

end Style

end ClassOutline
