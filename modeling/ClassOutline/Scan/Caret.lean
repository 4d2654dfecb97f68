import ClassOutline.Failure
import ClassOutline.Outline
/-!
# The class at the caret

Among the outlines of a source, the one that a caret on some line refers to: the first that covers
the line, or else the last of those at the front of the list that start before the line, or else
the first.
-/

namespace ClassOutline.Caret

/-- The index of the outline at a line, if there is any outline. -/
def index? (outlines : List Outline) (line : Nat) : Option Nat :=
  match outlines with
  | [] => none
  | [_] => some 0
  | _ =>
    match outlines.findIdx? fun outline => outline.coversLine line with
    | some index => some index
    | none => some ((outlines.takeWhile fun outline => outline.startLine < line).length - 1)

theorem index?_lt_length
    {outlines : List Outline}
    {line index : Nat}
    (found : index? outlines line = some index) :
    index < outlines.length := by
  unfold index? at found
  split at found
  · contradiction
  · simp_all
  · next notEmpty _ =>
    split at found
    · next covering =>
      obtain rfl := Option.some.inj found
      exact (List.findIdx?_eq_some_iff_getElem.mp covering).1
    · obtain rfl := Option.some.inj found
      have bound := (List.takeWhile_sublist (l := outlines)
        (fun outline => decide (outline.startLine < line))).length_le
      have positive := List.length_pos_iff.mpr fun none => notEmpty none
      omega

/-- The outline at a line.  It fails if there is none at all. -/
def pick (outlines : List Outline) (line : Nat) : Except Failure Outline :=
  match (index? outlines line).bind fun index => outlines[index]? with
  | some outline => .ok outline
  | none => .error .noClass

end ClassOutline.Caret
