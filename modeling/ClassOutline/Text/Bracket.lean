import ClassOutline.Text.Basic
/-!
# Bracket counts and regrouping

A construct cut at blanks or commas leaves fragments in which a bracket opens and does not close.
`regroup` puts such fragments together again: it appends pieces to the current group for as long
as that group is incomplete.
-/

namespace ClassOutline.Text

/-- A text has as many closing as opening brackets of each kind, in whatever order. -/
def Balanced (text : Text) : Prop :=
  text.count '{' = text.count '}' ∧
    text.count '(' = text.count ')' ∧
      text.count '<' = text.count '>'

instance (text : Text) : Decidable (Balanced text) :=
  inferInstanceAs (Decidable (_ ∧ _ ∧ _))

/--
Puts pieces together from left to right.  A group is extended by the next piece, with `glue`
between them, exactly while it is incomplete.
-/
def regroup (glue : Text) (incomplete : Text → Bool) : List Text → List Text
  | [] => []
  | piece :: pieces => extend piece pieces
where
  /-- Continues with a group that has been begun. -/
  extend (group : Text) : List Text → List Text
    | [] => [group]
    | piece :: pieces =>
      if incomplete group then extend (group ++ glue ++ piece) pieces
      else group :: extend piece pieces

theorem regroup_extend_ne_nil
    (glue : Text)
    (incomplete : Text → Bool)
    (group : Text)
    (pieces : List Text) :
    regroup.extend glue incomplete group pieces ≠ [] := by
  induction pieces generalizing group with
  | nil => simp [regroup.extend]
  | cons piece pieces hypothesis =>
    rw [regroup.extend]
    split
    · exact hypothesis _
    · simp

theorem intercalate_cons_cons
    (glue first second : Text)
    (parts : List Text) :
    glue.intercalate (first :: second :: parts) =
      glue.intercalate ((first ++ glue ++ second) :: parts) := by
  cases parts <;> simp [List.intercalate]

theorem intercalate_regroup_extend
    (glue : Text)
    (incomplete : Text → Bool)
    (group : Text)
    (pieces : List Text) :
    glue.intercalate (regroup.extend glue incomplete group pieces) =
      glue.intercalate (group :: pieces) := by
  induction pieces generalizing group with
  | nil => rfl
  | cons piece pieces hypothesis =>
    rw [regroup.extend]
    split
    · rw [hypothesis, intercalate_cons_cons]
    · obtain ⟨next, later, split⟩ :=
        List.exists_cons_of_ne_nil (regroup_extend_ne_nil glue incomplete piece pieces)
      have equal := hypothesis piece
      rw [split] at equal ⊢
      simp only [List.intercalate, List.intersperse_cons_cons, List.flatten_cons] at equal ⊢
      rw [equal]

/-- Groups are made of the pieces in order; nothing is lost and only `glue` is put between them. -/
theorem intercalate_regroup
    (glue : Text)
    (incomplete : Text → Bool)
    (pieces : List Text) :
    glue.intercalate (regroup glue incomplete pieces) = glue.intercalate pieces := by
  cases pieces with
  | nil => rfl
  | cons piece pieces => exact intercalate_regroup_extend glue incomplete piece pieces

end ClassOutline.Text
