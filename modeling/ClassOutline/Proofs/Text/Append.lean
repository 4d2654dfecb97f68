import ClassOutline.Text.Basic
/-!
# Parts of texts put together

A text that is put together from parts is cut again in one way if the width of the part in front is
known.  Without it, two texts may agree though their parts do not, as `ab` and `c` are put together
to the same text as `a` and `bc`.  They cannot if the parts in front clash: if these differ already
before either of them ends.
-/

namespace ClassOutline.Text

/-- A text is cut at a width in one way. -/
theorem append_inj_of_width
    {front behind otherFront otherBehind : Text}
    (same : front ++ behind = otherFront ++ otherBehind)
    (sameWidth : front.width = otherFront.width) :
    front = otherFront ∧ behind = otherBehind := by
  rcases List.append_eq_append_iff.mp same with ⟨between, rfl, rfl⟩ | ⟨between, rfl, rfl⟩
  all_goals
    rw [width_append] at sameWidth
    obtain rfl : between = [] := eq_nil_of_width (by omega)
    simp

/-! ## Texts that differ -/

/-- Two texts are different, and stay so whatever is put behind them. -/
def Clash (left right : Text) : Prop :=
  ∀ behind behind', left ++ behind ≠ right ++ behind'

theorem Clash.ne
    {left right : Text}
    (clash : Clash left right) :
    left ≠ right := by
  rintro rfl
  exact clash [] [] rfl

theorem clash_append_cons
    {first other : Char}
    (different : first ≠ other)
    (front left right : Text) :
    Clash (front ++ first :: left) (front ++ other :: right) := by
  intro behind behind' same
  simp only [List.append_assoc, List.cons_append] at same
  exact different (List.cons.inj (List.append_cancel_left same)).1

/-- One part of each item decides whether two texts made of the same items are the same. -/
theorem flatMap_eq_flatMap_iff
    {item : Type}
    {items : List item}
    {left right : item → Text}
    (front behind : item → Text)
    (clash : ∀ one ∈ items, left one ≠ right one → Clash (left one) (right one)) :
    (items.flatMap fun one => front one ++ left one ++ behind one) =
        (items.flatMap fun one => front one ++ right one ++ behind one) ↔
      ∀ one ∈ items, left one = right one := by
  induction items with
  | nil => simp
  | cons one items hypothesis =>
    obtain ⟨clashHere, clashLater⟩ := List.forall_mem_cons.mp clash
    have later := hypothesis clashLater
    rw [List.flatMap_cons, List.flatMap_cons, List.forall_mem_cons, ← later]
    constructor
    · intro same
      simp only [List.append_assoc] at same
      have sameBehind := List.append_cancel_left same
      have here : left one = right one := Decidable.byContradiction fun different =>
        clashHere different _ _ sameBehind
      rw [here] at sameBehind
      have sameLater := List.append_cancel_left (List.append_cancel_left sameBehind)
      exact ⟨here, by simpa only [List.append_assoc] using sameLater⟩
    · rintro ⟨here, sameLater⟩
      rw [here, sameLater]

end ClassOutline.Text
