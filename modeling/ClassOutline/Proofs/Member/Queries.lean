import ClassOutline.Proofs.Checked.Bodies
import ClassOutline.Proofs.Member.Cuts
import ClassOutline.Proofs.Member.Outside
import ClassOutline.Proofs.Member.Shapes
/-!
# Depth at any offset

A cursor that is moved from place to place reads each character once.  What it says about a place is
all the same what one finds by reading the bytes in front of that place from the start and counting
the brackets outside literals, as long as the places lie ever further on.

The statements of a text do.  So each statement is judged by the text in front of it alone, and it
does not matter to which statements the cursor has been moved before.
-/

namespace ClassOutline

namespace Depth

/--
Of the bytes in front of an offset that lie outside literals, one more opens a brace than closes
one, and as many open a parenthesis as close one.  A byte stands for the character with its number,
so an offset may lie inside a character.
-/
def InBodyAt (text : Text) (offset : Nat) : Prop :=
  let outside := Literal.outside (text.codes.take offset)
  outside.count '{' = outside.count '}' + 1 ∧ outside.count '(' = outside.count ')'

instance (text : Text) (offset : Nat) : Decidable (InBodyAt text offset) :=
  inferInstanceAs (Decidable (_ ∧ _))

theorem isInBody_after_iff (text : Text) :
    (({} : Depth).after text).isInBody = true ↔
      (Literal.outside text).count '{' = (Literal.outside text).count '}' + 1 ∧
        (Literal.outside text).count '(' = (Literal.outside text).count ')' := by
  obtain ⟨braces, parens⟩ := after_eq {} text
  rw [Block.braces_eq_count_sub_count] at braces
  rw [Statement.parens_eq_count_sub_count] at parens
  rw [isInBody, braces, parens, Bool.and_eq_true, decide_eq_true_eq, decide_eq_true_eq,
    Literal.outside]
  dsimp only
  omega

/-! ## The cursor -/

/-- The bytes of a wide character change nothing. -/
theorem after_of_wide
    {depth : Depth}
    {seen : Nat}
    {codes : Text}
    (reached : Checked.Reached depth seen)
    (wide : ∀ code ∈ codes, ¬ Text.IsNarrow code) :
    depth.after codes = depth := by
  induction codes with
  | nil => rfl
  | cons code codes hypothesis =>
    obtain ⟨codeWide, codesWide⟩ := List.forall_mem_cons.mp wide
    rw [after_cons, reached.step_of_wide codeWide, hypothesis codesWide]

namespace Cursor

/-- On the way to a place, a cursor may be moved to an earlier one. -/
theorem moveTo_moveTo
    {earlier target : Nat}
    (ordered : earlier ≤ target)
    (cursor : Cursor) :
    (cursor.moveTo earlier).moveTo target = cursor.moveTo target := by
  have ofRead (offset : Nat) (depth : Depth) (text : Text) :
      (moveTo.read earlier offset depth text).moveTo target =
        moveTo.read target offset depth text := by
    induction text generalizing offset depth with
    | nil => rfl
    | cons current rest hypothesis =>
      rw [moveTo.read]
      split
      · next before => rw [hypothesis, moveTo.read, if_pos (by omega)]
      · rfl
  exact ofRead cursor.offset cursor.depth cursor.unread

/--
The depth at a cursor is read off the bytes up to its target, also where the target lies inside a
character.
-/
theorem depth_read
    {depth : Depth}
    {seen : Nat}
    (reached : Checked.Reached depth seen)
    (target offset : Nat)
    (text : Text) :
    (moveTo.read target offset depth text).depth =
      depth.after (text.codes.take (target - offset)) := by
  induction text generalizing depth seen offset with
  | nil => simp [moveTo.read]
  | cons current rest hypothesis =>
    rw [moveTo.read]
    split
    · next before =>
      by_cases narrow : Text.IsNarrow current
      · have left : target - offset = target - (offset + current.utf8Size) + 1 := by
          rw [narrow.utf8Size_eq]
          omega
        rw [hypothesis (reached.step narrow), narrow.codes_cons, left, List.take_succ_cons,
          after_cons]
      · have wide : ∀ code ∈ (Text.codesOf current).take (target - offset),
            ¬ Text.IsNarrow code := fun code member =>
          Text.not_isNarrow_of_mem_codesOf narrow (List.mem_of_mem_take member)
        rw [reached.step_of_wide narrow, hypothesis reached, Text.codes_cons, List.take_append,
          after_append, after_of_wide reached wide, Text.length_codesOf, Nat.sub_sub]
    · next atTarget =>
      rw [Nat.sub_eq_zero_of_le (Nat.le_of_not_lt atTarget), List.take_zero, after_nil]

theorem isInBody_moveTo (text : Text) (offset : Nat) :
    (moveTo offset { unread := text }).depth.isInBody = decide (InBodyAt text offset) := by
  rw [moveTo, depth_read Checked.Reached.start, Bool.eq_iff_iff, isInBody_after_iff,
    decide_eq_true_eq]
  exact Iff.rfl

/-- What one cursor says about places, asked about one after the other. -/
def answers (cursor : Cursor) : List Nat → List Bool
  | [] => []
  | offset :: offsets =>
    let moved := cursor.moveTo offset
    moved.depth.isInBody :: answers moved offsets

/-- A cursor that has been moved on already answers as if it had not. -/
theorem answers_moveTo
    {earlier : Nat}
    {offsets : List Nat}
    (ordered : (earlier :: offsets).Pairwise (· ≤ ·))
    (cursor : Cursor) :
    (cursor.moveTo earlier).answers offsets =
      offsets.map fun offset => (cursor.moveTo offset).depth.isInBody := by
  induction offsets generalizing earlier with
  | nil => rfl
  | cons offset offsets hypothesis =>
    obtain ⟨isFirst, later⟩ := List.pairwise_cons.mp ordered
    rw [answers, moveTo_moveTo (isFirst offset List.mem_cons_self), hypothesis later,
      List.map_cons]

end Cursor

end Depth

/-! ## The members of a body -/

namespace Statement

/-- A statement of a text has the shape of data and lies directly in the body of the class. -/
def Declares (text : Text) (statement : Statement) : Prop :=
  (Shape.ofStatement? statement.text).any Shape.isData = true ∧
    Depth.InBodyAt text statement.offset

instance (text : Text) (statement : Statement) : Decidable (Declares text statement) :=
  inferInstanceAs (Decidable (_ ∧ _))

/-- The members that a statement declares. -/
def declared (statement : Statement) : Except Failure (List DataMember) :=
  Body.membersOf (Shape.ofText statement.text) statement.text

/-- The statements of a text stand one behind the other. -/
theorem pairwise_offset_ofText (text : Text) :
    (ofText text).Pairwise fun earlier later => earlier.offset ≤ later.offset :=
  (ofText_isCutOf text).increasing.imp Nat.le_of_lt

end Statement

namespace Body

/-- The body that is found in declarations, in order. -/
def ofFindings (findings : List (Except Failure (List DataMember))) : Body where
  members := findings.flatMap fun found => found.toOption.getD []
  unresolved := findings.countP fun found => !found.isOk

theorem ofFindings_cons
    (found : Except Failure (List DataMember))
    (findings : List (Except Failure (List DataMember))) :
    ofFindings (found :: findings) = (ofFindings findings).cons found := by
  cases found with
  | ok members => rfl
  | error failure => simp [ofFindings, cons, Except.toOption, Except.isOk, Except.toBool]

/-- A cursor that stands in front of the statements finds those that declare members. -/
theorem ofStatements_moveTo
    {text : Text}
    {earlier : Nat}
    {statements : List Statement}
    (isFirst : ∀ statement ∈ statements, earlier ≤ statement.offset)
    (ordered : statements.Pairwise fun earlier later => earlier.offset ≤ later.offset) :
    ofStatements (.moveTo earlier { unread := text }) statements =
      ofFindings ((statements.filter (Statement.Declares text ·)).map Statement.declared) := by
  induction statements generalizing earlier with
  | nil => rfl
  | cons statement statements hypothesis =>
    obtain ⟨before, beforeLater⟩ := List.forall_mem_cons.mp isFirst
    obtain ⟨inOrder, orderedLater⟩ := List.pairwise_cons.mp ordered
    rw [ofStatements]
    cases found : (Shape.ofStatement? statement.text).filter Shape.isData with
    | none =>
      have skipped : ¬ Statement.Declares text statement := by
        rintro ⟨hasData, -⟩
        obtain ⟨shape, isShape, isData⟩ := (Option.any_eq_true _ _).mp hasData
        exact Option.filter_eq_none_iff.mp found shape isShape isData
      rw [List.filter_cons_of_neg (by simpa using skipped)]
      exact hypothesis beforeLater orderedLater
    | some shape =>
      obtain ⟨isShape, isData⟩ := Option.filter_eq_some_iff.mp found
      have later := hypothesis inOrder orderedLater
      have declares_iff : Statement.Declares text statement ↔
          Depth.InBodyAt text statement.offset := by
        rw [Statement.Declares, isShape, Option.any_some, isData]
        exact and_iff_right rfl
      dsimp only
      rw [Depth.Cursor.moveTo_moveTo before, later, Depth.Cursor.isInBody_moveTo]
      by_cases inBody : Depth.InBodyAt text statement.offset
      · rw [if_pos (decide_eq_true inBody),
          List.filter_cons_of_pos (by simpa [declares_iff] using inBody), List.map_cons,
          ofFindings_cons, Statement.declared, ← Shape.eq_ofText_of_ofStatement? isShape]
      · rw [if_neg (by simpa using inBody),
          List.filter_cons_of_neg (by simpa [declares_iff] using inBody)]

end Body

/--
However the places follow each other on the way from the start of a text on, a cursor says of each
of them whether the bytes in front of it leave one brace and no parenthesis open.  So the members of
a text are those of the statements that have the shape of data and lie at such a place.
-/
theorem Depth.Cursor.answers_fromStart (text : Text) :
    (∀ offsets : List Nat, offsets.Pairwise (· ≤ ·) →
      answers { unread := text } offsets =
        offsets.map fun offset => decide (InBodyAt text offset)) ∧
      Body.ofText text =
        .ofFindings (((Statement.ofText text).filter (Statement.Declares text ·)).map
          Statement.declared) := by
  have atStart : moveTo 0 { unread := text } = { unread := text } := by
    cases text <;> rfl
  constructor
  · intro offsets ordered
    have fromStart : (0 :: offsets).Pairwise (· ≤ ·) :=
      List.pairwise_cons.mpr ⟨fun offset _ => Nat.zero_le offset, ordered⟩
    have found := answers_moveTo fromStart { unread := text }
    rw [atStart] at found
    simpa only [isInBody_moveTo] using found
  · have found := @Body.ofStatements_moveTo text 0 (Statement.ofText text)
      (fun statement _ => Nat.zero_le statement.offset) (Statement.pairwise_offset_ofText text)
    rwa [atStart] at found

/-- Offsets inside a wide character, in a literal, between parentheses and behind the text. -/
theorem Depth.Cursor.answers_fromStart_openLiteral :
    [8, 12, 12, 23, 33, 41, 100].Pairwise (· ≤ ·) ∧
      answers
          { unread :=
              "struct Ä \x7b\nchar c = '\x7b';\nint f(\nint a);\nint b;\n\x7d".toList }
          [8, 12, 12, 23, 33, 41, 100] =
        [false, true, true, true, false, true, false] :=
  ⟨by decide, ((answers_fromStart _).1 _ (by decide)).trans (by decide +kernel)⟩

end ClassOutline
