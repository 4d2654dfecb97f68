import ClassOutline.Member.Body
/-!
# Bodies read piece by piece

The members of a text are found with a cursor that skips whatever is no data.  The depth at the
cursor is all the same the depth of the text in front of it, so the members can be read off the
pieces of the text from left to right, with no cursor and no offsets.
-/

namespace ClassOutline

namespace Depth

/-- The depth behind a text that is reached at a given depth. -/
def after (depth : Depth) (text : Text) : Depth :=
  text.foldl step depth

@[simp]
theorem after_nil (depth : Depth) : depth.after [] = depth := rfl

@[simp]
theorem after_cons
    (depth : Depth)
    (first : Char)
    (rest : Text) :
    depth.after (first :: rest) = (depth.step first).after rest := rfl

@[simp]
theorem after_append
    (depth : Depth)
    (left right : Text) :
    depth.after (left ++ right) = (depth.after left).after right :=
  List.foldl_append

namespace Cursor

/-- A cursor reads up to its target. -/
theorem read_append
    (offset : Nat)
    (depth : Depth)
    (skipped rest : Text) :
    moveTo.read (offset + skipped.width) offset depth (skipped ++ rest) =
      { unread := rest, offset := offset + skipped.width, depth := depth.after skipped } := by
  induction skipped generalizing offset depth with
  | nil => cases rest <;> simp [moveTo.read]
  | cons first skipped hypothesis =>
    have positive := first.utf8Size_pos
    have before : offset < offset + Text.width (first :: skipped) := by
      rw [Text.width_cons]
      omega
    have later := hypothesis (offset + first.utf8Size) (depth.step first)
    rw [List.cons_append, moveTo.read, if_pos before, Text.width_cons, ← Nat.add_assoc, later]
    rfl

theorem moveTo_eq
    {cursor : Cursor}
    {skipped rest : Text}
    {target : Nat}
    (unread : cursor.unread = skipped ++ rest)
    (isTarget : target = cursor.offset + skipped.width) :
    cursor.moveTo target =
      { unread := rest, offset := target, depth := cursor.depth.after skipped } := by
  rw [moveTo, unread, isTarget, read_append]

end Cursor

end Depth

/-- The pieces of the lines of a text make up the text. -/
theorem Statement.flatten_flatMap_pieces (text : Text) :
    (text.lines.flatMap Statement.pieces).flatten = text := by
  have perLine (lines : List Text) :
      (lines.flatMap Statement.pieces).flatten = lines.flatten := by
    induction lines with
    | nil => rfl
    | cons line lines hypothesis => simp [hypothesis]
  rw [perLine, Text.flatten_lines]

namespace Body

/-- The members that one piece declares, if it is a statement with the shape of data. -/
def found? (depth : Depth) (piece : Text) : Option (Except Failure (List DataMember)) :=
  match (Shape.ofStatement? piece.trim).filter Shape.isData with
  | none => none
  | some shape =>
    if (depth.after piece.indentation).isInBody then some (membersOf shape piece.trim) else none

/-- The data members of pieces that follow each other, the first of which is reached at a depth. -/
def ofPieces (depth : Depth) : List Text → Body
  | [] => {}
  | piece :: pieces =>
    let later := ofPieces (depth.after piece) pieces
    match found? depth piece with
    | some found => later.cons found
    | none => later

/-- Whatever the cursor has skipped, it finds the members that the pieces declare. -/
theorem ofStatements_placed
    {cursor : Depth.Cursor}
    {skipped : Text}
    {offset : Nat}
    {pieces : List Text}
    (unread : cursor.unread = skipped ++ pieces.flatten)
    (isOffset : offset = cursor.offset + skipped.width) :
    ofStatements cursor (Statement.placed offset pieces) =
      ofPieces (cursor.depth.after skipped) pieces := by
  induction pieces generalizing cursor skipped offset with
  | nil => rfl
  | cons piece pieces hypothesis =>
    have unreadLater : cursor.unread = (skipped ++ piece) ++ pieces.flatten := by
      rw [unread, List.flatten_cons, List.append_assoc]
    have offsetLater : offset + piece.width = cursor.offset + (skipped ++ piece).width := by
      rw [isOffset, Text.width_append, Nat.add_assoc]
    have later := hypothesis unreadLater offsetLater
    rw [Depth.after_append] at later
    rw [Statement.placed, ofPieces, found?]
    by_cases isBlank : piece.trim = []
    · have noShape : Shape.ofStatement? ([] : Text) = none := by decide
      rw [if_pos isBlank, isBlank, noShape, later]
      rfl
    · rw [if_neg isBlank, ofStatements]
      cases shape : (Shape.ofStatement? piece.trim).filter Shape.isData with
      | none => exact later
      | some shape =>
        -- The cursor moves to the first character of the piece that is not blank.
        have split : piece = piece.indentation ++ piece.trimStart :=
          piece.indentation_append_trimStart.symm
        have moved : cursor.moveTo (offset + piece.indentation.width) =
            { unread := piece.trimStart ++ pieces.flatten
              offset := offset + piece.indentation.width
              depth := cursor.depth.after (skipped ++ piece.indentation) } :=
          Depth.Cursor.moveTo_eq
            (by rw [unreadLater, List.append_assoc, List.append_assoc, ← List.append_assoc
              piece.indentation, ← split])
            (by rw [isOffset, Text.width_append, Nat.add_assoc])
        have laterMoved : ofStatements (cursor.moveTo (offset + piece.indentation.width))
            (Statement.placed (offset + piece.width) pieces) =
              ofPieces ((cursor.moveTo (offset + piece.indentation.width)).depth.after
                piece.trimStart) pieces :=
          hypothesis (by rw [moved])
            (by rw [moved, Nat.add_assoc, ← Text.width_append, ← split])
        have depthLater : (cursor.depth.after (skipped ++ piece.indentation)).after
            piece.trimStart = (cursor.depth.after skipped).after piece := by
          rw [Depth.after_append, ← Depth.after_append _ piece.indentation, ← split]
        rw [moved] at laterMoved
        rw [depthLater] at laterMoved
        dsimp only
        rw [moved, laterMoved, Depth.after_append]
        split <;> rfl

/-! ## One body behind another -/

instance : Append Body where
  append first second :=
    { members := first.members ++ second.members
      unresolved := first.unresolved + second.unresolved }

@[simp]
theorem members_append (first second : Body) :
    (first ++ second).members = first.members ++ second.members := rfl

@[simp]
theorem unresolved_append (first second : Body) :
    (first ++ second).unresolved = first.unresolved + second.unresolved := rfl

theorem ext
    {first second : Body}
    (members : first.members = second.members)
    (unresolved : first.unresolved = second.unresolved) :
    first = second := by
  obtain ⟨_, _⟩ := first
  obtain ⟨_, _⟩ := second
  simp_all

@[simp]
theorem nil_append (body : Body) : {} ++ body = body :=
  ext (List.nil_append _) (Nat.zero_add _)

@[simp]
theorem append_nil (body : Body) : body ++ {} = body :=
  ext (List.append_nil _) (Nat.add_zero _)

theorem append_assoc (first second third : Body) :
    first ++ second ++ third = first ++ (second ++ third) :=
  ext (List.append_assoc _ _ _) (Nat.add_assoc _ _ _)

/-- A body in front of another one can be told. -/
theorem append_eq_right_iff {first second : Body} : first ++ second = second ↔ first = {} := by
  constructor
  · intro equal
    refine ext ?_ ?_
    · exact List.append_left_eq_self.mp (congrArg members equal)
    · exact Nat.add_eq_right.mp (congrArg unresolved equal)
  · rintro rfl
    exact nil_append second

/-- Behind the same body, different ones can be told. -/
theorem append_right_inj (first : Body) {second third : Body} :
    first ++ second = first ++ third ↔ second = third := by
  constructor
  · intro equal
    refine ext ?_ ?_
    · exact List.append_cancel_left (congrArg members equal)
    · exact Nat.add_left_cancel (congrArg unresolved equal)
  · rintro rfl
    rfl

theorem cons_append
    (found : Except Failure (List DataMember))
    (first second : Body) :
    first.cons found ++ second = (first ++ second).cons found := by
  cases found with
  | ok members => exact ext (List.append_assoc _ _ _) rfl
  | error failure => exact ext rfl (Nat.add_right_comm _ _ _)

/-- Pieces are read from left to right, and nothing but the depth is passed on. -/
theorem ofPieces_append
    (depth : Depth)
    (left right : List Text) :
    ofPieces depth (left ++ right) =
      ofPieces depth left ++ ofPieces (depth.after left.flatten) right := by
  induction left generalizing depth with
  | nil => rw [List.nil_append, ofPieces, nil_append, List.flatten_nil, Depth.after_nil]
  | cons piece left hypothesis =>
    have later := hypothesis (depth.after piece)
    rw [← Depth.after_append, ← List.flatten_cons] at later
    rw [List.cons_append, ofPieces, ofPieces, later]
    cases found? depth piece with
    | none => rfl
    | some found => exact (cons_append found _ _).symm

/-- Wherever it stands, the piece declares no member, and leaves no declaration unresolved. -/
def DeclaresNothing (piece : Text) : Prop :=
  ∀ depth, found? depth piece = none ∨ found? depth piece = some (.ok [])

theorem ofPieces_of_declaresNothing
    {pieces : List Text}
    (nothing : ∀ piece ∈ pieces, DeclaresNothing piece)
    (depth : Depth) :
    ofPieces depth pieces = {} := by
  induction pieces generalizing depth with
  | nil => rfl
  | cons piece pieces hypothesis =>
    have later := hypothesis fun other member => nothing other (List.mem_cons_of_mem _ member)
    rcases nothing piece List.mem_cons_self depth with noData | noMember
    · rw [ofPieces, noData, later]
    · rw [ofPieces, noMember, later]
      rfl

/-- A piece without the shape of a statement declares nothing. -/
theorem declaresNothing_of_noShape
    {piece : Text}
    (noShape : Shape.ofStatement? piece.trim = none) :
    DeclaresNothing piece := by
  intro depth
  rw [found?, noShape]
  exact .inl rfl

/-- A piece that does not begin directly in the body of a class declares nothing. -/
theorem found?_of_outside
    {depth : Depth}
    {piece : Text}
    (outside : (depth.after piece.indentation).isInBody = false) :
    found? depth piece = none := by
  rw [found?, outside]
  split <;> rfl

/-- Pieces all of which lie at another depth than that of members declare nothing. -/
theorem ofPieces_of_deep
    {depth : Depth}
    {pieces : List Text}
    (deep : ∀ front, front <+: pieces.flatten → (depth.after front).braces ≠ 1) :
    ofPieces depth pieces = {} := by
  induction pieces generalizing depth with
  | nil => rfl
  | cons piece pieces hypothesis =>
    have outside : (depth.after piece.indentation).isInBody = false := by
      have isPrefix : piece.indentation <+: (piece :: pieces).flatten :=
        (List.takeWhile_prefix _).trans (List.prefix_append piece pieces.flatten)
      simp [Depth.isInBody, deep _ isPrefix]
    have noData := found?_of_outside outside
    have later : ofPieces (depth.after piece) pieces = {} := by
      refine hypothesis fun front isPrefix => ?_
      rw [← Depth.after_append]
      exact deep _ ((List.prefix_append_right_inj piece).mpr isPrefix)
    rw [ofPieces, noData, later]

/-- The data members of the rest of a text that is reached at a given depth. -/
def ofRest (depth : Depth) (text : Text) : Body :=
  ofPieces depth (text.lines.flatMap Statement.pieces)

/-- The members of a text are those that its pieces declare. -/
theorem ofText_eq_ofRest (text : Text) : ofText text = ofRest {} text :=
  @ofStatements_placed _ [] _ _ (Statement.flatten_flatMap_pieces text).symm rfl

end Body

end ClassOutline
