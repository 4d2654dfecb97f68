import ClassOutline.Proofs.Member.Functions
/-!
# Spoiled pieces

On one line only a semicolon outside parentheses, or the brace of a nested class, ends a piece.  So
an access label, and the closing brace of a function, begin the piece of whatever stands behind
them.  Such a piece is spoiled: it declares nothing, whatever it goes on with.
-/

namespace ClassOutline

namespace Body

/--
A piece has begun with a text that leads from its depth into the body of a class.  Whatever the
piece goes on with, it declares nothing.
-/
structure Spoiled (depth : Depth) (text : Text) : Prop where
  bare : Statement.Bare text
  closed : Statement.parens text = 0
  leads : depth.after text = depthInBody
  nothing : ∀ behind, found? depth (text ++ behind) = none

/-- What is found in the rest of a line whose piece has begun with a text, and in later pieces. -/
def ofOpenPiece (depth : Depth) (text rest : Text) (later : List Text) : Body :=
  ofPieces depth (Statement.piecesFrom false none 0 (text ++ rest) ++ later)

/-- A line that does not begin with the head of a class is read like an open piece. -/
theorem ofPieces_pieces_append
    {text rest : Text}
    (noType : Statement.beginsType (text ++ rest) = false)
    (depth : Depth)
    (later : List Text) :
    ofPieces depth (Statement.pieces (text ++ rest) ++ later) =
      ofOpenPiece depth text rest later := by
  rw [Statement.pieces, noType, ofOpenPiece]

namespace Spoiled

variable {depth : Depth} {text more : Text}

/-- A text that closes what it opens leaves a piece spoiled. -/
theorem append
    (spoiled : Spoiled depth text)
    (bare : Statement.Bare more)
    (closed : Statement.parens more = 0)
    (nested : Block.braces more = 0) :
    Spoiled depth (text ++ more) where
  bare := spoiled.bare.append bare
  closed := by rw [Statement.parens_append, spoiled.closed, closed, Int.add_zero]
  leads := by
    rw [Depth.after_append, spoiled.leads,
      Depth.after_unquoted _ (fun character member => (bare character member).2.2) rfl, closed,
      nested]
    rfl
  nothing behind := by
    rw [List.append_assoc]
    exact spoiled.nothing _

/-- A semicolon ends a spoiled piece, and the rest is read as a line of its own. -/
theorem ofOpenPiece_semicolon
    (spoiled : Spoiled depth text)
    (bare : Statement.Bare more)
    (closed : Statement.parens more = 0)
    (rest : Text)
    (later : List Text) :
    ofOpenPiece depth text (more ++ ';' :: rest) later =
      ofPieces (depthInBody.after (more ++ [';'])) (Statement.pieces rest ++ later) := by
  have closedBoth : Statement.parens (text ++ more) = 0 := by
    rw [Statement.parens_append, spoiled.closed, closed, Int.add_zero]
  have split : Statement.piecesFrom false none 0 (text ++ (more ++ ';' :: rest)) =
      (text ++ more ++ [';']) :: Statement.pieces rest := by
    rw [← List.append_assoc]
    refine Statement.piecesFrom_bare_append (spoiled.bare.append bare) (by simp) ?_
    rw [closedBoth]
    exact Statement.piecesFrom_semicolon false rest
  have nothing := spoiled.nothing (more ++ [';'])
  rw [← List.append_assoc] at nothing
  rw [ofOpenPiece, split, List.cons_append, ofPieces_cons_of_none nothing, List.append_assoc,
    Depth.after_append, spoiled.leads]

/-- At the end of its line a spoiled piece declares nothing. -/
theorem ofOpenPiece_whole
    (spoiled : Spoiled depth text)
    (whole : Statement.piecesFrom false none 0 more = [more])
    (later : List Text) :
    ofOpenPiece depth text more later = ofPieces (depthInBody.after more) later := by
  have split : Statement.piecesFrom false none 0 (text ++ more) = [text ++ more] := by
    refine Statement.piecesFrom_bare_append spoiled.bare (by simp) ?_
    rwa [spoiled.closed]
  rw [ofOpenPiece, split, List.singleton_append, ofPieces_cons_of_none (spoiled.nothing more),
    Depth.after_append, spoiled.leads]

end Spoiled

/-- Behind the closing brace of a function, the piece that begins with it is spoiled. -/
theorem spoiled_closing : Spoiled depthInFunction [' ', '}'] where
  bare := by decide
  closed := rfl
  leads := rfl
  nothing behind := by
    refine found?_of_outside ?_
    have indented : Text.indentation ([' ', '}'] ++ behind) = [' '] := rfl
    rw [indented]
    rfl

/-- The statements of a function that follow each other on a line. -/
def onOneLine (statements : List Text) : Text :=
  statements.flatMap fun statement => ' ' :: (statement ++ [';'])

/-- The statements of a function declare nothing up to its closing brace. -/
theorem ofPieces_onOneLine
    {statements : List Text}
    (arePlain : ∀ statement ∈ statements, Statement.Plain statement)
    (rest : Text)
    (later : List Text) :
    ofPieces depthInFunction
        (Statement.pieces (onOneLine statements ++ ' ' :: '}' :: rest) ++ later) =
      ofOpenPiece depthInFunction [' ', '}'] rest later := by
  induction statements with
  | nil => exact @ofPieces_pieces_append [' ', '}'] rest rfl depthInFunction later
  | cons statement statements hypothesis =>
    have remaining := hypothesis fun other member => arePlain other (List.mem_cons_of_mem _ member)
    have plain : Statement.Plain (' ' :: statement) := by
      intro character member
      rcases List.mem_cons.mp member with rfl | inStatement
      · decide
      · exact arePlain statement List.mem_cons_self character inStatement
    have shape : onOneLine (statement :: statements) ++ ' ' :: '}' :: rest =
        ' ' :: statement ++ ';' :: (onOneLine statements ++ ' ' :: '}' :: rest) := by
      simp [onOneLine]
    have split : Statement.pieces (' ' :: statement ++ ';' :: (onOneLine statements ++
        ' ' :: '}' :: rest)) =
          (' ' :: statement ++ [';']) ::
            Statement.pieces (onOneLine statements ++ ' ' :: '}' :: rest) :=
      Statement.piecesFrom_append plain (Statement.piecesFrom_semicolon _ _)
    have outside : found? depthInFunction (' ' :: statement ++ [';']) = none := by
      refine found?_of_outside ?_
      have braceless : Block.Braceless (Text.indentation (' ' :: statement ++ [';'])) := by
        have whole : Block.Braceless (' ' :: statement ++ [';']) :=
          plain.braceless.append (by decide)
        exact fun character member => whole character ((List.takeWhile_prefix _).subset member)
      have braces := braces_after depthInFunction braceless
      rw [Depth.isInBody, braces]
      rfl
    have sameDepth : depthInFunction.after (' ' :: statement ++ [';']) = depthInFunction := by
      rw [Depth.after_append, Depth.after_plain _ plain rfl]
      rfl
    rw [shape, split, List.cons_append, ofPieces_cons_of_none outside, sameDepth, remaining]

end Body

end ClassOutline
