import ClassOutline.Proofs.Member.Outside
import ClassOutline.Proofs.Written.Name
/-!
# Members and their siblings

A text is put between the line `class N {` and a closing brace.  It is read at the depth of the
body, line by line, and nothing but the depth passes from one line to the next.  Even lines lead
back to that depth.  So the members read behind them are the same as if they were not there, and
the members read in them are the same as if nothing followed.
-/

namespace ClassOutline

namespace Body

/-- Behind whole lines, a text is read at the depth to which they lead. -/
theorem ofRest_append
    {front : Text}
    (wholeLines : front.WholeLines)
    (depth : Depth)
    (behind : Text) :
    ofRest depth (front ++ behind) = ofRest depth front ++ ofRest (depth.after front) behind := by
  rw [ofRest, Text.lines_append wholeLines, List.flatMap_append, ofPieces_append,
    Statement.flatten_flatMap_pieces]
  rfl

/-- Behind even lines, a text is read at the depth of the body again. -/
theorem ofRest_evenLines_append
    {front : Text}
    (evenLines : front.EvenLines)
    (behind : Text) :
    ofRest depthInBody (front ++ behind) =
      ofRest depthInBody front ++ ofRest depthInBody behind := by
  rw [ofRest_append evenLines.wholeLines, Depth.after_evenLines rfl evenLines]

/-- The brace behind a body declares nothing. -/
theorem ofRest_closingBrace (depth : Depth) : ofRest depth ['}'] = {} := by
  refine ofPieces_of_declaresNothing (fun piece isPiece => ?_) depth
  obtain rfl := List.mem_singleton.mp isPiece
  exact declaresNothing_of_noShape (by decide)

end Body

namespace Written

/-- A text put into a class with a given name. -/
def classAround (name body : Text) : Text :=
  "class".toList ++ ' ' :: (name ++ [' ', '{', '\n'] ++ body ++ ['}'])

/-- The text is read in the body of the class. -/
theorem ofText_classAround
    {name : Text}
    (isWord : IsWord name)
    (body : Text) :
    Body.ofText (classAround name body) = Body.ofRest Body.depthInBody (body ++ ['}']) := by
  have namePlain : Statement.Plain name := fun character member =>
    cuts_eq_false_of_isNameCharacter (isWord.2 character member)
  have blankPlain : Statement.Plain [' '] := by decide
  have headPlain : Statement.Plain ([' '] ++ name ++ [' ']) :=
    (blankPlain.append namePlain).append blankPlain
  have shape : classAround name body =
      "class".toList ++ ([' '] ++ name ++ [' ']) ++ '{' :: '\n' :: (body ++ ['}']) := by
    unfold classAround
    exact (congrArg ("class".toList ++ ·) (by simp)).trans (List.append_assoc _ _ _).symm
  have isKeyword : "class".toList ∈ Block.declarationWords := by decide
  have delimited : ([' '] ++ name ++ [' ']).head?.any Reserved.isDelimiter = true := by
    rw [List.append_assoc, List.singleton_append, List.head?_cons]
    decide
  rw [shape, Body.ofText_head_append isKeyword delimited headPlain]

/--
The members of a text behind even lines are those of the lines, and then those of the text put into
the class alone.  No declaration is left unresolved on account of the other part.
-/
theorem ofText_classAround_append
    {name front : Text}
    (isWord : IsWord name)
    (evenLines : front.EvenLines)
    (behind : Text) :
    (Body.ofText (classAround name (front ++ behind))).members =
        (Body.ofText (classAround name front)).members ++
          (Body.ofText (classAround name behind)).members ∧
      (Body.ofText (classAround name (front ++ behind))).unresolved =
        (Body.ofText (classAround name front)).unresolved +
          (Body.ofText (classAround name behind)).unresolved := by
  have alone : Body.ofText (classAround name front) = Body.ofRest Body.depthInBody front := by
    rw [ofText_classAround isWord, Body.ofRest_evenLines_append evenLines,
      Body.ofRest_closingBrace, Body.append_nil]
  have both : Body.ofText (classAround name (front ++ behind)) =
      Body.ofText (classAround name front) ++ Body.ofText (classAround name behind) := by
    rw [alone, ofText_classAround isWord, ofText_classAround isWord, List.append_assoc,
      Body.ofRest_evenLines_append evenLines]
  rw [both]
  exact ⟨Body.members_append _ _, Body.unresolved_append _ _⟩

/-- A brace in a literal and an unresolved line in front, a parameter list on two lines behind. -/
theorem ofText_classAround_append_literal :
    let front : Text := "char open = '\x7b';\nmap<int, x;\n".toList
    let behind : Text := "void f(int b,\nint c);\nbool d;\n".toList
    let body := Body.ofText (classAround "N".toList (front ++ behind))
    IsWord "N".toList ∧ front.EvenLines ∧
      body.members.map DataMember.name = ["open".toList, "d".toList] ∧ body.unresolved = 1 := by
  intro front behind body
  have isWord : IsWord "N".toList := by decide
  have evenLines : front.EvenLines := ⟨by decide, by decide, by decide⟩
  obtain ⟨members, unresolved⟩ := ofText_classAround_append isWord evenLines behind
  refine ⟨isWord, evenLines, ?_, ?_⟩
  · rw [members]
    decide
  · rw [unresolved]
    decide

end Written

end ClassOutline
