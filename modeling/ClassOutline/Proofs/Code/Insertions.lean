import ClassOutline.Proofs.Code.Texts
import ClassOutline.Proofs.Mask.Seam
import ClassOutline.Proofs.Member.Outside
import ClassOutline.Proofs.Scan.Locality
/-!
# Insertions

An insertion puts its text in front of a line of a source and moves the lines from there on down.
The insertions of generated code, one after the other, put one text in front of the closing brace of
a class and another one behind the line of that brace.
-/

namespace ClassOutline

/-! ## Lines of texts put together -/

namespace Text

theorem length_lines_newline (front : Text) :
    (lines (front ++ ['\n'])).length = lineBreaks (front ++ ['\n']) := by
  induction front with
  | nil => rfl
  | cons first front hypothesis =>
    rw [lineBreaks] at hypothesis ⊢
    rw [List.cons_append, lines, List.count_cons]
    by_cases isBreak : first = '\n'
    · simp [isBreak, hypothesis]
    · cases shape : lines (front ++ ['\n']) with
      | nil =>
        have whole := flatten_lines (front ++ ['\n'])
        simp [shape] at whole
      | cons part parts =>
        rw [shape] at hypothesis
        simpa [isBreak, consToFirst] using hypothesis

/-- Whole lines are as many as the line feeds in them. -/
theorem WholeLines.length_lines
    {text : Text}
    (wholeLines : text.WholeLines) :
    text.lines.length = text.lineBreaks := by
  rcases wholeLines.eq_nil_or with rfl | ⟨front, rfl⟩
  · rfl
  · exact length_lines_newline front

/--
The text is one line in front of what follows it.  The last line of a text may lack the line feed at
its end.
-/
def IsLineBefore (behind line : Text) : Prop :=
  (∃ front, '\n' ∉ front ∧ line = front ++ ['\n']) ∨ ('\n' ∉ line ∧ behind = [])

/-- A text begins with a line. -/
theorem exists_isLineBefore (text : Text) :
    ∃ line behind, text = line ++ behind ∧ IsLineBefore behind line := by
  by_cases hasBreak : '\n' ∈ text
  · obtain ⟨start, behind, rfl, noBreak⟩ := List.eq_append_cons_of_mem hasBreak
    exact ⟨start ++ ['\n'], behind, by simp, .inl ⟨start, noBreak, rfl⟩⟩
  · exact ⟨text, [], by simp, .inr ⟨hasBreak, rfl⟩⟩

/-- A line becomes longer at its start by a text that ends no line. -/
theorem IsLineBefore.append
    {front line behind : Text}
    (isLine : IsLineBefore behind line)
    (noBreak : '\n' ∉ front) :
    IsLineBefore behind (front ++ line) := by
  rcases isLine with ⟨start, noBreakStart, rfl⟩ | ⟨noBreakLine, rfl⟩
  · exact .inl ⟨front ++ start, by simp [noBreak, noBreakStart], by simp⟩
  · exact .inr ⟨by simp [noBreak, noBreakLine], rfl⟩

end Text

/-! ## Insertions -/

namespace Insertion

/-- The source with the text put in at the start of the line. -/
def applyTo (source : Text) (insertion : Insertion) : Text :=
  (source.lines.take insertion.line).flatten ++ insertion.text ++
    (source.lines.drop insertion.line).flatten

/-- Where a line of the source lies after the text was put in. -/
def lineAfter (line : Nat) (insertion : Insertion) : Nat :=
  if insertion.line ≤ line then line + insertion.text.lineBreaks else line

section WholeLines

variable {insertion : Insertion} {front line behind : Text}

/-- The text is put in behind as many lines as the insertion names. -/
theorem applyTo_append
    (wholeLines : front.WholeLines)
    (isLine : front.lineBreaks = insertion.line) :
    applyTo (front ++ behind) insertion = front ++ insertion.text ++ behind := by
  have length := wholeLines.length_lines
  rw [isLine] at length
  rw [applyTo, Text.lines_append wholeLines, List.take_left' length, List.drop_left' length,
    Text.flatten_lines, Text.flatten_lines]

/-- Behind the last line, the text is put in at the end. -/
theorem applyTo_append_line
    (wholeLines : front.WholeLines)
    (isNextLine : front.lineBreaks + 1 = insertion.line)
    (isLine : Text.IsLineBefore behind line) :
    applyTo (front ++ (line ++ behind)) insertion =
      front ++ (line ++ (insertion.text ++ behind)) := by
  rcases isLine with ⟨start, noBreak, rfl⟩ | ⟨noBreak, rfl⟩
  · have reached : (front ++ (start ++ ['\n'])).lineBreaks = insertion.line := by
      have startBreaks : start.lineBreaks = 0 := List.count_eq_zero.mpr noBreak
      rw [← isNextLine, Text.lineBreaks_append, Text.lineBreaks_append, startBreaks]
      rfl
    have wholeStart : (front ++ (start ++ ['\n'])).WholeLines := by
      rw [← List.append_assoc]
      exact Text.wholeLines_append_newline _
    rw [← List.append_assoc, applyTo_append wholeStart reached]
    simp only [List.append_assoc]
  · have allLines : (Text.lines (front ++ line)).length ≤ insertion.line := by
      rw [Text.lines_append wholeLines, List.length_append, wholeLines.length_lines, ← isNextLine]
      exact Nat.add_le_add_left (Text.length_lines_le_one noBreak) _
    rw [List.append_nil, List.append_nil, applyTo, List.take_of_length_le allLines,
      List.drop_of_length_le allLines, Text.flatten_lines, List.flatten_nil, List.append_nil,
      List.append_assoc]

end WholeLines

end Insertion

/-- The outline of the same class after a text was put in. -/
def Outline.movedBy (outline : Outline) (insertion : Insertion) : Outline :=
  { outline with
    startLine := insertion.lineAfter outline.startLine
    endLine := insertion.lineAfter outline.endLine }

/-- Texts put in one after the other move the lines of an outline and nothing else. -/
theorem Outline.foldl_movedBy
    (outline : Outline)
    (insertions : List Insertion) :
    insertions.foldl movedBy outline =
      { outline with
        startLine := insertions.foldl Insertion.lineAfter outline.startLine
        endLine := insertions.foldl Insertion.lineAfter outline.endLine } := by
  induction insertions generalizing outline with
  | nil => rfl
  | cons insertion insertions hypothesis =>
    rw [List.foldl_cons, hypothesis]
    rfl

/-- The scan of the same classes after texts were put in, one after the other. -/
def Scan.movedBy (scan : Scan) (insertions : List Insertion) : Scan :=
  { scan with
    outlines := scan.outlines.map fun outline => insertions.foldl Outline.movedBy outline }

/-! ## Insertions of generated code -/

namespace GeneratedCode

/-- The insertions of code: where there is any, the code behind the class comes first. -/
theorem insertions_eq
    (code : GeneratedCode)
    (outline : Outline) :
    code.insertions outline =
      (code.definition?.map fun definition =>
        { line := outline.endLine + 1, text := definition }).toList ++
          [{ line := outline.endLine, text := code.inner }] := by
  cases code <;> rfl

/-- The insertions put the code around the line of the closing brace. -/
theorem applyTo_insertions
    {outline : Outline}
    {front closing behind : Text}
    (code : GeneratedCode)
    (wholeLines : front.WholeLines)
    (isEndLine : front.lineBreaks = outline.endLine)
    (isLine : Text.IsLineBefore behind closing) :
    (code.insertions outline).foldl Insertion.applyTo (front ++ (closing ++ behind)) =
      front ++ code.inner ++ (closing ++ (code.outer ++ behind)) := by
  have putBehind : (code.definition?.map fun definition =>
      ({ line := outline.endLine + 1, text := definition } : Insertion)).toList.foldl
        Insertion.applyTo (front ++ (closing ++ behind)) =
      front ++ (closing ++ (code.outer ++ behind)) := by
    rw [outer]
    cases code.definition? with
    | none => rfl
    | some definition =>
      exact @Insertion.applyTo_append_line ⟨outline.endLine + 1, definition⟩ _ _ _ wholeLines
        (congrArg (· + 1) isEndLine) isLine
  rw [insertions_eq, List.foldl_append, putBehind]
  exact @Insertion.applyTo_append ⟨outline.endLine, code.inner⟩ _ _ wholeLines isEndLine

/-- Lines in front of that of the closing brace stay where they are. -/
theorem lineAfter_insertions_of_lt
    {outline : Outline}
    {line : Nat}
    (code : GeneratedCode)
    (before : line < outline.endLine) :
    (code.insertions outline).foldl Insertion.lineAfter line = line := by
  have stays {text : Text} {place : Nat} (later : line < place) :
      Insertion.lineAfter line ⟨place, text⟩ = line := if_neg (Nat.not_le.mpr later)
  rw [insertions_eq, List.foldl_append]
  cases code.definition? with
  | none => exact stays before
  | some definition =>
    simp only [Option.map_some, Option.toList_some, List.foldl_cons, List.foldl_nil]
    rw [stays (Nat.lt_succ_of_lt before), stays before]

/-- The line of the closing brace moves down by the code in the body. -/
theorem lineAfter_insertions_endLine
    (code : GeneratedCode)
    (outline : Outline) :
    (code.insertions outline).foldl Insertion.lineAfter outline.endLine =
      outline.endLine + code.inner.lineBreaks := by
  have moves : Insertion.lineAfter outline.endLine ⟨outline.endLine, code.inner⟩ =
      outline.endLine + code.inner.lineBreaks := if_pos (Nat.le_refl _)
  rw [insertions_eq, List.foldl_append]
  cases code.definition? with
  | none => exact moves
  | some definition =>
    have stays : Insertion.lineAfter outline.endLine ⟨outline.endLine + 1, definition⟩ =
        outline.endLine := if_neg (Nat.not_le.mpr (Nat.lt_succ_self _))
    simp only [Option.map_some, Option.toList_some, List.foldl_cons, List.foldl_nil]
    rw [stays, moves]

/-- The lines behind that of the closing brace move down by all the code. -/
theorem lineAfter_insertions_of_gt
    {outline : Outline}
    {line : Nat}
    (code : GeneratedCode)
    (behind : outline.endLine < line) :
    (code.insertions outline).foldl Insertion.lineAfter line =
      line + (code.inner.lineBreaks + code.outer.lineBreaks) := by
  have moves {text : Text} {reached place : Nat} (earlier : place ≤ reached) :
      Insertion.lineAfter reached ⟨place, text⟩ = reached + text.lineBreaks := if_pos earlier
  rw [insertions_eq, List.foldl_append, outer]
  cases code.definition? with
  | none =>
    exact moves (Nat.le_of_lt behind)
  | some definition =>
    simp only [Option.map_some, Option.toList_some, List.foldl_cons, List.foldl_nil,
      Option.getD_some]
    rw [moves behind, moves (by omega)]
    omega

section Outlines

variable {outline other : Outline}

/-- Outlines in front of the closing brace stay as they are. -/
theorem movedBy_insertions_of_lt
    (code : GeneratedCode)
    (ordered : other.startLine ≤ other.endLine)
    (before : other.endLine < outline.endLine) :
    (code.insertions outline).foldl Outline.movedBy other = other := by
  rw [Outline.foldl_movedBy, code.lineAfter_insertions_of_lt before,
    code.lineAfter_insertions_of_lt (Nat.lt_of_le_of_lt ordered before)]

/-- The outline of the class becomes longer by the code in the body. -/
theorem movedBy_insertions_self
    (code : GeneratedCode)
    (ordered : outline.startLine < outline.endLine) :
    (code.insertions outline).foldl Outline.movedBy outline =
      { outline with endLine := outline.endLine + code.inner.lineBreaks } := by
  rw [Outline.foldl_movedBy, code.lineAfter_insertions_endLine,
    code.lineAfter_insertions_of_lt ordered]

/-- Outlines behind the line of the closing brace move down by all the code. -/
theorem movedBy_insertions_of_gt
    (code : GeneratedCode)
    (ordered : other.startLine ≤ other.endLine)
    (behind : outline.endLine < other.startLine) :
    (code.insertions outline).foldl Outline.movedBy other =
      other.moveDown (code.inner.lineBreaks + code.outer.lineBreaks) := by
  rw [Outline.foldl_movedBy, code.lineAfter_insertions_of_gt behind,
    code.lineAfter_insertions_of_gt (Nat.lt_of_lt_of_le behind ordered)]
  rfl

end Outlines

end GeneratedCode

/-! ## Visibility of inserted code -/

namespace Code.UnnoticedCode

variable {code : GeneratedCode} {front closing behind : Text}

/-- The code brings no slash into a text. -/
theorem slash_not_mem
    (unnoticed : UnnoticedCode code)
    (noSlash : '/' ∉ front ++ '}' :: (closing ++ behind)) :
    '/' ∉ front ++ code.inner ++ '}' :: (closing ++ (code.outer ++ behind)) := by
  have noSlashInner := unnoticed.idleInner.noSlash
  have noSlashOuter := unnoticed.idleOuter.noSlash
  simp only [List.mem_append, List.mem_cons, not_or] at noSlash ⊢
  obtain ⟨noSlashFront, notBrace, noSlashClosing, noSlashBehind⟩ := noSlash
  exact ⟨⟨noSlashFront, noSlashInner⟩, notBrace, noSlashClosing, noSlashOuter, noSlashBehind⟩

/-- The code behind a class declares no friend class, nor does it complete such a declaration. -/
theorem lacks_friendClass_outer
    (unnoticed : UnnoticedCode code)
    (lacks : Text.Lacks (closing ++ behind) "friend".toList) :
    Text.Lacks (closing ++ (code.outer ++ behind)) Mask.friendClass := by
  have isInfix : "friend".toList <:+: Mask.friendClass := by decide
  rcases unnoticed.outerEnds with isEmpty | ⟨front, last, -, shape⟩
  · rw [isEmpty, List.nil_append]
    exact fun occurs => lacks (isInfix.trans occurs)
  · have foreign : '\n' ∉ Mask.friendClass := by decide
    have cut : closing ++ (code.outer ++ behind) =
        closing ++ (front ++ [last]) ++ '\n' :: behind := by
      simp [shape]
    have lacksClass : Text.Lacks (front ++ [last]) "class".toList :=
      (unnoticed.idleOuter.calm.lacks _ (by decide)).of_isInfix
        (List.IsPrefix.isInfix ⟨['\n'], by simp [shape]⟩)
    have lacksClosing := lacks.of_isInfix (List.prefix_append closing behind).isInfix
    have lacksBehind := lacks.of_isInfix (List.suffix_append closing behind).isInfix
    rw [cut, Text.lacks_append_cons _ _ foreign]
    exact ⟨Mask.lacks_friendClass_append lacksClosing lacksClass,
      fun occurs => lacksBehind (isInfix.trans occurs)⟩

/-- The code brings no friend class into a text without friends. -/
theorem lacks_friendClass
    (unnoticed : UnnoticedCode code)
    (lacks : Text.Lacks (front ++ '}' :: (closing ++ behind)) "friend".toList) :
    Text.Lacks (front ++ code.inner ++ '}' :: (closing ++ (code.outer ++ behind)))
      Mask.friendClass := by
  have foreign : '}' ∉ "friend".toList ∧ '}' ∉ Mask.friendClass := by decide
  rw [Text.lacks_append_cons _ _ foreign.1] at lacks
  rw [Text.lacks_append_cons _ _ foreign.2]
  exact ⟨Mask.lacks_friendClass_append lacks.1 (unnoticed.idleInner.calm.lacks _ (by decide)),
    unnoticed.lacks_friendClass_outer lacks.2⟩

end Code.UnnoticedCode

end ClassOutline
