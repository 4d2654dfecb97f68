import ClassOutline.Proofs.Code.Agreement
import ClassOutline.Proofs.Code.Insertions
import ClassOutline.Proofs.Written.ClassFile
import ClassOutline.Proofs.Written.InertClass
/-!
# Generated code in written files

A class with unnoticed code around its closing brace still shows what was written of it.  So a
written file with generated code for one of its classes is made of classes in place like the file
without it, and its scan gives the same outlines on the lines to which they have moved.
-/

namespace ClassOutline.Written

open Code

variable {barred : List Text}

/-! ## Classes up to the closing brace -/

namespace ClassModel

/-- The text of the class up to the closing brace. -/
def opening (model : ClassModel barred) : Text :=
  model.templateLine ++ (model.line.word ++ model.line.head ++ '{' :: model.body)

theorem exists_body_eq (model : ClassModel barred) :
    ∃ front, model.body = front ++ ['\n'] := by
  rcases List.eq_nil_or_concat model.memberLines with isEmpty | ⟨lines, last, shape⟩
  · exact ⟨[], by rw [body, isEmpty]; rfl⟩
  · refine ⟨'\n' :: ((lines.map MemberLine.text).flatMap (· ++ [';', '\n']) ++ last.text ++ [';']),
      ?_⟩
    simp [body, shape]

/-- The closing brace stands at the start of a line. -/
theorem exists_opening_eq (model : ClassModel barred) :
    ∃ front, model.opening = front ++ ['\n'] := by
  obtain ⟨front, shape⟩ := model.exists_body_eq
  refine ⟨model.templateLine ++ (model.line.word ++ model.line.head ++ '{' :: front), ?_⟩
  rw [opening, shape]
  simp

theorem lineBreaks_opening (model : ClassModel barred) :
    model.opening.lineBreaks = model.templateLine.lineBreaks + (model.memberLines.length + 1) := by
  have closing : Text.lineBreaks ['}'] = 0 := by decide
  have shape : model.opening ++ ['}'] = model.templateLine ++ model.declared.block := by
    simp [opening, Block.Declared.block, declared]
  have whole := congrArg Text.lineBreaks shape
  rwa [Text.lineBreaks_append, closing, Nat.add_zero, Text.lineBreaks_append,
    model.lineBreaks_block] at whole

/-- The declaration of the class with an idle text in front of the closing brace. -/
def declaredWith
    {text : Text}
    (model : ClassModel barred)
    (idle : Idle text) :
    Block.Declared :=
  { model.declared with
    body := model.body ++ text
    bodyLacks := fun other isOther => by
      obtain ⟨front, shape⟩ := model.exists_body_eq
      have foreign : ∀ other ∈ Block.declarationWords, '\n' ∉ other := by decide
      have bodyLacks : Text.Lacks model.body other := model.declared.bodyLacks other isOther
      rw [shape] at bodyLacks ⊢
      rw [List.append_assoc, List.singleton_append,
        Text.lacks_append_cons _ _ (foreign other isOther)]
      exact ⟨bodyLacks.of_isInfix (List.prefix_append _ _).isInfix, idle.calm.lacks other isOther⟩
    bodyNested := model.braceless_body.nested.append idle.nested }

theorem lineBreaks_declaredWith
    {text : Text}
    (model : ClassModel barred)
    (idle : Idle text) :
    (model.declaredWith idle).block.lineBreaks =
      model.memberLines.length + 1 + text.lineBreaks := by
  have closing : Text.lineBreaks ['}'] = 0 := by decide
  have shape : model.templateLine ++ (model.declaredWith idle).block =
      model.opening ++ (text ++ ['}']) := by
    simp [opening, Block.Declared.block, declaredWith, declared]
  have whole := congrArg Text.lineBreaks shape
  rw [Text.lineBreaks_append, Text.lineBreaks_append, Text.lineBreaks_append, closing,
    model.lineBreaks_opening] at whole
  omega

/-- With the code, the outline is that of the class with the code in its body. -/
theorem movedBy_insertions_outline
    {code : GeneratedCode}
    (options : ScanOptions)
    (startLine : Nat)
    (model : ClassModel barred)
    (idle : Idle code.inner) :
    (code.insertions (model.outline options startLine)).foldl Outline.movedBy
        (model.outline options startLine) =
      model.outlineIn options startLine (model.declaredWith idle) := by
  have ordered : (model.outline options startLine).startLine <
      (model.outline options startLine).endLine :=
    Nat.lt_add_of_pos_right (Nat.succ_pos _)
  rw [code.movedBy_insertions_self ordered, outlineIn, model.lineBreaks_declaredWith,
    ← Nat.add_assoc startLine]
  rfl

end ClassModel

/-! ## Classes with code -/

namespace ClassEntry

variable {code : GeneratedCode} {line rest : Text}

/--
The gap is cut at the end of the line on which the class ends.  A class may stand behind it on a
later line only.
-/
theorem exists_split
    {entry : ClassEntry barred}
    {after : List (ClassEntry barred)}
    (endsLine : after ≠ [] → '\n' ∈ entry.gap) :
    ∃ line rest, entry.gap = line ++ rest ∧
      Text.IsLineBefore (rest ++ after.flatMap text) line ∧
      (after ≠ [] → ∃ start, line = start ++ ['\n']) := by
  by_cases hasBreak : '\n' ∈ entry.gap
  · obtain ⟨start, rest, shape, noBreak⟩ := List.eq_append_cons_of_mem hasBreak
    exact ⟨start ++ ['\n'], rest, by simp [shape], .inl ⟨start, noBreak, rfl⟩,
      fun _ => ⟨start, rfl⟩⟩
  · have isLast : after = [] := by_contra fun notEmpty => hasBreak (endsLine notEmpty)
    refine ⟨entry.gap, [], by simp, .inr ⟨hasBreak, by simp [isLast]⟩, fun notEmpty => ?_⟩
    exact absurd isLast notEmpty

theorem isGap_of_split
    {entry : ClassEntry barred}
    (split : entry.gap = line ++ rest) :
    (∀ character ∈ line, Reserved.isGapCharacter character = true) ∧
      ∀ character ∈ rest, Reserved.isGapCharacter character = true :=
  ⟨fun character member => entry.isGap character (split ▸ List.mem_append_left _ member),
    fun character member => entry.isGap character (split ▸ List.mem_append_right _ member)⟩

/-- The class as it stands in the file with unnoticed code around its closing brace. -/
def placedWith
    (entry : ClassEntry barred)
    (prefixBarred : "_STD".toList ∈ barred)
    (unnoticed : UnnoticedCode code)
    (split : entry.gap = line ++ rest) :
    PlacedClass barred where
  model := entry.model
  declared := entry.model.declaredWith unnoticed.idleInner
  ending := ';' :: line ++ (code.outer ++ rest)
  shown := ClassModel.shownBy_of_body (entry.noPrefix prefixBarred) rfl rfl rfl unnoticed.silent
  calm := by
    obtain ⟨isGapLine, isGapRest⟩ := isGap_of_split split
    exact (PlacedClass.calm_semicolon_gap isGapLine).1.append
      (unnoticed.idleOuter.calm.append (PlacedClass.calm_gap isGapRest).1)
  closed := by
    obtain ⟨isGapLine, isGapRest⟩ := isGap_of_split split
    rw [Block.braces_append, Block.braces_append, unnoticed.idleOuter.nested.closed,
      (PlacedClass.calm_semicolon_gap isGapLine).2.braces_eq_zero,
      (PlacedClass.calm_gap isGapRest).2.braces_eq_zero]
    rfl

theorem text_eq_opening
    {entry : ClassEntry barred}
    (split : entry.gap = line ++ rest) :
    entry.text = entry.model.opening ++ ('}' :: ';' :: line ++ rest) := by
  simp [text, ClassModel.text, ClassModel.opening, split]

theorem lineBreaks_text
    {entry : ClassEntry barred}
    (split : entry.gap = line ++ rest) :
    entry.text.lineBreaks =
      entry.model.opening.lineBreaks + (line.lineBreaks + rest.lineBreaks) := by
  have marks : Text.lineBreaks ['}', ';'] = 0 := by decide
  have shape : entry.text = entry.model.opening ++ (['}', ';'] ++ (line ++ rest)) := by
    rw [text_eq_opening split]
    simp
  rw [shape, Text.lineBreaks_append, Text.lineBreaks_append, Text.lineBreaks_append, marks,
    Nat.zero_add]

section WithCode

variable (entry : ClassEntry barred) (prefixBarred : "_STD".toList ∈ barred)
  (unnoticed : UnnoticedCode code) (split : entry.gap = line ++ rest)

theorem text_placedWith :
    (entry.placedWith prefixBarred unnoticed split).text =
      entry.model.opening ++ code.inner ++ ('}' :: ';' :: line ++ (code.outer ++ rest)) := by
  simp [PlacedClass.text, placedWith, Block.Declared.block, ClassModel.declaredWith,
    ClassModel.declared, ClassModel.opening]

/-- The code adds its lines to those of the class. -/
theorem lineBreaks_placedWith :
    (entry.placedWith prefixBarred unnoticed split).text.lineBreaks =
      entry.text.lineBreaks + (code.inner.lineBreaks + code.outer.lineBreaks) := by
  rw [text_placedWith, text_eq_opening split]
  simp only [Text.lineBreaks_append]
  omega

/-- With the insertions, the outline of the class becomes that of the class with the code. -/
theorem movedBy_insertions_outlineIn
    {options : ScanOptions}
    {startLine : Nat}
    {outline : Outline}
    (isOutline : outline = entry.model.outline options startLine) :
    (code.insertions outline).foldl Outline.movedBy
        ((entry.placed prefixBarred).model.outlineIn options startLine
          (entry.placed prefixBarred).declared) =
      (entry.placedWith prefixBarred unnoticed split).model.outlineIn options startLine
        (entry.placedWith prefixBarred unnoticed split).declared := by
  have isOld : (entry.placed prefixBarred).model.outlineIn options startLine
      (entry.placed prefixBarred).declared = entry.model.outline options startLine :=
    entry.model.outlineIn_declared options startLine
  rw [isOld, isOutline, entry.model.movedBy_insertions_outline options startLine
    unnoticed.idleInner]
  rfl

/-- Behind a class with code, another class may be written on a later line. -/
theorem ready_placedWith
    {start : Text}
    (endsLine : line = start ++ ['\n'])
    (past : Text) :
    Ready ((entry.placedWith prefixBarred unnoticed split).text.reverse ++ past) := by
  rw [text_placedWith]
  rcases unnoticed.outerEnds with isEmpty | ⟨front, last, isLast, shape⟩
  · have reversed : (entry.model.opening ++ code.inner ++
        ('}' :: ';' :: line ++ (code.outer ++ rest))).reverse ++ past =
        entry.gap.reverse ++ ';' ::
          ((entry.model.opening ++ code.inner ++ ['}']).reverse ++ past) := by
      simp [isEmpty, split]
    have notEmpty : entry.gap ≠ [] := by simp [split, endsLine]
    rw [reversed]
    exact Ready.of_gap
      (fun character member => entry.isGap character (List.mem_reverse.mp member))
      (by simpa using notEmpty) (by decide)
  · have reversed : (entry.model.opening ++ code.inner ++
        ('}' :: ';' :: line ++ (code.outer ++ rest))).reverse ++ past =
        (rest.reverse ++ ['\n']) ++ last ::
          ((entry.model.opening ++ code.inner ++ '}' :: ';' :: line ++ front).reverse ++ past) := by
      simp [shape]
    have isGapBehind : ∀ character ∈ rest.reverse ++ ['\n'],
        Reserved.isGapCharacter character = true := by
      intro character member
      rcases List.mem_append.mp member with inRest | isBreak
      · exact (isGap_of_split split).2 character (List.mem_reverse.mp inRest)
      · exact List.mem_singleton.mp isBreak ▸ by decide
    have ends : ∀ last ∈ [';', '}'], last ∈ [';', '{', '}'] := by decide
    rw [reversed]
    exact Ready.of_gap isGapBehind (by simp) (ends last isLast)

/-- The insertions turn the class into the class with the code. -/
theorem applyTo_insertions
    {past future : Text}
    {outline : Outline}
    (isLine : Text.IsLineBefore (rest ++ future) line)
    (isEndLine : (past ++ entry.model.opening).lineBreaks = outline.endLine) :
    (code.insertions outline).foldl Insertion.applyTo (past ++ (entry.text ++ future)) =
      past ++ ((entry.placedWith prefixBarred unnoticed split).text ++ future) := by
  obtain ⟨front, shape⟩ := entry.model.exists_opening_eq
  have isClosingLine : Text.IsLineBefore (rest ++ future) ('}' :: ';' :: line) :=
    @Text.IsLineBefore.append ['}', ';'] _ _ isLine (by decide)
  have isFrontLine : (past ++ front ++ ['\n']).lineBreaks = outline.endLine := by
    rw [← isEndLine, shape, List.append_assoc]
  have applied :=
    code.applyTo_insertions (Text.wholeLines_append_newline _) isFrontLine isClosingLine
  rw [text_placedWith, text_eq_opening split, shape]
  simpa using applied

/-- Nothing is hidden in a text in which a class has unnoticed code. -/
theorem visible_placedWith
    {past future : Text}
    (noSlash : '/' ∉ past ++ (entry.text ++ future))
    (lacks : Text.Lacks (past ++ (entry.text ++ future)) "friend".toList) :
    Mask.visible (past ++ ((entry.placedWith prefixBarred unnoticed split).text ++ future)) =
      past ++ ((entry.placedWith prefixBarred unnoticed split).text ++ future) := by
  have without : past ++ (entry.text ++ future) =
      past ++ entry.model.opening ++ '}' :: (';' :: line ++ (rest ++ future)) := by
    rw [text_eq_opening split]
    simp
  have withCode : past ++ ((entry.placedWith prefixBarred unnoticed split).text ++ future) =
      past ++ entry.model.opening ++ code.inner ++
        '}' :: (';' :: line ++ (code.outer ++ (rest ++ future))) := by
    rw [text_placedWith]
    simp
  rw [without] at noSlash lacks
  rw [withCode, Mask.visible, Mask.hideComments_eq_self (unnoticed.slash_not_mem noSlash),
    Mask.hideFriends_eq_self (unnoticed.lacks_friendClass lacks)]

end WithCode

end ClassEntry

/-! ## The scan of a file with code -/

namespace PlacedClass

variable {code : GeneratedCode} {line rest : Text} {before after : List (PlacedClass barred)}

/-- Classes in front of the code stay where they are. -/
theorem map_movedBy_of_lt
    {options : ScanOptions}
    {start : Nat}
    {outline : Outline}
    (code : GeneratedCode)
    (behind : start + Text.lineBreaks (before.flatMap text) < outline.endLine) :
    ((outlinesFrom options start before).map fun other =>
        (code.insertions outline).foldl Outline.movedBy other) =
      outlinesFrom options start before := by
  have each : ∀ other ∈ outlinesFrom options start before,
      (code.insertions outline).foldl Outline.movedBy other = other := by
    intro other member
    obtain ⟨-, ordered, bounded⟩ := lines_of_mem_outlinesFrom member
    exact code.movedBy_insertions_of_lt ordered (Nat.lt_of_le_of_lt bounded behind)
  exact (List.map_congr_left each).trans (List.map_id' _)

/-- Classes on later lines move down by all the code. -/
theorem map_movedBy_of_gt
    {options : ScanOptions}
    {start : Nat}
    {outline : Outline}
    (code : GeneratedCode)
    (before : after ≠ [] → outline.endLine < start) :
    ((outlinesFrom options start after).map fun other =>
        (code.insertions outline).foldl Outline.movedBy other) =
      outlinesFrom options (start + (code.inner.lineBreaks + code.outer.lineBreaks)) after := by
  rw [outlinesFrom_add]
  refine List.map_congr_left fun other member => ?_
  have notEmpty : after ≠ [] := fun isEmpty => by simp [isEmpty, outlinesFrom] at member
  obtain ⟨bounded, ordered, -⟩ := lines_of_mem_outlinesFrom member
  exact code.movedBy_insertions_of_gt ordered (Nat.lt_of_lt_of_le (before notEmpty) bounded)

/-- Unnoticed code moves the outlines of the classes and does not change them otherwise. -/
theorem outlinesFrom_placedWith
    {options : ScanOptions}
    {start : Nat}
    {entry : ClassEntry barred}
    {outline : Outline}
    (prefixBarred : "_STD".toList ∈ barred)
    (unnoticed : UnnoticedCode code)
    (split : entry.gap = line ++ rest)
    (endsLine : after ≠ [] → '\n' ∈ line)
    (isOutline : outline = entry.model.outline options
      (start + Text.lineBreaks (before.flatMap text) + entry.model.templateLine.lineBreaks)) :
    outlinesFrom options start (before ++ entry.placedWith prefixBarred unnoticed split :: after) =
      (outlinesFrom options start (before ++ entry.placed prefixBarred :: after)).map
        fun other => (code.insertions outline).foldl Outline.movedBy other := by
  have opening := entry.model.lineBreaks_opening
  have endLine : outline.endLine =
      start + Text.lineBreaks (before.flatMap text) + entry.model.opening.lineBreaks := by
    rw [isOutline, opening, ← Nat.add_assoc]
    rfl
  have whole := ClassEntry.lineBreaks_text split
  have endsBefore (notEmpty : after ≠ []) : outline.endLine <
      start + Text.lineBreaks (before.flatMap text) + entry.text.lineBreaks := by
    have onLaterLine : 0 < line.lineBreaks := List.count_pos_iff.mpr (endsLine notEmpty)
    omega
  have grows := entry.movedBy_insertions_outlineIn prefixBarred unnoticed split isOutline
  -- The classes before stay, the class itself grows, and the classes after move down.
  rw [outlinesFrom_append, outlinesFrom_append, List.map_append,
    map_movedBy_of_lt code (by omega), outlinesFrom, outlinesFrom, List.map_cons,
    entry.text_placed, map_movedBy_of_gt code endsBefore, entry.lineBreaks_placedWith,
    ← Nat.add_assoc _ entry.text.lineBreaks]
  exact congrArg (fun first => _ ++ first :: _) grows.symm

end PlacedClass

namespace ClassFile

/-- Moving outlines does not change their counts. -/
theorem tallyOf_map_movedBy
    (insertions : List Insertion)
    (outlines : List Outline) :
    tallyOf (outlines.map fun outline => insertions.foldl Outline.movedBy outline) =
      tallyOf outlines := by
  have sameMembers (outline : Outline) :
      (insertions.foldl Outline.movedBy outline).members = outline.members := by
    rw [Outline.foldl_movedBy]
  rw [tallyOf, tallyOf, List.length_map, List.flatMap_map]
  simp only [sameMembers]

section WithCode

variable {file : ClassFile barred} {before after : List (ClassEntry barred)}
  {entry : ClassEntry barred} {code : GeneratedCode} {line rest : Text}

/-- The classes of a file in place, one of them with unnoticed code. -/
def classesWith
    (before after : List (ClassEntry barred))
    (prefixBarred : "_STD".toList ∈ barred)
    (unnoticed : UnnoticedCode code)
    (split : entry.gap = line ++ rest) :
    List (PlacedClass barred) :=
  before.map (·.placed prefixBarred) ++
    entry.placedWith prefixBarred unnoticed split :: after.map (·.placed prefixBarred)

theorem classes_eq_append
    (prefixBarred : "_STD".toList ∈ barred)
    (isEntry : file.entries = before ++ entry :: after) :
    file.classes prefixBarred = before.map (·.placed prefixBarred) ++
      entry.placed prefixBarred :: after.map (·.placed prefixBarred) := by
  rw [classes, isEntry, List.map_append, List.map_cons]

theorem text_eq_append (isEntry : file.entries = before ++ entry :: after) :
    file.text = file.leading ++ before.flatMap ClassEntry.text ++
      (entry.text ++ after.flatMap ClassEntry.text) := by
  simp [text, isEntry]

theorem flatMap_text_classesWith
    (past : Text)
    (prefixBarred : "_STD".toList ∈ barred)
    (unnoticed : UnnoticedCode code)
    (split : entry.gap = line ++ rest) :
    past ++ (classesWith before after prefixBarred unnoticed split).flatMap PlacedClass.text =
      past ++ before.flatMap ClassEntry.text ++
        ((entry.placedWith prefixBarred unnoticed split).text ++
          after.flatMap ClassEntry.text) := by
  rw [classesWith, List.flatMap_append, List.flatMap_cons, flatMap_text_placed,
    flatMap_text_placed, List.append_assoc]

/-- The insertions turn the text of the file into that of the classes with the code. -/
theorem applyTo_insertions_text
    {outline : Outline}
    (prefixBarred : "_STD".toList ∈ barred)
    (isEntry : file.entries = before ++ entry :: after)
    (unnoticed : UnnoticedCode code)
    (split : entry.gap = line ++ rest)
    (isLine : Text.IsLineBefore (rest ++ after.flatMap ClassEntry.text) line)
    (isEndLine : Text.lineBreaks (file.leading ++ before.flatMap ClassEntry.text ++
      entry.model.opening) = outline.endLine) :
    (code.insertions outline).foldl Insertion.applyTo file.text = file.leading ++
      (classesWith before after prefixBarred unnoticed split).flatMap PlacedClass.text := by
  rw [text_eq_append isEntry, flatMap_text_classesWith]
  exact entry.applyTo_insertions prefixBarred unnoticed split isLine isEndLine

/-- Nothing is hidden in the text of the classes with the code. -/
theorem visible_classesWith
    (prefixBarred : "_STD".toList ∈ barred)
    (isEntry : file.entries = before ++ entry :: after)
    (unnoticed : UnnoticedCode code)
    (split : entry.gap = line ++ rest) :
    Mask.visible (file.leading ++
        (classesWith before after prefixBarred unnoticed split).flatMap PlacedClass.text) =
      file.leading ++
        (classesWith before after prefixBarred unnoticed split).flatMap PlacedClass.text := by
  obtain ⟨noSlash, lacks⟩ := file.lacks_text
  rw [text_eq_append isEntry] at noSlash lacks
  rw [flatMap_text_classesWith]
  exact entry.visible_placedWith prefixBarred unnoticed split noSlash lacks

theorem separated_classesWith
    (prefixBarred : "_STD".toList ∈ barred)
    (isEntry : file.entries = before ++ entry :: after)
    (unnoticed : UnnoticedCode code)
    (split : entry.gap = line ++ rest)
    (onLaterLine : after ≠ [] → ∃ start, line = start ++ ['\n']) :
    PlacedClass.Separated (classesWith before after prefixBarred unnoticed split) := by
  have separated := file.separated_classes prefixBarred
  rw [classes_eq_append prefixBarred isEntry] at separated
  refine separated.replace fun notEmpty past => ?_
  obtain ⟨start, endsLine⟩ := onLaterLine fun isEmpty => notEmpty (by rw [isEmpty, List.map_nil])
  exact entry.ready_placedWith prefixBarred unnoticed split endsLine past

/-- A file with unnoticed code for one of its classes has the same outlines on moved lines. -/
theorem ofSource_applyTo_insertions
    {options : ScanOptions}
    {outline : Outline}
    (virtualBarred : "virtual".toList ∈ barred)
    (prefixBarred : "_STD".toList ∈ barred)
    (endsLine : after ≠ [] → '\n' ∈ entry.gap)
    (isEntry : file.entries = before ++ entry :: after)
    (unnoticed : UnnoticedCode code)
    (isOutline : outline = entry.model.outline options
      (file.leading.lineBreaks + Text.lineBreaks (before.flatMap ClassEntry.text) +
        entry.model.templateLine.lineBreaks)) :
    Scan.ofSource options ((code.insertions outline).foldl Insertion.applyTo file.text) =
      (Scan.ofSource options file.text).movedBy (code.insertions outline) := by
  obtain ⟨line, rest, split, isLine, onLaterLine⟩ := ClassEntry.exists_split endsLine
  have isEndLine : Text.lineBreaks (file.leading ++ before.flatMap ClassEntry.text ++
      entry.model.opening) = outline.endLine := by
    rw [Text.lineBreaks_append, Text.lineBreaks_append, entry.model.lineBreaks_opening, isOutline,
      ← Nat.add_assoc]
    rfl
  have separated := separated_classesWith prefixBarred isEntry unnoticed split onLaterLine
  have visible := visible_classesWith prefixBarred isEntry unnoticed split
  have moved : PlacedClass.outlinesFrom options file.leading.lineBreaks
      (classesWith before after prefixBarred unnoticed split) =
      (PlacedClass.outlinesFrom options file.leading.lineBreaks
        (file.classes prefixBarred)).map
          fun other => (code.insertions outline).foldl Outline.movedBy other := by
    rw [classes_eq_append prefixBarred isEntry]
    refine PlacedClass.outlinesFrom_placedWith prefixBarred unnoticed split (fun notEmpty => ?_) ?_
    · obtain ⟨start, ends⟩ := onLaterLine fun isEmpty => notEmpty (by rw [isEmpty, List.map_nil])
      simp [ends]
    · rwa [flatMap_text_placed]
  rw [file.ofSource_text_eq options virtualBarred prefixBarred,
    applyTo_insertions_text prefixBarred isEntry unnoticed split isLine isEndLine,
    PlacedClass.ofSource_classes options virtualBarred file.isGap separated visible, moved,
    tallyOf_map_movedBy]
  rfl

end WithCode

/-- Each outline is that of one of the entries, on the line where its class stands. -/
theorem exists_entry_of_mem
    {options : ScanOptions}
    {file : ClassFile barred}
    {outline : Outline}
    (prefixBarred : "_STD".toList ∈ barred)
    (member : outline ∈ PlacedClass.outlinesFrom options file.leading.lineBreaks
      (file.classes prefixBarred)) :
    ∃ before entry after, file.entries = before ++ entry :: after ∧
      outline = entry.model.outline options
        (file.leading.lineBreaks + Text.lineBreaks (before.flatMap ClassEntry.text) +
          entry.model.templateLine.lineBreaks) := by
  obtain ⟨before, placed, after, isClass, rfl⟩ := PlacedClass.exists_of_mem_outlinesFrom member
  obtain ⟨entriesBefore, later, isEntry, rfl, isLater⟩ := List.map_eq_append_iff.mp isClass
  obtain ⟨entry, entriesAfter, rfl, rfl, rfl⟩ := List.map_eq_cons_iff.mp isLater
  refine ⟨entriesBefore, entry, entriesAfter, isEntry, ?_⟩
  rw [flatMap_text_placed]
  exact ClassModel.outlineIn_declared _ _ _

/-- The code that is generated for a class of a file goes unnoticed. -/
theorem unnoticedCode_generate
    {style : Style}
    (options : ScanOptions)
    (startLine : Nat)
    (model : ClassModel barred)
    (functionBarred : "function".toList ∈ barred)
    (isIndent : Body.IsIndent style.indent)
    (action : Action)
    (coverage : Coverage) :
    UnnoticedCode
      ((Writer.ofStyle (model.outline options startLine) style).generate action coverage) := by
  have inert := model.inertOutline options startLine functionBarred
  rw [Writer.generate_eq_code]
  exact unnoticedCode_code (unnoticed_functions inert action coverage) isIndent inert.name

/--
The code that is generated for a class of a file, put into the file, is not noticed: the scan gives
the same outlines on the lines to which they have moved, and nothing else.
-/
theorem ofSource_generate
    {options : ScanOptions}
    {file : ClassFile ["virtual".toList, "final".toList, "function".toList, "operator".toList,
      "_STD".toList]}
    {outline : Outline}
    {style : Style}
    (endsLines : ∀ entry ∈ file.entries.dropLast, '\n' ∈ entry.gap)
    (isOutline : outline ∈ (Scan.ofSource options file.text).outlines)
    (isIndent : Body.IsIndent style.indent)
    (action : Action)
    (coverage : Coverage) :
    let insertions := ((Writer.ofStyle outline style).generate action coverage).insertions outline
    Scan.ofSource options (insertions.foldl Insertion.applyTo file.text) =
      (Scan.ofSource options file.text).movedBy insertions := by
  intro insertions
  have prefixBarred : "_STD".toList ∈ ["virtual".toList, "final".toList, "function".toList,
      "operator".toList, "_STD".toList] := by
    decide
  rw [file.ofSource_text_eq options (by decide) prefixBarred] at isOutline
  obtain ⟨before, entry, after, isEntry, isOutlineOf⟩ := exists_entry_of_mem prefixBarred isOutline
  have endsLine (notEmpty : after ≠ []) : '\n' ∈ entry.gap := by
    refine endsLines entry ?_
    rw [isEntry, List.dropLast_append_cons, List.dropLast_cons_of_ne_nil notEmpty]
    exact List.mem_append_right _ List.mem_cons_self
  have unnoticed := unnoticedCode_generate options
    (file.leading.lineBreaks + Text.lineBreaks (before.flatMap ClassEntry.text) +
      entry.model.templateLine.lineBreaks)
    entry.model (by decide) isIndent action coverage
  rw [← isOutlineOf] at unnoticed
  exact ofSource_applyTo_insertions (by decide) prefixBarred endsLine isEntry unnoticed isOutlineOf

/-- The getter of the first of two classes, with its definition between the classes. -/
theorem ofSource_generate_getters :
    let barred :=
      ["virtual".toList, "final".toList, "function".toList, "operator".toList, "_STD".toList]
    let type : Identifier barred := ⟨"int".toList, by decide, by decide⟩
    let members : MemberLine barred :=
      { isStatic := false
        type := [⟨_, .path ⟨[type], by decide⟩⟩]
        declarators := [⟨⟨['x'], by decide, by decide⟩, .plain, by decide⟩]
        typeNotEmpty := by decide
        declaratorsNotEmpty := by decide }
    let first : ClassModel barred :=
      ⟨[], ⟨"class".toList, by decide, ⟨[⟨['A'], by decide, by decide⟩], by decide⟩, []⟩, [members]⟩
    let second : ClassModel barred :=
      ⟨[], ⟨"struct".toList, by decide, ⟨[⟨['B'], by decide, by decide⟩], by decide⟩, []⟩, []⟩
    let file : ClassFile barred :=
      ⟨[], [⟨first, ['\n'], by decide⟩, ⟨second, ['\n'], by decide⟩], by decide, by decide⟩
    let outline := first.outline {} 0
    let insertions :=
      ((Writer.ofStyle outline Style.apart).generate .getters .all).insertions outline
    outline ∈ (Scan.ofSource {} file.text).outlines ∧
      Scan.ofSource {} (insertions.foldl Insertion.applyTo file.text) =
        (Scan.ofSource {} file.text).movedBy insertions := by
  intro barred type members first second file outline insertions
  have isOutline : outline ∈ (Scan.ofSource {} file.text).outlines := by decide
  have endsLines : ∀ entry ∈ file.entries.dropLast, '\n' ∈ entry.gap := by decide
  have isIndent : Body.IsIndent Style.apart.indent := by decide
  exact ⟨isOutline, ofSource_generate endsLines isOutline isIndent .getters .all⟩

end ClassFile

end ClassOutline.Written
