import ClassOutline.Proofs.Mask.Seam
import ClassOutline.Proofs.Written.PlainClass
/-!
# Classes in namespaces

Plain classes are written one after the other, and any of them inside namespaces, to any depth.
The braces of a namespace are part of the regions of the classes next to them, and a region begins
only where as many braces are open as at the first class.  So the classes found are those as deep
inside namespaces as the first one.
-/

namespace ClassOutline.Written

/-- Classes and namespaces, one after the other, each in front of what follows it. -/
inductive ScopedClasses where
  | done
  | declaration (plain : PlainClass) (next : ScopedClasses)
  | scope (name : Identifier []) (inside next : ScopedClasses)

namespace ScopedClasses

/-! ## Texts -/

/-- The first line of a namespace. -/
def opening (name : Identifier []) : Text :=
  "namespace ".toList ++ name.text ++ [' ', '{', '\n']

/-- The last line of a namespace. -/
def closing : Text :=
  ['}', '\n']

/-- A text with a namespace around it. -/
def enclosed (name : Identifier []) (inside : Text) : Text :=
  opening name ++ inside ++ closing

/-- The text of the classes and namespaces. -/
def text : ScopedClasses → Text
  | .done => []
  | .declaration plain next => plain.text ++ next.text
  | .scope name inside next => enclosed name inside.text ++ next.text

/-- The classes in the order of the text, each with the number of namespaces around it. -/
def located (depth : Nat) : ScopedClasses → List (Nat × PlainClass)
  | .done => []
  | .declaration plain next => (depth, plain) :: next.located depth
  | .scope _ inside next => inside.located (depth + 1) ++ next.located depth

/-- The classes in the order of the text. -/
def classes (content : ScopedClasses) : List PlainClass :=
  (content.located 0).map Prod.snd

/-! ## Lines -/

theorem opening_eq (name : Identifier []) :
    opening name = "namespace".toList ++ ' ' :: (name.text ++ ' ' :: ['{', '\n']) := by
  have word : "namespace ".toList = "namespace".toList ++ [' '] := rfl
  unfold opening
  rw [word]
  simp only [List.append_assoc, List.cons_append, List.nil_append]

/-- The first line of a namespace begins no declaration and opens one brace. -/
theorem calm_opening (name : Identifier []) :
    Block.Calm (opening name) ∧ Block.braces (opening name) = 1 := by
  have words : ∀ word ∈ Block.declarationWords, word ∈ reservedWords ∧ IsWord word ∧
      Text.Lacks "namespace".toList word := by
    decide
  have ending : Block.Calm ['{', '\n'] := Block.calm_of_foreign (by decide)
  rw [opening_eq]
  constructor
  · constructor
    · intro word isDeclarationWord
      obtain ⟨isReserved, isWord, notNamespace⟩ := words word isDeclarationWord
      have noSpace : ' ' ∉ word := isWord.not_mem (by decide)
      rw [Text.lacks_append_cons _ _ noSpace, Text.lacks_append_cons _ _ noSpace]
      exact ⟨notNamespace, name.lacks word (List.mem_append_left _ isReserved),
        ending.lacks word isDeclarationWord⟩
    · intro last isLast word isDeclarationWord
      obtain rfl : '\n' = last := by simpa [List.getLast?_append, List.getLast?_cons] using isLast
      exact (words word isDeclarationWord).2.1.not_mem (by decide)
  · have nameBraceless : Block.Braceless name.text := fun character member =>
      ⟨ne_of_isNameCharacter (name.isWord.2 character member) (by decide),
        ne_of_isNameCharacter (name.isWord.2 character member) (by decide)⟩
    simp [nameBraceless.braces_eq_zero, Block.braceChange]

theorem calm_closing : Block.Calm closing ∧ Block.braces closing = -1 :=
  ⟨Block.calm_of_foreign (by decide), by decide⟩

theorem text_scope_append
    (name : Identifier [])
    (inside next : ScopedClasses)
    (rest : Text) :
    (scope name inside next).text ++ rest =
      opening name ++ (inside.text ++ (closing ++ (next.text ++ rest))) := by
  simp only [text, enclosed, List.append_assoc]

theorem reverse_text_scope_append
    (name : Identifier [])
    (inside next : ScopedClasses)
    (past : Text) :
    (scope name inside next).text.reverse ++ past =
      next.text.reverse ++ ((enclosed name inside.text).reverse ++ past) := by
  rw [text, List.reverse_append, List.append_assoc]

theorem reverse_scope_append
    (name : Identifier [])
    (inside : ScopedClasses)
    (past : Text) :
    closing.reverse ++ (inside.text.reverse ++ ((opening name).reverse ++ past)) =
      (enclosed name inside.text).reverse ++ past := by
  simp only [enclosed, List.reverse_append, List.append_assoc]

/-- A class may be written behind a line that ends a statement or a scope, or opens a scope. -/
theorem ready_of_line
    {line : Text}
    {last : Char}
    (past : Text)
    (ends : last ∈ [';', '{', '}']) :
    Ready ((line ++ [last, '\n']).reverse ++ past) := by
  have ready : Ready (['\n'] ++ last :: (line.reverse ++ past)) :=
    Ready.of_gap (by decide) (List.cons_ne_nil _ _) ends
  simpa using ready

theorem ready_opening
    (name : Identifier [])
    (past : Text) :
    Ready ((opening name).reverse ++ past) := by
  have shape : opening name = ("namespace ".toList ++ name.text ++ [' ']) ++ ['{', '\n'] := by
    unfold opening
    rw [List.append_assoc _ [' ']]
    rfl
  rw [shape]
  exact ready_of_line past (by decide)

theorem ready_enclosed
    (name : Identifier [])
    (inside past : Text) :
    Ready ((enclosed name inside).reverse ++ past) :=
  ready_of_line past (by decide)

theorem ready_class
    (plain : PlainClass)
    (past : Text) :
    Ready (plain.text.reverse ++ past) := by
  rw [plain.text_eq]
  exact ready_of_line past (by decide)

/-! ## Blocks -/

/--
The blocks of the classes with a given number of namespaces around them, behind a given text and
inside a number of namespaces.
-/
def blocksAt (level : Nat) (past : Text) (depth : Nat) : ScopedClasses → List Block
  | .done => []
  | .declaration plain next =>
    (if depth = level then [⟨past, plain.declared.block⟩] else []) ++
      next.blocksAt level (plain.text.reverse ++ past) depth
  | .scope name inside next =>
    inside.blocksAt level ((opening name).reverse ++ past) (depth + 1) ++
      next.blocksAt level ((enclosed name inside.text).reverse ++ past) depth

/-- Without classes there are no blocks. -/
theorem blocksAt_eq_nil
    {content : ScopedClasses}
    {depth : Nat}
    (level : Nat)
    (past : Text)
    (noClass : content.located depth = []) :
    content.blocksAt level past depth = [] := by
  induction content generalizing past depth with
  | done => rfl
  | declaration plain next => contradiction
  | scope name inside next insideHypothesis nextHypothesis =>
    obtain ⟨noneInside, noneBehind⟩ := List.append_eq_nil_iff.mp noClass
    rw [blocksAt, insideHypothesis _ noneInside, nextHypothesis _ noneBehind, List.append_nil]

/-- At the end of a namespace, the scan is as deep again as in front of it. -/
theorem blocksFrom_closing_append
    (name : Identifier [])
    (inside : ScopedClasses)
    (level depth : Nat)
    (past rest : Text) :
    Block.blocksFrom (inside.text.reverse ++ ((opening name).reverse ++ past))
        ((depth + 1 : Nat) - level) (closing ++ rest) =
      Block.blocksFrom ((enclosed name inside.text).reverse ++ past)
        (depth - level) rest := by
  have back : ((depth + 1 : Nat) : Int) - level + -1 = depth - level := by omega
  rw [Block.blocksFrom_append _ _ calm_closing.1, calm_closing.2, back, reverse_scope_append]

/-- Inside a region, the classes at the level of the region give their blocks. -/
theorem blocksFrom_text
    {past : Text}
    (content : ScopedClasses)
    (level depth : Nat)
    (ready : Ready past)
    (rest : Text) :
    Block.blocksFrom past (depth - level) (content.text ++ rest) =
      content.blocksAt level past depth ++
        Block.blocksFrom (content.text.reverse ++ past) (depth - level) rest := by
  induction content generalizing past depth rest with
  | done => rfl
  | declaration plain next hypothesis =>
    have later := hypothesis depth (ready_class plain past) rest
    have atLevel : ((depth : Int) - level = 0) = (depth = level) := by
      rw [Int.sub_eq_zero, Int.natCast_inj]
    rw [text, List.append_assoc, plain.blocksFrom_text_append _ ready, later, blocksAt,
      List.reverse_append, List.append_assoc, List.append_assoc]
    simp only [atLevel]
  | scope name inside next insideHypothesis nextHypothesis =>
    have deeper : (depth : Int) - level + 1 = (depth + 1 : Nat) - level := by omega
    have laterInside := insideHypothesis (depth + 1) (ready_opening name past)
      (closing ++ (next.text ++ rest))
    have later := nextHypothesis depth (ready_enclosed name inside.text past) rest
    rw [text_scope_append, Block.blocksFrom_append _ _ (calm_opening name).1,
      (calm_opening name).2, deeper, laterInside, blocksFrom_closing_append, later, blocksAt,
      reverse_text_scope_append, List.append_assoc]

/--
In front of the first class no region has begun.  The first class begins one, and its level is that
of the class.
-/
theorem blocksAfter_text
    {past : Text}
    (content : ScopedClasses)
    (depth : Nat)
    (ready : Ready past)
    (rest : Text) :
    (content.located depth = [] →
      Block.blocksAfter past (content.text ++ rest) =
        Block.blocksAfter (content.text.reverse ++ past) rest) ∧
    ∀ first ∈ (content.located depth).head?,
      Block.blocksAfter past (content.text ++ rest) =
        content.blocksAt first.1 past depth ++
          Block.blocksFrom (content.text.reverse ++ past) (depth - first.1) rest := by
  induction content generalizing past depth rest with
  | done => exact ⟨fun _ => rfl, fun first isFirst => by simp [located] at isFirst⟩
  | declaration plain next hypothesis =>
    refine ⟨fun noClass => by simp [located] at noClass, fun first isFirst => ?_⟩
    obtain rfl : (depth, plain) = first := by simpa [located] using isFirst
    have later := blocksFrom_text next depth depth (ready_class plain past) rest
    rw [Int.sub_self] at later
    dsimp only
    rw [text, List.append_assoc, plain.blocksAfter_text_append, later, blocksAt, if_pos rfl,
      List.reverse_append, List.append_assoc, List.append_assoc, Int.sub_self]
    rfl
  | scope name inside next insideHypothesis nextHypothesis =>
    have readyNext := ready_enclosed name inside.text past
    have ofInside := insideHypothesis (depth + 1) (ready_opening name past)
      (closing ++ (next.text ++ rest))
    rw [text_scope_append, Block.blocksAfter_append _ (calm_opening name).1,
      reverse_text_scope_append, located]
    cases found : inside.located (depth + 1) with
    | nil =>
      have ofNext := nextHypothesis depth readyNext rest
      rw [ofInside.1 found, Block.blocksAfter_append _ calm_closing.1, reverse_scope_append,
        List.nil_append]
      refine ⟨ofNext.1, fun first isFirst => ?_⟩
      rw [ofNext.2 first isFirst, blocksAt, blocksAt_eq_nil _ _ found, List.nil_append]
    | cons first others =>
      refine ⟨fun noClass => by simp at noClass, fun other isFirst => ?_⟩
      obtain rfl : first = other := by simpa using isFirst
      have later := blocksFrom_text next first.1 depth readyNext rest
      rw [ofInside.2 first (by simp [found]), blocksFrom_closing_append, later, blocksAt,
        List.append_assoc]

/-! ## The visible text -/

/-- Neither a slash nor the word `friend` stands in classes and namespaces. -/
theorem lacks_text (content : ScopedClasses) :
    '/' ∉ content.text ∧ Text.Lacks content.text "friend".toList := by
  have isWord : IsWord "friend".toList := by decide
  have noBreak : '\n' ∉ "friend".toList := by decide
  induction content with
  | done => exact ⟨List.not_mem_nil, Text.lacks_nil isWord.1⟩
  | declaration plain next hypothesis =>
    have shape : (declaration plain next).text = plain.model.text ++ '\n' :: next.text := by
      rw [text, plain.text_eq, plain.model_text]
      simp only [List.append_assoc, List.cons_append, List.nil_append]
    have lacks := plain.model.lacks_text (List.mem_append_left _ (by decide)) isWord (by decide)
    rw [shape, Text.lacks_append_cons _ _ noBreak]
    refine ⟨fun member => ?_, lacks, hypothesis.2⟩
    rcases List.mem_append.mp member with inClass | behind
    · exact plain.model.slash_not_mem inClass
    · exact hypothesis.1 ((List.mem_cons.mp behind).resolve_left (by decide))
  | scope name inside next insideHypothesis nextHypothesis =>
    have shape : (scope name inside next).text =
        "namespace".toList ++ ' ' :: (name.text ++ ' ' :: '{' :: '\n' ::
          (inside.text ++ '}' :: '\n' :: next.text)) := by
      rw [text, enclosed, opening_eq, closing]
      simp only [List.append_assoc, List.cons_append, List.nil_append]
    have wordSlash : '/' ∉ "namespace".toList := by decide
    have nameSlash : '/' ∉ name.text := name.isWord.not_mem (by decide)
    have wordLacks : Text.Lacks "namespace".toList "friend".toList := by decide
    have nameLacks := name.lacks "friend".toList (by decide)
    rw [shape]
    constructor
    · simp only [List.mem_append, List.mem_cons, not_or]
      exact ⟨wordSlash, by decide, nameSlash, by decide, by decide, by decide,
        insideHypothesis.1, by decide, by decide, nextHypothesis.1⟩
    · rw [Text.lacks_append_cons _ _ (by decide), Text.lacks_append_cons _ _ (by decide),
        Text.lacks_cons _ isWord.1 (by decide), Text.lacks_cons _ isWord.1 noBreak,
        Text.lacks_append_cons _ _ (by decide), Text.lacks_cons _ isWord.1 noBreak]
      exact ⟨wordLacks, nameLacks, insideHypothesis.2, nextHypothesis.2⟩

/-- Nothing in classes and namespaces is hidden. -/
theorem visible_text (content : ScopedClasses) : Mask.visible content.text = content.text := by
  obtain ⟨noSlash, lacks⟩ := content.lacks_text
  exact Mask.visible_eq_self noSlash lacks

/-! ## The classes that are found -/

/-- The classes with as many namespaces around them as the first one. -/
def found (content : ScopedClasses) : List PlainClass :=
  match content.located 0 with
  | [] => []
  | first :: others =>
    ((first :: others).filter fun located => located.1 = first.1).map Prod.snd

theorem found_sublist (content : ScopedClasses) : content.found.Sublist content.classes := by
  rw [found, classes]
  split
  · exact List.nil_sublist _
  · next first others shape =>
    rw [shape]
    exact List.filter_sublist.map Prod.snd

/-- No class is lost if and only if all of them are equally deep inside namespaces. -/
theorem found_eq_classes_iff (content : ScopedClasses) :
    content.found = content.classes ↔
      ∀ first ∈ content.located 0, ∀ second ∈ content.located 0, first.1 = second.1 := by
  rw [found, classes]
  cases shape : content.located 0 with
  | nil => simp
  | cons first others =>
    dsimp only
    constructor
    · intro equal
      have sameLength := congrArg List.length equal
      rw [List.length_map, List.length_map, List.length_filter_eq_length_iff] at sameLength
      have atFirst : ∀ located ∈ first :: others, located.1 = first.1 := fun located member =>
        of_decide_eq_true (sameLength located member)
      exact fun left inLeft right inRight =>
        (atFirst left inLeft).trans (atFirst right inRight).symm
    · intro sameDepth
      rw [List.filter_eq_self.mpr fun located member =>
        decide_eq_true (sameDepth located member first List.mem_cons_self)]

/-- The blocks of the classes at a level give the outlines of these classes. -/
theorem outlines_blocksAt
    {past : Text}
    (options : ScanOptions)
    (content : ScopedClasses)
    (level depth : Nat)
    (ready : Ready past) :
    ((content.blocksAt level past depth).filterMap (Scan.outlineOfBlock? options)).map
        (fun outline => (outline.name, outline.members)) =
      (((content.located depth).filter fun located => located.1 = level).map Prod.snd).map
        fun plain => (plain.name.text, plain.foundMembers) := by
  induction content generalizing past depth with
  | done => rfl
  | declaration plain next hypothesis =>
    have later := hypothesis depth (ready_class plain past)
    rw [blocksAt, located, List.filterMap_append, List.map_append, later, List.filter_cons]
    by_cases atLevel : depth = level
    · simp [atLevel, plain.outlineOfBlock?_block options ready]
    · simp [atLevel]
  | scope name inside next insideHypothesis nextHypothesis =>
    rw [blocksAt, located, List.filterMap_append, List.map_append, List.filter_append,
      List.map_append, List.map_append, insideHypothesis (depth + 1) (ready_opening name past),
      nextHypothesis depth (ready_enclosed name inside.text past)]

theorem ready_nil : Ready [] :=
  Ready.of_head? rfl (by simp)

/-- The classes that are found are those as deep inside namespaces as the first one. -/
theorem outlines_text
    (options : ScanOptions)
    (content : ScopedClasses) :
    (Scan.ofSource options content.text).outlines.map
        (fun outline => (outline.name, outline.members)) =
      content.found.map fun plain => (plain.name.text, plain.foundMembers) := by
  have blocks := blocksAfter_text content 0 ready_nil []
  rw [List.append_nil, List.append_nil] at blocks
  rw [Scan.outlines_ofSource, visible_text, Block.ofText_eq_blocksAfter, found]
  cases shape : content.located 0 with
  | nil => rw [blocks.1 shape]; rfl
  | cons first others =>
    have outlines := outlines_blocksAt options content first.1 0 ready_nil
    rw [blocks.2 first (by simp [shape]), Block.blocksFrom_nil, List.append_nil, outlines, shape]

/--
All classes are found with all their members if and only if they are all equally deep inside
namespaces and no member has the type `_STD`.
-/
theorem outlines_text_eq_iff
    (options : ScanOptions)
    (content : ScopedClasses) :
    (Scan.ofSource options content.text).outlines.map
        (fun outline => (outline.name, outline.members)) =
      content.classes.map (fun plain => (plain.name.text, plain.dataMembers)) ↔
    (∀ first ∈ content.located 0, ∀ second ∈ content.located 0, first.1 = second.1) ∧
      ∀ plain ∈ content.classes, ∀ member ∈ plain.members, member.type.text ≠ "_STD".toList := by
  rw [outlines_text, ← found_eq_classes_iff]
  constructor
  · intro equal
    have sameLength := congrArg List.length equal
    rw [List.length_map, List.length_map] at sameLength
    have allFound := content.found_sublist.eq_of_length sameLength
    rw [allFound, List.map_inj_left] at equal
    exact ⟨allFound, fun plain isClass =>
      plain.foundMembers_eq_iff.mp (Prod.mk.inj (equal plain isClass)).2⟩
  · rintro ⟨allFound, noPrefix⟩
    rw [allFound]
    exact List.map_congr_left fun plain isClass => by
      rw [plain.foundMembers_eq_iff.mpr (noPrefix plain isClass)]

/-- A class inside a namespace, and a class behind the namespace. -/
def besideNamespace : ScopedClasses :=
  .scope ⟨['M'], by decide, by decide⟩
    (.declaration
      { name := ⟨['A'], by decide, by decide⟩
        members := [⟨⟨['T'], by decide, by decide⟩, ⟨['x'], by decide, by decide⟩⟩] }
      .done)
    (.declaration
      { name := ⟨['B'], by decide, by decide⟩
        members := [⟨⟨['U'], by decide, by decide⟩, ⟨['y'], by decide, by decide⟩⟩] }
      .done)

/-- The class behind the namespace is lost. -/
theorem outlines_besideNamespace :
    besideNamespace.text =
        ("namespace M \x7b\nclass A \x7b\nT x;\n\x7d;\n\x7d\n" ++
          "class B \x7b\nU y;\n\x7d;\n").toList ∧
      besideNamespace.classes.map (fun plain => plain.name.text) = [['A'], ['B']] ∧
        (Scan.ofSource {} besideNamespace.text).outlines.map Outline.name = [['A']] ∧
          (Scan.ofSource {} besideNamespace.text).outlines.map
              (fun outline => (outline.name, outline.members)) ≠
            besideNamespace.classes.map (fun plain => (plain.name.text, plain.dataMembers)) := by
  decide

end ScopedClasses

end ClassOutline.Written
