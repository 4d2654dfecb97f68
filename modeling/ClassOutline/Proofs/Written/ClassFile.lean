import ClassOutline.Proofs.Mask.Seam
import ClassOutline.Proofs.Written.PlacedClass
/-!
# Files of written classes

A file is written as classes one after the other, with gaps of blanks between them.  Its scan gives
one outline for each class, with all that was written, and nothing else: no block is rejected, and
no declaration is left unresolved.
-/

namespace ClassOutline.Written

variable {barred : List Text}

/-! ## Files -/

/-- A class with the blanks behind it. -/
structure ClassEntry (barred : List Text) where
  model : ClassModel barred
  gap : Text
  isGap : ∀ character ∈ gap, Reserved.isGapCharacter character = true

namespace ClassEntry

/-- The text of the class and the gap. -/
def text (entry : ClassEntry barred) : Text :=
  entry.model.text ++ entry.gap

end ClassEntry

/-- Classes one after the other, with blanks in front of the first. -/
structure ClassFile (barred : List Text) where
  leading : Text
  entries : List (ClassEntry barred)
  isGap : ∀ character ∈ leading, Reserved.isGapCharacter character = true
  /-- Between two classes there is a gap. -/
  separated : ∀ entry ∈ entries.dropLast, entry.gap ≠ []

namespace ClassFile

/-- The text of the file. -/
def text (file : ClassFile barred) : Text :=
  file.leading ++ file.entries.flatMap ClassEntry.text

/-- The outlines of classes that are written from a given line on. -/
def outlinesFrom (options : ScanOptions) (line : Nat) : List (ClassEntry barred) → List Outline
  | [] => []
  | entry :: entries =>
    entry.model.outline options (line + entry.model.templateLine.lineBreaks) ::
      outlinesFrom options (line + entry.text.lineBreaks) entries

/-- The outlines of the classes of the file. -/
def outlines (options : ScanOptions) (file : ClassFile barred) : List Outline :=
  outlinesFrom options file.leading.lineBreaks file.entries

end ClassFile

/-! ## The classes of a file -/

namespace ClassEntry

theorem noPrefix
    (entry : ClassEntry barred)
    (prefixBarred : "_STD".toList ∈ barred) :
    ∀ line ∈ entry.model.memberLines, ∀ name ∈ line.type, name.text ≠ "_STD".toList := by
  intro line _ name _ equal
  have lacks : name.text.Lacks "_STD".toList :=
    name.isName.lacks (by decide) (List.mem_append_right _ prefixBarred) (by decide)
  exact lacks (equal ▸ List.infix_rfl)

/-- The class as it stands in the file. -/
def placed (entry : ClassEntry barred) (prefixBarred : "_STD".toList ∈ barred) :
    PlacedClass barred where
  model := entry.model
  declared := entry.model.declared
  ending := ';' :: entry.gap
  shown := ClassModel.shownBy_declared (entry.noPrefix prefixBarred)
  calm := (PlacedClass.calm_semicolon_gap entry.isGap).1
  closed := (PlacedClass.calm_semicolon_gap entry.isGap).2.braces_eq_zero

theorem text_placed
    (entry : ClassEntry barred)
    (prefixBarred : "_STD".toList ∈ barred) :
    (entry.placed prefixBarred).text = entry.text := by
  simp [PlacedClass.text, placed, text, ClassModel.text_eq]

/-- Behind a class and a gap another class may be written. -/
theorem ready
    {entry : ClassEntry barred}
    (past : Text)
    (separated : entry.gap ≠ []) :
    Ready (entry.text.reverse ++ past) := by
  have shape : entry.text.reverse ++ past =
      entry.gap.reverse ++ ';' :: ((entry.model.templateLine ++ entry.model.declared.block).reverse
        ++ past) := by
    rw [text, ClassModel.text_eq]
    simp
  rw [shape]
  exact Ready.of_gap (fun character member => entry.isGap character (List.mem_reverse.mp member))
    (by simpa using separated) (by decide)

end ClassEntry

namespace ClassFile

/-- Neither a slash nor the word `friend` stands in a written file. -/
theorem lacks_text (file : ClassFile barred) :
    '/' ∉ file.text ∧ Text.Lacks file.text "friend".toList := by
  have isWord : IsWord "friend".toList := by decide
  have gapForeign {gap : Text}
      (isGap : ∀ character ∈ gap, Reserved.isGapCharacter character = true) :
      ∀ character ∈ gap, character ≠ '/' ∧ character ∉ "friend".toList := by
    intro character member
    have blank := isGap character member
    have foreign : ∀ letter ∈ "friend/".toList, Reserved.isGapCharacter letter = false := by
      decide
    have absent (inWord : character ∈ "friend/".toList) : False := by
      rw [foreign character inWord] at blank
      contradiction
    exact
      ⟨fun equal => absent (equal ▸ by decide), fun inWord =>
        absent (List.mem_append_left ['/'] inWord)⟩
  have entriesLack (entries : List (ClassEntry barred)) :
      '/' ∉ entries.flatMap ClassEntry.text ∧
        Text.Lacks (entries.flatMap ClassEntry.text) "friend".toList := by
    induction entries with
    | nil => exact ⟨List.not_mem_nil, Text.lacks_nil isWord.1⟩
    | cons entry entries hypothesis =>
      have gap := gapForeign entry.isGap
      have modelLacks := entry.model.lacks_text (List.mem_append_left _ (by decide)) isWord
        (by decide)
      rw [ClassModel.text_eq] at modelLacks
      have shape : (entry :: entries).flatMap ClassEntry.text =
          (entry.model.templateLine ++ entry.model.declared.block) ++
            ';' :: (entry.gap ++ entries.flatMap ClassEntry.text) := by
        simp [ClassEntry.text, ClassModel.text_eq]
      constructor
      · rw [List.flatMap_cons, ClassEntry.text, List.mem_append, List.mem_append]
        rintro ((inModel | inGap) | inLater)
        · exact entry.model.slash_not_mem inModel
        · exact (gap '/' inGap).1 rfl
        · exact hypothesis.1 inLater
      · rw [shape, Text.lacks_append_cons _ _ (by decide)]
        exact
          ⟨modelLacks.of_isInfix (List.prefix_append _ _).isInfix,
            Text.lacks_append_of_foreign (fun character member => (gap character member).2)
              hypothesis.2⟩
  obtain ⟨noSlash, lacks⟩ := entriesLack file.entries
  have leading := gapForeign file.isGap
  rw [text]
  refine ⟨fun member => ?_, Text.lacks_append_of_foreign
    (fun character member => (leading character member).2) lacks⟩
  rcases List.mem_append.mp member with inGap | inEntries
  · exact (leading '/' inGap).1 rfl
  · exact noSlash inEntries

/-- Nothing in a written file is hidden. -/
theorem visible_text (file : ClassFile barred) : Mask.visible file.text = file.text := by
  obtain ⟨noSlash, lacks⟩ := file.lacks_text
  exact Mask.visible_eq_self noSlash lacks

/-! ## The scan of a file -/

/-- The classes of the file as they stand in it. -/
def classes (file : ClassFile barred) (prefixBarred : "_STD".toList ∈ barred) :
    List (PlacedClass barred) :=
  file.entries.map fun entry => entry.placed prefixBarred

theorem flatMap_text_placed
    (entries : List (ClassEntry barred))
    (prefixBarred : "_STD".toList ∈ barred) :
    (entries.map fun entry => entry.placed prefixBarred).flatMap PlacedClass.text =
      entries.flatMap ClassEntry.text := by
  rw [List.flatMap_map]
  simp only [ClassEntry.text_placed]

theorem text_eq_classes
    (file : ClassFile barred)
    (prefixBarred : "_STD".toList ∈ barred) :
    file.text = file.leading ++ (file.classes prefixBarred).flatMap PlacedClass.text := by
  rw [text, classes, flatMap_text_placed]

theorem separated_classes
    (file : ClassFile barred)
    (prefixBarred : "_STD".toList ∈ barred) :
    PlacedClass.Separated (file.classes prefixBarred) := by
  intro placed member past
  rw [classes, ← List.map_dropLast] at member
  obtain ⟨entry, isEntry, rfl⟩ := List.mem_map.mp member
  rw [ClassEntry.text_placed]
  exact ClassEntry.ready past (file.separated entry isEntry)

theorem outlines_eq_classes
    (options : ScanOptions)
    (file : ClassFile barred)
    (prefixBarred : "_STD".toList ∈ barred) :
    PlacedClass.outlinesFrom options file.leading.lineBreaks (file.classes prefixBarred) =
      file.outlines options := by
  have ofEntries (line : Nat) (entries : List (ClassEntry barred)) :
      PlacedClass.outlinesFrom options line (entries.map fun entry => entry.placed prefixBarred) =
        outlinesFrom options line entries := by
    induction entries generalizing line with
    | nil => rfl
    | cons entry entries hypothesis =>
      rw [List.map_cons, PlacedClass.outlinesFrom, outlinesFrom, hypothesis,
        ClassEntry.text_placed]
      exact congrArg (· :: _) (ClassModel.outlineIn_declared _ _ _)
  exact ofEntries _ _

/-- The scan of a file is that of its classes in place. -/
theorem ofSource_text_eq
    (options : ScanOptions)
    (file : ClassFile barred)
    (virtualBarred : "virtual".toList ∈ barred)
    (prefixBarred : "_STD".toList ∈ barred) :
    Scan.ofSource options file.text =
      { outlines :=
          PlacedClass.outlinesFrom options file.leading.lineBreaks (file.classes prefixBarred)
        tally :=
          tallyOf (PlacedClass.outlinesFrom options file.leading.lineBreaks
            (file.classes prefixBarred)) } := by
  have visible := file.visible_text
  rw [file.text_eq_classes prefixBarred] at visible ⊢
  exact PlacedClass.ofSource_classes options virtualBarred file.isGap
    (file.separated_classes prefixBarred) visible

/--
Everything that is written of the classes of a file is found again: one outline for each class, in
order, and nothing is rejected or left unresolved.
-/
theorem ofSource_text
    (options : ScanOptions)
    (file : ClassFile ["virtual".toList, "final".toList, "_STD".toList]) :
    Scan.ofSource options file.text =
      { outlines := file.outlines options
        tally := tallyOf (file.outlines options) } := by
  rw [file.ofSource_text_eq options (by decide) (by decide), file.outlines_eq_classes]

/-- A class template with a base, a static pointer and an array, and a class without members. -/
theorem ofSource_text_twoClasses :
    let barred := ["virtual".toList, "final".toList, "_STD".toList]
    ∃ file : ClassFile barred,
      file.text =
          ("template <typename T>\nclass Grid : private virtual geo::Base<T> \x7b\n" ++
            "static T *first, cells[n];\n\x7d;\n\nstruct Empty \x7b\n\x7d;").toList ∧
        Scan.ofSource {} file.text =
          { outlines :=
              [{ name := "Grid".toList
                 templateClause := "template <typename T>".toList
                 bases := [⟨"geo::Base<T>".toList, .privately, true⟩]
                 members :=
                  [⟨"first".toList, "T*".toList, true, true, false⟩,
                    ⟨"cells".toList, "T*".toList, true, false, true⟩]
                 startLine := 1
                 endLine := 3 },
                { name := "Empty".toList, startLine := 5, endLine := 6 }]
            tally := { blocks := 2, classes := 2, members := 2 } } := by
  intro barred
  let parameter : Identifier barred := ⟨['T'], by decide, by decide⟩
  let scope : Identifier barred := ⟨"geo".toList, by decide, by decide⟩
  let base : Identifier barred := ⟨"Base".toList, by decide, by decide⟩
  let members : MemberLine barred :=
    { isStatic := true
      type := [⟨_, .path ⟨[parameter], by decide⟩⟩]
      declarators :=
        [⟨⟨"first".toList, by decide, by decide⟩, .pointer, by decide⟩,
          ⟨⟨"cells".toList, by decide, by decide⟩, .array ⟨['n'], by decide⟩, by decide⟩]
      typeNotEmpty := by decide
      declaratorsNotEmpty := by decide }
  let grid : ClassModel barred :=
    { parameters := [parameter]
      line :=
        { word := "class".toList
          isWord := by decide
          name := ⟨[⟨"Grid".toList, by decide, by decide⟩], by decide⟩
          entries :=
            [⟨some .privately, true,
              ⟨_, .applied ⟨[scope, base], by decide⟩ [['T']]
                (List.forall_mem_singleton.mpr (.path ⟨[parameter], by decide⟩))⟩⟩] }
      memberLines := [members] }
  let empty : ClassModel barred :=
    { parameters := []
      line :=
        { word := "struct".toList
          isWord := by decide
          name := ⟨[⟨"Empty".toList, by decide, by decide⟩], by decide⟩
          entries := [] }
      memberLines := [] }
  let file : ClassFile barred :=
    { leading := []
      entries := [⟨grid, ['\n', '\n'], by decide⟩, ⟨empty, [], by decide⟩]
      isGap := by decide
      separated := by decide }
  exact ⟨file, by decide, (ofSource_text {} file).trans (by decide)⟩

end ClassFile

end ClassOutline.Written
