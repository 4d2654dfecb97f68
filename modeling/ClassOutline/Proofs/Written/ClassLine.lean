import ClassOutline.Proofs.ClassHead.Parts
import ClassOutline.Proofs.Written.Name
/-!
# Written class lines

The first line of a class is written as a declaring word, a path and, behind a colon, entries for
the bases.  Its head is read as the path and the bases of the entries.
-/

namespace ClassOutline.Written

/-- The separator of the arguments of a base. -/
abbrev spaced : Text :=
  [',', ' ']

variable {barred : List Text}

/-! ## Entries -/

/-- The written entry of a base, with the access if it is written. -/
structure BaseEntry (barred : List Text) where
  access : Option Access
  isVirtual : Bool
  name : Name barred spaced

namespace BaseEntry

/-- The specifiers in front of the name. -/
def specifiers (entry : BaseEntry barred) : List Text :=
  (entry.access.map Access.word).toList ++ if entry.isVirtual then ["virtual".toList] else []

/-- The text of the entry. -/
def text (entry : BaseEntry barred) : Text :=
  entry.specifiers.flatMap (· ++ [' ']) ++ entry.name.text

/-- The base that the entry declares. -/
def base (entry : BaseEntry barred) : Base where
  name := entry.name.text
  access := entry.access.getD .publicly
  isVirtual := entry.isVirtual

theorem mem_specifiers (entry : BaseEntry barred) :
    ∀ word ∈ entry.specifiers, word ∈ ClassHead.baseSpecifiers := by
  intro word member
  rcases List.mem_append.mp member with isAccess | isVirtual
  · obtain ⟨access, -, rfl⟩ := Option.map_eq_some_iff.mp (Option.mem_toList.mp isAccess)
    cases access <;> decide
  · split at isVirtual
    · obtain rfl := List.mem_singleton.mp isVirtual
      decide
    · contradiction

/-- No specifier is a word of a name in which the specifiers are barred. -/
theorem not_mem_words
    {word : Text}
    (name : Name barred spaced)
    (virtualBarred : "virtual".toList ∈ barred)
    (isSpecifier : word ∈ ClassHead.baseSpecifiers) :
    word ∉ name.text.words := by
  have specifiers : ∀ word ∈ ClassHead.baseSpecifiers,
      IsWord word ∧ (word ∈ reservedWords ∨ word = "virtual".toList) := by
    decide
  obtain ⟨isWord, isReserved | rfl⟩ := specifiers word isSpecifier
  · exact fun member => name.isName.lacks (by decide) (List.mem_append_left _ isReserved) isWord
      (Text.infix_of_mem_words member)
  · exact fun member => name.isName.lacks (by decide) (List.mem_append_right _ virtualBarred) isWord
      (Text.infix_of_mem_words member)

/-- The entry is read as its base. -/
theorem baseOf?_text
    (entry : BaseEntry barred)
    (virtualBarred : "virtual".toList ∈ barred) :
    ClassHead.baseOf? (' ' :: entry.text) = some entry.base := by
  have noSpecifier : ∀ word ∈ ClassHead.baseSpecifiers, word ∉ entry.name.text.words :=
    fun word isSpecifier => not_mem_words entry.name virtualBarred isSpecifier
  refine (ClassHead.baseOf?_entryText entry.mem_specifiers entry.name.isName.spaced
    noSpecifier).trans ?_
  obtain ⟨access, isVirtual, name⟩ := entry
  rcases access with - | access
  · cases isVirtual <;> rfl
  · cases access <;> cases isVirtual <;> rfl

theorem text_spaced (entry : BaseEntry barred) : Text.Spaced entry.text :=
  ClassHead.spaced_entryText entry.mem_specifiers entry.name.isName.spaced

theorem isEntry (entry : BaseEntry barred) : ClassHead.IsEntry (' ' :: entry.text) :=
  ClassHead.isEntry_entryText entry.mem_specifiers (entry.name.isName.isEntry (by decide))

/-- The specifiers with a blank behind each are made of letters and blanks. -/
theorem characters_specifiers (entry : BaseEntry barred) :
    ∀ character ∈ entry.specifiers.flatMap (· ++ [' ']),
      isNameCharacter character = true ∨ character = ' ' := by
  intro character member
  obtain ⟨word, isWord, inside⟩ := List.mem_flatMap.mp member
  have letters : ∀ word ∈ ClassHead.baseSpecifiers, IsWord word := by decide
  rcases List.mem_append.mp inside with inWord | isSpace
  · exact .inl ((letters word (entry.mem_specifiers word isWord)).2 character inWord)
  · exact .inr (List.mem_singleton.mp isSpace)

/-- An entry is made of name characters and the punctuation of names. -/
theorem characters (entry : BaseEntry barred) :
    ∀ character ∈ entry.text,
      isNameCharacter character = true ∨ character ∈ ":<>, ".toList := by
  intro character member
  rcases List.mem_append.mp member with inSpecifiers | inName
  · exact (entry.characters_specifiers character inSpecifiers).imp_right fun isSpace => by
      simp [isSpace]
  · have wider : ∀ character ∈ ":<>".toList, character ∈ ":<>, ".toList := by decide
    have widerStill : ∀ character ∈ spaced, character ∈ ":<>, ".toList := by decide
    rcases entry.name.isName.characters character inName with isLetter | isMark | inSeparator
    · exact .inl isLetter
    · exact .inr (wider character isMark)
    · exact .inr (widerStill character inSeparator)

theorem lacks
    {word : Text}
    (entry : BaseEntry barred)
    (isBarred : word ∈ reservedWords ++ barred)
    (isWord : IsWord word)
    (noSpecifier : ∀ specifier ∈ ClassHead.baseSpecifiers, Text.Lacks specifier word) :
    entry.text.Lacks word := by
  have inSpecifiers := entry.mem_specifiers
  rw [text]
  generalize entry.specifiers = specifiers at inSpecifiers ⊢
  induction specifiers with
  | nil => exact entry.name.isName.lacks (by decide) isBarred isWord
  | cons specifier specifiers hypothesis =>
    have later := hypothesis fun other member =>
      inSpecifiers other (List.mem_cons_of_mem _ member)
    rw [List.flatMap_cons, List.append_assoc, List.append_assoc, List.singleton_append]
    exact (Text.lacks_append_cons _ _ (isWord.not_mem (by decide))).mpr
      ⟨noSpecifier _ (inSpecifiers specifier List.mem_cons_self), later⟩

end BaseEntry

/-- The entries are read as their bases. -/
theorem basesOf_entries
    {entries : List (BaseEntry barred)}
    (virtualBarred : "virtual".toList ∈ barred)
    (notEmpty : entries ≠ []) :
    ClassHead.basesOf (' ' :: spaced.intercalate (entries.map BaseEntry.text)) =
      entries.map BaseEntry.base :=
  ClassHead.basesOf_intercalate notEmpty (fun entry _ => entry.isEntry) fun entry _ =>
    entry.baseOf?_text virtualBarred

/-! ## Class lines -/

/-- The first line of a class: declaring word, name and bases. -/
structure ClassLine (barred : List Text) where
  word : Text
  isWord : word ∈ Block.declarationWords
  name : Path barred
  entries : List (BaseEntry barred)

namespace ClassLine

/-- The colon and the entries behind it, if there are entries. -/
def clause (line : ClassLine barred) : Text :=
  if line.entries = [] then []
  else " : ".toList ++ spaced.intercalate (line.entries.map BaseEntry.text)

/-- The text between the declaring word and the brace. -/
def head (line : ClassLine barred) : Text :=
  ' ' :: (line.name.text ++ line.clause ++ [' '])

/-- The text of the line. -/
def text (line : ClassLine barred) : Text :=
  line.word ++ line.head ++ ['{', '\n']

theorem characters_clause (line : ClassLine barred) :
    ∀ character ∈ line.clause,
      isNameCharacter character = true ∨ character ∈ ":<>, ".toList := by
  intro character member
  rw [clause] at member
  split at member
  · contradiction
  · have mark : ∀ character ∈ " : ".toList, character ∈ ":<>, ".toList := by decide
    have separator : ∀ character ∈ spaced, character ∈ ":<>, ".toList := by decide
    rcases List.mem_append.mp member with inMark | inEntries
    · exact .inr (mark character inMark)
    · rcases Text.mem_intercalate inEntries with inSeparator | ⟨text, isText, inText⟩
      · exact .inr (separator character inSeparator)
      · obtain ⟨entry, -, rfl⟩ := List.mem_map.mp isText
        exact entry.characters character inText

/-- A class line is made of name characters and the punctuation of names. -/
theorem characters_head (line : ClassLine barred) :
    ∀ character ∈ line.head,
      isNameCharacter character = true ∨ character ∈ ":<>, ".toList := by
  intro character member
  rw [head, List.mem_cons, List.mem_append, List.mem_append, List.mem_singleton] at member
  rcases member with isSpace | (inName | inClause) | isSpace
  · exact .inr (by simp [isSpace])
  · exact (line.name.characters character inName).imp_right fun isColon => by simp [isColon]
  · exact line.characters_clause character inClause
  · exact .inr (by simp [isSpace])

theorem plain_head (line : ClassLine barred) : Statement.Plain line.head := by
  intro character member
  have marksPlain : ∀ mark ∈ ":<>, ".toList, Statement.cuts mark = false := by decide
  rcases line.characters_head character member with isLetter | isMark
  · exact cuts_eq_false_of_isNameCharacter isLetter
  · exact marksPlain character isMark

theorem lacks_head
    {word : Text}
    (line : ClassLine barred)
    (isBarred : word ∈ reservedWords ++ barred)
    (isWord : IsWord word)
    (noSpecifier : ∀ specifier ∈ ClassHead.baseSpecifiers, Text.Lacks specifier word) :
    line.head.Lacks word := by
  have noSpace : ' ' ∉ word := isWord.not_mem (by decide)
  have noColon : ':' ∉ word := isWord.not_mem (by decide)
  have nameLacks := line.name.lacks isBarred isWord
  have frontLacks : Text.Lacks (line.name.text ++ line.clause) word := by
    rw [clause]
    split
    · rwa [List.append_nil]
    · have entriesLack : Text.Lacks (spaced.intercalate (line.entries.map BaseEntry.text))
          word := by
        refine Text.lacks_intercalate isWord.1 (by simp) ?_ ?_
        · have noComma : ',' ∉ word := isWord.not_mem (by decide)
          simpa using ⟨noComma, noSpace⟩
        · intro text member
          obtain ⟨entry, -, rfl⟩ := List.mem_map.mp member
          exact entry.lacks isBarred isWord noSpecifier
      rw [← List.append_assoc]
      refine nameLacks.append_append entriesLack (by simp) fun character member => ?_
      have isMark : character = ' ' ∨ character = ':' := by simpa [or_comm] using member
      rcases isMark with rfl | rfl
      · exact noSpace
      · exact noColon
  rw [head, Text.lacks_cons _ isWord.1 noSpace, Text.lacks_append_cons _ _ noSpace]
  exact ⟨frontLacks, Text.lacks_nil isWord.1⟩

/-! ## The head that is read -/

/-- The colons of the name mark scopes. -/
theorem isScoped_name (line : ClassLine barred) :
    ClassHead.IsScoped 0 none line.name.text := by
  refine ClassHead.isScoped_intercalate (fun text member => ?_) 0 none
  obtain ⟨identifier, -, rfl⟩ := List.mem_map.mp member
  exact identifier.isWord.not_mem (by decide)

theorem noBlank_name (line : ClassLine barred) :
    ∀ character ∈ line.name.text, Text.isBlank character = false := by
  intro character member
  rcases line.name.characters character member with isLetter | rfl
  · exact isBlank_eq_false_of_isNameCharacter isLetter
  · decide

/-- The head as it is read: the name, and the clause of the bases. -/
theorem spaced_head (line : ClassLine barred) :
    Text.Spaced (line.name.text ++ line.clause) := by
  have nameSpaced := Text.spaced_of_noBlank line.name.text_ne_nil line.noBlank_name
  rw [clause]
  split
  · rwa [List.append_nil]
  · next notEmpty =>
    have colonSpaced : Text.Spaced [':'] := Text.spaced_of_noBlank (by simp) (by decide)
    have entriesSpaced : Text.Spaced (spaced.intercalate (line.entries.map BaseEntry.text)) := by
      refine Text.spaced_intercalate (by simpa using notEmpty) fun text member => ?_
      obtain ⟨entry, -, rfl⟩ := List.mem_map.mp member
      exact entry.text_spaced
    exact nameSpaced.append_append (colonSpaced.append_append entriesSpaced)

/-- The head of a block that begins with the line. -/
theorem headOf_block
    {line : ClassLine barred}
    (declared : Block.Declared)
    (sameWord : declared.word = line.word)
    (sameHead : declared.head = line.head) :
    ClassHead.headOf declared.block = line.name.text ++ line.clause := by
  have noBrace : '{' ∉ line.name.text ++ line.clause ++ [' '] := by
    have notInHead : '{' ∉ line.head := line.plain_head.not_mem (by decide)
    rw [head, List.mem_cons, not_or] at notInHead
    exact notInHead.2
  have shape : declared.block =
      line.word ++ ' ' :: (line.name.text ++ line.clause ++ [' ']) ++
        '{' :: (declared.body ++ ['}']) := by
    rw [Block.Declared.block, sameWord, sameHead, head]
  have blank : ∀ character ∈ [' '], Text.isBlank character = true := by decide
  rw [shape, ClassHead.headOf_append line.isWord noBrace]
  exact Text.trim_append_append [' '] [' '] blank line.spaced_head.solid blank

/-- A path may stand as the name of a class, and it is kept as it is. -/
theorem legalName_name (line : ClassLine barred) :
    ClassHead.LegalName line.name.text ∧ ClassHead.dropFinal line.name.text = line.name.text := by
  have absent (mark : Char) (noName : isNameCharacter mark = false) (noColon : mark ≠ ':') :
      mark ∉ line.name.text := by
    intro member
    rcases line.name.characters mark member with isLetter | isColon
    · rw [noName] at isLetter
      contradiction
    · exact noColon isColon
  have noOpening := absent '<' (by decide) (by decide)
  have noClosing := absent '>' (by decide) (by decide)
  refine ⟨⟨?_, ?_⟩, ?_⟩
  · rw [List.count_eq_zero.mpr noOpening, List.count_eq_zero.mpr noClosing]
  · intro found
    exact noClosing (List.mem_of_find?_eq_some found)
  · refine ClassHead.dropFinal_eq_self fun front blank isBlank shape => ?_
    have notBlank := line.noBlank_name blank (by rw [shape]; simp)
    rw [isBlank] at notBlank
    contradiction

/-- The name and the bases of the line are read. -/
theorem nameAndBases_head
    {line : ClassLine barred}
    (virtualBarred : line.entries = [] ∨ "virtual".toList ∈ barred) :
    ClassHead.nameAndBases (line.name.text ++ line.clause) =
      (line.name.text, line.entries.map BaseEntry.base) := by
  rw [clause]
  by_cases noEntries : line.entries = []
  · rw [if_pos noEntries, noEntries, List.append_nil]
    exact ClassHead.nameAndBases_of_isScoped line.isScoped_name
  · have marks : " : ".toList = [' ', ':', ' '] := by decide
    have read := basesOf_entries (virtualBarred.resolve_left noEntries) noEntries
    rw [if_neg noEntries, marks, ← read]
    exact ClassHead.nameAndBases_append line.isScoped_name line.legalName_name.1.1
      (Text.solid_of_noBlank line.noBlank_name) (by simp)

end ClassLine

end ClassOutline.Written
