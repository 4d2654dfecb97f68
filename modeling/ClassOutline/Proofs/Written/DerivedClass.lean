import ClassOutline.Proofs.ClassHead.Entries
import ClassOutline.Proofs.ClassHead.Parts
/-!
# Heads of derived classes

The head of a class is written as a declaring word, the name of the class, perhaps `final`, and a
colon with the bases behind it.  A base is written as its access, `virtual` and its name, where the
two specifiers stand in either order and `public` may be left out.  From such a head the name and
the bases are read as they are written.

Scope marks in the names, and colons and commas inside brackets, are no obstacle.
-/

namespace ClassOutline

namespace Written

/-! ## Bases -/

/-- The name of a base: words with single spaces between them that make one entry of a list. -/
structure BaseName where
  words : List Text
  notEmpty : words ≠ []
  areWords : Text.AreWords words
  noSpecifier : ∀ word ∈ words, word ∉ ClassHead.baseSpecifiers
  noBrace : ∀ word ∈ words, '{' ∉ word
  /-- Brackets match, and commas stand inside them with something on both sides. -/
  isEntry : ClassHead.IsEntry (Text.unwords words)

namespace BaseName

variable (name : BaseName)

/-- The text of the name. -/
def text : Text :=
  Text.unwords name.words

theorem spaced : Text.Spaced name.text :=
  ⟨name.words, name.notEmpty, name.areWords, rfl⟩

theorem not_mem_text : '{' ∉ name.text := by
  intro member
  rcases Text.mem_intercalate member with isSpace | ⟨word, isWord, inside⟩
  · exact absurd isSpace (by decide)
  · exact name.noBrace word isWord inside

end BaseName

/-- A base as it is written, with its access if that is written. -/
structure WrittenBase where
  access : Option Access
  isVirtual : Bool
  /-- Whether `virtual` stands in front of the access. -/
  virtualFirst : Bool
  name : BaseName

namespace WrittenBase

variable (written : WrittenBase)

/-- The word of the access, if it is written. -/
def accessWords : List Text :=
  (written.access.map Access.word).toList

/-- The word `virtual`, if the base is virtual. -/
def virtualWords : List Text :=
  if written.isVirtual then ["virtual".toList] else []

/-- The specifiers in front of the name. -/
def specifiers : List Text :=
  if written.virtualFirst then written.virtualWords ++ written.accessWords
  else written.accessWords ++ written.virtualWords

/-- The text of the entry. -/
def text : Text :=
  ClassHead.entryText written.specifiers written.name.text

/-- The base that is written. -/
def base : Base where
  name := written.name.text
  access := written.access.getD .publicly
  isVirtual := written.isVirtual

/-- The order of the specifiers does not matter to what they are. -/
theorem mem_specifiers_iff (word : Text) :
    word ∈ written.specifiers ↔ word ∈ written.accessWords ∨ word ∈ written.virtualWords := by
  rw [specifiers]
  split
  · rw [List.mem_append, or_comm]
  · rw [List.mem_append]

theorem mem_accessWords_iff (access : Access) :
    access.word ∈ written.accessWords ↔ written.access = some access := by
  have injective : ∀ access ∈ Access.all, ∀ other ∈ Access.all,
      access.word = other.word → access = other := by
    decide
  have complete (access : Access) : access ∈ Access.all := by cases access <;> decide
  rw [accessWords, Option.mem_toList, Option.map_eq_some_iff]
  constructor
  · rintro ⟨other, isAccess, sameWord⟩
    rw [isAccess, injective other (complete other) access (complete access) sameWord]
  · exact fun isAccess => ⟨access, isAccess, rfl⟩

theorem virtual_not_mem_accessWords : "virtual".toList ∉ written.accessWords := by
  have notVirtual (access : Access) : access.word ≠ "virtual".toList := by cases access <;> decide
  intro member
  obtain ⟨access, -, isVirtual⟩ := Option.map_eq_some_iff.mp (Option.mem_toList.mp member)
  exact notVirtual access isVirtual

theorem mem_virtualWords_iff (word : Text) :
    word ∈ written.virtualWords ↔ written.isVirtual = true ∧ word = "virtual".toList := by
  rw [virtualWords]
  cases written.isVirtual <;> simp

theorem mem_baseSpecifiers :
    ∀ word ∈ written.specifiers, word ∈ ClassHead.baseSpecifiers := by
  intro word member
  rcases (written.mem_specifiers_iff word).mp member with isAccess | isVirtual
  · obtain ⟨access, -, rfl⟩ := Option.map_eq_some_iff.mp (Option.mem_toList.mp isAccess)
    cases access <;> decide
  · obtain ⟨-, rfl⟩ := (written.mem_virtualWords_iff word).mp isVirtual
    decide

/-- An access is among the specifiers if it is the one that is written. -/
theorem access_mem_specifiers_iff (access : Access) :
    access.word ∈ written.specifiers ↔ written.access = some access := by
  rw [mem_specifiers_iff, mem_accessWords_iff]
  refine or_iff_left fun isVirtual => ?_
  exact absurd ((written.mem_virtualWords_iff _).mp isVirtual).2 (by cases access <;> decide)

theorem virtual_mem_specifiers_iff :
    "virtual".toList ∈ written.specifiers ↔ written.isVirtual = true := by
  rw [mem_specifiers_iff, mem_virtualWords_iff]
  exact
    ⟨fun member => (member.resolve_left written.virtual_not_mem_accessWords).1,
      fun isVirtual => .inr ⟨isVirtual, rfl⟩⟩

theorem spaced : Text.Spaced written.text :=
  ClassHead.spaced_entryText written.mem_baseSpecifiers written.name.spaced

theorem isEntry : ClassHead.IsEntry (' ' :: written.text) :=
  ClassHead.isEntry_entryText written.mem_baseSpecifiers written.name.isEntry

/-- The entry is read as the base that is written. -/
theorem baseOf?_text :
    ClassHead.baseOf? (' ' :: written.text) = some written.base := by
  have words : Text.words written.name.text = written.name.words :=
    Text.words_unwords written.name.areWords
  have noSpecifier : ∀ word ∈ ClassHead.baseSpecifiers, word ∉ Text.words written.name.text := by
    rw [words]
    exact fun word isSpecifier member => written.name.noSpecifier word member isSpecifier
  have isProtected : "protected".toList ∈ written.specifiers ↔ written.access = some .protectedly :=
    written.access_mem_specifiers_iff .protectedly
  have isPrivate : "private".toList ∈ written.specifiers ↔ written.access = some .privately :=
    written.access_mem_specifiers_iff .privately
  have isVirtual : written.specifiers.contains "virtual".toList = written.isVirtual := by
    rw [Bool.eq_iff_iff, List.contains_iff_mem, virtual_mem_specifiers_iff]
  rw [text, ClassHead.baseOf?_entryText written.mem_baseSpecifiers written.name.spaced noSpecifier,
    isVirtual, base]
  simp only [isProtected, isPrivate]
  rcases written.access with - | access
  · simp
  · cases access <;> simp

theorem not_mem_text : '{' ∉ written.text := by
  have noBrace : ∀ word ∈ ClassHead.baseSpecifiers, '{' ∉ word := by decide
  rw [text, ClassHead.entryText]
  intro member
  rcases List.mem_append.mp member with inSpecifiers | inName
  · obtain ⟨word, isWord, inside⟩ := List.mem_flatMap.mp inSpecifiers
    rcases List.mem_append.mp inside with inWord | isSpace
    · exact noBrace word (written.mem_baseSpecifiers word isWord) inWord
    · exact absurd (List.mem_singleton.mp isSpace) (by decide)
  · exact written.name.not_mem_text inName

end WrittenBase

/-! ## Heads -/

/-- The name of a class: its colons mark scopes or stand inside angle brackets. -/
structure HeadName where
  text : Text
  notEmpty : text ≠ []
  solid : Text.Solid text
  noBrace : '{' ∉ text
  legal : ClassHead.LegalName text
  isScoped : ClassHead.IsScoped 0 none text
  notFinal : ∀ front blank,
    Text.isBlank blank = true → text ≠ front ++ blank :: "final".toList

/-- The head of a class, with the bases if there is a colon. -/
structure DerivedHead where
  word : Text
  isWord : word ∈ Block.declarationWords
  name : HeadName
  isFinal : Bool
  bases : Option (List WrittenBase)
  /-- What stands in front of the brace. -/
  gap : Text
  blank : ∀ character ∈ gap, Text.isBlank character = true

namespace DerivedHead

variable (head : DerivedHead)

/-- The word `final`, if it is written. -/
def finalWord : Text :=
  if head.isFinal then " final".toList else []

/-- The name with the word behind it. -/
def declared : Text :=
  head.name.text ++ head.finalWord

/-- The colon and the bases, if there is a colon. -/
def clause : Text :=
  match head.bases with
  | none => []
  | some bases => " : ".toList ++ [',', ' '].intercalate (bases.map WrittenBase.text)

/-- The text of the head. -/
def text : Text :=
  head.word ++ ' ' :: (head.declared ++ head.clause ++ head.gap)

/-! ## The name -/

theorem mem_finalWord :
    ∀ character ∈ head.finalWord, character ∉ ['<', '>', ':', '{'] := by
  rw [finalWord]
  cases head.isFinal <;> decide

theorem declared_ne_nil : head.declared ≠ [] :=
  List.append_ne_nil_of_left_ne_nil head.name.notEmpty _

theorem solid_declared : Text.Solid head.declared := by
  rw [declared, finalWord]
  split
  · have isFinal : " final".toList = [' '] ++ "final".toList := by decide
    have solidFinal : Text.Solid "final".toList := Text.solid_of_noBlank (by decide)
    rw [isFinal, ← List.append_assoc]
    exact head.name.solid.append_append head.name.notEmpty solidFinal (by decide) [' ']
  · rw [List.append_nil]
    exact head.name.solid

theorem isScoped_declared : ClassHead.IsScoped 0 none head.declared :=
  head.name.isScoped.append fun member => head.mem_finalWord ':' member (by decide)

/-- The word behind the name has no angle brackets. -/
theorem legalName_declared : ClassHead.LegalName head.declared := by
  obtain ⟨sameAngles, opensFirst⟩ := head.name.legal
  have noOpening : head.finalWord.count '<' = 0 :=
    List.count_eq_zero.mpr fun member => head.mem_finalWord '<' member (by decide)
  have noClosing : head.finalWord.count '>' = 0 :=
    List.count_eq_zero.mpr fun member => head.mem_finalWord '>' member (by decide)
  have noneFound : head.finalWord.find? (fun character => character = '<' || character = '>') =
      none := by
    refine List.find?_eq_none.mpr fun character member isAngle => ?_
    have notAngle := head.mem_finalWord character member
    simp_all
  refine ⟨?_, ?_⟩
  · rw [declared, List.count_append, List.count_append, sameAngles, noOpening, noClosing]
  · rw [declared, List.find?_append, noneFound, Option.or_none]
    exact opensFirst

/-- The name is what is left without the word behind it. -/
theorem dropFinal_declared : ClassHead.dropFinal head.declared = head.name.text := by
  rw [declared, finalWord]
  split
  · have isFinal : head.name.text ++ " final".toList =
        (head.name.text ++ [' ']) ++ "final".toList := by
      simp
    have blankLast : (head.name.text ++ [' ']).getLast?.any Text.isBlank = true := by
      rw [List.getLast?_concat]
      decide
    rw [isFinal, ClassHead.dropFinal, Text.dropEnding?_append]
    dsimp only
    rw [if_pos blankLast]
    exact Text.trimEnd_append head.name.solid.2 (by decide)
  · rw [List.append_nil]
    exact ClassHead.dropFinal_eq_self head.name.notFinal

/-! ## The head that is read -/

theorem noBrace_clause : '{' ∉ head.clause := by
  rw [clause]
  cases head.bases with
  | none => exact List.not_mem_nil
  | some bases =>
    intro member
    rcases List.mem_append.mp member with inMark | inBases
    · exact absurd inMark (by decide)
    · rcases Text.mem_intercalate inBases with inSeparator | ⟨text, isText, inText⟩
      · exact absurd inSeparator (by decide)
      · obtain ⟨written, -, rfl⟩ := List.mem_map.mp isText
        exact written.not_mem_text inText

theorem noBrace : '{' ∉ head.declared ++ head.clause ++ head.gap := by
  intro member
  rcases List.mem_append.mp member with front | inGap
  · rcases List.mem_append.mp front with inDeclared | inClause
    · rcases List.mem_append.mp inDeclared with inName | inFinal
      · exact head.name.noBrace inName
      · exact head.mem_finalWord '{' inFinal (by decide)
    · exact head.noBrace_clause inClause
  · have isBlank := head.blank '{' inGap
    have notBlank : Text.isBlank '{' = false := by decide
    rw [notBlank] at isBlank
    contradiction

/-- Behind the colon, the bases are read one by one. -/
theorem exists_trim_bases
    (bases : List WrittenBase)
    {gap : Text}
    (blank : ∀ character ∈ gap, Text.isBlank character = true) :
    ∃ rest,
      Text.trim (' ' :: (head.declared ++
        (" : ".toList ++ [',', ' '].intercalate (bases.map WrittenBase.text)) ++ gap)) =
          head.declared ++ ' ' :: ':' :: rest ∧
        rest.head? ≠ some ':' ∧ ClassHead.basesOf rest = bases.map WrittenBase.base := by
  have solidColon : Text.Solid [':'] := Text.solid_of_noBlank (by decide)
  have leading : ∀ character ∈ [' '], Text.isBlank character = true := by decide
  cases bases with
  | nil =>
    -- Without a base, the blank behind the colon is trimmed too.
    have solid := head.solid_declared.append_append head.declared_ne_nil solidColon (by simp) [' ']
    have trimmed := Text.trim_append_append [' '] (' ' :: gap) leading solid
      (List.forall_mem_cons.mpr ⟨by decide, blank⟩)
    exact ⟨[], by simpa using trimmed, by simp, rfl⟩
  | cons first later =>
    let texts := [',', ' '].intercalate ((first :: later).map WrittenBase.text)
    have spaced : Text.Spaced texts := by
      refine Text.spaced_intercalate (by simp) fun text member => ?_
      obtain ⟨written, -, rfl⟩ := List.mem_map.mp member
      exact written.spaced
    have textsNotEmpty : texts ≠ [] := by
      obtain ⟨character, isFirst, -⟩ := spaced.begins
      exact List.ne_nil_of_mem (List.mem_of_mem_head? isFirst)
    have solid := head.solid_declared.append_append head.declared_ne_nil spaced.solid textsNotEmpty
      " : ".toList
    have trimmed := Text.trim_append_append [' '] gap leading solid blank
    refine ⟨' ' :: texts, by simpa [texts] using trimmed, by simp, ?_⟩
    exact ClassHead.basesOf_intercalate (by simp) (fun written _ => written.isEntry)
      fun written _ => written.baseOf?_text

theorem nameAndBases_text :
    ClassHead.nameAndBases
        (Text.trim (' ' :: (head.declared ++ head.clause ++ head.gap))) =
      (head.declared, (head.bases.getD []).map WrittenBase.base) := by
  rw [clause]
  cases head.bases with
  | none =>
    have trimmed := Text.trim_append_append [' '] head.gap (by decide) head.solid_declared head.blank
    rw [List.append_nil, ← List.singleton_append, ← List.append_assoc, trimmed]
    exact ClassHead.nameAndBases_of_isScoped head.isScoped_declared
  | some bases =>
    obtain ⟨rest, trimmed, notScope, read⟩ := head.exists_trim_bases bases head.blank
    dsimp only
    rw [trimmed, ClassHead.nameAndBases_append head.isScoped_declared head.legalName_declared.1
      head.solid_declared notScope, read]
    rfl

/-- The name and the bases of the head are read, whatever stands around it. -/
theorem ofBlock_text
    (past body : Text) :
    ∃ read,
      ClassHead.ofBlock ⟨past, head.text ++ '{' :: body⟩ = .ok read ∧
        read.name = head.name.text ∧
          read.bases = (head.bases.getD []).map WrittenBase.base := by
  let block : Block := ⟨past, head.text ++ '{' :: body⟩
  have headRead := ClassHead.headOf_append head.isWord head.noBrace body
  refine ⟨ClassHead.ofParts block (head.declared, (head.bases.getD []).map WrittenBase.base),
    ?_, head.dropFinal_declared, rfl⟩
  rw [ClassHead.ofBlock_eq]
  dsimp only [block]
  rw [text, headRead, head.nameAndBases_text, if_pos head.legalName_declared]

/-- A scoped name with arguments, and a base with commas inside two kinds of brackets. -/
theorem ofBlock_text_nested :
    ∃ head : DerivedHead,
      head.text =
          "class ns::Box<A::B, c> final : virtual protected std::map<Key, f(A, B)>, Other ".toList ∧
        ∃ read,
          ClassHead.ofBlock ⟨[], head.text ++ '{' :: "\x7d;".toList⟩ = .ok read ∧
            read.name = "ns::Box<A::B, c>".toList ∧
              read.bases =
                [{ name := "std::map<Key, f(A, B)>".toList
                   access := .protectedly
                   isVirtual := true },
                  { name := "Other".toList }] := by
  let map : BaseName :=
    { words := ["std::map<Key,".toList, "f(A,".toList, "B)>".toList]
      notEmpty := by simp
      areWords := by unfold Text.AreWords; decide
      noSpecifier := by decide
      noBrace := by decide
      isEntry := ⟨by decide, by decide, by decide⟩ }
  let other : BaseName :=
    { words := ["Other".toList]
      notEmpty := by simp
      areWords := by unfold Text.AreWords; decide
      noSpecifier := by decide
      noBrace := by decide
      isEntry := ⟨by decide, by decide, by decide⟩ }
  let name : HeadName :=
    { text := "ns::Box<A::B, c>".toList
      notEmpty := by simp
      solid := by unfold Text.Solid; decide
      noBrace := by decide
      legal := by decide
      isScoped := by unfold ClassHead.IsScoped; decide
      notFinal := fun front blank _ shape => by
        have ends : "final".toList <:+ "ns::Box<A::B, c>".toList :=
          ⟨front ++ [blank], by rw [shape]; simp⟩
        exact absurd ends (by decide) }
  let head : DerivedHead :=
    { word := "class".toList
      isWord := by decide
      name
      isFinal := true
      bases := some
        [{ access := some .protectedly, isVirtual := true, virtualFirst := true, name := map },
          { access := none, isVirtual := false, virtualFirst := false, name := other }]
      gap := [' ']
      blank := by decide }
  exact ⟨head, by decide, head.ofBlock_text [] "\x7d;".toList⟩

end DerivedHead

end Written

end ClassOutline
