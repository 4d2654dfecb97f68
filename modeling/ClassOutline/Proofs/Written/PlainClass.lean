import ClassOutline.Proofs.Scan.Blocks
import ClassOutline.Proofs.Written.ClassModel
/-!
# Plain classes

A plain class has a single identifier as its name and on each line a single member, with a single
identifier as its type.  Its block gives an outline with its name.  A member is lost exactly if its
type is `_STD`: this word is read as the front part of the word behind it.
-/

namespace ClassOutline.Written

/-! ## Members -/

/-- A member with a type of one identifier. -/
structure PlainMember where
  type : Identifier []
  name : Identifier []

namespace PlainMember

/-- The text of the member without its semicolon. -/
def text (member : PlainMember) : Text :=
  member.type.text ++ ' ' :: member.name.text

/-- The member that is declared. -/
def dataMember (member : PlainMember) : DataMember where
  name := member.name.text
  declaredType := member.type.text
  byValue := Declaration.builtinWords.contains member.type.text

/-- The path of the identifier of the type. -/
def typePath (member : PlainMember) : Path [] where
  identifiers := [member.type]
  notEmpty := List.cons_ne_nil _ _

theorem typePath_text (member : PlainMember) : member.typePath.text = member.type.text := by
  simp [typePath, Path.text]

/-- The member as a line of members. -/
def line (member : PlainMember) : MemberLine [] where
  isStatic := false
  type := [⟨member.typePath.text, .path member.typePath⟩]
  declarators := [⟨member.name, .plain, by simp [Decoration.extent?]⟩]
  typeNotEmpty := List.cons_ne_nil _ _
  declaratorsNotEmpty := List.cons_ne_nil _ _

theorem line_text (member : PlainMember) : member.line.text = member.text := by
  simp [MemberLine.text, MemberLine.typeText, Text.unwords, line, typePath_text, text,
    Declarator.text, Decoration.text, Identifier.word]

theorem line_members (member : PlainMember) : member.line.members = [member.dataMember] := by
  simp [MemberLine.members, MemberLine.typeText, MemberLine.isBuiltin, Text.unwords, line,
    typePath_text, dataMember, Declarator.member, Decoration.member, Identifier.word]

/-- Whether the type is read as the front part of the word behind it. -/
def hasPrefixType (member : PlainMember) : Bool :=
  member.type.text = "_STD".toList

theorem areWords (member : PlainMember) :
    Text.AreWords [member.type.text, member.name.text] := by
  have isSolid (identifier : Identifier []) :
      identifier.text ≠ [] ∧ ∀ character ∈ identifier.text, Text.isBlank character = false :=
    ⟨identifier.isWord.1, fun character isInside =>
      isBlank_eq_false_of_isNameCharacter (identifier.isWord.2 character isInside)⟩
  intro word isWord
  rcases List.mem_cons.mp isWord with rfl | isName
  · exact isSolid member.type
  · obtain rfl := List.mem_singleton.mp isName
    exact isSolid member.name

theorem text_eq_unwords (member : PlainMember) :
    member.text = Text.unwords [member.type.text, member.name.text] := by
  simp [text, Text.unwords]

/-- A prefix and the name behind it are a single token. -/
theorem tokens_text
    {member : PlainMember}
    (isPrefix : member.hasPrefixType = true) :
    Declaration.tokens member.text = ["_STD".toList ++ member.name.text] := by
  have isFragment : Declaration.isFragment "_STD".toList = true := by decide
  have type : member.type.text = "_STD".toList := by simpa [hasPrefixType] using isPrefix
  rw [Declaration.tokens, text_eq_unwords, Text.words_unwords member.areWords, type, Text.regroup,
    Text.regroup.extend, if_pos isFragment, List.append_nil]
  rfl

theorem not_mem_token
    {mark : Char}
    (member : PlainMember)
    (noName : isNameCharacter mark = false) :
    mark ∉ "_STD".toList ++ member.name.text := by
  have isWord : IsWord "_STD".toList := by decide
  intro isInside
  rcases List.mem_append.mp isInside with inPrefix | inName
  · exact isWord.not_mem noName inPrefix
  · exact member.name.isWord.not_mem noName inName

/-- No pass changes the single token. -/
theorem passes_text
    {member : PlainMember}
    (isPrefix : member.hasPrefixType = true) :
    (Declaration.withoutValues false (Declaration.tokens member.text)).map
        Declaration.withoutBraces = ["_STD".toList ++ member.name.text] := by
  have noSigns : ∀ token ∈ ["_STD".toList ++ member.name.text], token ≠ ['='] := by
    intro token isToken equal
    obtain rfl := List.mem_singleton.mp isToken
    have noSign : '=' ∉ "_STD".toList ++ member.name.text := member.not_mem_token (by decide)
    exact noSign (equal ▸ List.mem_cons_self)
  have noBraces : ∀ token ∈ ["_STD".toList ++ member.name.text], '{' ∉ token := by
    intro token isToken
    obtain rfl := List.mem_singleton.mp isToken
    exact member.not_mem_token (by decide)
  rw [tokens_text isPrefix, Declaration.withoutValues_of_noSign noSigns,
    Declaration.map_withoutBraces noBraces]

/-- No type stands in front of the single token. -/
theorem typeAndDeclarators_token (member : PlainMember) :
    Declaration.typeAndDeclarators ["_STD".toList ++ member.name.text] =
      ([], ["_STD".toList ++ member.name.text]) := by
  have noComma : ',' ∉ "_STD".toList ++ member.name.text := member.not_mem_token (by decide)
  have notListed := Declaration.isListed_eq_false (Declaration.endsWithComma_eq_false noComma)
  rw [Declaration.typeAndDeclarators, List.any_cons, notListed]
  rfl

/-- What the line of the member declares. -/
theorem members_text (member : PlainMember) :
    Declaration.members (member.text ++ [';']) =
      if member.hasPrefixType then .error (.unresolvedDeclaration (member.text ++ [';']))
      else .ok [member.dataMember] := by
  split
  · next isPrefix =>
    have spaced : Text.Spaced member.text :=
      ⟨_, List.cons_ne_nil _ _, member.areWords, member.text_eq_unwords.symm⟩
    have solid : Text.Solid (member.text ++ [';']) :=
      Text.solid_append_singleton spaced.begins (by decide)
    rw [Declaration.members]
    dsimp only
    rw [Text.trim_of_solid solid, Text.dropEnding?_append]
    dsimp only
    rw [passes_text isPrefix]
    dsimp only
    rw [member.typeAndDeclarators_token]
    rfl
  · next noPrefix =>
    have noPrefix : ∀ name ∈ member.line.type, name.text ≠ "_STD".toList := by
      simpa [hasPrefixType, line, typePath_text] using noPrefix
    have read := member.line.members_text noPrefix
    rwa [line_text, line_members] at read

end PlainMember

/-! ## Classes -/

/-- A class with a name of one identifier, no bases and plain members. -/
structure PlainClass where
  name : Identifier []
  members : List PlainMember

namespace PlainClass

/-- The text of the class: its first line, a line for each member, and its last line. -/
def text (plain : PlainClass) : Text :=
  "class ".toList ++ plain.name.text ++ [' ', '{', '\n'] ++
    plain.members.flatMap (fun member => member.text ++ [';', '\n']) ++ ['}', ';', '\n']

/-- The members that are declared. -/
def dataMembers (plain : PlainClass) : List DataMember :=
  plain.members.map PlainMember.dataMember

/-- The members that are found. -/
def foundMembers (plain : PlainClass) : List DataMember :=
  (plain.members.filter fun member => !member.hasPrefixType).map PlainMember.dataMember

/-- The path of the identifier of the class. -/
def path (plain : PlainClass) : Path [] where
  identifiers := [plain.name]
  notEmpty := List.cons_ne_nil _ _

theorem path_text (plain : PlainClass) : plain.path.text = plain.name.text := by
  simp [path, Path.text]

/-- The class as one that is written on several lines. -/
def model (plain : PlainClass) : ClassModel [] where
  parameters := []
  line :=
    { word := "class".toList
      isWord := List.mem_cons_self
      name := plain.path
      entries := [] }
  memberLines := plain.members.map PlainMember.line

/-- The declaration of the class. -/
def declared (plain : PlainClass) : Block.Declared :=
  plain.model.declared

theorem templateLine_eq (plain : PlainClass) : plain.model.templateLine = [] :=
  if_pos rfl

theorem model_text (plain : PlainClass) : plain.model.text = plain.declared.block ++ [';'] := by
  rw [ClassModel.text_eq, templateLine_eq, List.nil_append, declared]

theorem declared_head (plain : PlainClass) :
    plain.declared.head = ' ' :: (plain.name.text ++ [' ']) := by
  have noClause : plain.model.line.clause = [] := if_pos rfl
  have shape : plain.declared.head =
      ' ' :: (plain.path.text ++ plain.model.line.clause ++ [' ']) := rfl
  rw [shape, noClause, List.append_nil, path_text]

theorem declared_body (plain : PlainClass) :
    plain.declared.body =
      '\n' :: plain.members.flatMap (fun member => member.text ++ [';', '\n']) := by
  have lines : (plain.members.map PlainMember.line).map MemberLine.text =
      plain.members.map PlainMember.text := by
    rw [List.map_map]
    exact List.map_congr_left fun member _ => member.line_text
  have shape : plain.declared.body = '\n' ::
      ((plain.members.map PlainMember.line).map MemberLine.text).flatMap (· ++ [';', '\n']) := rfl
  rw [shape, lines, List.flatMap_map]

theorem text_eq (plain : PlainClass) : plain.text = plain.declared.block ++ [';', '\n'] := by
  have shape : plain.declared.block =
      "class".toList ++ plain.declared.head ++ '{' :: (plain.declared.body ++ ['}']) := rfl
  have word : "class ".toList = "class".toList ++ [' '] := rfl
  unfold text
  rw [shape, declared_head, declared_body, word]
  simp only [List.append_assoc, List.cons_append, List.nil_append]

/-! ## The scan of the text -/

theorem calm_ending : Block.Calm [';', '\n'] ∧ Block.braces [';', '\n'] = 0 :=
  ⟨Block.calm_of_foreign (by decide), by decide⟩

theorem text_append
    (plain : PlainClass)
    (rest : Text) :
    plain.text ++ rest = plain.declared.block ++ ([';', '\n'] ++ rest) := by
  rw [text_eq, List.append_assoc]

theorem reverse_text_append
    (plain : PlainClass)
    (past : Text) :
    [';', '\n'].reverse ++ (plain.declared.block.reverse ++ past) = plain.text.reverse ++ past := by
  rw [text_eq, List.reverse_append, List.append_assoc]

/-- Inside a region, the scan finds the class at depth zero and goes on behind it. -/
theorem blocksFrom_text_append
    {past : Text}
    (plain : PlainClass)
    (depth : Int)
    (ready : Ready past)
    (rest : Text) :
    Block.blocksFrom past depth (plain.text ++ rest) =
      (if depth = 0 then [⟨past, plain.declared.block⟩] else []) ++
        Block.blocksFrom (plain.text.reverse ++ past) depth rest := by
  rw [text_append, plain.declared.blocksFrom_block_append depth ready.fresh,
    Block.blocksFrom_append _ _ calm_ending.1, calm_ending.2, Int.add_zero, reverse_text_append]

/-- The first class of a text opens the first region. -/
theorem blocksAfter_text_append
    (plain : PlainClass)
    (past rest : Text) :
    Block.blocksAfter past (plain.text ++ rest) =
      ⟨past, plain.declared.block⟩ :: Block.blocksFrom (plain.text.reverse ++ past) 0 rest := by
  rw [text_append, plain.declared.blocksAfter_block_append,
    Block.blocksFrom_append _ _ calm_ending.1, calm_ending.2, Int.add_zero, reverse_text_append]

/-! ## The outline -/

/-- All members are found if and only if none has the type `_STD`. -/
theorem foundMembers_eq_iff (plain : PlainClass) :
    plain.foundMembers = plain.dataMembers ↔
      ∀ member ∈ plain.members, member.type.text ≠ "_STD".toList := by
  have noPrefix : (∀ member ∈ plain.members, (!member.hasPrefixType) = true) ↔
      ∀ member ∈ plain.members, member.type.text ≠ "_STD".toList := by
    simp [PlainMember.hasPrefixType]
  rw [← noPrefix, foundMembers, dataMembers]
  constructor
  · intro equal
    have sameLength := congrArg List.length equal
    rw [List.length_map, List.length_map] at sameLength
    exact List.length_filter_eq_length_iff.mp sameLength
  · intro kept
    rw [List.filter_eq_self.mpr kept]

/-- What the lines of members declare, line by line. -/
theorem ofText_block (plain : PlainClass) :
    (Body.ofText plain.declared.block).members = plain.foundMembers := by
  have declarations : plain.model.memberLines.map
      (fun line => Declaration.members (line.text ++ [';'])) =
        plain.members.map fun member => Declaration.members (member.text ++ [';']) := by
    rw [model, List.map_map]
    exact List.map_congr_left fun member _ => by
      rw [Function.comp_apply, member.line_text]
  have found (members : List PlainMember) :
      (Body.ofDeclarations (members.map fun member =>
        Declaration.members (member.text ++ [';']))).members =
        (members.filter fun member => !member.hasPrefixType).map PlainMember.dataMember := by
    induction members with
    | nil => rfl
    | cons member members hypothesis =>
      rw [Body.ofDeclarations] at hypothesis ⊢
      rw [List.map_cons, List.foldr_cons, member.members_text, List.filter_cons]
      cases member.hasPrefixType with
      | false => simpa [Body.cons] using hypothesis
      | true => simpa [Body.cons] using hypothesis
  rw [declared, plain.model.ofText_block, declarations, found, foundMembers]

/-- The outline of the class, with the members that are found. -/
theorem outlineOfBlock?_block
    {past : Text}
    (options : ScanOptions)
    (plain : PlainClass)
    (ready : Ready past) :
    Scan.outlineOfBlock? options ⟨past, plain.declared.block⟩ =
      some
        { name := plain.name.text
          members := plain.foundMembers
          startLine := past.lineBreaks
          endLine := past.lineBreaks + (plain.members.length + 1) } := by
  have head := plain.model.ofBlock_block (.inl rfl) ready
  have instanceOnly : plain.foundMembers.filter
      (fun member => !(options.skipStatic && member.isStatic)) = plain.foundMembers := by
    rw [List.filter_eq_self]
    intro member isMember
    obtain ⟨plainMember, -, rfl⟩ := List.mem_map.mp isMember
    simp [PlainMember.dataMember]
  rw [templateLine_eq, List.reverse_nil, List.nil_append] at head
  rw [Scan.outlineOfBlock?, declared, head]
  dsimp only
  rw [Scan.outlineOf, ← declared, plain.ofText_block, instanceOnly]
  simp [Outline.onLines, model, path_text, ClassModel.templateClause]

end PlainClass

end ClassOutline.Written
