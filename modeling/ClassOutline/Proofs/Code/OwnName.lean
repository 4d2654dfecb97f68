import ClassOutline.Proofs.Code.Actions
import ClassOutline.Proofs.Code.Balance
/-!
# Own names of classes with qualified names

A qualified name is a list of components with scope marks between them.  Each component is an
identifier, and a list of template arguments may stand behind it.  The constructors and the
destructor of the class are to be named by the identifier of the last component.

What they are named by is the identifier of the first component that has arguments: the name is cut
at its first angle bracket before it is cut at scope marks.  So the functions have the right name
exactly if no component in front of the last one has arguments, or the first one that has some is
called like the last.
-/

namespace ClassOutline

/-! ## Qualified names -/

/-- A component of a qualified name. -/
structure NameComponent where
  /-- The identifier. -/
  identifier : Text
  /-- What stands between the angle brackets behind the identifier, if there are any. -/
  arguments? : Option Text := none
  plain : ∀ character ∈ identifier, character ∉ [':', '<', '>', '(']
  nested : ∀ arguments ∈ arguments?, Text.NestedIn '<' '>' arguments

namespace NameComponent

/-- The text of a component. -/
def text (component : NameComponent) : Text :=
  match component.arguments? with
  | none => component.identifier
  | some arguments => component.identifier ++ '<' :: (arguments ++ ['>'])

variable (component : NameComponent)

theorem colon_not_mem : ':' ∉ component.identifier :=
  fun member => component.plain ':' member (by decide)

theorem bracket_not_mem : '<' ∉ component.identifier :=
  fun member => component.plain '<' member (by decide)

theorem parenthesis_not_mem : '(' ∉ component.identifier :=
  fun member => component.plain '(' member (by decide)

/-- Up to the first angle bracket, a component with arguments is read as its identifier alone. -/
theorem takeWhile_text_append (rest : Text) :
    (component.text ++ rest).takeWhile (· ≠ '<') =
      component.identifier ++
        if component.arguments?.isSome then [] else rest.takeWhile (· ≠ '<') := by
  cases given : component.arguments? with
  | none =>
    simp only [text, given]
    exact Text.takeWhile_append_of_not_mem component.bracket_not_mem rest
  | some arguments =>
    simp only [text, given, List.append_assoc, List.cons_append]
    rw [Text.takeWhile_append_cons component.bracket_not_mem]
    exact (List.append_nil _).symm

end NameComponent

/-- A qualified name: the components in front of the last one, and the last one. -/
structure QualifiedName where
  scopes : List NameComponent := []
  last : NameComponent

namespace QualifiedName

/-- The text of a qualified name. -/
def text (name : QualifiedName) : Text :=
  (name.scopes.flatMap fun component => component.text ++ [':', ':']) ++ name.last.text

/-- The first component with arguments; if there is none, the last component. -/
def firstApplied (name : QualifiedName) : NameComponent :=
  (name.scopes.find? (·.arguments?.isSome)).getD name.last

/-- The components in front of the first one with arguments, other than the last. -/
def plainScopes (name : QualifiedName) : List NameComponent :=
  name.scopes.takeWhile (·.arguments?.isNone)

/-- The name up to its first angle bracket. -/
theorem takeWhile_text (name : QualifiedName) :
    name.text.takeWhile (· ≠ '<') =
      (name.plainScopes.flatMap fun component => component.identifier ++ [':', ':']) ++
        name.firstApplied.identifier := by
  obtain ⟨scopes, last⟩ := name
  induction scopes with
  | nil =>
    have alone := last.takeWhile_text_append []
    rw [List.append_nil] at alone
    simpa [text, plainScopes, firstApplied] using alone
  | cons component scopes hypothesis =>
    have scopeMark : '<' ∉ ([':', ':'] : Text) := by decide
    have shape : text ⟨component :: scopes, last⟩ =
        component.text ++ ([':', ':'] ++ text ⟨scopes, last⟩) := by
      simp [text]
    rw [shape, component.takeWhile_text_append, Text.takeWhile_append_of_not_mem scopeMark,
      hypothesis]
    cases given : component.arguments? <;> simp [plainScopes, firstApplied, given]

/-- The own name of a class is the identifier of the first component with arguments. -/
theorem ownName_eq
    {outline : Outline}
    {name : QualifiedName}
    (named : outline.name = name.text) :
    outline.ownName = name.firstApplied.identifier := by
  have noColon := name.firstApplied.colon_not_mem
  have noMark : Text.Lacks (':' :: name.firstApplied.identifier) [':', ':'] := by
    -- The scope mark has one colon more than the text.
    intro occurs
    have colons : 2 ≤ (':' :: name.firstApplied.identifier).count ':' :=
      occurs.sublist.count_le ':'
    rw [List.count_cons_self, List.count_eq_zero.mpr noColon] at colons
    contradiction
  rw [Outline.ownName, named, takeWhile_text]
  rcases List.eq_nil_or_concat name.plainScopes with noScopes | ⟨scopes, scope, shape⟩
  · have noCut := Text.cutAtLast?_eq_none (noMark.of_isInfix (List.suffix_cons ':' _).isInfix)
    simp only [noScopes, List.flatMap_nil, List.nil_append, noCut]
  · have cut := Text.cutAtLast?_append
      ((scopes.flatMap fun component => component.identifier ++ [':', ':']) ++ scope.identifier)
      name.firstApplied.identifier noMark
    have joined : (name.plainScopes.flatMap fun component =>
        component.identifier ++ [':', ':']) ++ name.firstApplied.identifier =
          (scopes.flatMap fun component => component.identifier ++ [':', ':']) ++
            scope.identifier ++ [':', ':'] ++ name.firstApplied.identifier := by
      rw [shape, List.concat_eq_append, List.flatMap_append, List.flatMap_singleton]
      simp only [List.append_assoc]
    simp only [joined, cut]

end QualifiedName

/-! ## Functions under a name -/

/--
The code begins with a function that has a given name and no result type.  In the body of the class
the name stands behind the indentation, and behind the class it is qualified by that of the class.
-/
def GeneratedCode.BeginsWith (className indent name : Text) : GeneratedCode → Prop
  | .inside text => ∃ rest, text = ['\n'] ++ indent ++ (name ++ '(' :: rest)
  | .apart declaration definition =>
    (∃ rest, declaration = indent ++ (name ++ '(' :: rest)) ∧
      ∃ rest, definition = ['\n'] ++ className ++ [':', ':'] ++ (name ++ '(' :: rest)

/-- A function without a result type is found under its own name alone. -/
theorem Writer.beginsWith_code_iff
    {ownName name : Text}
    (writer : Writer)
    (parameters : Text)
    (initializers : List Text)
    (body : FunctionBody)
    (noneOwn : '(' ∉ ownName)
    (noneGiven : '(' ∉ name) :
    (writer.code [{ declarator := ownName ++ '(' :: parameters, initializers, body }]).BeginsWith
        writer.outline.name writer.indent name ↔
      ownName = name := by
  have found (front behind : Text) :
      (∃ rest, front ++ (ownName ++ '(' :: behind) = front ++ (name ++ '(' :: rest)) ↔
        ownName = name := by
    simp only [List.append_cancel_left_eq]
    constructor
    · rintro ⟨rest, same⟩
      exact Text.append_cons_inj noneOwn noneGiven same
    · rintro rfl
      exact ⟨behind, rfl⟩
  rw [Writer.code]
  cases writer.placement with
  | inside =>
    simpa only [GeneratedCode.BeginsWith, List.flatMap_singleton, GeneratedFunction.inside,
      GeneratedFunction.signature, List.append_assoc, List.cons_append, List.nil_append] using
      found (['\n'] ++ writer.indent) _
  | apart =>
    simpa only [GeneratedCode.BeginsWith, List.flatMap_singleton, GeneratedFunction.declaration,
      GeneratedFunction.definition, GeneratedFunction.signature, List.append_assoc,
      List.cons_append, List.nil_append, if_true, and_self] using
      and_congr (found writer.indent _) (found (['\n'] ++ writer.outline.name ++ [':', ':']) _)

/-! ## Constructors and the destructor -/

section Functions

variable (writer : Writer) {name : Text}

theorem Writer.beginsWith_constructor_iff
    (coverage : Coverage)
    (noneOwn : '(' ∉ writer.outline.ownName)
    (noneGiven : '(' ∉ name) :
    (writer.constructor coverage).BeginsWith writer.outline.name writer.indent name ↔
      writer.outline.ownName = name := by
  have shape (members : List DataMember) :
      writer.outline.constructor members =
        { declarator := writer.outline.ownName ++ '(' ::
            (commaSeparated (members.map fun member => member.parameter member.name) ++ [')'])
          initializers := members.map fun member => member.initializer member.name
          body := .empty !members.isEmpty } := by
    simp only [Outline.constructor, List.append_assoc, List.cons_append, List.nil_append]
  rw [Writer.constructor, (writer.covers coverage).constructor, shape]
  exact writer.beginsWith_code_iff _ _ _ noneOwn noneGiven

theorem Writer.beginsWith_destructor_iff
    (noneOwn : '(' ∉ writer.outline.ownName)
    (noneGiven : '(' ∉ name) :
    writer.destructor.BeginsWith writer.outline.name writer.indent ('~' :: name) ↔
      writer.outline.ownName = name := by
  have code : writer.destructor = writer.code
      [{ declarator := ('~' :: writer.outline.ownName) ++ '(' :: [')'], body := .empty true }] :=
    writer.generate_eq_code .destructor .all
  rw [code, writer.beginsWith_code_iff _ _ _ (by simpa using noneOwn) (by simpa using noneGiven)]
  exact List.cons_inj_right '~'

end Functions

/--
Whatever else a class with a qualified name is, and however and where its functions are written: its
constructor and its destructor are named by the identifier of the last component of the name exactly
if the first component with arguments, if there is one, has that identifier.
-/
theorem QualifiedName.namesFunctions_iff
    (name : QualifiedName)
    (outline : Outline)
    (style : Style)
    (coverage : Coverage) :
    let writer := Writer.ofStyle { outline with name := name.text } style
    ((writer.constructor coverage).BeginsWith name.text style.indent name.last.identifier ↔
        name.firstApplied.identifier = name.last.identifier) ∧
      (writer.destructor.BeginsWith name.text style.indent ('~' :: name.last.identifier) ↔
        name.firstApplied.identifier = name.last.identifier) := by
  intro writer
  have ownName : writer.outline.ownName = name.firstApplied.identifier := name.ownName_eq rfl
  have noneOwn : '(' ∉ writer.outline.ownName := ownName ▸ name.firstApplied.parenthesis_not_mem
  have noneLast := name.last.parenthesis_not_mem
  rw [← ownName]
  exact ⟨writer.beginsWith_constructor_iff coverage noneOwn noneLast,
    writer.beginsWith_destructor_iff noneOwn noneLast⟩

/-- The destructor of a class that is declared in a specialization of another one. -/
theorem Writer.not_beginsWith_destructor_memberOfSpecialization :
    let name : QualifiedName :=
      { scopes :=
          [{ identifier := "Outer".toList
             arguments? := some "int".toList
             plain := by decide
             nested := by decide }]
        last := { identifier := "Inner".toList, plain := by decide, nested := by decide } }
    let outline : Outline :=
      { name := name.text, templateClause := "template <>".toList, startLine := 1, endLine := 2 }
    name.text = "Outer<int>::Inner".toList ∧
      (ofStyle outline {}).destructor = .inside "\n\t~Outer()\x7b\x7d;\n".toList ∧
        ¬ (ofStyle outline {}).destructor.BeginsWith name.text ['\t']
          ('~' :: name.last.identifier) := by
  intro name outline
  have noneOwn : '(' ∉ outline.ownName := by decide
  have named : (ofStyle outline {}).destructor.BeginsWith name.text ['\t']
      ('~' :: name.last.identifier) ↔ outline.ownName = name.last.identifier :=
    (ofStyle outline {}).beginsWith_destructor_iff noneOwn name.last.parenthesis_not_mem
  have different : outline.ownName ≠ name.last.identifier := by decide
  exact ⟨by decide, by decide, fun begins => different (named.mp begins)⟩

end ClassOutline
