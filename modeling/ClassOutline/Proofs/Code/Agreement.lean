import ClassOutline.Proofs.Code.Forms
/-!
# Agreement of the templates

The templates of a function are worded one by one, for each text of its own.  They agree all the
same: filled in, the three texts are the forms of one function, whose signature, initializers and
body are the same in each.

Texts that are put together one function after the other are the forms of these functions in order.
So what a writer renders for an action are the three forms of the functions of the action, and the
code that it keeps of them is the code for these functions.
-/

namespace ClassOutline

/-! ## The forms of functions in order -/

namespace Renderings

theorem append_eq (first second : Renderings) :
    first ++ second =
      { inside := first.inside ++ second.inside
        declaration := first.declaration ++ second.declaration
        definition := first.definition ++ second.definition } :=
  rfl

variable (className indent : Text)

theorem ofFunctions_nil : ofFunctions className indent [] = {} :=
  rfl

theorem ofFunctions_append (first second : List GeneratedFunction) :
    ofFunctions className indent (first ++ second) =
      ofFunctions className indent first ++ ofFunctions className indent second := by
  simp only [ofFunctions, append_eq, List.flatMap_append]

/-- The forms of a single function. -/
theorem ofFunctions_singleton (function : GeneratedFunction) :
    ofFunctions className indent [function] =
      { inside := function.inside indent
        declaration := function.declaration indent
        definition := function.definition className indent } := by
  simp only [ofFunctions, List.flatMap_singleton]

theorem ofFunctions_cons
    (function : GeneratedFunction)
    (functions : List GeneratedFunction) :
    ofFunctions className indent (function :: functions) =
      ofFunctions className indent [function] ++ ofFunctions className indent functions :=
  ofFunctions_append className indent [function] functions

/-- Texts that are written for items one after the other. -/
theorem foldl_ofFunctions
    {item : Type}
    {render : item → Renderings}
    {function : item → GeneratedFunction}
    (agrees : ∀ one, render one = ofFunctions className indent [function one])
    (begun : List GeneratedFunction)
    (items : List item) :
    items.foldl (fun written one => written ++ render one) (ofFunctions className indent begun) =
      ofFunctions className indent (begun ++ items.map function) := by
  induction items generalizing begun with
  | nil => rw [List.map_nil, List.append_nil, List.foldl_nil]
  | cons one items hypothesis =>
    rw [List.foldl_cons, agrees, ← ofFunctions_append, hypothesis, List.map_cons,
      List.append_assoc, List.singleton_append]

end Renderings

/-! ## The templates -/

namespace Writer

open GeneratedFunction Renderings

variable (writer : Writer)

/-- The forms of functions in the class of the writer. -/
abbrev forms (functions : List GeneratedFunction) : Renderings :=
  ofFunctions writer.outline.name writer.indent functions

/-- The wording of the three forms of a function. -/
theorem forms_singleton (function : GeneratedFunction) :
    writer.forms [function] =
      { inside :=
          '\n' :: (writer.indent ++ (function.specifier ++ (function.result ++
            (function.declarator ++ (initializerList function.initializers ++
              (function.body.render true writer.indent (writer.indent ++ writer.indent) ++
                ['\n']))))))
        declaration :=
          writer.indent ++ (function.specifier ++ (function.result ++
            (function.declarator ++ [';', '\n'])))
        definition :=
          '\n' :: (function.result ++
            ((if function.isMember then writer.outline.name ++ [':', ':'] else []) ++
              (function.declarator ++ (initializerList function.initializers ++
                (function.body.render false [] writer.indent ++ ['\n']))))) } := by
  rw [forms, ofFunctions_singleton, GeneratedFunction.inside, GeneratedFunction.declaration,
    GeneratedFunction.definition, signature, initializerClause]
  simp only [List.append_assoc, List.cons_append, List.nil_append]

theorem renderGetter_eq (member : DataMember) :
    writer.renderGetter member = writer.forms [member.getter] := by
  rw [forms_singleton]
  unfold renderGetter DataMember.getter initializerList FunctionBody.render
  simp

theorem renderSetter_eq (member : DataMember) :
    writer.renderSetter member = writer.forms [member.setter writer.outline] := by
  rw [forms_singleton]
  unfold renderSetter DataMember.setter initializerList FunctionBody.render
  cases member.isStatic <;> simp

/-- The getters are written first, and the setters behind them. -/
theorem renderAccessors_eq (coverage : Coverage) (getters setters : Bool) :
    writer.renderAccessors coverage getters setters =
      writer.forms
        ((if getters then (coverage.membersOf true writer.outline).map DataMember.getter else []) ++
          if setters then
            (coverage.membersOf true writer.outline).map (DataMember.setter writer.outline)
          else []) := by
  have gettersAgree := foldl_ofFunctions writer.outline.name writer.indent writer.renderGetter_eq []
    (coverage.membersOf true writer.outline)
  have settersAgree := foldl_ofFunctions writer.outline.name writer.indent writer.renderSetter_eq
  rw [ofFunctions_nil, List.nil_append] at gettersAgree
  rw [renderAccessors, gettersAgree, ← ofFunctions_nil writer.outline.name writer.indent,
    ← apply_ite]
  cases setters with
  | false => rw [if_neg Bool.false_ne_true, if_neg Bool.false_ne_true, List.append_nil]
  | true => rw [if_pos rfl, if_pos rfl, settersAgree]

/-- Without parameters, the constructor has templates of its own. -/
theorem renderConstructor_eq (coverage : Coverage) :
    writer.renderConstructor coverage =
      writer.forms [writer.outline.constructor (coverage.membersOf false writer.outline)] := by
  rw [forms_singleton]
  unfold renderConstructor Outline.constructor FunctionBody.render
  cases coverage.membersOf false writer.outline with
  | nil => simp [commaSeparated, initializerList]
  | cons member later => simp [DataMember.initializer]

theorem renderDestructor_eq :
    writer.renderDestructor = writer.forms [writer.outline.destructor] := by
  rw [forms_singleton]
  unfold renderDestructor Outline.destructor initializerList FunctionBody.render
  simp

/-- A constructor and the assignment behind it take over the same parts of the other object. -/
theorem renderSemantics_eq
    {initializers : Text}
    {source : Text → Text}
    (parameter : Text)
    (takesOver : initializers = initializerList (writer.outline.instanceMembers.map fun member =>
      member.initializer (source ("rhs".toList ++ ['.'] ++ member.name)))) :
    writer.renderSemantics parameter initializers (source "rhs".toList) =
      writer.forms (writer.outline.semantics parameter source) := by
  have noInitializers : initializerList [] = [] := rfl
  unfold Outline.semantics
  rw [forms, ofFunctions_cons, append_eq, ← forms, ← forms, forms_singleton, forms_singleton,
    ← takesOver, noInitializers]
  unfold renderSemantics assignmentBody FunctionBody.render
  simp

theorem renderCopySemantics_eq :
    writer.renderCopySemantics = writer.forms writer.outline.copySemantics :=
  @renderSemantics_eq writer _ id _ (by simp [DataMember.initializer])

theorem renderMoveSemantics_eq :
    writer.renderMoveSemantics = writer.forms writer.outline.moveSemantics :=
  @renderSemantics_eq writer _ (fun part => "std::move(".toList ++ part ++ [')']) _
    (by simp [DataMember.initializer])

theorem renderStringConversion_eq :
    writer.renderStringConversion = writer.forms [Outline.stringConversion] := by
  rw [forms_singleton]
  unfold renderStringConversion conversionBody Outline.stringConversion initializerList
    FunctionBody.render
  simp

/-- The operator is no member of the class, so nothing qualifies its name. -/
theorem renderStreamOperator_eq (coverage : Coverage) :
    writer.renderStreamOperator coverage =
      writer.forms [writer.outline.streamOperator (coverage.membersOf true writer.outline)] := by
  rw [forms_singleton]
  unfold renderStreamOperator Outline.streamOperator initializerList FunctionBody.render
  simp

theorem renderEqualityOperator_eq :
    writer.renderEqualityOperator = writer.forms [writer.outline.equalityOperator] := by
  rw [forms_singleton]
  unfold renderEqualityOperator Outline.equalityOperator initializerList FunctionBody.render
  simp

theorem renderBoolOperator_eq :
    writer.renderBoolOperator = writer.forms [Outline.boolOperator] := by
  rw [forms_singleton]
  unfold renderBoolOperator Outline.boolOperator initializerList FunctionBody.render
  simp

/-! ## Actions -/

theorem renderAll_eq (coverage : Coverage) :
    writer.renderAll = writer.forms (writer.outline.functions .all coverage) := by
  have accessors := writer.renderAccessors_eq .all true true
  rw [if_pos rfl, if_pos rfl] at accessors
  rw [renderAll, renderConstructor_eq, renderDestructor_eq, renderCopySemantics_eq,
    renderMoveSemantics_eq, accessors, renderStringConversion_eq, renderStreamOperator_eq,
    renderEqualityOperator_eq, renderBoolOperator_eq]
  simp only [forms, ← ofFunctions_append]
  simp [Outline.functions, Outline.partsOfAll, Outline.partFunctions]

/-- What is rendered for an action are the forms of its functions. -/
theorem render_eq
    (action : Action)
    (coverage : Coverage) :
    writer.render action coverage = writer.forms (writer.outline.functions action coverage) := by
  cases action with
  | all => exact writer.renderAll_eq coverage
  | constructor => exact writer.renderConstructor_eq coverage
  | destructor => exact writer.renderDestructor_eq
  | copySemantics => exact writer.renderCopySemantics_eq
  | moveSemantics => exact writer.renderMoveSemantics_eq
  | getters =>
    have accessors := writer.renderAccessors_eq coverage true false
    rwa [if_neg Bool.false_ne_true, List.append_nil] at accessors
  | setters => exact writer.renderAccessors_eq coverage false true
  | gettersAndSetters => exact writer.renderAccessors_eq coverage true true
  | stringConversion => exact writer.renderStringConversion_eq
  | streamOperator => exact writer.renderStreamOperator_eq coverage
  | equalityOperator => exact writer.renderEqualityOperator_eq
  | boolOperator => exact writer.renderBoolOperator_eq

theorem place_forms (functions : List GeneratedFunction) :
    writer.place (writer.forms functions) = writer.code functions :=
  rfl

/-- The code for an action is the code for its functions. -/
theorem generate_eq_code
    (action : Action)
    (coverage : Coverage) :
    writer.generate action coverage =
      writer.code (writer.outline.functions action coverage) := by
  rw [generate, render_eq, place_forms]

end Writer

end ClassOutline
