import ClassOutline.Member.FunctionPointer
import ClassOutline.Proofs.Member.Shapes
import ClassOutline.Proofs.Member.Tokens
import ClassOutline.Proofs.Written.Name
/-!
# Pointers to functions

A pointer or a reference to a function is declared on a line with the type of its result, its mark
and its name in parentheses, a list of parameters and perhaps an initial value.  The line is read as
one member of that name.  Its type is the line without the name, `static` and the value, and what
stands among the parameters does not matter: parentheses need not match there, and an equals sign
there begins no value.
-/

namespace ClassOutline

namespace Written

/-- The declaration of a pointer or a reference to a function. -/
structure PointerLine where
  isStatic : Bool
  /-- The words of the type of the result. -/
  result : List Text
  mark : Char
  name : Word
  parameters : Text
  value : Option Text
  resultNotEmpty : result ≠ []
  areWords : Text.AreWords result
  noParenthesis : ∀ word ∈ result, '(' ∉ word ∧ ')' ∉ word
  resultNotStatic : ∀ word ∈ result, word ≠ Declaration.staticWord
  isMark : mark = '*' ∨ mark = '&'
  parametersNotStatic : parameters.Lacks Declaration.staticWord
  /-- The value hides neither where it begins nor where the parameters end. -/
  valueBare : ∀ text ∈ value, ')' ∉ text ∧ '=' ∉ text

namespace PointerLine

variable (line : PointerLine)

/-- The words in front of the mark. -/
def front : List Text :=
  Declaration.staticWords line.isStatic ++ line.result

/-- The mark and the parameters, without the name. -/
def signature : Text :=
  '(' :: line.mark :: ')' :: '(' :: (line.parameters ++ [')'])

/-- The initial value with its sign, if there is one. -/
def assignment : Text :=
  match line.value with
  | none => []
  | some text => " = ".toList ++ text

/-- What stands behind the name. -/
def tail : Text :=
  ")(".toList ++ line.parameters ++ ")".toList ++ line.assignment

/-- The text of the line. -/
def text : Text :=
  Text.unwords line.front ++ " (".toList ++ (line.mark :: line.name.text) ++ line.tail ++ [';']

/-- The declaration without the name, `static` and the value, with single spaces between words. -/
def type : Text :=
  Text.unwords (Text.words (Text.unwords line.result ++ " ".toList ++ line.signature))

/-- The member that the line declares. -/
def member : DataMember where
  name := line.name.text
  declaredType := line.type
  isStatic := line.isStatic
  byValue := true
  isArray := false

/-! ## The words of the line -/

theorem areWords_front : Text.AreWords line.front := by
  have ofStatic : Text.AreWords (Declaration.staticWords line.isStatic) := by
    unfold Text.AreWords
    cases line.isStatic <;> decide
  exact ofStatic.append line.areWords

theorem front_ne_nil : line.front ≠ [] :=
  List.append_ne_nil_of_right_ne_nil _ line.resultNotEmpty

theorem spaced_front : Text.Spaced (Text.unwords line.front) :=
  ⟨line.front, line.front_ne_nil, line.areWords_front, rfl⟩

/-- No parenthesis stands in front of the first one. -/
theorem noParenthesis_front :
    ∀ character ∈ Text.unwords line.front ++ [' '], character ≠ '(' ∧ character ≠ ')' := by
  have inStatic : ∀ word ∈ Declaration.staticWords line.isStatic,
      ∀ character ∈ word, character ≠ '(' ∧ character ≠ ')' := by
    cases line.isStatic <;> decide
  intro character member
  rcases List.mem_append.mp member with inWords | isSpace
  · rcases Text.mem_intercalate inWords with isSpace | ⟨word, isWord, inside⟩
    · exact List.mem_singleton.mp isSpace ▸ by decide
    · rcases List.mem_append.mp isWord with isStatic | inResult
      · exact inStatic word isStatic character inside
      · obtain ⟨noOpening, noClosing⟩ := line.noParenthesis word inResult
        exact ⟨fun equal => noOpening (equal ▸ inside), fun equal => noClosing (equal ▸ inside)⟩
  · exact List.mem_singleton.mp isSpace ▸ by decide

/-- The word `static` is none of the words of mark and parameters. -/
theorem static_not_mem_signature :
    ∀ word ∈ Text.words line.signature, word ≠ Declaration.staticWord := by
  have foreign : ∀ character ∈ ['(', ')', '*', '&'], character ∉ Declaration.staticWord := by decide
  have markForeign : line.mark ∉ Declaration.staticWord :=
    foreign line.mark (by rcases line.isMark with isMark | isMark <;> simp [isMark])
  have wordNotEmpty : Declaration.staticWord ≠ [] := by decide
  have closed : Text.Lacks (line.parameters ++ [')']) Declaration.staticWord :=
    (Text.lacks_append_cons _ _ (foreign ')' (by decide))).mpr
      ⟨line.parametersNotStatic, Text.lacks_nil wordNotEmpty⟩
  have lacks : line.signature.Lacks Declaration.staticWord := by
    rw [signature, Text.lacks_cons _ wordNotEmpty (foreign '(' (by decide)),
      Text.lacks_cons _ wordNotEmpty markForeign,
      Text.lacks_cons _ wordNotEmpty (foreign ')' (by decide)),
      Text.lacks_cons _ wordNotEmpty (foreign '(' (by decide))]
    exact closed
  rintro word member rfl
  exact lacks (Text.infix_of_mem_words member)

/-- The word `static` is none of the words of the type. -/
theorem static_not_mem_typeWords :
    ∀ word ∈ line.result ++ Text.words line.signature, word ≠ Declaration.staticWord := by
  intro word member
  rcases List.mem_append.mp member with inResult | inSignature
  · exact line.resultNotStatic word inResult
  · exact line.static_not_mem_signature word inSignature

/-- The words of the type are those of the result and of what stands behind it. -/
theorem type_eq :
    line.type = Text.unwords (line.result ++ Text.words line.signature) := by
  have blank : Text.isBlank ' ' = true := by decide
  have shape : Text.unwords line.result ++ " ".toList ++ line.signature =
      Text.unwords line.result ++ ' ' :: line.signature := by
    simp
  rw [type, shape, Text.words_append_cons _ _ blank, Text.words_unwords line.areWords]

/-! ## The value -/

/-- What is left of the text behind the name when the value is taken off. -/
theorem withoutValue_tail :
    ∃ blanks, (∀ character ∈ blanks, Text.isBlank character = true) ∧
      FunctionPointer.withoutValue line.tail =
        ")(".toList ++ line.parameters ++ ")".toList ++ blanks := by
  rw [FunctionPointer.withoutValue, tail, assignment]
  cases hasValue : line.value with
  | none =>
    refine ⟨[], by simp, ?_⟩
    dsimp only
    split
    · next before after cut =>
      -- Behind any equals sign the parenthesis that ends the parameters is still to come.
      have closes : ')' ∈ after := by
        have ends := congrArg List.getLast? (Text.eq_append_of_cutAtLast? cut)
        have lastOfTail : (")(".toList ++ line.parameters ++ ")".toList ++ []).getLast? = some ')' := by
          rw [List.append_nil]
          exact List.getLast?_concat
        rw [lastOfTail, List.getLast?_append, List.getLast?_concat] at ends
        cases isLast : after.getLast? with
        | none => simp [isLast] at ends
        | some last =>
          obtain rfl : ')' = last := by simpa [isLast] using ends
          exact List.mem_of_getLast? isLast
      rw [if_pos (List.contains_iff_mem.mpr closes)]
    · rfl
  | some value =>
    obtain ⟨noParenthesis, noSign⟩ := line.valueBare value hasValue
    refine ⟨[' '], by decide, ?_⟩
    have shape : ")(".toList ++ line.parameters ++ ")".toList ++ (" = ".toList ++ value) =
        (")(".toList ++ line.parameters ++ ")".toList ++ [' ']) ++ ['='] ++ ' ' :: value := by
      simp
    have lacks : Text.Lacks ([] ++ ' ' :: value) ['='] := by
      refine Text.lacks_of_foreign (by simp) fun character member isSign => ?_
      obtain rfl := List.mem_singleton.mp isSign
      exact noSign (by simpa using member)
    have noneBehind : (' ' :: value).contains ')' = false := by
      rw [← Bool.not_eq_true, List.contains_iff_mem]
      exact fun member => noParenthesis (by simpa using member)
    have cut := Text.cutAtLast?_append
      (")(".toList ++ line.parameters ++ ")".toList ++ [' ']) (' ' :: value) lacks
    dsimp only
    rw [shape, cut]
    dsimp only
    rw [if_neg (by rw [noneBehind]; exact Bool.false_ne_true)]

/-! ## The line that is read -/

/-- The line without its semicolon. -/
def body : Text :=
  (Text.unwords line.front ++ [' ']) ++ '(' :: line.mark :: (line.name.text ++ line.tail)

/-- The line ends with its semicolon, and no blank stands at its ends. -/
theorem dropEnding?_text :
    (Text.trim line.text).dropEnding? [';'] = some line.body := by
  have begins : ∃ first ∈ line.body.head?, Text.isBlank first = false := by
    rw [body, List.append_assoc]
    exact Text.exists_head?_append line.spaced_front.begins _
  have shape : line.text = line.body ++ [';'] := by simp [text, body]
  have solid : Text.Solid line.text := by
    rw [shape]
    exact Text.solid_append_singleton begins (by decide)
  rw [Text.trim_of_solid solid, shape, Text.dropEnding?_append]

theorem takeWhile_body :
    line.body.takeWhile (· ≠ '(') = Text.unwords line.front ++ [' '] :=
  Text.takeWhile_append_cons (fun member => (line.noParenthesis_front _ member).1 rfl) _

theorem dropWhile_body :
    line.body.dropWhile (· ≠ '(') = '(' :: line.mark :: (line.name.text ++ line.tail) :=
  Text.dropWhile_append_cons (fun member => (line.noParenthesis_front _ member).1 rfl) _

/-- The first parenthesis is followed by the mark. -/
theorem marked (behind : Text) :
    ('(' :: line.mark :: behind).takeWhile Reserved.isDelimiter = ['('] ∧
      ('(' :: line.mark :: behind).dropWhile Reserved.isDelimiter = line.mark :: behind := by
  have opening : Reserved.isDelimiter '(' = true := by decide
  have notDelimiter : Reserved.isDelimiter line.mark = false := by
    rcases line.isMark with isMark | isMark <;> rw [isMark] <;> decide
  simp [opening, notDelimiter]

/-- The name ends at the first closing parenthesis. -/
theorem takeWhile_named :
    (line.name.text ++ line.tail).takeWhile (· ≠ ')') = line.name.text ∧
      (line.name.text ++ line.tail).dropWhile (· ≠ ')') = line.tail := by
  have notMember : ')' ∉ line.name.text := line.name.isWord.not_mem (by decide)
  exact ⟨Text.takeWhile_append_cons notMember _, Text.dropWhile_append_cons notMember _⟩

/-- The words of the line without its name and value. -/
theorem words_signature
    {blanks : Text}
    (blank : ∀ character ∈ blanks, Text.isBlank character = true) :
    Text.words (Text.unwords line.front ++ [' '] ++ ['('] ++ [line.mark] ++
        (")(".toList ++ line.parameters ++ ")".toList ++ blanks)) =
      Declaration.staticWords line.isStatic ++ (line.result ++ Text.words line.signature) := by
  have shape : Text.unwords line.front ++ [' '] ++ ['('] ++ [line.mark] ++
      (")(".toList ++ line.parameters ++ ")".toList ++ blanks) =
        Text.unwords line.front ++ ' ' :: (line.signature ++ blanks) := by
    simp [signature]
  rw [shape, Text.words_append_cons _ _ (by decide), Text.words_unwords line.areWords_front,
    Text.words_append_blanks _ blank, front, List.append_assoc]

/-- A mark behind the first parenthesis tells a pointer to a function. -/
theorem ofText_text : Shape.ofText line.text = .functionPointer := by
  have shape : line.text = (Text.unwords line.front ++ [' ']) ++ '(' :: line.mark ::
      (line.name.text ++ line.tail ++ [';']) := by
    simp [text]
  have behind : Shape.behindParenthesis line.text =
      line.mark :: (line.name.text ++ line.tail ++ [';']) := by
    rw [Shape.behindParenthesis, shape,
      Text.dropWhile_append_cons fun member => (line.noParenthesis_front _ member).1 rfl]
    exact (line.marked _).2
  rw [Shape.ofText_eq_functionPointer_iff, behind]
  exact ⟨line.mark, rfl, line.isMark.symm⟩

/-- The line is read as a pointer to a function, and it declares the member as it is written. -/
theorem member_text :
    Shape.ofText line.text = .functionPointer ∧
      FunctionPointer.member line.text = .ok line.member := by
  refine ⟨line.ofText_text, ?_⟩
  obtain ⟨opening, behindOpening⟩ := line.marked (line.name.text ++ line.tail)
  obtain ⟨nameRead, tailRead⟩ := line.takeWhile_named
  obtain ⟨blanks, blank, withoutValue⟩ := line.withoutValue_tail
  have noClosing : (Text.unwords line.front ++ [' ']).contains ')' = false := by
    rw [← Bool.not_eq_true, List.contains_iff_mem]
    exact fun member => (line.noParenthesis_front _ member).2 rfl
  have markNotClosing : line.mark ≠ ')' := by
    rcases line.isMark with isMark | isMark <;> rw [isMark] <;> decide
  have tailNotEmpty : line.tail ≠ [] := by simp [tail]
  have nameTrimmed : line.name.text.trim = line.name.text :=
    Text.trim_of_solid (Text.solid_of_noBlank fun character member =>
      isBlank_eq_false_of_isNameCharacter (line.name.isWord.2 character member))
  have named : ¬ ((Text.unwords line.front ++ [' ']).contains ')' = true ∨ line.mark = ')' ∨
      line.tail = [] ∨ line.name.text = []) := by
    rw [noClosing]
    simp [markNotClosing, tailNotEmpty, line.name.isWord.1]
  rw [FunctionPointer.member, line.dropEnding?_text, Option.getD_some]
  dsimp only
  rw [line.takeWhile_body, line.dropWhile_body, opening, behindOpening]
  dsimp only
  rw [nameRead, tailRead, nameTrimmed, if_neg named, withoutValue, line.words_signature blank,
    Declaration.filter_staticWord _ line.static_not_mem_typeWords,
    Declaration.contains_staticWord _ line.static_not_mem_typeWords, ← line.type_eq]
  rfl

/--
A pointer to a function in whose parameters an equals sign and a parenthesis stand, and that has a
value of its own.
-/
theorem member_text_filter :
    ∃ line : PointerLine,
      line.text = "static unsigned long (*filter)(Event e = f(1),\tint (*next)(Event)) = accept;".toList ∧
        Shape.ofText line.text = .functionPointer ∧
          FunctionPointer.member line.text =
            .ok
              { name := "filter".toList
                declaredType := "unsigned long (*)(Event e = f(1), int (*next)(Event))".toList
                isStatic := true
                byValue := true } := by
  let line : PointerLine :=
    { isStatic := true
      result := ["unsigned".toList, "long".toList]
      mark := '*'
      name := ⟨"filter".toList, by decide⟩
      parameters := "Event e = f(1),\tint (*next)(Event)".toList
      value := some "accept".toList
      resultNotEmpty := by simp
      areWords := by unfold Text.AreWords; decide
      noParenthesis := by decide
      resultNotStatic := by decide
      isMark := .inl rfl
      parametersNotStatic := by decide
      valueBare := by decide }
  have isText : line.text =
      "static unsigned long (*filter)(Event e = f(1),\tint (*next)(Event)) = accept;".toList := by
    decide
  have isMember : line.member =
      { name := "filter".toList
        declaredType := "unsigned long (*)(Event e = f(1), int (*next)(Event))".toList
        isStatic := true
        byValue := true } := by
    decide
  have read := line.member_text
  rw [isMember] at read
  exact ⟨line, isText, read⟩

end PointerLine

end Written

end ClassOutline
