import ClassOutline.Member.FunctionPointer
import ClassOutline.Member.Shape
import ClassOutline.Proofs.Checked.Keywords
/-!
# Shapes and function pointers by offsets

The shape of a statement depends on the byte behind its first parenthesis and the delimiters there.
Where this byte is a mark of a pointer or reference, the statement is cut out behind it as well.
That is possible because the mark is a narrow character.
-/

namespace ClassOutline.Checked

/-! ## The first parenthesis -/

/-- The parts of a text in front of its first parenthesis and behind the delimiters there. -/
structure Opened (text : Text) where
  front : Text
  /-- The parenthesis and the delimiters behind it. -/
  opening : Text
  behind : Text
  shape : text = front ++ (opening ++ behind)
  noParenthesis : '(' ∉ front
  opens : opening.head? = some '('
  delimiters : ∀ character ∈ opening, Reserved.isDelimiter character = true
  ends : ∀ first ∈ behind.head?, Reserved.isDelimiter first = false

namespace Opened

variable {text : Text}

/-- A text with a parenthesis has these parts. -/
def ofMem (member : '(' ∈ text) : Opened text where
  front := text.takeWhile (· ≠ '(')
  opening := (text.dropWhile (· ≠ '(')).takeWhile Reserved.isDelimiter
  behind := (text.dropWhile (· ≠ '(')).dropWhile Reserved.isDelimiter
  shape := by rw [List.takeWhile_append_dropWhile, List.takeWhile_append_dropWhile]
  noParenthesis := fun inFront => by simpa using List.mem_takeWhile_imp inFront
  opens := by
    obtain ⟨rest, arguments⟩ := Text.exists_dropWhile_eq member
    have isDelimiter : Reserved.isDelimiter '(' = true := by decide
    rw [arguments, List.takeWhile_cons_of_pos isDelimiter]
    rfl
  delimiters := fun character inOpening => List.mem_takeWhile_imp inOpening
  ends := fun first isFirst => by
    have dropped := List.head?_dropWhile_not Reserved.isDelimiter (text.dropWhile (· ≠ '('))
    rw [Option.mem_def.mp isFirst] at dropped
    exact dropped

theorem parenthesis_mem (opened : Opened text) : '(' ∈ text := by
  have inOpening := List.mem_of_mem_head? (Option.mem_def.mpr opened.opens)
  rw [opened.shape]
  exact List.mem_append_right _ (List.mem_append_left _ inOpening)

theorem takeWhile_eq (opened : Opened text) : text.takeWhile (· ≠ '(') = opened.front := by
  obtain ⟨rest, opens⟩ := List.head?_eq_some_iff.mp opened.opens
  have noParenthesis : ∀ character ∈ opened.front, decide (character ≠ '(') = true := by
    intro character inFront
    exact decide_eq_true fun same => opened.noParenthesis (same ▸ inFront)
  have taken : (opened.front ++ (opened.opening ++ opened.behind)).takeWhile (· ≠ '(') =
      opened.front := by
    rw [List.takeWhile_append_of_pos noParenthesis, opens]
    simp
  rwa [← opened.shape] at taken

theorem dropWhile_eq (opened : Opened text) :
    text.dropWhile (· ≠ '(') = opened.opening ++ opened.behind := by
  have whole : text.takeWhile (· ≠ '(') ++ text.dropWhile (· ≠ '(') =
      opened.front ++ (opened.opening ++ opened.behind) :=
    List.takeWhile_append_dropWhile.trans opened.shape
  rw [opened.takeWhile_eq] at whole
  exact List.append_cancel_left whole

theorem takeWhile_isDelimiter (opened : Opened text) :
    (opened.opening ++ opened.behind).takeWhile Reserved.isDelimiter = opened.opening := by
  rw [List.takeWhile_append_of_pos opened.delimiters]
  cases behind : opened.behind with
  | nil => simp
  | cons first rest =>
    have noDelimiter := opened.ends first (by rw [behind]; rfl)
    rw [List.takeWhile_cons_of_neg (by simp [noDelimiter]), List.append_nil]

theorem dropWhile_isDelimiter (opened : Opened text) :
    (opened.opening ++ opened.behind).dropWhile Reserved.isDelimiter = opened.behind := by
  have whole : (opened.opening ++ opened.behind).takeWhile Reserved.isDelimiter ++
      (opened.opening ++ opened.behind).dropWhile Reserved.isDelimiter =
        opened.opening ++ opened.behind :=
    List.takeWhile_append_dropWhile
  rw [opened.takeWhile_isDelimiter] at whole
  exact List.append_cancel_left whole

theorem find?_eq (opened : Opened text) : find? text ['('] = some opened.front.width := by
  rw [find?_singleton, if_pos opened.parenthesis_mem, opened.takeWhile_eq]

theorem skipDelimiters?_eq (opened : Opened text) :
    skipDelimiters? text.codes opened.front.width =
      some (opened.front.width + opened.opening.width) := by
  have skipped := skipDelimiters?_width opened.front (opened.opening ++ opened.behind)
  rwa [← opened.shape, opened.takeWhile_isDelimiter] at skipped

theorem getElem?_codes (opened : Opened text) :
    text.codes[opened.front.width + opened.opening.width]? = opened.behind.codes.head? := by
  have found := Text.getElem?_codes_width (opened.front ++ opened.opening) opened.behind
  rwa [List.append_assoc, ← opened.shape, Text.width_append] at found

/--
A word that begins before the end of the delimiters stands in front of the parenthesis, if it holds
no parenthesis and does not begin with a delimiter.
-/
theorem isInfix_front
    {first : Char}
    {word before after : Text}
    (opened : Opened text)
    (isFirst : word.head? = some first)
    (noDelimiter : Reserved.isDelimiter first = false)
    (noParenthesis : '(' ∉ word)
    (occurs : text = before ++ word ++ after)
    (inFront : before.width < opened.front.width + opened.opening.width) :
    word <:+: opened.front := by
  obtain ⟨letters, isWord⟩ := List.head?_eq_some_iff.mp isFirst
  obtain ⟨rest, isRest⟩ := List.head?_eq_some_iff.mp opened.opens
  have split : (opened.front ++ opened.opening) ++ opened.behind = before ++ (word ++ after) := by
    rw [List.append_assoc, ← opened.shape, occurs, List.append_assoc]
  rw [← Text.width_append] at inFront
  rcases List.append_eq_append_iff.mp split with ⟨more, isBefore, -⟩ | ⟨more, opens, begins⟩
  · rw [isBefore, Text.width_append] at inFront
    omega
  · rcases List.append_eq_append_iff.mp opens with
      ⟨delimiters, -, isOpening⟩ | ⟨tail, isFront, isMore⟩
    · -- The word does not begin among the delimiters.
      cases more with
      | nil =>
        rw [opens, List.append_nil] at inFront
        exact absurd inFront (Nat.lt_irrefl _)
      | cons second more =>
        obtain rfl : first = second := by
          rw [isWord] at begins
          exact (List.cons.inj begins).1
        have inOpening : first ∈ opened.opening := by simp [isOpening]
        rw [opened.delimiters first inOpening] at noDelimiter
        contradiction
    · -- It begins in front of the parenthesis, and so it ends there.
      rw [isMore, List.append_assoc] at begins
      rcases List.append_eq_append_iff.mp begins with ⟨last, isTail, -⟩ | ⟨last, wordShape, isLast⟩
      · exact ⟨before, last, by rw [isFront, isTail, List.append_assoc]⟩
      · cases last with
        | nil =>
          rw [List.append_nil] at wordShape
          exact ⟨before, [], by rw [isFront, wordShape, List.append_nil]⟩
        | cons second last =>
          rw [isRest] at isLast
          obtain rfl := (List.cons.inj isLast).1
          exact absurd (by simp [wordShape]) noParenthesis

/-- A word that stands in front of the parenthesis is found there. -/
theorem width_before_lt
    {word before after : Text}
    (opened : Opened text)
    (notEmpty : word ≠ [])
    (cut : text.cutAt? word = some (before, after))
    (isInfix : word <:+: opened.front) :
    before.width < opened.front.width := by
  obtain ⟨front, behind, isFront⟩ := isInfix
  have occurs : text = front ++ word ++ (behind ++ (opened.opening ++ opened.behind)) :=
    opened.shape.trans (by rw [← isFront]; simp)
  have narrower := Text.width_le_of_isInfix (Text.isPrefix_of_cutAt? cut occurs).isInfix
  have positive : word.width ≠ 0 := fun noWidth => notEmpty (Text.eq_nil_of_width noWidth)
  rw [← isFront, Text.width_append, Text.width_append]
  omega

/--
A word is found before the end of the delimiters exactly if it stands in front of the parenthesis.
It holds no parenthesis and does not begin with a delimiter.
-/
theorem any_find?_lt
    (opened : Opened text)
    (first : Char)
    {word : Text}
    (isFirst : word.head? = some first)
    (noDelimiter : Reserved.isDelimiter first = false)
    (noParenthesis : '(' ∉ word) :
    (find? text word).any (· < opened.front.width + opened.opening.width) =
      opened.front.mentions word := by
  have mentions_iff : opened.front.mentions word = true ↔ word <:+: opened.front := by
    rw [← not_iff_not, Bool.not_eq_true, Text.mentions_eq_false_iff]
    rfl
  have notEmpty : word ≠ [] := by
    rintro rfl
    contradiction
  rw [find?, Bool.eq_iff_iff, mentions_iff]
  cases cut : text.cutAt? word with
  | none =>
    have isPart : opened.front <:+: text := ⟨[], opened.opening ++ opened.behind, opened.shape.symm⟩
    have frontLacks := (Text.lacks_of_cutAt?_eq_none cut).of_isInfix isPart
    exact iff_of_false (by simp) frontLacks
  | some parts =>
    obtain ⟨before, after⟩ := parts
    rw [Option.map_some, Option.any_some, decide_eq_true_eq]
    constructor
    · exact opened.isInfix_front isFirst noDelimiter noParenthesis (Text.eq_append_of_cutAt? cut)
    · exact fun isInfix => Nat.lt_add_right _ (opened.width_before_lt notEmpty cut isInfix)

end Opened

/-! ## The shape of a statement -/

/-- The shape of a text, read off its bytes. -/
def shapeOf? (text : Text) : Option Shape :=
  match find? text ['('] with
  | none => some .plain
  | some parenthesis => do
    let index ← skipDelimiters? text.codes parenthesis
    if text.codes[index]? = some '&' ∨ text.codes[index]? = some '*' then some .functionPointer
    else if (find? text "function<".toList).any (· < index) then some .callable
    else if (find? text ['=']).any (· < index) && !text.mentions "operator".toList then
      some .initialized
    else some .function

theorem Opened.ofText_eq
    {text : Text}
    (opened : Opened text) :
    Shape.ofText text =
      if opened.behind.head? = some '&' ∨ opened.behind.head? = some '*' then .functionPointer
      else if opened.front.mentions "function<".toList then .callable
      else if opened.front.mentions ['='] && !text.mentions "operator".toList then .initialized
      else .function := by
  rw [Shape.ofText, opened.takeWhile_eq, opened.dropWhile_eq, mentions_singleton]
  obtain ⟨rest, opens⟩ := List.head?_eq_some_iff.mp opened.opens
  have isBehind := opened.dropWhile_isDelimiter
  rw [opens] at isBehind ⊢
  rw [List.cons_append] at isBehind ⊢
  dsimp only
  rw [isBehind]
  generalize (if opened.front.mentions "function<".toList then Shape.callable
    else if opened.front.contains '=' && !text.mentions "operator".toList then Shape.initialized
    else Shape.function) = otherwise
  split
  · next isAmpersand => rw [if_pos (.inl isAmpersand)]
  · next isStar => rw [if_pos (.inr isStar)]
  · next noAmpersand noStar => rw [if_neg (not_or.mpr ⟨noAmpersand, noStar⟩)]

theorem ofText_eq_plain
    {text : Text}
    (noParenthesis : '(' ∉ text) :
    Shape.ofText text = .plain := by
  have noArguments : text.dropWhile (· ≠ '(') = [] := by
    rw [List.dropWhile_eq_nil_iff]
    intro character inText
    exact decide_eq_true fun same => noParenthesis (same ▸ inText)
  rw [Shape.ofText, noArguments]

theorem shapeOf?_eq (text : Text) : shapeOf? text = some (Shape.ofText text) := by
  by_cases member : '(' ∈ text
  · have opened := Opened.ofMem member
    have ampersand : Text.IsNarrow '&' := by decide
    have star : Text.IsNarrow '*' := by decide
    rw [shapeOf?, opened.find?_eq]
    dsimp only
    rw [opened.skipDelimiters?_eq]
    simp only [Option.bind_eq_bind, Option.bind_some, opened.getElem?_codes,
      Text.head?_codes_eq_some_iff ampersand, Text.head?_codes_eq_some_iff star]
    rw [opened.any_find?_lt 'f' (by decide) (by decide) (by decide),
      opened.any_find?_lt '=' (by decide) (by decide) (by decide), opened.ofText_eq]
    split_ifs <;> rfl
  · rw [shapeOf?, find?_singleton, if_neg member, ofText_eq_plain member]

/-- The shape of a statement, read off its bytes. -/
def shapeOfStatement? (statement : Text) : Option (Option Shape) :=
  if Shape.punctuation.contains statement then some none
  else do
    let introduced ← any? (fun keyword => (first? keyword statement).map Option.isSome)
      Shape.otherKeywords
    if introduced then some none else (shapeOf? statement).map some

theorem shapeOfStatement?_eq (statement : Text) :
    shapeOfStatement? statement = some (Shape.ofStatement? statement) := by
  have introduced : any? (fun keyword => (first? keyword statement).map Option.isSome)
      Shape.otherKeywords =
        some (Shape.otherKeywords.any fun keyword => (Reserved.first? keyword statement).isSome) :=
    any?_eq_some fun keyword _ => by rw [first?_eq, Option.map_some]
  rw [shapeOfStatement?, introduced, Shape.ofStatement?, shapeOf?_eq]
  cases Shape.punctuation.contains statement with
  | true => rfl
  | false =>
    cases Shape.otherKeywords.any fun keyword => (Reserved.first? keyword statement).isSome <;> rfl

/-! ## Pointers to functions -/

/-- The text from the end of the name on without an initial value, cut off at its offset. -/
def withoutValue? (tail : Text) : Option Text :=
  match findLast? tail [')'], findLast? tail ['='] with
  | some parenthesis, some sign => if parenthesis < sign then slice? tail 0 sign else some tail
  | _, _ => some tail

/-- An initial value stands behind the last closing parenthesis. -/
theorem withoutValue?_eq
    {tail : Text}
    (closes : ')' ∈ tail) :
    withoutValue? tail = some (FunctionPointer.withoutValue tail) := by
  obtain ⟨earlier, later, closing⟩ :
      ∃ earlier later, tail.cutAtLast? [')'] = some (earlier, later) := by
    cases cut : tail.cutAtLast? [')'] with
    | none =>
      have lacks := Text.lacks_of_cutAtLast?_eq_none cut
      exact absurd ((List.singleton_infix_iff ')' tail).mpr closes) lacks
    | some parts => exact ⟨parts.1, parts.2, rfl⟩
  have closingShape := Text.eq_append_of_cutAtLast? closing
  rw [withoutValue?, FunctionPointer.withoutValue, findLast?, findLast?, closing]
  cases cut : tail.cutAtLast? ['='] with
  | none => rfl
  | some parts =>
    obtain ⟨before, after⟩ := parts
    have shape := Text.eq_append_of_cutAtLast? cut
    have sameTail : earlier ++ ')' :: later = before ++ '=' :: after := by
      simpa using closingShape.symm.trans shape
    have noClosingLater := not_mem_of_cutAtLast?_singleton closing
    have inFront : earlier.width < before.width ↔ ')' ∉ after := by
      rcases List.append_eq_append_iff.mp sameTail with
        ⟨more, isBefore, isRest⟩ | ⟨more, isEarlier, isRest⟩
      · cases more with
        | nil => exact absurd (List.cons.inj isRest).1 (by decide)
        | cons first more =>
          obtain ⟨rfl, isLater⟩ := List.cons.inj isRest
          have narrower : earlier.width < before.width := by
            have size := (')').utf8Size_pos
            rw [isBefore, Text.width_append, Text.width_cons]
            omega
          exact iff_of_true narrower fun member => noClosingLater (by simp [isLater, member])
      · cases more with
        | nil => exact absurd (List.cons.inj isRest).1 (by decide)
        | cons first more =>
          have notNarrower : ¬ earlier.width < before.width := by
            rw [isEarlier, Text.width_append]
            omega
          exact iff_of_false notNarrower fun noClosing =>
            noClosing (by simp [(List.cons.inj isRest).2])
    have cutOff : slice? tail 0 before.width = some before :=
      @slice?_eq_some _ [] before (['='] ++ after) _ _ (by simpa using shape) rfl (by simp)
    dsimp only [Option.map_some]
    rw [cutOff]
    by_cases inValue : ')' ∈ after
    · rw [if_neg fun narrower => inFront.mp narrower inValue,
        if_pos (List.contains_iff_mem.mpr inValue)]
    · rw [if_pos (inFront.mpr inValue), if_neg (by simpa using inValue)]

/-- The member that a line declares as a pointer to a function, with parts cut out by offsets. -/
def pointerMember? (line : Text) : Option (Except Failure DataMember) :=
  let line := line.trim
  let line := (line.dropEnding? [';']).getD line
  match find? line ['('], find? line [')'] with
  | some opening, some closing => do
    let mark ← skipDelimiters? line.codes opening
    if closing ≤ mark then some (.error (.unresolvedDeclaration line))
    else do
      let name ← slice? line (mark + 1) closing
      let tail ← slice? line closing line.width
      let signature ← withoutValue? tail
      let front ← slice? line 0 (mark + 1)
      let words := Text.words (front ++ signature)
      if name.trim = [] then some (.error (.unresolvedDeclaration line))
      else
        some (.ok
          { name := name.trim
            declaredType := Text.unwords (words.filter (· ≠ Declaration.staticWord))
            isStatic := words.contains Declaration.staticWord
            byValue := true })
  | _, _ => some (.error (.unresolvedDeclaration line))

/-- The byte behind the first parenthesis and the delimiters there is one of the two marks. -/
structure Marked (text : Text) extends Opened text where
  mark : Char
  rest : Text
  isBehind : behind = mark :: rest
  isMark : mark = '&' ∨ mark = '*'

namespace Marked

variable {text : Text}

theorem isNarrow (marked : Marked text) : Text.IsNarrow marked.mark := by
  rcases marked.isMark with isMark | isMark <;> rw [isMark] <;> decide

theorem isDelimiter_eq_false (marked : Marked text) : Reserved.isDelimiter marked.mark = false := by
  rcases marked.isMark with isMark | isMark <;> rw [isMark] <;> decide

theorem ne_of_not_mem
    (marked : Marked text)
    (sign : Char)
    (noMark : sign ∉ ['&', '*']) :
    marked.mark ≠ sign := by
  rintro rfl
  rcases marked.isMark with isMark | isMark <;> exact noMark (by rw [isMark]; decide)

end Marked

/-- A statement with the shape of a pointer or reference to a function has such a mark. -/
theorem nonempty_marked
    {statement : Text}
    (isPointer : Shape.ofText statement = .functionPointer) :
    Nonempty (Marked statement) := by
  have member : '(' ∈ statement := by
    by_contra noParenthesis
    rw [ofText_eq_plain noParenthesis] at isPointer
    contradiction
  have opened := Opened.ofMem member
  have isMarked : opened.behind.head? = some '&' ∨ opened.behind.head? = some '*' := by
    by_contra notMarked
    rw [opened.ofText_eq, if_neg notMarked] at isPointer
    split_ifs at isPointer
  rcases isMarked with isFirst | isFirst <;>
    obtain ⟨rest, isBehind⟩ := List.head?_eq_some_iff.mp isFirst
  · exact ⟨{ opened with mark := '&', rest, isBehind, isMark := .inl rfl }⟩
  · exact ⟨{ opened with mark := '*', rest, isBehind, isMark := .inr rfl }⟩

/-- The semicolon at the end is not the mark. -/
theorem nonempty_marked_body
    {statement : Text}
    (marked : Marked statement) :
    Nonempty (Marked ((statement.dropEnding? [';']).getD statement)) := by
  cases dropped : statement.dropEnding? [';'] with
  | none => exact ⟨marked⟩
  | some body =>
    have shape :
        body ++ [';'] = (marked.front ++ (marked.opening ++ [marked.mark])) ++ marked.rest :=
      (Text.eq_append_of_dropEnding? dropped).symm.trans
        (marked.shape.trans (by simp [marked.isBehind]))
    rcases List.eq_nil_or_concat marked.rest with noRest | ⟨rest, last, isRest⟩
    · rw [noRest, List.append_nil, ← List.append_assoc] at shape
      have isSemicolon := (List.append_inj_right' shape rfl).symm
      exact absurd (List.singleton_inj.mp isSemicolon) (marked.ne_of_not_mem ';' (by decide))
    · rw [isRest, List.concat_eq_append, ← List.append_assoc] at shape
      have bodyShape := List.append_inj_left' shape rfl
      exact
        ⟨{ marked with
            behind := marked.mark :: rest
            shape := by rw [Option.getD_some, bodyShape]; simp
            ends := by
              rintro first ⟨⟩
              exact marked.isDelimiter_eq_false
            rest
            isBehind := rfl }⟩

/-- A closing parenthesis follows the mark, and none stands in front of it. -/
structure Enclosed (text : Text) extends Marked text where
  name : Text
  /-- What follows the closing parenthesis. -/
  tail : Text
  isRest : rest = name ++ ')' :: tail
  noClosingFront : ')' ∉ front
  noClosingName : ')' ∉ name

namespace Marked

variable {text : Text}

/-- What stands up to the mark, with the mark. -/
def upToMark (marked : Marked text) : Text :=
  marked.front ++ marked.opening ++ [marked.mark]

theorem width_upToMark (marked : Marked text) :
    marked.upToMark.width = marked.front.width + marked.opening.width + 1 := by
  simp [upToMark, marked.isNarrow.utf8Size_eq, Nat.add_assoc]

theorem shape_upToMark (marked : Marked text) : text = marked.upToMark ++ marked.rest :=
  marked.shape.trans (by simp [upToMark, marked.isBehind])

theorem not_mem_upToMark
    (marked : Marked text)
    (notMember : ')' ∉ marked.front) :
    ')' ∉ marked.upToMark := by
  have notMark := marked.ne_of_not_mem ')' (by decide)
  have notInOpening : ')' ∉ marked.opening := fun member => by
    have isDelimiter := marked.delimiters ')' member
    contradiction
  simp [upToMark, notMember, notInOpening, notMark.symm]

/-- The first closing parenthesis behind the mark encloses a name. -/
theorem nonempty_enclosed
    (marked : Marked text)
    (notInFront : ')' ∉ marked.front)
    (inRest : ')' ∈ marked.rest) :
    ∃ enclosed : Enclosed text, enclosed.toMarked = marked := by
  obtain ⟨name, tail, isRest, notInName⟩ := List.eq_append_cons_of_mem inRest
  exact
    ⟨{ marked with
        name, tail, isRest
        noClosingFront := notInFront
        noClosingName := notInName }, rfl⟩

end Marked

namespace Enclosed

variable {text : Text}

theorem shape_name (enclosed : Enclosed text) :
    text = enclosed.upToMark ++ (enclosed.name ++ ')' :: enclosed.tail) :=
  enclosed.shape_upToMark.trans (by rw [enclosed.isRest])

theorem takeWhile_rest (enclosed : Enclosed text) :
    enclosed.rest.takeWhile (· ≠ ')') = enclosed.name := by
  rw [enclosed.isRest, Text.takeWhile_append_cons enclosed.noClosingName]

theorem dropWhile_rest (enclosed : Enclosed text) :
    enclosed.rest.dropWhile (· ≠ ')') = ')' :: enclosed.tail := by
  rw [enclosed.isRest, Text.dropWhile_append_cons enclosed.noClosingName]

theorem find?_closing (enclosed : Enclosed text) :
    find? text [')'] = some (enclosed.upToMark.width + enclosed.name.width) := by
  have inText : ')' ∈ text := by
    rw [enclosed.shape_name]
    simp
  have notMember := enclosed.not_mem_upToMark enclosed.noClosingFront
  have taken := Text.takeWhile_append_of_not_mem notMember enclosed.rest
  rw [← enclosed.shape_upToMark, enclosed.takeWhile_rest] at taken
  rw [find?_singleton, if_pos inText, taken, Text.width_append]

theorem slice?_name (enclosed : Enclosed text) :
    slice? text enclosed.upToMark.width (enclosed.upToMark.width + enclosed.name.width) =
      some enclosed.name :=
  slice?_eq_some enclosed.shape_name rfl rfl

theorem slice?_tail (enclosed : Enclosed text) :
    slice? text (enclosed.upToMark.width + enclosed.name.width) text.width =
      some (')' :: enclosed.tail) := by
  have shape : text = (enclosed.upToMark ++ enclosed.name) ++ ((')' :: enclosed.tail) ++ []) :=
    enclosed.shape_name.trans (by simp)
  have widths := congrArg Text.width shape
  rw [List.append_nil, Text.width_append, Text.width_append] at widths
  exact slice?_eq_some shape (by rw [Text.width_append]) (by rw [Text.width_append, widths])

theorem slice?_front (enclosed : Enclosed text) :
    slice? text 0 enclosed.upToMark.width = some enclosed.upToMark :=
  @slice?_eq_some _ [] _ _ _ _ enclosed.shape_upToMark rfl (by simp)

end Enclosed

/-- The parts of a pointer to a function are all cut out where the text has them. -/
theorem pointerMember?_eq
    {line : Text}
    (solid : Text.Solid line)
    (isPointer : Shape.ofText line = .functionPointer) :
    pointerMember? line = some (FunctionPointer.member line) := by
  obtain ⟨whole⟩ := nonempty_marked isPointer
  obtain ⟨marked⟩ := nonempty_marked_body whole
  rw [pointerMember?, FunctionPointer.member, Text.trim_of_solid solid]
  dsimp only
  generalize (line.dropEnding? [';']).getD line = body at marked
  have mark : skipDelimiters? body.codes marked.front.width =
      some (marked.front.width + marked.opening.width) := marked.skipDelimiters?_eq
  rw [marked.takeWhile_eq, marked.dropWhile_eq, marked.takeWhile_isDelimiter,
    marked.dropWhile_isDelimiter, marked.find?_eq, marked.isBehind]
  by_cases inFront : ')' ∈ marked.front
  · -- The first closing parenthesis stands in front of the opening one.
    have inBody : ')' ∈ body := by
      rw [marked.shape]
      exact List.mem_append_left _ inFront
    have closing := Text.width_takeWhile_append_le inFront (marked.opening ++ marked.behind)
    rw [← marked.shape] at closing
    rw [find?_singleton, if_pos inBody]
    dsimp only
    rw [mark]
    simp only [Option.bind_eq_bind, Option.bind_some]
    rw [if_pos (by omega), if_pos (.inl (List.contains_iff_mem.mpr inFront))]
  · by_cases inRest : ')' ∈ marked.rest
    · obtain ⟨enclosed, rfl⟩ := marked.nonempty_enclosed inFront inRest
      have behindMark : ¬ enclosed.upToMark.width + enclosed.name.width ≤
          enclosed.front.width + enclosed.opening.width := by
        rw [enclosed.width_upToMark]
        omega
      have notFailed : (enclosed.front.contains ')' = true ∨ enclosed.mark = ')' ∨
          ')' :: enclosed.tail = [] ∨ Text.trim enclosed.name = []) ↔
            Text.trim enclosed.name = [] := by
        have notMark := enclosed.ne_of_not_mem ')' (by decide)
        simp [enclosed.noClosingFront, notMark]
      dsimp only
      rw [enclosed.find?_closing, enclosed.takeWhile_rest, enclosed.dropWhile_rest]
      dsimp only
      rw [mark]
      simp only [Option.bind_eq_bind, Option.bind_some]
      rw [if_neg behindMark, ← enclosed.width_upToMark, enclosed.slice?_name, enclosed.slice?_tail]
      simp only [Option.bind_some]
      rw [withoutValue?_eq List.mem_cons_self, enclosed.slice?_front]
      simp only [Option.bind_some, notFailed]
      split <;> rfl
    · -- No closing parenthesis stands anywhere.
      have noClosing : ')' ∉ body := by
        rw [marked.shape_upToMark, List.mem_append]
        exact not_or.mpr ⟨marked.not_mem_upToMark inFront, inRest⟩
      have dropped : marked.rest.dropWhile (· ≠ ')') = [] := by
        rw [List.dropWhile_eq_nil_iff]
        exact fun character member => decide_eq_true fun same => inRest (same ▸ member)
      rw [find?_singleton, if_neg noClosing]
      dsimp only
      rw [dropped, if_pos (.inr (.inr (.inl rfl)))]

end ClassOutline.Checked
