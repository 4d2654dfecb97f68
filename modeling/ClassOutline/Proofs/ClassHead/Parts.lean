import ClassOutline.ClassHead
import ClassOutline.Proofs.Block.Regions
import ClassOutline.Proofs.Text.Words
/-!
# The parts of a class head

The name and the bases of a head are read off the text of its block alone, and the template clause
and the lines off the text in front of it too.

The bases stand behind the first single colon outside angle brackets.  So a text in which the colons
outside angle brackets stand next to each other belongs to the name.
-/

namespace ClassOutline.ClassHead

/-- The name, as it is judged, and the bases that a head is cut into. -/
def nameAndBases (head : Text) : Text × List Base :=
  match cutAtColon? 0 none head with
  | some (before, after) => (Text.trim before, basesOf after)
  | none => (head, [])

/-- The head of a block whose name may stand. -/
def ofParts (block : Block) (parts : Text × List Base) : ClassHead where
  name := dropFinal parts.1
  templateClause := templateClauseOf block
  bases := parts.2
  startLine := block.past.lineBreaks
  endLine := block.past.lineBreaks + block.text.lineBreaks

theorem ofBlock_eq (block : Block) :
    ofBlock block =
      if LegalName (nameAndBases (headOf block.text)).1 then
        .ok (ofParts block (nameAndBases (headOf block.text)))
      else .error (.malformedName (nameAndBases (headOf block.text)).1) := by
  rw [ofBlock, nameAndBases]
  cases cutAtColon? 0 none (headOf block.text) <;> rfl

theorem exists_of_ofBlock
    {block : Block}
    {head : ClassHead}
    (read : ofBlock block = .ok head) :
    head = ofParts block (nameAndBases (headOf block.text)) := by
  rw [ofBlock_eq] at read
  split at read
  · exact (Except.ok.inj read).symm
  · contradiction

/-- A name is kept as it is if `final` is no word at its end. -/
theorem dropFinal_eq_self
    {name : Text}
    (notFinal : ∀ front blank,
      Text.isBlank blank = true → name ≠ front ++ blank :: "final".toList) :
    dropFinal name = name := by
  rw [dropFinal]
  split
  · next rest dropped =>
    rw [if_neg]
    intro blankLast
    obtain ⟨blank, isLast, isBlank⟩ := (Option.any_eq_true _ _).mp blankLast
    obtain ⟨front, rfl⟩ := List.getLast?_eq_some_iff.mp isLast
    refine notFinal front blank isBlank ?_
    rw [Text.eq_append_of_dropEnding? dropped, List.append_assoc]
    rfl
  · rfl

/-! ## The colon in front of the bases -/

/--
Outside angle brackets, every colon of a text stands next to another one.  The text is reached with
`depth` open angle brackets behind a given character.
-/
def IsScoped (depth : Int) (previous : Option Char) (text : Text) : Prop :=
  ∀ before after, text = before ++ ':' :: after →
    depth + before.count '<' - before.count '>' = 0 →
      before.getLast?.or previous = some ':' ∨ after.head? = some ':'

/-- The last character up to a place, if there is none the one before the text. -/
theorem getLast?_cons_or
    (first : Char)
    (rest : Text)
    (previous : Option Char) :
    (first :: rest).getLast?.or previous = rest.getLast?.or (some first) := by
  rw [List.getLast?_cons]
  cases rest.getLast? <;> rfl

theorem isScoped_of_not_mem
    {text : Text}
    (noColon : ':' ∉ text)
    (depth : Int)
    (previous : Option Char) :
    IsScoped depth previous text := by
  rintro before after rfl
  exact absurd (List.mem_append_right _ List.mem_cons_self) noColon

/-- A text is reached behind its first character. -/
theorem IsScoped.tail
    {depth : Int}
    {previous : Option Char}
    {first : Char}
    {rest : Text}
    (isScoped : IsScoped depth previous (first :: rest)) :
    IsScoped (depth + ([first] : Text).count '<' - ([first] : Text).count '>') (some first) rest := by
  intro before after shape outside
  rw [← getLast?_cons_or first before previous]
  refine isScoped (first :: before) after (by rw [shape]; rfl) ?_
  rw [← List.singleton_append, List.count_append, List.count_append]
  push_cast
  omega

/-- No cut is made in such a text, and it stands in front of the cut behind it. -/
theorem cutAtColon?_append
    {depth : Int}
    {previous : Option Char}
    {text : Text}
    (isScoped : IsScoped depth previous text)
    (rest : Text) :
    cutAtColon? depth previous (text ++ rest) =
      (cutAtColon? (depth + text.count '<' - text.count '>') (text.getLast?.or previous) rest).map
        fun (before, after) => (text ++ before, after) := by
  induction text generalizing depth previous with
  | nil => simp
  | cons first text hypothesis =>
    have noCut : ¬ (first = ':' ∧ depth = 0 ∧ (text ++ rest).head? ≠ some ':' ∧
        previous ≠ some ':') := by
      rintro ⟨rfl, rfl, noneBehind, noneBefore⟩
      rcases isScoped [] text rfl rfl with isBefore | isBehind
      · exact noneBefore isBefore
      · rw [List.head?_append, isBehind] at noneBehind
        exact noneBehind rfl
    have deeper : (if first = '<' then depth + 1 else if first = '>' then depth - 1 else depth) =
        depth + ([first] : Text).count '<' - ([first] : Text).count '>' := by
      by_cases opens : first = '<'
      · simp [opens]
      · by_cases closes : first = '>'
        · simp [closes]
        · simp [opens, closes]
    have sameDepth : depth + ((first :: text).count '<' : Nat) - ((first :: text).count '>' : Nat) =
        depth + ([first] : Text).count '<' - ([first] : Text).count '>' + text.count '<' -
          text.count '>' := by
      rw [← List.singleton_append, List.count_append, List.count_append]
      push_cast
      omega
    rw [List.cons_append, cutAtColon?, if_neg noCut, getLast?_cons_or, sameDepth]
    dsimp only
    rw [deeper, hypothesis isScoped.tail, Option.map_map]
    rfl

/-- What has no colon may stand behind such a text. -/
theorem IsScoped.append
    {depth : Int}
    {previous : Option Char}
    {text right : Text}
    (isScoped : IsScoped depth previous text)
    (noColon : ':' ∉ right) :
    IsScoped depth previous (text ++ right) := by
  intro before after shape outside
  rcases Text.of_append_eq_append_cons shape with ⟨inner, rfl⟩ | ⟨outer, -, inRight⟩
  · rw [List.append_assoc, List.cons_append] at shape
    obtain ⟨-, rfl⟩ := List.cons.inj (List.append_cancel_left shape)
    refine (isScoped before inner rfl outside).imp_right fun isColon => ?_
    rw [List.head?_append, isColon]
    rfl
  · rw [inRight] at noColon
    exact absurd (List.mem_append_right _ List.mem_cons_self) noColon

/-- A pair of colons behind a text without one is a scope mark. -/
theorem IsScoped.behind_pair
    {depth : Int}
    {previous : Option Char}
    {text rest : Text}
    (later : IsScoped (depth + text.count '<' - text.count '>') (some ':') rest)
    (noColon : ':' ∉ text) :
    IsScoped depth previous (text ++ ':' :: ':' :: rest) := by
  intro before after shape outside
  rcases Text.of_append_eq_append_cons shape with ⟨inner, rfl⟩ | ⟨outer, rfl, behind⟩
  · exact absurd (List.mem_append_right _ List.mem_cons_self) noColon
  -- The first colon of the pair has one behind it, and the second one in front of it.
  · rcases outer with - | ⟨first, - | ⟨second, outer⟩⟩
    · obtain ⟨-, rfl⟩ := List.cons.inj behind
      exact .inr rfl
    · obtain ⟨rfl, -⟩ := List.cons.inj behind
      exact .inl (by simp)
    · obtain ⟨rfl, behindFirst⟩ := List.cons.inj behind
      obtain ⟨rfl, behindSecond⟩ := List.cons.inj behindFirst
      have outsideLater : depth + text.count '<' - text.count '>' + outer.count '<' -
          outer.count '>' = 0 := by
        simp at outside
        omega
      refine (later outer after behindSecond outsideLater).imp_left fun isColon => ?_
      rw [List.getLast?_append, List.getLast?_cons, List.getLast?_cons]
      cases isLast : outer.getLast? with
      | none => rfl
      | some last => simpa [isLast] using isColon

theorem isScoped_intercalate
    {texts : List Text}
    (noColon : ∀ text ∈ texts, ':' ∉ text)
    (depth : Int)
    (previous : Option Char) :
    IsScoped depth previous ("::".toList.intercalate texts) := by
  induction texts generalizing depth previous with
  | nil => exact isScoped_of_not_mem List.not_mem_nil depth previous
  | cons text texts hypothesis =>
    have noColonFirst := noColon text List.mem_cons_self
    cases texts with
    | nil =>
      rw [List.intercalate_singleton]
      exact isScoped_of_not_mem noColonFirst depth previous
    | cons next texts =>
      have later := hypothesis (fun other member => noColon other (List.mem_cons_of_mem _ member))
        (depth + text.count '<' - text.count '>') (some ':')
      have marks : "::".toList = [':', ':'] := by decide
      rw [List.intercalate_cons_cons, marks, List.append_assoc]
      rw [marks] at later
      exact later.behind_pair noColonFirst

/-- A head without a single colon is a name. -/
theorem nameAndBases_of_isScoped
    {name : Text}
    (isScoped : IsScoped 0 none name) :
    nameAndBases name = (name, []) := by
  have cut := cutAtColon?_append isScoped []
  rw [List.append_nil, cutAtColon?, Option.map_none] at cut
  rw [nameAndBases, cut]

/-- Behind a name, a single colon begins the list of bases. -/
theorem nameAndBases_append
    {name rest : Text}
    (isScoped : IsScoped 0 none name)
    (sameAngles : name.count '<' = name.count '>')
    (solid : Text.Solid name)
    (notScope : rest.head? ≠ some ':') :
    nameAndBases (name ++ ' ' :: ':' :: rest) = (name, basesOf rest) := by
  have scopedBlank : IsScoped 0 none (name ++ [' ']) := isScoped.append (by decide)
  have outside : (0 : Int) + ((name ++ [' ']).count '<' : Nat) - ((name ++ [' ']).count '>' : Nat) =
      0 := by
    simp [sameAngles]
  have behind : (name ++ [' ']).getLast?.or none = some ' ' := by simp
  have here : cutAtColon? 0 (some ' ') (':' :: rest) = some ([], rest) := by
    rw [cutAtColon?, if_pos ⟨rfl, rfl, notScope, by decide⟩]
  have cut : cutAtColon? 0 none (name ++ ' ' :: ':' :: rest) = some (name ++ [' '], rest) := by
    have shape : name ++ ' ' :: ':' :: rest = (name ++ [' ']) ++ ':' :: rest := by simp
    rw [shape, cutAtColon?_append scopedBlank, outside, behind, here]
    simp
  have trimmed : Text.trim (name ++ [' ']) = name := by
    simpa using Text.trim_append_append [] [' '] (by simp) solid (by decide)
  rw [nameAndBases, cut]
  dsimp only
  rw [trimmed]

/-! ## The text of a head -/

/-- The head is what stands between the declaring word and the first brace. -/
theorem headOf_append
    {word inner : Text}
    (isWord : word ∈ Block.declarationWords)
    (noBrace : '{' ∉ inner)
    (body : Text) :
    headOf (word ++ ' ' :: inner ++ '{' :: body) = Text.trim (' ' :: inner) := by
  have noDelimiter := Block.isDelimiter_eq_false_of_mem_declarationWords word isWord
  have wordNoBrace : '{' ∉ word := by
    intro member
    have isDelimiter := noDelimiter _ member
    contradiction
  have noBraceInFront : '{' ∉ word ++ ' ' :: inner := by
    intro member
    rcases List.mem_append.mp member with inWord | behind
    · exact wordNoBrace inWord
    · exact noBrace (by simpa using behind)
  have blankDelimits : Reserved.isDelimiter ' ' = true := by decide
  rw [headOf, Text.takeWhile_append_cons noBraceInFront,
    List.dropWhile_append_of_pos fun character member => by simp [noDelimiter character member],
    List.dropWhile_cons_of_neg (by simp [blankDelimits])]

end ClassOutline.ClassHead
