import Mathlib.Data.List.Infix
import Mathlib.Data.List.TakeWhile
import ClassOutline.Proofs.Member.Outside
import ClassOutline.Proofs.Member.Values
/-!
# Marks between brackets

Between parentheses no semicolon ends a piece, and literals there may hold parentheses of their own.

No token begins between brackets.  So if all commas, opening braces and equals signs of a line stand
between brackets, each token begins with something that is kept, and the line declares a member or
cannot be resolved.
-/

namespace ClassOutline

/-! ## Pieces -/

namespace Literal

/-- The mark that is open behind a text, given the one in front of it. -/
def afterText (mark : Option Char) (text : Text) : Option Char :=
  text.foldl after mark

end Literal

namespace Statement

/-- A piece goes on through a text between parentheses, whatever stands there. -/
theorem piecesFrom_enclosed_append
    {nested : Bool}
    {mark : Option Char}
    {opened : Int}
    {text rest piece : Text}
    {pieces : List Text}
    (noBreak : '\n' ∉ text)
    (enclosed : ∀ front, front <+: Literal.outsideFrom mark text → 0 < opened + parens front)
    (split : piecesFrom nested (Literal.afterText mark text)
      (opened + parens (Literal.outsideFrom mark text)) rest = piece :: pieces) :
    piecesFrom nested mark opened (text ++ rest) = (text ++ piece) :: pieces := by
  induction text generalizing mark opened with
  | nil => simpa [Literal.afterText, Literal.outsideFrom] using split
  | cons current text hypothesis =>
    obtain ⟨notBreak, noBreakLater⟩ := List.ne_and_not_mem_of_not_mem_cons noBreak
    rw [Literal.outsideFrom, if_neg notBreak.symm] at enclosed split
    rw [List.cons_append, piecesFrom]
    by_cases covered : Literal.covers mark current = true
    · rw [if_pos covered] at enclosed split ⊢
      rw [hypothesis noBreakLater enclosed split]
      rfl
    · rw [if_neg covered] at enclosed split ⊢
      have noMark : mark = none := by
        cases mark with
        | none => rfl
        | some opening => simp [Literal.covers] at covered
      have stillNone : Literal.after mark current = none := by
        rw [noMark, Literal.after]
        simpa [Literal.covers, noMark] using covered
      have isOpen : 0 < opened := by simpa using enclosed [] List.nil_prefix
      have counted :
          (if current = '(' then opened + 1 else if current = ')' then opened - 1 else opened) =
            opened + parenChange current := by
        rw [parenChange]
        split
        · rfl
        · split <;> omega
      have later : piecesFrom nested none (opened + parenChange current) (text ++ rest) =
          (text ++ piece) :: pieces := by
        rw [← stillNone]
        refine hypothesis noBreakLater (fun front isPrefix => ?_) ?_
        · have isInside := enclosed (current :: front) (List.cons_prefix_cons.mpr ⟨rfl, isPrefix⟩)
          rwa [parens_cons, ← Int.add_assoc] at isInside
        · rw [parens_cons, ← Int.add_assoc] at split
          exact split
      rw [if_neg (by omega)]
      dsimp only
      rw [counted, later]
      rfl

end Statement

/-! ## Tokens -/

namespace Declaration

/-- The marks at the beginning of a token of which nothing may be kept. -/
def droppedMarks : List Char :=
  [',', '{', '=']

/-- Each of those marks stands between parentheses or between angle brackets. -/
def GuardsMarks (text : Text) : Prop :=
  ∀ front mark behind, text = front ++ mark :: behind → mark ∈ droppedMarks →
    front.count '(' ≠ front.count ')' ∨ front.count '<' ≠ front.count '>'

instance (text : Text) : Decidable (GuardsMarks text) :=
  decidable_of_iff
    (∀ front ∈ text.inits, ∀ mark ∈ droppedMarks, front ++ [mark] <+: text →
      front.count '(' ≠ front.count ')' ∨ front.count '<' ≠ front.count '>') <| by
    constructor
    · intro guarded front mark behind shape isMark
      refine guarded front ((List.mem_inits front text).mpr ?_) mark isMark ?_
      · exact ⟨mark :: behind, shape.symm⟩
      · exact ⟨behind, by simp [shape]⟩
    · rintro guards front - mark isMark ⟨behind, shape⟩
      exact guards front mark behind (by simp [← shape]) isMark

/-- No token begins with a guarded mark. -/
theorem head?_of_mem_tokens
    {text token : Text}
    (guards : GuardsMarks text)
    (member : token ∈ tokens text) :
    ∀ first ∈ token.head?, first ∉ droppedMarks := by
  intro first isFirst isMark
  obtain ⟨rest, begins⟩ := List.head?_eq_some_iff.mp (Option.mem_def.mp isFirst)
  have shape : token = [] ++ first :: rest := begins
  obtain ⟨earlier, later, split⟩ := List.append_of_mem member
  obtain ⟨front, behind, textShape, counted⟩ := exists_of_tokens_eq split shape
  rw [List.append_nil] at counted
  obtain ⟨-, parens, angles⟩ := balanced_flatten_of_complete split (List.cons_ne_nil _ _)
  have isOpen := guards front first behind textShape isMark
  rw [counted '(' (by decide), counted ')' (by decide), counted '<' (by decide),
    counted '>' (by decide)] at isOpen
  exact isOpen.elim (fun unmatched => unmatched parens) fun unmatched => unmatched angles

theorem ne_nil_of_mem_tokens
    {text token : Text}
    (member : token ∈ tokens text) :
    token ≠ [] := by
  have ofWords : ∀ word ∈ text.words, word ≠ [] :=
    fun word isWord => of_decide_eq_true (List.mem_filter.mp isWord).2
  have ofBoth : ∀ group piece : Text, group ≠ [] → piece ≠ [] → group ++ [] ++ piece ≠ [] :=
    fun group piece isGroup _ => by simp [isGroup]
  exact Text.forall_mem_regroup ofWords ofBoth token member

/-- A line that does not begin with a blank has tokens. -/
theorem tokens_ne_nil
    {text : Text}
    (begins : ∃ first ∈ text.head?, Text.isBlank first = false) :
    tokens text ≠ [] := by
  obtain ⟨first, isFirst, notBlank⟩ := begins
  intro none
  have isKept : first ∈ (tokens text).flatten := by
    rw [flatten_tokens]
    exact List.mem_filter.mpr ⟨List.mem_of_mem_head? isFirst, by simp [notBlank]⟩
  rw [none] at isKept
  contradiction

/-- Among tokens that neither are empty nor begin with a comma, there is a declarator. -/
theorem exists_declarator
    {tokens : List Text}
    (notEmpty : tokens ≠ [])
    (areKept : ∀ token ∈ tokens, token ≠ [] ∧ token.head? ≠ some ',') :
    ∃ declarator ∈ (typeAndDeclarators tokens).2, declarator ≠ [] := by
  rw [typeAndDeclarators]
  by_cases isList : tokens.any isListed = true
  · rw [if_pos isList]
    obtain ⟨token, isToken, listed⟩ := List.any_eq_true.mp isList
    -- The first listed token ends with a comma, and does not begin with it.
    have notAll : tokens.dropWhile (fun token => !isListed token) ≠ [] := by
      intro none
      have notListed := List.dropWhile_eq_nil_iff.mp none token isToken
      simp [listed] at notListed
    obtain ⟨first, rest, shape⟩ := List.exists_cons_of_ne_nil notAll
    have isFirst : isListed first = true := by
      have dropped := List.head?_dropWhile_not (fun token => !isListed token) tokens
      rw [shape] at dropped
      simpa using dropped
    have isKept := areKept first ((List.dropWhile_sublist _).subset (shape ▸ List.mem_cons_self))
    refine ⟨first.dropLast, ?_, ?_⟩
    · dsimp only
      rw [shape, declaratorsFrom, if_pos isFirst]
      exact List.mem_cons_self
    · intro single
      have ends : first.getLast? = some ',' := by
        have listedEnd := (Bool.and_eq_true _ _).mp isFirst
        exact of_decide_eq_true listedEnd.1
      obtain ⟨front, ended⟩ := List.getLast?_eq_some_iff.mp ends
      rw [ended, List.dropLast_concat] at single
      rw [ended, single] at isKept
      exact isKept.2 rfl
  · rw [if_neg isList]
    obtain ⟨front, last, shape⟩ := (List.eq_nil_or_concat tokens).resolve_left notEmpty
    rw [List.concat_eq_append] at shape
    refine ⟨last, by simp [shape], (areKept last (by simp [shape])).1⟩

/-- A token keeps its first character, unless that is a brace. -/
theorem head?_withoutBraces
    {token : Text}
    (noBrace : token.head? ≠ some '{') :
    (withoutBraces token).head? = token.head? := by
  rw [withoutBraces]
  cases token with
  | nil => rfl
  | cons first rest =>
    have notBrace : first ≠ '{' := fun equal => noBrace (congrArg some equal)
    split
    · rw [List.takeWhile_cons_of_pos (by simpa using notBrace)]
      rfl
    · rfl

/-- If all such marks stand between brackets, a line declares a member or is not resolved. -/
theorem members_ne_ok_nil
    {text : Text}
    (begins : ∃ first ∈ text.head?, Text.isBlank first = false)
    (guards : GuardsMarks text) :
    members (text ++ [';']) ≠ .ok [] := by
  have notDropped : ∀ token ∈ tokens text, ∀ mark ∈ droppedMarks, token.head? ≠ some mark :=
    fun token isToken mark isMark isFirst => head?_of_mem_tokens guards isToken mark isFirst isMark
  have noSigns : ∀ token ∈ tokens text, token ≠ ['='] := by
    rintro token isToken rfl
    exact notDropped _ isToken '=' (by decide) rfl
  have areKept : ∀ token ∈ (tokens text).map withoutBraces,
      token ≠ [] ∧ token.head? ≠ some ',' := by
    intro token member
    obtain ⟨whole, isToken, rfl⟩ := List.mem_map.mp member
    have sameFirst := head?_withoutBraces (notDropped whole isToken '{' (by decide))
    constructor
    · intro none
      rw [none] at sameFirst
      exact ne_nil_of_mem_tokens isToken (List.head?_eq_none_iff.mp sameFirst.symm)
    · rw [sameFirst]
      exact notDropped whole isToken ',' (by decide)
  have notEmpty : (tokens text).map withoutBraces ≠ [] := by simpa using tokens_ne_nil begins
  obtain ⟨declarator, isDeclarator, declaratorNotEmpty⟩ := exists_declarator notEmpty areKept
  have passes : (withoutValues false (tokens text)).map withoutBraces =
      (tokens text).map withoutBraces := by
    rw [withoutValues_of_noSign noSigns]
  rw [members_of_passes begins passes notEmpty rfl]
  split
  · simp
  · intro none
    have noDeclarators := List.map_eq_nil_iff.mp (Except.ok.inj none)
    exact declaratorNotEmpty (by simpa using List.filter_eq_nil_iff.mp noDeclarators _ isDeclarator)

end Declaration

end ClassOutline
