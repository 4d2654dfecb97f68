import ClassOutline.Member.Declaration
import ClassOutline.Proofs.Checked.Steps
/-!
# Declarations by indices

The tokens of a declaration are worked on by their indices.  A sign of assignment marks its own
index and the next one, and may change the token at the index in front of it.  A token with its only
comma at its end marks its own index and the next one as declarators, and the tokens in front of the
first marked index make up the type.

Each index that is read lies in the list of the tokens: the list keeps its length while commas are
passed on.  The members found are those that the cut into type and declarators gives.
-/

namespace ClassOutline.Checked

/-! ## Initial values -/

/-- The tokens while initial values are looked for, with the indices marked so far. -/
structure Marking where
  tokens : List Text
  marked : List Nat := []

namespace Marking

/-- The marks and tokens after a look at the token with a given index. -/
def lookAt? (marking : Marking) (index : Nat) : Option Marking := do
  let token ← marking.tokens[index]?
  if token = ['='] then do
    let marked := marking.marked ++ [index, index + 1]
    let carriesComma := marking.tokens[index + 1]?.any fun value =>
      value.head? = some ',' ∨ Declaration.endsWithComma value
    if carriesComma && 0 < index then do
      let before ← sub? index 1
      let declarator ← marking.tokens[before]?
      if Declaration.endsWithComma declarator then some { marking with marked }
      else some { tokens := marking.tokens.set before (declarator ++ [',']), marked }
    else some { marking with marked }
  else some marking

/-- The tokens that are not marked. -/
def unmarked (marking : Marking) : List Text :=
  (marking.tokens.zipIdx.filter fun (_, index) => !marking.marked.contains index).map Prod.fst

end Marking

/-- The tokens without initial values. -/
def withoutValues? (tokens : List Text) : Option (List Text) := do
  let marking ← (List.range tokens.length).foldlM Marking.lookAt? { tokens }
  some marking.unmarked

/-- The tokens seen so far, the last of which gets the comma of the value behind it. -/
def withComma (rest seen : List Text) : List Text :=
  seen.dropLast ++ (seen.getLast?.map (Declaration.withCommaOf rest)).toList

theorem withComma_concat
    (rest seen : List Text)
    (token : Text) :
    withComma rest (seen ++ [token]) = seen ++ [Declaration.withCommaOf rest token] := by
  simp [withComma]

theorem length_withComma
    (rest seen : List Text) :
    (withComma rest seen).length = seen.length := by
  rcases List.eq_nil_or_concat seen with rfl | ⟨seen, token, rfl⟩
  · rfl
  · simp [List.concat_eq_append, withComma_concat]

/-- Only a sign in front of a value lets a token get a comma. -/
theorem withComma_eq_self
    {rest : List Text}
    (noSign : ∀ sign ∈ rest.head?, sign ≠ ['='])
    (seen : List Text) :
    withComma rest seen = seen := by
  rcases List.eq_nil_or_concat seen with rfl | ⟨seen, token, rfl⟩
  · rfl
  · have same : Declaration.withCommaOf rest token = token := by
      rw [Declaration.withCommaOf.eq_def]
      split
      · next sign _ _ => rw [if_neg fun ends => noSign sign rfl ends.1]
      · rfl
    rw [List.concat_eq_append, withComma_concat, same]

namespace Marking

theorem unmarked_append
    (seen rest : List Text)
    (marked : List Nat) :
    unmarked { tokens := seen ++ rest, marked } =
      unmarked { tokens := seen, marked } ++
        ((rest.zipIdx seen.length).filter
          fun (_, index) => !marked.contains index).map Prod.fst := by
  simp [unmarked, List.zipIdx_append]

/-- Later marks do not matter. -/
theorem unmarked_append_later
    {seen : List Text}
    {later : List Nat}
    (areLater : ∀ index ∈ later, seen.length ≤ index)
    (marked : List Nat) :
    unmarked { tokens := seen, marked := marked ++ later } =
      unmarked { tokens := seen, marked } := by
  refine congrArg (List.map Prod.fst) (List.filter_congr fun entry member => ?_)
  obtain ⟨token, index⟩ := entry
  have inSeen : index < seen.length := by
    have bounds := List.mem_zipIdx member
    dsimp only at bounds
    omega
  have notLater : index ∉ later := fun isLater => by
    have notSeen := areLater index isLater
    omega
  simp [notLater]

/-- A look finds the token, and the one in front of it if that one is changed. -/
theorem lookAt?_append
    (seen rest : List Text)
    (token : Text)
    (marked : List Nat) :
    lookAt? { tokens := seen ++ token :: rest, marked } seen.length =
      some
        { tokens := withComma (token :: rest) seen ++ token :: rest
          marked :=
            if token = ['='] then marked ++ [seen.length, seen.length + 1] else marked } := by
  rw [lookAt?]
  dsimp only
  rw [getElem?_length_append_cons, getElem?_succ_length_append_cons]
  simp only [Option.bind_eq_bind, Option.bind_some]
  by_cases isSign : token = ['=']
  · rw [if_pos isSign, if_pos isSign]
    rcases List.eq_nil_or_concat seen with rfl | ⟨seen, declarator, rfl⟩
    · simp [withComma]
    · rw [List.concat_eq_append, withComma_concat] at *
      have before : ((seen ++ [declarator]) ++ token :: rest)[seen.length]? = some declarator := by
        simp
      have changed (other : Text) :
          ((seen ++ [declarator]) ++ token :: rest).set seen.length other =
            (seen ++ [other]) ++ token :: rest := by
        simp
      have front : sub? (seen ++ [declarator]).length 1 = some seen.length := by
        rw [List.length_append]
        exact sub?_add_right _ _
      rw [front]
      simp only [Option.bind_some]
      rw [before]
      simp only [Option.bind_some, changed]
      cases rest with
      | nil => simp [Declaration.withCommaOf]
      | cons value rest =>
        rw [Declaration.withCommaOf.eq_def]
        dsimp only
        by_cases carries : value.head? = some ',' ∨ Declaration.endsWithComma value = true
        · cases ends : Declaration.endsWithComma declarator <;> simp [isSign, carries]
        · simp [isSign, carries]
  · have noSign : ∀ sign ∈ (token :: rest).head?, sign ≠ ['='] := by
      rintro sign ⟨⟩
      exact isSign
    rw [if_neg isSign, if_neg isSign, withComma_eq_self noSign]

/-- The looks at the tokens that are left keep what is not a value. -/
theorem foldlM_lookAt?
    {seen rest : List Text}
    {marked : List Nat}
    (earlier : ∀ index ∈ marked, index ≤ seen.length) :
    ∃ marking,
      (List.range' seen.length rest.length).foldlM lookAt? { tokens := seen ++ rest, marked } =
        some marking ∧
      marking.unmarked =
        unmarked { tokens := withComma rest seen, marked } ++
          Declaration.withoutValues (marked.contains seen.length) rest := by
  induction rest generalizing seen marked with
  | nil =>
    have same : withComma [] seen = seen := withComma_eq_self (by simp) seen
    exact ⟨_, rfl, by simp [same, Declaration.withoutValues]⟩
  | cons token rest hypothesis =>
    rw [List.length_cons, List.range'_succ, List.foldlM_cons, lookAt?_append]
    simp only [Option.bind_eq_bind, Option.bind_some]
    have shape : withComma (token :: rest) seen ++ token :: rest =
        (withComma (token :: rest) seen ++ [token]) ++ rest := by simp
    have size : (withComma (token :: rest) seen ++ [token]).length = seen.length + 1 := by
      simp [length_withComma]
    rw [shape]
    by_cases isSign : token = ['=']
    · -- The sign and the value behind it are marked.
      rw [if_pos isSign]
      have earlierNow : ∀ index ∈ marked ++ [seen.length, seen.length + 1],
          index ≤ (withComma (token :: rest) seen ++ [token]).length := by
        intro index member
        rw [size]
        rcases List.mem_append.mp member with before | now
        · exact Nat.le_succ_of_le (earlier index before)
        · simp only [List.mem_cons, List.not_mem_nil, or_false] at now
          omega
      obtain ⟨marking, run, kept⟩ := hypothesis earlierNow
      rw [size] at run kept
      refine ⟨marking, run, ?_⟩
      have later : ∀ index ∈ [seen.length, seen.length + 1],
          (withComma (token :: rest) seen).length ≤ index := by
        simp [length_withComma]
      rw [kept, withComma_concat, unmarked_append, unmarked_append_later later, length_withComma,
        Declaration.withoutValues, if_pos isSign]
      simp
    · rw [if_neg isSign]
      have noSign : ∀ sign ∈ (token :: rest).head?, sign ≠ ['='] := by
        rintro sign ⟨⟩
        exact isSign
      rw [withComma_eq_self noSign] at size ⊢
      have earlierNow : ∀ index ∈ marked, index ≤ (seen ++ [token]).length := fun index member => by
        rw [size]
        exact Nat.le_succ_of_le (earlier index member)
      obtain ⟨marking, run, kept⟩ := hypothesis earlierNow
      rw [size] at run kept
      refine ⟨marking, run, ?_⟩
      have notMarked : marked.contains (seen.length + 1) = false := by
        rw [← Bool.not_eq_true, List.contains_iff_mem]
        exact fun member => absurd (earlier _ member) (by omega)
      rw [kept, withComma_concat, unmarked_append, notMarked, Declaration.withoutValues,
        if_neg isSign]
      cases isValue : marked.contains seen.length <;> simp_all

end Marking

theorem withoutValues?_eq (tokens : List Text) :
    withoutValues? tokens = some (Declaration.withoutValues false tokens) := by
  obtain ⟨marking, run, kept⟩ :=
    @Marking.foldlM_lookAt? [] tokens [] (by simp)
  rw [withoutValues?, List.range_eq_range']
  rw [List.length_nil, List.nil_append] at run
  rw [run]
  simp only [Option.bind_eq_bind, Option.bind_some]
  rw [kept]
  simp [Marking.unmarked, withComma]

/-- A declarator without a value in braces, cut off at the brace. -/
def withoutBraces? (token : Text) : Option Text :=
  match find? token ['{'] with
  | none => some token
  | some brace => do
    let front ← slice? token 0 brace
    some (front ++ if Declaration.endsWithComma token then [','] else [])

theorem withoutBraces?_eq (token : Text) :
    withoutBraces? token = some (Declaration.withoutBraces token) := by
  rw [withoutBraces?, Declaration.withoutBraces, find?_singleton]
  by_cases member : '{' ∈ token
  · rw [if_pos member, if_pos (List.contains_iff_mem.mpr member)]
    dsimp only
    rw [slice?_takeWhile]
    rfl
  · rw [if_neg member, if_neg fun found => member (List.contains_iff_mem.mp found)]

/-! ## Type and declarators -/

/-- Whether the first comma of a token is its last byte. -/
def endsAtComma (token : Text) : Bool :=
  (find? token [',']).any (· + 1 = token.width)

theorem endsAtComma_eq (token : Text) : endsAtComma token = Declaration.isListed token := by
  rw [endsAtComma, find?_singleton, Declaration.isListed, Declaration.endsWithComma]
  by_cases member : ',' ∈ token
  · obtain ⟨front, behind, rfl, notInFront⟩ := List.eq_append_cons_of_mem member
    have taken : (front ++ ',' :: behind).takeWhile (· ≠ ',') = front := by
      rw [Text.takeWhile_append_of_not_mem notInFront]
      simp
    have comma : (',').utf8Size = 1 := by decide
    rw [if_pos member, taken, Option.any_some, Bool.eq_iff_iff]
    rw [Text.width_append, Text.width_cons, comma]
    cases behind with
    | nil => simp [List.count_eq_zero.mpr notInFront]
    | cons first behind =>
      have positive := first.utf8Size_pos
      have longer :
          ¬ Text.width front + 1 = Text.width front + (1 + Text.width (first :: behind)) := by
        rw [Text.width_cons]
        omega
      simp only [decide_eq_true_eq, longer, Bool.and_eq_true, false_iff, not_and]
      intro ends onlyOne
      have endsBehind : (first :: behind).getLast? = some ',' := by
        simpa using ends
      have inBehind : ',' ∈ first :: behind := List.mem_of_getLast? endsBehind
      have many := List.count_pos_iff.mpr inBehind
      rw [List.count_append, List.count_cons_self] at onlyOne
      omega
  · have notLast : token.getLast? ≠ some ',' := fun ends => member (List.mem_of_getLast? ends)
    rw [if_neg member]
    simp [notLast]

/-- The indices of the listed tokens and of the tokens behind them, in ascending order. -/
def declaratorIndices (isDeclarator : Bool) (index : Nat) : List Text → List Nat
  | [] => if isDeclarator then [index] else []
  | token :: rest =>
    if endsAtComma token then index :: declaratorIndices true (index + 1) rest
    else if isDeclarator then index :: declaratorIndices false (index + 1) rest
    else declaratorIndices false (index + 1) rest

/-- The tokens of the type and the declarators of tokens, at least one of which there is. -/
def typeAndDeclarators? (tokens : List Text) : Option (List Text × List Text) := do
  let found := declaratorIndices false 0 tokens
  let tokens := tokens.map fun token => if endsAtComma token then token.dropLast else token
  let names ←
    if found = [] then do
      let last ← sub? tokens.length 1
      some [last]
    else some found
  let type ← sliceList? tokens 0 (min (names.head?.getD tokens.length) tokens.length)
  some (type, names.filterMap (tokens[·]?))

/-- A token without the comma that lists it. -/
abbrev withoutComma (token : Text) : Text :=
  if Declaration.isListed token then token.dropLast else token

/-- The tokens at the indices are the declarators. -/
theorem filterMap_declaratorIndices
    (isDeclarator : Bool)
    (seen rest : List Text) :
    (declaratorIndices isDeclarator seen.length rest).filterMap
        ((seen ++ rest.map withoutComma)[·]?) =
      Declaration.declaratorsFrom isDeclarator rest := by
  induction rest generalizing isDeclarator seen with
  | nil => cases isDeclarator <;> simp [declaratorIndices, Declaration.declaratorsFrom]
  | cons token rest hypothesis =>
    have later (isDeclarator : Bool) := hypothesis isDeclarator (seen ++ [withoutComma token])
    have shape : (seen ++ [withoutComma token]) ++ rest.map withoutComma =
        seen ++ (token :: rest).map withoutComma := by simp
    have found : (seen ++ (token :: rest).map withoutComma)[seen.length]? =
        some (withoutComma token) := by simp
    have size : (seen ++ [withoutComma token]).length = seen.length + 1 := by simp
    simp only [shape, size] at later
    rw [declaratorIndices, Declaration.declaratorsFrom, endsAtComma_eq]
    by_cases isListed : Declaration.isListed token = true
    · rw [if_pos isListed, if_pos isListed, List.filterMap_cons, found, later]
      simp [withoutComma, isListed]
    · rw [if_neg isListed, if_neg isListed]
      cases isDeclarator with
      | true =>
        rw [if_pos rfl, if_pos rfl, List.filterMap_cons, found, later]
        simp [withoutComma, isListed]
      | false =>
        rw [if_neg Bool.false_ne_true, if_neg Bool.false_ne_true, later]

/-- The first index is the number of the tokens in front of the first listed one. -/
theorem head?_declaratorIndices
    (index : Nat)
    (tokens : List Text) :
    (declaratorIndices false index tokens).head? =
      if tokens.any Declaration.isListed then
        some (index + (tokens.takeWhile fun token => !Declaration.isListed token).length)
      else none := by
  induction tokens generalizing index with
  | nil => rfl
  | cons token rest hypothesis =>
    rw [declaratorIndices, endsAtComma_eq]
    cases isListed : Declaration.isListed token with
    | true => simp [isListed]
    | false =>
      rw [if_neg Bool.false_ne_true, if_neg Bool.false_ne_true, hypothesis]
      simp only [List.any_cons, isListed, Bool.false_or, List.takeWhile_cons, Bool.not_false,
        if_true, List.length_cons, Nat.add_assoc, Nat.add_comm 1]

/-- The tokens of the type are no declarators. -/
theorem declaratorsFrom_dropWhile (tokens : List Text) :
    Declaration.declaratorsFrom false (tokens.dropWhile fun token => !Declaration.isListed token) =
      Declaration.declaratorsFrom false tokens := by
  induction tokens with
  | nil => rfl
  | cons token rest hypothesis =>
    cases isListed : Declaration.isListed token with
    | true => simp [isListed]
    | false => simpa [isListed, Declaration.declaratorsFrom] using hypothesis

theorem typeAndDeclarators?_eq
    {tokens : List Text}
    (notEmpty : tokens ≠ []) :
    typeAndDeclarators? tokens = some (Declaration.typeAndDeclarators tokens) := by
  have declarators := filterMap_declaratorIndices false [] tokens
  have first := head?_declaratorIndices 0 tokens
  have sameTokens : (tokens.map fun token => if endsAtComma token then token.dropLast else token) =
      tokens.map withoutComma :=
    List.map_congr_left fun token _ => by rw [endsAtComma_eq]
  rw [List.length_nil, List.nil_append] at declarators
  rw [typeAndDeclarators?, Declaration.typeAndDeclarators, sameTokens]
  by_cases someListed : tokens.any Declaration.isListed = true
  · rw [if_pos someListed, Nat.zero_add] at first
    have found : declaratorIndices false 0 tokens ≠ [] := fun empty => by
      rw [empty] at first
      contradiction
    have typeTokens : (tokens.takeWhile fun token => !Declaration.isListed token).map withoutComma =
        tokens.takeWhile fun token => !Declaration.isListed token := by
      conv => rhs; rw [← List.map_id (tokens.takeWhile _)]
      refine List.map_congr_left fun token member => ?_
      have notListed := List.mem_takeWhile_imp member
      simp_all [withoutComma]
    have shape : tokens.map withoutComma =
        [] ++ ((tokens.takeWhile fun token => !Declaration.isListed token) ++
          (tokens.dropWhile fun token => !Declaration.isListed token).map withoutComma) := by
      rw [List.nil_append]
      conv => rhs; rw [← typeTokens]
      rw [← List.map_append, List.takeWhile_append_dropWhile]
    have inRange : (tokens.takeWhile fun token => !Declaration.isListed token).length ≤
        tokens.length := (List.takeWhile_prefix _).length_le
    rw [if_neg found]
    simp only [Option.bind_eq_bind, Option.bind_some]
    have cut := @sliceList?_eq_some _ _ _ _ _ 0 _ shape rfl (Nat.zero_add _).symm
    rw [first, declarators, List.length_map, Option.getD_some, Nat.min_eq_left inRange, cut,
      if_pos someListed, declaratorsFrom_dropWhile]
    rfl
  · rw [if_neg someListed] at first
    have noneListed : ∀ token ∈ tokens, Declaration.isListed token = false := by
      simpa using someListed
    have whole : tokens.map withoutComma = tokens := by
      conv => rhs; rw [← List.map_id tokens]
      refine List.map_congr_left fun token member => ?_
      simp [withoutComma, noneListed token member]
    obtain ⟨front, last, rfl⟩ := (List.eq_nil_or_concat tokens).resolve_left notEmpty
    rw [List.concat_eq_append] at *
    have lastIndex : sub? (front ++ [last]).length 1 = some front.length := by
      rw [List.length_append]
      exact sub?_add_right _ _
    have typeTokens : sliceList? (front ++ [last]) 0 (min front.length (front ++ [last]).length) =
        some front :=
      @sliceList?_eq_some _ _ [] front [last] _ _ rfl rfl (by simp)
    rw [if_pos (List.head?_eq_none_iff.mp first), whole, lastIndex]
    simp only [Option.bind_eq_bind, Option.bind_some, List.head?_cons, Option.getD_some]
    rw [typeTokens, if_neg someListed]
    simp

/-- The member that a declarator declares, with the brackets of an array cut off. -/
def memberOf? (type declarator : Text) : Option DataMember :=
  if declarator.head? = some '*' ∨ declarator.head? = some '&' then
    some (Declaration.memberOf type declarator)
  else
    match find? declarator ['['] with
    | some bracket => do
      let name ← slice? declarator 0 bracket
      some
        { name
          declaredType := type ++ ['*']
          byValue := Declaration.isBuiltinType type
          isArray := true }
    | none =>
      some { name := declarator, declaredType := type, byValue := Declaration.isBuiltinType type }

theorem memberOf?_eq (type declarator : Text) :
    memberOf? type declarator = some (Declaration.memberOf type declarator) := by
  rw [memberOf?]
  split
  · rfl
  · next noMark =>
    have plain : Declaration.memberOf type declarator =
        if declarator.contains '[' then
          { name := declarator.takeWhile (· ≠ '[')
            declaredType := type ++ ['*']
            byValue := Declaration.isBuiltinType type
            isArray := true }
        else
          { name := declarator
            declaredType := type
            byValue := Declaration.isBuiltinType type } := by
      rw [Declaration.memberOf.eq_def]
      split
      · exact absurd (Or.inl rfl) noMark
      · exact absurd (Or.inr rfl) noMark
      · exact absurd (Or.inr rfl) noMark
      · rfl
    rw [find?_singleton, plain]
    by_cases member : '[' ∈ declarator
    · rw [if_pos member, if_pos (List.contains_iff_mem.mpr member)]
      dsimp only
      rw [slice?_takeWhile]
      rfl
    · rw [if_neg member, if_neg fun found => member (List.contains_iff_mem.mp found)]

/-! ## Members -/

/-- The members that a line declares, worked out by indices of tokens. -/
def members? (line : Text) : Option (Except Failure (List DataMember)) :=
  let line := line.trim
  match line.dropEnding? [';'] with
  | none => some (.ok [])
  | some body => do
    let kept ← withoutValues? (Declaration.tokens body)
    let tokens ← kept.mapM withoutBraces?
    if tokens = [] then some (.ok [])
    else do
      let (typeTokens, declarators) ← typeAndDeclarators? tokens
      let type := Text.unwords (typeTokens.filter (· ≠ Declaration.staticWord))
      if type = [] ∨ ¬ Text.Balanced type then some (.error (.unresolvedDeclaration line))
      else do
        let members ← (declarators.filter (· ≠ [])).mapM (memberOf? type)
        some <| .ok <| members.map fun member =>
          { member with isStatic := typeTokens.contains Declaration.staticWord }

/-- The passes over the tokens of a declaration stay among the tokens. -/
theorem members?_eq (line : Text) : members? line = some (Declaration.members line) := by
  rw [members?, Declaration.members]
  dsimp only
  cases line.trim.dropEnding? [';'] with
  | none => rfl
  | some body =>
    dsimp only
    rw [withoutValues?_eq]
    simp only [Option.bind_eq_bind, Option.bind_some]
    rw [mapM_eq_some fun token _ => withoutBraces?_eq token]
    simp only [Option.bind_some]
    generalize (Declaration.withoutValues false (Declaration.tokens body)).map
      Declaration.withoutBraces = tokens
    cases tokens with
    | nil => rfl
    | cons token tokens =>
      rw [if_neg (List.cons_ne_nil token tokens),
        typeAndDeclarators?_eq (List.cons_ne_nil token tokens)]
      simp only [Option.bind_some]
      split
      · rfl
      · rw [mapM_eq_some fun declarator _ => memberOf?_eq _ declarator]
        simp [Function.comp_def]

end ClassOutline.Checked
