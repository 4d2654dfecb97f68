import Mathlib.Data.List.Forall2
import ClassOutline.Proofs.Member.Pieces
import ClassOutline.Proofs.Member.Shapes
import ClassOutline.Proofs.Member.Values
/-!
# How names are spelled

A member is named by a declarator; a pointer or reference to a function is named between the first
parentheses.  Of a declarator one mark in front of the name is taken off, or the extent of an array
behind it.  Between parentheses everything behind the mark is taken for the name.  So a name is
clean exactly if it was spelled with no more than that.
-/

namespace ClassOutline

/-- A name without blanks and without the marks that may stand around it in a declaration. -/
structure IsClean (name : Text) : Prop where
  notEmpty : name ≠ []
  noBlank : ∀ character ∈ name, Text.isBlank character = false
  noMark : ∀ mark ∈ "*&[]()=".toList, mark ∉ name

/-- What the name of a member is read from. -/
inductive Spelling where
  /-- A declarator, without its initial value. -/
  | declarator (text : Text)
  /-- What stands between the first parentheses, behind the mark. -/
  | enclosed (text : Text)

namespace Spelling

/-- The name that is read. -/
def name : Spelling → Text
  | .declarator text => (Declaration.memberOf [] text).name
  | .enclosed text => text.trim

/--
A clean name spelled alone, with a single mark in front of it or the extent of an array behind it,
or between parentheses with nothing but blanks around it.
-/
inductive IsSimple : Spelling → Prop where
  | alone {name : Text} (isClean : IsClean name) : IsSimple (.declarator name)
  | pointer {name : Text} (isClean : IsClean name) : IsSimple (.declarator ('*' :: name))
  | reference {name : Text} (isClean : IsClean name) : IsSimple (.declarator ('&' :: name))
  | temporary {name : Text} (isClean : IsClean name) : IsSimple (.declarator ('&' :: '&' :: name))
  | array {name : Text} (isClean : IsClean name) (extent : Text) :
      IsSimple (.declarator (name ++ '[' :: extent))
  | enclosed {left name right : Text}
      (isClean : IsClean name)
      (blankLeft : ∀ character ∈ left, Text.isBlank character = true)
      (blankRight : ∀ character ∈ right, Text.isBlank character = true) :
      IsSimple (.enclosed (left ++ name ++ right))

end Spelling

/-! ## Clean names -/

namespace Declaration

/-- A declarator without a mark in front of it names what stands in front of an extent. -/
theorem name_memberOf
    {declarator : Text}
    (noMark : ∀ first ∈ declarator.head?, first ≠ '*' ∧ first ≠ '&')
    (type : Text) :
    (memberOf type declarator).name = declarator.takeWhile (· ≠ '[') := by
  rw [memberOf.eq_def]
  split
  · exact absurd rfl (noMark '*' rfl).1
  · exact absurd rfl (noMark '&' rfl).2
  · exact absurd rfl (noMark '&' rfl).2
  · split
    · rfl
    · next noExtent =>
      have whole : ∀ character ∈ declarator, decide (character ≠ '[') = true :=
        fun character member => decide_eq_true fun equal =>
          noExtent (List.contains_iff_mem.mpr (equal ▸ member))
      exact (List.takeWhile_eq_self_iff.mpr whole).symm

/-- A single mark of a reference is taken off. -/
theorem name_memberOf_reference
    {name : Text}
    (noMark : ∀ first ∈ name.head?, first ≠ '&')
    (type : Text) :
    (memberOf type ('&' :: name)).name = name := by
  rw [memberOf.eq_def]
  split
  · next equal => simp at equal
  · next equal =>
    obtain rfl := (List.cons.inj equal).2
    exact absurd rfl (noMark '&' rfl)
  · next equal => exact (List.cons.inj equal).2.symm
  · next noReference => exact absurd rfl (noReference name)

/-- The type does not matter for the name. -/
theorem name_memberOf_eq
    (type other declarator : Text) :
    (memberOf type declarator).name = (memberOf other declarator).name := by
  rw [memberOf.eq_def, memberOf.eq_def other]
  split
  · rfl
  · rfl
  · rfl
  · split <;> rfl

/-- A name is made of characters of its declarator. -/
theorem name_memberOf_subset (type declarator : Text) :
    (memberOf type declarator).name ⊆ declarator := by
  rw [memberOf.eq_def]
  split
  · exact List.subset_cons_of_subset _ (List.Subset.refl _)
  · exact List.subset_cons_of_subset _ (List.subset_cons_of_subset _ (List.Subset.refl _))
  · exact List.subset_cons_of_subset _ (List.Subset.refl _)
  · split
    · exact (List.takeWhile_prefix _).subset
    · exact List.Subset.refl _

end Declaration

namespace IsClean

variable {name : Text}

theorem ne_of_head?
    (isClean : IsClean name)
    (behind : Text) :
    ∀ first ∈ (name ++ behind).head?, first ≠ '*' ∧ first ≠ '&' := by
  obtain ⟨letter, letters, rfl⟩ := List.exists_cons_of_ne_nil isClean.notEmpty
  intro first isFirst
  obtain rfl := Option.some.inj isFirst
  constructor
  · rintro rfl
    exact isClean.noMark '*' (by decide) List.mem_cons_self
  · rintro rfl
    exact isClean.noMark '&' (by decide) List.mem_cons_self

/-- In front of the extent of an array, a clean name is read whole. -/
theorem name_memberOf_append
    (isClean : IsClean name)
    (type behind : Text) :
    (Declaration.memberOf type (name ++ behind)).name =
      name ++ behind.takeWhile (· ≠ '[') := by
  have noExtent : ∀ character ∈ name, decide (character ≠ '[') = true :=
    fun character member => decide_eq_true fun equal =>
      isClean.noMark '[' (by decide) (equal ▸ member)
  rw [Declaration.name_memberOf (isClean.ne_of_head? behind), List.takeWhile_append_of_pos noExtent]

theorem solid (isClean : IsClean name) : Text.Solid name :=
  Text.solid_of_noBlank isClean.noBlank

end IsClean

namespace Spelling

/-- A clean name is one that is spelled simply. -/
theorem isClean_name_iff (spelling : Spelling) : IsClean spelling.name ↔ IsSimple spelling := by
  constructor
  · intro isClean
    cases spelling with
    | declarator text =>
      rw [name, Declaration.memberOf.eq_def] at isClean
      split at isClean
      · exact .pointer isClean
      · exact .temporary isClean
      · exact .reference isClean
      · split at isClean
        · next hasExtent =>
          obtain ⟨front, extent, rfl, noExtent⟩ :=
            List.eq_append_cons_of_mem (List.contains_iff_mem.mp hasExtent)
          rw [Text.takeWhile_append_cons noExtent] at isClean
          exact .array isClean extent
        · exact .alone isClean
    | enclosed text =>
      obtain ⟨blanks, blank, ended⟩ := text.trimStart.exists_trimEnd_append
      have whole : text.indentation ++ text.trim ++ blanks = text := by
        rw [List.append_assoc, Text.trim, ended, Text.indentation_append_trimStart]
      rw [← whole]
      exact .enclosed isClean (fun character member => List.mem_takeWhile_imp member) blank
  · intro isSimple
    cases isSimple with
    | alone isClean =>
      have read := isClean.name_memberOf_append [] []
      rw [List.append_nil] at read
      rw [name, read]
      simpa using isClean
    | pointer isClean => exact isClean
    | reference isClean =>
      have noMark := isClean.ne_of_head? []
      rw [List.append_nil] at noMark
      rw [name, Declaration.name_memberOf_reference fun first isFirst => (noMark first isFirst).2]
      exact isClean
    | temporary isClean => exact isClean
    | array isClean extent =>
      rw [name, isClean.name_memberOf_append]
      simpa using isClean
    | enclosed isClean blankLeft blankRight =>
      rw [name, Text.trim_append_append _ _ blankLeft isClean.solid blankRight]
      exact isClean

end Spelling

/-! ## Spellings in a statement -/

namespace Declaration

/-- The tokens of a line, without initial values. -/
def passedTokens (line : Text) : List Text :=
  let body := (line.trim.dropEnding? [';']).getD []
  (withoutValues false (tokens body)).map withoutBraces

/-- The tokens in front of the declarators of a line. -/
def typeTokens (line : Text) : List Text :=
  (typeAndDeclarators (passedTokens line)).1

/-- The type that the declarators of a line share. -/
def typeOf (line : Text) : Text :=
  Text.unwords ((typeTokens line).filter (· ≠ staticWord))

/-- The declarators of a line, without initial values. -/
def declarators (line : Text) : List Text :=
  let body := (line.trim.dropEnding? [';']).getD []
  (typeAndDeclarators ((withoutValues false (tokens body)).map withoutBraces)).2.filter (· ≠ [])

/-- What a line declares is one member for each declarator, all of the type in front of them. -/
theorem of_members_eq_ok
    {line : Text}
    {declared : List DataMember}
    (declares : members line = .ok declared) :
    (declared = [] ∨ typeOf line ≠ [] ∧ Text.Balanced (typeOf line)) ∧
      declared = (declarators line).map fun declarator =>
        { memberOf (typeOf line) declarator with isStatic := (typeTokens line).contains staticWord }
    := by
  rw [members] at declares
  rw [typeOf, typeTokens, declarators, passedTokens]
  cases dropped : line.trim.dropEnding? [';'] with
  | none =>
    rw [dropped] at declares
    obtain rfl := Except.ok.inj declares
    exact ⟨.inl rfl, rfl⟩
  | some body =>
    rw [dropped] at declares
    dsimp only [Option.getD_some] at declares ⊢
    cases passed : (withoutValues false (tokens body)).map withoutBraces with
    | nil =>
      rw [passed] at declares
      obtain rfl := Except.ok.inj declares
      exact ⟨.inl rfl, rfl⟩
    | cons token rest =>
      rw [passed] at declares
      dsimp only at declares
      split at declares
      · contradiction
      · next resolved =>
        rw [not_or, not_not] at resolved
        exact ⟨.inr resolved, (Except.ok.inj declares).symm⟩

/-- Each declarator names a member. -/
theorem map_name_members
    {line : Text}
    {declared : List DataMember}
    (declares : members line = .ok declared) :
    declared.map DataMember.name =
      (declarators line).map fun text => (Spelling.declarator text).name := by
  rw [(of_members_eq_ok declares).2, List.map_map]
  exact List.map_congr_left fun text _ => name_memberOf_eq _ _ _

/-- A value that is taken out leaves no more than a comma behind. -/
theorem forall_mem_withoutValues
    {property : Char → Prop}
    (ofComma : property ',')
    {tokens : List Text}
    (ofTokens : ∀ token ∈ tokens, ∀ character ∈ token, property character)
    (isValue : Bool) :
    ∀ token ∈ withoutValues isValue tokens, ∀ character ∈ token, property character := by
  induction tokens generalizing isValue with
  | nil => simp [withoutValues]
  | cons first rest hypothesis =>
    have later := hypothesis fun token member => ofTokens token (List.mem_cons_of_mem _ member)
    have ofFirst : ∀ character ∈ withCommaOf rest first, property character := by
      have commaBehind : withCommaOf rest first = first ∨ withCommaOf rest first = first ++ [','] := by
        rw [withCommaOf.eq_def]
        split
        · split
          · exact .inr rfl
          · exact .inl rfl
        · exact .inl rfl
      intro character member
      rcases commaBehind with same | added
      · exact ofTokens first List.mem_cons_self character (same ▸ member)
      · rw [added] at member
        rcases List.mem_append.mp member with inFirst | isComma
        · exact ofTokens first List.mem_cons_self character inFirst
        · exact List.mem_singleton.mp isComma ▸ ofComma
    rw [withoutValues]
    split
    · exact later true
    · split
      · exact later false
      · intro token member
        rcases List.mem_cons.mp member with rfl | isLater
        · exact ofFirst
        · exact later false token isLater

/-- A value in braces that is taken out leaves characters of the token. -/
theorem withoutBraces_subset (token : Text) : withoutBraces token ⊆ token := by
  rw [withoutBraces]
  split
  · intro character member
    rcases List.mem_append.mp member with inFront | isComma
    · exact (List.takeWhile_prefix _).subset inFront
    · split at isComma
      · next ends =>
        rw [List.mem_singleton.mp isComma]
        exact List.mem_of_getLast? (of_decide_eq_true ends)
      · contradiction
  · exact List.Subset.refl token

/-- A declarator is a token, or one without the comma at its end. -/
theorem exists_of_mem_declaratorsFrom
    {isDeclarator : Bool}
    {tokens : List Text}
    {declarator : Text}
    (member : declarator ∈ declaratorsFrom isDeclarator tokens) :
    ∃ token ∈ tokens, declarator ⊆ token := by
  induction tokens generalizing isDeclarator with
  | nil => contradiction
  | cons first rest hypothesis =>
    have ofLater {isDeclarator : Bool} (isLater : declarator ∈ declaratorsFrom isDeclarator rest) :
        ∃ token ∈ first :: rest, declarator ⊆ token := by
      obtain ⟨token, isToken, inside⟩ := hypothesis isLater
      exact ⟨token, List.mem_cons_of_mem _ isToken, inside⟩
    rw [declaratorsFrom] at member
    split at member
    · rcases List.mem_cons.mp member with rfl | isLater
      · exact ⟨first, List.mem_cons_self, (List.dropLast_sublist first).subset⟩
      · exact ofLater isLater
    · split at member
      · rcases List.mem_cons.mp member with rfl | isLater
        · exact ⟨declarator, List.mem_cons_self, List.Subset.refl _⟩
        · exact ofLater isLater
      · exact ofLater member

/-- No blank stands in a token that is left. -/
theorem noBlank_of_mem_passedTokens
    {line token : Text}
    (member : token ∈ passedTokens line) :
    ∀ character ∈ token, Text.isBlank character = false := by
  rw [passedTokens] at member
  generalize (line.trim.dropEnding? [';']).getD [] = body at member
  have ofTokens : ∀ token ∈ tokens body, ∀ character ∈ token, Text.isBlank character = false := by
    intro token isToken character inside
    have inTokens := List.mem_flatten.mpr ⟨token, isToken, inside⟩
    rw [flatten_tokens] at inTokens
    simpa using (List.mem_filter.mp inTokens).2
  intro character inside
  obtain ⟨whole, isWhole, rfl⟩ := List.mem_map.mp member
  exact forall_mem_withoutValues (by decide) ofTokens false whole isWhole character
    (withoutBraces_subset whole inside)

/-- No blank stands in a declarator. -/
theorem noBlank_of_mem_declarators
    {line declarator : Text}
    (member : declarator ∈ declarators line) :
    ∀ character ∈ declarator, Text.isBlank character = false := by
  have isDeclarator : declarator ∈ (typeAndDeclarators (passedTokens line)).2 :=
    List.mem_of_mem_filter member
  obtain ⟨token, isToken, inside⟩ : ∃ token ∈ passedTokens line, declarator ⊆ token := by
    rw [typeAndDeclarators] at isDeclarator
    split at isDeclarator
    · obtain ⟨token, isToken, inside⟩ := exists_of_mem_declaratorsFrom isDeclarator
      exact ⟨token, (List.dropWhile_sublist _).subset isToken, inside⟩
    · exact ⟨declarator, List.mem_of_getLast? (Option.mem_toList.mp isDeclarator),
        List.Subset.refl _⟩
  exact fun character isCharacter =>
    noBlank_of_mem_passedTokens isToken character (inside isCharacter)

end Declaration

namespace FunctionPointer

/-- What stands between the first parentheses of a line, behind the mark. -/
def enclosed (line : Text) : Text :=
  let line := line.trim
  let line := (line.dropEnding? [';']).getD line
  (Shape.behindParenthesis line).tail.takeWhile (· ≠ ')')

theorem name_member
    {line : Text}
    {declared : DataMember}
    (declares : member line = .ok declared) :
    declared.name = (enclosed line).trim := by
  rw [member] at declares
  rw [enclosed, Shape.behindParenthesis]
  dsimp only at declares ⊢
  split at declares
  · contradiction
  · next mark rest behind =>
    split at declares
    · contradiction
    · obtain rfl := Except.ok.inj declares
      rw [behind]
      rfl

end FunctionPointer

/-! ## Spelled members -/

namespace Body

/-- The spellings in a statement. -/
def spellings (statement : Text) : List Spelling :=
  if Shape.ofText statement = .functionPointer then [.enclosed (FunctionPointer.enclosed statement)]
  else (Declaration.declarators statement).map .declarator

/-- The members of a statement are named by its spellings. -/
theorem map_name_membersOf
    {statement : Text}
    {declared : List DataMember}
    (declares : membersOf (Shape.ofText statement) statement = .ok declared) :
    declared.map DataMember.name = (spellings statement).map Spelling.name := by
  rw [membersOf] at declares
  rw [spellings]
  by_cases isPointer : Shape.ofText statement = .functionPointer
  · rw [if_pos isPointer] at declares ⊢
    cases read : FunctionPointer.member statement with
    | error failure =>
      rw [read] at declares
      contradiction
    | ok member =>
      rw [read] at declares
      obtain rfl := Except.ok.inj declares
      exact congrArg (fun name => [name]) (FunctionPointer.name_member read)
  · rw [if_neg isPointer] at declares ⊢
    rw [Declaration.map_name_members declares, List.map_map]
    rfl

/-- The members that pieces declare, each with its spelling. -/
def spelledIn (depth : Depth) : List Text → List (Spelling × DataMember)
  | [] => []
  | piece :: pieces =>
    let later := spelledIn (depth.after piece) pieces
    match found? depth piece with
    | some (.ok declared) => (spellings piece.trim).zip declared ++ later
    | _ => later

theorem map_name_of_found?
    {depth : Depth}
    {piece : Text}
    {declared : List DataMember}
    (found : found? depth piece = some (.ok declared)) :
    declared.map DataMember.name = (spellings piece.trim).map Spelling.name := by
  rw [found?] at found
  split at found
  · contradiction
  · next shape hasShape =>
    obtain rfl := Shape.eq_ofText_of_ofStatement? (Option.eq_some_of_filter_eq_some hasShape)
    split at found
    · exact map_name_membersOf (Option.some.inj found)
    · contradiction

/-- Every member that pieces declare has a spelling. -/
theorem map_snd_spelledIn
    (depth : Depth)
    (pieces : List Text) :
    (spelledIn depth pieces).map Prod.snd = (ofPieces depth pieces).members := by
  induction pieces generalizing depth with
  | nil => rfl
  | cons piece pieces hypothesis =>
    have later := hypothesis (depth.after piece)
    rw [spelledIn, ofPieces]
    cases found : found? depth piece with
    | none => exact later
    | some result =>
      cases result with
      | error failure => exact later
      | ok declared =>
        have sameLength : (spellings piece.trim).length = declared.length := by
          have lengths := congrArg List.length (map_name_of_found? found)
          simpa using lengths.symm
        dsimp only
        rw [List.map_append, List.map_snd_zip (Nat.le_of_eq sameLength.symm), later]
        rfl

/-- The spelling of a member spells its name. -/
theorem name_of_mem_spelledIn
    {depth : Depth}
    {pieces : List Text}
    {spelling : Spelling}
    {member : DataMember}
    (isSpelled : (spelling, member) ∈ spelledIn depth pieces) :
    member.name = spelling.name := by
  induction pieces generalizing depth with
  | nil => contradiction
  | cons piece pieces hypothesis =>
    rw [spelledIn] at isSpelled
    split at isSpelled
    · next declared found =>
      rcases List.mem_append.mp isSpelled with isHere | isLater
      · have sameNames : List.Forall₂ Eq ((spellings piece.trim).map Spelling.name)
            (declared.map DataMember.name) := by
          rw [map_name_of_found? found]
          exact List.forall₂_refl _
        have named := List.forall₂_map_left_iff.mp (List.forall₂_map_right_iff.mp sameNames)
        exact ((List.forall₂_iff_zip.mp named).2 isHere).symm
      · exact hypothesis isLater
    · exact hypothesis isSpelled

/-- No name that is read from a declarator has a blank. -/
theorem noBlank_of_mem_spelledIn
    {depth : Depth}
    {pieces : List Text}
    {declarator : Text}
    {member : DataMember}
    (isSpelled : (.declarator declarator, member) ∈ spelledIn depth pieces) :
    ∀ character ∈ member.name, Text.isBlank character = false := by
  have noBlank : ∀ character ∈ declarator, Text.isBlank character = false := by
    induction pieces generalizing depth with
    | nil => contradiction
    | cons piece pieces hypothesis =>
      rw [spelledIn] at isSpelled
      split at isSpelled
      · rcases List.mem_append.mp isSpelled with isHere | isLater
        · have isSpelling := (List.of_mem_zip isHere).1
          rw [spellings] at isSpelling
          split at isSpelling
          · simp at isSpelling
          · obtain ⟨text, isDeclarator, same⟩ := List.mem_map.mp isSpelling
            obtain rfl := Spelling.declarator.inj same
            exact Declaration.noBlank_of_mem_declarators isDeclarator
        · exact hypothesis isLater
      · exact hypothesis isSpelled
  intro character inName
  rw [name_of_mem_spelledIn isSpelled] at inName
  exact noBlank character (Declaration.name_memberOf_subset _ _ inName)

/-- The members of a text, each with its spelling. -/
def spelled (text : Text) : List (Spelling × DataMember) :=
  spelledIn {} (text.lines.flatMap Statement.pieces)

theorem map_snd_spelled (text : Text) : (spelled text).map Prod.snd = (ofText text).members := by
  rw [spelled, map_snd_spelledIn, ofText_eq_ofRest]
  rfl

end Body

end ClassOutline
