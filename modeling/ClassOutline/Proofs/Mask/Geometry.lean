import ClassOutline.Mask.Friend
/-!
# The geometry of masked texts

A masked text arises from its source by hiding some characters.  The relation between the two
survives a further mask, so it holds of the text in which declarations are looked for.

Next to a character of the masked text that is not a space, the source can be cut where the masked
text is cut.  The parts on either side have the same width and the same number of line feeds in
both.
-/

namespace ClassOutline

theorem hidden_eq_replicate
    {character : Char}
    (noBreak : character ≠ '\n') :
    hidden character = List.replicate character.utf8Size ' ' := by
  rw [hidden, if_neg noBreak]

@[simp]
theorem lineBreaks_hidden (character : Char) :
    Text.lineBreaks (hidden character) = [character].count '\n' := by
  by_cases isBreak : character = '\n'
  · simp [hidden, isBreak, Text.lineBreaks]
  · simp [hidden, isBreak, Text.lineBreaks, List.count_replicate]

namespace Mask

/-- The second text arises from the first by hiding some of its characters. -/
inductive Hides : Text → Text → Prop where
  | nil : Hides [] []
  | keep
      {source masked : Text}
      (character : Char)
      (later : Hides source masked) :
      Hides (character :: source) (character :: masked)
  | hide
      {source masked : Text}
      (character : Char)
      (later : Hides source masked) :
      Hides (character :: source) (hidden character ++ masked)

theorem Hides.append
    {left right maskedLeft maskedRight : Text}
    (hidesLeft : Hides left maskedLeft)
    (hidesRight : Hides right maskedRight) :
    Hides (left ++ right) (maskedLeft ++ maskedRight) := by
  induction hidesLeft with
  | nil => exact hidesRight
  | keep character _ hypothesis => exact .keep character hypothesis
  | hide character _ hypothesis =>
    rw [List.append_assoc]
    exact .hide character hypothesis

/-! ## Masks hide -/

theorem applyFrom_cons
    {State : Type}
    (mask : Mask State)
    (state : State)
    (current : Char)
    (rest : Text) :
    mask.applyFrom state (current :: rest) =
      (if (mask.step state current rest).2 then hidden current else [current]) ++
        mask.applyFrom (mask.step state current rest).1 rest := rfl

theorem hides_applyFrom
    {State : Type}
    (mask : Mask State)
    (state : State)
    (text : Text) :
    Hides text (mask.applyFrom state text) := by
  induction text generalizing state with
  | nil => exact .nil
  | cons current rest hypothesis =>
    rw [applyFrom_cons]
    split
    · exact .hide current (hypothesis _)
    · exact .keep current (hypothesis _)

/-- What becomes of spaces is the same spaces. -/
theorem Hides.exists_eq_replicate_append
    {count : Nat}
    {source masked : Text}
    (hides : Hides (List.replicate count ' ' ++ source) masked) :
    ∃ rest, masked = List.replicate count ' ' ++ rest ∧ Hides source rest := by
  induction count generalizing masked with
  | zero => exact ⟨masked, rfl, hides⟩
  | succ count hypothesis =>
    rw [List.replicate_succ, List.cons_append] at hides
    have kept : ∃ later, masked = ' ' :: later ∧
        Hides (List.replicate count ' ' ++ source) later := by
      cases hides with
      | keep _ later => exact ⟨_, rfl, later⟩
      | hide _ later => exact ⟨_, rfl, later⟩
    obtain ⟨later, rfl, hidesLater⟩ := kept
    obtain ⟨rest, rfl, hidesRest⟩ := hypothesis hidesLater
    exact ⟨rest, rfl, hidesRest⟩

/-- Hiding twice is hiding. -/
theorem Hides.trans
    {source middle masked : Text}
    (first : Hides source middle)
    (second : Hides middle masked) :
    Hides source masked := by
  induction first generalizing masked with
  | nil => exact second
  | keep character _ hypothesis =>
    cases second with
    | keep _ later => exact .keep character (hypothesis later)
    | hide _ later => exact .hide character (hypothesis later)
  | hide character later hypothesis =>
    by_cases isBreak : character = '\n'
    · subst isBreak
      cases second with
      | keep _ later => exact .keep '\n' (hypothesis later)
      | hide _ later => exact .hide '\n' (hypothesis later)
    · rw [hidden_eq_replicate isBreak] at second
      obtain ⟨rest, rfl, hidesRest⟩ := second.exists_eq_replicate_append
      rw [← hidden_eq_replicate isBreak]
      exact .hide character (hypothesis hidesRest)

/-- The text in which declarations are looked for arises from the source by hiding characters. -/
theorem hides_visible (source : Text) : Hides source (visible source) :=
  ((hides_applyFrom blockComments _ source).trans (hides_applyFrom lineComments _ _)).trans
    (hides_applyFrom friendLines _ _)

/-! ## What hiding keeps -/

theorem Hides.width_eq
    {source masked : Text}
    (hides : Hides source masked) :
    source.width = masked.width := by
  induction hides with
  | nil => rfl
  | keep character _ hypothesis => rw [Text.width_cons, Text.width_cons, hypothesis]
  | hide character _ hypothesis =>
    rw [Text.width_cons, Text.width_append, width_hidden, hypothesis]

theorem Hides.lineBreaks_eq
    {source masked : Text}
    (hides : Hides source masked) :
    source.lineBreaks = masked.lineBreaks := by
  induction hides with
  | nil => rfl
  | keep character _ hypothesis =>
    simp only [Text.lineBreaks, List.count_cons] at hypothesis ⊢
    rw [hypothesis]
  | @hide source masked character _ hypothesis =>
    have breaks := lineBreaks_hidden character
    simp only [Text.lineBreaks] at hypothesis breaks ⊢
    rw [List.count_append, breaks, ← hypothesis, ← List.count_append, List.singleton_append]

/-! ## Cutting the source where the masked text is cut -/

theorem Hides.eq_nil
    {source : Text}
    (hides : Hides source []) :
    source = [] :=
  Text.eq_nil_of_width hides.width_eq

/-- In front of and behind a character that is not hidden, the source can be cut. -/
theorem Hides.exists_cut
    {source left right : Text}
    {character : Char}
    (hides : Hides source (left ++ character :: right))
    (noSpace : character ≠ ' ') :
    ∃ front behind,
      source = front ++ character :: behind ∧ Hides front left ∧ Hides behind right := by
  generalize shape : left ++ character :: right = masked at hides
  induction hides generalizing left with
  | nil => simp at shape
  | @keep source masked first later hypothesis =>
    cases left with
    | nil =>
      obtain ⟨rfl, rfl⟩ := List.cons.inj shape
      exact ⟨[], source, rfl, .nil, later⟩
    | cons second left =>
      obtain ⟨rfl, rest⟩ := List.cons.inj shape
      obtain ⟨front, behind, rfl, hidesFront, hidesBehind⟩ := hypothesis rest
      exact ⟨second :: front, behind, rfl, .keep second hidesFront, hidesBehind⟩
  | @hide source masked first later hypothesis =>
    by_cases isBreak : first = '\n'
    · subst isBreak
      cases left with
      | nil =>
        obtain ⟨rfl, rfl⟩ := List.cons.inj shape
        exact ⟨[], source, rfl, .nil, later⟩
      | cons second left =>
        obtain ⟨rfl, rest⟩ := List.cons.inj shape
        obtain ⟨front, behind, rfl, hidesFront, hidesBehind⟩ := hypothesis rest
        exact ⟨'\n' :: front, behind, rfl, .keep '\n' hidesFront, hidesBehind⟩
    · -- The character is no space, so it lies behind the spaces of the hidden one.
      rw [hidden_eq_replicate isBreak] at shape
      rcases List.append_eq_append_iff.mp shape with
        ⟨spaces, split, rest⟩ | ⟨rest, split, shape⟩
      · cases spaces with
        | nil =>
          obtain ⟨front, behind, equal, hidesFront, hidesBehind⟩ :=
            @hypothesis [] rest
          obtain rfl : front = [] := hidesFront.eq_nil
          refine ⟨[first], behind, by rw [equal]; rfl, ?_, hidesBehind⟩
          have onlyHidden := Hides.hide first .nil
          rwa [hidden_eq_replicate isBreak, split, List.append_nil, List.append_nil]
            at onlyHidden
        | cons space spaces =>
          obtain ⟨rfl, -⟩ := List.cons.inj rest
          have inSpaces : character ∈ List.replicate first.utf8Size ' ' := by
            rw [split]
            simp
          exact absurd (List.eq_of_mem_replicate inSpaces) noSpace
      · obtain ⟨front, behind, rfl, hidesFront, hidesBehind⟩ := hypothesis shape.symm
        refine ⟨first :: front, behind, rfl, ?_, hidesBehind⟩
        rw [split, ← hidden_eq_replicate isBreak]
        exact .hide first hidesFront

theorem Hides.exists_cut_before
    {source left right : Text}
    {character : Char}
    (hides : Hides source (left ++ character :: right))
    (noSpace : character ≠ ' ') :
    ∃ front behind,
      source = front ++ behind ∧ Hides front left ∧ Hides behind (character :: right) := by
  obtain ⟨front, behind, equal, hidesFront, hidesBehind⟩ := hides.exists_cut noSpace
  exact ⟨front, character :: behind, equal, hidesFront, .keep character hidesBehind⟩

theorem Hides.exists_cut_behind
    {source left right : Text}
    {character : Char}
    (hides : Hides source (left ++ right))
    (ends : character ∈ left.getLast?)
    (noSpace : character ≠ ' ') :
    ∃ front behind,
      source = front ++ behind ∧ Hides front left ∧ Hides behind right := by
  obtain ⟨start, rfl⟩ := List.getLast?_eq_some_iff.mp ends
  rw [List.append_assoc, List.singleton_append] at hides
  obtain ⟨front, behind, equal, hidesFront, hidesBehind⟩ := hides.exists_cut noSpace
  refine ⟨front ++ [character], behind, by simpa using equal, ?_, hidesBehind⟩
  exact hidesFront.append (.keep character .nil)

/-- A last character that is not hidden is the last one of the source, too. -/
theorem Hides.exists_concat
    {source left : Text}
    {character : Char}
    (hides : Hides source (left ++ [character]))
    (noSpace : character ≠ ' ') :
    ∃ front, source = front ++ [character] ∧ Hides front left := by
  obtain ⟨front, behind, rfl, hidesFront, hidesBehind⟩ := hides.exists_cut noSpace
  obtain rfl : behind = [] := hidesBehind.eq_nil
  exact ⟨front, rfl, hidesFront⟩

/-- A word without spaces stands in the source where it stands in the masked text. -/
theorem Hides.exists_eq_append
    {source word rest : Text}
    (hides : Hides source (word ++ rest))
    (noSpace : ∀ character ∈ word, character ≠ ' ') :
    ∃ behind, source = word ++ behind ∧ Hides behind rest := by
  induction word generalizing source with
  | nil => exact ⟨source, rfl, hides⟩
  | cons first word hypothesis =>
    have hides : Hides source ([] ++ first :: (word ++ rest)) := hides
    obtain ⟨front, behind, rfl, hidesFront, hidesBehind⟩ :=
      hides.exists_cut (noSpace first List.mem_cons_self)
    obtain rfl : front = [] := hidesFront.eq_nil
    obtain ⟨later, rfl, hidesLater⟩ := hypothesis hidesBehind fun character member =>
      noSpace character (List.mem_cons_of_mem _ member)
    exact ⟨later, rfl, hidesLater⟩

end Mask

end ClassOutline
