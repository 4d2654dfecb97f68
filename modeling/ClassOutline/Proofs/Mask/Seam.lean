import ClassOutline.Proofs.Mask.Geometry
import ClassOutline.Proofs.Text.Lacks
/-!
# Masking texts put together

A mask that looks no further ahead than to the end of the line masks a text behind the end of a
line in the state that it has reached there.  All masks of this library are of that kind.
-/

namespace ClassOutline.Mask

variable {State : Type}

/-- The state in which a text leaves a mask that was in a given state before it. -/
def stateAfter (mask : Mask State) : State → Text → State
  | state, [] => state
  | state, current :: rest => mask.stateAfter (mask.step state current rest).1 rest

/-- The mask looks ahead to the end of the line at most. -/
structure EndsAtLine (mask : Mask State) : Prop where
  /-- At a line feed nothing of what follows matters. -/
  atBreak (state : State) (behind : Text) :
    mask.step state '\n' behind = mask.step state '\n' []
  /-- In front of a line feed nothing behind it matters. -/
  beforeBreak (state : State) (current : Char) (front behind : Text) :
    mask.step state current (front ++ '\n' :: behind) =
      mask.step state current (front ++ ['\n'])

/-- Behind the end of a line, a mask goes on in the state that it has reached. -/
theorem applyFrom_append
    {mask : Mask State}
    (endsAtLine : mask.EndsAtLine)
    (state : State)
    (front behind : Text) :
    mask.applyFrom state (front ++ '\n' :: behind) =
      mask.applyFrom state (front ++ ['\n']) ++
        mask.applyFrom (mask.stateAfter state (front ++ ['\n'])) behind := by
  induction front generalizing state with
  | nil => simp [applyFrom_cons, applyFrom, stateAfter, endsAtLine.atBreak state behind]
  | cons current front hypothesis =>
    simp only [List.cons_append, applyFrom_cons, stateAfter,
      endsAtLine.beforeBreak state current front behind, hypothesis, List.append_assoc]

/-- A masked text ends where its line ends. -/
theorem exists_applyFrom_eq
    (mask : Mask State)
    (state : State)
    (front : Text) :
    ∃ masked, mask.applyFrom state (front ++ ['\n']) = masked ++ ['\n'] := by
  induction front generalizing state with
  | nil =>
    refine ⟨[], ?_⟩
    simp [applyFrom_cons, applyFrom, hidden]
  | cons current front hypothesis =>
    rw [List.cons_append, applyFrom_cons]
    obtain ⟨masked, shape⟩ := hypothesis (mask.step state current (front ++ ['\n'])).1
    exact ⟨_ ++ masked, by rw [shape, List.append_assoc]⟩

/-! ## The masks of this library -/

theorem endsAtLine_blockComments : blockComments.EndsAtLine where
  atBreak state behind := by
    cases state <;> simp [blockComments]
  beforeBreak state current front behind := by
    cases state <;> simp only [blockComments, Text.head?_append_cons front behind]

theorem endsAtLine_lineComments : lineComments.EndsAtLine where
  atBreak state behind := by
    cases state <;> simp [lineComments]
  beforeBreak state current front behind := by
    cases state <;> simp only [lineComments, Text.head?_append_cons front behind]

/-- A friend declaration begins in one line. -/
theorem friendClass_isPrefixOf
    (front behind : Text) :
    friendClass.isPrefixOf (front ++ '\n' :: behind) = friendClass.isPrefixOf front :=
  Text.isPrefixOf_append_cons front behind (by decide)

theorem endsAtLine_friendLines : friendLines.EndsAtLine where
  atBreak state behind := by
    have noBeginning (later : Text) : friendClass.isPrefixOf ('\n' :: later) = false :=
      friendClass_isPrefixOf [] later
    cases state <;> simp only [friendLines, noBeginning, if_true]
  beforeBreak state current front behind := by
    have sameBeginning :
        friendClass.isPrefixOf (current :: (front ++ '\n' :: behind)) =
          friendClass.isPrefixOf (current :: (front ++ ['\n'])) := by
      rw [← List.cons_append, ← List.cons_append, friendClass_isPrefixOf, friendClass_isPrefixOf]
    cases state <;> simp only [friendLines, sameBeginning]

/-- No friend declaration goes on behind the end of a line. -/
theorem stateAfter_friendLines
    (state : FriendLine)
    (front : Text) :
    friendLines.stateAfter state (front ++ ['\n']) = .code := by
  induction front generalizing state with
  | nil =>
    have noBeginning : friendClass.isPrefixOf ['\n'] = false := friendClass_isPrefixOf [] []
    cases state <;>
      simp only [List.nil_append, stateAfter, friendLines, noBeginning, Bool.false_eq_true,
        if_false, if_true]
  | cons current front hypothesis => exact hypothesis _

/-! ## The visible text -/

/-- Both passes over comments are outside comments and strings at the end of the text. -/
def CommentsClosed (source : Text) : Prop :=
  blockComments.stateAfter blockComments.start source = .code ∧
    lineComments.stateAfter lineComments.start (blockComments.apply source) = .code

instance (source : Text) : Decidable (CommentsClosed source) :=
  inferInstanceAs (Decidable (_ ∧ _))

/-- Behind lines in which all comments and strings are closed, a text is masked for itself. -/
theorem visible_append
    {front : Text}
    (closed : CommentsClosed (front ++ ['\n']))
    (behind : Text) :
    visible (front ++ '\n' :: behind) = visible (front ++ ['\n']) ++ visible behind := by
  obtain ⟨blockClosed, lineClosed⟩ := closed
  obtain ⟨masked, maskedShape⟩ := exists_applyFrom_eq blockComments blockComments.start front
  obtain ⟨bare, bareShape⟩ := exists_applyFrom_eq lineComments lineComments.start masked
  rw [apply, maskedShape] at lineClosed
  simp only [visible, hideFriends, hideComments, apply]
  rw [applyFrom_append endsAtLine_blockComments, blockClosed, maskedShape, List.append_assoc,
    List.singleton_append, applyFrom_append endsAtLine_lineComments, lineClosed, bareShape,
    List.append_assoc, List.singleton_append, applyFrom_append endsAtLine_friendLines,
    stateAfter_friendLines]
  rfl

/-- The visible text ends where the last line of the source ends. -/
theorem exists_visible_eq (front : Text) :
    ∃ shown, visible (front ++ ['\n']) = shown ++ ['\n'] := by
  obtain ⟨masked, maskedShape⟩ := exists_applyFrom_eq blockComments blockComments.start front
  obtain ⟨bare, bareShape⟩ := exists_applyFrom_eq lineComments lineComments.start masked
  obtain ⟨shown, shownShape⟩ := exists_applyFrom_eq friendLines friendLines.start bare
  refine ⟨shown, ?_⟩
  rw [visible, hideFriends, hideComments, apply, apply, apply, maskedShape, bareShape, shownShape]

/-! ## Texts in which nothing is hidden -/

theorem applyFrom_eq_self
    {mask : Mask State}
    {state : State}
    {text : Text}
    (reached : State → Prop)
    (start : reached state)
    (shows : ∀ state current rest, reached state → current :: rest <:+ text →
      reached (mask.step state current rest).1 ∧ (mask.step state current rest).2 = false) :
    mask.applyFrom state text = text := by
  induction text generalizing state with
  | nil => rfl
  | cons current rest hypothesis =>
    obtain ⟨next, stays⟩ := shows state current rest start List.suffix_rfl
    have later := hypothesis next fun state other behind isReached isSuffix =>
      shows state other behind isReached (isSuffix.trans (List.suffix_cons current rest))
    rw [applyFrom_cons, stays, later]
    rfl

/-- In a text without slashes no block comment begins. -/
theorem applyFrom_blockComments_eq_self
    {state : BlockComment}
    {text : Text}
    (noComment : state = .code ∨ state = .string)
    (noSlash : '/' ∉ text) :
    blockComments.applyFrom state text = text := by
  refine applyFrom_eq_self (fun state => state = .code ∨ state = .string)
    noComment fun state current rest isReached isSuffix => ?_
  have notSlash : current ≠ '/' := fun equal =>
    noSlash (isSuffix.subset (equal ▸ List.mem_cons_self))
  have noSlashNext : rest.head? ≠ some '/' := fun equal =>
    noSlash (isSuffix.subset (List.mem_cons_of_mem _ (List.mem_of_mem_head? equal)))
  rcases isReached with rfl | rfl <;>
    by_cases isQuote : current = '"' <;> simp [blockComments, notSlash, noSlashNext, isQuote]

/-- In a text without slashes no line comment begins. -/
theorem applyFrom_lineComments_eq_self
    {state : LineComment}
    {text : Text}
    (noComment : state = .code ∨ state = .string)
    (noSlash : '/' ∉ text) :
    lineComments.applyFrom state text = text := by
  refine applyFrom_eq_self (fun state => state = .code ∨ state = .string)
    noComment fun state current rest isReached isSuffix => ?_
  have notSlash : current ≠ '/' := fun equal =>
    noSlash (isSuffix.subset (equal ▸ List.mem_cons_self))
  rcases isReached with rfl | rfl <;>
    by_cases isQuote : current = '"' <;> simp [lineComments, notSlash, isQuote]

theorem hideComments_eq_self
    {text : Text}
    (noSlash : '/' ∉ text) :
    hideComments text = text := by
  have blockPass : blockComments.apply text = text :=
    applyFrom_blockComments_eq_self (.inl rfl) noSlash
  rw [hideComments, blockPass]
  exact applyFrom_lineComments_eq_self (.inl rfl) noSlash

theorem hideFriends_eq_self
    {text : Text}
    (lacks : text.Lacks friendClass) :
    hideFriends text = text := by
  refine applyFrom_eq_self (fun state => state = .code) rfl
    fun state current rest isReached isSuffix => ?_
  have noBeginning : friendClass.isPrefixOf (current :: rest) = false :=
    (lacks.of_isInfix isSuffix.isInfix).isPrefixOf_eq_false
  subst isReached
  simp only [friendLines, noBeginning, Bool.false_eq_true, if_false, and_self]

/-- Where one text ends and another one begins, no friend class is declared either. -/
theorem lacks_friendClass_append
    {left right : Text}
    (lacksFriend : left.Lacks "friend".toList)
    (lacksClass : right.Lacks "class".toList) :
    Text.Lacks (left ++ right) friendClass := by
  rintro ⟨before, after, occurs⟩
  have shape : friendClass = "friend".toList ++ ' ' :: "class".toList := by decide
  have split : before ++ "friend".toList ++ (' ' :: "class".toList ++ after) = left ++ right := by
    rw [← occurs, shape]
    simp
  rcases List.append_eq_append_iff.mp split with ⟨between, isLeft, -⟩ | ⟨between, -, isRight⟩
  · exact lacksFriend ⟨before, between, isLeft.symm⟩
  · refine lacksClass ⟨between ++ [' '], after, ?_⟩
    rw [isRight]
    simp

/-- A text in which neither a slash nor the word `friend` stands is visible as it is. -/
theorem visible_eq_self
    {text : Text}
    (noSlash : '/' ∉ text)
    (lacks : text.Lacks "friend".toList) :
    visible text = text := by
  have isInfix : "friend".toList <:+: friendClass := by decide
  have lacksClass : text.Lacks friendClass := fun occurs => lacks (isInfix.trans occurs)
  rw [visible, hideComments_eq_self noSlash, hideFriends_eq_self lacksClass]

end ClassOutline.Mask
