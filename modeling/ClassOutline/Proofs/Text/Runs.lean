import ClassOutline.Text.Bracket
/-!
# Greedy runs

Pieces are put together in runs: pieces that follow each other, joined to one text.  A run goes on
exactly as long as what it joins is incomplete, so it cannot have ended earlier, and only the last
run may be left incomplete.  There is exactly one way to cut pieces into such runs, and groups are
these runs, joined.
-/

namespace ClassOutline.Text

/--
Pieces are cut into runs, none of which is longer than needed, and none but the last of which is
left incomplete.
-/
structure GreedyRuns (join : List Text → Text) (Incomplete : Text → Prop) (pieces : List Text)
    (runs : List (List Text)) : Prop where
  flatten : runs.flatten = pieces
  notEmpty : ∀ run ∈ runs, run ≠ []
  complete : ∀ run ∈ runs.dropLast, ¬ Incomplete (join run)
  /-- In front of its end, a run is incomplete. -/
  least : ∀ run ∈ runs, ∀ front, front <+: run → front ≠ [] → front ≠ run →
    Incomplete (join front)

namespace GreedyRuns

variable {join : List Text → Text} {Incomplete : Text → Prop} {pieces run : List Text}
  {runs : List (List Text)}

/-! ## There is one way -/

theorem of_cons (greedy : GreedyRuns join Incomplete pieces (run :: runs)) :
    GreedyRuns join Incomplete runs.flatten runs where
  flatten := rfl
  notEmpty other member := greedy.notEmpty other (List.mem_cons_of_mem run member)
  complete other member := by
    refine greedy.complete other ?_
    rw [List.dropLast_cons_of_ne_nil (List.ne_nil_of_mem (List.dropLast_subset runs member))]
    exact List.mem_cons_of_mem run member
  least other member := greedy.least other (List.mem_cons_of_mem run member)

/-- The first run is no shorter than that of another way to cut the same pieces. -/
theorem eq_of_isPrefix
    {other : List Text}
    {others : List (List Text)}
    (greedy : GreedyRuns join Incomplete pieces (run :: runs))
    (greedyOther : GreedyRuns join Incomplete pieces (other :: others))
    (isPrefix : run <+: other) :
    run = other := by
  by_cases same : run = other
  · exact same
  have incomplete : Incomplete (join run) :=
    greedyOther.least other List.mem_cons_self run isPrefix
      (greedy.notEmpty run List.mem_cons_self) same
  cases runs with
  | nil =>
    -- A run that is left incomplete holds all the pieces.
    have isWhole : run = pieces := by simpa using greedy.flatten
    have isPart : other <+: pieces := by
      rw [← greedyOther.flatten, List.flatten_cons]
      exact List.prefix_append other others.flatten
    rw [← isWhole] at isPart
    exact isPrefix.eq_of_length (Nat.le_antisymm isPrefix.length_le isPart.length_le)
  | cons next runs => exact absurd incomplete (greedy.complete run (by simp))

/-- No pieces are cut into no runs. -/
theorem eq_nil (greedy : GreedyRuns join Incomplete [] runs) : runs = [] := by
  cases runs with
  | nil => rfl
  | cons run runs =>
    have noPiece : run = [] := (List.append_eq_nil_iff.mp greedy.flatten).1
    exact absurd noPiece (greedy.notEmpty run List.mem_cons_self)

theorem unique
    {others : List (List Text)}
    (greedy : GreedyRuns join Incomplete pieces runs)
    (greedyOther : GreedyRuns join Incomplete pieces others) :
    runs = others := by
  induction runs generalizing pieces others with
  | nil =>
    obtain rfl : pieces = [] := greedy.flatten.symm
    exact greedyOther.eq_nil.symm
  | cons run runs hypothesis =>
    cases others with
    | nil =>
      obtain rfl : pieces = [] := greedyOther.flatten.symm
      exact greedy.eq_nil
    | cons other others =>
      have same : run ++ runs.flatten = other ++ others.flatten :=
        greedy.flatten.trans greedyOther.flatten.symm
      have sameFirst : run = other := by
        rcases List.append_eq_append_iff.mp same with ⟨more, shape, -⟩ | ⟨more, shape, -⟩
        · exact greedy.eq_of_isPrefix greedyOther ⟨more, shape.symm⟩
        · exact (greedyOther.eq_of_isPrefix greedy ⟨more, shape.symm⟩).symm
      subst sameFirst
      have sameRest : runs.flatten = others.flatten := List.append_cancel_left same
      rw [hypothesis greedy.of_cons (sameRest ▸ greedyOther.of_cons)]

/-! ## The runs that are found -/

/-- A run that ends as soon as it is complete may stand in front of runs. -/
theorem cons
    (notEmpty : run ≠ [])
    (complete : ¬ Incomplete (join run))
    (least : ∀ front, front <+: run → front ≠ [] → front ≠ run → Incomplete (join front))
    (greedy : GreedyRuns join Incomplete pieces runs) :
    GreedyRuns join Incomplete (run ++ pieces) (run :: runs) where
  flatten := by rw [List.flatten_cons, greedy.flatten]
  notEmpty := List.forall_mem_cons.mpr ⟨notEmpty, greedy.notEmpty⟩
  complete := by
    cases runs with
    | nil => exact List.forall_mem_nil _
    | cons next runs =>
      rw [List.dropLast_cons_cons]
      exact List.forall_mem_cons.mpr ⟨complete, greedy.complete⟩
  least := List.forall_mem_cons.mpr ⟨least, greedy.least⟩

end GreedyRuns

variable (join : List Text → Text) (incomplete : Text → Bool)

/-- The runs of the pieces behind a run that has been begun. -/
def runsFrom (run : List Text) : List Text → List (List Text)
  | [] => [run]
  | piece :: pieces =>
    if incomplete (join run) then runsFrom (run ++ [piece]) pieces
    else run :: runsFrom [piece] pieces

/-- The runs of pieces. -/
def runs : List Text → List (List Text)
  | [] => []
  | piece :: pieces => runsFrom join incomplete [piece] pieces

/-- A single piece has no beginning but itself. -/
theorem begun_singleton (piece : Text) :
    ∀ front, front <+: [piece] → front ≠ [] → front ≠ [piece] → incomplete (join front) = true := by
  intro front isPrefix notEmpty different
  obtain ⟨first, rest, rfl⟩ := List.exists_cons_of_ne_nil notEmpty
  obtain ⟨rfl, isNil⟩ := List.cons_prefix_cons.mp isPrefix
  rw [List.prefix_nil.mp isNil] at different
  contradiction

/-- A run that has been begun has been incomplete so far. -/
theorem greedyRuns_runsFrom
    {run : List Text}
    (notEmpty : run ≠ [])
    (begun : ∀ front, front <+: run → front ≠ [] → front ≠ run → incomplete (join front) = true)
    (pieces : List Text) :
    GreedyRuns join (incomplete · = true) (run ++ pieces)
      (runsFrom join incomplete run pieces) := by
  induction pieces generalizing run with
  | nil =>
    exact
      { flatten := by simp [runsFrom]
        notEmpty := List.forall_mem_singleton.mpr notEmpty
        complete := List.forall_mem_nil _
        least := List.forall_mem_singleton.mpr begun }
  | cons piece pieces hypothesis =>
    rw [runsFrom]
    split
    · next isIncomplete =>
      rw [List.append_cons]
      refine hypothesis (by simp) fun front isPrefix frontNotEmpty different => ?_
      have isEarlier : front <+: run := (List.prefix_concat_iff.mp isPrefix).resolve_left different
      by_cases isRun : front = run
      · rw [isRun]
        exact isIncomplete
      · exact begun front isEarlier frontNotEmpty isRun
    · next isComplete =>
      exact .cons notEmpty isComplete begun
        (hypothesis (List.cons_ne_nil piece []) (begun_singleton join incomplete piece))

theorem greedyRuns_runs (pieces : List Text) :
    GreedyRuns join (incomplete · = true) pieces (runs join incomplete pieces) := by
  cases pieces with
  | nil =>
    exact
      { flatten := rfl
        notEmpty := List.forall_mem_nil _
        complete := List.forall_mem_nil _
        least := List.forall_mem_nil _ }
  | cons piece pieces =>
    exact greedyRuns_runsFrom join incomplete (List.cons_ne_nil piece [])
      (begun_singleton join incomplete piece) pieces

variable {join incomplete}

theorem greedyRuns_iff
    (pieces : List Text)
    (cut : List (List Text)) :
    GreedyRuns join (incomplete · = true) pieces cut ↔ cut = runs join incomplete pieces := by
  have isGreedy := greedyRuns_runs join incomplete pieces
  exact ⟨fun other => other.unique isGreedy, fun same => same ▸ isGreedy⟩

/-! ## Groups are joined runs -/

/-- Texts are joined with `glue` between them. -/
structure JoinsWith (glue : Text) (join : List Text → Text) : Prop where
  singleton : ∀ text, join [text] = text
  concat : ∀ texts text, texts ≠ [] → join (texts ++ [text]) = join texts ++ glue ++ text

theorem joinsWith_flatten : JoinsWith [] List.flatten where
  singleton text := List.flatten_singleton
  concat texts text _ := by simp

theorem joinsWith_intercalate (glue : Text) : JoinsWith glue glue.intercalate where
  singleton text := List.intercalate_singleton
  concat texts text notEmpty := by
    induction texts with
    | nil => contradiction
    | cons first texts hypothesis =>
      cases texts with
      | nil => simp [List.intercalate_cons_cons]
      | cons second texts =>
        have later := hypothesis (List.cons_ne_nil second texts)
        rw [List.cons_append, List.cons_append, List.intercalate_cons_cons,
          List.intercalate_cons_cons, ← List.cons_append, later]
        simp only [List.append_assoc]

theorem extend_eq_map_runsFrom
    {glue : Text}
    {run : List Text}
    (joins : JoinsWith glue join)
    (notEmpty : run ≠ [])
    (pieces : List Text) :
    regroup.extend glue incomplete (join run) pieces =
      (runsFrom join incomplete run pieces).map join := by
  induction pieces generalizing run with
  | nil => rfl
  | cons piece pieces hypothesis =>
    rw [regroup.extend, runsFrom]
    split
    · rw [← joins.concat run piece notEmpty]
      exact hypothesis (by simp)
    · have later := hypothesis (List.cons_ne_nil piece [])
      rw [joins.singleton] at later
      rw [later, List.map_cons]

/-- The groups that are put together are the runs, joined. -/
theorem regroup_eq_map_runs
    {glue : Text}
    (joins : JoinsWith glue join)
    (pieces : List Text) :
    regroup glue incomplete pieces = (runs join incomplete pieces).map join := by
  cases pieces with
  | nil => rfl
  | cons piece pieces =>
    have found := @extend_eq_map_runsFrom _ incomplete _ _ joins (List.cons_ne_nil piece []) pieces
    rwa [joins.singleton] at found

end ClassOutline.Text
