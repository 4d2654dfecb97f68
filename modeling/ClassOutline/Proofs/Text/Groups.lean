import ClassOutline.Proofs.Text.Runs
/-!
# Groups of pieces

Pieces are put together from left to right, and only the last group is still open to what comes.  So
groups behind which another one begins are complete, and more pieces change none but the last.  What
holds of a group is read off the run of pieces that is joined to it.
-/

namespace ClassOutline.Text

variable {glue : Text} {incomplete : Text → Bool}

/-- Nothing is lost when pieces are put together without glue. -/
theorem flatten_regroup (pieces : List Text) :
    (regroup [] incomplete pieces).flatten = pieces.flatten := by
  rw [regroup_eq_map_runs joinsWith_flatten, ← List.flatten_flatten,
    (greedyRuns_runs List.flatten incomplete pieces).flatten]

/-- Behind a complete group, the next piece begins a group. -/
theorem extend_of_complete
    {group : Text}
    (complete : incomplete group = false)
    (pieces : List Text) :
    regroup.extend glue incomplete group pieces = group :: regroup glue incomplete pieces := by
  cases pieces with
  | nil => rfl
  | cons piece pieces =>
    rw [regroup.extend, complete]
    rfl

/-- Pieces of which none but the last is incomplete are groups. -/
theorem regroup_of_whole
    {pieces : List Text}
    (whole : ∀ piece ∈ pieces.dropLast, incomplete piece = false) :
    regroup glue incomplete pieces = pieces := by
  induction pieces with
  | nil => rfl
  | cons piece pieces hypothesis =>
    cases pieces with
    | nil => rfl
    | cons next pieces =>
      rw [List.dropLast_cons_cons] at whole
      rw [regroup, extend_of_complete (whole piece List.mem_cons_self),
        hypothesis fun other member => whole other (List.mem_cons_of_mem _ member)]

/-- A group keeps what has been put together. -/
theorem exists_extend
    (glue : Text)
    (incomplete : Text → Bool)
    (group : Text)
    (pieces : List Text) :
    ∃ added later, regroup.extend glue incomplete group pieces = (group ++ added) :: later := by
  induction pieces generalizing group with
  | nil => exact ⟨[], [], by rw [List.append_nil]; rfl⟩
  | cons piece pieces hypothesis =>
    rw [regroup.extend]
    split
    · obtain ⟨added, later, shape⟩ := hypothesis (group ++ glue ++ piece)
      exact ⟨glue ++ piece ++ added, later, by rw [shape]; simp⟩
    · exact ⟨[], _, by rw [List.append_nil]⟩

/-- More pieces are read as behind the last group alone. -/
theorem extend_append
    {group last : Text}
    {pieces front : List Text}
    (split : regroup.extend glue incomplete group pieces = front ++ [last])
    (more : List Text) :
    regroup.extend glue incomplete group (pieces ++ more) =
      front ++ regroup.extend glue incomplete last more := by
  induction pieces generalizing group front with
  | nil =>
    have alone : [] ++ [group] = front ++ [last] := split
    obtain ⟨rfl, sameLast⟩ := List.append_inj' alone rfl
    obtain rfl := (List.cons.inj sameLast).1
    rfl
  | cons piece pieces hypothesis =>
    rw [regroup.extend] at split
    rw [List.cons_append, regroup.extend]
    by_cases isIncomplete : incomplete group = true
    · rw [if_pos isIncomplete] at split ⊢
      exact hypothesis split
    · rw [if_neg isIncomplete] at split ⊢
      rcases List.eq_nil_or_concat (regroup.extend glue incomplete piece pieces) with
        empty | ⟨later, newest, shape⟩
      · exact absurd empty (regroup_extend_ne_nil _ _ _ _)
      · rw [List.concat_eq_append] at shape
        rw [shape, ← List.cons_append] at split
        obtain ⟨rfl, sameLast⟩ := List.append_inj' split rfl
        obtain rfl := (List.cons.inj sameLast).1
        rw [hypothesis shape, List.cons_append]

theorem regroup_append
    {last : Text}
    {pieces front : List Text}
    (split : regroup glue incomplete pieces = front ++ [last])
    (more : List Text) :
    regroup glue incomplete (pieces ++ more) =
      front ++ regroup.extend glue incomplete last more := by
  cases pieces with
  | nil => simp [regroup] at split
  | cons piece pieces => exact extend_append split more

theorem regroup_ne_nil
    {pieces : List Text}
    (notEmpty : pieces ≠ []) :
    regroup glue incomplete pieces ≠ [] := by
  cases pieces with
  | nil => contradiction
  | cons piece pieces => exact regroup_extend_ne_nil _ _ _ _

/-- A group behind which another one begins is complete. -/
theorem complete_of_mem_dropLast
    {pieces : List Text}
    {group : Text}
    (member : group ∈ (regroup glue incomplete pieces).dropLast) :
    incomplete group = false := by
  rw [regroup_eq_map_runs (joinsWith_intercalate glue), ← List.map_dropLast] at member
  obtain ⟨run, isRun, rfl⟩ := List.mem_map.mp member
  exact Bool.eq_false_iff.mpr
    ((greedyRuns_runs glue.intercalate incomplete pieces).complete run isRun)

/-- A group is a run of pieces, joined. -/
theorem exists_run_of_mem_regroup
    {pieces : List Text}
    {group : Text}
    (member : group ∈ regroup glue incomplete pieces) :
    ∃ piece later, group = glue.intercalate (piece :: later) ∧
      (∀ other ∈ piece :: later, other ∈ pieces) ∧ (later ≠ [] → incomplete piece = true) := by
  have greedy := greedyRuns_runs glue.intercalate incomplete pieces
  rw [regroup_eq_map_runs (joinsWith_intercalate glue)] at member
  obtain ⟨run, isRun, rfl⟩ := List.mem_map.mp member
  obtain ⟨piece, later, rfl⟩ := List.exists_cons_of_ne_nil (greedy.notEmpty run isRun)
  refine ⟨piece, later, rfl, fun other isPart => ?_, fun notAlone => ?_⟩
  · rw [← greedy.flatten]
    exact List.mem_flatten.mpr ⟨piece :: later, isRun, isPart⟩
  · have isIncomplete := greedy.least (piece :: later) isRun [piece]
      (List.cons_prefix_cons.mpr ⟨rfl, List.nil_prefix⟩) (List.cons_ne_nil piece [])
      (by simpa using notAlone.symm)
    rwa [List.intercalate_singleton] at isIncomplete

/-- A group is a piece, or it begins with an incomplete one. -/
theorem mem_or_of_mem_regroup
    {pieces : List Text}
    {group : Text}
    (member : group ∈ regroup glue incomplete pieces) :
    group ∈ pieces ∨ ∃ piece ∈ pieces, incomplete piece = true ∧ piece <+: group := by
  obtain ⟨piece, later, rfl, areParts, isIncomplete⟩ := exists_run_of_mem_regroup member
  have isPiece := areParts piece List.mem_cons_self
  cases later with
  | nil => exact .inl (by rwa [List.intercalate_singleton])
  | cons next later =>
    refine .inr ⟨piece, isPiece, isIncomplete (List.cons_ne_nil next later), ?_⟩
    rw [List.intercalate_cons_cons, List.append_assoc]
    exact List.prefix_append piece _

/-- What holds of all pieces, and of any two texts put together of which it holds, holds of groups. -/
theorem forall_mem_regroup
    {property : Text → Prop}
    {pieces : List Text}
    (ofPiece : ∀ piece ∈ pieces, property piece)
    (ofBoth : ∀ group piece, property group → property piece → property (group ++ glue ++ piece)) :
    ∀ group ∈ regroup glue incomplete pieces, property group := by
  intro group member
  obtain ⟨piece, later, rfl, areParts, -⟩ := exists_run_of_mem_regroup member
  have ofParts : ∀ other ∈ piece :: later, property other :=
    fun other isPart => ofPiece other (areParts other isPart)
  clear member areParts
  induction later generalizing piece with
  | nil =>
    rw [List.intercalate_singleton]
    exact ofParts piece List.mem_cons_self
  | cons next later hypothesis =>
    obtain ⟨ofFirst, ofLater⟩ := List.forall_mem_cons.mp ofParts
    rw [List.intercalate_cons_cons]
    exact ofBoth piece _ ofFirst (hypothesis next ofLater)

/--
A longer last piece makes the last group longer, and pieces behind it may make it longer again.  The
groups in front of it stay, and are groups of the pieces in front of the last one.
-/
theorem regroup_concat
    {pieces : List Text}
    (notEmpty : pieces ≠ [])
    (last : Text) :
    ∃ front stem, front <+: regroup glue incomplete pieces ∧
      regroup glue incomplete (pieces ++ [last]) = front ++ [stem] ∧
        ∀ (added : Text) (more : List Text), ∃ addedLater later,
          regroup glue incomplete (pieces ++ (last ++ added) :: more) =
            front ++ (stem ++ added ++ addedLater) :: later := by
  rcases List.eq_nil_or_concat (regroup glue incomplete pieces) with empty | ⟨front, group, shape⟩
  · exact absurd empty (regroup_ne_nil notEmpty)
  rw [List.concat_eq_append] at shape
  by_cases isIncomplete : incomplete group = true
  · refine ⟨front, group ++ glue ++ last, by rw [shape]; exact List.prefix_append _ _, ?_, ?_⟩
    · rw [regroup_append shape, regroup.extend, if_pos isIncomplete]
      rfl
    · intro added more
      obtain ⟨addedLater, later, extended⟩ :=
        exists_extend glue incomplete (group ++ glue ++ (last ++ added)) more
      refine ⟨addedLater, later, ?_⟩
      rw [regroup_append shape, regroup.extend, if_pos isIncomplete, extended]
      simp
  · have complete : incomplete group = false := Bool.eq_false_iff.mpr isIncomplete
    refine ⟨front ++ [group], last, shape ▸ List.prefix_rfl, ?_, ?_⟩
    · rw [regroup_append shape, extend_of_complete complete]
      exact List.append_cons front group [last]
    · intro added more
      obtain ⟨addedLater, later, extended⟩ := exists_extend glue incomplete (last ++ added) more
      refine ⟨addedLater, later, ?_⟩
      rw [regroup_append shape, extend_of_complete complete, regroup, extended]
      simp

end ClassOutline.Text
