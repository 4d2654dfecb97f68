import ClassOutline.ClassHead
import ClassOutline.Proofs.Member.Brackets
import ClassOutline.Proofs.Text.Runs
/-!
# Runs of words and of entries

The tokens of a declaration are the greedy runs of its words, and the entries of a list of bases are
the greedy runs of what stands between its commas.
-/

namespace ClassOutline

/-- The pieces of a list of bases: what stands between its commas and is not blank. -/
def ClassHead.basePieces (clause : Text) : List Text :=
  (Text.splitWhere (· = ',') clause).filter fun piece => Text.trim piece ≠ []

/--
The tokens of a text are its words, cut into greedy runs and put together, and no token is empty.
The entries of a list of bases are its pieces, cut into greedy runs and joined by commas; the bases
are read off the entries.
-/
theorem tokens_baseEntries_greedyRuns :
    (∀ text, ∃ runs,
      (∀ cut, Text.GreedyRuns List.flatten (Declaration.isFragment · = true) (Text.words text) cut ↔
        cut = runs) ∧
        Declaration.tokens text = runs.map List.flatten ∧
          ∀ token ∈ Declaration.tokens text, token ≠ []) ∧
      ∀ clause, ∃ runs,
        (∀ cut, Text.GreedyRuns [','].intercalate (¬ Text.Balanced ·) (ClassHead.basePieces clause) cut ↔
          cut = runs) ∧
          ClassHead.baseEntries clause = runs.map [','].intercalate ∧
            ClassHead.basesOf clause =
              (runs.map [','].intercalate).filterMap ClassHead.baseOf? := by
  constructor
  · intro text
    refine ⟨Text.runs List.flatten Declaration.isFragment text.words, Text.greedyRuns_iff _,
      Text.regroup_eq_map_runs Text.joinsWith_flatten _, ?_⟩
    exact fun token => Declaration.ne_nil_of_mem_tokens
  · intro clause
    have entries : ClassHead.baseEntries clause =
        (Text.runs [','].intercalate (fun entry => ¬ Text.Balanced entry)
          (ClassHead.basePieces clause)).map [','].intercalate :=
      Text.regroup_eq_map_runs (Text.joinsWith_intercalate [',']) _
    refine ⟨_, fun cut => ?_, entries, by rw [← entries]; rfl⟩
    have greedy := @Text.greedyRuns_iff [','].intercalate (fun entry => ¬ Text.Balanced entry)
      (ClassHead.basePieces clause) cut
    simpa only [decide_eq_true_eq] using greedy

end ClassOutline
