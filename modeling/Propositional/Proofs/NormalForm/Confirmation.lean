import Propositional.Proofs.NormalForm.Disjunctive
import Propositional.Proofs.Simplify.Kept

/-!
# The check confirms the transformations

Every transformation keeps the truth function. That its result passes the check against the formula
it came from takes more: simplification must leave them a common variable. For simplification,
negation normal form and De Morgan negation exactly the same variables are left; for disjunctive
normal form no others.

Results:
* `Distributes.kept_subset`: distribution leaves nothing that was not left before.
* `transformations_confirmed`: all four pass.
-/

namespace Propositional

namespace Expr

/-- What is left after distribution was there before. -/
theorem Distributes.kept_subset {e s : Expr} (h : Distributes e.toNnf.simplify s) :
    ∀ x ∈ s.kept, x ∈ e.kept := by
  intro x hx
  have hmem := h.mem_vocabulary.mp (mem_vocabulary_of_simplify hx)
  rwa [← kept, toNnf, kept_nnfOf] at hmem

/-- **The check confirms every transformation**, however many variables there are: a formula passes
against its simplified form, its negation normal form and its disjunctive normal form, and its De
Morgan negation against its negation. -/
theorem transformations_confirmed (e : Expr) :
    equivalent e.simplify e = true ∧ equivalent e.toNnf e = true ∧
      (∃ d, e.toDnf = .ok d ∧ equivalent d e = true) ∧ equivalent e.negate (not e) = true := by
  refine ⟨?_, ?_, ?_, ?_⟩
  · exact equivalent_of_kept_subset (fun v => truth_simplify v e) fun x hx => by
      rwa [kept_simplify] at hx
  · exact equivalent_of_kept_subset (fun v => truth_toNnf v e) fun x hx => by
      rwa [toNnf, kept_nnfOf] at hx
  · obtain ⟨d, hd⟩ := exists_distribute_of_isNnf (isNnf_simplify (isNnf_toNnf e))
    have hrel := distributes_of_distribute hd
    refine ⟨d, hd, equivalent_of_kept_subset (fun v => ?_) hrel.kept_subset⟩
    rw [hrel.truth_eq, truth_simplify, truth_toNnf]
  · exact equivalent_of_kept_subset (fun v => truth_negate v e) fun x hx => by
      rwa [kept_not, ← kept_negate]

end Expr

end Propositional
