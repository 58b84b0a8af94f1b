import Propositional.NormalForm.Negation
import Propositional.Proofs.Valuation

/-!
# What negation normal form keeps

Pushing a negation down turns connectives and constants over and may add a negation at a variable,
or take one away. All else stays where it was: the leaves in their order, and what joins them. Each
fact is shown for both polarities at once, since a negation is met by changing the polarity.

Results:
* `truth_nnfOf`: below an odd number of negations the truth function is negated, otherwise it is
  kept; so `toNnf` keeps it (`truth_toNnf`), and every value with it (`eval_toNnf`).
* `negate_nnfOf`, `nnfOf_negate`: De Morgan negation, before or after, changes the polarity.
* `vocabulary_nnfOf`, `leafNames_nnfOf`: the same variables occur, at the same leaves.
* `connectives_toNnf`, `depth_nnfOf_le`: no connective is added, and no branch gets longer.
* `toNnf_eq_self_iff`: exactly the formulas in negation normal form are left alone.
* `toNnf_keeps`: all that the normal form itself keeps.
-/

namespace Propositional

namespace Expr

theorem truth_nnfOf (v : Valuation) (positive : Bool) (e : Expr) :
    (e.nnfOf positive).truth v = if positive then e.truth v else !e.truth v := by
  induction e generalizing positive with
  | const b => cases positive <;> rfl
  | var n => cases positive <;> rfl
  | not e ih =>
    rw [nnfOf, ih, truth]
    cases positive
    · exact (Bool.not_not _).symm
    · rfl
  | bin c l r ihl ihr =>
    rw [nnfOf, truth, ihl, ihr, truth]
    cases positive
    · exact (Connective.apply_dual c _ _).trans (by simp only [Bool.false_eq_true, if_false,
        Bool.not_not])
    · rfl

@[simp] theorem truth_toNnf (v : Valuation) (e : Expr) : e.toNnf.truth v = e.truth v :=
  truth_nnfOf v true e

theorem occurrences_nnfOf (positive : Bool) (e : Expr) :
    (e.nnfOf positive).occurrences = e.occurrences := by
  induction e generalizing positive with
  | const => rfl
  | var n => cases positive <;> rfl
  | not e ih => exact ih _
  | bin c l r ihl ihr => rw [nnfOf, occurrences, ihl, ihr, occurrences]

@[simp] theorem vocabulary_nnfOf (positive : Bool) (e : Expr) :
    (e.nnfOf positive).vocabulary = e.vocabulary := by
  rw [vocabulary, occurrences_nnfOf, vocabulary]

@[simp] theorem vocabulary_toNnf (e : Expr) : e.toNnf.vocabulary = e.vocabulary :=
  vocabulary_nnfOf true e

/-- **Every value is kept**, and where a variable is not assigned there is none before or after. -/
theorem eval_toNnf (i : Interpretation) (e : Expr) : e.toNnf.eval i = e.eval i :=
  eval_eq_of_truth_eq (fun x => by rw [vocabulary_toNnf]) (fun v => truth_toNnf v e) i

/-! ## De Morgan negation -/

theorem negate_nnfOf (positive : Bool) (e : Expr) :
    (e.nnfOf positive).negate = e.nnfOf (!positive) := by
  induction e generalizing positive with
  | const b => cases positive <;> simp [nnfOf, negate]
  | var n => cases positive <;> rfl
  | not e ih => exact ih _
  | bin c l r ihl ihr =>
    rw [nnfOf, negate, ihl, ihr, nnfOf]
    cases positive
    · exact congrArg (bin · _ _) c.dual_dual
    · rfl

theorem nnfOf_negate (positive : Bool) (e : Expr) :
    e.negate.nnfOf positive = e.nnfOf (!positive) := by
  induction e generalizing positive with
  | const b => cases positive <;> simp [nnfOf, negate]
  | var n => cases positive <;> rfl
  | not e => rw [negate, nnfOf, Bool.not_not]
  | bin c l r ihl ihr =>
    rw [negate, nnfOf, ihl, ihr, nnfOf]
    cases positive
    · exact congrArg (bin · _ _) c.dual_dual
    · rfl

/-! ## Leaves and branches -/

/-- The leaves of a formula, left to right, as far as negation does not change them: a variable is
given by its name, and of a constant the value is left out. -/
def leafNames : Expr → List (Option Name)
  | const _ => [none]
  | var x => [some x]
  | not e => e.leafNames
  | bin _ l r => l.leafNames ++ r.leafNames

/-- The number of connectives in a formula. -/
def connectives : Expr → Nat
  | const _ | var _ => 0
  | not e => e.connectives
  | bin _ l r => 1 + l.connectives + r.connectives

theorem length_leafNames (e : Expr) : e.leafNames.length = e.connectives + 1 := by
  induction e with
  | const | var => rfl
  | not e ih => exact ih
  | bin c l r ihl ihr =>
    rw [leafNames, List.length_append, ihl, ihr, connectives]
    omega

theorem leafNames_nnfOf (positive : Bool) (e : Expr) :
    (e.nnfOf positive).leafNames = e.leafNames := by
  induction e generalizing positive with
  | const => rfl
  | var n => cases positive <;> rfl
  | not e ih => exact ih _
  | bin c l r ihl ihr => rw [nnfOf, leafNames, ihl, ihr, leafNames]

/-- Between the same leaves there are as many connectives. -/
theorem connectives_toNnf (e : Expr) : e.toNnf.connectives = e.connectives := by
  have hlength := congrArg List.length (leafNames_nnfOf true e)
  rw [length_leafNames, length_leafNames] at hlength
  exact Nat.succ.inj hlength

/-- The formula below a negation may get one node deeper, for a negation at a variable: the one
that was above it. -/
theorem depth_nnfOf_le (positive : Bool) (e : Expr) :
    (e.nnfOf positive).depth ≤ if positive then e.depth else (not e).depth := by
  induction e generalizing positive with
  | const b =>
    cases positive
    · exact Nat.le_add_left 1 1
    · exact Nat.le_refl 1
  | var n => cases positive <;> exact Nat.le_refl _
  | not e ih =>
    cases positive with
    | true => exact ih false
    | false =>
      have hle : (e.nnfOf true).depth ≤ e.depth := ih true
      simp only [nnfOf, depth, Bool.not_false, Bool.false_eq_true, if_false]
      omega
  | bin c l r ihl ihr =>
    have hl := ihl positive
    have hr := ihr positive
    cases positive with
    | true =>
      simp only [nnfOf, depth, if_true] at hl hr ⊢
      omega
    | false =>
      simp only [nnfOf, depth, Bool.false_eq_true, if_false] at hl hr ⊢
      omega

/-! ## Formulas that are left alone -/

theorem toNnf_of_isNnf {e : Expr} (h : e.isNnf = true) : e.toNnf = e := by
  induction e with
  | const | var => rfl
  | not e =>
    cases e with
    | var => rfl
    | const | not | bin => cases h
  | bin c l r ihl ihr =>
    rw [isNnf, Bool.and_eq_true] at h
    rw [toNnf_bin, ihl h.1, ihr h.2]

theorem toNnf_eq_self_iff {e : Expr} : e.toNnf = e ↔ e.isNnf = true := by
  constructor
  · intro h
    rw [← h]
    exact isNnf_toNnf e
  · exact toNnf_of_isNnf

/-- **What negation normal form keeps.** It has the value of the formula under every interpretation,
and none where the formula has none. The leaves are the same from left to right but for negations
and flipped constants, so the variables and the number of connectives are, and no branch is longer.
A formula is left alone iff it is in negation normal form already. -/
theorem toNnf_keeps (e : Expr) :
    (∀ i : Interpretation, e.toNnf.eval i = e.eval i) ∧
    e.toNnf.isNnf = true ∧
    e.toNnf.leafNames = e.leafNames ∧
    e.toNnf.vocabulary = e.vocabulary ∧
    e.toNnf.connectives = e.connectives ∧
    e.toNnf.depth ≤ e.depth ∧
    (e.toNnf = e ↔ e.isNnf = true) := by
  refine ⟨fun i => eval_toNnf i e, isNnf_toNnf e, leafNames_nnfOf true e, vocabulary_toNnf e,
    connectives_toNnf e, ?_, toNnf_eq_self_iff⟩
  exact depth_nnfOf_le true e

end Expr

end Propositional
