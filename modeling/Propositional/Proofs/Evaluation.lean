import Propositional.Proofs.Subformula
import Propositional.Proofs.Valuation

/-!
# Evaluation is strict and local

A formula has a value only where each of its variables is assigned, even if one operand alone would
decide it, and nothing but its variables matters. So whoever compares two values that may be missing
compares which variables are assigned as well.

Results:
* `mem_vocabulary_iff_subformula`: the vocabulary holds the variables that occur anywhere in the
  formula.
* `eval_eq_none_iff`: the value is missing iff a variable is unassigned.
* `eval_congr`: interpretations that agree on the variables give the same outcome.
* `evaluation_strict_and_local`: all of it.
-/

namespace Propositional

namespace Expr

/-- The vocabulary of a formula holds the texts of the variables that occur in it. -/
theorem mem_vocabulary_iff_subformula {x : String} {e : Expr} :
    x ∈ e.vocabulary ↔ ∃ n : Name, n.text = x ∧ Subformula (var n) e := by
  induction e with
  | const b => simp [subformula_const]
  | var n =>
    rw [mem_vocabulary_var]
    constructor
    · rintro rfl
      exact ⟨n, rfl, .refl⟩
    · rintro ⟨m, rfl, h⟩
      cases subformula_var.mp h
      rfl
  | not e ih => simp only [vocabulary_not, ih, subformula_not, reduceCtorEq, false_or]
  | bin c l r ihl ihr =>
    simp only [mem_vocabulary_bin, ihl, ihr, subformula_bin, reduceCtorEq, false_or, and_or_left,
      exists_or]

theorem assigns_iff {i : Interpretation} {e : Expr} :
    i.Assigns e ↔ ∀ x ∈ e.vocabulary, i x ≠ none := by
  simp only [Interpretation.Assigns, Option.isSome_iff_ne_none]

/-- **A value is missing iff a variable is unassigned.** -/
theorem eval_eq_none_iff {i : Interpretation} {e : Expr} :
    e.eval i = none ↔ ∃ x ∈ e.vocabulary, i x = none := by
  constructor
  · intro h
    refine Classical.byContradiction fun hall => ?_
    have ha : i.Assigns e := assigns_iff.mpr fun x hx hi => hall ⟨x, hx, hi⟩
    rw [eval_of_assigns ha] at h
    cases h
  · rintro ⟨x, hx, hi⟩
    cases he : e.eval i with
    | none => rfl
    | some b => exact absurd hi (assigns_iff.mp (assigns_of_eval he) x hx)

/-- **Nothing but the variables matters**, whether or not they are assigned. -/
theorem eval_congr {i j : Interpretation} {e : Expr} (h : ∀ x ∈ e.vocabulary, i x = j x) :
    e.eval i = e.eval j := by
  induction e with
  | const => rfl
  | var n => exact h n.text (mem_vocabulary_var.mpr rfl)
  | not e ih => simp only [eval, ih h]
  | bin c l r ihl ihr =>
    simp only [mem_vocabulary_bin] at h
    simp only [eval, ihl fun x hx => h x (Or.inl hx), ihr fun x hx => h x (Or.inr hx)]

/-- **Evaluation is strict and local**: a formula has no value iff one of the variables that occur
in it is unassigned; otherwise it has the value of its truth function; and its outcome depends on
its variables alone. -/
theorem evaluation_strict_and_local (e : Expr) (i : Interpretation) :
    (e.eval i = none ↔ ∃ x ∈ e.vocabulary, i x = none) ∧
    (∀ v : Valuation, (∀ x ∈ e.vocabulary, i x = some (v x)) → e.eval i = some (e.truth v)) ∧
    (∀ j : Interpretation, (∀ x ∈ e.vocabulary, i x = j x) → e.eval i = e.eval j) ∧
    ∀ x, x ∈ e.vocabulary ↔ ∃ n : Name, n.text = x ∧ Subformula (var n) e := by
  refine ⟨eval_eq_none_iff, fun v hv => ?_, fun j => eval_congr,
    fun x => mem_vocabulary_iff_subformula⟩
  have hassigns : v.interpretation.Assigns e := assigns_interpretation v e
  rw [eval_congr (j := v.interpretation) hv, eval_of_assigns hassigns]
  rfl

/-- The constant decides this disjunction, yet it has no value before its variable has one. -/
theorem decided_disjunction_waits :
    ∃ e : Expr, e = or (const true) (var ⟨"p", by decide⟩) ∧
      e.eval (fun _ => none) = none ∧
      e.eval (fun x => if x = "p" then some false else none) = some true ∧
      e.eval (fun x => if x = "p" then some false else none) = e.eval (fun _ => some false) := by
  refine ⟨_, rfl, ?_, ?_, ?_⟩
  · exact (evaluation_strict_and_local _ _).1.mpr ⟨"p", by decide, rfl⟩
  · exact (evaluation_strict_and_local _ _).2.1 (fun _ => false) (by decide)
  · exact (evaluation_strict_and_local _ _).2.2.1 _ (by decide)

end Expr

end Propositional
