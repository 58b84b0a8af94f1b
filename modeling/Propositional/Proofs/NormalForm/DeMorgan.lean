import Propositional.Proofs.NormalForm.Negation

/-!
# Two ways to push a negation down

`negate` swaps connectives down to the first constant, variable or negation of each branch. A
negation that it meets is dropped, and what stands below is not looked at. Negation normal form goes
on down to the variables. So the two differ on most formulas; but they use the same laws, and agree
as soon as the normal form is taken, whether before or after. In negation normal form a negation has
nothing below it but a variable, so there `negate` does all the work, and undoes it when it is used
again.

Results:
* `toNnf_negate`, `negate_toNnf`: the agreement.
* `isNnf_negate`: `negate` stays in negation normal form.
* `negate_negate_eq_self_iff`: it gives back what it has negated exactly in that form.
* `eval_negate`: it negates each value and gives none where there was none.
* `negate_agrees_with_toNnf`: these together.
-/

namespace Propositional

namespace Expr

/-! ## Agreement -/

theorem toNnf_negate (e : Expr) : e.negate.toNnf = (not e).toNnf :=
  nnfOf_negate true e

theorem negate_toNnf (e : Expr) : e.toNnf.negate = (not e).toNnf :=
  negate_nnfOf true e

/-! ## In negation normal form -/

/-- Of a formula in negation normal form `negate` gives the normal form of its negation. -/
theorem negate_of_isNnf {e : Expr} (h : e.isNnf = true) : e.negate = (not e).toNnf := by
  rw [← negate_toNnf, toNnf_of_isNnf h]

theorem isNnf_negate {e : Expr} (h : e.isNnf = true) : e.negate.isNnf = true := by
  rw [negate_of_isNnf h]
  exact isNnf_toNnf (not e)

theorem negate_negate_of_isNnf {e : Expr} (h : e.isNnf = true) : e.negate.negate = e := by
  calc e.negate.negate = (not e).toNnf.negate := by rw [negate_of_isNnf h]
    _ = (not (not e)).toNnf := negate_toNnf (not e)
    _ = e.toNnf := toNnf_not_not e
    _ = e := toNnf_of_isNnf h

/-- **Negating twice gives a formula back iff it is in negation normal form.** -/
theorem negate_negate_eq_self_iff {e : Expr} : e.negate.negate = e ↔ e.isNnf = true := by
  refine ⟨fun h => ?_, negate_negate_of_isNnf⟩
  induction e with
  | const | var => rfl
  | not e =>
    -- Once is enough to drop the negation, and only a variable gets it back.
    cases e with
    | var => rfl
    | const | bin => cases h
    | not e =>
      have hsize := congrArg size h
      simp only [negate, size] at hsize
      omega
  | bin c l r ihl ihr =>
    obtain ⟨-, hl, hr⟩ := bin.inj h
    rw [isNnf, ihl hl, ihr hr, Bool.and_self]

/-! ## Values -/

theorem occurrences_negate (e : Expr) : e.negate.occurrences = e.occurrences := by
  induction e with
  | const | var | not => rfl
  | bin c l r ihl ihr => rw [negate, occurrences, ihl, ihr, occurrences]

@[simp] theorem vocabulary_negate (e : Expr) : e.negate.vocabulary = e.vocabulary := by
  rw [vocabulary, occurrences_negate, vocabulary]

theorem eval_not (i : Interpretation) (e : Expr) : (not e).eval i = (e.eval i).map (! ·) := by
  rw [eval]
  cases e.eval i <;> rfl

/-- **`negate` negates each value**, under complete and partial interpretations. -/
theorem eval_negate (i : Interpretation) (e : Expr) : e.negate.eval i = (e.eval i).map (! ·) := by
  rw [← eval_not]
  exact eval_eq_of_truth_eq (fun x => by rw [vocabulary_negate, vocabulary_not])
    (fun v => truth_negate v e) i

/-- **De Morgan negation and negation normal form agree.** The normal form of the one is the normal
form of the negation, and also the De Morgan negation of the normal form. De Morgan negation stays
in negation normal form, and exactly there it undoes itself. Everywhere it negates the value of the
formula under each interpretation, and gives none exactly where the formula has none. -/
theorem negate_agrees_with_toNnf (e : Expr) :
    e.negate.toNnf = (not e).toNnf ∧
    (not e).toNnf = e.toNnf.negate ∧
    (e.isNnf = true → e.negate.isNnf = true) ∧
    (e.negate.negate = e ↔ e.isNnf = true) ∧
    ∀ i : Interpretation, e.negate.eval i = (e.eval i).map (! ·) ∧
      (e.negate.eval i = none ↔ e.eval i = none) := by
  refine ⟨toNnf_negate e, (negate_toNnf e).symm, isNnf_negate, negate_negate_eq_self_iff,
    fun i => ⟨eval_negate i e, ?_⟩⟩
  rw [eval_negate, Option.map_eq_none_iff]

/-- `p & (!q | true)` is in negation normal form, so its De Morgan negation `!p | (q & false)` is,
and negating that gives it back. Of `!!p` negating twice gives `p`. -/
theorem negate_undoes_itself_in_nnf : ∃ p q : Name,
    (and (var p) (or (not (var q)) (const true))).isNnf = true ∧
      (or (not (var p)) (and (var q) (const false))).isNnf = true ∧
      (or (not (var p)) (and (var q) (const false))).negate =
        and (var p) (or (not (var q)) (const true)) ∧
      (not (not (var p))).negate.negate ≠ not (not (var p)) := by
  let p : Name := ⟨"p", by decide⟩
  let q : Name := ⟨"q", by decide⟩
  have hnnf : (and (var p) (or (not (var q)) (const true))).isNnf = true := rfl
  have h := negate_agrees_with_toNnf (and (var p) (or (not (var q)) (const true)))
  have hdouble := negate_agrees_with_toNnf (not (not (var p)))
  refine ⟨p, q, hnnf, h.2.2.1 hnnf, h.2.2.2.1.mpr hnnf, fun heq => ?_⟩
  cases hdouble.2.2.2.1.mp heq

end Expr

end Propositional
