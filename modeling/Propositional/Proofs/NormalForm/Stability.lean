import Propositional.Proofs.NormalForm.Rejection

/-!
# Normal forms stay normal

Distribution has nothing to do in a formula that is in both normal forms: it goes down the
disjunctions at the top, leaves the clauses below them alone, and puts the same tree together again.
As its results are in both normal forms, they are exactly the formulas that it leaves alone.

Simplification rewrites such a formula, but each of its rules gives a constant, one of the operands
or the two joined as they were. None of these can leave a class of formulas that holds the constants
and, with a formula, its parts. For disjunctive normal form that is not enough by itself: what may
stand below a disjunction and what may stand below a conjunction are two classes, and a conjunction
is simplified within the second one.

Results:
* `distribute_of_isNormal`, `distribute_eq_self_iff`: what distribution leaves alone.
* `distribution_fixes_normal_forms`: so distributing twice is distributing once.
* `isClauseOf_simplify`, `isClause_simplify`, `isDnf_simplify`: simplification, class by class.
* `simplification_stays_in_normal_forms`: these together, with the simplification of what
  distribution gives.
-/

namespace Propositional

namespace Expr

/-! ## Distribution -/

/-- Formulas in both normal forms are left alone, node for node. -/
theorem distribute_of_isNormal {e : Expr} (h : IsNormal e) : e.distribute = .ok e := by
  induction e with
  | const | var => exact distribute_of_isClause rfl
  | not e =>
    -- A negation in negation normal form is a literal.
    cases e with
    | var => exact distribute_of_isClause rfl
    | const | not | bin => cases h.isNnf
  | bin c l r ihl ihr =>
    cases c with
    | and => exact distribute_of_isClause h.isDnf
    | or =>
      obtain ⟨hl, hr⟩ := h.of_or
      by_cases hc : (or l r).isClause = true
      · exact distribute_of_isClause hc
      · rw [distribute_or hc, ihl hl, ihr hr]
        rfl

/-- **The formulas that distribution leaves alone** are those in both normal forms. -/
theorem distribute_eq_self_iff {e : Expr} : e.distribute = .ok e ↔ IsNormal e :=
  ⟨fun h => (distributes_of_distribute h).isNormal, distribute_of_isNormal⟩

/-- **Distribution leaves disjunctive normal forms alone**, and nothing else. Of a formula in
negation normal form it makes one that is the same tree iff the formula was in disjunctive normal
form already; so distributing the result again changes nothing. -/
theorem distribution_fixes_normal_forms {e : Expr} (h : e.isNnf = true) :
    (e.distribute = .ok e ↔ e.isDnf = true) ∧
    ∃ s, e.distribute = .ok s ∧ (s = e ↔ e.isDnf = true) ∧ s.distribute = .ok s := by
  have hself : e.distribute = .ok e ↔ e.isDnf = true := by
    rw [distribute_eq_self_iff]
    exact ⟨IsNormal.isDnf, fun hdnf => ⟨hdnf, h⟩⟩
  obtain ⟨s, hs⟩ := exists_distribute_of_isNnf h
  refine ⟨hself, s, hs, ?_, distribute_of_isNormal (distributes_of_distribute hs).isNormal⟩
  rw [← hself, hs, Except.ok.injEq]

/-- `(p & !q) | (r | p)`, which is no clause, is left alone, and `p & (q | r)` is not. -/
theorem fixes_one_of_two : ∃ p q r : Name,
    (or (and (var p) (not (var q))) (or (var r) (var p))).isNnf = true ∧
      (or (and (var p) (not (var q))) (or (var r) (var p))).isClause ≠ true ∧
      (or (and (var p) (not (var q))) (or (var r) (var p))).distribute =
        .ok (or (and (var p) (not (var q))) (or (var r) (var p))) ∧
      (and (var p) (or (var q) (var r))).isNnf = true ∧
      ∃ s, (and (var p) (or (var q) (var r))).distribute = .ok s ∧
        s ≠ and (var p) (or (var q) (var r)) ∧ s.distribute = .ok s := by
  let p : Name := ⟨"p", by decide⟩
  let q : Name := ⟨"q", by decide⟩
  let r : Name := ⟨"r", by decide⟩
  obtain ⟨-, s, hs, hsame, hagain⟩ :=
    distribution_fixes_normal_forms (e := and (var p) (or (var q) (var r))) rfl
  refine ⟨p, q, r, rfl, by decide, (distribution_fixes_normal_forms rfl).1.mpr rfl, rfl, s, hs,
    fun h => ?_, hagain⟩
  exact absurd (hsame.mp h) (by decide)

/-! ## Simplification -/

/-- **Simplification stays among the clauses of a connective.** -/
theorem isClauseOf_simplify {c : Connective} {e : Expr} (h : e.isClauseOf c = true) :
    e.simplify.isClauseOf c = true := by
  induction e with
  | const b => rwa [simplify_const]
  | var n => rwa [simplify_var]
  | not e =>
    cases e with
    | var n => rwa [simplify_not_var]
    | const | not | bin => cases h
  | bin d l r ihl ihr =>
    obtain ⟨rfl, hl, hr⟩ := isClauseOf_bin.mp h
    exact (joined_simplify c l r).keeps (P := fun s => s.isClauseOf c = true) (fun _ => rfl)
      (ihl hl) (ihr hr) (isClauseOf_bin.mpr ⟨rfl, ihl hl, ihr hr⟩)

theorem isClause_simplify {e : Expr} (h : e.isClause = true) : e.simplify.isClause = true := by
  obtain ⟨c, hc⟩ := isClause_iff_exists.mp h
  exact isClause_iff_exists.mpr ⟨c, isClauseOf_simplify hc⟩

/-- The negation of a literal is simplified to a literal. -/
theorem isLiteral_simplify_not {e : Expr} (h : e.isLiteral = true) :
    (not e).simplify.isLiteral = true := by
  cases e with
  | const b => rw [simplify_not, simplify_const]; rfl
  | var n => rw [simplify_not_var]; rfl
  | bin => cases h
  | not e =>
    cases e with
    | var n => rw [simplify_not, simplify_not_var]; rfl
    | const | not | bin => cases h

/-- **Simplification stays in disjunctive normal form.** -/
theorem isDnf_simplify {e : Expr} (h : e.isDnf = true) : e.simplify.isDnf = true := by
  induction e with
  | const b => rwa [simplify_const]
  | var n => rwa [simplify_var]
  | not e => exact (isNormal_of_isLiteral (isLiteral_simplify_not h)).isDnf
  | bin c l r ihl ihr =>
    cases c with
    | and =>
      -- Both operands are conjunctive clauses, and so is all that is made of them.
      rw [isDnf_and] at h
      exact (isNormal_of_isClauseOf (isClauseOf_simplify h)).isDnf
    | or =>
      rw [isDnf, Bool.and_eq_true] at h
      refine (joined_simplify .or l r).keeps (P := fun s => s.isDnf = true) (fun _ => rfl) (ihl h.1)
        (ihr h.2) ?_
      rw [isDnf, ihl h.1, ihr h.2, Bool.and_self]

/-- **Simplification never leads out of a normal form**: not out of negation normal form, not out of
the clauses, and not out of disjunctive normal form. So the disjunctive normal form of any formula
may be simplified once more and stays in both normal forms. -/
theorem simplification_stays_in_normal_forms (e : Expr) :
    (e.isNnf = true → e.simplify.isNnf = true) ∧
    (e.isClause = true → e.simplify.isClause = true) ∧
    (e.isDnf = true → e.simplify.isDnf = true) ∧
    ∃ d, e.toDnf = .ok d ∧ d.simplify.isDnf = true ∧ d.simplify.isNnf = true := by
  obtain ⟨d, hd⟩ := exists_distribute_of_isNnf (isNnf_simplify (isNnf_toNnf e))
  have hnormal := (distributes_of_distribute hd).isNormal
  exact ⟨isNnf_simplify, isClause_simplify, isDnf_simplify, d, hd, isDnf_simplify hnormal.isDnf,
    isNnf_simplify hnormal.isNnf⟩

/-- The clause `p & (q & true)` stays a clause; `(p & false) | !!q`, which is neither a clause nor
in negation normal form, stays in disjunctive normal form. -/
theorem conjunction_stays_clause : ∃ p q : Name,
    (and (var p) (and (var q) (const true))).isClause = true ∧
      (and (var p) (and (var q) (const true))).simplify.isClause = true ∧
      (and (var p) (and (var q) (const true))).isNnf = true ∧
      (and (var p) (and (var q) (const true))).simplify.isNnf = true ∧
      (or (and (var p) (const false)) (not (not (var q)))).isNnf = false ∧
      (or (and (var p) (const false)) (not (not (var q)))).isDnf = true ∧
      (or (and (var p) (const false)) (not (not (var q)))).simplify.isDnf = true := by
  let p : Name := ⟨"p", by decide⟩
  let q : Name := ⟨"q", by decide⟩
  obtain ⟨hnnf, hclause, -⟩ :=
    simplification_stays_in_normal_forms (and (var p) (and (var q) (const true)))
  obtain ⟨-, -, hdnf, -⟩ :=
    simplification_stays_in_normal_forms (or (and (var p) (const false)) (not (not (var q))))
  exact ⟨p, q, rfl, hclause rfl, rfl, hnnf rfl, rfl, rfl, hdnf rfl⟩

end Expr

end Propositional
