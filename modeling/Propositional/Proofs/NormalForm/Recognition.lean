import Propositional.Proofs.NormalForm.Clauses
import Propositional.Proofs.Subformula

/-!
# What the recognisers recognise

Whether a formula is a clause or in disjunctive normal form is found out level by level, and the
recognisers call each other: one for literals, one for clauses of a given connective, one for
clauses of any, one for disjunctive normal form. What they find out can be said of the formula as a
whole, by what occurs in it.

Results:
* `isClauseOf_iff`, `isClause_iff_isNnf`: a clause is in negation normal form and has only one of
  the two connectives.
* `isClauseOf_and_iff_conjuncts`, `isDnf_iff_disjuncts`: disjunctive normal form looks at each
  disjunct by itself, as a collection of literals or as the negation of one.
* `isDnf_iff_beneath`: in negation normal form, it means that no disjunction lies beneath a
  conjunction.
* `recognised_as_declared`: these together.
-/

namespace Propositional

namespace Expr

/-! ## The connectives of a formula -/

/-- The connective occurs in the formula. -/
def Contains (c : Connective) (e : Expr) : Prop :=
  ∃ l r, Subformula (bin c l r) e

theorem Contains.mono {c : Connective} {f e : Expr} (h : Contains c f) (hsub : Subformula f e) :
    Contains c e := by
  obtain ⟨l, r, h⟩ := h
  exact ⟨l, r, h.trans hsub⟩

@[simp] theorem not_contains_const {c : Connective} {b : Bool} : ¬ Contains c (const b) := by
  rintro ⟨l, r, h⟩
  cases h

@[simp] theorem not_contains_var {c : Connective} {n : Name} : ¬ Contains c (var n) := by
  rintro ⟨l, r, h⟩
  cases h

@[simp] theorem contains_not {c : Connective} {e : Expr} : Contains c (not e) ↔ Contains c e := by
  constructor
  · rintro ⟨l, r, h⟩
    cases h with
    | not h => exact ⟨l, r, h⟩
  · exact fun h => h.mono (.not .refl)

theorem contains_bin {c d : Connective} {l r : Expr} :
    Contains c (bin d l r) ↔ c = d ∨ Contains c l ∨ Contains c r := by
  constructor
  · rintro ⟨x, y, h⟩
    cases h with
    | refl => exact Or.inl rfl
    | left h => exact Or.inr (Or.inl ⟨x, y, h⟩)
    | right h => exact Or.inr (Or.inr ⟨x, y, h⟩)
  · rintro (rfl | h | h)
    · exact ⟨l, r, .refl⟩
    · exact h.mono (.left .refl)
    · exact h.mono (.right .refl)

/-! ## Clauses -/

/-- **A clause of one connective**, without recursion: nothing but variables is negated, and the
other connective does not occur. -/
theorem isClauseOf_iff {c : Connective} {e : Expr} :
    e.isClauseOf c = true ↔ e.isNnf = true ∧ ¬ Contains c.dual e := by
  induction e with
  | const | var => simp [isClauseOf, isLiteral, isNnf]
  | not e =>
    -- Only the negation of a variable is a literal, and only that is in negation normal form.
    cases e with
    | var n => simp [isClauseOf, isLiteral, isNnf]
    | const | not | bin =>
      constructor
      · intro h
        cases h
      · intro h
        cases h.1
  | bin d l r ihl ihr =>
    have hdual : c = d ↔ c.dual ≠ d := by cases c <;> cases d <;> decide
    rw [isClauseOf_bin, ihl, ihr, contains_bin, isNnf, Bool.and_eq_true, hdual, not_or, not_or]
    constructor
    · rintro ⟨hne, ⟨hl, hl'⟩, hr, hr'⟩
      exact ⟨⟨hl, hr⟩, hne, hl', hr'⟩
    · rintro ⟨⟨hl, hr⟩, hne, hl', hr'⟩
      exact ⟨hne, ⟨hl, hl'⟩, hr, hr'⟩

/-- **A clause**, without recursion: nothing but variables is negated, and the two connectives do
not both occur. -/
theorem isClause_iff_isNnf {e : Expr} :
    e.isClause = true ↔ e.isNnf = true ∧ ¬ (Contains .and e ∧ Contains .or e) := by
  rw [isClause_iff_exists]
  constructor
  · rintro ⟨c, hc⟩
    obtain ⟨hnnf, hother⟩ := isClauseOf_iff.mp hc
    refine ⟨hnnf, fun ⟨hand, hor⟩ => ?_⟩
    cases c with
    | and => exact hother hor
    | or => exact hother hand
  · rintro ⟨hnnf, hboth⟩
    by_cases hor : Contains .or e
    · exact ⟨.or, isClauseOf_iff.mpr ⟨hnnf, fun hand => hboth ⟨hand, hor⟩⟩⟩
    · exact ⟨.and, isClauseOf_iff.mpr ⟨hnnf, hor⟩⟩

/-! ## Disjunctive normal form -/

/-- A conjunctive clause is a conjunction of literals. -/
theorem isClauseOf_and_iff_conjuncts {e : Expr} :
    e.isClauseOf .and = true ↔ ∀ x ∈ e.conjuncts, x.isLiteral = true := by
  induction e with
  | const | var | not => simp [isClauseOf, conjuncts]
  | bin c l r ihl ihr =>
    cases c with
    | and =>
      rw [conjuncts, List.forall_mem_append, ← ihl, ← ihr, isClauseOf_bin, eq_self, true_and]
    | or => simp [isClauseOf, conjuncts, isLiteral]

/-- **Disjunctive normal form, disjunct by disjunct**: each is a conjunction of literals or the
negation of a literal. -/
theorem isDnf_iff_disjuncts {e : Expr} :
    e.isDnf = true ↔ ∀ d ∈ e.disjuncts,
      (∀ x ∈ d.conjuncts, x.isLiteral = true) ∨ ∃ x, d = not x ∧ x.isLiteral = true := by
  induction e with
  | const | var => simp [isDnf, disjuncts, conjuncts, isLiteral]
  | not e =>
    simp only [isDnf, disjuncts, conjuncts, List.mem_singleton, forall_eq, not.injEq]
    constructor
    · exact fun h => Or.inr ⟨e, rfl, h⟩
    · rintro (h | ⟨x, rfl, h⟩)
      · cases e with
        | var => rfl
        | const | not | bin => cases h
      · exact h
  | bin c l r ihl ihr =>
    cases c with
    | and =>
      rw [isDnf_and, isClauseOf_and_iff_conjuncts]
      simp [disjuncts]
    | or => rw [isDnf, Bool.and_eq_true, ihl, ihr, disjuncts, List.forall_mem_append]

/-- **Disjunctive normal form in negation normal form**: no disjunction lies beneath a
conjunction. -/
theorem isDnf_iff_beneath {e : Expr} (h : e.isNnf = true) :
    e.isDnf = true ↔
      ∀ l r, Subformula (and l r) e → ¬ Contains .or l ∧ ¬ Contains .or r := by
  induction e with
  | const | var => simp [isDnf, subformula_const, subformula_var]
  | not e =>
    cases e with
    | var => simp [isDnf, isLiteral, subformula_not, subformula_var]
    | const | not | bin => cases h
  | bin c l r ihl ihr =>
    cases c with
    | or =>
      rw [isNnf, Bool.and_eq_true] at h
      rw [isDnf, Bool.and_eq_true, ihl h.1, ihr h.2]
      constructor
      · rintro ⟨hl, hr⟩ x y hsub
        rcases subformula_bin.mp hsub with heq | hsub | hsub
        · cases heq
        · exact hl x y hsub
        · exact hr x y hsub
      · exact fun hall => ⟨fun x y hsub => hall x y (.left hsub),
          fun x y hsub => hall x y (.right hsub)⟩
    | and =>
      -- A disjunction anywhere in the conjunction lies beneath it.
      rw [isDnf_and, isClauseOf_iff]
      constructor
      · rintro ⟨-, hor⟩ x y hsub
        have hbeneath : ¬ Contains .or (and x y) := fun hxy => hor (hxy.mono hsub)
        rwa [contains_bin, not_or, not_or, and_iff_right (by decide)] at hbeneath
      · intro hall
        refine ⟨h, ?_⟩
        rw [Connective.dual, contains_bin, not_or, not_or]
        exact ⟨by decide, hall l r .refl⟩

/-- **The recognisers find out what can be said of the whole formula.** A formula is a clause iff it
is in negation normal form and does not contain both connectives. It is in disjunctive normal form
iff each of its disjuncts is a conjunction of literals or the negation of a literal; and if it is in
negation normal form, iff no disjunction lies beneath a conjunction. -/
theorem recognised_as_declared (e : Expr) :
    (e.isClause = true ↔ e.isNnf = true ∧ ¬ (Contains .and e ∧ Contains .or e)) ∧
    (e.isDnf = true ↔ ∀ d ∈ e.disjuncts,
      (∀ x ∈ d.conjuncts, x.isLiteral = true) ∨ ∃ x, d = not x ∧ x.isLiteral = true) ∧
    (e.isNnf = true → (e.isDnf = true ↔
      ∀ l r, Subformula (and l r) e → ¬ Contains .or l ∧ ¬ Contains .or r)) :=
  ⟨isClause_iff_isNnf, isDnf_iff_disjuncts, isDnf_iff_beneath⟩

/-- Beneath the conjunction in `(p | q) & !r` lies a disjunction, and beneath the one in
`(p & !q) | r` none. -/
theorem only_one_has_disjunction_beneath : ∃ p q r : Name,
    (and (or (var p) (var q)) (not (var r))).isNnf = true ∧
      (and (or (var p) (var q)) (not (var r))).isDnf ≠ true ∧
      (or (and (var p) (not (var q))) (var r)).isNnf = true ∧
      ∀ x y, Subformula (and x y) (or (and (var p) (not (var q))) (var r)) →
        ¬ Contains .or x ∧ ¬ Contains .or y := by
  let p : Name := ⟨"p", by decide⟩
  let q : Name := ⟨"q", by decide⟩
  let r : Name := ⟨"r", by decide⟩
  refine ⟨p, q, r, rfl, fun hdnf => ?_, rfl,
    ((recognised_as_declared (or (and (var p) (not (var q))) (var r))).2.2 rfl).mp rfl⟩
  have hbeneath := ((recognised_as_declared (and (or (var p) (var q)) (not (var r)))).2.2 rfl).mp
    hdnf (or (var p) (var q)) (not (var r)) .refl
  exact hbeneath.1 ⟨var p, var q, .refl⟩

end Expr

end Propositional
