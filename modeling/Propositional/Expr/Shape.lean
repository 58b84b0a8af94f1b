import Propositional.Expr.Basic

/-!
# Literals, clauses and normal forms

Recognisers that look at the shape of a formula only.

* A *literal* is a constant, a variable or a negated variable.
* A *clause* joins literals with one connective throughout.
* *Negation normal form*: every negation stands directly above a variable.
* *Disjunctive normal form*: disjunctions of conjunctive clauses. Each disjunct may also be the
  negation of a literal, so `!true` and `!!p` count.

These are `is_literal`, `is_clause` with `_is_clause_of`, `is_dnf` and `is_nnf`. `isDisjunction` is
the question that `nnf_to_dnf` asks about a side.
-/

namespace Propositional

namespace Expr

/-- A constant, a variable or a negated variable. -/
def isLiteral : Expr → Bool
  | const _ | var _ | not (var _) => true
  | _ => false

/-- Literals joined by the connective `c` only. -/
def isClauseOf (c : Connective) : Expr → Bool
  | bin d l r => decide (c = d) && l.isClauseOf c && r.isClauseOf c
  | e => e.isLiteral

/-- Literals joined by one connective. -/
def isClause : Expr → Bool
  | bin c l r => l.isClauseOf c && r.isClauseOf c
  | e => e.isLiteral

/-- Disjunctive normal form. -/
def isDnf : Expr → Bool
  | const _ | var _ => true
  | not e => e.isLiteral
  | or l r => l.isDnf && r.isDnf
  | and l r => (and l r).isClause

/-- Negation normal form. -/
def isNnf : Expr → Bool
  | const _ | var _ => true
  | not (var _) => true
  | not _ => false
  | bin _ l r => l.isNnf && r.isNnf

/-- A disjunction at the root. -/
def isDisjunction : Expr → Bool
  | or _ _ => true
  | _ => false

theorem isClause_of_isLiteral {e : Expr} (h : e.isLiteral = true) : e.isClause = true := by
  cases e with
  | bin => cases h
  | _ => exact h

theorem isClause_bin (c : Connective) (l r : Expr) :
    (bin c l r).isClause = (l.isClauseOf c && r.isClauseOf c) := rfl

/-- A clause whose root is `c`, or a literal, is a clause of `c`. -/
theorem isClauseOf_bin_self (c : Connective) (l r : Expr) :
    (bin c l r).isClauseOf c = (bin c l r).isClause := by
  simp [isClauseOf, isClause]

end Expr

end Propositional
