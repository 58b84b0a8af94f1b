import Propositional.Expr.Shape

/-!
# Negation normal form

Every negation is pushed down to a variable. A subformula below an odd number of negations appears
with the other connective, the other constant or a negated variable; below an even number it
appears as it is.

* `isNnf_nnfOf`: the result is in negation normal form.
* `toNnf_not_bin` and its neighbours are the rules as equations, one negation at a time.

`toNnf` is `to_nnf`. The methods of `NNFTransformer` go down by one negation at a time and keep a
table of results; `Session.visitNnf` does it their way. Out of scope: the steps that are noted,
which `Session.toNnf` adds.
-/

namespace Propositional

namespace Expr

/-- The negation normal form of a formula, or of its negation where `positive` is false. -/
def nnfOf (positive : Bool) : Expr → Expr
  | const b => const (if positive then b else !b)
  | var x => if positive then var x else not (var x)
  | not e => e.nnfOf (!positive)
  | bin c l r => bin (if positive then c else c.dual) (l.nnfOf positive) (r.nnfOf positive)

/-- The negation normal form of a formula. -/
def toNnf (e : Expr) : Expr :=
  e.nnfOf true

theorem toNnf_const (b : Bool) : toNnf (const b) = const b := rfl

theorem toNnf_var (x : Name) : toNnf (var x) = var x := rfl

theorem toNnf_bin (c : Connective) (l r : Expr) :
    toNnf (bin c l r) = bin c l.toNnf r.toNnf := rfl

theorem toNnf_not_const (b : Bool) : toNnf (not (const b)) = const (!b) := rfl

theorem toNnf_not_var (x : Name) : toNnf (not (var x)) = not (var x) := rfl

theorem toNnf_not_not (e : Expr) : toNnf (not (not e)) = e.toNnf := rfl

theorem toNnf_not_bin (c : Connective) (l r : Expr) :
    toNnf (not (bin c l r)) = bin c.dual (not l).toNnf (not r).toNnf := rfl

theorem isNnf_nnfOf (e : Expr) (positive : Bool) : (e.nnfOf positive).isNnf = true := by
  induction e generalizing positive with
  | const => cases positive <;> rfl
  | var => cases positive <;> rfl
  | not e ih => exact ih _
  | bin c l r ihl ihr => simp [nnfOf, isNnf, ihl, ihr]

theorem isNnf_toNnf (e : Expr) : e.toNnf.isNnf = true :=
  isNnf_nnfOf e true

end Expr

end Propositional
