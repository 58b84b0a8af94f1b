import Propositional.Name

/-!
# Formulas

A formula is a constant, a variable, a negation, or two formulas joined by a connective. Equality
of formulas is equality of trees; logical equivalence is another relation
(`Propositional.Simplify`).

* `size` counts nodes, `depth` counts the nodes of the longest branch, `leaves` counts constants
  and variables.
* `negate` pushes one negation through the connectives and cancels a negation that it meets; it
  keeps the number of leaves (`leaves_negate`), though it may add nodes.
* `dual` swaps the two connectives and the two constants.

`Expr` is `Const`, `Variable`, `Not`, `And` and `Or`, where the last two are one constructor with a
connective. `display` is how a node is shown, and `size`, `depth` and `negate` are the functions of
the same names. `leaves`, `dual` and `occurrences` are for theorems and for other definitions. Out
of scope: nodes of other kinds.
-/

namespace Propositional

/-- A propositional formula. -/
inductive Expr where
  | const (value : Bool)
  | var (name : Name)
  | not (operand : Expr)
  | bin (connective : Connective) (left right : Expr)
  deriving DecidableEq, Hashable, Inhabited

namespace Expr

/-- The conjunction of two formulas. -/
@[match_pattern] abbrev and (left right : Expr) : Expr := .bin .and left right

/-- The disjunction of two formulas. -/
@[match_pattern] abbrev or (left right : Expr) : Expr := .bin .or left right

/-- The number of nodes. -/
def size : Expr → Nat
  | const _ | var _ => 1
  | not e => 1 + e.size
  | bin _ l r => 1 + l.size + r.size

/-- The number of nodes on the longest way from the root to a leaf. -/
def depth : Expr → Nat
  | const _ | var _ => 1
  | not e => 1 + e.depth
  | bin _ l r => 1 + max l.depth r.depth

/-- The number of occurrences of constants and variables. -/
def leaves : Expr → Nat
  | const _ | var _ => 1
  | not e => e.leaves
  | bin _ l r => l.leaves + r.leaves

/-- The written form: `!` before a negated formula, and every joined pair in parentheses. -/
def display : Expr → String
  | const true => "true"
  | const false => "false"
  | var x => x.text
  | not e => "!" ++ e.display
  | bin c l r => "(" ++ l.display ++ " " ++ c.sign ++ " " ++ r.display ++ ")"

instance : ToString Expr := ⟨display⟩

/-- The negation of a formula by De Morgan's laws: connectives are swapped down to the first
constant, variable or negation, which is negated or, if it is a negation, dropped. -/
def negate : Expr → Expr
  | const b => const (!b)
  | var x => not (var x)
  | not e => e
  | bin c l r => bin c.dual l.negate r.negate

/-- The formula with its two connectives and its two constants swapped. -/
def dual : Expr → Expr
  | const b => const (!b)
  | var x => var x
  | not e => not e.dual
  | bin c l r => bin c.dual l.dual r.dual

/-- The texts of the variables, left to right, with repetitions. -/
def occurrences : Expr → List String
  | const _ => []
  | var x => [x.text]
  | not e => e.occurrences
  | bin _ l r => l.occurrences ++ r.occurrences

theorem leaves_pos (e : Expr) : 0 < e.leaves := by
  induction e with
  | const => exact Nat.one_pos
  | var => exact Nat.one_pos
  | not _ ih => exact ih
  | bin _ l r ihl _ => exact Nat.add_pos_left ihl _

theorem size_pos (e : Expr) : 0 < e.size := by
  cases e <;> simp only [size] <;> omega

theorem depth_pos (e : Expr) : 0 < e.depth := by
  cases e <;> simp only [depth] <;> omega

@[simp] theorem leaves_negate (e : Expr) : e.negate.leaves = e.leaves := by
  induction e with
  | const => rfl
  | var => rfl
  | not => rfl
  | bin _ l r ihl ihr => simp only [negate, leaves, ihl, ihr]

@[simp] theorem dual_dual (e : Expr) : e.dual.dual = e := by
  induction e with
  | const b => simp [dual]
  | var => rfl
  | not e ih => simp only [dual, ih]
  | bin c l r ihl ihr => simp only [dual, Connective.dual_dual, ihl, ihr]

end Expr

end Propositional
