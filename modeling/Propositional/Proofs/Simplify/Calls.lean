import Mathlib.Logic.Relation
import Propositional.Proofs.Simplify.Equivalence

/-!
# Why simplification ends

Simplification and the check call each other. To simplify a formula its operands are simplified; at
a connective whose simplified operands are no constants the check is asked about them, and if it
says no, about the negation of the left one and the right one; and the check simplifies the two
formulas that it is asked about. These need not be smaller than the formula that they belong to:
negating by De Morgan's laws adds a negation at each variable. But it adds no leaf, and neither does
simplifying; so each of the two has at most as many leaves as one operand, and fewer than the whole.

Results:
* `Asks.leaves_lt`: what the check is asked about has fewer leaves.
* `Needs.rank_lt`, `wellFounded_needs`: with each call the leaves get fewer, or they do not and the
  formula gets smaller; so the calls end.
* `Asks.leaves_lt_of_reaches`: whatever is simplified in answer to a question of the check.
* `asks_negated_disjunction`: a question about a formula larger than the one that it belongs to.
-/

namespace Propositional

namespace Expr

/-- At the formula `n`, simplification asks the check about `a` and `b`. -/
inductive Asks : Expr → Expr → Expr → Prop
  /-- Where no constant decides, it asks about the two simplified operands. -/
  | same {c : Connective} {l r : Expr} (h : absorb? c l.simplify r.simplify = none) :
      Asks (bin c l r) l.simplify r.simplify
  /-- If these are not equivalent, it asks about the negation of the left one and the right one. -/
  | opposite {c : Connective} {l r : Expr} (h : absorb? c l.simplify r.simplify = none)
      (hs : equivalent l.simplify r.simplify = false) :
      Asks (bin c l r) l.simplify.negate r.simplify

/-- To simplify the formula `e`, the formula `f` is simplified: it is an operand, or the check is
asked about it. -/
inductive Needs : Expr → Expr → Prop
  | not {e : Expr} : Needs (not e) e
  | left {c : Connective} {l r : Expr} : Needs (bin c l r) l
  | right {c : Connective} {l r : Expr} : Needs (bin c l r) r
  | askedLeft {n a b : Expr} (h : Asks n a b) : Needs n a
  | askedRight {n a b : Expr} (h : Asks n a b) : Needs n b

/-- The formula `f` is simplified at some depth of the calls that simplifying `e` makes. -/
abbrev Reaches : Expr → Expr → Prop :=
  Relation.ReflTransGen Needs

/-! ## Fewer leaves -/

/-- **The check is asked about formulas with fewer leaves.** -/
theorem Asks.leaves_lt {n a b : Expr} (h : Asks n a b) :
    a.leaves < n.leaves ∧ b.leaves < n.leaves := by
  cases h with
  | @same c l r => exact ⟨leaves_left_lt l.leaves_simplify_le, leaves_right_lt r.leaves_simplify_le⟩
  | @opposite c l r =>
    refine ⟨leaves_left_lt ?_, leaves_right_lt r.leaves_simplify_le⟩
    rw [leaves_negate]
    exact l.leaves_simplify_le

theorem Needs.leaves_le {e f : Expr} (h : Needs e f) : f.leaves ≤ e.leaves := by
  cases h with
  | not => exact Nat.le_refl _
  | left => exact Nat.le_add_right _ _
  | right => exact Nat.le_add_left _ _
  | askedLeft h => exact Nat.le_of_lt h.leaves_lt.1
  | askedRight h => exact Nat.le_of_lt h.leaves_lt.2

/-- With each call the leaves get fewer, or there are as many and the formula gets smaller. -/
theorem Needs.rank_lt {e f : Expr} (h : Needs e f) :
    Prod.Lex (· < ·) (· < ·) (f.leaves, f.size) (e.leaves, e.size) := by
  cases h with
  | not => exact .right _ (Nat.lt_add_of_pos_left Nat.one_pos)
  | left => exact .left _ _ (leaves_left_lt (Nat.le_refl _))
  | right => exact .left _ _ (leaves_right_lt (Nat.le_refl _))
  | askedLeft h => exact .left _ _ h.leaves_lt.1
  | askedRight h => exact .left _ _ h.leaves_lt.2

/-- **The calls end**, whatever formula they begin with. -/
theorem wellFounded_needs : WellFounded fun f e => Needs e f :=
  Subrelation.wf Needs.rank_lt (invImage (fun e : Expr => (e.leaves, e.size)) inferInstance).wf

theorem leaves_le_of_reaches {e f : Expr} (h : Reaches e f) : f.leaves ≤ e.leaves := by
  induction h with
  | refl => exact Nat.le_refl _
  | tail _ hneeds ih => exact Nat.le_trans hneeds.leaves_le ih

/-- **Whatever is simplified for the answer of the check has fewer leaves** than the formula at
which the check was asked. -/
theorem Asks.leaves_lt_of_reaches {n a b f : Expr} (h : Asks n a b)
    (hf : Reaches a f ∨ Reaches b f) : f.leaves < n.leaves := by
  rcases hf with hf | hf
  · exact Nat.lt_of_le_of_lt (leaves_le_of_reaches hf) h.leaves_lt.1
  · exact Nat.lt_of_le_of_lt (leaves_le_of_reaches hf) h.leaves_lt.2

/-! ## More nodes -/

/-- At `(p | (q & p)) & q`, of seven nodes, the check is asked about `!p & (!q | !p)`, of eight. -/
theorem asks_negated_disjunction {p q : Name} (h : p ≠ q) :
    Asks (and (or (var p) (and (var q) (var p))) (var q))
      (and (not (var p)) (or (not (var q)) (not (var p)))) (var q) := by
  -- One valuation tells apart the operands of each connective, another one none of them.
  obtain ⟨v, hp, hq⟩ := exists_separating h
  have inner : (and (var q) (var p)).simplify = and (var q) (var p) :=
    simplify_bin_of_truth_ne (simplify_var q) (simplify_var p) rfl rfl v (fun _ => true)
      (by simp [truth, hp, hq]) rfl
  have left : (or (var p) (and (var q) (var p))).simplify = or (var p) (and (var q) (var p)) :=
    simplify_bin_of_truth_ne (simplify_var p) inner rfl rfl v (fun _ => true)
      (by simp [truth, Connective.apply, hp, hq]) rfl
  have differ : equivalent (or (var p) (and (var q) (var p))) (var q) = false := by
    refine Bool.eq_false_iff.mpr fun hs => ?_
    have heq := truth_eq_of_equivalent hs v
    simp [truth, Connective.apply, hp, hq] at heq
  have hasks : Asks (and (or (var p) (and (var q) (var p))) (var q))
      (or (var p) (and (var q) (var p))).simplify.negate (var q).simplify := by
    refine .opposite ?_ ?_
    · rw [left, simplify_var]
      rfl
    · rw [left, simplify_var, differ]
  rwa [left, simplify_var] at hasks

end Expr

end Propositional
