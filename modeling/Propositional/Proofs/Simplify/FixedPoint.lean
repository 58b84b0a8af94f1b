import Propositional.Proofs.Simplify.Commutation
import Propositional.Proofs.Subformula

/-!
# The fixed points of simplification

Simplification is one bottom-up pass, and an operand is not visited again after a rule has put it in
the place of the whole. Still no rule is left to apply: the operand was simplified when it was put
there, and what is found about it does not depend on where it stands. So the results are exactly the
formulas without a place for a rule, and these are exactly the formulas that a pass leaves alone.

Results:
* `negateSimplified_eq_iff`, `Joined.redex_or_eq`: one step leaves a node alone iff no rule applies
  to it; if one does, a leaf is lost.
* `simplify_eq_self_iff`: a pass changes nothing iff no rule applies anywhere.
* `simplify_reaches_fixed_point`: one pass gets there.
-/

namespace Propositional

namespace Expr

/-! ## Rules and the formulas without a place for them -/

/-- A rule of simplification applies to the formula as a whole. -/
inductive Redex : Expr → Prop
  /-- A negated constant is flipped. -/
  | notConst (b : Bool) : Redex (not (const b))
  /-- A double negation cancels. -/
  | notNot (e : Expr) : Redex (not (not e))
  /-- The neutral constant is dropped. -/
  | neutral {c : Connective} {l r : Expr} (h : l = const c.neutral ∨ r = const c.neutral) :
      Redex (bin c l r)
  /-- The absorbing constant is all that remains. -/
  | absorbing {c : Connective} {l r : Expr} (h : l = const c.absorbing ∨ r = const c.absorbing) :
      Redex (bin c l r)
  /-- The right one of two operands that are found equivalent is dropped. -/
  | same {c : Connective} {l r : Expr} (h : equivalent l r = true) : Redex (bin c l r)
  /-- Two operands that are found opposite to each other become the absorbing constant. -/
  | opposite {c : Connective} {l r : Expr} (h : equivalent l.negate r = true) : Redex (bin c l r)

/-- No rule of simplification applies anywhere in the formula. -/
def IsReduced (e : Expr) : Prop :=
  ∀ f, Subformula f e → ¬ Redex f

theorem isReduced_const (b : Bool) : IsReduced (const b) := by
  intro f hf
  rw [subformula_const.mp hf]
  nofun

theorem isReduced_var (n : Name) : IsReduced (var n) := by
  intro f hf
  rw [subformula_var.mp hf]
  nofun

theorem isReduced_not {e : Expr} : IsReduced (not e) ↔ ¬ Redex (not e) ∧ IsReduced e := by
  simp only [IsReduced, subformula_not, or_imp, forall_and, forall_eq]

theorem isReduced_bin {c : Connective} {l r : Expr} :
    IsReduced (bin c l r) ↔ ¬ Redex (bin c l r) ∧ IsReduced l ∧ IsReduced r := by
  simp only [IsReduced, subformula_bin, or_imp, forall_and, forall_eq]

/-! ## One step -/

/-- A negation is left alone iff no rule applies to it. -/
theorem negateSimplified_eq_iff {e : Expr} :
    e.negateSimplified = not e ↔ ¬ Redex (not e) := by
  cases e with
  | const b =>
    refine ⟨fun h => ?_, fun h => absurd (.notConst b) h⟩
    cases h
  | not e =>
    refine ⟨fun h => ?_, fun h => absurd (.notNot e) h⟩
    have hsize := congrArg size h
    simp only [negateSimplified, size] at hsize
    omega
  | var | bin =>
    refine ⟨fun _ h => ?_, fun _ => rfl⟩
    cases h

/-- **One step at a connective**: a rule applies and a leaf is lost, or none does and the operands
are kept. -/
theorem Joined.redex_or_eq {c : Connective} {l r s : Expr} (h : Joined c l r s) :
    (Redex (bin c l r) ∧ s.leaves < (bin c l r).leaves) ∨
      (¬ Redex (bin c l r) ∧ s = bin c l r) := by
  have constant : ∀ b, (const b).leaves < (bin c l r).leaves := fun b =>
    leaves_left_lt l.leaves_pos
  cases h with
  | neutralRight h => exact Or.inl ⟨.neutral (Or.inr h), leaves_left_lt (Nat.le_refl _)⟩
  | neutralLeft h => exact Or.inl ⟨.neutral (Or.inl h), leaves_right_lt (Nat.le_refl _)⟩
  | absorbing h => exact Or.inl ⟨.absorbing h, constant _⟩
  | same _ _ hs => exact Or.inl ⟨.same hs, leaves_left_lt (Nat.le_refl _)⟩
  | opposite _ _ _ ho => exact Or.inl ⟨.opposite ho, constant _⟩
  | kept hl hr hs ho =>
    refine Or.inr ⟨fun hredex => ?_, rfl⟩
    cases hredex with
    | neutral h | absorbing h => exact h.elim (hl _) (hr _)
    | same h => rw [h] at hs; cases hs
    | opposite h => rw [h] at ho; cases ho

/-! ## A whole pass -/

/-- A pass over a joined formula that changes nothing leaves both operands alone, and no rule
applies to it. -/
theorem simplify_bin_eq_self_iff {c : Connective} {l r : Expr} :
    (bin c l r).simplify = bin c l r ↔
      ¬ Redex (bin c l r) ∧ l.simplify = l ∧ r.simplify = r := by
  have hj := (joined_simplify c l r).redex_or_eq
  constructor
  · intro h
    rw [h] at hj
    rcases hj with ⟨-, hlt⟩ | ⟨hredex, heq⟩
    · -- A rule has lost a leaf, and the pass over the operands has won none.
      have hle := Nat.add_le_add l.leaves_simplify_le r.leaves_simplify_le
      exact absurd hlt (Nat.not_lt.mpr hle)
    · obtain ⟨-, hl, hr⟩ := bin.inj heq
      rw [← hl, ← hr] at hredex
      exact ⟨hredex, hl.symm, hr.symm⟩
  · rintro ⟨hredex, hl, hr⟩
    rw [hl, hr] at hj
    rcases hj with ⟨hredex', -⟩ | ⟨-, heq⟩
    · exact absurd hredex' hredex
    · exact heq

/-- **A pass changes nothing iff no rule applies anywhere.** -/
theorem simplify_eq_self_iff {e : Expr} : e.simplify = e ↔ IsReduced e := by
  induction e with
  | const b => exact ⟨fun _ => isReduced_const b, fun _ => simplify_const b⟩
  | var n => exact ⟨fun _ => isReduced_var n, fun _ => simplify_var n⟩
  | not e ih =>
    rw [isReduced_not, ← negateSimplified_eq_iff, ← ih]
    constructor
    · intro h
      have he := simplify_eq_of_not h
      rw [simplify_not, he] at h
      exact ⟨h, he⟩
    · rintro ⟨h, he⟩
      rw [simplify_not, he, h]
  | bin c l r ihl ihr => rw [simplify_bin_eq_self_iff, isReduced_bin, ihl, ihr]

/-- **One pass of simplification is enough.** Simplifying twice is simplifying once, and no rule
applies anywhere in the result: in particular it has no two operands that are found equivalent or
opposite to each other. Both say the same, since a pass changes nothing iff no rule applies
anywhere. -/
theorem simplify_reaches_fixed_point (e : Expr) :
    e.simplify.simplify = e.simplify ∧
      IsReduced e.simplify ∧
      (∀ c l r, Subformula (bin c l r) e.simplify →
        equivalent l r = false ∧ equivalent l.negate r = false) ∧
      ∀ f : Expr, f.simplify = f ↔ IsReduced f := by
  have hreduced : IsReduced e.simplify := simplify_eq_self_iff.mp (simplify_simplify e)
  refine ⟨simplify_simplify e, hreduced, fun c l r hsub => ?_, fun f => simplify_eq_self_iff⟩
  have hredex := hreduced _ hsub
  constructor
  · exact Bool.eq_false_iff.mpr fun hs => hredex (.same hs)
  · exact Bool.eq_false_iff.mpr fun ho => hredex (.opposite ho)

/-- A fixed point need not be the simplest formula: no rule applies anywhere in
`(p | q) | (!p | !q)`, which is always true. -/
theorem hiddenTautology_isReduced : ∃ p q : Name,
    (hiddenTautology p q).simplify = hiddenTautology p q ∧ IsReduced (hiddenTautology p q) ∧
      ∀ v, (hiddenTautology p q).truth v = true := by
  let p : Name := ⟨"p", by decide⟩
  let q : Name := ⟨"q", by decide⟩
  have hfixed := simplify_hiddenTautology (x := p) (y := q) (by decide)
  have hreduced := (simplify_reaches_fixed_point (hiddenTautology p q)).2.1
  rw [hfixed] at hreduced
  exact ⟨p, q, hfixed, hreduced, fun v => truth_hiddenTautology v p q⟩

end Expr

end Propositional
