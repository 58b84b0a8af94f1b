import Propositional.Expr.Shape

/-!
# Subformulas

A formula occurs in itself, and in whatever has an operand that it occurs in.

Results:
* `subformula_not`, `subformula_bin`: where a formula can occur in another one, for each kind of
  formula.
* `isNnf_iff_forall_subformula`: a formula is in negation normal form iff nothing but variables is
  negated anywhere in it.
-/

namespace Propositional

namespace Expr

/-- The formula `f` occurs in another one. -/
inductive Subformula (f : Expr) : Expr → Prop
  | refl : Subformula f f
  | not {e : Expr} (h : Subformula f e) : Subformula f (not e)
  | left {c : Connective} {l r : Expr} (h : Subformula f l) : Subformula f (bin c l r)
  | right {c : Connective} {l r : Expr} (h : Subformula f r) : Subformula f (bin c l r)

theorem Subformula.trans {f g e : Expr} (h : Subformula f g) (h' : Subformula g e) :
    Subformula f e := by
  induction h' with
  | refl => exact h
  | not _ ih => exact .not ih
  | left _ ih => exact .left ih
  | right _ ih => exact .right ih

theorem subformula_const {f : Expr} {b : Bool} : Subformula f (const b) ↔ f = const b := by
  constructor
  · rintro ⟨⟩
    rfl
  · rintro rfl
    exact .refl

theorem subformula_var {f : Expr} {n : Name} : Subformula f (var n) ↔ f = var n := by
  constructor
  · rintro ⟨⟩
    rfl
  · rintro rfl
    exact .refl

theorem subformula_not {f e : Expr} : Subformula f (not e) ↔ f = not e ∨ Subformula f e := by
  constructor
  · intro h
    cases h with
    | refl => exact Or.inl rfl
    | not h => exact Or.inr h
  · rintro (rfl | h)
    · exact .refl
    · exact .not h

theorem subformula_bin {f : Expr} {c : Connective} {l r : Expr} :
    Subformula f (bin c l r) ↔ f = bin c l r ∨ Subformula f l ∨ Subformula f r := by
  constructor
  · intro h
    cases h with
    | refl => exact Or.inl rfl
    | left h => exact Or.inr (Or.inl h)
    | right h => exact Or.inr (Or.inr h)
  · rintro (rfl | h | h)
    · exact .refl
    · exact .left h
    · exact .right h

/-- A negation occurs in a joined formula only below the connective. -/
theorem subformula_not_bin {f : Expr} {c : Connective} {l r : Expr} :
    Subformula (not f) (bin c l r) ↔ Subformula (not f) l ∨ Subformula (not f) r :=
  subformula_bin.trans (or_iff_right nofun)

/-- **Negation normal form, without recursion**: whatever is negated in the formula is a
variable. -/
theorem isNnf_iff_forall_subformula {e : Expr} :
    e.isNnf = true ↔ ∀ f, Subformula (not f) e → ∃ n, f = var n := by
  induction e with
  | const b => simp [isNnf, subformula_const]
  | var n => simp [isNnf, subformula_var]
  | not e ih =>
    cases e with
    | var n => simp [isNnf, subformula_not, subformula_var]
    | const | not | bin =>
      refine ⟨nofun, fun h => ?_⟩
      obtain ⟨n, hn⟩ := h _ .refl
      cases hn
  | bin c l r ihl ihr =>
    simp only [isNnf, Bool.and_eq_true, ihl, ihr, subformula_not_bin, or_imp, forall_and]

end Expr

end Propositional
