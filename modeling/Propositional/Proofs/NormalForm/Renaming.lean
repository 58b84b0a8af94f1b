import Mathlib.Logic.Equiv.Basic
import Propositional.Proofs.NormalForm.Disjunctive
import Propositional.Proofs.Simplify.Relabelling

/-!
# Renaming

Normal forms look at the shape of a formula and not at the names in it, so they commute with every
renaming. For simplification two variables must not be given one name, and disjunctive normal form
needs this for the simplification in it. The order in which rows are gone through is the order of
the names, and renaming may change it; no result depends on it.

Results:
* `nnfOf_rename`, `distribute_rename`: the two normal forms, for every renaming.
* `simplify_rename`, `toDnf_rename`: simplification, and the whole way to disjunctive normal form.
* `renaming_changes_no_result`: these and the answers of the check.
-/

namespace Propositional

namespace Expr

/-- The formula with its variables renamed by `f`. -/
def rename (f : Name → Name) : Expr → Expr
  | const b => const b
  | var n => var (f n)
  | not e => not (e.rename f)
  | bin c l r => bin c (l.rename f) (r.rename f)

variable (f : Name → Name)

theorem rename_eq_relabel (e : Expr) : e.rename f = e.relabel false f := by
  induction e with
  | const b => rw [rename, relabel, Bool.false_xor]
  | var n => rfl
  | not e ih => rw [rename, ih, relabel]
  | bin c l r ihl ihr =>
    rw [rename, ihl, ihr, relabel]
    rfl

/-! ## Normal forms -/

theorem nnfOf_rename (positive : Bool) (e : Expr) :
    (e.rename f).nnfOf positive = (e.nnfOf positive).rename f := by
  induction e generalizing positive with
  | const => rfl
  | var => cases positive <;> rfl
  | not e ih => exact ih _
  | bin c l r ihl ihr => rw [rename, nnfOf, ihl, ihr, nnfOf, rename]

theorem isLiteral_rename (e : Expr) : (e.rename f).isLiteral = e.isLiteral := by
  cases e with
  | const | var | bin => rfl
  | not e => cases e <;> rfl

theorem isClauseOf_rename (c : Connective) (e : Expr) :
    (e.rename f).isClauseOf c = e.isClauseOf c := by
  induction e with
  | const | var => rfl
  | not e => exact isLiteral_rename f (not e)
  | bin d l r ihl ihr => rw [rename, isClauseOf, ihl, ihr, isClauseOf]

theorem isClause_rename (e : Expr) : (e.rename f).isClause = e.isClause := by
  cases e with
  | const | var => rfl
  | not e => exact isLiteral_rename f (not e)
  | bin c l r => rw [rename, isClause_bin, isClauseOf_rename, isClauseOf_rename, isClause_bin]

theorem isDisjunction_rename (e : Expr) : (e.rename f).isDisjunction = e.isDisjunction := by
  cases e with
  | const | var | not => rfl
  | bin c l r => cases c <;> rfl

/-- **Simplification commutes with renaming.** -/
theorem simplify_rename {e : Expr} (hf : Set.InjOn f e.names) :
    (e.rename f).simplify = e.simplify.rename f := by
  rw [rename_eq_relabel, rename_eq_relabel]
  exact simplify_relabel false hf

/-- **Distribution commutes with renaming.** -/
theorem distribute_rename {e s : Expr} (h : e.distribute = .ok s) :
    (e.rename f).distribute = .ok (s.rename f) := by
  induction e using distribute_induction generalizing s with
  | clause e hc =>
    rw [distribute_of_isClause hc] at h
    cases h
    exact distribute_of_isClause ((isClause_rename f e).trans hc)
  | not e hc =>
    rw [distribute_not hc] at h
    cases h
  | or l r hc ihl ihr =>
    rw [distribute_or hc, bind_eq_ok_iff] at h
    obtain ⟨l', r', hl, hr, hs⟩ := h
    cases hs
    rw [← isClause_rename f] at hc
    exact (distribute_or hc).trans (bind_eq_ok_iff.mpr ⟨_, _, ihl hl, ihr hr, rfl⟩)
  | and_or_left x y r hc ihx ihy =>
    rw [distribute_and_or_left hc, bind_eq_ok_iff] at h
    obtain ⟨x', y', hx, hy, hs⟩ := h
    cases hs
    rw [← isClause_rename f] at hc
    exact (distribute_and_or_left hc).trans (bind_eq_ok_iff.mpr ⟨_, _, ihx hx, ihy hy, rfl⟩)
  | and_or_right l x y hc hl ihx ihy =>
    rw [distribute_and_or_right hc hl, bind_eq_ok_iff] at h
    obtain ⟨x', y', hx, hy, hs⟩ := h
    cases hs
    rw [← isClause_rename f] at hc
    rw [← isDisjunction_rename f] at hl
    exact (distribute_and_or_right hc hl).trans (bind_eq_ok_iff.mpr ⟨_, _, ihx hx, ihy hy, rfl⟩)
  | and l r hc hl hr ihl ihr ihs =>
    rw [distribute_and hc hl hr, bind_eq_ok_iff] at h
    obtain ⟨l', r', hl', hr', hs⟩ := h
    rw [← isClause_rename f] at hc
    rw [← isDisjunction_rename f] at hl hr
    exact (distribute_and hc hl hr).trans
      (bind_eq_ok_iff.mpr ⟨_, _, ihl hl', ihr hr', ihs l' r' hl' hr' hs⟩)

/-- The disjunctive normal form of a renamed formula is that of the formula, renamed. -/
theorem toDnf_rename {e d : Expr} (hf : Set.InjOn f e.names) (h : e.toDnf = .ok d) :
    (e.rename f).toDnf = .ok (d.rename f) := by
  have hnnf : (e.rename f).toNnf = e.toNnf.rename f := nnfOf_rename f true e
  have hf' : Set.InjOn f e.toNnf.names := by rwa [names, vocabulary_toNnf]
  rw [toDnf, hnnf, simplify_rename f hf']
  exact distribute_rename f h

/-! ## No result depends on the names -/

/-- **Results do not depend on the names of variables.** Let a renaming keep the variables of two
formulas apart. Then the check gives the same answer for the renamed formulas, although it may go
through the rows in another order, and what simplification and disjunctive normal form make of a
renamed formula is what they make of the formula, renamed. -/
theorem renaming_changes_no_result {a b : Expr} (hf : Set.InjOn f (a.names ∪ b.names)) :
    equivalent (a.rename f) (b.rename f) = equivalent a b ∧
    (a.rename f).simplify = a.simplify.rename f ∧
    ∃ d, a.toDnf = .ok d ∧ (a.rename f).toDnf = .ok (d.rename f) := by
  have ha := hf.mono (Set.subset_union_left (t := b.names))
  obtain ⟨d, hd⟩ := exists_distribute_of_isNnf (isNnf_simplify (isNnf_toNnf a))
  refine ⟨?_, simplify_rename f ha, d, hd, toDnf_rename f ha hd⟩
  rw [rename_eq_relabel, rename_eq_relabel]
  exact equivalent_relabel false hf

/-- Two hidden tautologies that are told apart are told apart after `p` and `s` have changed
places. -/
theorem hiddenTautologies_told_apart_renamed : ∃ p q r s : Name,
    Set.InjOn (Equiv.swap p s) ((hiddenTautology p q).names ∪ (hiddenTautology r s).names) ∧
      equivalent (hiddenTautology p q) (hiddenTautology r s) = false ∧
      equivalent (hiddenTautology s q) (hiddenTautology r p) = false := by
  let p : Name := ⟨"p", by decide⟩
  let q : Name := ⟨"q", by decide⟩
  let r : Name := ⟨"r", by decide⟩
  let s : Name := ⟨"s", by decide⟩
  have hinj : Set.InjOn (Equiv.swap p s)
      ((hiddenTautology p q).names ∪ (hiddenTautology r s).names) :=
    (Equiv.swap p s).injective.injOn
  have hfalse : equivalent (hiddenTautology p q) (hiddenTautology r s) = false :=
    equivalent_hiddenTautology (by decide) (by decide) (by decide) (by decide)
  have hsame := (renaming_changes_no_result (Equiv.swap p s) hinj).1
  have hleft : (hiddenTautology p q).rename (Equiv.swap p s) = hiddenTautology s q := by decide
  have hright : (hiddenTautology r s).rename (Equiv.swap p s) = hiddenTautology r p := by decide
  rw [hleft, hright, hfalse] at hsame
  exact ⟨p, q, r, s, hinj, hfalse, hsame⟩

end Expr

end Propositional
