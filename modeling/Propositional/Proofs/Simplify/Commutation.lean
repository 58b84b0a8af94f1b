import Propositional.Proofs.NormalForm.Negation
import Propositional.Proofs.Simplify.Equivalence

/-!
# What a second pass and a change of polarity do to simplification

The rules for a connective look at their operands only through constants and through two answers
about equivalence. These answers depend on the truth functions and on the variables that are left
(`equivalent_congr`), and neither changes when all negations are pushed down to the variables. So
simplification commutes with negation normal form, again by the induction that follows its calls.

Results:
* `simplify_simplify`: a second pass changes nothing.
* `simplify_nnfOf`: simplification commutes with negation normal form, at either polarity.
* `vocabulary_simplify_nnfOf`, `vocabulary_simplify_negate`: so a formula, its negation normal form
  and its De Morgan negation keep the same variables when they are simplified.
* `simplify_toNnf_comm`: these together, for negation normal form itself.
-/

namespace Propositional

namespace Expr

/-! ## One pass is enough -/

/-- No simplified formula starts with two negations. -/
theorem simplify_ne_not_not (e f : Expr) : e.simplify ≠ not (not f) := by
  induction e generalizing f with
  | const b => rw [simplify_const]; nofun
  | var n => rw [simplify_var]; nofun
  | not e ih =>
    rw [simplify_not]
    cases hs : e.simplify with
    | const | var | bin => nofun
    | not g =>
      rintro rfl
      exact ih _ hs
  | bin c l r ihl ihr =>
    exact (joined_simplify c l r).keeps (P := fun s => s ≠ not (not f)) nofun (ihl f) (ihr f) nofun

/-- The operand of a negation that simplification leaves alone is left alone too. -/
theorem simplify_eq_of_not {e : Expr} (h : (not e).simplify = not e) : e.simplify = e := by
  rw [simplify_not] at h
  cases hs : e.simplify with
  | const b => rw [hs] at h; cases h
  | not g =>
    rw [hs] at h
    have hg : g = not e := h
    rw [hg] at hs
    exact absurd hs (simplify_ne_not_not e e)
  | var | bin =>
    rw [hs] at h
    exact not.inj h

/-- **Simplifying twice is simplifying once.** -/
@[simp] theorem simplify_simplify (e : Expr) : e.simplify.simplify = e.simplify := by
  induction e with
  | const b => rw [simplify_const, simplify_const]
  | var n => rw [simplify_var, simplify_var]
  | not e ih =>
    rw [simplify_not]
    cases hs : e.simplify with
    | const b => exact simplify_const _
    | not g =>
      rw [hs] at ih
      exact simplify_eq_of_not ih
    | var | bin =>
      rw [hs] at ih
      show (not _).simplify = not _
      rw [simplify_not, ih]
      rfl
  | bin c l r ihl ihr =>
    rw [simplify_bin]
    have hj := joined c l.simplify r.simplify
    generalize hs : joinSimplified c l.simplify r.simplify = s at hj
    cases hj with
    | neutralRight | same => exact ihl
    | neutralLeft => exact ihr
    | absorbing | opposite => exact simplify_const _
    | kept => rw [simplify_bin, ihl, ihr, hs]

/-! ## Maps of formulas -/

/-- **Joining commutes with every map of formulas** that carries a connective and the constants over
to another connective and its constants and changes neither of the two answers about equivalence. -/
theorem joinSimplified_map {φ : Expr → Expr} {g : Bool → Bool} {c d : Connective} {l r : Expr}
    (neutral : d.neutral = g c.neutral) (absorbing : d.absorbing = g c.absorbing)
    (hl : ∀ b, φ l = const (g b) ↔ l = const b) (hr : ∀ b, φ r = const (g b) ↔ r = const b)
    (hconst : ∀ b, φ (const b) = const (g b)) (hbin : φ (bin c l r) = bin d (φ l) (φ r))
    (hs : equivalent (φ l) (φ r) = equivalent l r)
    (ho : equivalent (φ l).negate (φ r) = equivalent l.negate r) :
    joinSimplified d (φ l) (φ r) = φ (joinSimplified c l r) := by
  simp only [joinSimplified, absorb?, neutral, absorbing, hl, hr, hs, ho]
  split_ifs <;> simp only [hconst, hbin]

/-! ## Negation normal form -/

theorem nnfOf_negateSimplified (positive : Bool) (e : Expr) :
    e.negateSimplified.nnfOf positive = e.nnfOf (!positive) := by
  cases e with
  | const b => cases positive <;> simp [negateSimplified, nnfOf]
  | not e => rw [negateSimplified, nnfOf, Bool.not_not]
  | var | bin => rfl

theorem isConstantFree_nnfOf (positive : Bool) (e : Expr) :
    (e.nnfOf positive).isConstantFree = e.isConstantFree := by
  induction e generalizing positive with
  | const => rfl
  | var => cases positive <;> rfl
  | not e ih => exact ih _
  | bin c l r ihl ihr => rw [nnfOf, isConstantFree, ihl, ihr, isConstantFree]

/-- A simplified formula becomes a constant in negation normal form only if it is one. -/
theorem nnfOf_simplify_eq_const_iff (positive : Bool) (e : Expr) (b : Bool) :
    e.simplify.nnfOf positive = const (if positive then b else !b) ↔ e.simplify = const b := by
  constructor
  · intro h
    rcases simplify_const_or_isConstantFree e with ⟨d, hd⟩ | hf
    · rw [hd, nnfOf] at h
      rw [hd]
      cases positive <;> simpa using h
    · rw [← isConstantFree_nnfOf positive, h] at hf
      cases hf
  · intro h
    rw [h, nnfOf]

/-- What the check answers depends on the truth functions and on the variables that simplification
leaves. -/
theorem equivalent_congr {a b a' b' : Expr}
    (ht : (∀ v, a.truth v = b.truth v) ↔ ∀ v, a'.truth v = b'.truth v)
    (ha : a.simplify.vocabulary = a'.simplify.vocabulary)
    (hb : b.simplify.vocabulary = b'.simplify.vocabulary) :
    equivalent a b = equivalent a' b' :=
  equivalent_eq_of_iff ht (by rw [Apart, ha, hb, ← Apart])

theorem truth_nnfOf_eq_iff (positive : Bool) (a b : Expr) :
    (∀ v, (a.nnfOf positive).truth v = (b.nnfOf positive).truth v) ↔
      ∀ v, a.truth v = b.truth v := by
  cases positive <;> simp [truth_nnfOf]

/-- Joining commutes with negation normal form where the two answers about equivalence do not
change. -/
theorem joinSimplified_nnfOf (positive : Bool) (c : Connective) (l r : Expr)
    (hs : equivalent (l.simplify.nnfOf positive) (r.simplify.nnfOf positive) =
      equivalent l.simplify r.simplify)
    (ho : equivalent (l.simplify.nnfOf positive).negate (r.simplify.nnfOf positive) =
      equivalent l.simplify.negate r.simplify) :
    joinSimplified (if positive then c else c.dual) (l.simplify.nnfOf positive)
        (r.simplify.nnfOf positive) =
      (joinSimplified c l.simplify r.simplify).nnfOf positive := by
  have neutral : (if positive then c else c.dual).neutral =
      if positive then c.neutral else !c.neutral := by
    cases positive <;> simp
  have absorbing : (if positive then c else c.dual).absorbing =
      if positive then c.absorbing else !c.absorbing := by
    cases positive <;> simp
  exact joinSimplified_map neutral absorbing (nnfOf_simplify_eq_const_iff positive l)
    (nnfOf_simplify_eq_const_iff positive r) (fun _ => rfl) rfl hs ho

/-- Where the two commute, a formula and its De Morgan negation keep the same variables. -/
theorem vocabulary_simplify_negate_of {e : Expr}
    (he : (e.nnfOf false).simplify = e.simplify.nnfOf false)
    (hn : (e.negate.nnfOf true).simplify = e.negate.simplify.nnfOf true) :
    e.negate.simplify.vocabulary = e.simplify.vocabulary := by
  rw [← vocabulary_nnfOf true e.negate.simplify, ← hn, nnfOf_negate, Bool.not_true, he,
    vocabulary_nnfOf]

/-- **Simplification commutes with negation normal form**, for a formula and for its negation. -/
theorem simplify_nnfOf (positive : Bool) (e : Expr) :
    (e.nnfOf positive).simplify = e.simplify.nnfOf positive := by
  induction e using simplify_induction generalizing positive with
  | const b => rw [nnfOf, simplify_const, simplify_const, nnfOf]
  | var n =>
    cases positive with
    | true => exact (simplify_var n).trans (congrArg (nnfOf true) (simplify_var n).symm)
    | false => exact (simplify_not_var n).trans (congrArg (nnfOf false) (simplify_var n).symm)
  | not e ih => rw [nnfOf, ih, simplify_not, nnfOf_negateSimplified]
  | bin c l r ihl ihr ihl' ihr' ihn =>
    have vocabulary_simplify : ∀ {e : Expr}, (∀ p, (e.nnfOf p).simplify = e.simplify.nnfOf p) →
        ∀ p, (e.nnfOf p).simplify.vocabulary = e.simplify.vocabulary := by
      intro e he p
      rw [he, vocabulary_nnfOf]
    have hl := vocabulary_simplify ihl'
    have hr := vocabulary_simplify ihr'
    have hs := equivalent_congr (truth_nnfOf_eq_iff positive l.simplify r.simplify)
      (hl positive) (hr positive)
    have ho : equivalent (l.simplify.nnfOf positive).negate (r.simplify.nnfOf positive) =
        equivalent l.simplify.negate r.simplify := by
      refine equivalent_congr ?_ ?_ (hr positive)
      · cases positive <;> simp [truth_nnfOf]
      · rw [negate_nnfOf, hl, vocabulary_simplify_negate_of (ihl' false) (ihn true)]
    rw [nnfOf, simplify_bin, ihl, ihr, joinSimplified_nnfOf positive c l r hs ho, simplify_bin]

@[simp] theorem vocabulary_simplify_nnfOf (positive : Bool) (e : Expr) :
    (e.nnfOf positive).simplify.vocabulary = e.simplify.vocabulary := by
  rw [simplify_nnfOf, vocabulary_nnfOf]

@[simp] theorem vocabulary_simplify_negate (e : Expr) :
    e.negate.simplify.vocabulary = e.simplify.vocabulary :=
  vocabulary_simplify_negate_of (simplify_nnfOf false e) (simplify_nnfOf true e.negate)

/-- **It does not matter whether a formula is simplified before or after it is put into negation
normal form**: the result is the same tree. So what is left of a formula, of its negation normal
form and of its De Morgan negation are the same variables. -/
theorem simplify_toNnf_comm (e : Expr) :
    e.toNnf.simplify = e.simplify.toNnf ∧
      e.toNnf.simplify.vocabulary = e.simplify.vocabulary ∧
      e.negate.simplify.vocabulary = e.simplify.vocabulary := by
  refine ⟨?_, ?_, vocabulary_simplify_negate e⟩
  · exact simplify_nnfOf true e
  · exact vocabulary_simplify_nnfOf true e

end Expr

end Propositional
