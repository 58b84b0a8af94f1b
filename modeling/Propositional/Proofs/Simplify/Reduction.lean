import Propositional.Proofs.Simplify.FixedPoint
import Propositional.Proofs.Simplify.Kept

/-!
# What simplification is sure to reduce

Simplification does not recognise every tautology, and the check that its rules ask may miss that
two operands are equivalent. Some things are never missed, whatever the formula. The result has no
more nodes and no longer branches, holds no constant unless it is one, and negates no negation: this
does not depend on what the check answers. Over one variable the check is exact, so all that is left
is a constant or a literal. And a formula joined with itself or with its negation is always
recognised: the check is asked about the simplified operands only, but the same variables are left
of both, so it is not cut short.

Results:
* `CountsParts.simplify_le`: nothing grows, in size, in depth or counted in any other way that does
  not count parts higher than the whole.
* `isReduced_simplify`, `isConstantFree_iff_forall_subformula`: what does not occur in the result.
* `simplify_folds`: these together, with the consequence for formulas without variables.
* `simplify_eq_iff_logicallyEquivalent`, `simplify_over_one_variable`: over one variable the result
  is one of four formulas, the same one for equivalent formulas.
* `simplify_bin_opposite`, `simplify_bin_self`: when the rules for opposite and for equal operands
  are sure to apply.
* `complements_and_copies_recognised`: so they apply to every formula, joined with its negation or
  with itself.
-/

namespace Propositional

namespace Expr

/-! ## Size and depth -/

/-- A way of counting in formulas that counts no part higher than the whole. -/
structure CountsParts (count : Expr → Nat) : Prop where
  /-- Nothing counts less than a constant. -/
  const_le : ∀ b e, count (const b) ≤ count e
  /-- The operand of a negation counts no more than the negation. -/
  le_not : ∀ e, count e ≤ count (not e)
  /-- The left operand of a connective counts no more than both joined. -/
  le_left : ∀ c l r, count l ≤ count (bin c l r)
  /-- Nor does the right one. -/
  le_right : ∀ c l r, count r ≤ count (bin c l r)
  /-- With a lower operand a negation counts no more. -/
  not_le_not : ∀ {s e}, count s ≤ count e → count (not s) ≤ count (not e)
  /-- With two lower operands a joined formula counts no more. -/
  bin_le_bin : ∀ {c l r l' r'}, count l' ≤ count l → count r' ≤ count r →
    count (bin c l' r') ≤ count (bin c l r)

theorem countsParts_size : CountsParts size where
  const_le _ e := e.size_pos
  le_not e := Nat.le_add_left e.size 1
  le_left c l r := by rw [size]; omega
  le_right c l r := by rw [size]; omega
  not_le_not h := Nat.add_le_add_left h 1
  bin_le_bin hl hr := by rw [size, size]; omega

theorem countsParts_depth : CountsParts depth where
  const_le _ e := e.depth_pos
  le_not e := Nat.le_add_left e.depth 1
  le_left c l r := by rw [depth]; omega
  le_right c l r := by rw [depth]; omega
  not_le_not h := Nat.add_le_add_left h 1
  bin_le_bin hl hr := by rw [depth, depth]; omega

namespace CountsParts

variable {count : Expr → Nat}

theorem negateSimplified_le (h : CountsParts count) (e : Expr) :
    count e.negateSimplified ≤ count (not e) := by
  cases e with
  | const b => exact h.const_le _ _
  | not e => exact Nat.le_trans (h.le_not e) (h.le_not (not e))
  | var | bin => exact Nat.le_refl _

theorem joined_le (h : CountsParts count) {c : Connective} {l r s : Expr} (hj : Joined c l r s) :
    count s ≤ count (bin c l r) :=
  hj.keeps (P := fun s => count s ≤ count (bin c l r)) (fun b => h.const_le b _) (h.le_left c l r)
    (h.le_right c l r) (Nat.le_refl _)

/-- **Simplification adds nothing**, whichever way it is counted. -/
theorem simplify_le (h : CountsParts count) (e : Expr) : count e.simplify ≤ count e := by
  induction e with
  | const b => exact Nat.le_of_eq (congrArg count (simplify_const b))
  | var n => exact Nat.le_of_eq (congrArg count (simplify_var n))
  | not e ih =>
    rw [simplify_not]
    exact Nat.le_trans (h.negateSimplified_le e.simplify) (h.not_le_not ih)
  | bin c l r ihl ihr =>
    exact Nat.le_trans (h.joined_le (joined_simplify c l r)) (h.bin_le_bin ihl ihr)

end CountsParts

/-! ## Constants and double negations -/

/-- No rule of simplification applies anywhere in its result. -/
theorem isReduced_simplify (e : Expr) : IsReduced e.simplify :=
  simplify_eq_self_iff.mp (simplify_simplify e)

theorem isConstantFree_iff_forall_subformula {e : Expr} :
    e.isConstantFree = true ↔ ∀ b, ¬ Subformula (const b) e := by
  induction e with
  | const b =>
    refine ⟨fun h => ?_, fun h => absurd .refl (h b)⟩
    cases h
  | var n => simp [isConstantFree, subformula_var]
  | not e ih => simp [isConstantFree, subformula_not, ih]
  | bin c l r ihl ihr => simp [isConstantFree, subformula_bin, ihl, ihr, forall_and]

/-- A formula without variables is simplified to the value that it has. -/
theorem simplify_eq_value {e : Expr} (h : e.vocabulary = []) :
    ∃ b, e.simplify = const b ∧ ∀ i, e.eval i = some b := by
  have hnone : e.simplify.vocabulary = [] := by
    refine List.subset_nil.mp fun x hx => ?_
    rw [← h]
    exact mem_vocabulary_of_simplify hx
  obtain ⟨b, hb⟩ := simplify_eq_const hnone
  refine ⟨b, hb, fun i => eval_eq_some_iff.mpr ⟨fun x hx => ?_, ?_⟩⟩
  · rw [h] at hx
    cases hx
  · rw [← truth_simplify, hb, truth]

/-- **What simplification always folds.** Its result is a constant or holds none, negates no
negation, mentions no variable that the formula does not mention, and is no larger and no deeper
than the formula. So a formula without variables becomes a constant, which is its value. -/
theorem simplify_folds (e : Expr) :
    ((∃ b, e.simplify = const b) ∨ ∀ b, ¬ Subformula (const b) e.simplify) ∧
    (∀ f, ¬ Subformula (not (not f)) e.simplify) ∧
    (∀ x ∈ e.simplify.vocabulary, x ∈ e.vocabulary) ∧
    e.simplify.size ≤ e.size ∧
    e.simplify.depth ≤ e.depth ∧
    (e.vocabulary = [] → ∃ b, e.simplify = const b ∧ ∀ i, e.eval i = some b) := by
  refine ⟨?_, fun f hf => ?_, fun _ => mem_vocabulary_of_simplify, countsParts_size.simplify_le e,
    countsParts_depth.simplify_le e, simplify_eq_value⟩
  · exact (simplify_const_or_isConstantFree e).imp_right isConstantFree_iff_forall_subformula.mp
  · exact isReduced_simplify e _ hf (.notNot f)

/-! ## One variable -/

/-- A constant, a variable or a negated variable is known by its truth function. -/
theorem eq_of_truth_eq_of_one_variable {p : Name} {s t : Expr}
    (hs : (∃ b, s = const b) ∨ s = var p ∨ s = not (var p))
    (ht : (∃ b, t = const b) ∨ t = var p ∨ t = not (var p))
    (h : ∀ v, s.truth v = t.truth v) : s = t := by
  have hfalse := h fun _ => false
  have htrue := h fun _ => true
  rcases hs with ⟨a, rfl⟩ | rfl | rfl <;> rcases ht with ⟨b, rfl⟩ | rfl | rfl <;>
    simp_all [truth]

/-- **Over one variable simplification is canonical**: two formulas are simplified to the same one
iff they are logically equivalent. -/
theorem simplify_eq_iff_logicallyEquivalent {p : Name} {e f : Expr}
    (he : ∀ x ∈ e.vocabulary, x = p.text) (hf : ∀ x ∈ f.vocabulary, x = p.text) :
    e.simplify = f.simplify ↔ LogicallyEquivalent e f := by
  rw [logicallyEquivalent_iff_truth]
  constructor
  · intro h v
    rw [← truth_simplify, h, truth_simplify]
  · intro h
    refine eq_of_truth_eq_of_one_variable
      (simplify_over_name p fun x hx => he x (mem_vocabulary_of_simplify hx))
      (simplify_over_name p fun x hx => hf x (mem_vocabulary_of_simplify hx)) fun v => ?_
    rw [truth_simplify, truth_simplify, h]

/-- **A formula over one variable is reduced completely**, however large it is: to one of the two
constants, the variable or its negation. Which of the four it is depends on its truth function
alone. -/
theorem simplify_over_one_variable (p : Name) {e : Expr} (h : ∀ x ∈ e.vocabulary, x = p.text) :
    (e.simplify = const true ∨ e.simplify = const false ∨ e.simplify = var p ∨
      e.simplify = not (var p)) ∧
    ∀ f : Expr, (∀ x ∈ f.vocabulary, x = p.text) →
      (e.simplify = f.simplify ↔ LogicallyEquivalent e f) := by
  refine ⟨?_, fun f hf => simplify_eq_iff_logicallyEquivalent h hf⟩
  rcases simplify_over_name p fun x hx => h x (mem_vocabulary_of_simplify hx) with
    ⟨b, hb⟩ | hvar | hnot
  · cases b with
    | true => exact Or.inl hb
    | false => exact Or.inr (Or.inl hb)
  · exact Or.inr (Or.inr (Or.inl hvar))
  · exact Or.inr (Or.inr (Or.inr hnot))

/-- `(p | !p) & !(p & p)` is simplified to `!p`. -/
theorem simplify_padded_negation : ∃ p : Name,
    (∀ x ∈ (and (or (var p) (not (var p))) (not (and (var p) (var p)))).vocabulary, x = p.text) ∧
      (and (or (var p) (not (var p))) (not (and (var p) (var p)))).simplify = not (var p) := by
  let p : Name := ⟨"p", by decide⟩
  have hover : ∀ x ∈ (and (or (var p) (not (var p))) (not (and (var p) (var p)))).vocabulary,
      x = p.text := by
    simp
  have hsame : LogicallyEquivalent (and (or (var p) (not (var p))) (not (and (var p) (var p))))
      (not (var p)) := by
    rw [logicallyEquivalent_iff_truth]
    intro v
    cases h : v p.text <;> simp [truth, Connective.apply, h]
  have heq := ((simplify_over_one_variable p hover).2 (not (var p)) (by simp)).mpr hsame
  exact ⟨p, hover, heq.trans (simplify_not_var p)⟩

/-! ## A formula joined with itself or with its negation -/

/-- **Opposite operands of which the same variables are left are recognised.** -/
theorem simplify_bin_opposite (c : Connective) {a b : Expr} (ht : ∀ v, b.truth v = !a.truth v)
    (hk : b.kept = a.kept) : (bin c a b).simplify = const c.absorbing := by
  have hnone : (bin c a b).simplify.vocabulary = [] := by
    have hj := joined_simplify c a b
    generalize (bin c a b).simplify = s at hj ⊢
    cases hj with
    | neutralRight h => exact hk.symm.trans (kept_eq_nil_of_simplify_eq h)
    | neutralLeft h => exact hk.trans (kept_eq_nil_of_simplify_eq h)
    | absorbing | opposite => rfl
    | same _ _ hs =>
      have heq := truth_eq_of_equivalent hs fun _ => false
      rw [truth_simplify, truth_simplify, ht] at heq
      exact ((Bool.eq_not_self _).mp heq).elim
    | kept _ _ _ ho =>
      -- The negated left operand keeps the variables of the right one, so the check passes.
      have hpass : equivalent a.simplify.negate b.simplify = true := by
        refine equivalent_of_kept_subset (fun v => ?_) fun x hx => ?_
        · rw [truth_negate, truth_simplify, truth_simplify, ht]
        · rwa [kept_negate, kept_simplify, ← hk, ← kept_simplify b] at hx
      rw [hpass] at ho
      cases ho
  obtain ⟨value, hvalue⟩ := simplify_eq_const hnone
  have htruth := truth_simplify (fun _ => false) (bin c a b)
  rw [hvalue, truth, truth, ht, Connective.apply_not_self] at htruth
  rw [hvalue, htruth]

/-- **Equal operands are recognised.** -/
theorem simplify_bin_self (c : Connective) (a : Expr) : (bin c a a).simplify = a.simplify := by
  have hj := joined_simplify c a a
  generalize (bin c a a).simplify = s at hj ⊢
  cases hj with
  | neutralRight | neutralLeft | same => rfl
  | absorbing h => exact (h.elim id id).symm
  | opposite _ _ hs | kept _ _ hs =>
    rw [equivalent_self] at hs
    cases hs

/-- **No formula joined with itself or with its negation is missed**, a hidden constant included:
with its negation on either side, or with its De Morgan negation, it becomes the constant that the
law says, and with itself it is simplified like one copy of it. -/
theorem complements_and_copies_recognised (a : Expr) :
    ((or a (not a)).simplify = const true ∧ (or (not a) a).simplify = const true ∧
      (or a a.negate).simplify = const true) ∧
    ((and a (not a)).simplify = const false ∧ (and (not a) a).simplify = const false ∧
      (and a a.negate).simplify = const false) ∧
    (or a a).simplify = a.simplify ∧ (and a a).simplify = a.simplify := by
  have right : ∀ c, (bin c a (not a)).simplify = const c.absorbing := fun c =>
    simplify_bin_opposite c (fun _ => rfl) (kept_not a)
  have left : ∀ c, (bin c (not a) a).simplify = const c.absorbing := fun c =>
    simplify_bin_opposite c (fun v => (Bool.not_not (a.truth v)).symm) (kept_not a).symm
  have deMorgan : ∀ c, (bin c a a.negate).simplify = const c.absorbing := fun c =>
    simplify_bin_opposite c (fun v => truth_negate v a) (kept_negate a)
  exact ⟨⟨right .or, left .or, deMorgan .or⟩, ⟨right .and, left .and, deMorgan .and⟩,
    simplify_bin_self .or a, simplify_bin_self .and a⟩

end Expr

end Propositional
