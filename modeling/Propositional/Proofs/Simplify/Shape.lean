import Propositional.Expr.Shape
import Propositional.Proofs.Simplify.Meaning

/-!
# The shape of simplified formulas

Results:
* `isNnf_simplify`: simplifying stays in negation normal form.
* `simplify_const_or_isConstantFree`: a simplified formula is a constant or holds none, so one
  without variables is a constant (`simplify_eq_const`).
* `simplify_over_name`: a simplified formula over one variable is a constant or a literal, so it
  hides no constant (`two_le_length_vocabulary_of_truth_eq`).
* `simplify_bin_of_truth_ne`: two simplified operands that are neither equivalent nor opposite are
  kept.
-/

namespace Propositional

namespace Expr

@[simp] theorem simplify_not_var (n : Name) : simplify (not (var n)) = not (var n) := by
  rw [simplify_not, simplify_var]
  rfl

/-! ## Negation normal form -/

/-- **Simplification stays in negation normal form.** -/
theorem isNnf_simplify {e : Expr} (h : e.isNnf = true) : e.simplify.isNnf = true := by
  induction e with
  | const => rw [simplify_const, isNnf]
  | var => rw [simplify_var, isNnf]
  | not e =>
    cases e with
    | var n => rw [simplify_not_var, isNnf]
    | const | not | bin => cases h
  | bin c l r ihl ihr =>
    rw [isNnf, Bool.and_eq_true] at h
    refine (joined_simplify c l r).keeps (P := fun s => s.isNnf = true) (fun _ => rfl) (ihl h.1)
      (ihr h.2) ?_
    rw [isNnf, ihl h.1, ihr h.2, Bool.and_self]

/-! ## Constants -/

/-- No constant occurs in the formula. -/
def isConstantFree : Expr → Bool
  | const _ => false
  | var _ => true
  | not e => e.isConstantFree
  | bin _ l r => l.isConstantFree && r.isConstantFree

theorem vocabulary_ne_nil_of_isConstantFree {e : Expr} (h : e.isConstantFree = true) :
    e.vocabulary ≠ [] := by
  induction e with
  | const => cases h
  | var n => exact List.ne_nil_of_mem (mem_vocabulary_var.mpr rfl)
  | not e ih => exact ih h
  | bin c l r ihl _ =>
    rw [isConstantFree, Bool.and_eq_true] at h
    obtain ⟨x, hx⟩ := List.exists_mem_of_ne_nil _ (ihl h.1)
    exact List.ne_nil_of_mem (mem_vocabulary_bin.mpr (Or.inl hx))

theorem const_or_isConstantFree_of_joined {c : Connective} {l r s : Expr} (h : Joined c l r s)
    (hl : (∃ b, l = const b) ∨ l.isConstantFree = true)
    (hr : (∃ b, r = const b) ∨ r.isConstantFree = true) :
    (∃ b, s = const b) ∨ s.isConstantFree = true := by
  cases h with
  | neutralRight | same => exact hl
  | neutralLeft => exact hr
  | absorbing | opposite => exact Or.inl ⟨_, rfl⟩
  | kept hnl hnr =>
    have hl' := hl.resolve_left fun ⟨b, hb⟩ => hnl b hb
    have hr' := hr.resolve_left fun ⟨b, hb⟩ => hnr b hb
    exact Or.inr (by rw [isConstantFree, hl', hr', Bool.and_self])

/-- **A simplified formula is a constant or holds none.** -/
theorem simplify_const_or_isConstantFree (e : Expr) :
    (∃ b, e.simplify = const b) ∨ e.simplify.isConstantFree = true := by
  induction e with
  | const b => exact Or.inl ⟨b, simplify_const b⟩
  | var n => exact Or.inr (by rw [simplify_var, isConstantFree])
  | not e ih =>
    rw [simplify_not]
    rcases ih with ⟨b, hb⟩ | hf
    · exact Or.inl ⟨!b, by rw [hb]; rfl⟩
    · refine Or.inr ?_
      cases hs : e.simplify with
      | const b => rw [hs] at hf; cases hf
      | var | not | bin => rw [hs] at hf; exact hf
  | bin c l r ihl ihr =>
    exact const_or_isConstantFree_of_joined (joined_simplify c l r) ihl ihr

/-- A simplified formula without variables is a constant. -/
theorem simplify_eq_const {e : Expr} (h : e.simplify.vocabulary = []) :
    ∃ b, e.simplify = const b :=
  (simplify_const_or_isConstantFree e).resolve_right fun hf =>
    vocabulary_ne_nil_of_isConstantFree hf h

/-! ## One variable -/

/-- **A simplified formula over one variable is a constant, the variable or its negation.** -/
theorem simplify_over_name (n : Name) {e : Expr} (h : ∀ x ∈ e.simplify.vocabulary, x = n.text) :
    (∃ b, e.simplify = const b) ∨ e.simplify = var n ∨ e.simplify = not (var n) := by
  induction e with
  | const b => exact Or.inl ⟨b, simplify_const b⟩
  | var m =>
    rw [simplify_var] at h ⊢
    rw [Name.ext (h m.text (mem_vocabulary_var.mpr rfl))]
    exact Or.inr (Or.inl rfl)
  | not e ih =>
    rw [simplify_not, vocabulary_negateSimplified] at h
    rw [simplify_not]
    rcases ih h with ⟨b, hs⟩ | hs | hs
    · exact Or.inl ⟨!b, by rw [hs]; rfl⟩
    · exact Or.inr (Or.inr (by rw [hs]; rfl))
    · exact Or.inr (Or.inl (by rw [hs]; rfl))
  | bin c l r ihl ihr =>
    have hj := joined_simplify c l r
    generalize (bin c l r).simplify = s at hj h ⊢
    cases hj with
    | neutralRight | same => exact ihl h
    | neutralLeft => exact ihr h
    | absorbing | opposite => exact Or.inl ⟨_, rfl⟩
    | kept hnl hnr hs ho =>
      -- Both operands are literals of the one variable, so one of the two rules would apply.
      have hl := (ihl fun x hx => h x (mem_vocabulary_bin.mpr (Or.inl hx))).resolve_left
        fun ⟨b, hb⟩ => hnl b hb
      have hr := (ihr fun x hx => h x (mem_vocabulary_bin.mpr (Or.inr hx))).resolve_left
        fun ⟨b, hb⟩ => hnr b hb
      have same : l.simplify ≠ r.simplify := by
        intro heq
        rw [heq, equivalent_self] at hs
        cases hs
      have opposite : l.simplify.negate ≠ r.simplify := by
        intro heq
        rw [heq, equivalent_self] at ho
        cases ho
      rcases hl with hl | hl <;> rcases hr with hr | hr
      · exact absurd (hl.trans hr.symm) same
      · exact absurd (by rw [hl, hr, negate]) opposite
      · exact absurd (by rw [hl, hr, negate]) opposite
      · exact absurd (hl.trans hr.symm) same

/-- **A hidden constant needs two variables**: a simplified formula whose truth function is constant
has none, or at least two. -/
theorem two_le_length_vocabulary_of_truth_eq {e : Expr} (hne : e.simplify.vocabulary ≠ [])
    (h : ∀ v w, e.simplify.truth v = e.simplify.truth w) : 2 ≤ e.simplify.vocabulary.length := by
  match hvoc : e.simplify.vocabulary with
  | [] => exact absurd hvoc hne
  | [x] =>
    obtain ⟨n, rfl⟩ := exists_name_of_mem (e := e.simplify) (by rw [hvoc]; exact List.mem_cons_self)
    have hover := simplify_over_name n (e := e) fun y hy => by
      rw [hvoc] at hy
      exact List.mem_singleton.mp hy
    have hconst := h (fun _ => true) (fun _ => false)
    rcases hover with ⟨b, hs⟩ | hs | hs
    · exact absurd (by rw [hs, vocabulary_const]) hne
    · rw [hs] at hconst; cases hconst
    · rw [hs] at hconst; cases hconst
  | _ :: _ :: _ => exact Nat.le_add_left 2 _

/-! ## Operands that are kept -/

/-- Two simplified operands are kept if one valuation tells them apart and another one does not. -/
theorem simplify_bin_of_truth_ne {c : Connective} {l r : Expr} (hl : l.simplify = l)
    (hr : r.simplify = r) (hcl : l.isConstantFree = true) (hcr : r.isConstantFree = true)
    (v w : Valuation) (hv : l.truth v ≠ r.truth v) (hw : l.truth w = r.truth w) :
    (bin c l r).simplify = bin c l r := by
  have hneg : l.negate.truth w ≠ r.truth w := by
    rw [truth_negate, hw]
    cases r.truth w <;> decide
  rw [simplify_bin, hl, hr]
  have hj := joined c l r
  generalize joinSimplified c l r = s at hj ⊢
  cases hj with
  | kept => rfl
  | neutralRight h => rw [h] at hcr; cases hcr
  | neutralLeft h => rw [h] at hcl; cases hcl
  | absorbing h =>
    rcases h with h | h
    · rw [h] at hcl; cases hcl
    · rw [h] at hcr; cases hcr
  | same _ _ hs => exact absurd (truth_eq_of_equivalent hs v) hv
  | opposite _ _ _ ho => exact absurd (truth_eq_of_equivalent ho w) hneg

end Expr

end Propositional
