import Propositional.Proofs.Simplify.Commutation

/-!
# What simplification leaves

The check answers wrongly only where simplification leaves variables on both sides and none in
common. So two formulas with one truth function pass it if they share a variable that is left, or if
nothing is left of one of them. What is left of a joined formula is read off its operands: with a
left operand of which something is left, either the whole is the absorbing constant or all of it
stays; with such a right operand, the whole is the absorbing constant or some of it stays.

Results:
* `equivalent_of_shared`, `equivalent_of_kept_subset`, `exists_mem_kept_of_equivalent`: passing the
  check, in terms of `kept`.
* `simplify_bin_neutral_left`, `simplify_bin_absorbing_left` and their right-hand versions: operands
  of which nothing is left.
* `simplify_bin_left`, `simplify_bin_right`: operands of which something is left.
* `kept_not`, `kept_negate`, `kept_nnfOf`, `kept_simplify`: what does not change the variables that
  are left.
-/

namespace Propositional

namespace Expr

/-- The variables that simplification leaves. -/
def kept (e : Expr) : Vocabulary :=
  e.simplify.vocabulary

@[simp] theorem kept_const (b : Bool) : (const b).kept = [] := by
  rw [kept, simplify_const, vocabulary_const]

@[simp] theorem kept_not (e : Expr) : (not e).kept = e.kept := by
  rw [kept, simplify_not, vocabulary_negateSimplified, kept]

@[simp] theorem kept_simplify (e : Expr) : e.simplify.kept = e.kept := by
  rw [kept, simplify_simplify, kept]

@[simp] theorem kept_negate (e : Expr) : e.negate.kept = e.kept :=
  vocabulary_simplify_negate e

@[simp] theorem kept_nnfOf (positive : Bool) (e : Expr) : (e.nnfOf positive).kept = e.kept :=
  vocabulary_simplify_nnfOf positive e

theorem kept_congr {a b : Expr} (h : a.simplify = b.simplify) : a.kept = b.kept := by
  rw [kept, h, kept]

theorem kept_eq_nil_of_simplify_eq {e : Expr} {b : Bool} (h : e.simplify = const b) :
    e.kept = [] := by
  rw [kept, h, vocabulary_const]

/-- A formula of which nothing is left is simplified to one of the two constants. -/
theorem simplify_eq_of_kept_eq_nil {e : Expr} (h : e.kept = []) (o : Connective) :
    e.simplify = const o.neutral ∨ e.simplify = const o.absorbing := by
  obtain ⟨b, hb⟩ := simplify_eq_const h
  rw [hb, Connective.absorbing_eq]
  cases b <;> cases o.neutral <;> simp

/-! ## Passing the check -/

/-- Two formulas with one truth function pass the check if they share a variable that is left, or
if nothing is left of one of them. -/
theorem equivalent_of_shared {a b : Expr} (ht : ∀ v, a.truth v = b.truth v)
    (h : a.kept ≠ [] → b.kept ≠ [] → ∃ x ∈ a.kept, x ∈ b.kept) : equivalent a b = true := by
  refine (equivalent_iff_truth a b).mpr ⟨ht, fun ⟨ha, hb, hd⟩ => ?_⟩
  obtain ⟨x, hxa, hxb⟩ := h ha hb
  exact hd x hxa hxb

/-- A formula passes the check against another one with its truth function if nothing is left of it
that is not left of the other. -/
theorem equivalent_of_kept_subset {a b : Expr} (ht : ∀ v, a.truth v = b.truth v)
    (h : ∀ x ∈ a.kept, x ∈ b.kept) : equivalent a b = true := by
  refine equivalent_of_shared ht fun ha _ => ?_
  obtain ⟨x, hx⟩ := List.exists_mem_of_ne_nil _ ha
  exact ⟨x, hx, h x hx⟩

/-- Formulas with one truth function that are simplified to the same formula pass the check. -/
theorem equivalent_of_simplify_eq {a b : Expr} (ht : ∀ v, a.truth v = b.truth v)
    (h : a.simplify = b.simplify) : equivalent a b = true :=
  equivalent_of_kept_subset ht fun x hx => by rwa [← kept_congr h]

/-- Formulas that pass the check share a variable that is left, if any is. -/
theorem exists_mem_kept_of_equivalent {a b : Expr} (h : equivalent a b = true)
    (ha : a.kept ≠ []) (hb : b.kept ≠ []) : ∃ x ∈ a.kept, x ∈ b.kept := by
  have hapart := ((equivalent_iff_truth a b).mp h).2
  by_contra hnone
  exact hapart ⟨ha, hb, fun x hxa hxb => hnone ⟨x, hxa, hxb⟩⟩

/-! ## What is left of a joined formula -/

theorem simplify_bin_neutral_left {o : Connective} {a : Expr} (b : Expr)
    (h : a.simplify = const o.neutral) : (bin o a b).simplify = b.simplify := by
  rw [simplify_bin, h]
  unfold joinSimplified absorb?
  by_cases hb : b.simplify = const o.neutral
  · rw [if_pos hb, hb]
  · rw [if_neg hb, if_pos rfl]

theorem simplify_bin_neutral_right {o : Connective} {b : Expr} (a : Expr)
    (h : b.simplify = const o.neutral) : (bin o a b).simplify = a.simplify := by
  rw [simplify_bin, h]
  unfold joinSimplified absorb?
  rw [if_pos rfl]

theorem simplify_bin_absorbing_left {o : Connective} {a : Expr} (b : Expr)
    (h : a.simplify = const o.absorbing) : (bin o a b).simplify = const o.absorbing := by
  rw [simplify_bin, h]
  have hne : const o.absorbing ≠ const o.neutral := by cases o <;> decide
  unfold joinSimplified absorb?
  by_cases hb : b.simplify = const o.neutral
  · rw [if_pos hb]
  · rw [if_neg hb, if_neg hne, if_pos (Or.inl rfl)]

theorem simplify_bin_absorbing_right {o : Connective} {b : Expr} (a : Expr)
    (h : b.simplify = const o.absorbing) : (bin o a b).simplify = const o.absorbing := by
  rw [simplify_bin, h]
  have hne : const o.absorbing ≠ const o.neutral := by cases o <;> decide
  unfold joinSimplified absorb?
  by_cases ha : a.simplify = const o.neutral
  · rw [if_neg hne, if_pos ha]
  · rw [if_neg hne, if_neg ha, if_pos (Or.inr rfl)]

/-- **A left operand of which something is left stays as a whole**, unless all is absorbed. -/
theorem simplify_bin_left (o : Connective) {a : Expr} (b : Expr) (ha : a.kept ≠ []) :
    (bin o a b).simplify = const o.absorbing ∨ ∀ x ∈ a.kept, x ∈ (bin o a b).kept := by
  rw [kept, kept]
  have hj := joined_simplify o a b
  generalize (bin o a b).simplify = s at hj ⊢
  cases hj with
  | neutralRight | same => exact Or.inr fun x hx => hx
  | neutralLeft h => exact absurd (kept_eq_nil_of_simplify_eq h) ha
  | absorbing | opposite => exact Or.inl rfl
  | kept => exact Or.inr fun x hx => mem_vocabulary_bin.mpr (Or.inl hx)

/-- **Of a right operand of which something is left a variable stays**, unless all is absorbed: it
is dropped only for a left operand that is found equivalent. -/
theorem simplify_bin_right (o : Connective) (a : Expr) {b : Expr} (hb : b.kept ≠ []) :
    (bin o a b).simplify = const o.absorbing ∨ ∃ x ∈ b.kept, x ∈ (bin o a b).kept := by
  obtain ⟨x, hx⟩ := List.exists_mem_of_ne_nil _ hb
  rw [kept, kept]
  have hj := joined_simplify o a b
  generalize (bin o a b).simplify = s at hj ⊢
  cases hj with
  | neutralRight h => exact absurd (kept_eq_nil_of_simplify_eq h) hb
  | neutralLeft => exact Or.inr ⟨x, hx, hx⟩
  | absorbing | opposite => exact Or.inl rfl
  | same hl _ hs =>
    have ha : a.kept ≠ [] := fun h => (simplify_eq_const h).elim hl
    obtain ⟨y, hya, hyb⟩ := exists_mem_kept_of_equivalent hs (by rwa [kept_simplify])
      (by rwa [kept_simplify])
    rw [kept_simplify] at hya hyb
    exact Or.inr ⟨y, hyb, hya⟩
  | kept => exact Or.inr ⟨x, hx, mem_vocabulary_bin.mpr (Or.inr hx)⟩

theorem mem_kept_left {o : Connective} {a b : Expr} (ha : a.kept ≠ [])
    (h : (bin o a b).kept ≠ []) : ∀ x ∈ a.kept, x ∈ (bin o a b).kept :=
  (simplify_bin_left o b ha).resolve_left fun habs => h (kept_eq_nil_of_simplify_eq habs)

theorem exists_mem_kept_right {o : Connective} {a b : Expr} (hb : b.kept ≠ [])
    (h : (bin o a b).kept ≠ []) : ∃ x ∈ b.kept, x ∈ (bin o a b).kept :=
  (simplify_bin_right o a hb).resolve_left fun habs => h (kept_eq_nil_of_simplify_eq habs)

/-- What absorbs all for one connective changes nothing for its dual. -/
theorem simplify_dual_of_absorbing {o : Connective} {a : Expr} (b : Expr)
    (h : a.simplify = const o.absorbing) : (bin o.dual a b).simplify = b.simplify :=
  simplify_bin_neutral_left b (by rw [h, Connective.neutral_dual, Connective.absorbing_eq])

/-- What changes nothing for one connective absorbs all for its dual. -/
theorem simplify_dual_of_neutral {o : Connective} {e : Expr} (h : e.simplify = const o.neutral) :
    e.simplify = const o.dual.absorbing := by
  rw [h, Connective.absorbing_dual, Connective.absorbing_eq, Bool.not_not]

theorem simplify_eq_of_absorbing_dual {o : Connective} {e : Expr}
    (h : e.simplify = const o.dual.absorbing) : e.simplify = const o.neutral := by
  rw [h, Connective.absorbing_dual, Connective.absorbing_eq, Bool.not_not]

end Expr

end Propositional
