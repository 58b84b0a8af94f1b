import Mathlib.Data.List.Perm.Subperm
import Propositional.Proofs.Simplify.Shape

/-!
# How exact the equivalence check is

Two formulas whose simplified forms have variables but none in common are told apart without looking
further. That is right unless both are constant in disguise, which takes two variables on each side.

Results:
* `equivalent_iff_truth`: the check passes iff the truth functions are the same and the shortcut
  does not apply.
* `constantly_of_apart`, `two_le_length_of_apart`: where the shortcut is wrong, both formulas are
  tautologies or both are unsatisfiable, and each has two variables left.
* `equivalent_hiddenTautology`: the shortcut does go wrong, on tautologies that no rule recognises.
* `equivalent_iff_logicallyEquivalent`: all of it, with the consequence that the check is exact on
  formulas with at most three variables between them.
-/

namespace Propositional

namespace Vocabulary

theorem nodup_of_pairwise {xs : Vocabulary} (h : xs.Pairwise (· < ·)) : xs.Nodup := by
  refine h.imp fun hlt => ?_
  rintro rfl
  exact String.lt_irrefl _ hlt

/-- Two vocabularies without a common text fit into one that holds both side by side. -/
theorem length_add_length_le {xs ys zs : Vocabulary} (hx : xs.Nodup) (hy : ys.Nodup)
    (hd : ∀ x ∈ xs, x ∉ ys) (hxz : ∀ x ∈ xs, x ∈ zs) (hyz : ∀ y ∈ ys, y ∈ zs) :
    xs.length + ys.length ≤ zs.length := by
  have hnodup : (xs ++ ys).Nodup :=
    List.nodup_append.mpr ⟨hx, hy, fun x hxs y hys heq => hd x hxs (heq ▸ hys)⟩
  have hsub : xs ++ ys ⊆ zs := fun x hmem => (List.mem_append.mp hmem).elim (hxz x) (hyz x)
  rw [← List.length_append]
  exact (List.subperm_of_subset hnodup hsub).length_le

end Vocabulary

namespace Expr

theorem nodup_vocabulary (e : Expr) : e.vocabulary.Nodup :=
  Vocabulary.nodup_of_pairwise (Vocabulary.pairwise_ofList _)

/-- **The check, in terms of truth functions.** -/
theorem equivalent_iff_truth (a b : Expr) :
    equivalent a b = true ↔ (∀ v, a.truth v = b.truth v) ∧ ¬ Apart a.simplify b.simplify := by
  have htruth : (∀ v, a.simplify.truth v = b.simplify.truth v) ↔ ∀ v, a.truth v = b.truth v := by
    simp only [truth_simplify]
  rw [equivalent, verdict_holds_iff, htruth]
  constructor
  · exact fun ⟨_, hapart, ht⟩ => ⟨ht, hapart⟩
  · rintro ⟨ht, hapart⟩
    refine ⟨fun ha hb => ?_, hapart, ht⟩
    obtain ⟨p, hp⟩ := simplify_eq_const ha
    obtain ⟨q, hq⟩ := simplify_eq_const hb
    have hpq := htruth.mpr ht fun _ => false
    rw [hp, hq] at hpq ⊢
    exact congrArg const hpq

/-- What the check answers depends on the truth functions and on whether the shortcut applies. -/
theorem equivalent_eq_of_iff {a b a' b' : Expr}
    (ht : (∀ v, a.truth v = b.truth v) ↔ ∀ v, a'.truth v = b'.truth v)
    (hd : Apart a.simplify b.simplify ↔ Apart a'.simplify b'.simplify) :
    equivalent a b = equivalent a' b' := by
  rw [Bool.eq_iff_iff, equivalent_iff_truth, equivalent_iff_truth, ht, hd]

/-- Formulas with one truth function that the shortcut tells apart have constant truth functions. -/
theorem truth_eq_of_apart {a b : Expr} (h : Apart a.simplify b.simplify)
    (ht : ∀ v, a.truth v = b.truth v) (v w : Valuation) : a.truth v = b.truth w := by
  rw [← truth_simplify v a, ← truth_simplify w b]
  exact h.truth_eq (fun u => by rw [truth_simplify, truth_simplify, ht]) v w

/-- Where the shortcut is wrong, both formulas are tautologies or both are unsatisfiable. -/
theorem constantly_of_apart {a b : Expr} (h : Apart a.simplify b.simplify)
    (ht : ∀ v, a.truth v = b.truth v) : ∃ value, Constantly value a ∧ Constantly value b := by
  have hall := truth_eq_of_apart h ht
  refine ⟨a.truth fun _ => false, constantly_iff_truth.mpr fun v => ?_,
    constantly_iff_truth.mpr fun v => (hall _ v).symm⟩
  rw [hall v v, hall _ v]

/-- Where the shortcut is wrong, two variables are left on each side. -/
theorem two_le_length_of_apart {a b : Expr} (h : Apart a.simplify b.simplify)
    (ht : ∀ v, a.truth v = b.truth v) :
    2 ≤ a.simplify.vocabulary.length ∧ 2 ≤ b.simplify.vocabulary.length := by
  have hall := truth_eq_of_apart h ht
  refine ⟨two_le_length_vocabulary_of_truth_eq h.1 fun v w => ?_,
    two_le_length_vocabulary_of_truth_eq h.2.1 fun v w => ?_⟩
  · rw [truth_simplify, truth_simplify, hall v v, hall w v]
  · rw [truth_simplify, truth_simplify, ← hall v v, hall v w]

/-- Formulas with at most three variables between them are never wrongly told apart. -/
theorem not_apart_of_length_le {a b : Expr}
    (hlen : (Vocabulary.union a.vocabulary b.vocabulary).length ≤ 3)
    (ht : ∀ v, a.truth v = b.truth v) : ¬ Apart a.simplify b.simplify := by
  intro h
  obtain ⟨ha, hb⟩ := two_le_length_of_apart h ht
  have hle := Vocabulary.length_add_length_le (nodup_vocabulary a.simplify)
    (nodup_vocabulary b.simplify) h.2.2
    (fun _ hx => Vocabulary.mem_union.mpr (Or.inl (mem_vocabulary_of_simplify hx)))
    (fun _ hx => Vocabulary.mem_union.mpr (Or.inr (mem_vocabulary_of_simplify hx)))
  omega

/-! ## Constants in disguise -/

/-- The formula `(x | y) | (!x | !y)`, a tautology that no rule recognises. -/
def hiddenTautology (x y : Name) : Expr :=
  or (or (var x) (var y)) (or (not (var x)) (not (var y)))

theorem truth_hiddenTautology (v : Valuation) (x y : Name) :
    (hiddenTautology x y).truth v = true := by
  simp only [hiddenTautology, truth, Connective.apply]
  cases v x.text <;> cases v y.text <;> rfl

/-- Two variables can have different values. -/
theorem exists_separating {x y : Name} (h : x ≠ y) :
    ∃ v : Valuation, v x.text = true ∧ v y.text = false :=
  ⟨fun t => decide (t = x.text), decide_eq_true rfl,
    decide_eq_false fun heq => h (Name.ext heq.symm)⟩

theorem simplify_hiddenTautology {x y : Name} (h : x ≠ y) :
    (hiddenTautology x y).simplify = hiddenTautology x y := by
  -- One valuation gives the two variables different values, the other one the same.
  obtain ⟨v, hx, hy⟩ := exists_separating h
  have positive : (or (var x) (var y)).simplify = or (var x) (var y) :=
    simplify_bin_of_truth_ne (simplify_var x) (simplify_var y) rfl rfl v (fun _ => true)
      (by simp [truth, hx, hy]) rfl
  have negative : (or (not (var x)) (not (var y))).simplify = or (not (var x)) (not (var y)) :=
    simplify_bin_of_truth_ne (simplify_not_var x) (simplify_not_var y) rfl rfl v (fun _ => true)
      (by simp [truth, hx, hy]) rfl
  exact simplify_bin_of_truth_ne positive negative rfl rfl (fun _ => true) v
    (by simp [truth, Connective.apply]) (by simp [truth, Connective.apply, hx, hy])

theorem mem_vocabulary_hiddenTautology {t : String} {x y : Name} :
    t ∈ (hiddenTautology x y).vocabulary ↔ t = x.text ∨ t = y.text := by
  simp [hiddenTautology]

theorem logicallyEquivalent_hiddenTautology (x y z w : Name) :
    LogicallyEquivalent (hiddenTautology x y) (hiddenTautology z w) :=
  logicallyEquivalent_iff_truth.mpr fun v => by
    rw [truth_hiddenTautology, truth_hiddenTautology]

/-- Two hidden tautologies over different variables are wrongly told apart. -/
theorem equivalent_hiddenTautology {x y z w : Name} (hxy : x ≠ y) (hzw : z ≠ w)
    (hx : x ≠ z ∧ x ≠ w) (hy : y ≠ z ∧ y ≠ w) :
    equivalent (hiddenTautology x y) (hiddenTautology z w) = false := by
  rw [← Bool.not_eq_true, equivalent_iff_truth, simplify_hiddenTautology hxy,
    simplify_hiddenTautology hzw]
  rintro ⟨-, hapart⟩
  refine hapart ⟨List.ne_nil_of_mem (mem_vocabulary_hiddenTautology.mpr (Or.inl rfl)),
    List.ne_nil_of_mem (mem_vocabulary_hiddenTautology.mpr (Or.inl rfl)), fun t ht ht' => ?_⟩
  rw [mem_vocabulary_hiddenTautology] at ht ht'
  rcases ht with rfl | rfl <;> rcases ht' with heq | heq
  · exact hx.1 (Name.ext heq)
  · exact hx.2 (Name.ext heq)
  · exact hy.1 (Name.ext heq)
  · exact hy.2 (Name.ext heq)

/-! ## The check and logical equivalence -/

/-- **The check is logical equivalence but for the shortcut.** It passes iff the formulas are
logically equivalent and their simplified forms do not both have variables and share none. A
wrong negative answer needs two tautologies or two unsatisfiable formulas, each with two variables
left; so there is none for formulas with at most three variables between them. -/
theorem equivalent_iff_logicallyEquivalent (a b : Expr) :
    (equivalent a b = true ↔ LogicallyEquivalent a b ∧ ¬ Apart a.simplify b.simplify) ∧
    (LogicallyEquivalent a b → equivalent a b = false →
      (∃ value, Constantly value a ∧ Constantly value b) ∧
        2 ≤ a.simplify.vocabulary.length ∧ 2 ≤ b.simplify.vocabulary.length) ∧
    ((Vocabulary.union a.vocabulary b.vocabulary).length ≤ 3 →
      (equivalent a b = true ↔ LogicallyEquivalent a b)) := by
  rw [logicallyEquivalent_iff_truth]
  refine ⟨equivalent_iff_truth a b, fun ht hf => ?_, fun hlen => ?_⟩
  · have hapart : Apart a.simplify b.simplify := by
      by_contra hna
      rw [(equivalent_iff_truth a b).mpr ⟨ht, hna⟩] at hf
      cases hf
    exact ⟨constantly_of_apart hapart ht, two_le_length_of_apart hapart ht⟩
  · rw [equivalent_iff_truth]
    exact ⟨fun h => h.1, fun ht => ⟨ht, not_apart_of_length_le hlen ht⟩⟩

/-- `(p | q) | (!p | !q)` and `(r | s) | (!r | !s)` are told apart, with two variables left in
each. -/
theorem hiddenTautologies_told_apart :
    ∃ p q r s : Name, LogicallyEquivalent (hiddenTautology p q) (hiddenTautology r s) ∧
      equivalent (hiddenTautology p q) (hiddenTautology r s) = false ∧
      2 ≤ (hiddenTautology p q).simplify.vocabulary.length ∧
      2 ≤ (hiddenTautology r s).simplify.vocabulary.length := by
  refine ⟨⟨"p", by decide⟩, ⟨"q", by decide⟩, ⟨"r", by decide⟩, ⟨"s", by decide⟩, ?_⟩
  have ht := logicallyEquivalent_hiddenTautology ⟨"p", by decide⟩ ⟨"q", by decide⟩
    ⟨"r", by decide⟩ ⟨"s", by decide⟩
  have hf := equivalent_hiddenTautology (x := ⟨"p", by decide⟩) (y := ⟨"q", by decide⟩)
    (z := ⟨"r", by decide⟩) (w := ⟨"s", by decide⟩) (by decide) (by decide) (by decide) (by decide)
  exact ⟨ht, hf, ((equivalent_iff_logicallyEquivalent _ _).2.1 ht hf).2⟩

end Expr

end Propositional
