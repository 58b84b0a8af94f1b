import Propositional.Proofs.Rows
import Propositional.Simplify

/-!
# Simplification keeps the meaning

Simplifying asks for equivalence, and equivalence is decided on simplified formulas. So the two are
shown right together, by an induction that follows the calls (`simplify_induction`): to a connective
belong its operands, and also their simplified forms and the negation of the left one, none of which
has more leaves than the operand it comes from.

Results:
* `verdict_holds_iff`: what the comparison of two formulas finds out.
* `joined`, `joined_simplify`: everything that joining two simplified operands can do, with the
  reason for it; `Joined.keeps`: what it cannot lose.
* `truth_simplify`: simplifying keeps the truth function.
* `truth_eq_of_equivalent`: formulas that are found equivalent have one truth function.
* `simplify_keeps_values`: simplifying keeps each value, and so does each of its rules.
-/

namespace Propositional

theorem Vocabulary.disjoint_iff {xs ys : Vocabulary} :
    Vocabulary.disjoint xs ys = true ↔ ∀ x ∈ xs, x ∉ ys := by
  simp [Vocabulary.disjoint]

namespace Expr

/-! ## What a comparison finds out -/

/-- Formulas without variables are compared as trees. -/
theorem holds_verdict_of_constants {a b : Expr} (ha : a.vocabulary = []) (hb : b.vocabulary = []) :
    (verdict a b).holds = true ↔ a = b := by
  have hv : verdict a b = .constants (a = b) := by
    rw [verdict, ha, hb]
    rfl
  rw [hv]
  exact decide_eq_true_iff

/-- Formulas without a common variable are told apart at once. -/
theorem holds_verdict_of_apart {a b : Expr} (h : Apart a b) : (verdict a b).holds = false := by
  obtain ⟨ha, hb, hd⟩ := h
  have ha : a.vocabulary.isEmpty = false := List.isEmpty_eq_false_iff.mpr ha
  have hb : b.vocabulary.isEmpty = false := List.isEmpty_eq_false_iff.mpr hb
  unfold verdict
  rw [ha, hb, Vocabulary.disjoint_iff.mpr hd]
  rfl

/-- All others are compared row by row. -/
theorem holds_verdict_of_shared {a b : Expr} (hc : ¬ (a.vocabulary = [] ∧ b.vocabulary = []))
    (ha : ¬ Apart a b) : (verdict a b).holds = true ↔ ∀ v, a.truth v = b.truth v := by
  have hempty : ¬ (a.vocabulary.isEmpty && b.vocabulary.isEmpty) = true := by
    rwa [Bool.and_eq_true, List.isEmpty_iff, List.isEmpty_iff]
  have hshared : ¬ (!a.vocabulary.isEmpty && !b.vocabulary.isEmpty
      && Vocabulary.disjoint a.vocabulary b.vocabulary) = true := by
    simpa only [Bool.and_eq_true, Bool.not_eq_true', List.isEmpty_eq_false_iff,
      Vocabulary.disjoint_iff, and_assoc, Apart, ne_eq] using ha
  have hrows := forall_rows_eval_eq_iff (Vocabulary.union a.vocabulary b.vocabulary)
    (fun _ hx => Vocabulary.mem_union.mpr (Or.inl hx))
    (fun _ hx => Vocabulary.mem_union.mpr (Or.inr hx))
  have hnone : firstRow (fun row => a.eval row.interpretation != b.eval row.interpretation)
      (Vocabulary.union a.vocabulary b.vocabulary) = none ↔ ∀ v, a.truth v = b.truth v := by
    rw [← hrows, firstRow_eq_none_iff]
    simp only [bne_eq_false_iff_eq]
  rw [← hnone, verdict, if_neg hempty, if_neg hshared]
  split
  · next hrow => simp only [Verdict.holds, hrow, Bool.false_eq_true, reduceCtorEq]
  · next hrow => simp only [Verdict.holds, hrow]

/-- **The outcome of a comparison.** Two formulas pass iff they have one truth function, are not
told apart for want of a common variable, and are the same tree where neither has a variable. -/
theorem verdict_holds_iff (a b : Expr) :
    (verdict a b).holds = true ↔
      (a.vocabulary = [] → b.vocabulary = [] → a = b) ∧ ¬ Apart a b ∧
        ∀ v, a.truth v = b.truth v := by
  by_cases hc : a.vocabulary = [] ∧ b.vocabulary = []
  · obtain ⟨ha, hb⟩ := hc
    rw [holds_verdict_of_constants ha hb]
    constructor
    · rintro rfl
      exact ⟨fun _ _ => rfl, fun h => h.1 ha, fun _ => rfl⟩
    · exact fun h => h.1 ha hb
  by_cases ha : Apart a b
  · rw [holds_verdict_of_apart ha]
    exact ⟨fun h => absurd h Bool.false_ne_true, fun h => absurd ha h.2.1⟩
  · rw [holds_verdict_of_shared hc ha]
    exact ⟨fun h => ⟨fun ha' hb' => absurd ⟨ha', hb'⟩ hc, ha, h⟩, fun h => h.2.2⟩

/-- Every formula is found equivalent to itself. -/
@[simp] theorem equivalent_self (e : Expr) : equivalent e e = true := by
  refine (verdict_holds_iff _ _).mpr ⟨fun _ _ => rfl, fun h => ?_, fun _ => rfl⟩
  obtain ⟨x, hx⟩ := List.exists_mem_of_ne_nil _ h.1
  exact h.2.2 x hx hx

/-! ## What joining can do -/

/-- The ways in which two simplified operands are joined by a connective. -/
inductive Joined (c : Connective) (l r : Expr) : Expr → Prop
  /-- The right operand is the neutral constant. -/
  | neutralRight (h : r = const c.neutral) : Joined c l r l
  /-- The left operand is the neutral constant. -/
  | neutralLeft (h : l = const c.neutral) : Joined c l r r
  /-- One operand is the absorbing constant. -/
  | absorbing (h : l = const c.absorbing ∨ r = const c.absorbing) :
      Joined c l r (const c.absorbing)
  /-- The operands are found equivalent. -/
  | same (hl : ∀ b, l ≠ const b) (hr : ∀ b, r ≠ const b) (hs : equivalent l r = true) :
      Joined c l r l
  /-- The negation of the left operand is found equivalent to the right one. -/
  | opposite (hl : ∀ b, l ≠ const b) (hr : ∀ b, r ≠ const b) (hs : equivalent l r = false)
      (ho : equivalent l.negate r = true) : Joined c l r (const c.absorbing)
  /-- No rule applies. -/
  | kept (hl : ∀ b, l ≠ const b) (hr : ∀ b, r ≠ const b) (hs : equivalent l r = false)
      (ho : equivalent l.negate r = false) : Joined c l r (bin c l r)

/-- A constant is the neutral or the absorbing one. -/
theorem ne_const_of_ne {c : Connective} {e : Expr} (hn : e ≠ const c.neutral)
    (ha : e ≠ const c.absorbing) (b : Bool) : e ≠ const b := by
  rintro rfl
  rw [Connective.absorbing_eq] at ha
  cases b <;> cases h : c.neutral <;> simp_all

theorem joined (c : Connective) (l r : Expr) : Joined c l r (joinSimplified c l r) := by
  unfold joinSimplified absorb?
  by_cases hrn : r = const c.neutral
  · rw [if_pos hrn]
    exact .neutralRight hrn
  by_cases hln : l = const c.neutral
  · rw [if_neg hrn, if_pos hln]
    exact .neutralLeft hln
  by_cases ha : l = const c.absorbing ∨ r = const c.absorbing
  · rw [if_neg hrn, if_neg hln, if_pos ha]
    exact .absorbing ha
  rw [if_neg hrn, if_neg hln, if_neg ha]
  obtain ⟨hla, hra⟩ := not_or.mp ha
  have hl := ne_const_of_ne hln hla
  have hr := ne_const_of_ne hrn hra
  cases hs : equivalent l r with
  | true => exact .same hl hr hs
  | false =>
    cases ho : equivalent l.negate r with
    | true => exact .opposite hl hr hs ho
    | false => exact .kept hl hr hs ho

/-- What simplifying a joined formula can do. -/
theorem joined_simplify (c : Connective) (l r : Expr) :
    Joined c l.simplify r.simplify (bin c l r).simplify := by
  rw [simplify_bin]
  exact joined c l.simplify r.simplify

/-- **What joining cannot lose**: a property of both operands, of the two joined, and of the
constants. -/
theorem Joined.keeps {P : Expr → Prop} {c : Connective} {l r s : Expr} (h : Joined c l r s)
    (const : ∀ b, P (.const b)) (left : P l) (right : P r) (both : P (bin c l r)) : P s := by
  cases h with
  | neutralRight | same => exact left
  | neutralLeft => exact right
  | absorbing | opposite => exact const _
  | kept => exact both

theorem mem_vocabulary_of_joined {c : Connective} {l r s : Expr} (h : Joined c l r s) {x : String} :
    x ∈ s.vocabulary → x ∈ l.vocabulary ∨ x ∈ r.vocabulary :=
  h.keeps (P := fun s => x ∈ s.vocabulary → x ∈ l.vocabulary ∨ x ∈ r.vocabulary)
    (fun _ hx => absurd hx List.not_mem_nil) Or.inl Or.inr mem_vocabulary_bin.mp

/-- Joining keeps the truth function where the two answers about equivalence can be trusted. -/
theorem Joined.truth_eq {c : Connective} {l r s : Expr} (h : Joined c l r s) {v : Valuation}
    (hs : equivalent l r = true → l.truth v = r.truth v)
    (ho : equivalent l.negate r = true → l.negate.truth v = r.truth v) :
    s.truth v = c.apply (l.truth v) (r.truth v) := by
  cases h with
  | neutralRight h => rw [h, truth, Connective.apply_neutral_right]
  | neutralLeft h => rw [h, truth, Connective.apply_neutral_left]
  | absorbing h =>
    rcases h with h | h
    · rw [h, truth, Connective.apply_absorbing_left]
    · rw [h, truth, Connective.apply_absorbing_right]
  | same _ _ h => rw [← hs h, Connective.apply_self]
  | opposite _ _ _ h => rw [← ho h, truth_negate, Connective.apply_not_self, truth]
  | kept => rfl

/-! ## The induction that follows the calls -/

/-- **Induction along the calls of simplification.** -/
@[elab_as_elim]
theorem simplify_induction {motive : Expr → Prop} (const : ∀ b, motive (.const b))
    (var : ∀ n, motive (.var n)) (not : ∀ e, motive e → motive (.not e))
    (bin : ∀ c l r, motive l → motive r → motive l.simplify → motive r.simplify →
      motive l.simplify.negate → motive (.bin c l r)) : ∀ e, motive e
  | .const b => const b
  | .var n => var n
  | .not e => not e (simplify_induction const var not bin e)
  | .bin c l r =>
    bin c l r (simplify_induction const var not bin l) (simplify_induction const var not bin r)
      (simplify_induction const var not bin l.simplify)
      (simplify_induction const var not bin r.simplify)
      (simplify_induction const var not bin l.simplify.negate)
  termination_by e => (e.leaves, e.size)
  decreasing_by
    · exact Prod.Lex.right _ (Nat.lt_add_of_pos_left Nat.one_pos)
    · exact Prod.Lex.left _ _ (leaves_left_lt (Nat.le_refl _))
    · exact Prod.Lex.left _ _ (leaves_right_lt (Nat.le_refl _))
    · exact Prod.Lex.left _ _ (leaves_left_lt (leaves_simplify_le l))
    · exact Prod.Lex.left _ _ (leaves_right_lt (leaves_simplify_le r))
    · exact Prod.Lex.left _ _
        (leaves_left_lt (Nat.le_trans (Nat.le_of_eq (leaves_negate _)) (leaves_simplify_le l)))

/-! ## The meaning is kept -/

@[simp] theorem truth_negateSimplified (v : Valuation) (e : Expr) :
    e.negateSimplified.truth v = !e.truth v := by
  cases e with
  | not e => simp only [negateSimplified, truth, Bool.not_not]
  | const | var | bin => rfl

/-- A positive answer about equivalence can be trusted as far as simplification can. -/
theorem truth_eq_of_equivalent_of {a b : Expr} {v : Valuation} (h : equivalent a b = true)
    (ha : a.simplify.truth v = a.truth v) (hb : b.simplify.truth v = b.truth v) :
    a.truth v = b.truth v := by
  rw [← ha, ← hb]
  exact ((verdict_holds_iff _ _).mp h).2.2 v

/-- **Simplification keeps the truth function.** -/
@[simp] theorem truth_simplify (v : Valuation) (e : Expr) : e.simplify.truth v = e.truth v := by
  induction e using simplify_induction with
  | const b => rw [simplify_const]
  | var n => rw [simplify_var]
  | not e ih => rw [simplify_not, truth_negateSimplified, ih, truth]
  | bin c l r ihl ihr ihl' ihr' ihn =>
    rw [(joined_simplify c l r).truth_eq
      (fun h => truth_eq_of_equivalent_of h ihl' ihr')
      (fun h => truth_eq_of_equivalent_of h ihn ihr'), ihl, ihr, truth]

/-- **Formulas that are found equivalent have one truth function.** -/
theorem truth_eq_of_equivalent {a b : Expr} (h : equivalent a b = true) (v : Valuation) :
    a.truth v = b.truth v :=
  truth_eq_of_equivalent_of h (truth_simplify v a) (truth_simplify v b)

theorem truth_joinSimplified (v : Valuation) (c : Connective) (l r : Expr) :
    (joinSimplified c l r).truth v = c.apply (l.truth v) (r.truth v) :=
  (joined c l r).truth_eq (fun h => truth_eq_of_equivalent h v)
    (fun h => truth_eq_of_equivalent h v)

theorem vocabulary_negateSimplified (e : Expr) : e.negateSimplified.vocabulary = e.vocabulary := by
  cases e <;> rfl

theorem mem_vocabulary_of_simplify {x : String} {e : Expr} (h : x ∈ e.simplify.vocabulary) :
    x ∈ e.vocabulary := by
  induction e with
  | const b => rwa [simplify_const] at h
  | var n => rwa [simplify_var] at h
  | not e ih =>
    rw [simplify_not, vocabulary_negateSimplified] at h
    exact ih h
  | bin c l r ihl ihr =>
    exact mem_vocabulary_bin.mpr ((mem_vocabulary_of_joined (joined_simplify c l r) h).imp ihl ihr)

/-- **Simplification keeps every value**, and so does each of its rules by itself: the one for
negations, the ones for constants, dropping the right operand where it is found equivalent to the
left one, and folding to a constant where it is found equivalent to the negation of the left one. -/
theorem simplify_keeps_values (i : Interpretation) (b : Bool) :
    (∀ e : Expr, e.eval i = some b → e.simplify.eval i = some b) ∧
    (∀ e : Expr, (not e).eval i = some b → e.negateSimplified.eval i = some b) ∧
    (∀ (c : Connective) (l r s : Expr), absorb? c l r = some s →
      (bin c l r).eval i = some b → s.eval i = some b) ∧
    (∀ (c : Connective) (l r : Expr), equivalent l r = true →
      (bin c l r).eval i = some b → l.eval i = some b) ∧
    (∀ (c : Connective) (l r : Expr), equivalent l.negate r = true →
      (bin c l r).eval i = some b → (const c.absorbing).eval i = some b) := by
  refine ⟨fun e h => ?_, fun e h => ?_, fun c l r s hs h => ?_, fun c l r hs h => ?_,
    fun c l r ho h => ?_⟩
  · exact eval_of_truth_eq (fun _ => mem_vocabulary_of_simplify) (fun v => truth_simplify v e) h
  · refine eval_of_truth_eq (fun x hx => ?_) (fun v => truth_negateSimplified v e) h
    rwa [vocabulary_negateSimplified] at hx
  · have hj : joinSimplified c l r = s := by rw [joinSimplified, hs]
    rw [← hj]
    exact eval_of_truth_eq
      (fun _ hx => mem_vocabulary_bin.mpr (mem_vocabulary_of_joined (joined c l r) hx))
      (fun v => truth_joinSimplified v c l r) h
  · refine eval_of_truth_eq (fun x hx => mem_vocabulary_bin.mpr (Or.inl hx)) (fun v => ?_) h
    rw [truth, ← truth_eq_of_equivalent hs v, Connective.apply_self]
  · refine eval_of_truth_eq (fun x hx => absurd hx List.not_mem_nil) (fun v => ?_) h
    rw [truth, truth, ← truth_eq_of_equivalent ho v, truth_negate, Connective.apply_not_self]

end Expr

end Propositional
