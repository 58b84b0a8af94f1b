import Mathlib.Data.List.Sort
import Propositional.Proofs.NormalForm.Disjunctive
import Propositional.Proofs.Subformula

/-!
# What distribution refuses

Distribution does not look for negations before it starts. It meets them one at a time, inside
conjunctions that it has put together from parts of the formula and from its own results, and stops
at the first one that is not above a variable. Nothing is passed over: a call succeeds only if all
it is made of is in negation normal form. And nothing is made up: a conjunction put together from
parts of the formula holds no other negations than these parts, and one put together from results
is in negation normal form, so no call on it fails.

Results:
* `Distributes.isNnf`: where distribution succeeds, the formula is in negation normal form.
* `offends_of_distribute`: where it fails, the reason is a negation in the formula.
* `distribute_fails_iff`: it fails exactly outside negation normal form, with what it says there and
  what it gives elsewhere.
-/

namespace Propositional

namespace Expr

theorem vocabulary_eq_of_mem_iff {a b : Expr} (h : ∀ x, x ∈ a.vocabulary ↔ x ∈ b.vocabulary) :
    a.vocabulary = b.vocabulary :=
  (Vocabulary.pairwise_ofList _).eq_of_mem_iff (Vocabulary.pairwise_ofList _) h

/-! ## Where distribution succeeds -/

/-- **Only formulas in negation normal form are distributed.** -/
theorem Distributes.isNnf {e s : Expr} (h : Distributes e s) : e.isNnf = true := by
  induction h with
  | clause h => exact (isNormal_of_isClause h).isNnf
  | or _ _ ihl ihr => rw [Expr.isNnf, ihl, ihr, Bool.and_self]
  | and_or_left _ _ ihx ihy =>
    simp only [Expr.isNnf, Bool.and_eq_true] at ihx ihy ⊢
    exact ⟨⟨ihx.1, ihy.1⟩, ihx.2⟩
  | and_or_right _ _ ihx ihy =>
    simp only [Expr.isNnf, Bool.and_eq_true] at ihx ihy ⊢
    exact ⟨ihx.1, ihx.2, ihy.2⟩
  | and _ _ _ ihl ihr _ => rw [Expr.isNnf, ihl, ihr, Bool.and_self]

/-! ## Where distribution fails -/

/-- The formula `f` is a negation in `e`, and not of a variable. -/
def Offends (f e : Expr) : Prop :=
  Subformula f e ∧ ∃ g, f = not g ∧ ∀ n, g ≠ var n

theorem offends_bin {f : Expr} {c : Connective} {l r : Expr} :
    Offends f (bin c l r) ↔ Offends f l ∨ Offends f r := by
  constructor
  · rintro ⟨hsub, g, rfl, hg⟩
    exact (subformula_not_bin.mp hsub).imp (⟨·, g, rfl, hg⟩) (⟨·, g, rfl, hg⟩)
  · rintro (⟨hsub, hneg⟩ | ⟨hsub, hneg⟩)
    · exact ⟨.left hsub, hneg⟩
    · exact ⟨.right hsub, hneg⟩

theorem isNnf_eq_false_of_offends {f e : Expr} (h : Offends f e) : e.isNnf = false := by
  obtain ⟨hsub, g, rfl, hg⟩ := h
  refine Bool.eq_false_iff.mpr fun hnnf => ?_
  obtain ⟨n, hn⟩ := isNnf_iff_forall_subformula.mp hnnf g hsub
  exact hg n hn

/-- Two calls in a row fail iff the first one fails, or the second one after it, or what is done
with their results. -/
theorem bind_eq_error_iff {a b : Except NotNnf Expr} {f : Expr → Expr → Except NotNnf Expr}
    {reason : NotNnf} :
    (do f (← a) (← b)) = .error reason ↔ a = .error reason ∨
      (∃ x, a = .ok x ∧ b = .error reason) ∨
      ∃ x y, a = .ok x ∧ b = .ok y ∧ f x y = .error reason := by
  cases a with
  | error => simp [bind, Except.bind]
  | ok x => cases b <;> simp [bind, Except.bind]

/-- Two calls whose results are only joined fail iff one of them does. -/
theorem error_of_bind_pure {a b : Except NotNnf Expr} {reason : NotNnf}
    (h : (do return or (← a) (← b)) = .error reason) :
    a = .error reason ∨ b = .error reason := by
  rcases bind_eq_error_iff.mp h with h | ⟨-, -, h⟩ | ⟨_, _, -, -, h⟩
  · exact Or.inl h
  · exact Or.inr h
  · cases h

/-- **The reason of a failure is a negation in the formula.** -/
theorem offends_of_distribute {e : Expr} {reason : NotNnf} (h : e.distribute = .error reason) :
    Offends reason.offending e := by
  induction e using distribute_induction with
  | clause e hc =>
    rw [distribute_of_isClause hc] at h
    cases h
  | not e hc =>
    rw [distribute_not hc] at h
    cases h
    refine ⟨.refl, e, rfl, ?_⟩
    rintro n rfl
    exact hc rfl
  | or l r hc ihl ihr =>
    rw [distribute_or hc] at h
    exact offends_bin.mpr ((error_of_bind_pure h).imp ihl ihr)
  | and_or_left x y r hc ihx ihy =>
    rw [distribute_and_or_left hc] at h
    have hsides := (error_of_bind_pure h).imp ihx ihy
    simp only [offends_bin] at hsides ⊢
    rcases hsides with (hx | hr) | (hy | hr)
    · exact Or.inl (Or.inl hx)
    · exact Or.inr hr
    · exact Or.inl (Or.inr hy)
    · exact Or.inr hr
  | and_or_right l x y hc hl ihx ihy =>
    rw [distribute_and_or_right hc hl] at h
    have hsides := (error_of_bind_pure h).imp ihx ihy
    simp only [offends_bin] at hsides ⊢
    rcases hsides with (hl | hx) | (hl | hy)
    · exact Or.inl hl
    · exact Or.inr (Or.inl hx)
    · exact Or.inl hl
    · exact Or.inr (Or.inr hy)
  | and l r hc hl hr ihl ihr _ =>
    rw [distribute_and hc hl hr, bind_eq_error_iff] at h
    rcases h with h | ⟨-, -, h⟩ | ⟨l', r', hl', hr', h⟩
    · exact offends_bin.mpr (Or.inl (ihl h))
    · exact offends_bin.mpr (Or.inr (ihr h))
    · -- No call on a conjunction of results fails.
      obtain ⟨s, hs⟩ := exists_distribute_of_isNnf (isNnf_and_of_distribute hl' hr')
      rw [hs] at h
      cases h

/-- **Distribution fails exactly outside negation normal form.** What it then names in its message
is a negation in the formula itself, of something that is no variable. In negation normal form it
gives a formula in both normal forms, with the same variables. -/
theorem distribute_fails_iff (e : Expr) :
    ((∃ reason, e.distribute = .error reason) ↔ e.isNnf = false) ∧
    (∀ reason, e.distribute = .error reason →
      ∃ f, Subformula (not f) e ∧ (∀ n, f ≠ var n) ∧ reason = ⟨not f⟩ ∧
        reason.message = "Expression is not in negation normal form: " ++ (not f).display) ∧
    (e.isNnf = true → ∃ s, e.distribute = .ok s ∧ s.isDnf = true ∧ s.isNnf = true ∧
      s.vocabulary = e.vocabulary) := by
  refine ⟨⟨?_, fun h => ?_⟩, fun reason h => ?_, fun h => ?_⟩
  · rintro ⟨reason, h⟩
    exact isNnf_eq_false_of_offends (offends_of_distribute h)
  · cases hd : e.distribute with
    | error reason => exact ⟨reason, rfl⟩
    | ok s =>
      rw [(distributes_of_distribute hd).isNnf] at h
      cases h
  · obtain ⟨offending⟩ := reason
    obtain ⟨hsub, f, rfl, hvar⟩ := offends_of_distribute h
    exact ⟨f, hsub, hvar, rfl, rfl⟩
  · obtain ⟨s, hs⟩ := exists_distribute_of_isNnf h
    have hrel := distributes_of_distribute hs
    exact ⟨s, hs, hrel.isNormal.isDnf, hrel.isNormal.isNnf,
      vocabulary_eq_of_mem_iff fun _ => hrel.mem_vocabulary⟩

/-- In `(p | q) & !!r` distribution stops at `!!r`, and in `(p | q) & r` nowhere. -/
theorem double_negation_refused : ∃ p q r : Name,
    (and (or (var p) (var q)) (not (not (var r)))).distribute = .error ⟨not (not (var r))⟩ ∧
      ∃ s, (and (or (var p) (var q)) (var r)).distribute = .ok s ∧ s.isDnf = true ∧
        s.isNnf = true ∧ s.vocabulary = ["p", "q", "r"] := by
  let p : Name := ⟨"p", by decide⟩
  let q : Name := ⟨"q", by decide⟩
  let r : Name := ⟨"r", by decide⟩
  refine ⟨p, q, r, ?_, ?_⟩
  · obtain ⟨reason, hreason⟩ :=
      (distribute_fails_iff (and (or (var p) (var q)) (not (not (var r))))).1.mpr rfl
    obtain ⟨f, hsub, hvar, hf, -⟩ := (distribute_fails_iff _).2.1 reason hreason
    simp only [subformula_not_bin, subformula_not, subformula_var, reduceCtorEq, false_or,
      or_false, not.injEq] at hsub
    rcases hsub with rfl | rfl
    · rw [hreason, hf]
    · exact absurd rfl (hvar r)
  · have hvocabulary : (and (or (var p) (var q)) (var r)).vocabulary = ["p", "q", "r"] := by decide
    obtain ⟨s, hs, hdnf, hnnf, hvoc⟩ :=
      (distribute_fails_iff (and (or (var p) (var q)) (var r))).2.2 rfl
    exact ⟨s, hs, hdnf, hnnf, hvoc.trans hvocabulary⟩

end Expr

end Propositional
