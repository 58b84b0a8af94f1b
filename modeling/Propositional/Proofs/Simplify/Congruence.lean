import Propositional.Proofs.Simplify.Laws

/-!
# The check is a congruence

Formulas that pass the check may replace each other inside any formula, and the results pass the
check. This does not follow from their having one truth function, since the check also wants a
common variable that simplification leaves. It is shown for one operator around the hole at a time.
Beside an operand of which something is left the variables of that operand are common to both sides;
so what needs an argument is an operand of which nothing is left: it is a constant, and then either
all is absorbed or the other operand is all that is left.

Results:
* `equivalent_not`, `equivalent_bin_hole_left`, `equivalent_bin_hole_right`: one operator around the
  hole.
* `equivalent_plug`: any context.
* `not_transitive`: a constant passes against hidden constants that do not pass against each other.
* `congruent_but_not_transitive`: both together.
-/

namespace Propositional

namespace Expr

/-! ## Contexts -/

/-- A formula with a hole in place of one of its subformulas. -/
inductive Context where
  | hole
  | not (operand : Context)
  /-- The hole is in the left operand. -/
  | left (c : Connective) (operand : Context) (right : Expr)
  /-- The hole is in the right operand. -/
  | right (c : Connective) (left : Expr) (operand : Context)

/-- The context with a formula in its hole. -/
def Context.plug (e : Expr) : Context → Expr
  | .hole => e
  | .not K => Expr.not (K.plug e)
  | .left c K r => bin c (K.plug e) r
  | .right c l K => bin c l (K.plug e)

/-! ## One operator around the hole -/

theorem equivalent_not {a b : Expr} (h : equivalent a b = true) :
    equivalent (not a) (not b) = true := by
  have ht : ∀ v, (not a).truth v = (not b).truth v := by
    intro v
    rw [truth, truth, truth_eq_of_equivalent h v]
  refine equivalent_of_shared ht fun ha hb => ?_
  rw [kept_not] at ha hb ⊢
  rw [kept_not]
  exact exists_mem_kept_of_equivalent h ha hb

/-- Beside a left operand of which nothing is left, the right operand is all that is left, and
something of it is left beside any other left operand. -/
theorem exists_mem_kept_of_constant {c : Connective} {a b r : Expr} (ha : a.kept = [])
    (har : (bin c a r).kept ≠ []) (hbr : (bin c b r).kept ≠ []) :
    ∃ x ∈ (bin c a r).kept, x ∈ (bin c b r).kept := by
  rcases simplify_eq_of_kept_eq_nil ha c with h | h
  · have hr : (bin c a r).kept = r.kept := kept_congr (simplify_bin_neutral_left r h)
    rw [hr] at har ⊢
    exact exists_mem_kept_right har hbr
  · exact absurd (kept_eq_nil_of_simplify_eq (simplify_bin_absorbing_left r h)) har

theorem equivalent_bin_hole_left (c : Connective) {a b : Expr} (r : Expr)
    (h : equivalent a b = true) : equivalent (bin c a r) (bin c b r) = true := by
  have ht : ∀ v, (bin c a r).truth v = (bin c b r).truth v := by
    intro v
    rw [truth, truth, truth_eq_of_equivalent h v]
  refine equivalent_of_shared ht fun har hbr => ?_
  by_cases ha : a.kept = []
  · exact exists_mem_kept_of_constant ha har hbr
  by_cases hb : b.kept = []
  · obtain ⟨x, hxb, hxa⟩ := exists_mem_kept_of_constant hb hbr har
    exact ⟨x, hxa, hxb⟩
  · obtain ⟨x, hxa, hxb⟩ := exists_mem_kept_of_equivalent h ha hb
    exact ⟨x, mem_kept_left ha har x hxa, mem_kept_left hb hbr x hxb⟩

theorem equivalent_bin_hole_right (c : Connective) (l : Expr) {a b : Expr}
    (h : equivalent a b = true) : equivalent (bin c l a) (bin c l b) = true := by
  have ht : ∀ v, (bin c l a).truth v = (bin c l b).truth v := by
    intro v
    rw [truth, truth, truth_eq_of_equivalent h v]
  refine equivalent_of_shared ht fun hla hlb => ?_
  by_cases hl : l.kept = []
  · rcases simplify_eq_of_kept_eq_nil hl c with hn | habs
    · have ha : (bin c l a).kept = a.kept := kept_congr (simplify_bin_neutral_left a hn)
      have hb : (bin c l b).kept = b.kept := kept_congr (simplify_bin_neutral_left b hn)
      rw [ha] at hla ⊢
      rw [hb] at hlb ⊢
      exact exists_mem_kept_of_equivalent h hla hlb
    · exact absurd (kept_eq_nil_of_simplify_eq (simplify_bin_absorbing_left a habs)) hla
  · obtain ⟨x, hx⟩ := List.exists_mem_of_ne_nil _ hl
    exact ⟨x, mem_kept_left hl hla x hx, mem_kept_left hl hlb x hx⟩

/-! ## Any context -/

theorem equivalent_plug {a b : Expr} (h : equivalent a b = true) (K : Context) :
    equivalent (K.plug a) (K.plug b) = true := by
  induction K with
  | hole => exact h
  | not K ih => exact equivalent_not ih
  | left c K r ih => exact equivalent_bin_hole_left c r ih
  | right c l K ih => exact equivalent_bin_hole_right c l ih

theorem equivalent_symm {a b : Expr} (h : equivalent a b = true) : equivalent b a = true := by
  refine equivalent_of_shared (fun v => (truth_eq_of_equivalent h v).symm) fun hb ha => ?_
  obtain ⟨x, hxa, hxb⟩ := exists_mem_kept_of_equivalent h ha hb
  exact ⟨x, hxb, hxa⟩

theorem equivalent_hiddenTautology_const (x y : Name) :
    equivalent (hiddenTautology x y) (const true) = true :=
  equivalent_const fun v => truth_hiddenTautology v x y

/-- A constant passes against two hidden tautologies that do not pass against each other. -/
theorem not_transitive : ∃ a b c : Expr,
    equivalent a b = true ∧ equivalent b c = true ∧ equivalent a c = false := by
  let p : Name := ⟨"p", by decide⟩
  let q : Name := ⟨"q", by decide⟩
  let r : Name := ⟨"r", by decide⟩
  let s : Name := ⟨"s", by decide⟩
  refine ⟨hiddenTautology p q, const true, hiddenTautology r s,
    equivalent_hiddenTautology_const p q,
    equivalent_symm (equivalent_hiddenTautology_const r s), ?_⟩
  exact equivalent_hiddenTautology (by decide) (by decide) (by decide) (by decide)

/-- **The check is a congruence although it is not transitive**: in any context, formulas that pass
it may replace each other. -/
theorem congruent_but_not_transitive :
    (∀ (a b : Expr) (K : Context), equivalent a b = true →
      equivalent (K.plug a) (K.plug b) = true) ∧
    ∃ a b c : Expr, equivalent a b = true ∧ equivalent b c = true ∧ equivalent a c = false :=
  ⟨fun _ _ K h => equivalent_plug h K, not_transitive⟩

/-- Beside a variable a hidden tautology may replace the constant. -/
theorem hiddenTautology_replaces_constant : ∃ p q r : Name,
    equivalent (hiddenTautology p q) (const true) = true ∧
      equivalent (and (hiddenTautology p q) (var r)) (and (const true) (var r)) = true := by
  refine ⟨⟨"p", by decide⟩, ⟨"q", by decide⟩, ⟨"r", by decide⟩, ?_⟩
  have h := equivalent_hiddenTautology_const ⟨"p", by decide⟩ ⟨"q", by decide⟩
  exact ⟨h, congruent_but_not_transitive.1 _ _ (.left .and .hole (var ⟨"r", by decide⟩)) h⟩

end Expr

end Propositional
