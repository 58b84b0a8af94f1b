import Propositional.Proofs.Simplify.Kept

/-!
# The laws of Boolean algebra

The check is not logical equivalence, so a law does not hold for it because it holds of truth
functions. What is shown beside that is that the two sides share a variable that simplification
leaves, or that nothing is left of one of them. Where the outermost left operand has variables left,
it is one of these; where it has none, it is a constant and both sides are simplified alike.

Results:
* `equivalent_bin_left`, `equivalent_bin_right`: every law that gives back one of its operands.
* `equivalent_const`: every law that gives a constant.
* `equivalent_comm`, `equivalent_assoc`, `equivalent_distrib_left`, `equivalent_distrib_right`,
  `equivalent_deMorgan`: the laws that rearrange their operands.
* `boolean_laws`: all laws together, each for both connectives.
-/

namespace Propositional

namespace Connective

/-! ## Truth functions -/

theorem apply_comm (o : Connective) (a b : Bool) : o.apply a b = o.apply b a := by
  cases o <;> cases a <;> cases b <;> rfl

theorem apply_assoc (o : Connective) (a b c : Bool) :
    o.apply a (o.apply b c) = o.apply (o.apply a b) c := by
  cases o <;> cases a <;> rfl

theorem apply_distrib_left (o : Connective) (a b c : Bool) :
    o.apply a (o.dual.apply b c) = o.dual.apply (o.apply a b) (o.apply a c) := by
  cases o <;> cases a <;> cases b <;> rfl

theorem apply_distrib_right (o : Connective) (a b c : Bool) :
    o.apply (o.dual.apply a b) c = o.dual.apply (o.apply a c) (o.apply b c) := by
  rw [apply_comm, apply_distrib_left, apply_comm o c a, apply_comm o c b]

theorem apply_absorb (o : Connective) (a b : Bool) : o.apply a (o.dual.apply a b) = a := by
  cases o <;> cases a <;> cases b <;> rfl

end Connective

namespace Expr

/-! ## Laws that give back an operand -/

/-- Whatever is joined on the right, the check confirms a law that gives back the left operand. -/
theorem equivalent_bin_left (o : Connective) {a b : Expr}
    (ht : ∀ v, (bin o a b).truth v = a.truth v) : equivalent (bin o a b) a = true := by
  refine equivalent_of_shared ht fun h ha => ?_
  obtain ⟨x, hx⟩ := List.exists_mem_of_ne_nil _ ha
  exact ⟨x, mem_kept_left ha h x hx, hx⟩

/-- The same for the right operand. -/
theorem equivalent_bin_right (o : Connective) {a b : Expr}
    (ht : ∀ v, (bin o a b).truth v = b.truth v) : equivalent (bin o a b) b = true := by
  refine equivalent_of_shared ht fun h hb => ?_
  obtain ⟨x, hxb, hx⟩ := exists_mem_kept_right hb h
  exact ⟨x, hx, hxb⟩

/-- A formula with the truth function of a constant passes the check against it. -/
theorem equivalent_const {e : Expr} {b : Bool} (ht : ∀ v, e.truth v = b) :
    equivalent e (const b) = true :=
  equivalent_of_shared ht fun _ hb => absurd (kept_const b) hb

/-! ## Laws that rearrange their operands -/

theorem equivalent_comm (o : Connective) (a b : Expr) :
    equivalent (bin o a b) (bin o b a) = true := by
  have ht : ∀ v, (bin o a b).truth v = (bin o b a).truth v := fun v =>
    Connective.apply_comm o _ _
  by_cases ha : a.kept = []
  · refine equivalent_of_simplify_eq ht ?_
    rcases simplify_eq_of_kept_eq_nil ha o with h | h
    · rw [simplify_bin_neutral_left b h, simplify_bin_neutral_right b h]
    · rw [simplify_bin_absorbing_left b h, simplify_bin_absorbing_right b h]
  · refine equivalent_of_shared ht fun hl hr => ?_
    obtain ⟨x, hxa, hx⟩ := exists_mem_kept_right ha hr
    exact ⟨x, mem_kept_left ha hl x hxa, hx⟩

theorem equivalent_assoc (o : Connective) (a b c : Expr) :
    equivalent (bin o a (bin o b c)) (bin o (bin o a b) c) = true := by
  have ht : ∀ v, (bin o a (bin o b c)).truth v = (bin o (bin o a b) c).truth v := fun v =>
    Connective.apply_assoc o _ _ _
  by_cases ha : a.kept = []
  · refine equivalent_of_simplify_eq ht ?_
    rcases simplify_eq_of_kept_eq_nil ha o with h | h
    · rw [simplify_bin_neutral_left _ h, simplify_bin, simplify_bin o (bin o a b),
        simplify_bin_neutral_left b h]
    · rw [simplify_bin_absorbing_left _ h,
        simplify_bin_absorbing_left c (simplify_bin_absorbing_left b h)]
  · refine equivalent_of_shared ht fun hl hr => ?_
    obtain ⟨x, hx⟩ := List.exists_mem_of_ne_nil _ ha
    rcases simplify_bin_left o b ha with habs | hsub
    · exact absurd (kept_eq_nil_of_simplify_eq (simplify_bin_absorbing_left c habs)) hr
    · exact ⟨x, mem_kept_left ha hl x hx,
        mem_kept_left (List.ne_nil_of_mem (hsub x hx)) hr x (hsub x hx)⟩

theorem equivalent_distrib_left (o : Connective) (a b c : Expr) :
    equivalent (bin o a (bin o.dual b c)) (bin o.dual (bin o a b) (bin o a c)) = true := by
  have ht : ∀ v, (bin o a (bin o.dual b c)).truth v =
      (bin o.dual (bin o a b) (bin o a c)).truth v := fun v =>
    Connective.apply_distrib_left o _ _ _
  by_cases ha : a.kept = []
  · refine equivalent_of_simplify_eq ht ?_
    rcases simplify_eq_of_kept_eq_nil ha o with h | h
    · rw [simplify_bin_neutral_left _ h, simplify_bin, simplify_bin o.dual (bin o a b),
        simplify_bin_neutral_left b h, simplify_bin_neutral_left c h]
    · rw [simplify_bin_absorbing_left _ h,
        simplify_dual_of_absorbing _ (simplify_bin_absorbing_left b h),
        simplify_bin_absorbing_left c h]
  · refine equivalent_of_shared ht fun hl hr => ?_
    obtain ⟨x, hx⟩ := List.exists_mem_of_ne_nil _ ha
    refine ⟨x, mem_kept_left ha hl x hx, ?_⟩
    rcases simplify_bin_left o b ha with habs | hsub
    · -- The left conjunct or disjunct is absorbed, so the right one is all there is.
      rw [kept_congr (simplify_dual_of_absorbing _ habs)] at hr ⊢
      exact mem_kept_left ha hr x hx
    · exact mem_kept_left (List.ne_nil_of_mem (hsub x hx)) hr x (hsub x hx)

/-- Distribution from the right where the inner formula is the neutral constant: the right operand
is all that is left on one side, and something of it is left on the other. -/
theorem exists_mem_kept_distrib_of_neutral {o : Connective} {c : Expr} (a b : Expr)
    (hc : c.kept ≠ []) (hr : (bin o.dual (bin o a c) (bin o b c)).kept ≠ []) :
    ∃ x ∈ c.kept, x ∈ (bin o.dual (bin o a c) (bin o b c)).kept := by
  rcases simplify_bin_right o a hc with habs | ⟨x, hxc, hx⟩
  · rw [kept_congr (simplify_dual_of_absorbing _ habs)] at hr ⊢
    exact exists_mem_kept_right hc hr
  · exact ⟨x, hxc, mem_kept_left (List.ne_nil_of_mem hx) hr x hx⟩

/-- Distribution from the right where something of the inner formula is left. -/
theorem exists_mem_kept_distrib {o : Connective} {a b : Expr} (c : Expr) (ha : a.kept ≠ [])
    (hsub : ∀ x ∈ a.kept, x ∈ (bin o.dual a b).kept)
    (hr : (bin o.dual (bin o a c) (bin o b c)).kept ≠ []) :
    ∃ x ∈ (bin o.dual a b).kept, x ∈ (bin o.dual (bin o a c) (bin o b c)).kept := by
  obtain ⟨x, hx⟩ := List.exists_mem_of_ne_nil _ ha
  rcases simplify_bin_left o c ha with habs | hsub'
  · -- Only the second half is left, and it keeps what the inner formula has of its right operand.
    rw [kept_congr (simplify_dual_of_absorbing _ habs)] at hr ⊢
    by_cases hb : b.kept = []
    · rcases simplify_eq_of_kept_eq_nil hb o with h | h
      · have hnil := kept_eq_nil_of_simplify_eq
          (simplify_bin_absorbing_right a (simplify_dual_of_neutral h))
        exact absurd hnil (List.ne_nil_of_mem (hsub x hx))
      · exact absurd (kept_eq_nil_of_simplify_eq (simplify_bin_absorbing_left c h)) hr
    · obtain ⟨y, hyb, hy⟩ := exists_mem_kept_right hb (List.ne_nil_of_mem (hsub x hx))
      exact ⟨y, hy, mem_kept_left hb hr y hyb⟩
  · exact ⟨x, hsub x hx, mem_kept_left (List.ne_nil_of_mem (hsub' x hx)) hr x (hsub' x hx)⟩

theorem equivalent_distrib_right (o : Connective) (a b c : Expr) :
    equivalent (bin o (bin o.dual a b) c) (bin o.dual (bin o a c) (bin o b c)) = true := by
  have ht : ∀ v, (bin o (bin o.dual a b) c).truth v =
      (bin o.dual (bin o a c) (bin o b c)).truth v := fun v =>
    Connective.apply_distrib_right o _ _ _
  have neutral : (bin o.dual a b).simplify = const o.neutral →
      equivalent (bin o (bin o.dual a b) c) (bin o.dual (bin o a c) (bin o b c)) = true := by
    intro h
    refine equivalent_of_shared ht fun hl hr => ?_
    rw [kept_congr (simplify_bin_neutral_left c h)] at hl ⊢
    exact exists_mem_kept_distrib_of_neutral a b hl hr
  by_cases ha : a.kept = []
  · rcases simplify_eq_of_kept_eq_nil ha o with h | h
    · exact neutral (simplify_eq_of_absorbing_dual
        (simplify_bin_absorbing_left b (simplify_dual_of_neutral h)))
    · refine equivalent_of_simplify_eq ht ?_
      rw [simplify_dual_of_absorbing _ (simplify_bin_absorbing_left c h), simplify_bin,
        simplify_dual_of_absorbing b h, ← simplify_bin]
  · rcases simplify_bin_left o.dual b ha with habs | hsub
    · exact neutral (simplify_eq_of_absorbing_dual habs)
    · refine equivalent_of_shared ht fun hl hr => ?_
      obtain ⟨x, hx, hxr⟩ := exists_mem_kept_distrib c ha hsub hr
      exact ⟨x, mem_kept_left (List.ne_nil_of_mem hx) hl x hx, hxr⟩

theorem equivalent_deMorgan (o : Connective) (a b : Expr) :
    equivalent (not (bin o a b)) (bin o.dual (not a) (not b)) = true := by
  have hnnf : (not (bin o a b)).toNnf = (bin o.dual (not a) (not b)).toNnf := by
    rw [toNnf_not_bin, toNnf_bin]
  have hkept : (not (bin o a b)).kept = (bin o.dual (not a) (not b)).kept := by
    rw [kept, kept, ← vocabulary_simplify_nnfOf true, ← toNnf, hnnf, toNnf,
      vocabulary_simplify_nnfOf]
  refine equivalent_of_shared (fun v => ?_) fun h _ => ?_
  · rw [← truth_toNnf, hnnf, truth_toNnf]
  · obtain ⟨x, hx⟩ := List.exists_mem_of_ne_nil _ h
    exact ⟨x, hx, hkept ▸ hx⟩

/-! ## All laws -/

/-- The laws of Boolean algebra for a connective and its dual, as far as the check confirms them. -/
structure Laws (o : Connective) (a b c : Expr) : Prop where
  comm : equivalent (bin o a b) (bin o b a) = true
  assoc : equivalent (bin o a (bin o b c)) (bin o (bin o a b) c) = true
  identity_right : equivalent (bin o a (const o.neutral)) a = true
  identity_left : equivalent (bin o (const o.neutral) a) a = true
  annihilation_right : equivalent (bin o a (const o.absorbing)) (const o.absorbing) = true
  annihilation_left : equivalent (bin o (const o.absorbing) a) (const o.absorbing) = true
  idempotence : equivalent (bin o a a) a = true
  complement_right : equivalent (bin o a (not a)) (const o.absorbing) = true
  complement_left : equivalent (bin o (not a) a) (const o.absorbing) = true
  distribution_left :
    equivalent (bin o a (bin o.dual b c)) (bin o.dual (bin o a b) (bin o a c)) = true
  distribution_right :
    equivalent (bin o (bin o.dual a b) c) (bin o.dual (bin o a c) (bin o b c)) = true
  absorption_right : equivalent (bin o a (bin o.dual a b)) a = true
  absorption_left : equivalent (bin o (bin o.dual a b) a) a = true
  deMorgan : equivalent (not (bin o a b)) (bin o.dual (not a) (not b)) = true

/-- **The check confirms the laws of Boolean algebra** for both connectives and all formulas, and
that a double negation changes nothing; it never finds a formula equivalent to its negation. -/
theorem boolean_laws (a b c : Expr) :
    (∀ o, Laws o a b c) ∧ equivalent (not (not a)) a = true ∧ equivalent a (not a) = false := by
  refine ⟨fun o => ?_, ?_, ?_⟩
  · exact {
      comm := equivalent_comm o a b
      assoc := equivalent_assoc o a b c
      identity_right := equivalent_bin_left o fun v => o.apply_neutral_right _
      identity_left := equivalent_bin_right o fun v => o.apply_neutral_left _
      annihilation_right := equivalent_const fun v => o.apply_absorbing_right _
      annihilation_left := equivalent_const fun v => o.apply_absorbing_left _
      idempotence := equivalent_bin_left o fun v => o.apply_self _
      complement_right := equivalent_const fun v => o.apply_not_self _
      complement_left := equivalent_const fun v => (o.apply_comm _ _).trans (o.apply_not_self _)
      distribution_left := equivalent_distrib_left o a b c
      distribution_right := equivalent_distrib_right o a b c
      absorption_right := equivalent_bin_left o fun v => o.apply_absorb _ _
      absorption_left := equivalent_bin_right o fun v =>
        (o.apply_comm _ _).trans (o.apply_absorb _ _)
      deMorgan := equivalent_deMorgan o a b }
  · refine equivalent_of_shared (fun v => Bool.not_not _) fun _ ha => ?_
    obtain ⟨x, hx⟩ := List.exists_mem_of_ne_nil _ ha
    exact ⟨x, by rwa [kept_not, kept_not], hx⟩
  · rw [← Bool.not_eq_true]
    intro h
    have heq := truth_eq_of_equivalent h fun _ => false
    rw [truth] at heq
    cases hv : a.truth fun _ => false <;> rw [hv] at heq <;> cases heq

end Expr

end Propositional
