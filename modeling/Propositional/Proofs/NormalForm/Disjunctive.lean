import Propositional.NormalForm.Disjunctive
import Propositional.Proofs.NormalForm.Negation
import Propositional.Proofs.Simplify.Shape

/-!
# Disjunctive normal form

Distribution converts the results of its own calls once more, so no induction on formulas follows
it. `distribute_induction` is the induction that does; from it comes `Distributes`, the successful
calls as a relation, over which each property of the result is one short induction.

Results:
* `distributes_of_distribute`: each successful call is a derivation of `Distributes`.
* `exists_distribute_of_isNnf`: on a formula in negation normal form the call succeeds.
* `Distributes.isNormal`, `Distributes.mem_vocabulary`, `Distributes.truth_eq`: the result is in
  both normal forms, over the same variables, with the same truth function.
* `toDnf_normalises`: the whole way from any formula.
-/

namespace Propositional

namespace Expr

/-! ## Both normal forms -/

/-- The formula is in disjunctive and in negation normal form. Neither implies the other. -/
structure IsNormal (e : Expr) : Prop where
  isDnf : e.isDnf = true
  isNnf : e.isNnf = true

theorem IsNormal.or {l r : Expr} (hl : IsNormal l) (hr : IsNormal r) : IsNormal (or l r) where
  isDnf := by rw [Expr.isDnf, hl.isDnf, hr.isDnf, Bool.and_self]
  isNnf := by rw [Expr.isNnf, hl.isNnf, hr.isNnf, Bool.and_self]

theorem IsNormal.of_or {l r : Expr} (h : IsNormal (.or l r)) : IsNormal l ∧ IsNormal r := by
  obtain ⟨hdnf, hnnf⟩ := h
  rw [Expr.isDnf, Bool.and_eq_true] at hdnf
  rw [Expr.isNnf, Bool.and_eq_true] at hnnf
  exact ⟨⟨hdnf.1, hnnf.1⟩, ⟨hdnf.2, hnnf.2⟩⟩

theorem isNormal_of_isLiteral {e : Expr} (h : e.isLiteral = true) : IsNormal e := by
  cases e with
  | const | var => exact ⟨rfl, rfl⟩
  | bin => cases h
  | not e =>
    cases e with
    | var => exact ⟨rfl, rfl⟩
    | const | not | bin => cases h

theorem isClauseOf_bin {c d : Connective} {l r : Expr} :
    (bin d l r).isClauseOf c = true ↔ c = d ∧ l.isClauseOf c = true ∧ r.isClauseOf c = true := by
  rw [isClauseOf, Bool.and_eq_true, Bool.and_eq_true, decide_eq_true_eq, and_assoc]

theorem isDnf_and (l r : Expr) : (and l r).isDnf = (and l r).isClauseOf .and :=
  (isClauseOf_bin_self .and l r).symm

theorem isNormal_of_isClauseOf {c : Connective} {e : Expr} (h : e.isClauseOf c = true) :
    IsNormal e := by
  induction e with
  | const | var | not => exact isNormal_of_isLiteral h
  | bin d l r ihl ihr =>
    obtain ⟨rfl, hl, hr⟩ := isClauseOf_bin.mp h
    cases c with
    | and =>
      refine ⟨(isDnf_and l r).trans h, ?_⟩
      rw [isNnf, (ihl hl).isNnf, (ihr hr).isNnf, Bool.and_self]
    | or => exact (ihl hl).or (ihr hr)

/-- A clause is a clause of one of the connectives. -/
theorem isClause_iff_exists {e : Expr} :
    e.isClause = true ↔ ∃ c, e.isClauseOf c = true := by
  cases e with
  | const | var | not => exact ⟨fun h => ⟨.and, h⟩, fun ⟨_, h⟩ => h⟩
  | bin d l r =>
    constructor
    · exact fun h => ⟨d, (isClauseOf_bin_self d l r).trans h⟩
    · rintro ⟨c, h⟩
      obtain ⟨rfl, -, -⟩ := isClauseOf_bin.mp h
      exact (isClauseOf_bin_self c l r).symm.trans h

/-- A clause is in both normal forms. -/
theorem isNormal_of_isClause {e : Expr} (h : e.isClause = true) : IsNormal e := by
  obtain ⟨c, hc⟩ := isClause_iff_exists.mp h
  exact isNormal_of_isClauseOf hc

/-! ## The cases, and the induction that follows the calls -/

theorem distributed_of_distribute {e r : Expr} (h : e.distribute = .ok r) : Distributed e r where
  clauseCount_eq := clauseCount_of_distribute h
  eq_of_isClause hc := by
    rw [distribute_of_isClause hc] at h
    exact (Except.ok.inj h).symm
  isDisjunction := isDisjunction_of_distribute h

theorem eq_or_of_isDisjunction {e : Expr} (h : e.isDisjunction = true) : ∃ x y, e = or x y := by
  cases e with
  | const | var | not => cases h
  | bin c x y =>
    cases c with
    | and => cases h
    | or => exact ⟨x, y, rfl⟩

/-- **The cases of distribution**, by the rule that a call goes by. The last one is a conjunction
without a disjunction on either side. -/
@[elab_as_elim]
theorem distribute_cases {motive : Expr → Prop}
    (clause : ∀ e, e.isClause = true → motive e)
    (not : ∀ e, (Expr.not e).isClause ≠ true → motive (.not e))
    (or : ∀ l r, (Expr.or l r).isClause ≠ true → motive (.or l r))
    (and_or_left : ∀ x y r, (Expr.and (.or x y) r).isClause ≠ true → motive (.and (.or x y) r))
    (and_or_right : ∀ l x y, (Expr.and l (.or x y)).isClause ≠ true → l.isDisjunction = false →
      motive (.and l (.or x y)))
    (and : ∀ l r, (Expr.and l r).isClause ≠ true → l.isDisjunction = false →
      r.isDisjunction = false → motive (.and l r)) (e : Expr) : motive e := by
  by_cases hc : e.isClause = true
  · exact clause e hc
  match e, hc with
  | .const _, hc | .var _, hc => exact absurd rfl hc
  | .not e, hc => exact not e hc
  | .bin .or l r, hc => exact or l r hc
  | .bin .and l r, hc =>
    cases hl : l.isDisjunction with
    | true =>
      obtain ⟨x, y, rfl⟩ := eq_or_of_isDisjunction hl
      exact and_or_left x y r hc
    | false =>
      cases hr : r.isDisjunction with
      | true =>
        obtain ⟨x, y, rfl⟩ := eq_or_of_isDisjunction hr
        exact and_or_right l x y hc hl
      | false => exact and l r hc hl hr

/-- **Induction along the calls of distribution.** The last case may use the property of the
conjunction of the converted sides. -/
@[elab_as_elim]
theorem distribute_induction {motive : Expr → Prop}
    (clause : ∀ e, e.isClause = true → motive e)
    (not : ∀ e, (Expr.not e).isClause ≠ true → motive (.not e))
    (or : ∀ l r, (Expr.or l r).isClause ≠ true → motive l → motive r → motive (.or l r))
    (and_or_left : ∀ x y r, (Expr.and (.or x y) r).isClause ≠ true → motive (.and x r) →
      motive (.and y r) → motive (.and (.or x y) r))
    (and_or_right : ∀ l x y, (Expr.and l (.or x y)).isClause ≠ true → l.isDisjunction = false →
      motive (.and l x) → motive (.and l y) → motive (.and l (.or x y)))
    (and : ∀ l r, (Expr.and l r).isClause ≠ true → l.isDisjunction = false →
      r.isDisjunction = false → motive l → motive r →
      (∀ l' r', l.distribute = .ok l' → r.distribute = .ok r' → motive (.and l' r')) →
      motive (.and l r)) (e : Expr) : motive e := by
  have wf : WellFounded fun e f : Expr =>
      Prod.Lex (· < ·) (Prod.Lex (· < ·) (· < ·)) e.distributeRank f.distributeRank :=
    (invImage distributeRank inferInstance).wf
  induction e using wf.induction with
  | h e ih =>
    cases e using distribute_cases with
    | clause e hc => exact clause e hc
    | not e hc => exact not e hc
    | or l r hc =>
      exact or l r hc (ih l (Prod.Lex.left _ _ (Nat.lt_add_of_pos_right r.clauseCount_pos)))
        (ih r (Prod.Lex.left _ _ (Nat.lt_add_of_pos_left l.clauseCount_pos)))
    | and_or_left x y r hc =>
      obtain ⟨hx, hy⟩ := clauseCount_left_lt (r := r) (rfl : Expr.or x y = Expr.or x y)
      exact and_or_left x y r hc (ih _ (Prod.Lex.left _ _ hx)) (ih _ (Prod.Lex.left _ _ hy))
    | and_or_right l x y hc hl =>
      obtain ⟨hx, hy⟩ := clauseCount_right_lt (l := l) (rfl : Expr.or x y = Expr.or x y)
      exact and_or_right l x y hc hl (ih _ (Prod.Lex.left _ _ hx)) (ih _ (Prod.Lex.left _ _ hy))
    | and l r hc hl hr =>
      obtain ⟨hlt, hrt⟩ := rank_lt_of_no_disjunction hl hr
      exact and l r hc hl hr (ih l hlt) (ih r hrt) fun l' r' hl' hr' =>
        ih _ (rank_and_lt hc hl hr (distributed_of_distribute hl') (distributed_of_distribute hr'))

/-! ## The successful calls as a relation -/

/-- Distribution takes the first formula to the second. -/
inductive Distributes : Expr → Expr → Prop
  /-- A clause stays as it is. -/
  | clause {e : Expr} (h : e.isClause = true) : Distributes e e
  /-- A disjunction is converted side by side. -/
  | or {l r l' r' : Expr} (hl : Distributes l l') (hr : Distributes r r') :
      Distributes (or l r) (or l' r')
  /-- A conjunction is distributed over a disjunction on its left. -/
  | and_or_left {x y r x' y' : Expr} (hx : Distributes (and x r) x')
      (hy : Distributes (and y r) y') : Distributes (and (or x y) r) (or x' y')
  /-- A conjunction is distributed over a disjunction on its right. -/
  | and_or_right {l x y x' y' : Expr} (hx : Distributes (and l x) x')
      (hy : Distributes (and l y) y') : Distributes (and l (or x y)) (or x' y')
  /-- Both sides of a conjunction are converted, and then the conjunction of the results. -/
  | and {l r l' r' s : Expr} (hl : Distributes l l') (hr : Distributes r r')
      (hs : Distributes (and l' r') s) : Distributes (and l r) s

/-- Two calls in a row succeed iff each of them does. -/
theorem bind_eq_ok_iff {a b : Except NotNnf Expr} {f : Expr → Expr → Except NotNnf Expr}
    {s : Expr} : (do f (← a) (← b)) = .ok s ↔ ∃ x y, a = .ok x ∧ b = .ok y ∧ f x y = .ok s := by
  cases a with
  | error => simp [bind, Except.bind]
  | ok x =>
    cases b with
    | error => simp [bind, Except.bind]
    | ok y => simp [bind, Except.bind]

/-- **Each successful call is a derivation.** -/
theorem distributes_of_distribute {e s : Expr} (h : e.distribute = .ok s) : Distributes e s := by
  induction e using distribute_induction generalizing s with
  | clause e hc =>
    rw [distribute_of_isClause hc] at h
    cases h
    exact .clause hc
  | not e hc =>
    rw [distribute_not hc] at h
    cases h
  | or l r hc ihl ihr =>
    rw [distribute_or hc, bind_eq_ok_iff] at h
    obtain ⟨l', r', hl, hr, hs⟩ := h
    cases hs
    exact .or (ihl hl) (ihr hr)
  | and_or_left x y r hc ihx ihy =>
    rw [distribute_and_or_left hc, bind_eq_ok_iff] at h
    obtain ⟨x', y', hx, hy, hs⟩ := h
    cases hs
    exact .and_or_left (ihx hx) (ihy hy)
  | and_or_right l x y hc hl ihx ihy =>
    rw [distribute_and_or_right hc hl, bind_eq_ok_iff] at h
    obtain ⟨x', y', hx, hy, hs⟩ := h
    cases hs
    exact .and_or_right (ihx hx) (ihy hy)
  | and l r hc hl hr ihl ihr ihs =>
    rw [distribute_and hc hl hr, bind_eq_ok_iff] at h
    obtain ⟨l', r', hl', hr', hs⟩ := h
    exact .and (ihl hl') (ihr hr') (ihs l' r' hl' hr' hs)

/-! ## What distribution gives -/

/-- **The result of distribution is in both normal forms.** -/
theorem Distributes.isNormal {e s : Expr} (h : Distributes e s) : IsNormal s := by
  induction h with
  | clause h => exact isNormal_of_isClause h
  | or _ _ ihl ihr => exact ihl.or ihr
  | and_or_left _ _ ihx ihy => exact ihx.or ihy
  | and_or_right _ _ ihx ihy => exact ihx.or ihy
  | and _ _ _ _ _ ihs => exact ihs

theorem Distributes.mem_vocabulary {e s : Expr} (h : Distributes e s) {x : String} :
    x ∈ s.vocabulary ↔ x ∈ e.vocabulary := by
  induction h with
  | clause => exact Iff.rfl
  | or _ _ ihl ihr => simp only [mem_vocabulary_bin, ihl, ihr]
  | and_or_left _ _ ihx ihy =>
    simp only [mem_vocabulary_bin, ihx, ihy]
    exact or_or_distrib_right.symm
  | and_or_right _ _ ihx ihy =>
    simp only [mem_vocabulary_bin, ihx, ihy]
    exact or_or_distrib_left.symm
  | and _ _ _ ihl ihr ihs => simp only [ihs, mem_vocabulary_bin, ihl, ihr]

/-- **Distribution keeps the truth function.** -/
theorem Distributes.truth_eq {e s : Expr} (h : Distributes e s) (v : Valuation) :
    s.truth v = e.truth v := by
  induction h with
  | clause => rfl
  | or _ _ ihl ihr => rw [truth, ihl, ihr, truth]
  | and_or_left _ _ ihx ihy =>
    simp only [truth, ihx, ihy, Connective.apply]
    exact (Bool.and_or_distrib_right _ _ _).symm
  | and_or_right _ _ ihx ihy =>
    simp only [truth, ihx, ihy, Connective.apply]
    exact (Bool.and_or_distrib_left _ _ _).symm
  | and _ _ _ ihl ihr ihs => rw [ihs, truth, ihl, ihr, truth]

/-- A conjunction of converted sides is in negation normal form. -/
theorem isNnf_and_of_distribute {l r l' r' : Expr} (hl : l.distribute = .ok l')
    (hr : r.distribute = .ok r') : (and l' r').isNnf = true := by
  rw [isNnf, (distributes_of_distribute hl).isNormal.isNnf,
    (distributes_of_distribute hr).isNormal.isNnf, Bool.and_self]

/-- **Distribution succeeds in negation normal form.** -/
theorem exists_distribute_of_isNnf {e : Expr} (h : e.isNnf = true) :
    ∃ s, e.distribute = .ok s := by
  induction e using distribute_induction with
  | clause e hc => exact ⟨e, distribute_of_isClause hc⟩
  | not e hc =>
    -- In negation normal form only a variable is negated, and that is a clause.
    cases e with
    | var => exact absurd rfl hc
    | const | not | bin => cases h
  | or l r hc ihl ihr =>
    rw [isNnf, Bool.and_eq_true] at h
    obtain ⟨l', hl'⟩ := ihl h.1
    obtain ⟨r', hr'⟩ := ihr h.2
    exact ⟨or l' r', by rw [distribute_or hc, hl', hr']; rfl⟩
  | and_or_left x y r hc ihx ihy =>
    simp only [isNnf, Bool.and_eq_true] at h ihx ihy
    obtain ⟨x', hx'⟩ := ihx ⟨h.1.1, h.2⟩
    obtain ⟨y', hy'⟩ := ihy ⟨h.1.2, h.2⟩
    exact ⟨or x' y', by rw [distribute_and_or_left hc, hx', hy']; rfl⟩
  | and_or_right l x y hc hl ihx ihy =>
    simp only [isNnf, Bool.and_eq_true] at h ihx ihy
    obtain ⟨x', hx'⟩ := ihx ⟨h.1, h.2.1⟩
    obtain ⟨y', hy'⟩ := ihy ⟨h.1, h.2.2⟩
    exact ⟨or x' y', by rw [distribute_and_or_right hc hl, hx', hy']; rfl⟩
  | and l r hc hl hr ihl ihr ihs =>
    rw [isNnf, Bool.and_eq_true] at h
    obtain ⟨l', hl'⟩ := ihl h.1
    obtain ⟨r', hr'⟩ := ihr h.2
    obtain ⟨s, hs⟩ := ihs l' r' hl' hr' (isNnf_and_of_distribute hl' hr')
    exact ⟨s, by rw [distribute_and hc hl hr, hl', hr']; exact hs⟩

/-- **Every formula has its disjunctive normal form.** Distribution never stops at a negation, and
the result is in disjunctive and in negation normal form, over variables of the formula, with its
value wherever it has one. -/
theorem toDnf_normalises (e : Expr) :
    ∃ d, e.toDnf = .ok d ∧ d.isDnf = true ∧ d.isNnf = true ∧
      (∀ x ∈ d.vocabulary, x ∈ e.vocabulary) ∧
      ∀ (i : Interpretation) (b : Bool), e.eval i = some b → d.eval i = some b := by
  obtain ⟨d, hd⟩ := exists_distribute_of_isNnf (isNnf_simplify (isNnf_toNnf e))
  have hrel := distributes_of_distribute hd
  have hsub : ∀ x ∈ d.vocabulary, x ∈ e.vocabulary := by
    intro x hx
    rw [← vocabulary_toNnf]
    exact mem_vocabulary_of_simplify (hrel.mem_vocabulary.mp hx)
  have htruth : ∀ v, d.truth v = e.truth v := by
    intro v
    rw [hrel.truth_eq, truth_simplify, truth_toNnf]
  exact ⟨d, hd, hrel.isNormal.isDnf, hrel.isNormal.isNnf, hsub,
    fun i b => eval_of_truth_eq hsub htruth⟩

end Expr

end Propositional
