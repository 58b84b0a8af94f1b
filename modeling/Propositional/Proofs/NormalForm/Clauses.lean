import Mathlib.Data.Multiset.Bind
import Propositional.Proofs.NormalForm.Disjunctive

/-!
# The clauses of a disjunctive normal form

By the distributive law a formula stands for a collection of conjunctive clauses: a disjunction for
those of both sides, a conjunction for every clause of the left side followed by every clause of the
right one. Distribution expands in an order that depends on where it meets a disjunction, and it
expands what it has expanded already; so it is the collection that is kept, not the order. As
repetitions count, no clause is lost, made up or made twice.

Results:
* `card_distributedClauses`: the measure that `distribute` ends by is the number of these clauses.
* `Distributes.distributedClauses_eq`: distribution keeps the collection.
* `coe_clauses`: of a formula in both normal forms it is read off, disjunct by disjunct.
* `clauses_of_distribute`: so the disjuncts of the result are exactly the clauses of the formula.
-/

namespace Propositional

namespace Expr

/-- The operands of the disjunctions at the top of the formula, left to right. -/
def disjuncts : Expr → List Expr
  | or l r => l.disjuncts ++ r.disjuncts
  | e => [e]

/-- The operands of the conjunctions at the top of the formula, left to right. -/
def conjuncts : Expr → List Expr
  | and l r => l.conjuncts ++ r.conjuncts
  | e => [e]

/-- The disjuncts of the formula, each written as the list of its conjuncts. -/
def clauses (e : Expr) : List (List Expr) :=
  e.disjuncts.map conjuncts

/-- The clauses that the distributive law makes of the formula, with their repetitions. -/
def distributedClauses : Expr → Multiset (List Expr)
  | or l r => l.distributedClauses + r.distributedClauses
  | and l r => l.distributedClauses.bind fun x => r.distributedClauses.map fun y => x ++ y
  | e => {[e]}

/-- What the calls of distribution are counted down by is the number of clauses. -/
theorem card_distributedClauses (e : Expr) :
    Multiset.card e.distributedClauses = e.clauseCount := by
  induction e with
  | const | var | not => rfl
  | bin c l r ihl ihr =>
    cases c with
    | and =>
      simp only [distributedClauses, Multiset.card_bind, Function.comp_def, Multiset.card_map,
        Multiset.map_const', Multiset.sum_replicate, ihl, ihr, clauseCount]
      exact Nat.nsmul_eq_mul _ _
    | or => rw [distributedClauses, Multiset.card_add, ihl, ihr, clauseCount]

/-- **Distribution keeps the clauses.** -/
theorem Distributes.distributedClauses_eq {e s : Expr} (h : Distributes e s) :
    s.distributedClauses = e.distributedClauses := by
  induction h with
  | clause => rfl
  | or _ _ ihl ihr => rw [distributedClauses, ihl, ihr, distributedClauses]
  | and_or_left _ _ ihx ihy =>
    simp only [distributedClauses] at ihx ihy ⊢
    rw [ihx, ihy, Multiset.add_bind]
  | and_or_right _ _ ihx ihy =>
    simp only [distributedClauses] at ihx ihy ⊢
    simp only [ihx, ihy, Multiset.map_add, Multiset.bind_add]
  | and _ _ _ ihl ihr ihs => rw [ihs, distributedClauses, ihl, ihr, distributedClauses]

/-! ## Reading the clauses off a result -/

/-- A conjunctive clause stands for itself. -/
theorem distributedClauses_of_isClauseOf_and {e : Expr} (h : e.isClauseOf .and = true) :
    e.distributedClauses = {e.conjuncts} := by
  induction e with
  | const | var | not => rfl
  | bin c l r ihl ihr =>
    obtain ⟨rfl, hl, hr⟩ := isClauseOf_bin.mp h
    simp only [distributedClauses, conjuncts, ihl hl, ihr hr, Multiset.singleton_bind,
      Multiset.map_singleton]

/-- Each disjunct of a formula in both normal forms is a conjunctive clause. -/
theorem IsNormal.isClauseOf_and {e : Expr} (h : IsNormal e) :
    ∀ d ∈ e.disjuncts, d.isClauseOf .and = true := by
  induction e with
  | const | var =>
    intro d hd
    rw [List.mem_singleton.mp hd]
    rfl
  | not e =>
    intro d hd
    rw [List.mem_singleton.mp hd]
    cases e with
    | var => rfl
    | const | not | bin => cases h.isNnf
  | bin c l r ihl ihr =>
    cases c with
    | and =>
      intro d hd
      rw [List.mem_singleton.mp hd, isClauseOf_bin_self]
      exact h.isDnf
    | or =>
      obtain ⟨hl, hr⟩ := h.of_or
      intro d hd
      rcases List.mem_append.mp hd with hd | hd
      · exact ihl hl d hd
      · exact ihr hr d hd

/-- Where each disjunct is a conjunctive clause, the disjuncts are the clauses. -/
theorem coe_clauses {e : Expr} (h : ∀ d ∈ e.disjuncts, d.isClauseOf .and = true) :
    (e.clauses : Multiset (List Expr)) = e.distributedClauses := by
  induction e with
  | const | var | not => rfl
  | bin c l r ihl ihr =>
    cases c with
    | and => exact (distributedClauses_of_isClauseOf_and (h _ List.mem_cons_self)).symm
    | or =>
      have hl := ihl fun d hd => h d (List.mem_append_left _ hd)
      have hr := ihr fun d hd => h d (List.mem_append_right _ hd)
      rw [distributedClauses, ← hl, ← hr, Multiset.coe_add, clauses, disjuncts, List.map_append,
        clauses, clauses]

/-- **Distribution gives exactly the distributed clauses.** Of a formula in negation normal form it
makes a disjunction of conjunctive clauses, and as collections of lists of literals these are the
clauses of the distributive law: none is lost, none is made up, and none is made twice. -/
theorem clauses_of_distribute {e : Expr} (h : e.isNnf = true) :
    ∃ s, e.distribute = .ok s ∧ (∀ d ∈ s.disjuncts, d.isClauseOf .and = true) ∧
      (s.clauses : Multiset (List Expr)) = e.distributedClauses := by
  obtain ⟨s, hs⟩ := exists_distribute_of_isNnf h
  have hrel := distributes_of_distribute hs
  have hclauses := hrel.isNormal.isClauseOf_and
  exact ⟨s, hs, hclauses, (coe_clauses hclauses).trans hrel.distributedClauses_eq⟩

/-- A repeated disjunct gives a repeated clause: `(p | p) & (q | !r)` has four clauses, two of them
twice. -/
theorem clauses_of_repeated_disjunct : ∃ p q r : Name,
    (and (or (var p) (var p)) (or (var q) (not (var r)))).isNnf = true ∧
      ∃ s, (and (or (var p) (var p)) (or (var q) (not (var r)))).distribute = .ok s ∧
        (s.clauses : Multiset (List Expr)) =
          {[var p, var q], [var p, not (var r)], [var p, var q], [var p, not (var r)]} := by
  refine ⟨⟨"p", by decide⟩, ⟨"q", by decide⟩, ⟨"r", by decide⟩, rfl, ?_⟩
  obtain ⟨s, hs, -, hclauses⟩ := clauses_of_distribute (e := and
    (or (var ⟨"p", by decide⟩) (var ⟨"p", by decide⟩))
    (or (var ⟨"q", by decide⟩) (not (var ⟨"r", by decide⟩)))) rfl
  exact ⟨s, hs, hclauses.trans rfl⟩

end Expr

end Propositional
