import Propositional.Interpretation

/-!
# Simplification and equivalence

`simplify` reduces a formula bottom-up, once, by the first rule that applies to the simplified
operands `l` and `r` of a connective with neutral constant `n` and absorbing constant `z`:

* `l ∘ n` and `n ∘ l` are `l`;
* `l ∘ z` and `z ∘ l` are `z`;
* `l ∘ r` is `l` when `l` and `r` are equivalent;
* `l ∘ r` is `z` when the negation of `l` and `r` are equivalent.

Equivalence is itself decided on simplified formulas (`verdict`): two constants are compared, two
formulas without a common variable are told apart without looking further, and all other pairs are
compared row by row. So each of the two calls the other, always on formulas with fewer leaves:
simplifying never adds a leaf and neither does negating.

* `simplify_not`, `simplify_bin` are the rules as equations.
* `leaves_simplify_le`: no leaf is added.

`simplify` is one pass of `Simplifier`, with `visit_or` and `visit_and` as one rule for a
connective, and `verdict` is what `is_equivalent_to` does once both sides are simplified. Out of
scope: remembered results and notes, which `Session` adds.
-/

namespace Propositional

/-- The outcome of comparing two simplified formulas. -/
inductive Verdict where
  /-- Neither has a variable; they are the same constant or not. -/
  | constants (same : Bool)
  /-- Both have variables, none in common. -/
  | disjoint
  /-- The two differ in this row. -/
  | counterexample (row : Row)
  /-- The two agree in every row. -/
  | agree
  deriving DecidableEq

/-- The verdict says that the formulas are equivalent. -/
def Verdict.holds : Verdict → Bool
  | .constants same => same
  | .disjoint => false
  | .counterexample _ => false
  | .agree => true

namespace Expr

/-- Compares two simplified formulas. -/
def verdict (a b : Expr) : Verdict :=
  if a.vocabulary.isEmpty && b.vocabulary.isEmpty then
    .constants (a = b)
  else if !a.vocabulary.isEmpty && !b.vocabulary.isEmpty
      && Vocabulary.disjoint a.vocabulary b.vocabulary then
    .disjoint
  else
    match firstRow (fun row => a.eval row.interpretation != b.eval row.interpretation)
        (Vocabulary.union a.vocabulary b.vocabulary) with
    | some row => .counterexample row
    | none => .agree

/-- The negation of a simplified formula: a constant is flipped and a second negation cancels. -/
def negateSimplified : Expr → Expr
  | const b => const (!b)
  | not e => e
  | e => not e

theorem leaves_negateSimplified_le (e : Expr) : e.negateSimplified.leaves ≤ e.leaves := by
  cases e <;> exact Nat.le_refl _

/-- The rules for a connective, before equivalence is asked for: the result where a constant
decides. -/
def absorb? (c : Connective) (l r : Expr) : Option Expr :=
  if r = const c.neutral then some l
  else if l = const c.neutral then some r
  else if l = const c.absorbing ∨ r = const c.absorbing then some (const c.absorbing)
  else none

theorem leaves_le_of_absorb? {c : Connective} {l r e : Expr} (h : absorb? c l r = some e) :
    e.leaves ≤ l.leaves + r.leaves := by
  have hl := leaves_pos l
  unfold absorb? at h
  split at h
  · cases h; omega
  · split at h
    · cases h; omega
    · split at h
      · cases h; simp only [leaves]; omega
      · cases h

theorem leaves_left_lt {c : Connective} {s l r : Expr} (h : s.leaves ≤ l.leaves) :
    s.leaves < (bin c l r).leaves :=
  Nat.lt_of_le_of_lt h (Nat.lt_add_of_pos_right (leaves_pos r))

theorem leaves_right_lt {c : Connective} {s l r : Expr} (h : s.leaves ≤ r.leaves) :
    s.leaves < (bin c l r).leaves :=
  Nat.lt_of_le_of_lt h (Nat.lt_add_of_pos_left (leaves_pos l))

/-- `simplify` together with the fact that its recursion rests on: no leaf is added. -/
def simplifyBounded : (e : Expr) → { s : Expr // s.leaves ≤ e.leaves }
  | const b => ⟨const b, Nat.le_refl _⟩
  | var x => ⟨var x, Nat.le_refl _⟩
  | not e =>
    let s := simplifyBounded e
    ⟨s.1.negateSimplified, Nat.le_trans (leaves_negateSimplified_le s.1) s.2⟩
  | bin c l r =>
    let l' := simplifyBounded l
    let r' := simplifyBounded r
    have hl : l'.1.leaves ≤ (bin c l r).leaves := Nat.le_trans l'.2 (Nat.le_add_right _ _)
    match h : absorb? c l'.1 r'.1 with
    | some e =>
      ⟨e, Nat.le_trans (leaves_le_of_absorb? h) (Nat.add_le_add l'.2 r'.2)⟩
    | none =>
      if (verdict (simplifyBounded l'.1).1 (simplifyBounded r'.1).1).holds then
        ⟨l'.1, hl⟩
      else if (verdict (simplifyBounded l'.1.negate).1 (simplifyBounded r'.1).1).holds then
        ⟨const c.absorbing, leaves_pos _⟩
      else
        ⟨bin c l'.1 r'.1, Nat.add_le_add l'.2 r'.2⟩
  termination_by e => (e.leaves, e.size)
  decreasing_by
    · exact Prod.Lex.right _ (Nat.lt_add_of_pos_left Nat.one_pos)
    · exact Prod.Lex.left _ _ (Nat.lt_add_of_pos_right (leaves_pos r))
    · exact Prod.Lex.left _ _ (Nat.lt_add_of_pos_left (leaves_pos l))
    · exact Prod.Lex.left _ _ (leaves_left_lt l'.2)
    · exact Prod.Lex.left _ _ (leaves_right_lt r'.2)
    · exact Prod.Lex.left _ _ (leaves_left_lt (Nat.le_trans (Nat.le_of_eq (leaves_negate _)) l'.2))

/-- The formula simplified in one bottom-up pass. -/
def simplify (e : Expr) : Expr :=
  e.simplifyBounded.1

/-- Whether two formulas are equivalent, decided on their simplified forms. -/
def equivalent (a b : Expr) : Bool :=
  (verdict a.simplify b.simplify).holds

/-- Two simplified formulas joined by a connective. -/
def joinSimplified (c : Connective) (l r : Expr) : Expr :=
  match absorb? c l r with
  | some e => e
  | none =>
    if equivalent l r then l
    else if equivalent l.negate r then const c.absorbing
    else bin c l r

theorem leaves_simplify_le (e : Expr) : e.simplify.leaves ≤ e.leaves :=
  e.simplifyBounded.2

@[simp] theorem simplify_const (b : Bool) : simplify (const b) = const b := by
  simp [simplify, simplifyBounded]

@[simp] theorem simplify_var (x : Name) : simplify (var x) = var x := by
  simp [simplify, simplifyBounded]

theorem simplify_not (e : Expr) : simplify (not e) = e.simplify.negateSimplified := by
  simp [simplify, simplifyBounded]

theorem simplify_bin (c : Connective) (l r : Expr) :
    simplify (bin c l r) = joinSimplified c l.simplify r.simplify := by
  unfold joinSimplified equivalent simplify
  rw [simplifyBounded]
  split
  · next h => simp only [h]
  · next h =>
    simp only [h]
    split
    · rfl
    · split <;> rfl

end Expr

end Propositional
