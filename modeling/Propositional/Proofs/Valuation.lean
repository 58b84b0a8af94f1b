import Propositional.Interpretation

/-!
# Formulas as truth functions

Evaluation under an interpretation is strict: a formula has a value only where each of its variables
is assigned. Here it is tied to the truth function of the formula, which reads a truth value for
every text (a *valuation*) and always has a value.

Results:
* `eval_of_assigns`, `eval_eq_some_iff`: where all variables are assigned, the value of a formula is
  the value of its truth function; elsewhere there is none.
* `eval_eq_of_truth_eq`: formulas over the same variables with one truth function have the same
  values under every interpretation, partial ones included.
* `truth_congr`: the truth function depends on the variables of the formula only.
* `truth_negate`: De Morgan negation negates the truth function.
* `logicallyEquivalent_iff_truth`, `constantly_iff_truth`: two formulas are equivalent under all
  interpretations that assign their variables iff they have one truth function, and likewise for
  a formula that always has one value.
* `Apart.truth_eq`: two formulas with one truth function and no common variable are constant.
-/

namespace Propositional

/-- A truth value for every text. -/
abbrev Valuation := String → Bool

namespace Valuation

/-- The interpretation that assigns every text. -/
def interpretation (v : Valuation) : Interpretation :=
  fun x => some (v x)

/-- The first valuation on a vocabulary, the second one elsewhere. -/
def splice (xs : Vocabulary) (v w : Valuation) : Valuation :=
  fun x => if x ∈ xs then v x else w x

theorem splice_of_mem {xs : Vocabulary} {x : String} (h : x ∈ xs) (v w : Valuation) :
    splice xs v w x = v x :=
  if_pos h

theorem splice_of_not_mem {xs : Vocabulary} {x : String} (h : x ∉ xs) (v w : Valuation) :
    splice xs v w x = w x :=
  if_neg h

end Valuation

namespace Interpretation

/-- The truth values of an interpretation, false where there is none. -/
def valuation (i : Interpretation) : Valuation :=
  fun x => (i x).getD false

/-- Every variable of the formula is assigned. -/
def Assigns (i : Interpretation) (e : Expr) : Prop :=
  ∀ x ∈ e.vocabulary, (i x).isSome = true

end Interpretation

namespace Expr

/-- The truth function of a formula. -/
def truth (v : Valuation) : Expr → Bool
  | const b => b
  | var x => v x.text
  | not e => !e.truth v
  | bin c l r => c.apply (l.truth v) (r.truth v)

/-! ## The vocabulary of a formula -/

@[simp] theorem vocabulary_const (b : Bool) : (const b).vocabulary = [] := rfl

@[simp] theorem mem_vocabulary_var {x : String} {n : Name} :
    x ∈ (var n).vocabulary ↔ x = n.text := by
  rw [mem_vocabulary]
  exact List.mem_singleton

@[simp] theorem vocabulary_not (e : Expr) : (not e).vocabulary = e.vocabulary := rfl

@[simp] theorem mem_vocabulary_bin {x : String} {c : Connective} {l r : Expr} :
    x ∈ (bin c l r).vocabulary ↔ x ∈ l.vocabulary ∨ x ∈ r.vocabulary := by
  simp only [mem_vocabulary, occurrences, List.mem_append]

/-- A text of a formula is the text of a name. -/
theorem exists_name_of_mem {x : String} {e : Expr} (h : x ∈ e.vocabulary) :
    ∃ n : Name, n.text = x := by
  induction e with
  | const => exact absurd h List.not_mem_nil
  | var n => exact ⟨n, (mem_vocabulary_var.mp h).symm⟩
  | not e ih => exact ih h
  | bin c l r ihl ihr => exact (mem_vocabulary_bin.mp h).elim ihl ihr

/-! ## Values under an interpretation -/

theorem assigns_not {i : Interpretation} {e : Expr} : i.Assigns (not e) ↔ i.Assigns e :=
  Iff.rfl

theorem assigns_bin {i : Interpretation} {c : Connective} {l r : Expr} :
    i.Assigns (bin c l r) ↔ i.Assigns l ∧ i.Assigns r := by
  simp only [Interpretation.Assigns, mem_vocabulary_bin, or_imp, forall_and]

theorem assigns_interpretation (v : Valuation) (e : Expr) : v.interpretation.Assigns e :=
  fun _ _ => rfl

theorem eval_of_assigns {i : Interpretation} {e : Expr} (h : i.Assigns e) :
    e.eval i = some (e.truth i.valuation) := by
  induction e with
  | const => rfl
  | var x =>
    obtain ⟨b, hb⟩ := Option.isSome_iff_exists.mp (h x.text (mem_vocabulary_var.mpr rfl))
    simp only [eval, truth, Interpretation.valuation, hb, Option.getD_some]
  | not e ih => simp only [eval, truth, ih (assigns_not.mp h)]
  | bin c l r ihl ihr =>
    obtain ⟨hl, hr⟩ := assigns_bin.mp h
    simp only [eval, truth, ihl hl, ihr hr]

theorem assigns_of_eval {i : Interpretation} {e : Expr} {b : Bool} (h : e.eval i = some b) :
    i.Assigns e := by
  induction e generalizing b with
  | const => exact fun x hx => absurd hx List.not_mem_nil
  | var x =>
    intro y hy
    rw [mem_vocabulary_var.mp hy, show i x.text = some b from h, Option.isSome_some]
  | not e ih =>
    rw [assigns_not]
    cases he : e.eval i with
    | none => rw [eval, he] at h; cases h
    | some a => exact ih he
  | bin c l r ihl ihr =>
    rw [assigns_bin]
    cases hl : l.eval i with
    | none => rw [eval, hl] at h; cases h
    | some a =>
      cases hr : r.eval i with
      | none => rw [eval, hl, hr] at h; cases h
      | some a' => exact ⟨ihl hl, ihr hr⟩

/-- **Evaluation is the truth function where all variables are assigned.** -/
theorem eval_eq_some_iff {i : Interpretation} {e : Expr} {b : Bool} :
    e.eval i = some b ↔ i.Assigns e ∧ e.truth i.valuation = b := by
  constructor
  · intro h
    have ha := assigns_of_eval h
    rw [eval_of_assigns ha] at h
    exact ⟨ha, Option.some.inj h⟩
  · rintro ⟨ha, rfl⟩
    exact eval_of_assigns ha

/-- A formula over some of the variables of another, with the same truth function, has the values
of the other. -/
theorem eval_of_truth_eq {e s : Expr} (hs : ∀ x ∈ s.vocabulary, x ∈ e.vocabulary)
    (ht : ∀ v, s.truth v = e.truth v) {i : Interpretation} {b : Bool} (h : e.eval i = some b) :
    s.eval i = some b := by
  obtain ⟨ha, hb⟩ := eval_eq_some_iff.mp h
  exact eval_eq_some_iff.mpr ⟨fun x hx => ha x (hs x hx), (ht _).trans hb⟩

/-- Formulas over the same variables with one truth function have the same values, and have none
under the same interpretations. -/
theorem eval_eq_of_truth_eq {a b : Expr} (hv : ∀ x, x ∈ a.vocabulary ↔ x ∈ b.vocabulary)
    (ht : ∀ v, a.truth v = b.truth v) (i : Interpretation) : a.eval i = b.eval i := by
  refine Option.ext fun value => ⟨?_, ?_⟩
  · exact eval_of_truth_eq (fun x => (hv x).mpr) fun v => (ht v).symm
  · exact eval_of_truth_eq (fun x => (hv x).mp) ht

/-! ## What the truth function depends on -/

theorem truth_congr {v w : Valuation} {e : Expr} (h : ∀ x ∈ e.vocabulary, v x = w x) :
    e.truth v = e.truth w := by
  induction e with
  | const => rfl
  | var x => exact h x.text (mem_vocabulary_var.mpr rfl)
  | not e ih => simp only [truth, ih h]
  | bin c l r ihl ihr =>
    simp only [mem_vocabulary_bin] at h
    simp only [truth, ihl fun x hx => h x (Or.inl hx), ihr fun x hx => h x (Or.inr hx)]

@[simp] theorem truth_negate (v : Valuation) (e : Expr) : e.negate.truth v = !e.truth v := by
  induction e with
  | const => rfl
  | var => rfl
  | not e => simp only [negate, truth, Bool.not_not]
  | bin c l r ihl ihr =>
    simp only [negate, truth, ihl, ihr, Connective.apply_dual, Bool.not_not]

/-! ## Logical equivalence -/

/-- Two formulas have the same value under every interpretation that assigns all variables of
both. -/
def LogicallyEquivalent (a b : Expr) : Prop :=
  ∀ i : Interpretation, i.Assigns a → i.Assigns b → a.eval i = b.eval i

/-- The formula has one value wherever it has a value: a tautology for `true`, unsatisfiable for
`false`. -/
def Constantly (value : Bool) (e : Expr) : Prop :=
  ∀ i : Interpretation, i.Assigns e → e.eval i = some value

/-- Both formulas have variables and none in common. -/
def Apart (a b : Expr) : Prop :=
  a.vocabulary ≠ [] ∧ b.vocabulary ≠ [] ∧ ∀ x ∈ a.vocabulary, x ∉ b.vocabulary

theorem logicallyEquivalent_iff_truth {a b : Expr} :
    LogicallyEquivalent a b ↔ ∀ v, a.truth v = b.truth v := by
  constructor
  · intro h v
    have hv := h v.interpretation (assigns_interpretation v a) (assigns_interpretation v b)
    rw [eval_of_assigns (assigns_interpretation v a),
      eval_of_assigns (assigns_interpretation v b)] at hv
    exact Option.some.inj hv
  · intro h i ha hb
    rw [eval_of_assigns ha, eval_of_assigns hb, h]

theorem constantly_iff_truth {value : Bool} {e : Expr} :
    Constantly value e ↔ ∀ v, e.truth v = value := by
  constructor
  · intro h v
    have hv := h v.interpretation (assigns_interpretation v e)
    rw [eval_of_assigns (assigns_interpretation v e)] at hv
    exact Option.some.inj hv
  · intro h i hi
    rw [eval_of_assigns hi, h]

/-- **Two formulas without a common variable and with one truth function are constant**: the
variables of each can be set freely while those of the other are kept. -/
theorem Apart.truth_eq {a b : Expr} (h : Apart a b) (ht : ∀ v, a.truth v = b.truth v)
    (v w : Valuation) : a.truth v = b.truth w := by
  obtain ⟨-, -, hd⟩ := h
  have ha : a.truth (.splice a.vocabulary v w) = a.truth v :=
    truth_congr fun x hx => Valuation.splice_of_mem hx v w
  have hb : b.truth (.splice a.vocabulary v w) = b.truth w :=
    truth_congr fun x hx => Valuation.splice_of_not_mem (fun hx' => hd x hx' hx) v w
  rw [← ha, ← hb, ht]

end Expr

end Propositional
