import Propositional.Proofs.Valuation

/-!
# Rows as interpretations

The rows over a vocabulary are the finite interpretations that a truth table or a comparison of two
formulas goes through. Nothing is lost by looking at them only.

Results:
* `mem_rows`: the rows over a vocabulary are all rows with exactly its texts.
* `interpretation_rowOf`: each valuation is one of them, as far as the vocabulary goes.
* `forall_rows_eval_eq_iff`: two formulas have the same values in all rows over their variables iff
  they have one truth function.
-/

namespace Propositional

/-- The row that gives each text of a vocabulary its value under a valuation. -/
def rowOf (v : Valuation) (xs : Vocabulary) : Row :=
  xs.map fun x => (x, v x)

theorem mem_rows {xs : Vocabulary} {row : Row} : row ∈ rows xs ↔ row.map Prod.fst = xs := by
  induction xs generalizing row with
  | nil => simp [rows]
  | cons x xs ih =>
    simp only [rows, List.mem_append, List.mem_map, ih]
    constructor
    · rintro (⟨row', rfl, rfl⟩ | ⟨row', rfl, rfl⟩) <;> rfl
    · intro h
      obtain ⟨⟨y, b⟩, row', rfl, rfl, rfl⟩ := List.map_eq_cons_iff.mp h
      cases b with
      | false => exact Or.inl ⟨row', rfl, rfl⟩
      | true => exact Or.inr ⟨row', rfl, rfl⟩

theorem rowOf_mem_rows (v : Valuation) (xs : Vocabulary) : rowOf v xs ∈ rows xs := by
  rw [mem_rows, rowOf, List.map_map]
  exact List.map_id xs

theorem interpretation_rowOf (v : Valuation) {xs : Vocabulary} {x : String} (h : x ∈ xs) :
    (rowOf v xs).interpretation x = some (v x) := by
  induction xs with
  | nil => exact absurd h List.not_mem_nil
  | cons y xs ih =>
    show List.lookup x ((y, v y) :: rowOf v xs) = some (v x)
    rw [List.lookup_cons]
    by_cases hxy : x = y
    · rw [hxy, beq_self_eq_true]
    · rw [beq_false_of_ne hxy]
      exact ih ((List.mem_cons.mp h).resolve_left hxy)

/-- A row assigns every text of the vocabulary that it is over. -/
theorem isSome_interpretation_of_mem_rows {xs : Vocabulary} {row : Row} (hrow : row ∈ rows xs)
    {x : String} (hx : x ∈ xs) : (row.interpretation x).isSome = true := by
  rw [← mem_rows.mp hrow] at hx
  unfold Row.interpretation
  obtain ⟨⟨y, b⟩, hmem, rfl⟩ := List.mem_map.mp hx
  exact List.lookup_isSome_iff.mpr ⟨_, hmem, beq_self_eq_true y⟩

theorem firstRow_eq_none_iff {p : Row → Bool} {xs : Vocabulary} :
    firstRow p xs = none ↔ ∀ row ∈ rows xs, p row = false := by
  rw [firstRow_eq_find?, List.find?_eq_none]
  simp only [Bool.not_eq_true]

namespace Expr

/-- **Going through the rows is enough.** -/
theorem forall_rows_eval_eq_iff {a b : Expr} (xs : Vocabulary)
    (ha : ∀ x ∈ a.vocabulary, x ∈ xs) (hb : ∀ x ∈ b.vocabulary, x ∈ xs) :
    (∀ row ∈ rows xs, a.eval row.interpretation = b.eval row.interpretation) ↔
      ∀ v, a.truth v = b.truth v := by
  constructor
  · intro h v
    have assigns : ∀ {e : Expr}, (∀ x ∈ e.vocabulary, x ∈ xs) →
        e.eval (rowOf v xs).interpretation = some (e.truth v) := by
      intro e he
      refine eval_eq_some_iff.mpr ⟨fun x hx => ?_, truth_congr fun x hx => ?_⟩
      · rw [interpretation_rowOf v (he x hx), Option.isSome_some]
      · rw [Interpretation.valuation, interpretation_rowOf v (he x hx), Option.getD_some]
    have hrow := h _ (rowOf_mem_rows v xs)
    rw [assigns ha, assigns hb] at hrow
    exact Option.some.inj hrow
  · intro h row hrow
    exact logicallyEquivalent_iff_truth.mpr h row.interpretation
      (fun x hx => isSome_interpretation_of_mem_rows hrow (ha x hx))
      (fun x hx => isSome_interpretation_of_mem_rows hrow (hb x hx))

end Expr

end Propositional
