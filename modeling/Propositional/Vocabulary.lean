import Propositional.Expr.Basic

/-!
# Vocabularies

A vocabulary is a list of distinct texts in the order of their code points. It is what a truth
table is ranged over.

* `insert`, `ofList` and `union` keep the order and drop repetitions: `pairwise_ofList`.
* `mem_ofList`, `mem_union` say what a vocabulary holds.
* `mem_vocabulary`: the vocabulary of a formula holds the texts of its variables.

`Expr.vocabulary` is `all_vars`. A set of names is kept in order here; wherever names are shown or
given values they are sorted first. Out of scope: sets in another order.
-/

namespace Propositional

/-- A list of distinct texts in code-point order. -/
abbrev Vocabulary := List String

namespace Vocabulary

/-- The vocabulary with one more text. -/
def insert (x : String) : Vocabulary → Vocabulary
  | [] => [x]
  | y :: ys => if x < y then x :: y :: ys else if x = y then y :: ys else y :: insert x ys

/-- The distinct texts of a list, in order. -/
def ofList (xs : List String) : Vocabulary :=
  xs.foldr insert []

/-- The texts of two vocabularies together. -/
def union (xs ys : Vocabulary) : Vocabulary :=
  xs.foldr insert ys

/-- No text is in both. -/
def disjoint (xs ys : Vocabulary) : Bool :=
  xs.all fun x => !ys.contains x

theorem mem_insert {x z : String} {ys : Vocabulary} : z ∈ insert x ys ↔ z = x ∨ z ∈ ys := by
  induction ys with
  | nil => simp [insert]
  | cons y ys ih =>
    unfold insert
    split
    · simp
    · split
      · next h => subst h; simp
      · simp only [List.mem_cons, ih]
        constructor <;> rintro (h | h | h) <;> simp [h]

theorem mem_union {z : String} {xs ys : Vocabulary} : z ∈ union xs ys ↔ z ∈ xs ∨ z ∈ ys := by
  induction xs with
  | nil => simp [union]
  | cons x xs ih =>
    have : union (x :: xs) ys = insert x (union xs ys) := rfl
    rw [this, mem_insert, ih, List.mem_cons, or_assoc]

theorem mem_ofList {z : String} {xs : List String} : z ∈ ofList xs ↔ z ∈ xs := by
  have : ofList xs = union xs [] := rfl
  rw [this, mem_union]; simp

theorem pairwise_insert {x : String} {ys : Vocabulary} (h : ys.Pairwise (· < ·)) :
    (insert x ys).Pairwise (· < ·) := by
  induction ys with
  | nil => simp [insert]
  | cons y ys ih =>
    have hy := List.pairwise_cons.mp h
    unfold insert
    split
    · next hxy =>
      refine List.pairwise_cons.mpr ⟨fun z hz => ?_, h⟩
      rcases List.mem_cons.mp hz with rfl | hz
      · exact hxy
      · exact String.lt_trans hxy (hy.1 z hz)
    · split
      · exact h
      · next hxy hne =>
        refine List.pairwise_cons.mpr ⟨fun z hz => ?_, ih hy.2⟩
        rcases mem_insert.mp hz with rfl | hz
        · exact Classical.byContradiction fun hyz =>
            hne (String.le_antisymm (String.not_lt.mp hyz) (String.not_lt.mp hxy))
        · exact hy.1 z hz

theorem pairwise_union {xs ys : Vocabulary} (h : ys.Pairwise (· < ·)) :
    (union xs ys).Pairwise (· < ·) := by
  induction xs with
  | nil => exact h
  | cons x xs ih => exact pairwise_insert ih

theorem pairwise_ofList (xs : List String) : (ofList xs).Pairwise (· < ·) :=
  @pairwise_union xs [] List.Pairwise.nil

end Vocabulary

namespace Expr

/-- The distinct texts of the variables of a formula, in code-point order. -/
def vocabulary (e : Expr) : Vocabulary :=
  Vocabulary.ofList e.occurrences

theorem mem_vocabulary {x : String} {e : Expr} : x ∈ e.vocabulary ↔ x ∈ e.occurrences :=
  Vocabulary.mem_ofList

end Expr

end Propositional
