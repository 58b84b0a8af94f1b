import Propositional.Vocabulary

/-!
# Interpretations and truth values

An interpretation gives some texts a truth value and leaves the others unassigned. A *row* is a
finite interpretation, written as a list of pairs; the rows over a vocabulary are listed with
`false` before `true`, the first text varying slowest, so row number `r` spells `r` in binary.

* `Expr.eval` is strict: a formula has a value only if each of its variables is assigned, even
  where one operand alone would decide.
* `firstRow` finds the first row with a property without listing the rows: `firstRow_eq_find?`.
* `length_rows`: each text doubles the number of rows.

`Expr.eval` is `evaluate` with the methods of `Evaluator`, and `rows` is `interpretations` for names
that are sorted and distinct already. Out of scope: interpretations with other values than the two
truth values.
-/

namespace Propositional

/-- A truth value for some texts. -/
abbrev Interpretation := String → Option Bool

/-- The truth value of a formula, if all its variables are assigned. -/
def Expr.eval (i : Interpretation) : Expr → Option Bool
  | .const b => some b
  | .var x => i x.text
  | .not e =>
    match e.eval i with
    | some b => some (!b)
    | none => none
  | .bin c l r =>
    match l.eval i, r.eval i with
    | some a, some b => some (c.apply a b)
    | _, _ => none

/-- An interpretation written out as pairs. -/
abbrev Row := List (String × Bool)

/-- The interpretation that a row writes out. -/
def Row.interpretation (row : Row) : Interpretation :=
  fun x => row.lookup x

/-- All rows over a vocabulary, counting upward from all false. -/
def rows : Vocabulary → List Row
  | [] => [[]]
  | x :: xs => (rows xs).map ((x, false) :: ·) ++ (rows xs).map ((x, true) :: ·)

/-- The number of rows over a vocabulary: two to the number of its texts. -/
def rowCount : Vocabulary → Nat
  | [] => 1
  | _ :: xs => 2 * rowCount xs

/-- The first row over a vocabulary with the property `p`. -/
def firstRow (p : Row → Bool) : Vocabulary → Option Row
  | [] => if p [] then some [] else none
  | x :: xs =>
    match firstRow (fun row => p ((x, false) :: row)) xs with
    | some row => some ((x, false) :: row)
    | none => (firstRow (fun row => p ((x, true) :: row)) xs).map ((x, true) :: ·)

@[simp] theorem length_rows (xs : Vocabulary) : (rows xs).length = rowCount xs := by
  induction xs with
  | nil => rfl
  | cons x xs ih => simp only [rows, rowCount, List.length_append, List.length_map, ih, Nat.two_mul]

theorem firstRow_eq_find? (p : Row → Bool) (xs : Vocabulary) :
    firstRow p xs = (rows xs).find? p := by
  induction xs generalizing p with
  | nil => cases h : p [] <;> simp [firstRow, rows, h]
  | cons x xs ih =>
    simp only [firstRow, rows, List.find?_append, List.find?_map, ih, Function.comp_def]
    cases (rows xs).find? fun row => p ((x, false) :: row) <;> rfl

end Propositional
