import Propositional.Interpretation

/-!
# Truth tables

The value of a formula in each row over its vocabulary, and the same as aligned lines of text.

* `TruthTable.length_lines`: one heading and one line for each row.

`truthTable` is `truth_table` and `TruthTable.lines` is `format_truth_table`. Out of scope: the
width of characters on a screen, since columns are padded by the number of characters.
-/

namespace Propositional

namespace Expr

/-- Each row over the vocabulary of a formula, with the value of the formula there. -/
def truthTable (e : Expr) : List (Row × Option Bool) :=
  (rows e.vocabulary).map fun row => (row, e.eval row.interpretation)

end Expr

namespace TruthTable

/-- The text of a truth value in a table. -/
def valueText : Option Bool → String
  | some true => "true"
  | some false => "false"
  | none => "none"

/-- A text filled up with blanks to a number of characters. -/
def pad (width : Nat) (text : String) : String :=
  text ++ String.ofList (List.replicate (width - text.length) ' ')

/-- The width of the column of a text: room for the text and for both truth values. -/
def columnWidth (x : String) : Nat :=
  max x.length 5

/-- The cells of one line, each as wide as its column, with bars between them. -/
def cells (columns : List (String × String)) : String :=
  " | ".intercalate (columns.map fun (x, cell) => pad (columnWidth x) cell)

/-- One line of a table. Where there are no columns, nothing stands before the double bar. -/
def line (columns : List (String × String)) (result : String) : String :=
  if columns.isEmpty then "|| " ++ result else cells columns ++ " || " ++ result

/-- The heading of the table of a formula. -/
def heading (e : Expr) : String :=
  line (e.vocabulary.map fun x => (x, x)) e.display

/-- The line of one row. -/
def rowLine (row : Row) (value : Option Bool) : String :=
  line (row.map fun (x, b) => (x, valueText (some b))) (valueText value)

/-- The truth table of a formula as lines of text. -/
def lines (e : Expr) : List String :=
  heading e :: e.truthTable.map fun (row, value) => rowLine row value

theorem length_lines (e : Expr) : (lines e).length = rowCount e.vocabulary + 1 := by
  simp [lines, Expr.truthTable]

end TruthTable

end Propositional
