import Propositional.NormalForm.Disjunctive
import Propositional.Text.Quoted

/-!
# The steps of a computation

What a session notes down while it works (`Step`), and the remarks that are made about each note
(`Step.remarks`), one line for each. That two formulas were compared takes two remarks if their rows
were compared: how many rows there are is told first. A number is only written out up to
`digitLimit` digits, so there are comparisons that cannot be announced (`Remark.isWritable`).

These are the debug lines of `transformation_result`, `equivalence_result`, of the enumeration in
`is_equivalent_to` and of the start of a pass to negation normal form. Out of scope: the lines of
other parts of a program, which `Command.Event` adds.
-/

namespace Propositional

open Propositional.Text

/-- A finished or started part of a computation. -/
inductive Step where
  /-- A formula was simplified. -/
  | simplified (before after : Expr)
  /-- Two simplified formulas were compared. -/
  | compared (left right : Expr) (verdict : Verdict)
  /-- A formula is about to be put into negation normal form. -/
  | startedNnf (e : Expr)
  /-- A formula was put into negation normal form. -/
  | finishedNnf (before after : Expr)
  /-- A formula was put into disjunctive normal form. -/
  | finishedDnf (before after : Expr)
  deriving DecidableEq

/-- A truth value as notes show it. -/
def truthText (b : Bool) : String :=
  if b then "True" else "False"

/-- A vocabulary as notes show it. -/
def Vocabulary.display (xs : Vocabulary) : String :=
  "[" ++ ", ".intercalate (xs.map quote) ++ "]"

/-- A row as notes show it. -/
def Row.display (row : Row) : String :=
  "\x7b" ++ ", ".intercalate (row.map fun (x, b) => quote x ++ ": " ++ truthText b) ++ "\x7d"

/-- The reason given with a verdict, if one is given. -/
def Verdict.reason? : Verdict → Option String
  | .constants _ => some "constants"
  | .disjoint => some "disjoint variables"
  | .counterexample row => some ("counterexample " ++ row.display)
  | .agree => none

/-- The greatest number of digits with which a number is written out. -/
def digitLimit : Nat := 4300

/-- The least number with more digits. -/
def leastUnwritable : Nat := Nat.pow 10 digitLimit

/-- A remark about a step, which is shown as one line. -/
inductive Remark where
  /-- The rows over this vocabulary are about to be compared. -/
  | counted (xs : Vocabulary)
  | taken (step : Step)
  deriving DecidableEq

/-- The remark before a verdict: how many rows are compared, if rows are compared at all. -/
def Verdict.announcement? (verdict : Verdict) (xs : Vocabulary) : Option Remark :=
  match verdict with
  | .constants _ | .disjoint => none
  | .counterexample _ | .agree => some (.counted xs)

/-- The remarks about a step, in order. -/
def Step.remarks : Step → List Remark
  | .compared left right verdict =>
    (verdict.announcement? (Vocabulary.union left.vocabulary right.vocabulary)).toList ++
      [.taken (.compared left right verdict)]
  | step => [.taken step]

/-- The number of rows can be written out. It is so whether or not the remark is shown. -/
def Remark.isWritable : Remark → Bool
  | .counted xs => rowCount xs < leastUnwritable
  | .taken _ => true

theorem isWritable_counted {xs : Vocabulary} :
    (Remark.counted xs).isWritable = true ↔ rowCount xs < leastUnwritable := by
  rw [Remark.isWritable, decide_eq_true_eq]

/-- The line that describes a step. -/
def Step.message : Step → String
  | .simplified before after => "simplify: " ++ before.display ++ " → " ++ after.display
  | .compared left right verdict =>
    let reason :=
      match verdict.reason? with
      | some reason => " (" ++ reason ++ ")"
      | none => ""
    left.display ++ " ≡ " ++ right.display ++ ": " ++ truthText verdict.holds ++ reason
  | .startedNnf e => s!"Starting NNF transformation of {e.size} nodes, depth {e.depth}"
  | .finishedNnf before after => "NNF: " ++ before.display ++ " → " ++ after.display
  | .finishedDnf before after => "DNF: " ++ before.display ++ " → " ++ after.display

/-- The line of a remark. -/
def Remark.message : Remark → String
  | .counted xs => s!"Enumerating {rowCount xs} interpretations over " ++ xs.display
  | .taken step => step.message

end Propositional
