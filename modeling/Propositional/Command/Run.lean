import Propositional.Command.Event
import Propositional.Diagram
import Propositional.TruthTable

/-!
# Running a command

One run reads the formula in a file, transforms it and prints the result, and if asked for prints
the truth table of the formula, compares it with the formula in another file, and writes drawings of
the formula and of the result. A run is a function of the files, of the words of the command line
and of the room that the interpreter has for calls (`Stack`).

The first thing that goes wrong ends the run, except that the folder for drawings may be missing:
then they go to the working directory. What was printed or written before stays. Lines about steps
are put into words while the steps are taken, and only where they are to be shown; this takes room
on the stack, so a run may end over its own report. How many rows are compared is written out
whether or not it is shown.

* `Job.transform` and `Job.compare` are `to_dnf`, `to_nnf`, `simplify` and `is_equivalent_to` once
  more, call by call, with what each call takes and notes; `Job.draw` is `render_expression_tree`.
* `Job.all` is the body of `main`, and `runOn` all of it: it gives the exit code, the report and the
  new files. `run` is `runOn` with the estimate of the stack.

Out of scope: the usage texts, drawings turned into images (the program for it is taken to be
missing), interruption by the user, and output that cannot be encoded.
-/

namespace Propositional.Command

/-- How a run ends. -/
inductive Exit where
  | done
  /-- The file holds no document. -/
  | malformed
  | fileError
  | unknownTransformation
  | unexpected
  | tooDeep
  /-- The command line cannot be read. -/
  | usage
  deriving DecidableEq, Repr

/-- The code of an ending. -/
def Exit.code : Exit → Nat
  | .done => 0
  | .malformed => 1
  | .fileError => 2
  | .usage => 2
  | .unknownTransformation => 3
  | .unexpected => 5
  | .tooDeep => 6

/-- The ending that a failure leads to. -/
def Failure.exit : Failure → Exit
  | .noValue _ => .unexpected
  | .unknownTransformation _ => .unknownTransformation
  | .source _ => .fileError
  | .tooDeep _ => .tooDeep
  | .uncounted => .unexpected
  | .system _ => .unexpected
  | .notNnf _ => .unexpected

/-- A file that was written, and the path that it was written under. -/
structure Written where
  place : Place
  path : String
  text : String
  deriving DecidableEq

/-- The shortest path of a written file from the working directory, if it lies below that. -/
def Written.local? (w : Written) : Option String :=
  if w.place.base = .above 0 then some ("/".intercalate w.place.names) else none

/-- What a run has at hand and leaves behind. -/
structure State where
  tree : FileTree
  session : Session
  /-- The report, latest entry first. -/
  report : List Entry
  /-- The files written, each place once, latest first. -/
  written : List Written

/-- A part of a run: it may fail, and what it did before stays. -/
abbrev Job := ExceptT Failure (StateM State)

/-- Where the work on a formula is done. -/
structure Workplace where
  stack : Stack
  /-- The steps are shown. -/
  shown : Bool
  /-- The path of the file with the formula. -/
  own : String

namespace Job

/-- Adds an entry to the report. -/
def add (entry : Entry) : Job Unit :=
  modify fun s => { s with report := entry :: s.report }

/-- Prints a line. -/
def print (line : String) : Job Unit :=
  add (.printed line)

/-- Notes an event. -/
def note (event : Event) : Job Unit :=
  add (.noted event)

/-- Makes a remark. A number that it tells must be one that can be written out. -/
def remark (made : Remark) : Job Unit :=
  if made.isWritable then note (.remark made) else throw .uncounted

/-- Does work for which there must be room. -/
def walk (here : Workplace) (work : Walk) : Job Unit :=
  if here.stack.holds work then return () else throw (.tooDeep here.own)

/-- Does work that is done for what is shown. -/
def walkShown (here : Workplace) (work : Walk) : Job Unit :=
  if here.shown then walk here work else return ()

/-- Makes the remarks about a task, until there is no room left if it comes to that. -/
def remarks (here : Workplace) (made : List Remark) : (limit : Option Nat) → Job Unit
  | none => made.forM remark
  | some n => do
    (made.take n).forM remark
    throw (.tooDeep here.own)

/-- Does a task, which is a computation in a session, and makes the remarks about its steps. -/
def computeIn {α : Type} (here : Workplace) (task : Task) (f : Session → α × Session)
    (before : Session) : Job α :=
  match here.stack.reach here.shown task before with
  -- What is given up before its first remark is not begun.
  | some 0 => throw (.tooDeep here.own)
  | limit => do
    let (a, after) := f before
    modify fun s => { s with session := after }
    remarks here (after.remarksSince before) limit
    return a

/-- Does a task in the session that there is. -/
def compute {α : Type} (here : Workplace) (task : Task) (f : Session → α × Session) : Job α := do
  computeIn here task f (← get).session

/-- Goes on with the text of a file, if there is one. -/
def accept : Except SourceError String → Job String
  | .ok text => return text
  | .error error => throw error.failure

/-- Reads the text of a file. -/
def readFile (shown : String) : Job String := do
  let tree := (← get).tree
  if (tree.find (Path.ofText shown).text).isOk then
    note (.readingFile shown)
  accept (readText tree shown)

/-- Reads the formula that a text encodes. -/
def parse (text : String) : Job (Except Document.Error Expr) := do
  note (.parsing text)
  match Document.read text with
  | .ok e =>
    note (.parsed e)
    return .ok e
  | .error (.lexical ⟨position, .illegal c⟩) =>
    note (.illegalCharacter c position)
    return .error (.lexical ⟨position, .illegal c⟩)
  | .error error => return .error error

/-- Distributes the simplified negation normal form of a formula. -/
def distribute (here : Workplace) (e simple : Expr) : Job Expr := do
  walk here (.distribute simple)
  match simple.distribute with
  | .error reason => throw (.notNnf reason)
  | .ok dnf =>
    walkShown here (.report e dnf)
    modify fun s => { s with session := s.session.note (.finishedDnf e dnf) }
    note (.remark (.taken (.finishedDnf e dnf)))
    return dnf

/-- Puts a formula into disjunctive normal form. -/
def toDnf (here : Workplace) (e : Expr) : Job Expr := do
  let nnf ← compute here (.toNnf e) (Session.toNnf e)
  let simple ← compute here (.simplify nnf.1) (Session.simplify nnf.1)
  distribute here e simple.1

/-- Transforms a formula. -/
def transform (here : Workplace) : Transformation → Expr → Job Expr
  | .dnf, e => toDnf here e
  | .nnf, e => do return (← compute here (.toNnf e) (Session.toNnf e)).1
  | .simplify, e => do return (← compute here (.simplify e) (Session.simplify e)).1

/-- Transforms a formula, to a result that is going to be written. -/
def produce (here : Workplace) (t : Transformation) (e : Expr) : Job Expr := do
  let result ← transform here t e
  walk here (.write result)
  return result

/-- Decides whether two formulas are equivalent, on their simplified forms. -/
def judge (here : Workplace) (a b : Expr) : Job Bool := do
  let a' ← compute here (.simplify a) (Session.simplify a)
  let b' ← compute here (.simplify b) (Session.simplify b)
  compute here (.compare a'.1 b'.1) (Session.settle a'.1 b'.1)

/-- Compares the formula with the one in another file. -/
def compare (here : Workplace) (e : Expr) (shown : String) : Job Unit := do
  let text ← readFile shown
  match ← parse text with
  | .error error => throw (.source (.malformed shown error))
  | .ok other =>
    let same ← judge here e other
    print ("Equivalent to " ++ shown ++ ": " ++ if same then "true" else "false")

/-- The folder that drawings go to. -/
def drawingFolder : String := "expression_visualizations"

/-- The path of a drawing with a given name: in the folder, unless the name is itself a path from
the root. -/
def drawingPath (name : String) : String :=
  if name.toList.head? = some '/' then name else drawingFolder ++ "/" ++ name

/-- Makes a folder and those above it. -/
def makeFolders (here : Workplace) (text : List Char) : Job (Except SystemError Unit) := do
  match (← get).tree.makeFolders here.stack.folders text with
  | .ok tree =>
    modify fun s => { s with tree }
    return .ok ()
  | .error (.system error) => return .error error
  | .error .tooDeep => throw (.tooDeep here.own)

/-- The path of a drawing with a given name, in the working directory if there can be no folder for
drawings. -/
def placeDrawing (here : Workplace) (name : String) : Job String := do
  match ← makeFolders here drawingFolder.toList with
  | .ok () => return drawingPath name
  | .error error =>
    note (.noFolder drawingFolder error)
    return name

/-- Makes the folder that a path leads into. -/
def makeFolderOf (here : Workplace) (path : String) : Job Unit := do
  let above := (FileTree.splitLast path.toList).1
  if !above.isEmpty then
    match ← makeFolders here above with
    | .ok () => return ()
    | .error error => throw (.system error)

/-- Writes a file. -/
def writeFile (path text : String) : Job Unit := do
  match (← get).tree.write path text.toUTF8.toList with
  | .ok (place, tree) =>
    modify fun s =>
      { s with tree, written := ⟨place, path, text⟩ :: s.written.filter (·.place ≠ place) }
  | .error error => throw (.system error)

/-- Writes a drawing. There is never a program to render it with. -/
def draw (here : Workplace) (e : Expr) (name title : String) (format : ImageFormat) : Job Unit := do
  walk here (.draw e)
  let path ← placeDrawing here name
  makeFolderOf here path
  writeFile path (Diagram.source e (some title))
  note (.notRendered path format)

/-- The value of an option that must have one. -/
def require {α : Type} (flag : Flag) : Option α → Job α
  | some value => return value
  | none => throw (.noValue flag)

/-- Prints the truth table, if it is asked for. -/
def tabulateAsked (here : Workplace) (settings : Settings) (e : Expr) : Job Unit := do
  if settings.showTable then
    walk here (.tabulate e)
    for line in TruthTable.lines e do
      print line

/-- Compares with another formula, if that is asked for. -/
def compareAsked (here : Workplace) (settings : Settings) (e : Expr) : Job Unit :=
  match settings.compare with
  | some path => compare here e path.text
  | none => return ()

/-- Draws the formula and the result, if that is asked for. -/
def drawAsked (here : Workplace) (settings : Settings) (name : String) (e result : Expr) :
    Job Unit := do
  if let some drawing := settings.visualize.filter (!·.isEmpty) then
    let format ← require .format settings.format
    draw here e (drawing ++ "_input") "input" format
    draw here result (drawing ++ "_" ++ name) name format

/-- Works on a formula that has been read, up to the drawings. -/
def answer (here : Workplace) (settings : Settings) (t : Transformation) (e : Expr) : Job Expr := do
  walk here (.describe e)
  note (.loaded e)
  let result ← produce here t e
  print (Document.write result)
  tabulateAsked here settings e
  compareAsked here settings e
  return result

/-- The whole run. -/
def all (stack : Stack) (shown : Bool) (settings : Settings) : Job Exit := do
  let name ← require .transformation settings.transformation
  let some t := Transformation.ofName? name | throw (.unknownTransformation name)
  let own := (← require .expression settings.expression).text
  let here : Workplace := ⟨stack, shown, own⟩
  let text ← readFile own
  match ← parse text with
  | .error error =>
    note (.rejected error)
    print malformedResponse
    return .malformed
  | .ok e =>
    let result ← answer here settings t e
    drawAsked here settings name e result
    return .done

end Job

/-- What a run leaves behind. -/
structure Outcome where
  exit : Exit
  /-- The text of the output. -/
  output : String
  /-- All files written. -/
  written : List Written
  /-- The files written where there was none before. -/
  created : List Written

/-- The files written where there was none before. -/
def createdIn (before : FileTree) (written : List Written) : List Written :=
  written.filter fun w => (before.node? w.place).isNone

/-- How a run ends once the work is over, and what it leaves behind: a failure is reported. -/
def conclude : Except Failure Exit × State → Exit × State
  | (.ok exit, state) => (exit, state)
  | (.error failure, state) =>
    (failure.exit, { state with report := .noted (.failed failure) :: state.report })

/-- The ending of a run and what it leaves behind. -/
def report (stack : Stack) (tree : FileTree) (settings : Settings) : Exit × State :=
  conclude ((Job.all stack settings.debug settings).run ⟨tree, .initial, [], []⟩)

/-- Runs a command, with so much room for calls. -/
def runOn (stack : Stack) (tree : FileTree) (words : List String) : Outcome :=
  match Settings.ofWords words with
  | .error _ => ⟨.usage, "", [], []⟩
  | .ok settings =>
    if settings.help then ⟨.done, "", [], []⟩
    else
      let (exit, state) := report stack tree settings
      let threshold := thresholdOf settings.verbose settings.debug
      ⟨exit, textOf threshold state.report.reverse, state.written, createdIn tree state.written⟩

/-- Runs a command. -/
def run (tree : FileTree) (words : List String) : Outcome :=
  runOn .standard tree words

end Propositional.Command
