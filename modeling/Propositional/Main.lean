import Propositional.Command.Run

/-!
# The program

Reads the files that the command line names, runs the command on them, prints its output and writes
its files. The command itself is `Command.run`; nothing here is proved about.

Out of scope: everything that `Command.FileTree` and `Command.Run` leave out.
-/

namespace Propositional.Command

/-- The usage of the command line. -/
def usage : String :=
  "usage: propositional -e FILE [-t NAME] [--compare FILE] [--show-table] [--visualize NAME] " ++
    "[--format png|svg|pdf] [-v] [--debug]"

/-- What stands under a path. -/
def nodeAt (path : String) : IO (Option Node) := do
  let place := (← IO.currentDir) / path
  if ← place.isDir then
    match ← place.readDir.toBaseIO with
    | .error (.permissionDenied ..) => return some (.forbidden true)
    | _ => return some .folder
  match ← (IO.FS.readBinFile path).toBaseIO with
  | .ok bytes => return some (.file bytes.toList)
  | .error (.permissionDenied ..) => return some (.forbidden false)
  | .error _ => return none

/-- The paths of the files that a run may read or replace. -/
def pathsOf (settings : Settings) : List String :=
  let endings := ["input"] ++ settings.transformation.toList
  let drawings :=
    settings.visualize.toList.flatMap fun name => endings.map (name ++ "_" ++ ·)
  (settings.expression.toList ++ settings.compare.toList).map Path.text ++ drawings ++
    drawings.map Job.drawingPath ++ [Job.drawingFolder]

/-- The tree of the files that a run may read or replace. -/
def treeFor (settings : Settings) : IO FileTree := do
  let mut tree := FileTree.empty
  for path in pathsOf settings do
    if let some node ← nodeAt path then
      tree := tree.insertWithFolders (Place.ofPath (Path.ofText path)) node
  return tree

end Propositional.Command

open Propositional.Command

/-- Runs the command that the words ask for. -/
def main (words : List String) : IO UInt32 := do
  match Settings.ofWords words with
  | .error _ =>
    IO.eprintln usage
    return 2
  | .ok settings =>
    if settings.help then IO.println usage
    let outcome := run (← treeFor settings) words
    IO.print outcome.output
    for w in outcome.written do
      let above := String.ofList (FileTree.splitLast w.path.toList).1
      if !above.isEmpty then IO.FS.createDirAll above
      IO.FS.writeFile w.path w.text
    return UInt32.ofNat outcome.exit.code
