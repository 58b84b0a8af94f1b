/-!
# Paths

A path starts at the working directory or at the root and names one folder after the other. Empty
names and single dots mean nothing and are dropped (`ofText`), though a dot after the name of a file
leads nowhere, so where that matters the dots stay (`ofLiteral`). Two dots always stay, since where
they lead depends on the files. Exactly two slashes at the start are a root of their own.

The values of `--expression` and `--compare` become such paths when they are read. Out of scope:
paths of other systems, and where a path leads, which is the subject of `Command.FileTree`.
-/

namespace Propositional.Command

/-- A path: the slashes it starts with, none for the working directory, and its names. -/
structure Path where
  root : String
  names : List String
  deriving DecidableEq, Repr

namespace Path

/-- The pieces of a text between slashes. -/
def pieces : List Char → List (List Char)
  | [] => [[]]
  | '/' :: rest => [] :: pieces rest
  | c :: rest =>
    match pieces rest with
    | [] => [[c]]
    | piece :: more => (c :: piece) :: more

/-- The root that a text starts with. -/
def rootOf : List Char → String
  | '/' :: '/' :: '/' :: _ => "/"
  | '/' :: '/' :: _ => "//"
  | '/' :: _ => "/"
  | _ => ""

/-- The path that a text spells, single dots included. -/
def ofLiteral (text : String) : Path :=
  ⟨rootOf text.toList, ((pieces text.toList).filter (· ≠ [])).map String.ofList⟩

/-- The path that a text spells. -/
def ofText (text : String) : Path :=
  let path := ofLiteral text
  { path with names := path.names.filter (· ≠ ".") }

/-- The shortest spelling of a path. -/
def text (path : Path) : String :=
  if path.root.isEmpty && path.names.isEmpty then "."
  else path.root ++ "/".intercalate path.names

end Path

end Propositional.Command
