import Std.Data.HashMap
import Propositional.Command.Path
import Propositional.Text.Quoted

/-!
# File trees

The files and folders that a command sees. A place is reached from the working directory, from one
of the folders above it, or from the root of all files; these starting points are always folders.

* `locate` follows a path, `find` tells what stands at its end. A path that holds the null
  character, that is too long or looks for a name that is too long, or that leads through a folder
  without permission, leads nowhere (`Nowhere`).
* `makeFolders` makes a folder and the folders above it, `write` puts a file in place. Both fail
  with the wording of the operating system.

These are `exists`, `makedirs` and the opening of files, as far as `read_expression_text` and
`render_expression_tree` use them. Out of scope: permissions of one kind without the others,
symbolic links, special files, full disks, and changes to the files during a run.
-/

namespace Propositional.Command

/-- Where a place is counted from: so many folders above the working directory, or the root. -/
inductive Base where
  | above (levels : Nat)
  | root
  deriving DecidableEq, Hashable, Repr

/-- A place among the files: a start and the names that lead from it. -/
structure Place where
  base : Base
  names : List String
  deriving DecidableEq, Hashable, Repr

/-- The place above another one. -/
def Place.up (place : Place) : Place :=
  match place.base, place.names with
  | .above levels, [] => ⟨.above (levels + 1), []⟩
  | .root, [] => place
  | _, names => { place with names := names.dropLast }

/-- The place below another one with a given name. -/
def Place.down (place : Place) (name : String) : Place :=
  { place with names := place.names ++ [name] }

/-- Where a path starts. -/
def Place.start (path : Path) : Place :=
  ⟨if path.root.isEmpty then .above 0 else .root, []⟩

/-- The place that a path leads to when every name on the way is a folder. -/
def Place.ofPath (path : Path) : Place :=
  path.names.foldl (fun place name =>
    if name = "." then place else if name = ".." then place.up else place.down name)
    (Place.start path)

/-- What stands in a place. -/
inductive Node where
  | folder
  | file (bytes : List UInt8)
  /-- A folder or a file that exists, but for which there is no permission of any kind. -/
  | forbidden (isFolder : Bool)
  deriving DecidableEq, Repr

/-- An error of the operating system: its cause and the path it is reported for. -/
inductive SystemError where
  | denied (path : String)
  | exists (path : String)
  | notFolder (path : String)
  | isFolder (path : String)
  | tooLong (path : String)
  | nullByte
  deriving DecidableEq, Repr

/-- The wording of an error of the operating system. -/
def SystemError.message : SystemError → String
  | .denied path => "[Errno 13] Permission denied: " ++ Text.quote path
  | .exists path => "[Errno 17] File exists: " ++ Text.quote path
  | .notFolder path => "[Errno 20] Not a directory: " ++ Text.quote path
  | .isFolder path => "[Errno 21] Is a directory: " ++ Text.quote path
  | .tooLong path => "[Errno 36] File name too long: " ++ Text.quote path
  | .nullByte => "embedded null byte"

/-- Why a path leads nowhere. -/
inductive Nowhere where
  /-- A name on the way is missing or is not the name of a folder. -/
  | missing
  /-- A folder on the way must not be searched. -/
  | denied
  /-- The path, or a name that is looked for in a folder, has too many bytes. -/
  | tooLong
  /-- The path holds the null character, with which the system ends its texts. -/
  | nullByte
  deriving DecidableEq, Repr

/-- The error of making something under a path that leads nowhere. All folders above are there, or a
file stands in the place of one. -/
def Nowhere.toSystemError (path : String) : Nowhere → SystemError
  | .missing => .notFolder path
  | .denied => .denied path
  | .tooLong => .tooLong path
  | .nullByte => .nullByte

/-- Why a folder cannot be made together with those above it. -/
inductive FolderError where
  | system (error : SystemError)
  /-- Too many levels are missing. -/
  | tooDeep
  deriving DecidableEq, Repr

/-- The greatest number of bytes in a name. -/
def nameLimit : Nat := 255

/-- The greatest number of bytes in a path. -/
def pathLimit : Nat := 4095

/-- Files and folders by place. -/
structure FileTree where
  nodes : Std.HashMap Place Node

namespace FileTree

/-- The tree without files. -/
def empty : FileTree := ⟨∅⟩

/-- What stands in a place. -/
def node? (tree : FileTree) (place : Place) : Option Node :=
  if place.names.isEmpty then some .folder else tree.nodes[place]?

/-- A folder stands in a place. -/
def isFolder (tree : FileTree) (place : Place) : Bool :=
  match tree.node? place with
  | some .folder | some (.forbidden true) => true
  | _ => false

/-- The tree with one more entry. -/
def insert (tree : FileTree) (place : Place) (node : Node) : FileTree :=
  ⟨tree.nodes.insert place node⟩

/-- The places on the way to a place, the place itself excluded. -/
def foldersAbove (place : Place) : List Place :=
  (List.range place.names.length).map fun n => { place with names := place.names.take n }

/-- The tree with one more entry and the folders that lead to it. -/
def insertWithFolders (tree : FileTree) (place : Place) (node : Node) : FileTree :=
  let tree := (foldersAbove place).foldl
    (fun tree above => if tree.isFolder above then tree else tree.insert above .folder) tree
  tree.insert place node

/-- One step along a path: into a folder's entry, or to the folder above. -/
def enter (tree : FileTree) (place : Place) (name : String) : Except Nowhere Place :=
  match tree.node? place with
  | some .folder =>
    if name = "." then .ok place
    else if name = ".." then .ok place.up
    else if nameLimit < name.utf8ByteSize then .error .tooLong
    else .ok (place.down name)
  | some (.forbidden true) => .error .denied
  | _ => .error .missing

/-- The place that a path leads to. Only its last name may be missing. -/
def locate (tree : FileTree) (text : String) : Except Nowhere Place :=
  if '\x00' ∈ text.toList then .error .nullByte
  else if pathLimit < text.utf8ByteSize then .error .tooLong
  else
    let path := Path.ofLiteral text
    path.names.foldlM tree.enter (Place.start path)

/-- What stands where a path leads. -/
def find (tree : FileTree) (text : String) : Except Nowhere Node :=
  match tree.locate text with
  | .error reason => .error reason
  | .ok place =>
    match tree.node? place with
    | some node => .ok node
    | none => .error .missing

/-- The text of a path cut at its last slash, without the slashes at the end of the first part. -/
def splitLast (text : List Char) : List Char × List Char :=
  let last := (text.reverse.takeWhile (· ≠ '/')).reverse
  let front := text.take (text.length - last.length)
  let bare := (front.reverse.dropWhile (· = '/')).reverse
  (if bare.isEmpty then front else bare, last)

/-- Makes the folder that a path names. It may be there already; the folder above it must be. -/
def makeFolder (tree : FileTree) (text : String) : Except SystemError FileTree :=
  match tree.locate text with
  | .error reason => .error (reason.toSystemError text)
  | .ok place =>
    if tree.isFolder place then .ok tree
    else if (tree.node? place).isSome then .error (.exists text)
    else .ok (tree.insert place .folder)

/-- Makes the folder that a path names, and before it all folders above it that are missing, at most
so many levels in all. -/
def makeFolders (tree : FileTree) : (levels : Nat) → (text : List Char) →
    Except FolderError FileTree
  | 0, _ => .error .tooDeep
  | levels + 1, text =>
    let (above, last) := splitLast text
    let make (tree : FileTree) := (tree.makeFolder (String.ofList text)).mapError .system
    if above ≠ [] ∧ last ≠ [] ∧ !(tree.find (String.ofList above)).isOk then
      match makeFolders tree levels above with
      | .ok tree => if last = ['.'] then .ok tree else make tree
      | .error error => .error error
    else make tree

/-- Puts a file where a path leads, and tells where that is. -/
def write (tree : FileTree) (text : String) (bytes : List UInt8) :
    Except SystemError (Place × FileTree) :=
  match tree.locate text with
  | .error reason => .error (reason.toSystemError text)
  | .ok place =>
    match tree.node? place with
    | some .folder | some (.forbidden true) => .error (.isFolder text)
    | some (.forbidden false) => .error (.denied text)
    | some (.file _) | none => .ok (place, tree.insert place (.file bytes))

end FileTree

end Propositional.Command
