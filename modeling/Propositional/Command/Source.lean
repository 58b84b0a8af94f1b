import Propositional.Command.FileTree
import Propositional.Document.Reader
import Propositional.Text.Blank
import Propositional.Text.Lines
import Propositional.Text.Utf8

/-!
# Formulas in files

A file holds one document, in UTF-8, with any line ends and any blanks around it. The path of the
file is shown in messages as it was given, except where the operating system reports the error.

`readText` is `read_expression_text` and `readFormula` is `read_expression`. That a file exists is
asked before anything else, and where the system refuses to answer, its error is passed on as it is
(`SourceError.refused`). Out of scope: what `Command.FileTree` leaves out.
-/

namespace Propositional.Command

/-- Why a file gives no formula. -/
inductive SourceError where
  | notFound (shown : String)
  /-- The operating system refuses to look for the file. -/
  | refused (error : SystemError)
  | system (error : SystemError)
  /-- The bytes of the file encode no text. -/
  | undecodable (fault : Text.Utf8.Fault) (bytes : List UInt8)
  /-- The file has nothing but blanks. -/
  | empty (shown : String)
  /-- The text of the file is no document. -/
  | malformed (shown : String) (error : Document.Error)
  deriving DecidableEq

/-- The wording of the error. -/
def SourceError.message : SourceError → String
  | .notFound shown => "Expression file not found: " ++ shown
  | .refused error => error.message
  | .system error => "Error reading expression file: " ++ error.message
  | .undecodable fault bytes => "Error reading expression file: " ++ fault.message bytes
  | .empty shown => "Expression file is empty: " ++ shown
  | .malformed shown error => "Malformed expression in " ++ shown ++ ": " ++ error.message

/-- The text that the bytes of a file hold: line ends unified, blanks at both ends removed. -/
def contentOf (bytes : List UInt8) : Except Text.Utf8.Fault (List Char) :=
  (Text.Utf8.decode bytes).map fun text => Text.trim (Text.unify text)

/-- The text in a file. -/
def readText (tree : FileTree) (shown : String) : Except SourceError String :=
  let path := (Path.ofText shown).text
  match tree.find path with
  | .error .missing | .error .nullByte => .error (.notFound shown)
  | .error .tooLong => .error (.refused (.tooLong path))
  | .error .denied => .error (.refused (.denied path))
  | .ok .folder => .error (.system (.isFolder path))
  | .ok (.forbidden _) => .error (.system (.denied path))
  | .ok (.file bytes) =>
    match contentOf bytes with
    | .error fault => .error (.undecodable fault bytes)
    | .ok text => if text.isEmpty then .error (.empty shown) else .ok (String.ofList text)

/-- The formula in a file. -/
def readFormula (tree : FileTree) (shown : String) : Except SourceError Expr :=
  match readText tree shown with
  | .error error => .error error
  | .ok text => (Document.read text).mapError (.malformed shown)

end Propositional.Command
