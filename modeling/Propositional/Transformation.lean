import Propositional.Document.Reader
import Propositional.Document.Writer
import Propositional.Json
import Propositional.Session.Basic

/-!
# Named transformations

The transformations that can be asked for by name, and the answer to a request that gives a document
and a name as text.

* `ofName?` finds a transformation whatever the letter case of the name: `ofName?_name`.
* `run` transforms within a session, `apply` without one; they agree: `value_run`.
* `respond` answers a request. A text that is no document has one fixed answer, which is itself a
  JSON text.

`all` and `name` are the table `TRANSFORMATIONS`, `ofName?` and `findTransformation` are
`get_transformation`, and `respond` is `transform_json`, where a text that `deserialize` refuses has
the answer `MALFORMED_JSON_RESPONSE`. Out of scope: the notes that a request leaves.
-/

namespace Propositional

/-- A transformation of formulas. -/
inductive Transformation where
  | dnf
  | nnf
  | simplify
  deriving DecidableEq, Repr

namespace Transformation

/-- All transformations, in the order in which they are listed to users. -/
def all : List Transformation := [.dnf, .nnf, .simplify]

/-- The name of a transformation. -/
def name : Transformation → String
  | .dnf => "DNF"
  | .nnf => "NNF"
  | .simplify => "simplify"

/-- A name with the letters A to Z in lower case. No other character has a lower-case form among the
letters of the names. -/
def foldCase (name : String) : List Char :=
  name.toList.map Char.toLower

/-- The transformation with a given name. -/
def ofName? (name : String) : Option Transformation :=
  all.find? fun t => foldCase t.name = foldCase name

/-- The result of a transformation. -/
def apply : Transformation → Expr → Except NotNnf Expr
  | .dnf, e => e.toDnf
  | .nnf, e => .ok e.toNnf
  | .simplify, e => .ok e.simplify

/-- A transformation within a session. -/
def run (t : Transformation) (e : Expr) (session : Session) : Except NotNnf Expr × Session :=
  match t with
  | .dnf => session.toDnf e
  | .nnf =>
    let (s, session) := session.toNnf e
    (.ok s.1, session)
  | .simplify =>
    let (s, session) := session.simplify e
    (.ok s.1, session)

theorem ofName?_name (t : Transformation) : ofName? t.name = some t := by
  cases t <;> decide

theorem value_run (t : Transformation) (e : Expr) (session : Session) :
    (t.run e session).1 = t.apply e := by
  cases t with
  | dnf => exact Session.value_toDnf e session
  | nnf => exact congrArg Except.ok (Session.value_toNnf e session)
  | simplify => exact congrArg Except.ok (Session.value_simplify e session)

end Transformation

/-- Why a request has no answer. -/
inductive RequestError where
  /-- No transformation has this name. -/
  | unknownTransformation (name : String)
  /-- The formula is nested past the limit; the name is the one that was asked for. -/
  | tooDeep (name : String)
  /-- The transformation met a formula outside negation normal form. -/
  | notNnf (reason : NotNnf)
  deriving DecidableEq

/-- The wording of a request error. -/
def RequestError.message : RequestError → String
  | .unknownTransformation name => Text.quote name
  | .tooDeep name => "Expression is nested too deeply for " ++ name
  | .notNnf reason => reason.message

/-- The answer to a request whose text is no document. -/
def malformedResponse : String := "\"Malformed JSON\""

/-- The transformation with a given name, or the error that there is none. -/
def findTransformation (name : String) : Except RequestError Transformation :=
  match Transformation.ofName? name with
  | some t => .ok t
  | none => .error (.unknownTransformation name)

/-- The answer to a request for the transformation `name` of the document `text`. A request without
a text counts as one whose text is no document. -/
def respond (text : Option String) (name : String) : Except RequestError String := do
  let t ← findTransformation name
  match text.map Document.read with
  | some (.ok e) =>
    if e.depth ≤ nestingLimit then
      match (t.run e .initial).1 with
      | .ok result => .ok (Document.write result)
      | .error reason => .error (.notNnf reason)
    else .error (.tooDeep name)
  | _ => .ok malformedResponse

end Propositional
