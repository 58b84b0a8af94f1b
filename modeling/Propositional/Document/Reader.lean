import Propositional.Document.Error
import Propositional.Expr.Basic

/-!
# Reading documents

A document is a constant, a string that names a variable, or an array: one element that stands for
itself, an operator word with one operand, or an operator word with two.

The reader goes over the tokens once and keeps the arrays that are still open, innermost first. A
finished item becomes a formula only when the next token shows that the item has ended: then its
words are looked at. So where a word is wrong and the token after it is wrong as well, the token is
reported, unless it could end the item.

* `Item.formula` checks the words of one item.
* `step` is the reader's answer to one token, `finish` its answer to the end of the text.
* `read` reads a text.

`read` is `parse`, and `deserialize` is the same without the error. `step` and `finish` are the
parser made from the rules of `_BoolExpParser`, and `Item.formula` is what its rules do with words.
Out of scope: how a table is made from the rules, and how a parser recovers from an error.
-/

namespace Propositional.Document

/-- An array that has been opened, up to the place where an element is expected next. -/
inductive Frame where
  /-- Nothing after the bracket. -/
  | bracket
  /-- A word and a comma. -/
  | operand (word : String)
  /-- A word, an operand and a second comma. -/
  | second (word : String) (left : Expr)
  deriving DecidableEq

/-- An element that has been read to its last token. -/
inductive Item where
  | const (value : Bool)
  | variable (word : String)
  | group (element : Expr)
  | unary (word : String) (operand : Expr)
  | binary (word : String) (left right : Expr)
  deriving DecidableEq

/-- The formula that an element stands for. -/
def Item.formula : Item → Except Error Expr
  | .const value => .ok (.const value)
  | .variable word =>
    match Name.ofText? word with
    | some name => .ok (.var name)
    | none => .error (.reserved word)
  | .group element => .ok element
  | .unary word operand =>
    match Operator.ofWord? word with
    | some .not => .ok (.not operand)
    | _ => .error (.unknownUnary word)
  | .binary word left right =>
    match Operator.ofWord? word with
    | some (.bin c) => .ok (.bin c left right)
    | _ => .error (.unknownBinary word)

/-- Where the reader stands between two tokens. The open arrays are listed innermost first. -/
inductive State where
  /-- An element must come next. -/
  | expecting (frames : List Frame)
  /-- A string right after a bracket: an element, or the word of an operator. -/
  | word (word : String) (frames : List Frame)
  /-- An element has been read; the next token ends it. -/
  | read (item : Item) (frames : List Frame)
  deriving DecidableEq

/-- The state before the first token. -/
def State.initial : State := .expecting []

/-- What a comma does after an element. -/
def afterComma (token : Token) (element : Expr) : List Frame → Except Error State
  | .operand word :: frames => .ok (.expecting (.second word element :: frames))
  | _ => .error (.unexpected token)

/-- What a closing bracket does after an element. -/
def afterClosing (token : Token) (element : Expr) : List Frame → Except Error State
  | .bracket :: frames => .ok (.read (.group element) frames)
  | .operand word :: frames => .ok (.read (.unary word element) frames)
  | .second word left :: frames => .ok (.read (.binary word left element) frames)
  | [] => .error (.unexpected token)

/-- The state after one more token. -/
def step (state : State) (token : Token) : Except Error State :=
  match state, token.symbol with
  | .expecting frames, .opening => .ok (.expecting (.bracket :: frames))
  | .expecting frames, .bool value => .ok (.read (.const value) frames)
  | .expecting (.bracket :: frames), .string word => .ok (.word word frames)
  | .expecting frames, .string word => .ok (.read (.variable word) frames)
  | .word word frames, .comma => .ok (.expecting (.operand word :: frames))
  | .word word frames, .closing => do
    let element ← (Item.variable word).formula
    afterClosing token element (.bracket :: frames)
  | .read item frames, .comma => do
    let element ← item.formula
    afterComma token element frames
  | .read item frames, .closing => do
    let element ← item.formula
    afterClosing token element frames
  | _, _ => .error (.unexpected token)

/-- What the end of the text gives. -/
def finish : State → Except Error Expr
  | .read item frames => do
    let element ← item.formula
    if frames.isEmpty then .ok element else .error .unexpectedEnd
  | _ => .error .unexpectedEnd

/-- Reads tokens from a state on. A fault after the last token counts as a token: it is met only
when everything before it has been read. -/
def readFrom (state : State) (fault : Option LexicalFault) : List Token → Except Error Expr
  | [] =>
    match fault with
    | some fault => .error (.lexical fault)
    | none => finish state
  | token :: rest =>
    match step state token with
    | .ok next => readFrom next fault rest
    | .error error => .error error

/-- The formula that a text encodes. -/
def read (text : String) : Except Error Expr :=
  if text.toList.all Text.isBlank then .error .blank
  else
    let scanned := scan text
    readFrom .initial scanned.fault scanned.tokens

end Propositional.Document
