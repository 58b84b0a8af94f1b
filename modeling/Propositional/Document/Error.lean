import Propositional.Document.Token
import Propositional.Text.Quoted

/-!
# Why a text is no document

Every way in which reading a document can fail, and its wording.

These are the texts of `DeserializationError` as `BoolExpLexer` and `_BoolExpParser` raise it. Out
of scope: errors in the decoding of values, which have no text to point into (`Json`).
-/

namespace Propositional.Document

open Propositional.Text

/-- Why a text does not encode a formula. -/
inductive Error where
  /-- The text has nothing but blanks. -/
  | blank
  /-- A token cannot be read. -/
  | lexical (fault : LexicalFault)
  /-- No document continues with this token. -/
  | unexpected (token : Token)
  /-- The text ends before the document does. -/
  | unexpectedEnd
  /-- A word that names an operator stands where a variable is expected. -/
  | reserved (word : String)
  /-- The word before one operand does not name the negation. -/
  | unknownUnary (word : String)
  /-- The word before two operands does not name a connective. -/
  | unknownBinary (word : String)
  deriving DecidableEq, Repr

/-- The wording of an error. -/
def Error.message : Error → String
  | .blank => "Input is empty."
  | .lexical fault => fault.message
  | .unexpected token =>
    "Syntax error near " ++ quote token.symbol.value ++ " (type: " ++ token.symbol.kind ++
      s!") at position {token.start}"
  | .unexpectedEnd => "Syntax error: Unexpected end of input"
  | .reserved word => "Reserved word used as a variable: " ++ quote word
  | .unknownUnary word => "Unknown unary operator: " ++ quote word
  | .unknownBinary word => "Unknown binary operator: " ++ quote word

end Propositional.Document
