import Propositional.Document.Literal
import Propositional.Expr.Basic

/-!
# Writing documents

A constant is written as it is, a variable as a string literal, and an operator with its operands as
an array that starts with the operator's word. One space follows each comma.

`write` is `serialize`. Out of scope: other ways to set spaces.
-/

namespace Propositional.Document

/-- The written form of a string. -/
def writeText (text : String) : String :=
  String.ofList (Literal.encode text.toList)

/-- The document of a formula. -/
def write : Expr → String
  | .const true => "true"
  | .const false => "false"
  | .var x => writeText x.text
  | .not e => "[" ++ writeText Operator.not.word ++ ", " ++ write e ++ "]"
  | .bin c l r =>
    "[" ++ writeText (Operator.bin c).word ++ ", " ++ write l ++ ", " ++ write r ++ "]"

end Propositional.Document
