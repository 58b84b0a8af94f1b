import Propositional.Expr.Basic

/-!
# JSON values

A formula may also come as a JSON value that has been parsed already. The encoding is the one of
documents: constants, strings that name variables, and arrays with an operator's word in front; an
array of one element stands for that element. Values nested past `nestingLimit` are refused.

* `Json.formula?` decodes a value, `Json.ofFormula` encodes a formula.
* `formula?_ofFormula`: a formula within the limit is decoded from its own encoding.

`formula?` is `from_json_value` with `_decode_value` and `_decode_array`, and `ofFormula` is
`to_json_value`. Out of scope: the wording of a refusal, which is noted and not returned, and values
that no text of JSON denotes.
-/

namespace Propositional

/-- The nesting up to which a value is decoded (`Json.formula?`) and a formula is transformed on
request (`respond`). The one number stands for two limits of an interpreter, neither of which it is:
how many arrays inside each other `from_json_value` can open, and how many levels of a formula the
work of `transform_json` can go down. Both depend on the interpreter and on what it does already.
All that the theorems use of the number is that it is large enough for their examples and for
formulas of few levels (`Command.shallowDepth`). The room that commands have is another matter
(`Command.Stack`). -/
def nestingLimit : Nat := 1000

/-- A JSON value. A number is `mantissa * 10 ^ (-exponent)`. -/
inductive Json where
  | null
  | bool (value : Bool)
  | number (mantissa : Int) (exponent : Nat)
  | string (value : String)
  | array (elements : List Json)
  | object (members : List (String × Json))
  deriving Inhabited

namespace Json

/-- How deep arrays are nested. Objects encode no formula, so their depth does not matter. -/
def depth : Json → Nat
  | array elements => 1 + depthOfAll elements
  | _ => 1
where
  /-- The greatest depth in a list. -/
  depthOfAll : List Json → Nat
    | [] => 0
    | v :: vs => max v.depth (depthOfAll vs)

/-- The formula that a value encodes, whatever its nesting. -/
def decode : Json → Option Expr
  | bool value => some (.const value)
  | string value => (Name.ofText? value).map .var
  | array [element] => element.decode
  | array [string word, a] =>
    match Operator.ofWord? word with
    | some .not => a.decode.map .not
    | _ => none
  | array [string word, a, b] =>
    match Operator.ofWord? word with
    | some (.bin c) =>
      match a.decode, b.decode with
      | some l, some r => some (.bin c l r)
      | _, _ => none
    | _ => none
  | _ => none

/-- The formula that a value encodes, unless it is nested past the limit. -/
def formula? (value : Json) : Option Expr :=
  if value.depth ≤ nestingLimit then value.decode else none

/-- The value that encodes a formula. -/
def ofFormula : Expr → Json
  | .const b => bool b
  | .var x => string x.text
  | .not e => array [string Operator.not.word, ofFormula e]
  | .bin c l r => array [string (Operator.bin c).word, ofFormula l, ofFormula r]

theorem depth_ofFormula (e : Expr) : (ofFormula e).depth = e.depth := by
  induction e with
  | const => rfl
  | var => rfl
  | not e ih =>
    simp only [ofFormula, depth, depth.depthOfAll, Expr.depth, ih]
    have : 1 ≤ e.depth := by cases e <;> simp only [Expr.depth] <;> omega
    omega
  | bin c l r ihl ihr =>
    simp only [ofFormula, depth, depth.depthOfAll, Expr.depth, ihl, ihr]
    have : 1 ≤ l.depth := by cases l <;> simp only [Expr.depth] <;> omega
    omega

theorem decode_ofFormula (e : Expr) : (ofFormula e).decode = some e := by
  induction e with
  | const => simp [ofFormula, decode]
  | var x => simp [ofFormula, decode]
  | not e ih => simp [ofFormula, decode, Operator.ofWord?_word, ih]
  | bin c l r ihl ihr => simp [ofFormula, decode, Operator.ofWord?_word, ihl, ihr]

theorem formula?_ofFormula {e : Expr} (h : e.depth ≤ nestingLimit) :
    (ofFormula e).formula? = some e := by
  rw [formula?, depth_ofFormula, if_pos h, decode_ofFormula]

end Json

end Propositional
