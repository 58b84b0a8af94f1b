import Mathlib.Algebra.Group.Int.Defs
import Propositional.Json
import Propositional.Text.Blank
import Propositional.Proofs.Document.Spelling

/-!
# JSON texts

Which texts denote which JSON values, after the grammar of RFC 8259. Spaces, tabs, carriage returns
and line feeds may stand around every value and every mark between values; a string may be spelled
in any way, and a number may be written with any fraction and exponent that give it.

`Denotes` relates all values to their texts, also those that encode no formula: what a reader of
documents refuses is told apart from what no JSON reader takes.
-/

namespace Propositional.Json

open Propositional.Text Propositional.Document

/-! ## Numbers -/

/-- Decimal digits, at least one. -/
def Digits (text : List Char) : Prop :=
  text ≠ [] ∧ ∀ c ∈ text, c.isDigit = true

/-- A minus sign or nothing, and the factor that it stands for. -/
inductive Sign : (text : List Char) → (factor : Int) → Prop
  | absent : Sign [] 1
  | minus : Sign ['-'] (-1)

/-- The digits before the point. Only the zero itself starts with a zero. -/
def Whole (text : List Char) : Prop :=
  Digits text ∧ (text.head? = some '0' → text = ['0'])

/-- A point and the digits after it, or nothing. -/
inductive Fraction : (text digits : List Char) → Prop
  | absent : Fraction [] []
  | point {digits : List Char} (h : Digits digits) : Fraction ('.' :: digits) digits

/-- An exponent of ten, or nothing. -/
inductive Power : (text : List Char) → (exponent : Int) → Prop
  | absent : Power [] 0
  | unsigned {e : Char} {digits : List Char} (he : e = 'e' ∨ e = 'E') (h : Digits digits) :
      Power (e :: digits) (Nat.ofDigitChars 10 digits 0)
  | plus {e : Char} {digits : List Char} (he : e = 'e' ∨ e = 'E') (h : Digits digits) :
      Power (e :: '+' :: digits) (Nat.ofDigitChars 10 digits 0)
  | minus {e : Char} {digits : List Char} (he : e = 'e' ∨ e = 'E') (h : Digits digits) :
      Power (e :: '-' :: digits) (-Nat.ofDigitChars 10 digits 0)

/-- A numeral and the number `mantissa * 10 ^ (-exponent)` that it gives. Both sides of `hvalue` are
that number, multiplied by all negative powers of ten that occur. -/
inductive Numeral : (text : List Char) → (mantissa : Int) → (exponent : Nat) → Prop
  | intro {sign whole fraction digits power : List Char} {factor shift : Int}
      {mantissa : Int} {exponent : Nat} (hsign : Sign sign factor) (hwhole : Whole whole)
      (hfraction : Fraction fraction digits) (hpower : Power power shift)
      (hvalue : mantissa * 10 ^ (digits.length + (-shift).toNat) =
        factor * Nat.ofDigitChars 10 (whole ++ digits) 0 * 10 ^ (exponent + shift.toNat)) :
      Numeral (sign ++ (whole ++ (fraction ++ power))) mantissa exponent

/-- A numeral starts with a minus sign or a digit. -/
theorem exists_of_numeral {text : List Char} {mantissa : Int} {exponent : Nat}
    (h : Numeral text mantissa exponent) :
    ∃ c rest, text = c :: rest ∧ (c = '-' ∨ c.isDigit = true) := by
  cases h with
  | @intro _ whole _ _ _ _ _ _ _ hsign hwhole =>
    cases hsign with
    | minus => exact ⟨_, _, rfl, .inl rfl⟩
    | absent =>
      cases whole with
      | nil => exact absurd rfl hwhole.1.1
      | cons c whole => exact ⟨c, _, rfl, .inr (hwhole.1.2 c List.mem_cons_self)⟩

/-! ## Values -/

/-- One of the six marks, with spaces around it. -/
inductive Mark (c : Char) : (text : List Char) → Prop
  | intro {before after : List Char} (hbefore : ∀ d ∈ before, isSpace d = true)
      (hafter : ∀ d ∈ after, isSpace d = true) : Mark c (before ++ c :: after)

mutual

/-- The text denotes the value. -/
inductive Denotes : (text : List Char) → Json → Prop
  | null : Denotes "null".toList .null
  | bool (value : Bool) : Denotes (if value then "true" else "false").toList (.bool value)
  | number {text : List Char} {mantissa : Int} {exponent : Nat}
      (h : Numeral text mantissa exponent) : Denotes text (.number mantissa exponent)
  | string {body : List Char} {value : String} (h : Literal.Spelling body value.toList) :
      Denotes ('"' :: (body ++ ['"'])) (.string value)
  | emptyArray {opening closing : List Char} (ho : Mark '[' opening) (hc : Mark ']' closing) :
      Denotes (opening ++ closing) (.array [])
  | array {opening text rest : List Char} {v : Json} {vs : List Json} (ho : Mark '[' opening)
      (h : Denotes text v) (hrest : DenotesElements rest vs) :
      Denotes (opening ++ (text ++ rest)) (.array (v :: vs))
  | emptyObject {opening closing : List Char} (ho : Mark '{' opening) (hc : Mark '}' closing) :
      Denotes (opening ++ closing) (.object [])
  | object {opening key colon text rest : List Char} {name : String} {v : Json}
      {members : List (String × Json)} (ho : Mark '{' opening) (hkey : Denotes key (.string name))
      (hcolon : Mark ':' colon) (h : Denotes text v) (hrest : DenotesMembers rest members) :
      Denotes (opening ++ (key ++ (colon ++ (text ++ rest)))) (.object ((name, v) :: members))
  | spaces {before text after : List Char} {v : Json} (hbefore : ∀ c ∈ before, isSpace c = true)
      (h : Denotes text v) (hafter : ∀ c ∈ after, isSpace c = true) :
      Denotes (before ++ (text ++ after)) v

/-- The text denotes the elements of an array after the first, each with the comma before it, and
closes the array. -/
inductive DenotesElements : (text : List Char) → List Json → Prop
  | closing {closing : List Char} (hc : Mark ']' closing) : DenotesElements closing []
  | cons {comma text rest : List Char} {v : Json} {vs : List Json} (hcomma : Mark ',' comma)
      (h : Denotes text v) (hrest : DenotesElements rest vs) :
      DenotesElements (comma ++ (text ++ rest)) (v :: vs)

/-- The text denotes the members of an object after the first, each with the comma before it, and
closes the object. -/
inductive DenotesMembers : (text : List Char) → List (String × Json) → Prop
  | closing {closing : List Char} (hc : Mark '}' closing) : DenotesMembers closing []
  | cons {comma key colon text rest : List Char} {name : String} {v : Json}
      {members : List (String × Json)} (hcomma : Mark ',' comma)
      (hkey : Denotes key (.string name)) (hcolon : Mark ':' colon) (h : Denotes text v)
      (hrest : DenotesMembers rest members) :
      DenotesMembers (comma ++ (key ++ (colon ++ (text ++ rest)))) ((name, v) :: members)

end

end Propositional.Json
