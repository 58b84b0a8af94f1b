/-!
# The connectives and the words that spell them

A formula is built with negation and two binary connectives. Each connective has a neutral and an
absorbing constant and a dual, so every rule about `and` is also a rule about `or` with these
swapped: rules are stated once, for a `Connective`.

* `Connective.apply_neutral_left`, `Connective.apply_absorbing_left` and their right-hand versions
  say what the two constants do.
* `Connective.apply_dual` is De Morgan's law on truth values.
* `Operator.ofWord?_eq_some_iff`: an operator is read from its own word in any letter case, and from
  nothing else; so each is read back from its own word (`Operator.ofWord?_word`).

`Operator.word` and `Operator.ofWord?` are the comparisons with `RESERVED_NAMES` and with the words
in the rules of `_BoolExpParser`, both after a change to capitals. Out of scope: capitals of letters
outside of ASCII, since none of them is a letter of these words.
-/

namespace Propositional

/-- A binary connective. -/
inductive Connective where
  | and
  | or
  deriving DecidableEq, Hashable, Repr

namespace Connective

/-- The truth function of a connective. -/
def apply : Connective → Bool → Bool → Bool
  | .and => Bool.and
  | .or => Bool.or

/-- The other connective. -/
def dual : Connective → Connective
  | .and => .or
  | .or => .and

/-- The constant that leaves the other operand as it is. -/
def neutral : Connective → Bool
  | .and => true
  | .or => false

/-- The constant that decides the result by itself. -/
def absorbing : Connective → Bool
  | .and => false
  | .or => true

/-- The sign written between two operands. -/
def sign : Connective → String
  | .and => "&"
  | .or => "|"

@[simp] theorem dual_dual (c : Connective) : c.dual.dual = c := by cases c <;> rfl

@[simp] theorem neutral_dual (c : Connective) : c.dual.neutral = !c.neutral := by cases c <;> rfl

@[simp] theorem absorbing_dual (c : Connective) : c.dual.absorbing = !c.absorbing := by
  cases c <;> rfl

theorem absorbing_eq (c : Connective) : c.absorbing = !c.neutral := by cases c <;> rfl

@[simp] theorem apply_neutral_left (c : Connective) (b : Bool) : c.apply c.neutral b = b := by
  cases c <;> rfl

@[simp] theorem apply_neutral_right (c : Connective) (b : Bool) : c.apply b c.neutral = b := by
  cases c <;> cases b <;> rfl

@[simp] theorem apply_absorbing_left (c : Connective) (b : Bool) :
    c.apply c.absorbing b = c.absorbing := by
  cases c <;> rfl

@[simp] theorem apply_absorbing_right (c : Connective) (b : Bool) :
    c.apply b c.absorbing = c.absorbing := by
  cases c <;> cases b <;> rfl

@[simp] theorem apply_self (c : Connective) (b : Bool) : c.apply b b = b := by
  cases c <;> cases b <;> rfl

theorem apply_not_self (c : Connective) (b : Bool) : c.apply b (!b) = c.absorbing := by
  cases c <;> cases b <;> rfl

theorem apply_dual (c : Connective) (a b : Bool) : c.dual.apply a b = !c.apply (!a) (!b) := by
  cases c <;> cases a <;> cases b <;> rfl

end Connective

/-- An operator of the encoding: negation, or one of the two connectives. -/
inductive Operator where
  | not
  | bin (c : Connective)
  deriving DecidableEq, Repr

namespace Operator

/-- The word that names an operator, in the spelling that is written out. -/
def word : Operator → String
  | .not => "NOT"
  | .bin .and => "AND"
  | .bin .or => "OR"

/-- The operator that a word names. Letter case does not matter, and only the letters A to Z have
a case here: no other character has an upper-case form among the letters of the three words. -/
def ofWord? (word : String) : Option Operator :=
  match word.toList.map Char.toUpper with
  | ['N', 'O', 'T'] => some .not
  | ['A', 'N', 'D'] => some (.bin .and)
  | ['O', 'R'] => some (.bin .or)
  | _ => none

theorem ofWord?_word (o : Operator) : ofWord? o.word = some o := by
  match o with
  | .not => decide
  | .bin .and => decide
  | .bin .or => decide

theorem ofWord?_eq_some_iff {word : String} {o : Operator} :
    ofWord? word = some o ↔ word.toUpper = o.word := by
  rw [← String.toList_inj, String.toUpper, String.toList_map]
  constructor
  · intro h
    unfold ofWord? at h
    split at h <;> cases h <;> assumption
  · intro h
    unfold ofWord?
    rw [h]
    match o with
    | .not | .bin .and | .bin .or => rfl

end Operator

end Propositional
