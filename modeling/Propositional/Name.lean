import Propositional.Operator
import Propositional.Text.Quoted

/-!
# Variable names

Any text may name a variable, the empty one included, except a word that names an operator in some
letter case: in the encoding it could not be told from that operator.

* `Name.ofText?_text` and `Name.text_of_ofText?`: `ofText?` gives each name its text.
* `Name.ofText?_eq_some_iff`: it refuses exactly the operator words.

The texts that are refused are those of `is_reserved_name`; `ofText?` and `reservedMessage` are the
check that `Variable` makes of its name. Out of scope: names that are no texts.
-/

namespace Propositional

/-- The name of a variable. -/
structure Name where
  /-- The name as it is written. -/
  text : String
  /-- No operator is written with this text. -/
  notReserved : Operator.ofWord? text = none
  deriving DecidableEq

namespace Name

instance : Hashable Name := ⟨fun n => hash n.text⟩

instance : Inhabited Name := ⟨⟨"", by decide⟩⟩

/-- Texts that may not name a variable. -/
def isReserved (text : String) : Bool :=
  (Operator.ofWord? text).isSome

/-- The wording of the refusal of a text. -/
def reservedMessage (text : String) : String :=
  "Reserved word cannot be a variable name: " ++ Text.quote text

/-- The name with a given text, if the text may be one. -/
def ofText? (text : String) : Option Name :=
  if h : Operator.ofWord? text = none then some ⟨text, h⟩ else none

@[ext] theorem ext {m n : Name} (h : m.text = n.text) : m = n := by
  cases m; cases n; cases h; rfl

@[simp] theorem ofText?_text (n : Name) : ofText? n.text = some n := by
  simp [ofText?, n.notReserved]

theorem text_of_ofText? {t : String} {n : Name} (h : ofText? t = some n) : n.text = t := by
  unfold ofText? at h
  split at h
  · cases h; rfl
  · cases h

theorem ofText?_eq_some_iff {t : String} {n : Name} :
    ofText? t = some n ↔ n.text = t ∧ ∀ o : Operator, t.toUpper ≠ o.word := by
  constructor
  · intro h
    obtain rfl := text_of_ofText? h
    refine ⟨rfl, fun o ho => ?_⟩
    have hnone := n.notReserved
    rw [Operator.ofWord?_eq_some_iff.mpr ho] at hnone
    cases hnone
  · rintro ⟨rfl, -⟩
    exact ofText?_text n

theorem ofText?_eq_none_iff {t : String} : ofText? t = none ↔ isReserved t = true := by
  unfold ofText? isReserved
  split <;> rename_i h
  · simp [h]
  · simpa using Option.isSome_iff_ne_none.mpr h

end Name

end Propositional
