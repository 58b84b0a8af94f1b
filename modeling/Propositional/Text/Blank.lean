/-!
# Blank characters

Two notions of blank, and removing blanks at both ends of a text.

* `isSpace` holds for the four characters that may stand between the tokens of a document.
* `isBlank` holds for every character that only separates; a document is blank, and a file is
  trimmed, in this wider sense (`isBlank_of_isSpace`).
* `trim_of_ends`: a text that neither starts nor ends with a blank is left alone.

`isSpace` is what `BoolExpLexer` ignores; `isBlank` and `trim` are what `read_expression_text` and
the method `parse` of `_BoolExpParser` strip. Out of scope: other versions of Unicode.
-/

namespace Propositional.Text

/-- Space, tab, carriage return and line feed. -/
def isSpace (c : Char) : Bool :=
  c = ' ' || c = '\t' || c = '\r' || c = '\n'

/-- The code points of the characters that only separate, in ascending ranges. -/
def blankRanges : List (Nat × Nat) :=
  [(0x09, 0x0d), (0x1c, 0x20), (0x85, 0x85), (0xa0, 0xa0), (0x1680, 0x1680), (0x2000, 0x200a),
    (0x2028, 0x2029), (0x202f, 0x202f), (0x205f, 0x205f), (0x3000, 0x3000)]

/-- A character that only separates. -/
def isBlank (c : Char) : Bool :=
  blankRanges.any fun (first, last) => first ≤ c.toNat && c.toNat ≤ last

/-- A text without the blanks at its ends. -/
def trim (text : List Char) : List Char :=
  ((text.dropWhile isBlank).reverse.dropWhile isBlank).reverse

theorem isBlank_of_isSpace {c : Char} (h : isSpace c = true) : isBlank c = true := by
  simp only [isSpace, Bool.or_eq_true, decide_eq_true_eq] at h
  rcases h with ((h | h) | h) | h <;> subst h <;> decide

theorem trim_of_ends {text : List Char} (h : ∀ c ∈ text.head?, isBlank c = false)
    (h' : ∀ c ∈ text.getLast?, isBlank c = false) : trim text = text := by
  have drop : ∀ l : List Char, (∀ c ∈ l.head?, isBlank c = false) → l.dropWhile isBlank = l := by
    intro l hl
    cases l with
    | nil => rfl
    | cons c l => simp [hl c rfl]
  unfold trim
  rw [drop text h, drop text.reverse (by simpa using h'), List.reverse_reverse]

end Propositional.Text
