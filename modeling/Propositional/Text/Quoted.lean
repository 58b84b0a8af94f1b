import Propositional.Text.Hex
import Propositional.Text.Printable

/-!
# Texts quoted in messages

A text is shown in a message between quotes, on one line, with printable characters only. The
quotes are single, unless the text holds a single quote and no double one.

* `quoteFor_mem`: one of the two quotes is chosen.
* `quote_eq_of_plain`: a printable text without quotes and backslashes is shown as it is.

Messages of `_BoolExpParser`, of `Variable` and of `is_equivalent_to` show texts in this way. Out of
scope: texts with unpaired surrogates, which are refused before they come into a message.
-/

namespace Propositional.Text

/-- The quote that a text is shown with. -/
def quoteFor (text : List Char) : Char :=
  if '\'' ∈ text ∧ '"' ∉ text then '"' else '\''

/-- How one character is shown between the given quotes. -/
def quoteChar (quote c : Char) : List Char :=
  if c = quote ∨ c = '\\' then ['\\', c]
  else if c = '\n' then ['\\', 'n']
  else if c = '\r' then ['\\', 'r']
  else if c = '\t' then ['\\', 't']
  else if isPrintable c then [c]
  else if c.toNat < 0x100 then ['\\', 'x'] ++ Hex.fixed 2 c.toNat
  else if c.toNat < 0x10000 then ['\\', 'u'] ++ Hex.fixed 4 c.toNat
  else ['\\', 'U'] ++ Hex.fixed 8 c.toNat

/-- A text between quotes, as messages show it. -/
def quote (text : String) : String :=
  let q := quoteFor text.toList
  String.ofList (q :: text.toList.flatMap (quoteChar q) ++ [q])

theorem quoteFor_mem (text : List Char) : quoteFor text ∈ ['\'', '"'] := by
  unfold quoteFor
  split <;> simp

theorem quote_eq_of_plain {text : String}
    (h : ∀ c ∈ text.toList, isPrintable c = true ∧ c ∉ ['\'', '"', '\\', '\n', '\r', '\t']) :
    quote text = "'" ++ text ++ "'" := by
  have hq : quoteFor text.toList = '\'' := by
    unfold quoteFor
    rw [if_neg]
    rintro ⟨hm, -⟩
    exact (h _ hm).2 (by simp)
  have hc : ∀ l : List Char, (∀ c ∈ l, c ∈ text.toList) →
      l.flatMap (quoteChar '\'') = l := by
    intro l
    induction l with
    | nil => intro _; rfl
    | cons c l ih =>
      intro hl
      have hcm := h c (hl c List.mem_cons_self)
      have hn := hcm.2
      simp only [List.mem_cons, List.not_mem_nil, or_false, not_or] at hn
      rw [List.flatMap_cons, ih fun d hd => hl d (List.mem_cons_of_mem c hd)]
      simp [quoteChar, hn, hcm.1]
  apply String.toList_injective
  simp [quote, hq, hc text.toList fun _ hc => hc]

end Propositional.Text
