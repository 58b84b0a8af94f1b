import Propositional.Document.Writer
import Propositional.Json
import Propositional.Proofs.Document.Grammar

/-!
# Reading what was written

A written document spells the symbols of its formula (`spells_write`), the grammar derives the
formula from these symbols, and the reader reads every derived text. So each formula is read back
from its document, whatever its variables are called and however deep it is nested. The nesting
limit of JSON values is the only loss, and only on that way.
-/

namespace Propositional.Document

/-- A written string spells itself, whatever characters it has. -/
theorem spells_writeText (text : String) :
    Spells (writeText text).toList [.string text] := by
  have h := spells_encode text.toList
  rw [String.ofList_toList] at h
  rw [writeText, String.toList_ofList]
  exact h

/-- One space follows a comma. -/
theorem spells_separator : Spells ", ".toList [.comma] :=
  spells_append (spells_value .comma nofun) (spells_space rfl)

/-- **A document spells the symbols of its formula.** -/
theorem spells_write (e : Expr) : Spells (write e).toList (symbolsOf e) := by
  have hopening := spells_value .opening nofun
  have hclosing := spells_value .closing nofun
  induction e with
  | const value => cases value <;> exact spells_value (.bool _) nofun
  | var name => exact spells_writeText name.text
  | not e ih =>
    have hword := spells_writeText Operator.not.word
    have h := spells_append hopening (spells_append hword (spells_append spells_separator
      (spells_append ih hclosing)))
    simp only [write, String.toList_append, List.append_assoc]
    exact h
  | bin c l r ihl ihr =>
    have hword := spells_writeText (Operator.bin c).word
    have h := spells_append hopening (spells_append hword (spells_append spells_separator
      (spells_append ihl (spells_append spells_separator (spells_append ihr hclosing)))))
    simp only [write, String.toList_append, List.append_assoc]
    exact h

theorem scan_write (e : Expr) :
    (scan (write e)).symbols = symbolsOf e ∧ (scan (write e)).fault = none :=
  scan_of_spells (spells_write e)

theorem read_write (e : Expr) : read (write e) = .ok e := by
  obtain ⟨hsymbols, hfault⟩ := scan_write e
  exact read_of_derives hfault (hsymbols ▸ derives_symbolsOf e)

/-- Different formulas have different documents. -/
theorem write_inj {e f : Expr} (h : write e = write f) : e = f := by
  have hread := read_write e
  rw [h, read_write f] at hread
  exact (Except.ok.inj hread).symm

/-- **Each formula is read back from its document**, and decoded from its JSON value unless it is
nested past the limit. -/
theorem reads_and_decodes_back (e : Expr) :
    read (write e) = .ok e ∧
      (Json.ofFormula e).formula? = if e.depth ≤ nestingLimit then some e else none := by
  refine ⟨read_write e, ?_⟩
  split
  · next h => exact Json.formula?_ofFormula h
  · next h => rw [Json.formula?, Json.depth_ofFormula, if_neg h]

end Propositional.Document
