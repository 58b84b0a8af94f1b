import Propositional.Command.Source
import Propositional.Proofs.Command.FileTree
import Propositional.Proofs.Command.Texts
import Propositional.Proofs.Document.RoundTrip
import Propositional.Proofs.Text.Margins
import Propositional.Proofs.Text.Utf8

/-!
# Formulas read back from files

A file with the bytes of a written document is read as its formula, whatever blanks stand around the
document. Three steps come before the reader: the bytes become characters, line ends are unified,
and the blanks are removed. None of them touches the document. Whatever a name is made of, its
literal holds no carriage return, and a line feed by itself is a line end already
(`return_not_mem_write`); and a document neither starts nor ends with a blank (`bare_write`).

* `contentOf_margins`, `readText_margins`: what the bytes of the file hold is the document.
* `document_in_file_read_back`: so the text of the file is the document, and its formula is read.
-/

namespace Propositional.Command

open Propositional.Document Propositional.Text

/-! ## The characters of a document -/

theorem ne_return_of_plain {c : Char} (h : Literal.Plain c) : c ≠ '\r' := by
  rintro rfl
  exact absurd h.1 (by decide)

/-- A carriage return inside a literal is spelled by other characters. -/
theorem return_not_mem_of_spelling {body text : List Char} (h : Literal.Spelling body text) :
    '\r' ∉ body := by
  obtain ⟨units, hunits, -⟩ := Literal.units_of_spelling h
  clear h
  induction hunits with
  | nil => exact List.not_mem_nil
  | plain hc _ ih => exact List.not_mem_cons_of_ne_of_not_mem (ne_return_of_plain hc).symm ih
  | @short d _ _ _ hd _ ih =>
    have hreturn : d ≠ '\r' := by
      rintro rfl
      cases hd
    exact List.not_mem_cons_of_ne_of_not_mem (by decide)
      (List.not_mem_cons_of_ne_of_not_mem hreturn.symm ih)
  | @number x₁ x₂ x₃ x₄ _ _ _ hx _ ih =>
    have hdigits : '\r' ∉ [x₁, x₂, x₃, x₄] := fun hmem =>
      ne_return_of_plain (Literal.plain_of_value4? hx _ hmem) rfl
    have hescape : '\r' ∉ ['\\', 'u'] := by decide
    exact List.not_mem_append hescape (List.not_mem_append hdigits ih)

theorem return_not_mem_writeText (text : String) : '\r' ∉ (writeText text).toList := by
  have hquote : '\r' ∉ ['"'] := by decide
  have hbody := return_not_mem_of_spelling (Literal.spelling_encodeBody text.toList)
  rw [writeText, String.toList_ofList]
  exact List.not_mem_append (List.not_mem_append hquote hbody) hquote

/-- **A document holds no carriage return**, whatever its variables are called. -/
theorem return_not_mem_write (e : Expr) : '\r' ∉ (write e).toList := by
  have hopening : '\r' ∉ "[".toList := by decide
  have hclosing : '\r' ∉ "]".toList := by decide
  have hcomma : '\r' ∉ ", ".toList := by decide
  induction e with
  | const value => cases value <;> decide
  | var name => exact return_not_mem_writeText name.text
  | not e ih =>
    simp only [write, String.toList_append, List.mem_append, not_or]
    exact ⟨⟨⟨⟨hopening, return_not_mem_writeText _⟩, hcomma⟩, ih⟩, hclosing⟩
  | bin c l r ihl ihr =>
    simp only [write, String.toList_append, List.mem_append, not_or]
    exact ⟨⟨⟨⟨⟨⟨hopening, return_not_mem_writeText _⟩, hcomma⟩, ihl⟩, hcomma⟩, ihr⟩, hclosing⟩

/-- A document neither starts nor ends with a blank. -/
theorem bare_write (e : Expr) : Bare (write e).toList := by
  match e with
  | .const true => exact @Bare.intro 't' 'e' ['r', 'u'] rfl rfl
  | .const false => exact @Bare.intro 'f' 'e' ['a', 'l', 's'] rfl rfl
  | .var name =>
    rw [write, writeText, String.toList_ofList]
    exact @Bare.intro '"' '"' _ rfl rfl
  | .not e =>
    simp only [write, String.toList_append]
    exact @Bare.intro '[' ']' _ rfl rfl
  | .bin c l r =>
    simp only [write, String.toList_append]
    exact @Bare.intro '[' ']' _ rfl rfl

/-! ## The content of a file -/

/-- **What the bytes of a document among blanks hold is the document.** -/
theorem contentOf_margins {before after : String} (e : Expr)
    (hbefore : ∀ c ∈ before.toList, isBlank c = true)
    (hafter : ∀ c ∈ after.toList, isBlank c = true) :
    contentOf (before ++ write e ++ after).toUTF8.toList = .ok (write e).toList := by
  have hreturn := return_not_mem_write e
  have hbare := bare_write e
  have hfeed := hbare.head?_append_ne after.toList
  have hlast : (write e).toList.getLast? ≠ some '\r' := fun h =>
    hreturn (List.mem_of_getLast? h)
  have hunify : unify (before ++ write e ++ after).toList =
      unify before.toList ++ ((write e).toList ++ unify after.toList) := by
    rw [String.toList_append, String.toList_append, List.append_assoc,
      unify_append (.inr hfeed), unify_append (.inl hlast), unify_of_noReturn hreturn]
  have hbefore' := forall_isBlank_unify.mpr hbefore
  have hafter' := forall_isBlank_unify.mpr hafter
  rw [contentOf_toUTF8, hunify, trim_margins hbare hbefore' hafter']

theorem readText_margins {tree : FileTree} {shown before after : String} (e : Expr)
    (hbefore : ∀ c ∈ before.toList, isBlank c = true)
    (hafter : ∀ c ∈ after.toList, isBlank c = true)
    (hfile : tree.find (Path.ofText shown).text =
      .ok (.file (before ++ write e ++ after).toUTF8.toList)) :
    readText tree shown = .ok (write e) := by
  rw [← String.ofList_toList (s := write e)]
  exact readText_of_contentOf hfile (contentOf_margins e hbefore hafter) (bare_write e).isEmpty

/-- **A formula is read back from a file with its document**, among any blanks. -/
theorem document_in_file_read_back {tree : FileTree} {shown before after : String} (e : Expr)
    (hbefore : ∀ c ∈ before.toList, isBlank c = true)
    (hafter : ∀ c ∈ after.toList, isBlank c = true)
    (hfile : tree.find (Path.ofText shown).text =
      .ok (.file (before ++ write e ++ after).toUTF8.toList)) :
    readFormula tree shown = .ok e ∧ readText tree shown = .ok (write e) := by
  have htext := readText_margins e hbefore hafter hfile
  have hformula := readFormula_of_readText htext
  rw [read_write] at hformula
  exact ⟨hformula, htext⟩

/-- A name that is nothing but line ends, blanks and a character past the sixteen-bit range, in a
file with line ends around the document. -/
theorem name_of_blanks_read_back : ∃ (name : Name) (tree : FileTree),
    name.text = " \r\n\x85\u2028𝄞\t " ∧
      tree.find (Path.ofText "f").text =
        .ok (.file ("\r\n\x85 " ++ write (.var name) ++ "\u2029\r").toUTF8.toList) ∧
      readFormula tree "f" = .ok (.var name) ∧
      readText tree "f" = .ok (write (.var name)) := by
  let name : Name := ⟨" \r\n\x85\u2028𝄞\t ", by decide⟩
  let bytes := ("\r\n\x85 " ++ write (.var name) ++ "\u2029\r").toUTF8.toList
  let tree : FileTree := FileTree.empty.insert ⟨.above 0, ["f"]⟩ (.file bytes)
  have hplace : tree.locate (Path.ofText "f").text = .ok ⟨.above 0, ["f"]⟩ := by
    have hpath : (Path.ofText "f").text = "f" := by decide +kernel
    rw [hpath]
    rfl
  have hfile := FileTree.find_insert hplace (List.cons_ne_nil _ _)
  have hbefore : ∀ c ∈ "\r\n\x85 ".toList, isBlank c = true := List.all_eq_true.mp (by decide)
  have hafter : ∀ c ∈ "\u2029\r".toList, isBlank c = true := List.all_eq_true.mp (by decide)
  exact ⟨name, tree, rfl, hfile,
    document_in_file_read_back (.var name) hbefore hafter hfile⟩

end Propositional.Command
