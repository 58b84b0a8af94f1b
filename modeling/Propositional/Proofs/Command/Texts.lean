import Propositional.Command.Source
import Propositional.Proofs.Text.Margins
import Propositional.Proofs.Text.Utf8

/-!
# The text under a path

What a path gives is one of three things. There is a file with the bytes of some text, and not all
of that is blanks: then what lies between the blanks around it is the text that is read (`HasText`).
Or no text is to be had, since nothing is there, or a folder, or a file that must not be read, or
one with other bytes, or one with blanks alone (`LacksText`). Or the system refuses to look, since
the path or a name in it is too long, or leads through a folder that must not be searched
(`Refused`).

Results:
* `readText_of_hasText`, `readText_of_lacksText`, `readText_of_refused`: reading a text tells the
  three apart.
* `hasText_or_lacksText_or_refused`: there is no fourth.
-/

namespace Propositional.Command

open Propositional.Text

/-- The file under a path has a text: what is left of its characters once line ends are unified and
the blanks around are removed. -/
def HasText (tree : FileTree) (shown text : String) : Prop :=
  ∃ content : String, tree.find (Path.ofText shown).text = .ok (.file content.toUTF8.toList) ∧
    trim (unify content.toList) = text.toList ∧ text ≠ ""

/-- There is no text under a path, for the reason given. -/
inductive LacksText (tree : FileTree) (shown : String) : SourceError → Prop
  | missing (h : tree.find (Path.ofText shown).text = .error .missing) :
      LacksText tree shown (.notFound shown)
  | nullByte (h : tree.find (Path.ofText shown).text = .error .nullByte) :
      LacksText tree shown (.notFound shown)
  | folder (h : tree.find (Path.ofText shown).text = .ok .folder) :
      LacksText tree shown (.system (.isFolder (Path.ofText shown).text))
  | forbidden {isFolder : Bool}
      (h : tree.find (Path.ofText shown).text = .ok (.forbidden isFolder)) :
      LacksText tree shown (.system (.denied (Path.ofText shown).text))
  /-- The bytes are those of no text. -/
  | undecodable {bytes : List UInt8} {fault : Utf8.Fault}
      (h : tree.find (Path.ofText shown).text = .ok (.file bytes))
      (hbytes : ∀ content : String, content.toUTF8.toList ≠ bytes)
      (hfault : Utf8.decode bytes = .error fault) : LacksText tree shown (.undecodable fault bytes)
  | blank {content : String}
      (h : tree.find (Path.ofText shown).text = .ok (.file content.toUTF8.toList))
      (hblank : ∀ c ∈ content.toList, isBlank c = true) : LacksText tree shown (.empty shown)

/-- The system refuses to look under a path, with this error. -/
inductive Refused (tree : FileTree) (shown : String) : SystemError → Prop
  | tooLong (h : tree.find (Path.ofText shown).text = .error .tooLong) :
      Refused tree shown (.tooLong (Path.ofText shown).text)
  | denied (h : tree.find (Path.ofText shown).text = .error .denied) :
      Refused tree shown (.denied (Path.ofText shown).text)

variable {tree : FileTree} {shown text : String}

/-! ## Texts -/

theorem readText_of_contentOf {bytes : List UInt8} {text : List Char}
    (hfile : tree.find (Path.ofText shown).text = .ok (.file bytes))
    (hcontent : contentOf bytes = .ok text) (htext : text.isEmpty = false) :
    readText tree shown = .ok (String.ofList text) := by
  unfold readText
  simp only [hfile, hcontent, htext, Bool.false_eq_true, if_false]

theorem contentOf_toUTF8 (content : String) :
    contentOf content.toUTF8.toList = .ok (trim (unify content.toList)) := by
  rw [contentOf, Utf8.decode_toUTF8]
  rfl

theorem readText_of_hasText (h : HasText tree shown text) : readText tree shown = .ok text := by
  obtain ⟨content, hfile, htrim, htext⟩ := h
  have hcontent := contentOf_toUTF8 content
  rw [htrim] at hcontent
  have hsome : text.toList.isEmpty = false := by
    rwa [← Bool.not_eq_true, List.isEmpty_iff, String.toList_eq_nil_iff]
  rw [readText_of_contentOf hfile hcontent hsome, String.ofList_toList]

theorem readText_of_lacksText {error : SourceError} (h : LacksText tree shown error) :
    readText tree shown = .error error := by
  unfold readText
  cases h with
  | missing h => simp only [h]
  | nullByte h => simp only [h]
  | folder h => simp only [h]
  | forbidden h => simp only [h]
  | undecodable h _ hfault => simp only [h, contentOf, hfault, Except.map]
  | blank h hblank =>
    have hnil := trim_eq_nil_iff.mpr (forall_isBlank_unify.mpr hblank)
    simp only [h, contentOf_toUTF8, hnil, List.isEmpty_nil, if_true]

theorem readText_of_refused {error : SystemError} (h : Refused tree shown error) :
    readText tree shown = .error (.refused error) := by
  unfold readText
  cases h with
  | tooLong h => simp only [h]
  | denied h => simp only [h]

/-- **A path has a text, or lacks one, or is refused.** -/
theorem hasText_or_lacksText_or_refused (tree : FileTree) (shown : String) :
    (∃ text, HasText tree shown text) ∨ (∃ error, LacksText tree shown error) ∨
      ∃ error, Refused tree shown error := by
  cases hfind : tree.find (Path.ofText shown).text with
  | error reason =>
    cases reason with
    | missing => exact .inr (.inl ⟨_, .missing hfind⟩)
    | nullByte => exact .inr (.inl ⟨_, .nullByte hfind⟩)
    | tooLong => exact .inr (.inr ⟨_, .tooLong hfind⟩)
    | denied => exact .inr (.inr ⟨_, .denied hfind⟩)
  | ok node =>
    cases node with
    | folder => exact .inr (.inl ⟨_, .folder hfind⟩)
    | forbidden => exact .inr (.inl ⟨_, .forbidden hfind⟩)
    | file bytes =>
      cases hdecode : Utf8.decode bytes with
      | error fault =>
        refine .inr (.inl ⟨_, .undecodable hfind (fun content hbytes => ?_) hdecode⟩)
        rw [← hbytes, Utf8.decode_toUTF8] at hdecode
        cases hdecode
      | ok chars =>
        obtain ⟨content, rfl⟩ : ∃ content : String, content.toList = chars :=
          ⟨String.ofList chars, String.toList_ofList⟩
        obtain rfl := Utf8.decode_eq_ok_iff.mp hdecode
        by_cases hblank : ∀ c ∈ content.toList, isBlank c = true
        · exact .inr (.inl ⟨_, .blank hfind hblank⟩)
        · refine .inl ⟨String.ofList (trim (unify content.toList)), content, hfind,
            String.toList_ofList.symm, fun hempty => hblank ?_⟩
          rw [← String.toList_eq_nil_iff, String.toList_ofList] at hempty
          exact forall_isBlank_unify.mp (trim_eq_nil_iff.mp hempty)

/-! ## Formulas -/

theorem readFormula_of_readText (h : readText tree shown = .ok text) :
    readFormula tree shown = (Document.read text).mapError (.malformed shown) := by
  unfold readFormula
  rw [h]

end Propositional.Command
