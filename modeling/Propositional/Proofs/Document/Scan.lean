import Propositional.Document.Token
import Propositional.Proofs.Document.Spelling

/-!
# What scanning finds

Every token is recognised by its own characters, so a text that is scanned as some symbols is so
whatever stands after it. `Spells` says this; it is put together piece by piece.

Results:
* `scanFrom_space`, `scanFrom_lexeme`, `scanFrom_fault`: one step of scanning.
* `spells_append`, `spells_value`, `spells_literal`: which texts spell which symbols.
* `scanFrom_of_spells`, `scan_of_spells`: a text that spells symbols is scanned as them, without a
  fault.
* `scanFrom_of_blank`: a blank text has no tokens.
-/

namespace Propositional.Document

open Propositional.Text

/-- The symbols of a scanned text, in order. -/
def Scan.symbols (scanned : Scan) : List Symbol :=
  scanned.tokens.map Token.symbol

/-! ## One step -/

theorem scanFrom_nil (position : Nat) : scanFrom position [] = ⟨[], none⟩ := by
  rw [scanFrom]

theorem scanFrom_space {c : Char} (h : isSpace c = true) (position : Nat) (rest : List Char) :
    scanFrom position (c :: rest) = scanFrom (position + 1) rest := by
  rw [scanFrom, if_pos h]

theorem scanFrom_lexeme {c : Char} {rest spelling after : List Char} {symbol : Symbol}
    (hs : isSpace c = false) (h : lexeme c rest = .ok (symbol, spelling, after)) (position : Nat) :
    scanFrom position (c :: rest) =
      ⟨⟨symbol, position, position + spelling.length⟩ ::
          (scanFrom (position + spelling.length) after).tokens,
        (scanFrom (position + spelling.length) after).fault⟩ := by
  rw [scanFrom, if_neg (by rw [hs]; exact Bool.false_ne_true)]
  split
  · next cause herror =>
    rw [herror] at h
    cases h
  · next symbol' spelling' after' hok =>
    rw [hok] at h
    cases h
    rfl

theorem scanFrom_fault {c : Char} {rest : List Char} {cause : LexicalCause}
    (hs : isSpace c = false) (h : lexeme c rest = .error cause) (position : Nat) :
    scanFrom position (c :: rest) = ⟨[], some ⟨position, cause⟩⟩ := by
  rw [scanFrom, if_neg (by rw [hs]; exact Bool.false_ne_true)]
  split
  · next cause' herror =>
    rw [herror] at h
    cases h
    rfl
  · next hok =>
    rw [hok] at h
    cases h

/-! ## Texts that spell symbols -/

/-- Whatever follows, the text is scanned as these symbols. -/
def Spells (text : List Char) (symbols : List Symbol) : Prop :=
  ∀ (position : Nat) (rest : List Char), ∃ (tokens : List Token) (next : Nat),
    tokens.map Token.symbol = symbols ∧
      scanFrom position (text ++ rest) =
        ⟨tokens ++ (scanFrom next rest).tokens, (scanFrom next rest).fault⟩

theorem spells_nil : Spells [] [] := by
  intro position rest
  exact ⟨[], position, rfl, rfl⟩

theorem spells_append {a b : List Char} {as bs : List Symbol} (ha : Spells a as)
    (hb : Spells b bs) : Spells (a ++ b) (as ++ bs) := by
  intro position rest
  obtain ⟨tokens, next, hmap, hscan⟩ := ha position (b ++ rest)
  obtain ⟨tokens', next', hmap', hscan'⟩ := hb next rest
  refine ⟨tokens ++ tokens', next', by rw [List.map_append, hmap, hmap'], ?_⟩
  rw [List.append_assoc, hscan, hscan', List.append_assoc]

theorem spells_space {c : Char} (h : isSpace c = true) : Spells [c] [] := by
  intro position rest
  exact ⟨[], position + 1, rfl, scanFrom_space h position rest⟩

/-- A text that is read as one symbol whatever follows spells this symbol. -/
theorem spells_lexeme {c : Char} {body : List Char} {symbol : Symbol} (hs : isSpace c = false)
    (h : ∀ rest, lexeme c (body ++ rest) = .ok (symbol, c :: body, rest)) :
    Spells (c :: body) [symbol] := by
  intro position rest
  exact ⟨[_], _, rfl, scanFrom_lexeme hs (h rest) position⟩

/-- A symbol other than a string is spelled by its value. -/
theorem spells_value (symbol : Symbol) (h : ∀ text, symbol ≠ .string text) :
    Spells symbol.value.toList [symbol] := by
  cases symbol with
  | opening | closing | comma => exact spells_lexeme rfl fun _ => rfl
  | string text => exact absurd rfl (h text)
  | bool value => cases value <;> exact spells_lexeme rfl fun _ => rfl

/-- **A literal spells its text**, in any spelling. -/
theorem spells_literal {body : List Char} {value : String}
    (h : Literal.Spelling body value.toList) : Spells ('"' :: (body ++ ['"'])) [.string value] := by
  refine spells_lexeme rfl fun rest => ?_
  have hsplit := Literal.split_of_staysInside (Literal.staysInside_of_spelling h) rest
  rw [List.append_assoc, List.singleton_append]
  simp only [lexeme, hsplit, Literal.decode_of_spelling h, String.ofList_toList,
    List.cons_append]

theorem spells_encode (text : List Char) :
    Spells (Literal.encode text) [.string (String.ofList text)] := by
  refine spells_literal ?_
  rw [String.toList_ofList]
  exact Literal.spelling_encodeBody text

/-- **A text that spells symbols is scanned as them, without a fault.** -/
theorem scanFrom_of_spells {text : List Char} {symbols : List Symbol} (h : Spells text symbols)
    (position : Nat) :
    (scanFrom position text).symbols = symbols ∧ (scanFrom position text).fault = none := by
  obtain ⟨tokens, next, hmap, hscan⟩ := h position []
  rw [List.append_nil, scanFrom_nil, List.append_nil] at hscan
  rw [hscan]
  exact ⟨hmap, rfl⟩

theorem scan_of_spells {text : String} {symbols : List Symbol} (h : Spells text.toList symbols) :
    (scan text).symbols = symbols ∧ (scan text).fault = none :=
  scanFrom_of_spells h 0

/-! ## Blank texts -/

/-- A token does not start with a blank. -/
theorem isBlank_of_lexeme {c : Char} {rest : List Char} {result : Symbol × List Char × List Char}
    (h : lexeme c rest = .ok result) : isBlank c = false := by
  unfold lexeme at h
  split at h
  · rfl
  · rfl
  · rfl
  · rfl
  · rfl
  · rfl
  · cases h

theorem scanFrom_of_blank {text : List Char} (h : ∀ c ∈ text, isBlank c = true) (position : Nat) :
    (scanFrom position text).tokens = [] := by
  induction text generalizing position with
  | nil => rw [scanFrom_nil]
  | cons c text ih =>
    cases hs : isSpace c with
    | true =>
      rw [scanFrom_space hs]
      exact ih (fun d hd => h d (List.mem_cons_of_mem c hd)) _
    | false =>
      cases hl : lexeme c text with
      | error cause => rw [scanFrom_fault hs hl]
      | ok result =>
        have hblank := h c List.mem_cons_self
        rw [isBlank_of_lexeme hl] at hblank
        cases hblank

end Propositional.Document
