import Propositional.Proofs.Document.Scan

/-!
# Texts as rows of symbols

A text is a row of symbols, each in one of its spellings, with spaces before, between and after
them. Symbols need no space between them, so a row can be cut anywhere (`exists_of_tiles_append`).

Results:
* `tiles_scanFrom`: what is scanned without a fault is a row of the symbols that were found.
* `spells_of_tiles`: a row spells its symbols, whatever follows.
* `scanFrom_eq_iff_tiles`: so scanning finds the symbols of a row, and it finds a fault in every
  other text.
-/

namespace Propositional.Document

open Propositional.Text

/-- The text is a spelling of the symbol. -/
inductive Spelled : (text : List Char) → Symbol → Prop
  | value {symbol : Symbol} (h : ∀ value, symbol ≠ .string value) :
      Spelled symbol.value.toList symbol
  | literal {body : List Char} {value : String} (h : Literal.Spelling body value.toList) :
      Spelled ('"' :: (body ++ ['"'])) (.string value)

/-- The text is a row of the symbols. -/
inductive Tiles : (text : List Char) → (symbols : List Symbol) → Prop
  | nil : Tiles [] []
  | space {c : Char} {text : List Char} {symbols : List Symbol} (hc : isSpace c = true)
      (h : Tiles text symbols) : Tiles (c :: text) symbols
  | symbol {spelling text : List Char} {symbol : Symbol} {symbols : List Symbol}
      (hs : Spelled spelling symbol) (h : Tiles text symbols) :
      Tiles (spelling ++ text) (symbol :: symbols)

/-! ## Rows are scanned -/

theorem spells_of_spelled {text : List Char} {symbol : Symbol} (h : Spelled text symbol) :
    Spells text [symbol] := by
  cases h with
  | value h => exact spells_value symbol h
  | literal h => exact spells_literal h

/-- **A row spells its symbols.** -/
theorem spells_of_tiles {text : List Char} {symbols : List Symbol} (h : Tiles text symbols) :
    Spells text symbols := by
  induction h with
  | nil => exact spells_nil
  | space hc _ ih => exact spells_append (spells_space hc) ih
  | symbol hs _ ih => exact spells_append (spells_of_spelled hs) ih

/-! ## What is scanned is a row -/

theorem spelled_of_lexeme {c : Char} {rest spelling after : List Char} {symbol : Symbol}
    (h : lexeme c rest = .ok (symbol, spelling, after)) : Spelled spelling symbol := by
  unfold lexeme at h
  split at h
  · cases h
    exact @Spelled.value .opening nofun
  · cases h
    exact @Spelled.value .closing nofun
  · cases h
    exact @Spelled.value .comma nofun
  · cases h
    exact @Spelled.value (.bool true) nofun
  · cases h
    exact @Spelled.value (.bool false) nofun
  · split at h
    · cases h
    · next body after' hsplit =>
      split at h
      · next value hvalue =>
        cases h
        have hinside := Literal.split_eq_some hsplit
        subst hinside
        refine .literal ?_
        rw [String.toList_ofList]
        exact Literal.spelling_of_decode hsplit hvalue
      · cases h
  · cases h

/-- **What is scanned without a fault is a row of what was found.** -/
theorem tiles_scanFrom {position : Nat} {text : List Char}
    (h : (scanFrom position text).fault = none) :
    Tiles text (scanFrom position text).symbols := by
  fun_induction scanFrom position text with
  | case1 => exact .nil
  | case2 position c rest hc ih => exact .space hc (ih h)
  | case3 => cases h
  | case4 position c rest hc symbol spelling after hread stop scanned ih =>
    rw [(lexeme_split hread).1]
    exact .symbol (spelled_of_lexeme hread) (ih h)

/-- **Scanning finds the symbols of a row**, and a fault in a text that is no row. -/
theorem scanFrom_eq_iff_tiles {text : List Char} {symbols : List Symbol} (position : Nat) :
    ((scanFrom position text).fault = none ∧ (scanFrom position text).symbols = symbols) ↔
      Tiles text symbols := by
  constructor
  · rintro ⟨hfault, rfl⟩
    exact tiles_scanFrom hfault
  · intro h
    exact (scanFrom_of_spells (spells_of_tiles h) position).symm

theorem tiles_unique {text : List Char} {as bs : List Symbol} (ha : Tiles text as)
    (hb : Tiles text bs) : as = bs :=
  ((scanFrom_eq_iff_tiles 0).mpr ha).2.symm.trans ((scanFrom_eq_iff_tiles 0).mpr hb).2

/-! ## Cutting and joining rows -/

theorem tiles_append {a b : List Char} {as bs : List Symbol} (ha : Tiles a as) (hb : Tiles b bs) :
    Tiles (a ++ b) (as ++ bs) := by
  induction ha with
  | nil => exact hb
  | space hc _ ih => exact .space hc ih
  | symbol hs _ ih =>
    rw [List.append_assoc]
    exact .symbol hs ih

theorem tiles_spaces {text : List Char} (h : ∀ c ∈ text, isSpace c = true) : Tiles text [] := by
  induction text with
  | nil => exact .nil
  | cons c text ih =>
    exact .space (h c List.mem_cons_self) (ih fun d hd => h d (List.mem_cons_of_mem c hd))

theorem tiles_spelled {text : List Char} {symbol : Symbol} (h : Spelled text symbol) :
    Tiles text [symbol] := by
  rw [← List.append_nil text]
  exact .symbol h .nil

/-- A row can be cut between any two of its symbols. -/
theorem exists_of_tiles_append {text : List Char} {as bs : List Symbol}
    (h : Tiles text (as ++ bs)) : ∃ a b, text = a ++ b ∧ Tiles a as ∧ Tiles b bs := by
  generalize hsymbols : as ++ bs = symbols at h
  induction h generalizing as with
  | nil =>
    obtain ⟨rfl, rfl⟩ := List.append_eq_nil_iff.mp hsymbols
    exact ⟨[], [], rfl, .nil, .nil⟩
  | @space c _ _ hc _ ih =>
    obtain ⟨a, b, rfl, ha, hb⟩ := ih hsymbols
    exact ⟨c :: a, b, rfl, .space hc ha, hb⟩
  | @symbol spelling text symbol _ hs h ih =>
    cases as with
    | nil =>
      subst hsymbols
      exact ⟨[], spelling ++ text, rfl, .nil, .symbol hs h⟩
    | cons a' as =>
      obtain ⟨rfl, hrest⟩ := List.cons.inj hsymbols
      obtain ⟨a, b, rfl, ha, hb⟩ := ih hrest
      exact ⟨spelling ++ a, b, (List.append_assoc ..).symm, .symbol hs ha, hb⟩

theorem exists_of_tiles_cons {text : List Char} {symbol : Symbol} {symbols : List Symbol}
    (h : Tiles text (symbol :: symbols)) :
    ∃ a b, text = a ++ b ∧ Tiles a [symbol] ∧ Tiles b symbols :=
  @exists_of_tiles_append text [symbol] symbols h

/-- A row of nothing consists of spaces. -/
theorem isSpace_of_tiles_nil {text : List Char} (h : Tiles text []) :
    ∀ c ∈ text, isSpace c = true := by
  generalize hsymbols : [] = symbols at h
  induction h with
  | nil => exact List.forall_mem_nil _
  | space hc _ ih => exact List.forall_mem_cons.mpr ⟨hc, ih hsymbols⟩
  | symbol => cases hsymbols

/-- A row of one symbol is a spelling of it among spaces. -/
theorem exists_of_tiles_singleton {text : List Char} {symbol : Symbol} (h : Tiles text [symbol]) :
    ∃ before spelling after, text = before ++ (spelling ++ after) ∧
      (∀ c ∈ before, isSpace c = true) ∧ Spelled spelling symbol ∧
      ∀ c ∈ after, isSpace c = true := by
  generalize hsymbols : [symbol] = symbols at h
  induction h with
  | nil => cases hsymbols
  | @space c _ _ hc _ ih =>
    obtain ⟨before, spelling, after, rfl, hbefore, hs, hafter⟩ := ih hsymbols
    exact ⟨c :: before, spelling, after, rfl, List.forall_mem_cons.mpr ⟨hc, hbefore⟩, hs, hafter⟩
  | @symbol spelling text _ _ hs h =>
    cases hsymbols
    exact ⟨[], spelling, text, rfl, List.forall_mem_nil _, hs, isSpace_of_tiles_nil h⟩

end Propositional.Document
