import Propositional.Proofs.Document.Grammar
import Propositional.Proofs.Document.Tiling
import Propositional.Proofs.Json.Text

/-!
# JSON texts as rows of symbols

Of all JSON values only constants, strings and arrays of such values can be written with the symbols
of documents. `symbols?` gives the symbols; a value with a null, a number or an object in it has
none.

Results:
* `symbols_append_inj`: the symbols of a value determine it, whatever follows them.
* `derives_iff_decode`: the grammar of documents derives a formula from the symbols of a value iff
  the value encodes the formula.
* `scans_of_denotes`, `denotes_of_tiles`: a text denotes a value that has symbols iff it is a row of
  them, and in a text of any other value scanning finds a fault.
* `eq_of_denotes`: a text of a value that has symbols denotes no other value.
-/

namespace Propositional.Json

open Propositional.Text Propositional.Document

/-- One row of symbols and another one behind it, if there are both. -/
def joined (a b : Option (List Symbol)) : Option (List Symbol) :=
  match a, b with
  | some as, some bs => some (as ++ bs)
  | _, _ => none

theorem joined_eq_some_iff {a b : Option (List Symbol)} {symbols : List Symbol} :
    joined a b = some symbols ↔ ∃ as bs, a = some as ∧ b = some bs ∧ as ++ bs = symbols := by
  cases a <;> cases b <;> simp [joined]

/-- The symbols that a value is written with. -/
def symbols? : Json → Option (List Symbol)
  | bool value => some [.bool value]
  | string value => some [.string value]
  | array [] => some [.opening, .closing]
  | array (v :: vs) => joined (some [.opening]) (joined v.symbols? (symbolsOfElements vs))
  | _ => none
where
  /-- The symbols of the elements after the first, up to the closing bracket. -/
  symbolsOfElements : List Json → Option (List Symbol)
    | [] => some [.closing]
    | v :: vs => joined (some [.comma]) (joined v.symbols? (symbolsOfElements vs))

open symbols? (symbolsOfElements)

theorem symbols?_string (value : String) : (string value).symbols? = some [.string value] := by
  rw [symbols?]

theorem symbolsOfElements_nil : symbolsOfElements [] = some [.closing] := by
  rw [symbolsOfElements]

theorem symbols?_array_eq_some_iff {v : Json} {vs : List Json} {symbols : List Symbol} :
    (array (v :: vs)).symbols? = some symbols ↔
      ∃ as bs, v.symbols? = some as ∧ symbolsOfElements vs = some bs ∧
        symbols = .opening :: (as ++ bs) := by
  simp only [symbols?, joined_eq_some_iff]
  grind

theorem symbolsOfElements_eq_some_iff {v : Json} {vs : List Json} {symbols : List Symbol} :
    symbolsOfElements (v :: vs) = some symbols ↔
      ∃ as bs, v.symbols? = some as ∧ symbolsOfElements vs = some bs ∧
        symbols = .comma :: (as ++ bs) := by
  simp only [symbolsOfElements, joined_eq_some_iff]
  grind

theorem symbols?_array {v : Json} {vs : List Json} {as bs : List Symbol}
    (ha : v.symbols? = some as) (hb : symbolsOfElements vs = some bs) :
    (array (v :: vs)).symbols? = some (.opening :: (as ++ bs)) :=
  symbols?_array_eq_some_iff.mpr ⟨as, bs, ha, hb, rfl⟩

theorem symbolsOfElements_cons {v : Json} {vs : List Json} {as bs : List Symbol}
    (ha : v.symbols? = some as) (hb : symbolsOfElements vs = some bs) :
    symbolsOfElements (v :: vs) = some (.comma :: (as ++ bs)) :=
  symbolsOfElements_eq_some_iff.mpr ⟨as, bs, ha, hb, rfl⟩

/-! ## Symbols determine the value -/

/-- The symbol that a value starts with. -/
def first? : Json → Option Symbol
  | bool value => some (.bool value)
  | string value => some (.string value)
  | array _ => some .opening
  | _ => none

theorem exists_of_symbols {v : Json} {symbols : List Symbol} (h : v.symbols? = some symbols) :
    ∃ first rest, symbols = first :: rest ∧ v.first? = some first := by
  cases v with
  | bool | string =>
    cases h
    exact ⟨_, _, rfl, rfl⟩
  | array elements =>
    cases elements with
    | nil =>
      cases h
      exact ⟨_, _, rfl, rfl⟩
    | cons v vs =>
      obtain ⟨as, bs, -, -, rfl⟩ := symbols?_array_eq_some_iff.mp h
      exact ⟨_, _, rfl, rfl⟩
  | null | number | object => cases h

theorem first?_ne_closing (v : Json) : v.first? ≠ some .closing := by
  cases v <;> exact nofun

/-- No value starts with a closing bracket, so an empty array is told from all others. -/
theorem closing_ne_of_symbols {v : Json} {as r s : List Symbol} (h : v.symbols? = some as) :
    .closing :: r ≠ as ++ s := by
  obtain ⟨first, rest, rfl, hfirst⟩ := exists_of_symbols h
  intro heq
  obtain ⟨rfl, -⟩ := List.cons.inj heq
  exact first?_ne_closing v hfirst

mutual

/-- **The symbols of a value determine it**, whatever follows them. -/
theorem symbols_append_inj {v w : Json} {a b r s : List Symbol} (hv : v.symbols? = some a)
    (hw : w.symbols? = some b) (h : a ++ r = b ++ s) : v = w ∧ r = s := by
  have hfirst : v.first? = w.first? := by
    obtain ⟨_, _, rfl, hv'⟩ := exists_of_symbols hv
    obtain ⟨_, _, rfl, hw'⟩ := exists_of_symbols hw
    rw [hv', hw', (List.cons.inj h).1]
  -- So the two values have the same shape; of arrays it remains to compare the elements.
  match v, w with
  | .bool _, .bool _ | .string _, .string _ | .array [], .array [] =>
    cases hfirst
    cases hv
    cases hw
    exact ⟨rfl, List.append_cancel_left h⟩
  | .array [], .array (_ :: _) =>
    obtain ⟨as, bs, has, -, rfl⟩ := symbols?_array_eq_some_iff.mp hw
    cases hv
    simp only [List.cons_append, List.nil_append, List.append_assoc, List.cons.injEq,
      true_and] at h
    exact absurd h (closing_ne_of_symbols has)
  | .array (_ :: _), .array [] =>
    obtain ⟨as, bs, has, -, rfl⟩ := symbols?_array_eq_some_iff.mp hv
    cases hw
    simp only [List.cons_append, List.nil_append, List.append_assoc, List.cons.injEq,
      true_and] at h
    exact absurd h.symm (closing_ne_of_symbols has)
  | .array (v :: vs), .array (w :: ws) =>
    obtain ⟨as, bs, has, hbs, rfl⟩ := symbols?_array_eq_some_iff.mp hv
    obtain ⟨as', bs', has', hbs', rfl⟩ := symbols?_array_eq_some_iff.mp hw
    simp only [List.cons_append, List.append_assoc, List.cons.injEq, true_and] at h
    obtain ⟨rfl, hrest⟩ := symbols_append_inj has has' h
    obtain ⟨rfl, rfl⟩ := symbolsOfElements_append_inj hbs hbs' hrest
    exact ⟨rfl, rfl⟩
termination_by structural v

theorem symbolsOfElements_append_inj {vs ws : List Json} {a b r s : List Symbol}
    (hv : symbolsOfElements vs = some a) (hw : symbolsOfElements ws = some b)
    (h : a ++ r = b ++ s) : vs = ws ∧ r = s := by
  match vs, ws with
  | [], [] =>
    cases hv
    cases hw
    exact ⟨rfl, List.append_cancel_left h⟩
  | [], _ :: _ =>
    obtain ⟨_, _, -, -, rfl⟩ := symbolsOfElements_eq_some_iff.mp hw
    cases hv
    cases (List.cons.inj h).1
  | _ :: _, [] =>
    obtain ⟨_, _, -, -, rfl⟩ := symbolsOfElements_eq_some_iff.mp hv
    cases hw
    cases (List.cons.inj h).1
  | v :: vs, w :: ws =>
    obtain ⟨as, bs, has, hbs, rfl⟩ := symbolsOfElements_eq_some_iff.mp hv
    obtain ⟨as', bs', has', hbs', rfl⟩ := symbolsOfElements_eq_some_iff.mp hw
    simp only [List.cons_append, List.append_assoc, List.cons.injEq, true_and] at h
    obtain ⟨rfl, hrest⟩ := symbols_append_inj has has' h
    obtain ⟨rfl, rfl⟩ := symbolsOfElements_append_inj hbs hbs' hrest
    exact ⟨rfl, rfl⟩
termination_by structural vs

end

/-! ## The grammar and the decoder -/

theorem derives_of_decode {v : Json} {e : Expr} (h : v.decode = some e) :
    ∃ symbols, v.symbols? = some symbols ∧ Derives symbols e := by
  fun_induction decode v generalizing e with
  | case1 value =>
    cases h
    exact ⟨_, rfl, .const value⟩
  | case2 word =>
    obtain ⟨name, hw, rfl⟩ := Option.map_eq_some_iff.mp h
    exact ⟨_, rfl, .var hw⟩
  | case3 v ih =>
    obtain ⟨symbols, hv, hd⟩ := ih h
    exact ⟨_, symbols?_array hv symbolsOfElements_nil, .group hd⟩
  | case4 word v hw ih =>
    obtain ⟨e, hdecode, rfl⟩ := Option.map_eq_some_iff.mp h
    obtain ⟨symbols, hv, hd⟩ := ih hdecode
    have hrest := symbolsOfElements_cons hv symbolsOfElements_nil
    exact ⟨_, symbols?_array (symbols?_string word) hrest, .unary hw hd⟩
  | case6 word v w c hw l r hr hl ihl ihr =>
    cases h
    obtain ⟨ls, hv, hdl⟩ := ihl hl
    obtain ⟨rs, hw', hdr⟩ := ihr hr
    have hrest := symbolsOfElements_cons hv (symbolsOfElements_cons hw' symbolsOfElements_nil)
    exact ⟨_, symbols?_array (symbols?_string word) hrest, .binary hw hdl hdr⟩
  | case5 | case7 | case8 | case9 => cases h

theorem exists_of_derives {symbols : List Symbol} {e : Expr} (h : Derives symbols e) :
    ∃ v : Json, v.symbols? = some symbols ∧ v.decode = some e := by
  induction h with
  | const value => exact ⟨bool value, rfl, rfl⟩
  | @var word _ hw =>
    refine ⟨string word, rfl, ?_⟩
    rw [decode, hw, Option.map_some]
  | group _ ih =>
    obtain ⟨v, hv, hdecode⟩ := ih
    refine ⟨array [v], symbols?_array hv symbolsOfElements_nil, ?_⟩
    rw [decode, hdecode]
  | @unary word _ _ hw _ ih =>
    obtain ⟨v, hv, hdecode⟩ := ih
    have hrest := symbolsOfElements_cons hv symbolsOfElements_nil
    refine ⟨array [string word, v], symbols?_array (symbols?_string word) hrest, ?_⟩
    simp only [decode, hw, hdecode, Option.map_some]
  | @binary word _ _ _ _ _ hw _ _ ihl ihr =>
    obtain ⟨v, hv, hl⟩ := ihl
    obtain ⟨w, hw', hr⟩ := ihr
    have hrest := symbolsOfElements_cons hv (symbolsOfElements_cons hw' symbolsOfElements_nil)
    refine ⟨array [string word, v, w], symbols?_array (symbols?_string word) hrest, ?_⟩
    simp only [decode, hw, hl, hr]

/-- **The grammar derives from the symbols of a value what the value encodes.** -/
theorem derives_iff_decode {v : Json} {symbols : List Symbol} (hv : v.symbols? = some symbols)
    (e : Expr) : Derives symbols e ↔ v.decode = some e := by
  constructor
  · intro h
    obtain ⟨w, hw, hdecode⟩ := exists_of_derives h
    rwa [(symbols_append_inj (r := []) (s := []) hv hw rfl).1]
  · intro h
    obtain ⟨symbols', hv', hd⟩ := derives_of_decode h
    rw [hv] at hv'
    cases hv'
    exact hd

/-! ## Texts of values -/

/-- The text is a row of the symbols, or it has a fault where there are none, whatever follows. -/
def Scans (text : List Char) : Option (List Symbol) → Prop
  | some symbols => Tiles text symbols
  | none => ∀ (position : Nat) (rest : List Char), (scanFrom position (text ++ rest)).fault ≠ none

theorem fault_ne_none_of_scans {text : List Char} (h : Scans text none) (position : Nat) :
    (scanFrom position text).fault ≠ none := by
  have hfault := h position []
  rwa [List.append_nil] at hfault

theorem scans_unique {text : List Char} {a b : Option (List Symbol)} (ha : Scans text a)
    (hb : Scans text b) : a = b := by
  cases a with
  | none =>
    cases b with
    | none => rfl
    | some bs =>
      have hfault := ((scanFrom_eq_iff_tiles 0).mpr hb).1
      exact absurd hfault (fault_ne_none_of_scans ha 0)
  | some as =>
    obtain ⟨hfault, hfound⟩ := (scanFrom_eq_iff_tiles 0).mpr ha
    cases b with
    | none => exact absurd hfault (fault_ne_none_of_scans hb 0)
    | some bs => rw [← hfound, ((scanFrom_eq_iff_tiles 0).mpr hb).2]

theorem scans_append_of_none {text : List Char} (h : Scans text none) (after : List Char) :
    Scans (text ++ after) none := by
  intro position rest
  rw [List.append_assoc]
  exact h position (after ++ rest)

theorem scans_joined {a b : List Char} {as bs : Option (List Symbol)} (ha : Scans a as)
    (hb : Scans b bs) : Scans (a ++ b) (joined as bs) := by
  cases as with
  | none => exact scans_append_of_none ha b
  | some as =>
    cases bs with
    | none =>
      -- The first text is scanned to its end before the fault in the second is met.
      intro position rest
      obtain ⟨tokens, next, -, hscan⟩ := spells_of_tiles ha position (b ++ rest)
      rw [List.append_assoc, hscan]
      exact hb next rest
    | some bs => exact tiles_append ha hb

theorem scans_spaces {text : List Char} (h : ∀ c ∈ text, isSpace c = true) :
    Scans text (some []) :=
  tiles_spaces h

theorem joined_spaces (symbols : Option (List Symbol)) :
    joined (some []) (joined symbols (some [])) = symbols := by
  cases symbols with
  | none => rfl
  | some symbols => rw [joined, joined, List.append_nil, List.nil_append]

/-- Where no symbol can start there is a fault. -/
theorem scans_none {c : Char} {text : List Char} {cause : LexicalCause} (hc : isSpace c = false)
    (h : ∀ rest, lexeme c rest = .error cause) : Scans (c :: text) none := by
  intro position rest
  rw [List.cons_append, scanFrom_fault hc (h _)]
  exact nofun

theorem scans_numeral {text : List Char} {mantissa : Int} {exponent : Nat}
    (h : Numeral text mantissa exponent) : Scans text none := by
  obtain ⟨c, rest, rfl, hc⟩ := exists_of_numeral h
  have hspace : isSpace c = false := by
    rw [← Bool.not_eq_true]
    intro hs
    simp only [isSpace, Bool.or_eq_true, decide_eq_true_eq] at hs
    rcases hs with ((rfl | rfl) | rfl) | rfl
    all_goals exact absurd hc (by decide)
  have hlexeme : ∀ rest, lexeme c rest = .error (.illegal c) := by
    intro rest
    unfold lexeme
    split
    case h_7 => rfl
    all_goals exact absurd hc (by decide)
  exact scans_none hspace hlexeme

/-! ### Marks -/

theorem spelled_iff (symbol : Symbol) (h : ∀ value, symbol ≠ .string value)
    (spelling : List Char) : Spelled spelling symbol ↔ spelling = symbol.value.toList := by
  constructor
  · intro hs
    cases hs with
    | value => rfl
    | literal => exact absurd rfl (h _)
  · rintro rfl
    exact .value h

/-- A symbol of one character is a mark. -/
theorem tiles_iff_mark {c : Char} {symbol : Symbol}
    (h : ∀ spelling, Spelled spelling symbol ↔ spelling = [c]) (text : List Char) :
    Tiles text [symbol] ↔ Mark c text := by
  constructor
  · intro ht
    obtain ⟨before, spelling, after, rfl, hbefore, hs, hafter⟩ := exists_of_tiles_singleton ht
    obtain rfl := (h spelling).mp hs
    exact .intro hbefore hafter
  · rintro ⟨hbefore, hafter⟩
    exact tiles_append (tiles_spaces hbefore) (.symbol ((h [c]).mpr rfl) (tiles_spaces hafter))

theorem tiles_opening_iff (text : List Char) : Tiles text [.opening] ↔ Mark '[' text :=
  tiles_iff_mark (spelled_iff .opening nofun) text

theorem tiles_closing_iff (text : List Char) : Tiles text [.closing] ↔ Mark ']' text :=
  tiles_iff_mark (spelled_iff .closing nofun) text

theorem tiles_comma_iff (text : List Char) : Tiles text [.comma] ↔ Mark ',' text :=
  tiles_iff_mark (spelled_iff .comma nofun) text

theorem scans_opening {text : List Char} (h : Mark '[' text) : Scans text (some [.opening]) :=
  (tiles_opening_iff text).mpr h

theorem scans_closing {text : List Char} (h : Mark ']' text) : Scans text (some [.closing]) :=
  (tiles_closing_iff text).mpr h

theorem scans_comma {text : List Char} (h : Mark ',' text) : Scans text (some [.comma]) :=
  (tiles_comma_iff text).mpr h

/-- No document has a brace. -/
theorem scans_brace {text : List Char} (h : Mark '{' text) : Scans text none := by
  cases h with
  | intro hbefore _ =>
    exact scans_joined (scans_spaces hbefore) (scans_none rfl fun _ => rfl)

/-! ### Values -/

mutual

/-- **What denotes a value is a row of its symbols**, or has a fault if it has none. -/
theorem scans_of_denotes {text : List Char} {v : Json} (h : Denotes text v) :
    Scans text v.symbols? := by
  match h with
  | .null => exact scans_none rfl fun _ => rfl
  | .bool true => exact tiles_spelled (@Spelled.value (.bool true) nofun)
  | .bool false => exact tiles_spelled (@Spelled.value (.bool false) nofun)
  | .number h => exact scans_numeral h
  | .string h => exact tiles_spelled (.literal h)
  | .emptyArray ho hc => exact scans_joined (scans_opening ho) (scans_closing hc)
  | .array ho h hrest =>
    rw [symbols?]
    exact scans_joined (scans_opening ho)
      (scans_joined (scans_of_denotes h) (scans_of_denotesElements hrest))
  | .emptyObject ho _ => exact scans_append_of_none (scans_brace ho) _
  | .object ho _ _ _ _ => exact scans_append_of_none (scans_brace ho) _
  | .spaces hbefore h hafter =>
    rw [← joined_spaces v.symbols?]
    exact scans_joined (scans_spaces hbefore)
      (scans_joined (scans_of_denotes h) (scans_spaces hafter))
termination_by structural h

theorem scans_of_denotesElements {text : List Char} {vs : List Json}
    (h : DenotesElements text vs) : Scans text (symbolsOfElements vs) := by
  match h with
  | .closing hc =>
    rw [symbolsOfElements_nil]
    exact scans_closing hc
  | .cons hcomma h hrest =>
    rw [symbolsOfElements]
    exact scans_joined (scans_comma hcomma)
      (scans_joined (scans_of_denotes h) (scans_of_denotesElements hrest))
termination_by structural h

end

mutual

/-- **A row of the symbols of a value denotes it.** -/
theorem denotes_of_tiles {v : Json} {text : List Char} {symbols : List Symbol}
    (hv : v.symbols? = some symbols) (h : Tiles text symbols) : Denotes text v := by
  match v with
  | .bool value =>
    cases hv
    obtain ⟨before, spelling, after, rfl, hbefore, hs, hafter⟩ := exists_of_tiles_singleton h
    obtain rfl := (spelled_iff (.bool value) nofun spelling).mp hs
    refine .spaces hbefore ?_ hafter
    cases value with
    | true => exact .bool true
    | false => exact .bool false
  | .string value =>
    cases hv
    obtain ⟨before, spelling, after, rfl, hbefore, hs, hafter⟩ := exists_of_tiles_singleton h
    cases hs with
    | value hne => exact absurd rfl (hne value)
    | literal hs => exact .spaces hbefore (.string hs) hafter
  | .array [] =>
    cases hv
    obtain ⟨opening, closing, rfl, ho, hc⟩ := exists_of_tiles_cons h
    exact .emptyArray ((tiles_opening_iff _).mp ho) ((tiles_closing_iff _).mp hc)
  | .array (v :: vs) =>
    obtain ⟨as, bs, ha, hb, rfl⟩ := symbols?_array_eq_some_iff.mp hv
    obtain ⟨opening, inside, rfl, ho, hinside⟩ := exists_of_tiles_cons h
    obtain ⟨first, rest, rfl, hfirst, hrest⟩ := exists_of_tiles_append hinside
    exact .array ((tiles_opening_iff _).mp ho) (denotes_of_tiles ha hfirst)
      (denotesElements_of_tiles hb hrest)
termination_by structural v

theorem denotesElements_of_tiles {vs : List Json} {text : List Char} {symbols : List Symbol}
    (hvs : symbolsOfElements vs = some symbols) (h : Tiles text symbols) :
    DenotesElements text vs := by
  match vs with
  | [] =>
    rw [symbolsOfElements_nil] at hvs
    cases hvs
    exact .closing ((tiles_closing_iff _).mp h)
  | v :: vs =>
    obtain ⟨as, bs, ha, hb, rfl⟩ := symbolsOfElements_eq_some_iff.mp hvs
    obtain ⟨comma, inside, rfl, hcomma, hinside⟩ := exists_of_tiles_cons h
    obtain ⟨next, rest, rfl, hnext, hrest⟩ := exists_of_tiles_append hinside
    exact .cons ((tiles_comma_iff _).mp hcomma) (denotes_of_tiles ha hnext)
      (denotesElements_of_tiles hb hrest)
termination_by structural vs

end

/-- **A text of a value that has symbols denotes no other value.** -/
theorem eq_of_denotes {text : List Char} {v w : Json} {symbols : List Symbol}
    (hv : Denotes text v) (hw : Denotes text w) (hsymbols : w.symbols? = some symbols) : v = w := by
  have hsame := scans_unique (scans_of_denotes hv) (scans_of_denotes hw)
  rw [hsymbols] at hsame
  exact (symbols_append_inj (r := []) (s := []) hsame hsymbols rfl).1

end Propositional.Json
