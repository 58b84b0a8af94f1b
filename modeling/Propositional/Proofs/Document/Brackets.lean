import Propositional.Proofs.Document.Replacement
import Propositional.Proofs.Document.RoundTrip

/-!
# One bracket more or less

In a document every bracket that is opened is closed. So a text that is read becomes one that is
refused when a bracket outside of its literals is put in or taken out, wherever that is: the symbols
before and after the place are found as before, and the count is off by one. A brace is no symbol at
all. The one place outside of literals that is not between two symbols is inside `true` or `false`;
there the word is cut in two, and its first half is no symbol.

Where a literal begins and ends is said without the reader: `Region` follows the quotes and
backslashes of a text from its start.

Results:
* `count_opening_eq`: what the grammar derives has as many opening as closing brackets.
* `cut_of_tiles`: a place outside of literals lies between two symbols or inside a constant.
* `not_read_both`: a text is not read both with and without a bracket or brace in such a place.
* `bracket_edits_refused`: so putting one in or taking one out makes a document unreadable.
-/

namespace Propositional.Document

open Propositional.Text

/-! ## Inside and outside of literals -/

/-- Where a place in a text lies. -/
inductive Region where
  | outside
  | literal
  /-- In a literal, right after a backslash that escapes the next character. -/
  | escape
  deriving DecidableEq, Repr

/-- Where the place after one more character lies. -/
def Region.next : Region → Char → Region
  | .outside, c => if c = '"' then .literal else .outside
  | .literal, c => if c = '"' then .outside else if c = '\\' then .escape else .literal
  | .escape, _ => .literal

/-- Where the end of a text lies, if its start lies in the given region. -/
def Region.after (region : Region) (text : List Char) : Region :=
  text.foldl Region.next region

/-- The place after this part of a text is not inside a literal. -/
def EndsOutside (text : String) : Prop :=
  Region.outside.after text.toList = .outside

instance (text : String) : Decidable (EndsOutside text) :=
  inferInstanceAs (Decidable (_ = _))

theorem Region.after_cons (region : Region) (c : Char) (text : List Char) :
    region.after (c :: text) = (region.next c).after text := rfl

theorem Region.after_append (region : Region) (a b : List Char) :
    region.after (a ++ b) = (region.after a).after b :=
  List.foldl_append ..

/-- A text without quotes changes nothing outside of literals. -/
theorem Region.after_outside {text : List Char} (h : '"' ∉ text) :
    Region.outside.after text = .outside := by
  induction text with
  | nil => rfl
  | cons c text ih =>
    rw [List.mem_cons, not_or] at h
    rw [Region.after_cons, Region.next, if_neg (Ne.symm h.1)]
    exact ih h.2

/-- Every place in the text is inside a literal that begins before it, and so is its end. -/
structure Inside (text : List Char) : Prop where
  here {part rest : List Char} (h : text = part ++ rest) : Region.literal.after part ≠ .outside
  done : Region.literal.after text = .literal

theorem inside_nil : Inside [] where
  here h := by
    obtain ⟨rfl, -⟩ := List.append_eq_nil_iff.mp h.symm
    exact nofun
  done := rfl

theorem inside_append {a b : List Char} (ha : Inside a) (hb : Inside b) : Inside (a ++ b) where
  here := by
    intro part rest h
    rcases List.append_eq_append_iff.mp h with ⟨part', rfl, hpart'⟩ | ⟨rest', hrest', -⟩
    · rw [Region.after_append, ha.done]
      exact hb.here hpart'
    · exact ha.here hrest'
  done := by rw [Region.after_append, ha.done, hb.done]

theorem inside_plain {c : Char} (h : Literal.Plain c) : Inside [c] := by
  have hnext : Region.literal.next c = .literal := by
    rw [Region.next, if_neg h.2.1, if_neg h.2.2]
  refine ⟨fun {part rest} hpart => ?_, hnext⟩
  rcases List.append_eq_singleton_iff.mp hpart.symm with ⟨rfl, -⟩ | ⟨rfl, -⟩
  · exact nofun
  · rw [Region.after_cons, hnext]
    exact nofun

theorem inside_of_forall_plain {text : List Char} (h : ∀ c ∈ text, Literal.Plain c) :
    Inside text := by
  induction text with
  | nil => exact inside_nil
  | cons c text ih =>
    exact inside_append (inside_plain (h c List.mem_cons_self))
      (ih fun d hd => h d (List.mem_cons_of_mem c hd))

/-- An escaped character does not close a literal. -/
theorem inside_escape (d : Char) : Inside ['\\', d] where
  here := by
    intro part rest h
    match part, h with
    | [], _ => exact nofun
    | [_], h =>
      cases h
      exact nofun
    | [_, _], h =>
      cases h
      exact nofun
  done := rfl

/-- **The inside of a literal is inside.** -/
theorem inside_of_spelling {body text : List Char} (h : Literal.Spelling body text) :
    Inside body := by
  obtain ⟨units, hunits, -⟩ := Literal.units_of_spelling h
  clear h
  induction hunits with
  | nil => exact inside_nil
  | plain hc _ ih => exact inside_append (inside_plain hc) ih
  | short hd _ ih => exact inside_append (inside_escape _) ih
  | number hx _ ih =>
    have hdigits := inside_of_forall_plain (Literal.plain_of_value4? hx)
    exact inside_append (inside_append (inside_escape 'u') hdigits) ih

/-! ## Places outside of literals -/

/-- No symbol but a string has a quote in its spelling. -/
theorem quote_not_mem_value {symbol : Symbol} (h : ∀ value, symbol ≠ .string value) :
    '"' ∉ symbol.value.toList := by
  match symbol with
  | .opening | .closing | .comma | .bool true | .bool false => decide
  | .string value => exact absurd rfl (h value)

/-- A symbol closes the literal that it opens. -/
theorem after_of_spelled {spelling : List Char} {symbol : Symbol} (h : Spelled spelling symbol) :
    Region.outside.after spelling = .outside := by
  cases h with
  | value h => exact Region.after_outside (quote_not_mem_value h)
  | literal h =>
    rw [Region.after_cons, Region.after_append]
    show (Region.literal.after _).after ['"'] = .outside
    rw [(inside_of_spelling h).done]
    rfl

/-- The word of a constant, cut in two. -/
inductive CutWord : (first second : List Char) → Prop
  | intro {first second : List Char} (value : Bool) (hfirst : first ≠ [])
      (hsecond : second ≠ []) (h : (Symbol.bool value).value.toList = first ++ second) :
      CutWord first second

/-- A place outside of literals in the spelling of a symbol is at one of its ends, unless the symbol
is a constant. -/
theorem cases_of_cut_spelled {a b : List Char} {symbol : Symbol} (h : Spelled (a ++ b) symbol)
    (houtside : Region.outside.after a = .outside) : a = [] ∨ b = [] ∨ CutWord a b := by
  by_cases ha : a = []
  · exact .inl ha
  by_cases hb : b = []
  · exact .inr (.inl hb)
  right
  right
  generalize hspelling : a ++ b = spelling at h
  cases h with
  | value h =>
    match symbol with
    | .bool value => exact .intro value ha hb hspelling.symm
    | .opening | .closing | .comma =>
      rcases List.append_eq_singleton_iff.mp hspelling with ⟨rfl, -⟩ | ⟨-, rfl⟩
      · exact absurd rfl ha
      · exact absurd rfl hb
    | .string value => exact absurd rfl (h value)
  | @literal body value h =>
    -- The place is after the first quote and before the last one.
    obtain ⟨c, a, rfl⟩ := List.exists_cons_of_ne_nil ha
    obtain ⟨b, d, rfl⟩ := (List.eq_nil_or_concat b).resolve_left hb
    rw [List.concat_eq_append, ← List.append_assoc, ← List.cons_append] at hspelling
    obtain ⟨hinside, -⟩ := List.append_inj' hspelling rfl
    obtain ⟨rfl, hbody⟩ := List.cons.inj hinside
    exact absurd houtside ((inside_of_spelling h).here hbody.symm)

/-- A row of symbols is cut in two outside of its literals: between two symbols, or inside the word
of a constant. -/
inductive Cut : (a b : List Char) → (symbols : List Symbol) → Prop
  | between {a b : List Char} {as bs : List Symbol} (ha : Tiles a as) (hb : Tiles b bs) :
      Cut a b (as ++ bs)
  | word {before first second after : List Char} {as symbols : List Symbol} (ha : Tiles before as)
      (h : CutWord first second) : Cut (before ++ first) (second ++ after) symbols

/-- One more piece of a row before the cut. -/
theorem cut_append {a b c : List Char} {symbols cs : List Symbol} (hc : Tiles c cs)
    (h : Cut a b symbols) : Cut (c ++ a) b (cs ++ symbols) := by
  cases h with
  | between ha hb =>
    rw [← List.append_assoc]
    exact .between (tiles_append hc ha) hb
  | word ha hword =>
    rw [← List.append_assoc]
    exact .word (tiles_append hc ha) hword

/-- **A place outside of literals lies between two symbols or inside a constant.** -/
theorem cut_of_tiles {a b : List Char} {symbols : List Symbol} (h : Tiles (a ++ b) symbols)
    (houtside : Region.outside.after a = .outside) : Cut a b symbols := by
  generalize htext : a ++ b = text at h
  induction h generalizing a with
  | nil =>
    obtain ⟨rfl, rfl⟩ := List.append_eq_nil_iff.mp htext
    exact .between .nil .nil
  | @space c text symbols hc h ih =>
    cases a with
    | nil =>
      subst htext
      exact .between .nil (.space hc h)
    | cons d a =>
      obtain ⟨rfl, hrest⟩ := List.cons.inj htext
      have hquote : '"' ∉ [d] := by
        intro hmem
        obtain rfl := List.mem_singleton.mp hmem
        cases hc
      have hnext : Region.outside.next d = .outside := Region.after_outside hquote
      rw [Region.after_cons, hnext] at houtside
      exact cut_append (.space hc .nil) (ih houtside hrest)
  | @symbol spelling text symbol symbols hs h ih =>
    rcases List.append_eq_append_iff.mp htext with ⟨b', rfl, rfl⟩ | ⟨a', rfl, rfl⟩
    · -- The place is in the spelling of the first symbol.
      rcases cases_of_cut_spelled hs houtside with rfl | rfl | hword
      · exact .between .nil (.symbol hs h)
      · rw [List.append_nil] at hs
        exact .between (tiles_spelled hs) h
      · exact .word .nil hword
    · rw [Region.after_append, after_of_spelled hs] at houtside
      exact cut_append (tiles_spelled hs) (ih houtside rfl)

/-! ## What is found in an edited text -/

/-- **Every bracket that is opened is closed.** -/
theorem count_opening_eq {symbols : List Symbol} {e : Expr} (h : Derives symbols e) :
    symbols.count .opening = symbols.count .closing := by
  induction h with
  | const | var => rfl
  | group _ ih | unary _ _ ih =>
    simp only [List.count_cons, List.count_append, List.count_nil, ih]
    rfl
  | binary _ _ _ ihl ihr =>
    simp only [List.count_cons, List.count_append, List.count_nil, ihl, ihr]
    rfl

/-- A bracket or a brace starts a row only as a bracket. -/
theorem exists_of_tiles_bracket {c : Char} (hc : c ∈ ['[', ']', '{', '}']) {text : List Char}
    {symbols : List Symbol} (h : Tiles (c :: text) symbols) :
    ∃ symbol rest, (symbol = .opening ∨ symbol = .closing) ∧ symbols = symbol :: rest ∧
      Tiles text rest := by
  have hopening : Tiles ['['] [.opening] := tiles_spelled (@Spelled.value .opening nofun)
  have hclosing : Tiles [']'] [.closing] := tiles_spelled (@Spelled.value .closing nofun)
  have hbrace (d : Char) (hd : lexeme d text = .error (.illegal d)) (hs : isSpace d = false) :
      ¬ Tiles (d :: text) symbols := by
    intro h
    obtain ⟨hfault, -⟩ := (scanFrom_eq_iff_tiles 0).mpr h
    rw [scanFrom_fault hs hd] at hfault
    cases hfault
  simp only [List.mem_cons, List.not_mem_nil, or_false] at hc
  rcases hc with rfl | rfl | rfl | rfl
  · obtain ⟨rest, rfl, hrest⟩ := exists_of_tiles_text_append hopening h
    exact ⟨.opening, rest, .inl rfl, rfl, hrest⟩
  · obtain ⟨rest, rfl, hrest⟩ := exists_of_tiles_text_append hclosing h
    exact ⟨.closing, rest, .inr rfl, rfl, hrest⟩
  · exact absurd h (hbrace '{' rfl rfl)
  · exact absurd h (hbrace '}' rfl rfl)

/-- The first part of a constant's word is no symbol before a bracket or a brace. -/
theorem lexeme_cutWord {c : Char} (hc : c ∈ ['[', ']', '{', '}']) {first second : List Char}
    (h : CutWord first second) (text : List Char) : ∃ d rest, first ++ c :: text = d :: rest ∧
      isSpace d = false ∧ lexeme d rest = .error (.illegal d) := by
  obtain ⟨value, hfirst, hsecond, hword⟩ := h
  obtain ⟨n, hpos, hlt, rfl⟩ : ∃ n, 0 < n ∧ n < (Symbol.bool value).value.toList.length ∧
      first = (Symbol.bool value).value.toList.take n := by
    have hlength := List.length_pos_iff.mpr hsecond
    refine ⟨first.length, List.length_pos_iff.mpr hfirst, ?_, ?_⟩
    · rw [hword, List.length_append]
      omega
    · rw [hword, List.take_left]
  simp only [List.mem_cons, List.not_mem_nil, or_false] at hc
  cases value with
  | true =>
    obtain rfl | rfl | rfl : n = 1 ∨ n = 2 ∨ n = 3 := by
      change n < 4 at hlt
      omega
    all_goals
      refine ⟨_, _, rfl, rfl, ?_⟩
      rcases hc with rfl | rfl | rfl | rfl <;> rfl
  | false =>
    obtain rfl | rfl | rfl | rfl : n = 1 ∨ n = 2 ∨ n = 3 ∨ n = 4 := by
      change n < 5 at hlt
      omega
    all_goals
      refine ⟨_, _, rfl, rfl, ?_⟩
      rcases hc with rfl | rfl | rfl | rfl <;> rfl

theorem not_tiles_cutWord {c : Char} (hc : c ∈ ['[', ']', '{', '}'])
    {first second text : List Char} (h : CutWord first second) (symbols : List Symbol) :
    ¬ Tiles (first ++ c :: text) symbols := by
  intro htiles
  obtain ⟨hfault, -⟩ := (scanFrom_eq_iff_tiles 0).mpr htiles
  obtain ⟨d, rest, htext, hs, hd⟩ := lexeme_cutWord hc h text
  rw [htext, scanFrom_fault hs hd] at hfault
  cases hfault

/-! ## Documents -/

/-- One bracket more upsets the count. -/
theorem not_derives_insert {as bs : List Symbol} {symbol : Symbol} {e f : Expr}
    (hsymbol : symbol = .opening ∨ symbol = .closing) (h : Derives (as ++ bs) e) :
    ¬ Derives (as ++ symbol :: bs) f := by
  intro h'
  have hcount := count_opening_eq h
  have hcount' := count_opening_eq h'
  rw [List.count_append, List.count_append] at hcount hcount'
  have hne : Symbol.opening ≠ .closing := nofun
  rcases hsymbol with rfl | rfl
  · rw [List.count_cons_self, List.count_cons_of_ne hne] at hcount'
    omega
  · rw [List.count_cons_of_ne hne.symm, List.count_cons_self] at hcount'
    omega

/-- **A text is not read both with and without a bracket or a brace** in a place outside of its
literals. -/
theorem not_read_both {before after : String} {c : Char} {e f : Expr}
    (hc : c ∈ ['[', ']', '{', '}']) (houtside : EndsOutside before)
    (h : read (before ++ after) = .ok e) :
    read (before ++ String.singleton c ++ after) ≠ .ok f := by
  intro h'
  obtain ⟨symbols, htiles, hd⟩ := read_eq_ok_iff_tiles.mp h
  obtain ⟨symbols', htiles', hd'⟩ := read_eq_ok_iff_tiles.mp h'
  simp only [String.toList_append, String.toList_singleton, List.append_assoc,
    List.singleton_append] at htiles htiles'
  have hcut := cut_of_tiles htiles houtside
  generalize before.toList = a at hcut htiles'
  generalize after.toList = b at hcut htiles'
  cases hcut with
  | between ha hb =>
    obtain ⟨rest, rfl, hrest⟩ := exists_of_tiles_text_append ha htiles'
    obtain ⟨symbol, bs, hsymbol, rfl, hbs⟩ := exists_of_tiles_bracket hc hrest
    obtain rfl := tiles_unique hb hbs
    exact not_derives_insert hsymbol hd hd'
  | word ha hword =>
    rw [List.append_assoc] at htiles'
    obtain ⟨rest, rfl, hrest⟩ := exists_of_tiles_text_append ha htiles'
    exact not_tiles_cutWord hc hword rest hrest

theorem exists_error_of_ne_ok {text : String} (h : ∀ e, read text ≠ .ok e) :
    ∃ error, read text = .error error := by
  cases hread : read text with
  | ok e => exact absurd hread (h e)
  | error error => exact ⟨error, rfl⟩

/-- **One bracket or brace too many, or one bracket too few, makes a document unreadable**, wherever
outside of its literals that is. -/
theorem bracket_edits_refused {text before after : String} {e : Expr} (h : read text = .ok e)
    (houtside : EndsOutside before) :
    (text = before ++ after → ∀ c ∈ ['[', ']', '{', '}'],
      ∃ error, read (before ++ String.singleton c ++ after) = .error error) ∧
    ∀ c ∈ ['[', ']'], text = before ++ String.singleton c ++ after →
      ∃ error, read (before ++ after) = .error error := by
  constructor
  · rintro rfl c hc
    exact exists_error_of_ne_ok fun f => not_read_both hc houtside h
  · rintro c hc rfl
    have hmem : c ∈ ['[', ']', '{', '}'] := List.mem_append_left ['{', '}'] hc
    exact exists_error_of_ne_ok fun f hf => not_read_both hmem houtside hf h

/-- The negation of a variable whose name has a quote and a bracket: another bracket after the
literal is one too many, and the last one is needed. -/
theorem bracket_after_literal : ∃ name : Name, name.text = "a\"]" ∧
    read "[\"NOT\", \"a\\\"]\"]" = .ok (.not (.var name)) ∧
      EndsOutside "[\"NOT\", \"a\\\"]\"" ∧
      (∃ error, read "[\"NOT\", \"a\\\"]\"]]" = .error error) ∧
      ∃ error, read "[\"NOT\", \"a\\\"]\"" = .error error := by
  let name : Name := ⟨"a\"]", by decide⟩
  have hwrite : write (.not (.var name)) = "[\"NOT\", \"a\\\"]\"]" := by decide +kernel
  have hread : read "[\"NOT\", \"a\\\"]\"]" = .ok (.not (.var name)) := by
    rw [← hwrite, read_write]
  have houtside : EndsOutside "[\"NOT\", \"a\\\"]\"" := by decide +kernel
  have hadd : "[\"NOT\", \"a\\\"]\"]" = "[\"NOT\", \"a\\\"]\"" ++ "]" := by decide +kernel
  have hdrop : "[\"NOT\", \"a\\\"]\"]" =
      "[\"NOT\", \"a\\\"]\"" ++ String.singleton ']' ++ "" := by decide +kernel
  refine ⟨name, rfl, hread, houtside, ?_, ?_⟩
  · obtain ⟨error, herror⟩ :=
      (bracket_edits_refused hread houtside).1 hadd ']' (by decide)
    exact ⟨error, herror⟩
  · obtain ⟨error, herror⟩ :=
      (bracket_edits_refused hread houtside).2 ']' (by decide) hdrop
    exact ⟨error, herror⟩

end Propositional.Document
