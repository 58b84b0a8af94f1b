import Propositional.Proofs.Document.Replacement
import Propositional.Proofs.Document.RoundTrip
import Propositional.Proofs.Json.Symbols
import Propositional.Proofs.Response

/-!
# Canonical documents

Two things are lost when a document is read: the brackets of arrays with one element, and the letter
case of operators' words. `canonical` takes just these away from the symbols of any text, in one
pass from left to right. What is left of a text that is read are the symbols that its formula is
written with.

Results:
* `closesFirst_append`: to see whether an array has one element, the symbols of a formula in it are
  passed over.
* `canonicalFrom_append`: the symbols of a formula become those it is written with, whatever is open
  and whatever follows.
* `canonical_of_read`, `eq_iff_canonical`: so reading and writing again is `canonical` on symbols,
  and two texts are read as one formula iff their canonical symbols are the same.
* `read_wrapped`: arrays of one element around a part of a text change nothing.
* `writes_canonically`: all of it.
-/

namespace Propositional.Document

open Propositional.Json (Mark tiles_opening_iff tiles_closing_iff)

/-! ## The canonical symbols -/

/-- Whether the array that these symbols are in is closed before there is a comma in it. The depth
is the number of arrays inside it that are open. -/
def closesFirst : (depth : Nat) → List Symbol → Bool
  | _, [] => false
  | depth, .opening :: rest => closesFirst (depth + 1) rest
  | depth, .closing :: rest => depth == 0 || closesFirst (depth - 1) rest
  | depth, .comma :: rest => depth != 0 && closesFirst depth rest
  | depth, .string _ :: rest => closesFirst depth rest
  | depth, .bool _ :: rest => closesFirst depth rest

/-- Whether the array that has just been opened has one element. -/
def hasOneElement (symbols : List Symbol) : Bool :=
  symbols.head? != some .closing && closesFirst 0 symbols

/-- Takes the brackets of arrays with one element away, and puts the word of each operator in
capital letters. For each open array, innermost first, it is remembered whether its brackets go. -/
def canonicalFrom (goes : List Bool) : List Symbol → List Symbol
  | [] => []
  | .opening :: .string word :: .comma :: rest =>
    .opening :: .string word.toUpper :: .comma :: canonicalFrom (false :: goes) rest
  | .opening :: rest =>
    if hasOneElement rest then canonicalFrom (true :: goes) rest
    else .opening :: canonicalFrom (false :: goes) rest
  | .closing :: rest =>
    if goes.head? = some true then canonicalFrom goes.tail rest
    else .closing :: canonicalFrom goes.tail rest
  | symbol :: rest => symbol :: canonicalFrom goes rest

/-- The symbols without the brackets of arrays with one element, and with the words of operators in
capital letters. -/
def canonical (symbols : List Symbol) : List Symbol :=
  canonicalFrom [] symbols

/-! ## Symbols of a formula -/

theorem closesFirst_closing (depth : Nat) (rest : List Symbol) :
    closesFirst (depth + 1) (.closing :: rest) = closesFirst depth rest := by
  rw [closesFirst, beq_false_of_ne (Nat.succ_ne_zero depth), Bool.false_or, Nat.add_sub_cancel]

/-- **The symbols of a formula inside an array do not decide where the array ends.** -/
theorem closesFirst_append {symbols : List Symbol} {e : Expr} (h : Derives symbols e) (depth : Nat)
    (rest : List Symbol) : closesFirst depth (symbols ++ rest) = closesFirst depth rest := by
  induction h generalizing depth rest with
  | const value => rfl
  | var hw => rfl
  | group _ ih =>
    simp only [List.cons_append, List.append_assoc, closesFirst, ih]
    exact closesFirst_closing depth rest
  | unary hw _ ih =>
    simp only [List.cons_append, List.append_assoc, closesFirst, ih]
    exact closesFirst_closing depth rest
  | binary hw _ _ ihl ihr =>
    simp only [List.cons_append, List.append_assoc, closesFirst, ihl, ihr]
    exact closesFirst_closing depth rest

/-- An array with nothing but the symbols of a formula has one element. -/
theorem hasOneElement_of_derives {symbols : List Symbol} {e : Expr} (h : Derives symbols e)
    (rest : List Symbol) : hasOneElement (symbols ++ .closing :: rest) = true := by
  have hcloses : closesFirst 0 (symbols ++ .closing :: rest) = true := closesFirst_append h 0 _
  obtain ⟨first, symbols, rfl, hclosing, -⟩ := exists_first_of_derives h
  rw [hasOneElement, hcloses, Bool.and_true, List.cons_append, List.head?_cons, bne_iff_ne]
  exact fun heq => hclosing (Option.some.inj heq)

theorem canonicalFrom_operator (goes : List Bool) (word : String) (rest : List Symbol) :
    canonicalFrom goes (.opening :: .string word :: .comma :: rest) =
      .opening :: .string word.toUpper :: .comma :: canonicalFrom (false :: goes) rest := by
  rw [canonicalFrom]

theorem canonicalFrom_closing (goes : List Bool) (rest : List Symbol) :
    canonicalFrom (false :: goes) (.closing :: rest) = .closing :: canonicalFrom goes rest := by
  rw [canonicalFrom]
  rfl

theorem canonicalFrom_comma (goes : List Bool) (rest : List Symbol) :
    canonicalFrom goes (.comma :: rest) = .comma :: canonicalFrom goes rest := by
  rw [canonicalFrom]
  all_goals exact nofun

/-- The brackets around the symbols of a formula go. -/
theorem canonicalFrom_group {symbols : List Symbol} {e : Expr} (h : Derives symbols e)
    (goes : List Bool) (rest : List Symbol) :
    canonicalFrom goes (.opening :: (symbols ++ .closing :: rest)) =
      canonicalFrom (true :: goes) (symbols ++ .closing :: rest) := by
  rw [canonicalFrom, if_pos (hasOneElement_of_derives h rest)]
  -- The array does not start with a word and a comma.
  intro word rest' heq
  cases h <;> cases heq

/-- **The symbols of a formula become those that it is written with**, whatever arrays are open and
whatever follows. -/
theorem canonicalFrom_append {symbols : List Symbol} {e : Expr} (h : Derives symbols e)
    (goes : List Bool) (rest : List Symbol) :
    canonicalFrom goes (symbols ++ rest) = symbolsOf e ++ canonicalFrom goes rest := by
  induction h generalizing goes rest with
  | const value => rfl
  | var hw =>
    obtain rfl := Name.text_of_ofText? hw
    rfl
  | group h ih =>
    rw [List.cons_append, List.append_assoc, List.singleton_append, canonicalFrom_group h, ih]
    rfl
  | unary hw _ ih =>
    have hword := Operator.ofWord?_eq_some_iff.mp hw
    simp only [List.cons_append, List.append_assoc, List.nil_append, canonicalFrom_operator, hword,
      ih, canonicalFrom_closing, symbolsOf]
  | binary hw _ _ ihl ihr =>
    have hword := Operator.ofWord?_eq_some_iff.mp hw
    simp only [List.cons_append, List.append_assoc, List.nil_append, canonicalFrom_operator, hword,
      ihl, canonicalFrom_comma, ihr, canonicalFrom_closing, symbolsOf]

/-! ## Texts -/

theorem canonical_of_derives {symbols : List Symbol} {e : Expr} (h : Derives symbols e) :
    canonical symbols = symbolsOf e := by
  have happend := canonicalFrom_append h [] []
  rw [List.append_nil] at happend
  rw [canonical, happend]
  exact List.append_nil _

/-- **Reading a text and writing its formula takes it to its canonical symbols.** -/
theorem canonical_of_read {text : String} {e : Expr} (h : read text = .ok e) :
    canonical (scan text).symbols = (scan (write e)).symbols := by
  rw [canonical_of_derives (derives_of_read h).2, (scan_write e).1]

/-- Different formulas are written with different symbols. -/
theorem symbolsOf_inj {e f : Expr} (h : symbolsOf e = symbolsOf f) : e = f := by
  obtain ⟨hsymbols, hfault⟩ := scan_write e
  have hd : Derives (scan (write e)).symbols f := by
    rw [hsymbols, h]
    exact derives_symbolsOf f
  have hread := read_of_derives hfault hd
  rw [read_write] at hread
  exact Except.ok.inj hread

theorem eq_iff_canonical {text other : String} {e f : Expr} (h : read text = .ok e)
    (h' : read other = .ok f) :
    e = f ↔ canonical (scan text).symbols = canonical (scan other).symbols := by
  rw [canonical_of_derives (derives_of_read h).2, canonical_of_derives (derives_of_read h').2]
  constructor
  · intro heq
    rw [heq]
  · exact symbolsOf_inj

/-! ## Arrays of one element -/

/-- The second text is the first one in some arrays of one element, with any spaces. -/
inductive Wraps (inside : List Char) : (wrapped : List Char) → Prop
  | self : Wraps inside inside
  | array {opening wrapped closing : List Char} (ho : Mark '[' opening)
      (h : Wraps inside wrapped) (hc : Mark ']' closing) :
      Wraps inside (opening ++ (wrapped ++ closing))

/-- A text in arrays of one element is read as before. -/
theorem read_of_wraps {inside wrapped : String} {e : Expr}
    (h : Wraps inside.toList wrapped.toList) (hread : read inside = .ok e) :
    read wrapped = .ok e := by
  rw [read_eq_ok_iff_tiles] at hread ⊢
  generalize wrapped.toList = text at h
  induction h with
  | self => exact hread
  | array ho _ hc ih =>
    obtain ⟨symbols, htiles, hd⟩ := ih
    have ho' := (tiles_opening_iff _).mpr ho
    have hc' := (tiles_closing_iff _).mpr hc
    exact ⟨_, tiles_append ho' (tiles_append htiles hc'), .group hd⟩

/-- **Arrays of one element around a part of a text change nothing.** -/
theorem read_wrapped {before inside wrapped after : String} {f : Expr}
    (hbefore : (scan before).fault = none) (hinside : read inside = .ok f)
    (h : Wraps inside.toList wrapped.toList) (e : Expr) :
    read (before ++ wrapped ++ after) = .ok e ↔ read (before ++ inside ++ after) = .ok e := by
  have hwrapped := read_of_wraps h hinside
  exact ⟨read_replace hbefore hwrapped hinside, read_replace hbefore hinside hwrapped⟩

/-- **Reading and writing again makes a text canonical, and nothing else.** The written document has
the canonical symbols of the text; two texts are read as one formula iff their canonical symbols are
the same; and a part that encodes a formula may be put into any number of arrays of one element
without changing what is read or what is answered to a request. -/
theorem writes_canonically :
    (∀ (text : String) (e : Expr), read text = .ok e →
      (scan text).fault = none ∧ (scan (write e)).fault = none ∧
        canonical (scan text).symbols = (scan (write e)).symbols) ∧
    (∀ (text other : String) (e f : Expr), read text = .ok e → read other = .ok f →
      (e = f ↔ canonical (scan text).symbols = canonical (scan other).symbols)) ∧
    ∀ (before inside wrapped after : String) (f : Expr), (scan before).fault = none →
      read inside = .ok f → Wraps inside.toList wrapped.toList →
      (∀ e, read (before ++ wrapped ++ after) = .ok e ↔
        read (before ++ inside ++ after) = .ok e) ∧
      ∀ name, respond (some (before ++ wrapped ++ after)) name =
        respond (some (before ++ inside ++ after)) name := by
  refine ⟨fun text e h => ?_, fun _ _ _ _ h h' => eq_iff_canonical h h', ?_⟩
  · exact ⟨(derives_of_read h).1, (scan_write e).2, canonical_of_read h⟩
  · intro before inside wrapped after f hbefore hinside h
    have hread := @read_wrapped before inside wrapped after f hbefore hinside h
    exact ⟨hread, respond_congr hread⟩

/-- A negation with its word in small letters and its operand in an array of its own. -/
theorem wrapped_negation_is_canonical : ∃ p : Name,
    read ("[\"not\", " ++ "[ \"p\" ]" ++ "]") = .ok (.not (.var p)) ∧
      canonical (scan ("[\"not\", " ++ "[ \"p\" ]" ++ "]")).symbols =
        (scan (write (.not (.var p)))).symbols := by
  let p : Name := ⟨"p", by decide⟩
  have hbefore : (scan "[\"not\", ").fault = none := by cbv
  have hinside : read "\"p\"" = .ok (.var p) := by
    have hwrite : write (.var p) = "\"p\"" := by decide +kernel
    rw [← hwrite, read_write]
  have hnone : ∀ c ∈ [], Text.isSpace c = true := List.forall_mem_nil _
  have hspace : ∀ c ∈ [' '], Text.isSpace c = true := List.forall_mem_singleton.mpr rfl
  have hwraps : Wraps "\"p\"".toList "[ \"p\" ]".toList :=
    .array (@Mark.intro '[' [] [' '] hnone hspace) .self (@Mark.intro ']' [' '] [] hspace hnone)
  have hplain : read ("[\"not\", " ++ "\"p\"" ++ "]") = .ok (.not (.var p)) := by
    have hscan : (scan ("[\"not\", " ++ "\"p\"" ++ "]")).fault = none ∧
        (scan ("[\"not\", " ++ "\"p\"" ++ "]")).symbols =
          .opening :: .string "not" :: .comma :: ([.string "p"] ++ [.closing]) := by
      constructor <;> cbv
    refine read_eq_ok_iff.mpr ⟨hscan.1, ?_⟩
    rw [hscan.2]
    exact .unary (by decide) (.var (by decide))
  have hread := ((writes_canonically.2.2 _ _ _ _ _ hbefore hinside hwraps).1 _).mpr hplain
  exact ⟨p, hread, (writes_canonically.1 _ _ hread).2.2⟩

end Propositional.Document
