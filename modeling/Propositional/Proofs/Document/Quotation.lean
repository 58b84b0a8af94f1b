import Propositional.Proofs.Document.Stopping
import Propositional.Proofs.Document.Tiling

/-!
# String literals are decoded exactly

Two layers look at a literal. The first one only finds the closing quote: between the quotes stand
characters for themselves and pairs of a backslash and any other character (`Pattern`). The second
one reads what is inside, and refuses it where it spells nothing, for one of three reasons
(`Misspells`).

Results:
* `split_eq_some_iff`: the first layer cuts at the quote that ends the pattern.
* `shortEscape?_eq_some_iff`: the letters of short escapes, as a table.
* `misspells_of_decode`: a fault that is reported is there, at the place that is reported.
* `scan_quoted_iff`: a literal is one token, from quote to quote, with the text that it spells.
* `literals_decoded_exactly`: all of it, with the refusal of every other literal.
-/

namespace Propositional.Document

open Propositional.Text

namespace Literal

/-! ## The closing quote -/

/-- What may stand between the quotes, as far as the closing quote is concerned. -/
inductive Pattern : (body : List Char) → Prop
  | nil : Pattern []
  | plain {c : Char} {body : List Char} (hc : Plain c) (h : Pattern body) : Pattern (c :: body)
  /-- A backslash and whatever it escapes. -/
  | escape {c : Char} {body : List Char} (hc : c ≠ '\n') (h : Pattern body) :
      Pattern ('\\' :: c :: body)

theorem staysInside_of_pattern {body : List Char} (h : Pattern body) : StaysInside body := by
  induction h with
  | nil => exact staysInside_nil
  | plain hc _ ih => exact staysInside_append (staysInside_plain hc) ih
  | escape hc _ ih => exact staysInside_append (staysInside_escape hc) ih

theorem pattern_of_split {text body after : List Char} (h : split text = some (body, after)) :
    Pattern body := by
  fun_induction split text generalizing body after with
  | case1 | case3 | case4 | case6 => cases h
  | case2 rest =>
    cases h
    exact .nil
  | case5 c rest hc ih =>
    obtain ⟨⟨b, r⟩, hs, he⟩ := Option.map_eq_some_iff.mp h
    cases he
    exact .escape hc (ih hs)
  | case7 c rest hquote hlast hslash hspace ih =>
    obtain ⟨⟨b, r⟩, hs, he⟩ := Option.map_eq_some_iff.mp h
    cases he
    have hne : c ≠ '\\' := by
      rintro rfl
      cases rest with
      | nil => exact hlast rfl rfl
      | cons d rest => exact hslash d rest rfl rfl
    exact .plain ⟨Nat.le_of_not_lt hspace, hquote, hne⟩ (ih hs)

/-- **A literal is cut at the quote that ends the pattern**, and at no other one. -/
theorem split_eq_some_iff {text body after : List Char} :
    split text = some (body, after) ↔ Pattern body ∧ text = body ++ '"' :: after := by
  constructor
  · exact fun h => ⟨pattern_of_split h, split_eq_some h⟩
  · rintro ⟨h, rfl⟩
    exact split_of_staysInside (staysInside_of_pattern h) after

/-! ## Short escapes -/

/-- The letters of short escapes, each with its character. -/
def shortEscapes : List (Char × Char) :=
  [('"', '"'), ('\\', '\\'), ('/', '/'), ('b', '\x08'), ('f', '\x0c'), ('n', '\n'), ('r', '\r'),
    ('t', '\t')]

theorem shortEscape?_eq_some_iff {d c : Char} :
    shortEscape? d = some c ↔ (d, c) ∈ shortEscapes := by
  constructor
  · intro h
    unfold shortEscape? at h
    split at h
    · next hd =>
      cases h
      rcases hd with rfl | rfl | rfl <;> decide
    all_goals
      repeat
        split at h
        · next hd =>
          cases h
          subst hd
          decide
      cases h
  · have all : ∀ p ∈ shortEscapes, shortEscape? p.1 = some p.2 := by decide
    exact all (d, c)

/-! ## Reasons for a refusal -/

/-- The first escape of the inside that cannot be read. The fault carries its place, counted from
the given offset on. -/
inductive BadEscape (offset : Nat) : (body : List Char) → Fault → Prop
  /-- A backslash before a character that has no escape. -/
  | unknown {before after : List Char} {units : List Piece} {d : Char}
      (hbefore : SpellsUnits before units) (hd : shortEscape? d = none) (hu : d ≠ 'u') :
      BadEscape offset (before ++ '\\' :: d :: after) (.unknownEscape (offset + before.length))
  /-- Fewer than four hexadecimal digits. -/
  | broken {before after : List Char} {units : List Piece} (hbefore : SpellsUnits before units)
      (hdigits : ∀ x₁ x₂ x₃ x₄ rest, after = x₁ :: x₂ :: x₃ :: x₄ :: rest →
        Hex.value4? x₁ x₂ x₃ x₄ = none) :
      BadEscape offset (before ++ '\\' :: 'u' :: after) (.brokenUnit (offset + before.length + 1))

/-- Why the inside of a literal spells no text. -/
inductive Misspells : (body : List Char) → Fault → Prop
  | escape {body : List Char} {fault : Fault} (h : BadEscape 1 body fault) : Misspells body fault
  /-- After some characters a surrogate is left when all pairs have been joined. -/
  | unpaired {body text : List Char} {units rest : List Piece} {unit : Nat}
      (hbody : SpellsUnits body units)
      (hjoin : joinPairs units = text.map Piece.char ++ .surrogate unit :: rest) :
      Misspells body (.unpaired unit text.length (text.length + runLength rest))

theorem SpellsUnits.append {a b : List Char} {as bs : List Piece} (ha : SpellsUnits a as)
    (hb : SpellsUnits b bs) : SpellsUnits (a ++ b) (as ++ bs) := by
  induction ha with
  | nil => exact hb
  | plain hc _ ih => exact .plain hc ih
  | short hd _ ih => exact .short hd ih
  | number hx _ ih => exact .number hx ih

/-- What is read before a bad escape only moves it. -/
theorem BadEscape.append {piece body : List Char} {units : List Piece} {offset : Nat}
    {fault : Fault} (hpiece : SpellsUnits piece units)
    (h : BadEscape (offset + piece.length) body fault) :
    BadEscape offset (piece ++ body) fault := by
  cases h with
  | @unknown before _ _ _ hbefore hd hu =>
    rw [Nat.add_assoc, ← List.length_append, ← List.append_assoc]
    exact .unknown (hpiece.append hbefore) hd hu
  | @broken before _ _ hbefore hdigits =>
    rw [Nat.add_assoc offset, ← List.length_append, ← List.append_assoc]
    exact .broken (hpiece.append hbefore) hdigits

theorem eq_error_of_map {α β : Type} {a : Except Fault α} {f : α → β} {fault : Fault}
    (h : a.map f = .error fault) : a = .error fault := by
  cases a with
  | error =>
    cases h
    rfl
  | ok => cases h

/-- **The first pass stops at a bad escape.** -/
theorem badEscape_of_pieces {body after : List Char} {offset : Nat} {fault : Fault}
    (hsplit : split (body ++ '"' :: after) = some (body, after))
    (h : pieces offset body = .error fault) : BadEscape offset body fault := by
  fun_induction pieces offset body with
  | case1 => cases h
  | case2 offset x₁ x₂ x₃ x₄ rest unit hx ih =>
    have hrest := ih (split_of_append (staysInside_number hx) hsplit) (eq_error_of_map h)
    exact .append (.number hx .nil) hrest
  | case3 offset x₁ x₂ x₃ x₄ rest hx =>
    cases h
    refine @BadEscape.broken offset [] _ [] .nil fun y₁ y₂ y₃ y₄ rest' heq => ?_
    cases heq
    exact hx
  | case4 offset rest hrest =>
    cases h
    refine @BadEscape.broken offset [] _ [] .nil fun y₁ y₂ y₃ y₄ rest' heq => ?_
    exact (hrest y₁ y₂ y₃ y₄ rest' heq).elim
  | case5 offset d rest _ _ c hd ih =>
    have hstays := staysInside_escape (ne_of_shortEscape hd).1
    have hrest := ih (split_of_append hstays hsplit) (eq_error_of_map h)
    exact .append (.short hd .nil) hrest
  | case6 offset d rest _ hu hd =>
    cases h
    exact @BadEscape.unknown offset [] rest [] d .nil hd hu
  | case7 offset c rest _ _ hescape ih =>
    have hslash : c = '\\' → rest = [] := by
      rintro rfl
      cases rest with
      | nil => rfl
      | cons d rest => exact (hescape d rest rfl rfl).elim
    have hc := plain_of_split hslash hsplit
    have hrest := ih (split_of_append (staysInside_plain hc) hsplit) (eq_error_of_map h)
    exact .append (.plain hc .nil) hrest

/-- The second pass stops at the first surrogate that is left. -/
theorem exists_surrogate_of_characters {units : List Piece} {position : Nat} {fault : Fault}
    (h : characters position units = .error fault) :
    ∃ (text : List Char) (unit : Nat) (rest : List Piece),
      units = text.map Piece.char ++ .surrogate unit :: rest ∧
      fault =
        .unpaired unit (position + text.length) (position + text.length + runLength rest) := by
  induction units generalizing position with
  | nil => cases h
  | cons piece units ih =>
    cases piece with
    | char c =>
      obtain ⟨text, unit, rest, rfl, rfl⟩ := ih (eq_error_of_map h)
      refine ⟨c :: text, unit, rest, rfl, ?_⟩
      rw [List.length_cons, Nat.add_assoc position 1, Nat.add_comm 1]
    | surrogate unit =>
      cases h
      exact ⟨[], unit, units, rfl, rfl⟩

/-- **A fault that is reported is there**, at the place that is reported. -/
theorem misspells_of_decode {body after : List Char} {fault : Fault}
    (hsplit : split (body ++ '"' :: after) = some (body, after))
    (h : decode body = .error fault) : Misspells body fault := by
  unfold decode at h
  split at h
  · next units hpieces =>
    obtain ⟨text, unit, rest, hjoin, rfl⟩ := exists_surrogate_of_characters h
    rw [Nat.zero_add]
    exact .unpaired (units_of_pieces hsplit hpieces) hjoin
  · next fault' hpieces =>
    cases h
    exact .escape (badEscape_of_pieces hsplit hpieces)

end Literal

/-! ## A literal as a text -/

open Literal

/-- The literal with the given inside. -/
def quoted (body : List Char) : String :=
  String.ofList ('"' :: (body ++ ['"']))

theorem scan_quoted (body : List Char) :
    scan (quoted body) = scanFrom 0 ('"' :: (body ++ ['"'])) := by
  rw [scan, quoted, String.toList_ofList]

/-- **A literal is one token, from quote to quote**, with a text iff its inside spells this text. -/
theorem scan_quoted_iff {body : List Char} {value : String} :
    scan (quoted body) = ⟨[⟨.string value, 0, body.length + 2⟩], none⟩ ↔
      Spelling body value.toList := by
  have hspace : isSpace '"' = false := rfl
  rw [scan_quoted]
  constructor
  · intro h
    cases hread : lexeme '"' (body ++ ['"']) with
    | error cause =>
      rw [scanFrom_fault hspace hread] at h
      cases h
    | ok result =>
      obtain ⟨symbol, spelling, after⟩ := result
      rw [scanFrom_lexeme hspace hread] at h
      have htokens := congrArg Scan.tokens h
      simp only [List.cons.injEq, Token.mk.injEq, true_and, Nat.zero_add] at htokens
      obtain ⟨⟨rfl, hlength⟩, -⟩ := htokens
      -- The token is as long as the text, so it is the whole text.
      obtain ⟨hcut, -⟩ := lexeme_split hread
      have hafter : after = [] := by
        have := congrArg List.length hcut
        simp only [List.length_cons, List.length_append, List.length_nil] at this
        exact List.eq_nil_of_length_eq_zero (by omega)
      rw [hafter, List.append_nil] at hcut
      have hspelled := spelled_of_lexeme hread
      rw [← hcut] at hspelled
      generalize htext : '"' :: (body ++ ['"']) = text at hspelled
      cases hspelled with
      | value hstring => exact absurd rfl (hstring value)
      | literal hs =>
        rwa [List.append_cancel_right (List.cons.inj htext).2]
  · intro h
    have hsplit := split_of_staysInside (staysInside_of_spelling h) []
    have hread : lexeme '"' (body ++ ['"']) = .ok (.string value, '"' :: body ++ ['"'], []) := by
      simp only [lexeme, hsplit, decode_of_spelling h, String.ofList_toList]
    rw [scanFrom_lexeme hspace hread, scanFrom_nil]
    simp

/-- What the pattern of literals matches and no text is spelled by is refused as a literal. -/
theorem exists_fault_of_pattern {body : List Char} (hpattern : Pattern body)
    (h : ∀ value : String, ¬ Spelling body value.toList) :
    ∃ fault, scan (quoted body) = ⟨[], some ⟨0, .literal fault⟩⟩ ∧ Misspells body fault := by
  have hsplit := split_of_staysInside (staysInside_of_pattern hpattern) []
  cases hdecode : decode body with
  | ok text =>
    have hs := spelling_of_decode hsplit hdecode
    rw [← String.toList_ofList (l := text)] at hs
    exact (h _ hs).elim
  | error fault =>
    have hread : lexeme '"' (body ++ ['"']) = .error (.literal fault) := by
      simp only [lexeme, hsplit, hdecode]
    refine ⟨fault, ?_, misspells_of_decode hsplit hdecode⟩
    rw [scan_quoted, scanFrom_fault rfl hread]

/-- **String literals are decoded exactly.** A literal is read as one token, from quote to quote,
with the text that it spells and no other; whatever else the pattern of literals matches is refused,
by scanning and by reading, and the fault that is reported is there. The two tables are those of the
short escapes and of the hexadecimal digits of either case. -/
theorem literals_decoded_exactly :
    (∀ (body : List Char) (value : String),
      scan (quoted body) = ⟨[⟨.string value, 0, body.length + 2⟩], none⟩ ↔
        Spelling body value.toList) ∧
    (∀ body : List Char, Pattern body → (∀ value : String, ¬ Spelling body value.toList) →
      ∃ fault, scan (quoted body) = ⟨[], some ⟨0, .literal fault⟩⟩ ∧
        read (quoted body) = .error (.lexical ⟨0, .literal fault⟩) ∧ Misspells body fault) ∧
    (∀ d c, shortEscape? d = some c ↔ (d, c) ∈ shortEscapes) ∧
    ∀ x n, Hex.value? x = some n ↔
      "0123456789abcdef".toList[n]? = some x ∨ "0123456789ABCDEF".toList[n]? = some x := by
  refine ⟨fun body value => scan_quoted_iff, fun body hpattern h => ?_,
    fun d c => shortEscape?_eq_some_iff, fun x n => Hex.value?_eq_some_iff⟩
  obtain ⟨fault, hscan, hfault⟩ := exists_fault_of_pattern hpattern h
  have hblank : (quoted body).toList.all isBlank = false := by
    rw [quoted, String.toList_ofList, List.all_cons]
    rfl
  refine ⟨fault, hscan, ?_, hfault⟩
  rw [read_of_not_blank hblank, hscan, readFrom]

/-- Two escapes join to one character, also after another escape. Of two high surrogates in a row
the first one is left alone. -/
theorem first_of_two_high_surrogates_refused :
    scan (quoted "\\u00E9\\ud83d\\ude00".toList) = ⟨[⟨.string "é😀", 0, 20⟩], none⟩ ∧
    ∃ fault, scan (quoted "\\ud83d\\ud83d\\ude00".toList) = ⟨[], some ⟨0, .literal fault⟩⟩ ∧
      read (quoted "\\ud83d\\ud83d\\ude00".toList) = .error (.lexical ⟨0, .literal fault⟩) ∧
      Misspells "\\ud83d\\ud83d\\ude00".toList fault := by
  have hspelling : Spelling "\\u00E9\\ud83d\\ude00".toList "é😀".toList :=
    .number rfl (.pair rfl rfl (by decide) (by decide) rfl .nil)
  have hpattern : Pattern "\\ud83d\\ud83d\\ude00".toList :=
    @pattern_of_split ("\\ud83d\\ud83d\\ude00".toList ++ ['"']) _ [] (by decide)
  have hdecode : decode "\\ud83d\\ud83d\\ude00".toList = .error (.unpaired 0xd83d 0 0) := rfl
  refine ⟨(literals_decoded_exactly.1 _ _).mpr hspelling,
    literals_decoded_exactly.2.1 _ hpattern fun value hs => ?_⟩
  rw [decode_of_spelling hs] at hdecode
  cases hdecode

end Propositional.Document
