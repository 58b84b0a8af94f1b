import Propositional.Proofs.Document.Literal

/-!
# The spellings of a text

Inside a literal a character stands for itself, or it is escaped: by a letter, by its number in four
hexadecimal digits of either case, or by two such numbers where it lies past the sixteen-bit range.
`Spelling` is the relation between an inside and the text that it spells.

A reader meets the two numbers of a pair one after the other. `SpellsUnits` relates an inside to
what it spells before surrogates are joined; it stands between `Spelling` and the two passes of
`decode`.

Results:
* `pieces_of_units`, `units_of_pieces`: the first pass finds the units.
* `spelling_of_units`, `units_of_spelling`: a text is spelled iff the units join to it.
* `staysInside_of_spelling`, `decode_of_spelling`: a spelling does not close its literal, and it is
  decoded as the text that it spells.
* `spelling_of_decode`: what is cut out as the inside of a literal spells the text that it is
  decoded as.
* `spelling_encodeBody`: the written form of a text spells it.
-/

namespace Propositional.Document.Literal

open Propositional.Text

/-- The inside of a literal spells the text. -/
inductive Spelling : (body text : List Char) → Prop
  | nil : Spelling [] []
  /-- A character that stands for itself. -/
  | plain {c : Char} {body text : List Char} (hc : Plain c) (h : Spelling body text) :
      Spelling (c :: body) (c :: text)
  /-- A character with a short escape. -/
  | short {d c : Char} {body text : List Char} (hd : shortEscape? d = some c)
      (h : Spelling body text) : Spelling ('\\' :: d :: body) (c :: text)
  /-- A character by its number. -/
  | number {x₁ x₂ x₃ x₄ c : Char} {body text : List Char}
      (hx : Hex.value4? x₁ x₂ x₃ x₄ = some c.toNat) (h : Spelling body text) :
      Spelling ('\\' :: 'u' :: x₁ :: x₂ :: x₃ :: x₄ :: body) (c :: text)
  /-- A character by a high and a low surrogate. -/
  | pair {x₁ x₂ x₃ x₄ y₁ y₂ y₃ y₄ c : Char} {high low : Nat} {body text : List Char}
      (hx : Hex.value4? x₁ x₂ x₃ x₄ = some high) (hy : Hex.value4? y₁ y₂ y₃ y₄ = some low)
      (hhigh : 0xd800 ≤ high ∧ high < 0xdc00) (hlow : 0xdc00 ≤ low ∧ low < 0xe000)
      (hc : c.toNat = 0x10000 + (high - 0xd800) * 0x400 + (low - 0xdc00))
      (h : Spelling body text) :
      Spelling
        ('\\' :: 'u' :: x₁ :: x₂ :: x₃ :: x₄ :: '\\' :: 'u' :: y₁ :: y₂ :: y₃ :: y₄ :: body)
        (c :: text)

/-- The inside of a literal spells the units, each surrogate by itself. -/
inductive SpellsUnits : (body : List Char) → (units : List Piece) → Prop
  | nil : SpellsUnits [] []
  | plain {c : Char} {body : List Char} {units : List Piece} (hc : Plain c)
      (h : SpellsUnits body units) : SpellsUnits (c :: body) (.char c :: units)
  | short {d c : Char} {body : List Char} {units : List Piece} (hd : shortEscape? d = some c)
      (h : SpellsUnits body units) : SpellsUnits ('\\' :: d :: body) (.char c :: units)
  | number {x₁ x₂ x₃ x₄ : Char} {unit : Nat} {body : List Char} {units : List Piece}
      (hx : Hex.value4? x₁ x₂ x₃ x₄ = some unit) (h : SpellsUnits body units) :
      SpellsUnits ('\\' :: 'u' :: x₁ :: x₂ :: x₃ :: x₄ :: body) (Piece.ofUnit unit :: units)

/-! ## Characters of an escape -/

/-- The letter of a short escape can be escaped, and it announces no digits. -/
theorem ne_of_shortEscape {d c : Char} (h : shortEscape? d = some c) : d ≠ '\n' ∧ d ≠ 'u' := by
  constructor
  · rintro rfl
    cases h
  · rintro rfl
    cases h

theorem plain_of_value? {x : Char} {n : Nat} (h : Hex.value? x = some n) : Plain x := by
  refine ⟨?_, ?_, ?_⟩
  · refine Nat.le_of_not_lt fun hx => ?_
    have h0 : '0'.val.toNat = 0x30 := rfl
    have ha : 'a'.val.toNat = 0x61 := rfl
    have hA : 'A'.val.toNat = 0x41 := rfl
    unfold Hex.value? at h
    simp only [Char.le_def, UInt32.le_iff_toNat_le, Char.toNat] at h hx
    rw [if_neg (by omega), if_neg (by omega), if_neg (by omega)] at h
    cases h
  · rintro rfl
    cases h
  · rintro rfl
    cases h

theorem plain_of_value4? {x₁ x₂ x₃ x₄ : Char} {unit : Nat}
    (h : Hex.value4? x₁ x₂ x₃ x₄ = some unit) : ∀ x ∈ [x₁, x₂, x₃, x₄], Plain x := by
  unfold Hex.value4? at h
  split at h
  · next h₁ h₂ h₃ h₄ =>
    simp only [List.forall_mem_cons, List.not_mem_nil, false_implies, implies_true, and_true]
    exact ⟨plain_of_value? h₁, plain_of_value? h₂, plain_of_value? h₃, plain_of_value? h₄⟩
  · cases h

theorem staysInside_number {x₁ x₂ x₃ x₄ : Char} {unit : Nat}
    (h : Hex.value4? x₁ x₂ x₃ x₄ = some unit) : StaysInside ['\\', 'u', x₁, x₂, x₃, x₄] :=
  staysInside_append (staysInside_escape (c := 'u') (by decide))
    (staysInside_of_forall_plain (plain_of_value4? h))

/-! ## The first pass -/

theorem staysInside_of_units {body : List Char} {units : List Piece} (h : SpellsUnits body units) :
    StaysInside body := by
  induction h with
  | nil => exact staysInside_nil
  | plain hc _ ih => exact staysInside_append (staysInside_plain hc) ih
  | short hd _ ih => exact staysInside_append (staysInside_escape (ne_of_shortEscape hd).1) ih
  | number hx _ ih => exact staysInside_append (staysInside_number hx) ih

theorem pieces_of_units {body : List Char} {units : List Piece} (h : SpellsUnits body units)
    (offset : Nat) : pieces offset body = .ok units := by
  induction h generalizing offset with
  | nil => rfl
  | plain hc _ ih =>
    rw [pieces, ih]
    · rfl
    all_goals simp [hc.2.2]
  | short hd _ ih =>
    rw [pieces, hd]
    · simp only [ih]
      rfl
    all_goals simp [(ne_of_shortEscape hd).2]
  | number hx _ ih =>
    rw [pieces, hx]
    simp only [ih]
    rfl

/-- Where a piece stays inside, the rest of a literal ends where the literal ends. -/
theorem split_of_append {piece body after : List Char} (hpiece : StaysInside piece)
    (h : split (piece ++ body ++ '"' :: after) = some (piece ++ body, after)) :
    split (body ++ '"' :: after) = some (body, after) := by
  rw [List.append_assoc, hpiece] at h
  obtain ⟨⟨inside, rest⟩, hs, he⟩ := Option.map_eq_some_iff.mp h
  simp only [Prod.mk.injEq, List.append_cancel_left_eq] at he
  rw [hs, he.1, he.2]

/-- A character that starts the inside of a literal and no escape stands for itself. -/
theorem plain_of_split {c : Char} {body after : List Char} (hslash : c = '\\' → body = [])
    (h : split (c :: body ++ '"' :: after) = some (c :: body, after)) : Plain c := by
  by_cases hquote : c = '"'
  · subst hquote
    cases h
  by_cases hc : c = '\\'
  · -- A backslash at the end would escape the closing quote.
    subst hc
    rw [hslash rfl, List.cons_append, List.nil_append, split, if_neg (by decide)] at h
    obtain ⟨p, -, he⟩ := Option.map_eq_some_iff.mp h
    cases he
  rw [List.cons_append, split] at h
  · split at h
    · cases h
    · next hspace => exact ⟨Nat.le_of_not_lt hspace, hquote, hc⟩
  · exact hquote
  all_goals simp [hc]

theorem exists_ok_of_map {α β : Type} {a : Except Fault α} {f : α → β} {b : β}
    (h : a.map f = .ok b) : ∃ x, a = .ok x ∧ f x = b := by
  cases a with
  | error => cases h
  | ok x =>
    cases h
    exact ⟨x, rfl, rfl⟩

theorem units_of_pieces {body after : List Char} {offset : Nat} {units : List Piece}
    (hsplit : split (body ++ '"' :: after) = some (body, after))
    (h : pieces offset body = .ok units) : SpellsUnits body units := by
  fun_induction pieces offset body generalizing units with
  | case1 =>
    cases h
    exact .nil
  | case2 offset x₁ x₂ x₃ x₄ rest unit hx ih =>
    obtain ⟨units, hrest, rfl⟩ := exists_ok_of_map h
    exact .number hx (ih (split_of_append (staysInside_number hx) hsplit) hrest)
  | case3 | case4 | case6 => cases h
  | case5 offset d rest _ _ c hd ih =>
    obtain ⟨units, hrest, rfl⟩ := exists_ok_of_map h
    have hstays := staysInside_escape (ne_of_shortEscape hd).1
    exact .short hd (ih (split_of_append hstays hsplit) hrest)
  | case7 offset c rest _ _ hescape ih =>
    obtain ⟨units, hrest, rfl⟩ := exists_ok_of_map h
    have hslash : c = '\\' → rest = [] := by
      rintro rfl
      cases rest with
      | nil => rfl
      | cons d rest => exact (hescape d rest rfl rfl).elim
    have hc := plain_of_split hslash hsplit
    exact .plain hc (ih (split_of_append (staysInside_plain hc) hsplit) hrest)

/-! ## Joining surrogates -/

theorem ofUnit_toNat (c : Char) : Piece.ofUnit c.toNat = .char c := by
  have hvalid : c.toNat.isValidChar := c.valid
  unfold Piece.ofUnit
  rw [if_neg (by omega), Char.ofNat_toNat]

theorem ofUnit_surrogate {unit : Nat} (h : 0xd800 ≤ unit ∧ unit < 0xe000) :
    Piece.ofUnit unit = .surrogate unit := by
  rw [Piece.ofUnit, if_pos h]

theorem eq_of_ofUnit_surrogate {unit surrogate : Nat}
    (h : Piece.ofUnit unit = .surrogate surrogate) : unit = surrogate := by
  unfold Piece.ofUnit at h
  split at h <;> cases h
  rfl

theorem toNat_of_ofUnit {unit : Nat} {c : Char} (hlt : unit < 0x10000)
    (h : Piece.ofUnit unit = .char c) : c.toNat = unit := by
  unfold Piece.ofUnit at h
  split at h
  · cases h
  · next hrange =>
    cases h
    rw [Char.ofNat, dif_pos (by omega)]
    rfl

theorem toNat_pairChar {high low : Nat} (hhigh : isHigh high = true) (hlow : isLow low = true) :
    (pairChar high low).toNat = 0x10000 + (high - 0xd800) * 0x400 + (low - 0xdc00) := by
  simp only [isHigh, isLow, Bool.and_eq_true, decide_eq_true_eq] at hhigh hlow
  rw [pairChar, Char.ofNat, dif_pos (by omega)]
  rfl

theorem units_of_spelling {body text : List Char} (h : Spelling body text) :
    ∃ units, SpellsUnits body units ∧ joinPairs units = text.map Piece.char := by
  induction h with
  | nil => exact ⟨[], .nil, rfl⟩
  | plain hc _ ih =>
    obtain ⟨units, hunits, hjoin⟩ := ih
    exact ⟨_, .plain hc hunits, by simp only [joinPairs, hjoin, List.map_cons]⟩
  | short hd _ ih =>
    obtain ⟨units, hunits, hjoin⟩ := ih
    exact ⟨_, .short hd hunits, by simp only [joinPairs, hjoin, List.map_cons]⟩
  | number hx _ ih =>
    obtain ⟨units, hunits, hjoin⟩ := ih
    exact ⟨_, .number hx hunits, by simp only [ofUnit_toNat, joinPairs, hjoin, List.map_cons]⟩
  | @pair _ _ _ _ _ _ _ _ c high low _ _ hx hy hhigh hlow hc _ ih =>
    obtain ⟨units, hunits, hjoin⟩ := ih
    refine ⟨_, .number hx (.number hy hunits), ?_⟩
    have hpair : isHigh high = true ∧ isLow low = true := by
      simp only [isHigh, isLow, Bool.and_eq_true, decide_eq_true_eq]
      exact ⟨hhigh, hlow⟩
    have hchar : pairChar high low = c :=
      Char.toNat_inj.mp ((toNat_pairChar hpair.1 hpair.2).trans hc.symm)
    rw [ofUnit_surrogate ⟨hhigh.1, by omega⟩, ofUnit_surrogate ⟨by omega, hlow.2⟩, joinPairs,
      if_pos (by rw [hpair.1, hpair.2]; rfl), hchar, hjoin, List.map_cons]

theorem spelling_of_units {body text : List Char} {units : List Piece} (h : SpellsUnits body units)
    (hjoin : joinPairs units = text.map Piece.char) : Spelling body text := by
  fun_induction joinPairs units generalizing body text with
  | case1 high low rest hpair ih =>
    obtain ⟨c, text, rfl, hc, hrest⟩ := List.map_eq_cons_iff.mp hjoin.symm
    obtain ⟨hhigh, hlow⟩ := Bool.and_eq_true_iff.mp hpair
    -- Only escapes by numbers spell surrogates.
    generalize hu : Piece.surrogate high = unit at h
    cases h with
    | plain | short => cases hu
    | number hx h =>
      generalize hu' : Piece.surrogate low = unit' at h
      cases h with
      | plain | short => cases hu'
      | number hy h =>
        obtain rfl := eq_of_ofUnit_surrogate hu.symm
        obtain rfl := eq_of_ofUnit_surrogate hu'.symm
        have hnumber := toNat_pairChar hhigh hlow
        rw [← Piece.char.inj hc] at hnumber
        simp only [isHigh, isLow, Bool.and_eq_true, decide_eq_true_eq] at hhigh hlow
        exact .pair hx hy hhigh hlow hnumber (ih h hrest.symm)
  | case2 high low rest hpair ih =>
    obtain ⟨c, text, rfl, hc, -⟩ := List.map_eq_cons_iff.mp hjoin.symm
    cases hc
  | case3 p rest hp ih =>
    obtain ⟨c, text, rfl, rfl, hrest⟩ := List.map_eq_cons_iff.mp hjoin.symm
    generalize hu : Piece.char c = unit at h
    cases h with
    | plain hc h =>
      cases hu
      exact .plain hc (ih h hrest.symm)
    | short hd h =>
      cases hu
      exact .short hd (ih h hrest.symm)
    | number hx h =>
      have hc := toNat_of_ofUnit (Hex.value4?_lt hx) hu.symm
      exact .number (hc ▸ hx) (ih h hrest.symm)
  | case4 =>
    cases List.map_eq_nil_iff.mp hjoin.symm
    cases h
    exact .nil

/-! ## Both passes -/

theorem characters_map_char (position : Nat) (text : List Char) :
    characters position (text.map Piece.char) = .ok text := by
  induction text generalizing position with
  | nil => rfl
  | cons c text ih => simp only [List.map_cons, characters, ih, Except.map]

theorem eq_of_characters {units : List Piece} {position : Nat} {text : List Char}
    (h : characters position units = .ok text) : units = text.map Piece.char := by
  induction units generalizing position text with
  | nil =>
    cases h
    rfl
  | cons unit units ih =>
    cases unit with
    | char c =>
      rw [characters] at h
      obtain ⟨text, hrest, rfl⟩ := exists_ok_of_map h
      rw [List.map_cons, ih hrest]
    | surrogate unit => cases h

theorem staysInside_of_spelling {body text : List Char} (h : Spelling body text) :
    StaysInside body := by
  obtain ⟨units, hunits, -⟩ := units_of_spelling h
  exact staysInside_of_units hunits

/-- **A spelling is decoded as the text that it spells.** -/
theorem decode_of_spelling {body text : List Char} (h : Spelling body text) :
    decode body = .ok text := by
  obtain ⟨units, hunits, hjoin⟩ := units_of_spelling h
  simp only [decode, pieces_of_units hunits, hjoin, characters_map_char]

/-- **The inside of a literal spells the text that it is decoded as.** -/
theorem spelling_of_decode {body after text : List Char}
    (hsplit : split (body ++ '"' :: after) = some (body, after))
    (h : decode body = .ok text) : Spelling body text := by
  unfold decode at h
  split at h
  · next units hpieces =>
    exact spelling_of_units (units_of_pieces hsplit hpieces) (eq_of_characters h)
  · cases h

/-! ## Written forms -/

/-- The three ways in which a character is written: by a short escape, by four digits, as it is. -/
theorem encodeChar_cases (c : Char) :
    (∃ d, shortEscape? d = some c ∧ encodeChar c = ['\\', d]) ∨
      (c.toNat < 0x20 ∧ encodeChar c = ['\\', 'u'] ++ Hex.fixed 4 c.toNat) ∨
      (Plain c ∧ encodeChar c = [c]) := by
  unfold encodeChar
  -- The characters with a short escape, in the order of the definition.
  iterate 7
    split
    · next h =>
      subst h
      exact Or.inl ⟨_, by decide, rfl⟩
  split
  · next hcontrol => exact Or.inr (Or.inl ⟨hcontrol, rfl⟩)
  · next hquote hslash _ _ _ _ _ hspace =>
    exact Or.inr (Or.inr ⟨⟨Nat.le_of_not_lt hspace, hquote, hslash⟩, rfl⟩)

/-- **The written form of a text is one of its spellings.** -/
theorem spelling_encodeBody (text : List Char) : Spelling (encodeBody text) text := by
  induction text with
  | nil => exact .nil
  | cons c text ih =>
    have hbody : encodeBody (c :: text) = encodeChar c ++ encodeBody text := rfl
    rw [hbody]
    rcases encodeChar_cases c with ⟨d, hd, h⟩ | ⟨hcontrol, h⟩ | ⟨hplain, h⟩
    · rw [h]
      exact .short hd ih
    · obtain ⟨x₁, x₂, x₃, x₄, hdigits, hx⟩ := Hex.value4?_fixed (n := c.toNat) (by omega)
      rw [h, hdigits]
      exact .number hx ih
    · rw [h]
      exact .plain hplain ih

end Propositional.Document.Literal
