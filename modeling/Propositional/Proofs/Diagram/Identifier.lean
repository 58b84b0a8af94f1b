import Propositional.Proofs.Diagram.Dot

/-!
# Identifiers that are read back

A text is plain for a writer if it is read back from what the writer makes of it. For `quoteId` it
is not always so. Markup is left as it is, and so is a name or number with a line feed after it,
which the reader takes for a blank; and a backslash before a quote, or at the end, is read together
with a quote of the writer's.

Results:
* `readQuoted_escapeQuotes_iff`: what is read between quotes.
* `next_quoteId_iff`: an identifier is read as the text that it was written for iff this text is
  `Plain`.
* `reads_pieces_iff`: a text made of pieces is read piece by piece, whatever follows.
-/

namespace Propositional.Diagram

open Propositional.Text

/-! ## Between quotes -/

/-- No backslash takes a quote or the end along, where each takes the character after it along. -/
def unbroken : List Char → Bool
  | [] => true
  | ['\\'] => false
  | '\\' :: c :: rest => c != '"' && unbroken rest
  | _ :: rest => unbroken rest

theorem escapeQuotes_cons {c : Char} (hquote : c ≠ '"') (hslash : c ≠ '\\') (odd : Bool)
    (rest : List Char) : escapeQuotes odd (c :: rest) = c :: escapeQuotes false rest := by
  rw [escapeQuotes]
  · exact hquote
  · exact hslash

/-- A backslash and what it takes along, unless this is a quote. -/
theorem escapeQuotes_pair {c : Char} (hquote : c ≠ '"') (rest : List Char) :
    escapeQuotes false ('\\' :: c :: rest) = '\\' :: c :: escapeQuotes false rest := by
  by_cases hslash : c = '\\'
  · subst hslash
    rfl
  · rw [escapeQuotes, escapeQuotes_cons hquote hslash]

theorem map_cons_eq_some_iff {o : Option (List Char × List Char)} {c d : Char}
    {text rest : List Char} :
    o.map (fun p => (c :: p.1, p.2)) = some (d :: text, rest) ↔ c = d ∧ o = some (text, rest) := by
  rw [Option.map_eq_some_iff]
  constructor
  · rintro ⟨⟨t, r⟩, rfl, heq⟩
    cases heq
    exact ⟨rfl, rfl⟩
  · rintro ⟨rfl, rfl⟩
    exact ⟨_, rfl, rfl⟩

/-- **What is written between quotes is read back iff it is unbroken.** -/
theorem readQuoted_escapeQuotes_iff {text rest after : List Char} :
    readQuoted (escapeQuotes false text ++ '"' :: rest) = some (text, after) ↔
      unbroken text = true ∧ after = rest := by
  fun_induction unbroken text with
  | case1 =>
    show some ([], rest) = some ([], after) ↔ true = true ∧ after = rest
    simp [eq_comm]
  | case2 =>
    -- The backslash takes the closing quote along.
    show (readQuoted rest).map (fun p => ('"' :: p.1, p.2)) = some (['\\'], after) ↔ _
    rw [map_cons_eq_some_iff]
    simp
  | case3 c text ih =>
    by_cases hquote : c = '"'
    · subst hquote
      show (readQuoted (escapeQuotes false text ++ '"' :: rest)).map (fun p => ('"' :: p.1, p.2)) =
        some ('\\' :: '"' :: text, after) ↔ _
      rw [map_cons_eq_some_iff]
      simp
    · rw [escapeQuotes_pair hquote, List.cons_append, List.cons_append, readQuoted_pair hquote]
      have hpair : ((readQuoted (escapeQuotes false text ++ '"' :: rest)).map
            fun p => ('\\' :: c :: p.1, p.2)) = some ('\\' :: c :: text, after) ↔
          readQuoted (escapeQuotes false text ++ '"' :: rest) = some (text, after) := by
        cases readQuoted (escapeQuotes false text ++ '"' :: rest) <;> simp [Prod.ext_iff]
      rw [hpair, ih, bne_iff_ne.mpr hquote, Bool.true_and]
  | case4 c text hlast hpair ih =>
    have hslash : c ≠ '\\' := by
      rintro rfl
      cases text with
      | nil => exact hlast rfl rfl
      | cons d text => exact hpair d text rfl rfl
    by_cases hquote : c = '"'
    · subst hquote
      show (readQuoted (escapeQuotes false text ++ '"' :: rest)).map (fun p => ('"' :: p.1, p.2)) =
        some ('"' :: text, after) ↔ _
      rw [map_cons_eq_some_iff, ih]
      simp
    · rw [escapeQuotes_cons hquote hslash, List.cons_append, readQuoted_cons hquote hslash,
        map_cons_eq_some_iff, ih]
      simp

theorem unbroken_of_not_mem {text : List Char} (h : '\\' ∉ text) : unbroken text = true := by
  fun_induction unbroken text with
  | case1 => rfl
  | case2 => exact absurd List.mem_cons_self h
  | case3 => exact absurd List.mem_cons_self h
  | case4 c text _ _ ih => exact ih (List.not_mem_of_not_mem_cons h)

/-! ## Left bare -/

theorem cases_withoutFinalFeed (text : List Char) :
    (withoutFinalFeed text = text ∧ text.getLast? ≠ some '\n') ∨
      (text = withoutFinalFeed text ++ ['\n'] ∧ text.getLast? = some '\n') := by
  unfold withoutFinalFeed
  split
  · next h => exact .inr ⟨(List.dropLast_append_getLast? _ h).symm, h⟩
  · next h => exact .inl ⟨rfl, h⟩

theorem exists_of_isMarkup {text : List Char} (h : isMarkup text = true) :
    ∃ rest, text = '<' :: rest := by
  unfold isMarkup at h
  split at h
  · next rest hwithout =>
    rcases cases_withoutFinalFeed text with ⟨heq, -⟩ | ⟨heq, -⟩
    · exact ⟨rest, heq.symm.trans hwithout⟩
    · exact ⟨rest ++ ['\n'], by rw [heq, hwithout, List.cons_append]⟩
  · cases h

theorem unsigned_of_isUnsigned {text : List Char} (h : isUnsigned text = true) :
    Unsigned text := by
  unfold isUnsigned at h
  split at h
  · next fraction =>
    simp only [Bool.and_eq_true, Bool.not_eq_true', List.isEmpty_eq_false_iff, List.all_eq_true]
      at h
    exact .fraction h.1 h.2
  · simp only [Bool.and_eq_true, Bool.not_eq_true', List.isEmpty_eq_false_iff] at h
    obtain ⟨hne, hrest⟩ := h
    have hwhole : ∀ c ∈ text.takeWhile Char.isDigit, c.isDigit = true := fun _ hc =>
      List.mem_takeWhile_imp hc
    have hcut := List.takeWhile_append_dropWhile (p := Char.isDigit) (l := text)
    split at hrest
    · next hdrop =>
      rw [hdrop, List.append_nil] at hcut
      rw [← hcut]
      exact .whole hne hwhole
    · next fraction hdrop =>
      rw [hdrop] at hcut
      rw [← hcut]
      exact .both hne hwhole (List.all_eq_true.mp hrest)
    · cases hrest

theorem bareWord_of_isBare {text : List Char} (h : isBare text = true) :
    BareWord (withoutFinalFeed text) := by
  unfold isBare at h
  split at h
  · cases h
  · next rest hw =>
    rw [hw]
    exact .negative (unsigned_of_isUnsigned h)
  · next c rest _ hw =>
    rw [hw]
    rcases Bool.or_eq_true_iff.mp h with h | h
    · obtain ⟨hc, hrest⟩ := Bool.and_eq_true_iff.mp h
      exact .name hc (List.all_eq_true.mp hrest)
    · exact .number (unsigned_of_isUnsigned h)

/-- A word of the language has no line feed after it. -/
theorem getLast?_ne_of_isReserved {text : List Char} (h : isReserved text = true) :
    text.getLast? ≠ some '\n' := by
  have hwords : ∀ word ∈ reservedWords, word.toList.getLast? ≠ some '\n' := by decide
  obtain ⟨word, hword, heq⟩ := List.any_eq_true.mp h
  intro hlast
  refine hwords word hword ?_
  rw [of_decide_eq_true heq, List.getLast?_map, hlast]
  rfl

theorem bareLexeme_eq_id_iff {text : List Char} {t : String} :
    bareLexeme text = .id t ↔ isReserved text = false ∧ text = t.toList := by
  have hkeywords : (keywords.any fun word => word.toList = text.map Char.toLower) =
      isReserved text := rfl
  have htext : String.ofList text = t ↔ text = t.toList := by
    rw [← String.toList_inj, String.toList_ofList]
  rw [bareLexeme, hkeywords]
  cases isReserved text <;> simp [htext]

theorem quoteId_of_isBare {text : String} (hbare : isBare text.toList = true)
    (hword : isReserved text.toList = false) : quoteId text = text := by
  rw [quoteId, hbare, hword]
  exact ite_self text

/-! ## Identifiers as they are written -/

/-- The text is written so that it is read back. -/
structure Plain (text : String) : Prop where
  notMarkup : isMarkup text.toList = false
  /-- It is not a name or number with a line feed after it. -/
  notCut : isBare text.toList = true → text.toList.getLast? ≠ some '\n'
  unbroken : unbroken text.toList = true

theorem plain_of_isBare {text : String} (hbare : isBare text.toList = true)
    (hlast : text.toList.getLast? ≠ some '\n') : Plain text := by
  have hword := bareWord_of_isBare hbare
  rcases cases_withoutFinalFeed text.toList with ⟨heq, -⟩ | ⟨-, hfeed⟩
  · rw [heq] at hword
    obtain ⟨c, rest, hcons, hc, -⟩ := exists_of_bareWord hword
    refine ⟨Bool.eq_false_iff.mpr fun h => ?_, fun _ => hlast,
      unbroken_of_not_mem (not_mem_of_bareWord hword)⟩
    obtain ⟨inner, hangle⟩ := exists_of_isMarkup h
    obtain ⟨rfl, -⟩ := List.cons.inj (hcons.symm.trans hangle)
    exact hc (by decide)
  · exact absurd hfeed hlast

/-- A bare text is written as it is. It is read back unless it has a line feed after it. -/
theorem next_bare_iff {text : String} (hbare : isBare text.toList = true)
    (hword : isReserved text.toList = false) {d : Char} (hd : d ∈ delimiters)
    {rest after : List Char} :
    next (text.toList ++ d :: rest) = some (.id text, after) ↔
      text.toList.getLast? ≠ some '\n' ∧ after = d :: rest := by
  have hbareWord := bareWord_of_isBare hbare
  rcases cases_withoutFinalFeed text.toList with ⟨heq, hlast⟩ | ⟨heq, hlast⟩
  · rw [heq] at hbareWord
    rw [next_bareWord hbareWord hd, bareLexeme_eq_id_iff.mpr ⟨hword, rfl⟩]
    simp [hlast, eq_comm]
  · have hnext := next_bareWord hbareWord (d := '\n') (by decide) (d :: rest)
    rw [List.append_cons, ← heq] at hnext
    rw [hnext]
    refine iff_of_false (fun h => ?_) fun h => h.1 hlast
    have hid := (bareLexeme_eq_id_iff.mp (Prod.ext_iff.mp (Option.some.inj h)).1).2
    have hlength := congrArg List.length heq
    rw [hid, List.length_append, List.length_singleton] at hlength
    omega

/-- **An identifier is read as the text that it was written for iff this text is plain.** -/
theorem next_quoteId_iff {text : String} {d : Char} (hd : d ∈ delimiters) {rest after : List Char} :
    next ((quoteId text).toList ++ d :: rest) = some (.id text, after) ↔
      Plain text ∧ after = d :: rest := by
  by_cases hmarkup : isMarkup text.toList = true
  · rw [quoteId, if_pos hmarkup]
    obtain ⟨inner, heq⟩ := exists_of_isMarkup hmarkup
    refine iff_of_false (fun h => ?_) fun h => absurd hmarkup (by rw [h.1.notMarkup]; decide)
    rw [heq, List.cons_append, next, if_neg (by decide), if_pos rfl] at h
    obtain ⟨_, _, h⟩ := Option.map_eq_some_iff.mp h
    cases h
  rw [Bool.not_eq_true] at hmarkup
  by_cases hbare : isBare text.toList = true ∧ isReserved text.toList = false
  · rw [quoteId_of_isBare hbare.1 hbare.2, next_bare_iff hbare.1 hbare.2 hd]
    exact and_congr_left fun _ => ⟨plain_of_isBare hbare.1, fun h => h.notCut hbare.1⟩
  · have hquoted : (quoteId text).toList ++ d :: rest =
        '"' :: (escapeQuotes false text.toList ++ '"' :: d :: rest) := by
      have hnot : (isBare text.toList && !isReserved text.toList) = false := by
        simpa using hbare
      rw [quoteId, hmarkup, hnot, if_neg Bool.false_ne_true, if_neg Bool.false_ne_true]
      simp
    have hplain : Plain text ↔ unbroken text.toList = true := by
      refine ⟨fun h => h.unbroken, fun h => ⟨hmarkup, fun hb => ?_, h⟩⟩
      -- A bare text is between quotes only if it is a word of the language.
      exact getLast?_ne_of_isReserved (by simpa [hb] using hbare)
    rw [hquoted, next, if_pos rfl, hplain, ← readQuoted_escapeQuotes_iff, Option.map_eq_some_iff]
    constructor
    · rintro ⟨⟨word, _⟩, hread, heq⟩
      cases heq
      rw [hread, String.toList_ofList]
    · exact fun hread => ⟨_, hread, by rw [String.ofList_toList]⟩

/-- An identifier starts with no blank, and with no comment. -/
theorem head_quoteId {text : String} :
    ∃ c rest, (quoteId text).toList = c :: rest ∧ isSpace c = false ∧ c ≠ '/' := by
  cases hmarkup : isMarkup text.toList with
  | true =>
    obtain ⟨rest, heq⟩ := exists_of_isMarkup hmarkup
    rw [quoteId, if_pos hmarkup]
    exact ⟨'<', rest, heq, rfl, by decide⟩
  | false =>
    rw [quoteId, hmarkup, if_neg Bool.false_ne_true]
    split
    · next h =>
      have hbare := bareWord_of_isBare (Bool.and_eq_true_iff.mp h).1
      obtain ⟨c, rest, hword, hc, -⟩ := exists_of_bareWord hbare
      have hspace : isSpace c = false := Bool.eq_false_iff.mpr fun h => hc (by
        simp only [openers, List.mem_cons]
        exact .inr (.inr (.inr (mem_delimiters_of_isSpace h))))
      have hslash : c ≠ '/' := by
        rintro rfl
        exact hc (by decide)
      rcases cases_withoutFinalFeed text.toList with ⟨heq, -⟩ | ⟨heq, -⟩
      · exact ⟨c, rest, heq.symm.trans hword, hspace, hslash⟩
      · exact ⟨c, rest ++ ['\n'], by rw [heq, hword, List.cons_append], hspace, hslash⟩
    · exact ⟨'"', _, String.toList_ofList, rfl, by decide⟩

theorem reads_quoteId_iff {text : String} {d : Char} (hd : d ∈ delimiters) {rest : List Char}
    {ls : List Lexeme} :
    Reads ((quoteId text).toList ++ d :: rest) (.id text :: ls) ↔
      Plain text ∧ Reads (d :: rest) ls := by
  rw [reads_cons_iff]
  · simp only [next_quoteId_iff hd, and_assoc, exists_and_left, exists_eq_left]
  · obtain ⟨c, tail, heq, hc⟩ := @head_quoteId text
    rw [heq, List.cons_append]
    rintro _ ⟨⟩
    exact hc

/-! ## Texts made of pieces -/

/-- A part of a text that is read by itself. -/
inductive Piece where
  /-- A blank or a sign. -/
  | stop (c : Char) (h : c ∈ delimiters := by decide)
  /-- An identifier, and the blank or sign after it. -/
  | id (text : String) (c : Char) (h : c ∈ delimiters := by decide)
  | arrow

namespace Piece

/-- A piece as it is written. -/
def text : Piece → List Char
  | stop c _ => [c]
  | id text c _ => (quoteId text).toList ++ [c]
  | arrow => ['-', '>']

/-- A piece as it is to be read. -/
def lexemes : Piece → List Lexeme
  | stop c _ => stopLexemes c
  | id text c _ => .id text :: stopLexemes c
  | arrow => [.arrow]

/-- The text of the identifier in a piece is plain, if there is one. -/
def IsPlain : Piece → Prop
  | id text _ _ => Plain text
  | _ => True

end Piece

/-- **A text made of pieces is read piece by piece iff all identifiers are plain**, whatever
follows. -/
theorem reads_pieces_iff {ps : List Piece} {rest : List Char} {ls : List Lexeme} :
    Reads (ps.flatMap Piece.text ++ rest) (ps.flatMap Piece.lexemes ++ ls) ↔
      (∀ p ∈ ps, p.IsPlain) ∧ Reads rest ls := by
  induction ps with
  | nil => simp
  | cons p ps ih =>
    rw [List.forall_mem_cons, and_assoc, ← ih, List.flatMap_cons, List.flatMap_cons,
      List.append_assoc, List.append_assoc]
    cases p with
    | stop c hc => simp [Piece.text, Piece.lexemes, Piece.IsPlain, reads_stop_iff hc]
    | id text c hc =>
      simp [Piece.text, Piece.lexemes, Piece.IsPlain, reads_quoteId_iff hc, reads_stop_iff hc]
    | arrow => simp [Piece.text, Piece.lexemes, Piece.IsPlain, reads_arrow_iff]

end Propositional.Diagram
