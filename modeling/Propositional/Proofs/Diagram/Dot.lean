import Mathlib.Data.List.Basic
import Mathlib.Data.List.TakeWhile
import Propositional.Diagram
import Propositional.Text.Blank

/-!
# Reading the DOT language

What an identifier in the text of a drawing stands for is decided by those who read it, not by the
one who wrote it. An identifier is bare, between quotes, or in angle brackets:

* a bare one is a name or a number, and stands for itself, unless it is a word of the language;
* between quotes a quote after a backslash is part of the text, and stands for the quote alone; a
  backslash takes any other character along unchanged, so the closing quote is the first one that
  no odd run of backslashes precedes;
* in angle brackets stands markup, which is no plain text.

Results:
* `Reads.unique`: the lexemes of a text are determined.
* `next_bareWord`: a name or number is read whole, up to the blank or sign after it.
* `reads_blank_iff`, `reads_cons_iff`: a step of reading can be taken back.
-/

namespace Propositional.Diagram

open Propositional.Text

/-! ## The reader -/

/-- A lexeme of the language. -/
inductive Lexeme where
  /-- A word of the language, in small letters. -/
  | keyword (word : String)
  /-- An identifier that stands for a plain text. -/
  | id (text : String)
  /-- An identifier in angle brackets. -/
  | markup (text : String)
  | sign (c : Char)
  | arrow
  deriving DecidableEq

/-- The words of the language. -/
def keywords : List String :=
  ["node", "edge", "graph", "digraph", "subgraph", "strict"]

/-- The signs of the language. -/
def signs : List Char :=
  ['\x7b', '\x7d', '[', ']', '=', ';', ',']

/-- A character that a name may start with. -/
def isLetter (c : Char) : Bool :=
  c.isAlpha || c = '_' || 0x80 ≤ c.toNat

/-- The text up to the closing quote, and what comes after it. -/
def readQuoted : List Char → Option (List Char × List Char)
  | [] => none
  | '"' :: rest => some ([], rest)
  | '\\' :: '"' :: rest => (readQuoted rest).map fun p => ('"' :: p.1, p.2)
  | '\\' :: c :: rest => (readQuoted rest).map fun p => ('\\' :: c :: p.1, p.2)
  | c :: rest => (readQuoted rest).map fun p => (c :: p.1, p.2)

/-- The text up to the closing bracket, and what comes after it. Brackets inside come in pairs. -/
def readMarkup (depth : Nat) : List Char → Option (List Char × List Char)
  | [] => none
  | c :: rest =>
    if c = '>' ∧ depth = 0 then some ([], rest)
    else
      let inner := if c = '<' then depth + 1 else if c = '>' then depth - 1 else depth
      (readMarkup inner rest).map fun p => (c :: p.1, p.2)

/-- The longest number without a sign that the text starts with, and what comes after it. -/
def readUnsigned (text : List Char) : Option (List Char × List Char) :=
  let whole := text.takeWhile Char.isDigit
  match text.dropWhile Char.isDigit with
  | '.' :: rest =>
    let fraction := rest.takeWhile Char.isDigit
    if whole.isEmpty && fraction.isEmpty then none
    else some (whole ++ '.' :: fraction, rest.dropWhile Char.isDigit)
  | rest => if whole.isEmpty then none else some (whole, rest)

/-- The longest name or number that the text starts with, and what comes after it. -/
def readBare : List Char → Option (List Char × List Char)
  | [] => none
  | c :: rest =>
    if isLetter c then
      some (c :: rest.takeWhile fun d => isLetter d || d.isDigit,
        rest.dropWhile fun d => isLetter d || d.isDigit)
    else if c = '-' then (readUnsigned rest).map fun p => ('-' :: p.1, p.2)
    else readUnsigned (c :: rest)

/-- What a bare identifier is: a word of the language in any letter case, or a plain text. -/
def bareLexeme (text : List Char) : Lexeme :=
  if keywords.any fun word => word.toList = text.map Char.toLower then
    .keyword (String.ofList (text.map Char.toLower))
  else .id (String.ofList text)

/-- The lexeme that a text starts with, and what comes after it. -/
def next : List Char → Option (Lexeme × List Char)
  | [] => none
  | c :: rest =>
    if c = '"' then (readQuoted rest).map fun p => (.id (String.ofList p.1), p.2)
    else if c = '<' then (readMarkup 0 rest).map fun p => (.markup (String.ofList p.1), p.2)
    else if c ∈ signs then some (.sign c, rest)
    else if c = '-' ∧ rest.head? = some '>' then some (.arrow, rest.tail)
    else (readBare (c :: rest)).map fun p => (bareLexeme p.1, p.2)

/-- The text consists of the lexemes, with blanks and comments between them. A comment starts with
two slashes and ends with the line. -/
inductive Reads : (text : List Char) → List Lexeme → Prop
  | nil : Reads [] []
  | blank {c : Char} {text : List Char} {ls : List Lexeme} (hc : isSpace c = true)
      (h : Reads text ls) : Reads (c :: text) ls
  | comment {line text : List Char} {ls : List Lexeme} (hline : '\n' ∉ line)
      (h : Reads text ls) : Reads ('/' :: '/' :: (line ++ '\n' :: text)) ls
  | lexeme {text rest : List Char} {l : Lexeme} {ls : List Lexeme}
      (hnext : next text = some (l, rest)) (h : Reads rest ls) : Reads text (l :: ls)

/-! ## One step of reading -/

theorem takeWhile_stop {p : Char → Bool} {w : List Char} (hw : ∀ c ∈ w, p c = true) {d : Char}
    (hd : p d = false) (rest : List Char) :
    (w ++ d :: rest).takeWhile p = w ∧ (w ++ d :: rest).dropWhile p = d :: rest := by
  have hnot : ¬ p d = true := by rw [hd]; exact Bool.false_ne_true
  constructor
  · rw [List.takeWhile_append_of_pos hw, List.takeWhile_cons_of_neg hnot, List.append_nil]
  · rw [List.dropWhile_append_of_pos hw, List.dropWhile_cons_of_neg hnot]

theorem next_of_isSpace {c : Char} (h : isSpace c = true) (rest : List Char) :
    next (c :: rest) = none := by
  simp only [isSpace, Bool.or_eq_true, decide_eq_true_eq] at h
  rcases h with ((rfl | rfl) | rfl) | rfl <;> rfl

theorem next_slash (rest : List Char) : next ('/' :: rest) = none := rfl

theorem reads_blank_iff {c : Char} (hc : isSpace c = true) {text : List Char} {ls : List Lexeme} :
    Reads (c :: text) ls ↔ Reads text ls := by
  refine ⟨fun h => ?_, .blank hc⟩
  generalize htext : c :: text = whole at h
  cases h with
  | nil => cases htext
  | blank _ h =>
    cases htext
    exact h
  | comment =>
    cases htext
    cases hc
  | lexeme hnext =>
    rw [← htext, next_of_isSpace hc] at hnext
    cases hnext

theorem reads_cons_iff {text : List Char} {l : Lexeme} {ls : List Lexeme}
    (htext : ∀ c ∈ text.head?, isSpace c = false ∧ c ≠ '/') :
    Reads text (l :: ls) ↔ ∃ rest, next text = some (l, rest) ∧ Reads rest ls := by
  refine ⟨fun h => ?_, fun ⟨_, hnext, h⟩ => .lexeme hnext h⟩
  generalize hls : l :: ls = whole at h
  cases h with
  | nil => cases hls
  | @blank c _ _ hc =>
    rw [(htext c rfl).1] at hc
    cases hc
  | comment => exact absurd rfl (htext '/' rfl).2
  | lexeme hnext h =>
    cases hls
    exact ⟨_, hnext, h⟩

/-- **A text has one reading** at most. -/
theorem Reads.unique {text : List Char} {ls ls' : List Lexeme} (h : Reads text ls)
    (h' : Reads text ls') : ls = ls' := by
  induction h generalizing ls' with
  | nil =>
    cases h' with
    | nil => rfl
    | lexeme hnext => cases hnext
  | blank hc _ ih => exact ih ((reads_blank_iff hc).mp h')
  | @comment line text ls hline h ih =>
    generalize htext : '/' :: '/' :: (line ++ '\n' :: text) = whole at h'
    cases h' with
    | nil => cases htext
    | blank hc =>
      cases htext
      cases hc
    | @comment line' text' _ hline' h' =>
      have hrest := (List.cons.inj (List.cons.inj htext).2).2
      -- Both comments end at the first line feed.
      have hcut : ∀ {line text : List Char}, '\n' ∉ line →
          (line ++ '\n' :: text).dropWhile (· ≠ '\n') = '\n' :: text := by
        intro line text hline
        refine (takeWhile_stop (fun c hc => decide_eq_true ?_) (by decide) text).2
        rintro rfl
        exact hline hc
      have htail := @hcut line text hline
      rw [hrest, hcut hline'] at htail
      obtain ⟨-, rfl⟩ := List.cons.inj htail
      exact ih h'
    | lexeme hnext =>
      rw [← htext, next_slash] at hnext
      cases hnext
  | @lexeme text rest l ls hnext h ih =>
    generalize htext : text = whole at h'
    cases h' with
    | nil =>
      rw [htext] at hnext
      cases hnext
    | blank hc =>
      rw [htext, next_of_isSpace hc] at hnext
      cases hnext
    | comment =>
      rw [htext, next_slash] at hnext
      cases hnext
    | lexeme hnext' h' =>
      rw [← htext, hnext] at hnext'
      cases hnext'
      rw [ih h']

theorem readQuoted_cons {c : Char} (hquote : c ≠ '"') (hslash : c ≠ '\\') (rest : List Char) :
    readQuoted (c :: rest) = (readQuoted rest).map fun p => (c :: p.1, p.2) := by
  rw [readQuoted]
  · exact hquote
  · exact fun _ h => absurd h hslash
  · exact fun _ _ h => absurd h hslash

theorem readQuoted_pair {c : Char} (hquote : c ≠ '"') (rest : List Char) :
    readQuoted ('\\' :: c :: rest) = (readQuoted rest).map fun p => ('\\' :: c :: p.1, p.2) := by
  rw [readQuoted]
  exact hquote

/-! ## Bare identifiers -/

/-- The characters that end a bare identifier in a drawing: blanks and signs. -/
def delimiters : List Char :=
  [' ', '\t', '\r', '\n'] ++ signs

/-- The characters that a lexeme or a comment starts with that is no bare identifier, and blanks. -/
def openers : List Char :=
  '"' :: '<' :: '/' :: delimiters

/-- A number without a sign. -/
inductive Unsigned : (text : List Char) → Prop
  | fraction {f : List Char} (hne : f ≠ []) (hf : ∀ c ∈ f, c.isDigit = true) : Unsigned ('.' :: f)
  | whole {w : List Char} (hne : w ≠ []) (hw : ∀ c ∈ w, c.isDigit = true) : Unsigned w
  | both {w f : List Char} (hne : w ≠ []) (hw : ∀ c ∈ w, c.isDigit = true)
      (hf : ∀ c ∈ f, c.isDigit = true) : Unsigned (w ++ '.' :: f)

/-- A name or a number. -/
inductive BareWord : (text : List Char) → Prop
  | name {c : Char} {text : List Char} (hc : isNameStart c = true)
      (h : ∀ d ∈ text, isNameChar d = true) : BareWord (c :: text)
  | number {text : List Char} (h : Unsigned text) : BareWord text
  | negative {text : List Char} (h : Unsigned text) : BareWord ('-' :: text)

theorem delimiter_facts : ∀ d ∈ delimiters,
    isLetter d = false ∧ d.isDigit = false ∧ d ≠ '.' :=
  List.forall_iff_forall_mem.mp (by decide)

theorem readUnsigned_append {w : List Char} (h : Unsigned w) {d : Char} (hdigit : d.isDigit = false)
    (hpoint : d ≠ '.') (rest : List Char) :
    readUnsigned (w ++ d :: rest) = some (w, d :: rest) := by
  have hdot : Char.isDigit '.' = false := rfl
  cases h with
  | @fraction f hne hf =>
    obtain ⟨htake, hdrop⟩ := takeWhile_stop hf hdigit rest
    rw [List.cons_append, readUnsigned]
    simp [hdot, htake, hdrop, hne]
  | whole hne hw =>
    obtain ⟨htake, hdrop⟩ := takeWhile_stop hw hdigit rest
    rw [readUnsigned, htake, hdrop]
    simp [hpoint, hne]
  | @both v f hne hv hf =>
    obtain ⟨htake, hdrop⟩ := takeWhile_stop hv hdot (f ++ d :: rest)
    obtain ⟨htake', hdrop'⟩ := takeWhile_stop hf hdigit rest
    rw [List.append_assoc, List.cons_append, readUnsigned, htake, hdrop]
    simp [htake', hdrop', hne]

/-- What a number without a sign starts with. -/
def digits : List Char :=
  ['.', '0', '1', '2', '3', '4', '5', '6', '7', '8', '9']

theorem mem_digits {c : Char} (h : c.isDigit = true) : c ∈ digits := by
  have hval : 48 ≤ c.toNat ∧ c.toNat ≤ 57 := by
    simpa [Char.isDigit, UInt32.le_iff_toNat_le] using h
  have hdigits : ∀ n, 48 ≤ n → n ≤ 57 → Char.ofNat n ∈ digits := by decide
  rw [← Char.ofNat_toNat c]
  exact hdigits _ hval.1 hval.2

theorem exists_of_unsigned {text : List Char} (h : Unsigned text) :
    ∃ c rest, text = c :: rest ∧ c ∈ digits := by
  cases h with
  | fraction => exact ⟨_, _, rfl, List.mem_cons_self⟩
  | whole hne hw =>
    obtain ⟨c, w, rfl⟩ := List.exists_cons_of_ne_nil hne
    exact ⟨c, w, rfl, mem_digits (hw c List.mem_cons_self)⟩
  | both hne hw =>
    obtain ⟨c, w, rfl⟩ := List.exists_cons_of_ne_nil hne
    exact ⟨c, _, rfl, mem_digits (hw c List.mem_cons_self)⟩

theorem digit_facts : ∀ c ∈ digits, isLetter c = false ∧ c ≠ '-' ∧ c ≠ '>' ∧ c ∉ openers :=
  List.forall_iff_forall_mem.mp (by decide)

/-- A bare word does not look like anything else at its start. -/
theorem exists_of_bareWord {text : List Char} (h : BareWord text) :
    ∃ c rest, text = c :: rest ∧ c ∉ openers ∧ (c = '-' → ∃ d ∈ rest.head?, d ≠ '>') := by
  cases h with
  | @name c rest hc =>
    have hnot : ∀ d ∈ '-' :: openers, isNameStart d = false :=
      List.forall_iff_forall_mem.mp (by decide)
    have hstart : c ∉ '-' :: openers := fun hmem => by
      rw [hnot c hmem] at hc
      cases hc
    rw [List.mem_cons, not_or] at hstart
    exact ⟨c, rest, rfl, hstart.2, fun h => absurd h hstart.1⟩
  | number h =>
    obtain ⟨c, rest, rfl, hc⟩ := exists_of_unsigned h
    obtain ⟨-, hminus, -, hout⟩ := digit_facts c hc
    exact ⟨c, rest, rfl, hout, fun h => absurd h hminus⟩
  | negative h =>
    obtain ⟨c, rest, rfl, hc⟩ := exists_of_unsigned h
    exact ⟨'-', c :: rest, rfl, by decide, fun _ => ⟨c, rfl, (digit_facts c hc).2.2.1⟩⟩

theorem isLetter_of_isNameStart {c : Char} (h : isNameStart c = true) : isLetter c = true := by
  rw [isLetter, show (c.isAlpha || decide (c = '_')) = true from h, Bool.true_or]

theorem isLetter_or_isDigit_of_isNameChar {c : Char} (h : isNameChar c = true) :
    (isLetter c || c.isDigit) = true := by
  simp only [isNameChar, Char.isAlphanum, isLetter, Bool.or_eq_true] at h ⊢
  rcases h with (h | h) | h
  · exact .inl (.inl (.inl h))
  · exact .inr h
  · exact .inl (.inl (.inr h))

/-- A bare word is read whole if a delimiter follows. -/
theorem readBare_append {w : List Char} (h : BareWord w) {d : Char} (hd : d ∈ delimiters)
    (rest : List Char) : readBare (w ++ d :: rest) = some (w, d :: rest) := by
  obtain ⟨hletter, hdigit, hpoint⟩ := delimiter_facts d hd
  cases h with
  | @name c text hc h =>
    have hstop : (isLetter d || d.isDigit) = false := by rw [hletter, hdigit]; rfl
    obtain ⟨htake, hdrop⟩ := takeWhile_stop
      (fun e he => isLetter_or_isDigit_of_isNameChar (h e he)) hstop rest
    rw [List.cons_append, readBare, if_pos (isLetter_of_isNameStart hc), htake, hdrop]
  | number h =>
    have hread := readUnsigned_append h hdigit hpoint rest
    obtain ⟨c, w, rfl, hc⟩ := exists_of_unsigned h
    obtain ⟨hletter, hminus, -⟩ := digit_facts c hc
    rw [List.cons_append, readBare, if_neg (by rw [hletter]; exact Bool.false_ne_true),
      if_neg hminus, ← List.cons_append, hread]
  | negative h =>
    rw [List.cons_append, readBare, if_neg (by decide), if_pos rfl,
      readUnsigned_append h hdigit hpoint]
    rfl

/-- **A bare word is a lexeme by itself** if a delimiter follows. -/
theorem next_bareWord {w : List Char} (h : BareWord w) {d : Char} (hd : d ∈ delimiters)
    (rest : List Char) : next (w ++ d :: rest) = some (bareLexeme w, d :: rest) := by
  have hread := readBare_append h hd rest
  obtain ⟨c, w, rfl, hc, hminus⟩ := exists_of_bareWord h
  obtain ⟨hquote, hangle, -, hdelimiter⟩ : c ≠ '"' ∧ c ≠ '<' ∧ c ≠ '/' ∧ c ∉ delimiters := by
    simpa only [openers, List.mem_cons, not_or] using hc
  have hsign : c ∉ signs := fun h => hdelimiter (List.mem_append_right _ h)
  have harrow : ¬ (c = '-' ∧ (w ++ d :: rest).head? = some '>') := by
    rintro ⟨heq, hhead⟩
    obtain ⟨x, hx, hne⟩ := hminus heq
    rw [List.head?_append, hx] at hhead
    exact hne (Option.some.inj hhead)
  rw [List.cons_append, next, if_neg hquote, if_neg hangle, if_neg hsign, if_neg harrow,
    ← List.cons_append, hread]
  rfl

theorem Unsigned.isDigit_or_eq {text : List Char} (h : Unsigned text) :
    ∀ c ∈ text, c.isDigit = true ∨ c = '.' := by
  intro c hc
  cases h with
  | fraction _ hf => exact (List.mem_cons.mp hc).elim .inr fun hc => .inl (hf c hc)
  | whole _ hw => exact .inl (hw c hc)
  | both _ hw hf =>
    rcases List.mem_append.mp hc with hc | hc
    · exact .inl (hw c hc)
    · exact (List.mem_cons.mp hc).elim .inr fun hc => .inl (hf c hc)

theorem not_mem_of_bareWord {text : List Char} (h : BareWord text) : '\\' ∉ text := by
  have hunsigned : ∀ {w : List Char}, Unsigned w → '\\' ∉ w := fun hw hmem =>
    absurd (hw.isDigit_or_eq _ hmem) (by decide)
  intro hmem
  cases h with
  | name hc h =>
    rcases List.mem_cons.mp hmem with rfl | hmem
    · exact absurd hc (by decide)
    · exact absurd (h _ hmem) (by decide)
  | number h => exact hunsigned h hmem
  | negative h => exact (List.mem_cons.mp hmem).elim (by decide) (hunsigned h)

/-! ## Blanks, signs and arrows -/

theorem mem_delimiters_of_isSpace {c : Char} (h : isSpace c = true) : c ∈ delimiters := by
  simp only [isSpace, Bool.or_eq_true, decide_eq_true_eq] at h
  rcases h with ((rfl | rfl) | rfl) | rfl <;> decide

/-- What is read at a blank or a sign. -/
def stopLexemes (c : Char) : List Lexeme :=
  if c ∈ signs then [.sign c] else []

theorem reads_stop_iff {c : Char} (hc : c ∈ delimiters) {text : List Char} {ls : List Lexeme} :
    Reads (c :: text) (stopLexemes c ++ ls) ↔ Reads text ls := by
  by_cases hsign : c ∈ signs
  · have hstart : ∀ c ∈ signs, isSpace c = false ∧ c ≠ '/' ∧ c ≠ '"' ∧ c ≠ '<' :=
      List.forall_iff_forall_mem.mp (by decide)
    obtain ⟨hspace, hslash, hquote, hangle⟩ := hstart c hsign
    have hnext : next (c :: text) = some (.sign c, text) := by
      rw [next, if_neg hquote, if_neg hangle, if_pos hsign]
    rw [stopLexemes, if_pos hsign, List.singleton_append, reads_cons_iff, hnext]
    · simp
    · rintro _ ⟨⟩
      exact ⟨hspace, hslash⟩
  · have hspace : isSpace c = true := by
      have hblank : ∀ c ∈ delimiters, c ∉ signs → isSpace c = true :=
        List.forall_iff_forall_mem.mp (by decide)
      exact hblank c hc hsign
    rw [stopLexemes, if_neg hsign, List.nil_append, reads_blank_iff hspace]

theorem reads_arrow_iff {text : List Char} {ls : List Lexeme} :
    Reads ('-' :: '>' :: text) (.arrow :: ls) ↔ Reads text ls := by
  have hnext : next ('-' :: '>' :: text) = some (.arrow, text) := rfl
  rw [reads_cons_iff, hnext]
  · simp
  · rintro _ ⟨⟩
    decide

end Propositional.Diagram
