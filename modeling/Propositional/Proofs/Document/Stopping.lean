import Propositional.Proofs.Document.Grammar

/-!
# Where reading stops

Reading stops at a token that cannot follow, at the end of a text that is not complete, at a lexical
fault, or at a word. Words are looked at late: a word is found wrong only when the token after its
element has come.

Results:
* `eq_or_aboutWord_of_step`, `eq_or_aboutWord_of_finish`: a token or the end is refused itself, or a
  word before it.
* `cases_of_readFrom`: reading stops at a token, after the run over those before it, or behind the
  last token.
* `readFrom_of_run_error`: where the run stops reading stops, whatever follows.
-/

namespace Propositional.Document

/-! ## Wrong words -/

/-- The error is about a word, not about the order of the symbols. -/
inductive AboutWord : Error → Prop
  | reserved (word : String) : AboutWord (.reserved word)
  | unary (word : String) : AboutWord (.unknownUnary word)
  | binary (word : String) : AboutWord (.unknownBinary word)

theorem aboutWord_of_formula {item : Item} {error : Error} (h : item.formula = .error error) :
    AboutWord error := by
  match item with
  | .const _ | .group _ => cases h
  | .variable word =>
    simp only [Item.formula] at h
    split at h <;> cases h
    exact .reserved word
  | .unary word operand =>
    simp only [Item.formula] at h
    split at h <;> cases h
    exact .unary word
  | .binary word left right =>
    simp only [Item.formula] at h
    split at h <;> cases h
    exact .binary word

/-! ## One step -/

theorem eq_of_afterComma {token : Token} {e : Expr} {frames : List Frame} {error : Error}
    (h : afterComma token e frames = .error error) : error = .unexpected token := by
  unfold afterComma at h
  split at h <;> cases h
  rfl

theorem eq_of_afterClosing {token : Token} {e : Expr} {frames : List Frame} {error : Error}
    (h : afterClosing token e frames = .error error) : error = .unexpected token := by
  unfold afterClosing at h
  split at h <;> cases h
  rfl

theorem eq_or_aboutWord_of_formula {α : Type} {item : Item} {next : Expr → Except Error α}
    {error other : Error} (hnext : ∀ e, next e = .error error → error = other)
    (h : (item.formula >>= next) = .error error) : error = other ∨ AboutWord error := by
  cases hf : item.formula with
  | error error' =>
    rw [hf] at h
    cases h
    exact Or.inr (aboutWord_of_formula hf)
  | ok e =>
    rw [hf] at h
    exact Or.inl (hnext e h)

/-- A token is refused itself, or a word before it. -/
theorem eq_or_aboutWord_of_step {state : State} {token : Token} {error : Error}
    (h : step state token = .error error) : error = .unexpected token ∨ AboutWord error := by
  unfold step at h
  split at h
  case h_6 | h_8 => exact eq_or_aboutWord_of_formula (fun _ => eq_of_afterClosing) h
  case h_7 => exact eq_or_aboutWord_of_formula (fun _ => eq_of_afterComma) h
  all_goals cases h
  exact Or.inl rfl

/-- The end of the text is refused itself, or a word before it. -/
theorem eq_or_aboutWord_of_finish {state : State} {error : Error}
    (h : finish state = .error error) : error = .unexpectedEnd ∨ AboutWord error := by
  unfold finish at h
  split at h
  · refine eq_or_aboutWord_of_formula (fun e he => ?_) h
    split at he <;> cases he
    rfl
  · cases h
    exact Or.inl rfl

/-! ## A run -/

/-- Reading fails at a token, or behind the last one. -/
theorem cases_of_readFrom {state : State} {fault : Option LexicalFault} {tokens : List Token}
    {error : Error} (h : readFrom state fault tokens = .error error) :
    (∃ before token after next, tokens = before ++ token :: after ∧
      run state before = .ok next ∧ step next token = .error error) ∨
    ∃ next, run state tokens = .ok next ∧ readFrom next fault [] = .error error := by
  induction tokens generalizing state with
  | nil => exact Or.inr ⟨state, rfl, h⟩
  | cons token tokens ih =>
    rw [readFrom] at h
    cases hstep : step state token with
    | error error' =>
      rw [hstep] at h
      cases h
      exact Or.inl ⟨[], token, tokens, state, rfl, rfl, hstep⟩
    | ok next =>
      rw [hstep] at h
      rcases ih h with ⟨before, token', after, next', rfl, hrun, hstep'⟩ | ⟨next', hrun, hend⟩
      · exact Or.inl ⟨token :: before, token', after, next', rfl, (run_cons hstep _).trans hrun,
          hstep'⟩
      · exact Or.inr ⟨next', (run_cons hstep _).trans hrun, hend⟩

theorem readFrom_of_run_error {state : State} {first : List Token} {error : Error}
    (h : run state first = .error error) (fault : Option LexicalFault) (rest : List Token) :
    readFrom state fault (first ++ rest) = .error error := by
  induction first generalizing state with
  | nil => cases h
  | cons token first ih =>
    rw [List.cons_append, readFrom]
    cases hstep : step state token with
    | error error' =>
      rw [run_cons_bind, hstep] at h
      cases h
      rfl
    | ok next => exact ih (run_cons hstep first ▸ h)

/-- Behind the last token it is the lexical fault that is reported, or what the end gives. -/
theorem cases_of_end {state : State} {fault : Option LexicalFault} {error : Error}
    (h : readFrom state fault [] = .error error) :
    (∃ f, fault = some f ∧ error = .lexical f) ∨ fault = none ∧ finish state = .error error := by
  cases fault with
  | some f =>
    cases h
    exact Or.inl ⟨f, rfl, rfl⟩
  | none => exact Or.inr ⟨rfl, h⟩

/-! ## A text -/

theorem read_of_not_blank {text : String} (h : text.toList.all Text.isBlank = false) :
    read text = readFrom .initial (scan text).fault (scan text).tokens := by
  rw [read, h, if_neg Bool.false_ne_true]

/-- A blank text is refused for nothing else. -/
theorem readFrom_of_read {text : String} {error : Error} (h : read text = .error error)
    (hne : error ≠ .blank) :
    readFrom .initial (scan text).fault (scan text).tokens = .error error := by
  rw [read] at h
  split at h
  · cases h
    exact absurd rfl hne
  · exact h

/-- A text with a token is not blank. -/
theorem read_of_tokens {text : String} (h : (scan text).tokens ≠ []) :
    read text = readFrom .initial (scan text).fault (scan text).tokens := by
  have hblank : text.toList.all Text.isBlank = false := by
    rw [← Bool.not_eq_true, List.all_eq_true]
    exact fun hblank => h (scanFrom_of_blank hblank 0)
  exact read_of_not_blank hblank

end Propositional.Document
