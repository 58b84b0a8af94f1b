import Propositional.Proofs.Document.Grammar

/-!
# Which texts are read

The reader reads nothing but what the grammar derives. What it has read so far is kept in its state:
the open arrays stand for the symbols that opened them (`Opened`), and an element stands for the
symbols it was read from (`Covers`), although its words have not been looked at yet. `Reached` puts
the two together and is the invariant of a run.

Results:
* `reached_step`: one more token keeps the invariant, with the token's symbol appended.
* `derives_of_readFrom`: a formula that is read is derived from all the symbols, and no fault is
  left.
* `reads_exactly_the_grammar`: a text is read as a formula iff it has no lexical fault and the
  grammar derives the formula from its symbols; every other text is refused.
-/

namespace Propositional.Document

/-! ## What a state stands for -/

/-- The symbols that have opened these arrays, with the operands that are complete. -/
inductive Opened : List Frame → List Symbol → Prop
  | nil : Opened [] []
  | bracket {frames : List Frame} {before : List Symbol} (h : Opened frames before) :
      Opened (.bracket :: frames) (before ++ [.opening])
  | operand {frames : List Frame} {before : List Symbol} (word : String)
      (h : Opened frames before) :
      Opened (.operand word :: frames) (before ++ [.opening, .string word, .comma])
  | second {frames : List Frame} {before symbols : List Symbol} {left : Expr} (word : String)
      (h : Opened frames before) (hl : Derives symbols left) :
      Opened (.second word left :: frames)
        (before ++ (.opening :: .string word :: .comma :: (symbols ++ [.comma])))

/-- The symbols that an element was read from. Nothing is said about its words. -/
inductive Covers : Item → List Symbol → Prop
  | const (value : Bool) : Covers (.const value) [.bool value]
  | string (word : String) : Covers (.variable word) [.string word]
  | group {symbols : List Symbol} {e : Expr} (h : Derives symbols e) :
      Covers (.group e) (.opening :: (symbols ++ [.closing]))
  | unary {symbols : List Symbol} {e : Expr} (word : String) (h : Derives symbols e) :
      Covers (.unary word e) (.opening :: .string word :: .comma :: (symbols ++ [.closing]))
  | binary {ls rs : List Symbol} {l r : Expr} (word : String) (hl : Derives ls l)
      (hr : Derives rs r) :
      Covers (.binary word l r)
        (.opening :: .string word :: .comma :: (ls ++ .comma :: (rs ++ [.closing])))

/-- The reader is in this state after these symbols. -/
inductive Reached : State → List Symbol → Prop
  | expecting {frames : List Frame} {before : List Symbol} (h : Opened frames before) :
      Reached (.expecting frames) before
  | word {frames : List Frame} {before : List Symbol} (word : String) (h : Opened frames before) :
      Reached (.word word frames) (before ++ [.opening, .string word])
  | read {frames : List Frame} {item : Item} {before symbols : List Symbol}
      (h : Opened frames before) (hi : Covers item symbols) :
      Reached (.read item frames) (before ++ symbols)

/-- An element whose words are right is derived from its symbols. -/
theorem derives_of_covers {item : Item} {symbols : List Symbol} {e : Expr}
    (h : Covers item symbols) (hf : item.formula = .ok e) : Derives symbols e := by
  cases h with
  | const value =>
    cases hf
    exact .const value
  | string word =>
    simp only [Item.formula] at hf
    split at hf
    · next name hw =>
      cases hf
      exact .var hw
    · cases hf
  | group h =>
    cases hf
    exact .group h
  | unary word h =>
    simp only [Item.formula] at hf
    split at hf
    · next hw =>
      cases hf
      exact .unary hw h
    · cases hf
  | binary word hl hr =>
    simp only [Item.formula] at hf
    split at hf
    · next c hw =>
      cases hf
      exact .binary hw hl hr
    · cases hf

/-! ## One step -/

theorem exists_ok_of_bind {α β : Type} {a : Except Error α} {f : α → Except Error β} {b : β}
    (h : (a >>= f) = .ok b) : ∃ x, a = .ok x ∧ f x = .ok b := by
  cases a with
  | error => cases h
  | ok x => exact ⟨x, rfl, h⟩

theorem reached_afterComma {token : Token} {e : Expr} {frames : List Frame} {next : State}
    {before symbols : List Symbol} (h : afterComma token e frames = .ok next)
    (ho : Opened frames before) (hd : Derives symbols e) :
    Reached next (before ++ symbols ++ [.comma]) := by
  cases ho with
  | operand word ho =>
    cases h
    simpa only [List.append_assoc, List.cons_append, List.nil_append] using
      Reached.expecting (.second word ho hd)
  | nil | bracket | second => cases h

theorem reached_afterClosing {token : Token} {e : Expr} {frames : List Frame} {next : State}
    {before symbols : List Symbol} (h : afterClosing token e frames = .ok next)
    (ho : Opened frames before) (hd : Derives symbols e) :
    Reached next (before ++ symbols ++ [.closing]) := by
  cases ho with
  | nil => cases h
  | bracket ho =>
    cases h
    simpa only [List.append_assoc, List.cons_append, List.nil_append] using
      Reached.read ho (.group hd)
  | operand word ho =>
    cases h
    simpa only [List.append_assoc, List.cons_append, List.nil_append] using
      Reached.read ho (.unary word hd)
  | second word ho hl =>
    cases h
    simpa only [List.append_assoc, List.cons_append, List.nil_append] using
      Reached.read ho (.binary word hl hd)

/-- **One more token**: its symbol follows those that led to the state before. -/
theorem reached_step {state next : State} {token : Token} {before : List Symbol}
    (h : step state token = .ok next) (hr : Reached state before) :
    Reached next (before ++ [token.symbol]) := by
  cases hr with
  | expecting ho =>
    cases hs : token.symbol with
    | opening =>
      rw [step_opening hs] at h
      cases h
      exact .expecting (.bracket ho)
    | bool value =>
      simp only [step, hs] at h
      cases h
      exact .read ho (.const value)
    | string word =>
      have hitem := Reached.read ho (.string word)
      cases ho with
      | bracket ho =>
        -- Right after a bracket the string may still become the word of an operator.
        rw [step_string hs] at h
        cases h
        rw [List.append_assoc]
        exact .word word ho
      | nil | operand | second =>
        simp only [step, hs] at h
        cases h
        exact hitem
    | closing | comma =>
      simp only [step, hs] at h
      cases h
  | word word ho =>
    cases hs : token.symbol with
    | comma =>
      rw [step_word hs] at h
      cases h
      rw [List.append_assoc]
      exact .expecting (.operand word ho)
    | closing =>
      simp only [step, hs] at h
      obtain ⟨e, he, hnext⟩ := exists_ok_of_bind h
      have hr := reached_afterClosing hnext (.bracket ho) (derives_of_covers (.string word) he)
      simpa only [List.append_assoc, List.cons_append, List.nil_append] using hr
    | opening | string | bool =>
      simp only [step, hs] at h
      cases h
  | read ho hi =>
    cases hs : token.symbol with
    | comma =>
      simp only [step, hs] at h
      obtain ⟨e, he, hnext⟩ := exists_ok_of_bind h
      exact reached_afterComma hnext ho (derives_of_covers hi he)
    | closing =>
      simp only [step, hs] at h
      obtain ⟨e, he, hnext⟩ := exists_ok_of_bind h
      exact reached_afterClosing hnext ho (derives_of_covers hi he)
    | opening | string | bool =>
      simp only [step, hs] at h
      cases h

/-! ## A whole run -/

theorem derives_of_finish {state : State} {before : List Symbol} {e : Expr}
    (h : finish state = .ok e) (hr : Reached state before) : Derives before e := by
  cases hr with
  | expecting | word => cases h
  | read ho hi =>
    obtain ⟨e', he, hend⟩ := exists_ok_of_bind h
    cases ho with
    | nil =>
      cases hend
      exact derives_of_covers hi he
    | bracket | operand | second => cases hend

/-- Where a formula is read the first token is taken. -/
theorem exists_step_of_readFrom {state : State} {fault : Option LexicalFault} {token : Token}
    {tokens : List Token} {e : Expr} (h : readFrom state fault (token :: tokens) = .ok e) :
    ∃ next, step state token = .ok next ∧ readFrom next fault tokens = .ok e := by
  rw [readFrom] at h
  cases hs : step state token with
  | error error =>
    rw [hs] at h
    cases h
  | ok next =>
    rw [hs] at h
    exact ⟨next, rfl, h⟩

/-- **What is read from a state on is derived**, and every token is read. -/
theorem derives_of_readFrom {state : State} {fault : Option LexicalFault} {tokens : List Token}
    {before : List Symbol} {e : Expr} (h : readFrom state fault tokens = .ok e)
    (hr : Reached state before) : fault = none ∧ Derives (before ++ tokens.map Token.symbol) e := by
  induction tokens generalizing state before with
  | nil =>
    cases fault with
    | some fault => cases h
    | none =>
      rw [List.map_nil, List.append_nil]
      exact ⟨rfl, derives_of_finish h hr⟩
  | cons token tokens ih =>
    obtain ⟨next, hs, hread⟩ := exists_step_of_readFrom h
    have hd := ih hread (reached_step hs hr)
    rwa [List.append_assoc] at hd

theorem derives_of_read {text : String} {e : Expr} (h : read text = .ok e) :
    (scan text).fault = none ∧ Derives (scan text).symbols e := by
  rw [read] at h
  split at h
  · cases h
  · exact derives_of_readFrom h (.expecting .nil)

theorem read_eq_ok_iff {text : String} {e : Expr} :
    read text = .ok e ↔ (scan text).fault = none ∧ Derives (scan text).symbols e :=
  ⟨derives_of_read, fun ⟨hfault, h⟩ => read_of_derives hfault h⟩

/-- **A text is read as a formula iff the grammar derives the formula from its symbols**, all of
which can be read; in every other case it is refused. The words of the grammar are told apart
without regard to letter case: a word names an operator iff it is the operator's own word in capital
letters, and a string is the name of a variable iff it names no operator. -/
theorem reads_exactly_the_grammar (text : String) :
    (∀ e, read text = .ok e ↔ (scan text).fault = none ∧ Derives (scan text).symbols e) ∧
    ((∃ error, read text = .error error) ↔
      ¬ ∃ e, (scan text).fault = none ∧ Derives (scan text).symbols e) ∧
    (∀ (word : String) (o : Operator),
      Operator.ofWord? word = some o ↔ word.toUpper = o.word) ∧
    ∀ (word : String) (name : Name),
      Name.ofText? word = some name ↔ name.text = word ∧ ∀ o : Operator, word.toUpper ≠ o.word := by
  refine ⟨fun e => read_eq_ok_iff, ?_, fun word o => Operator.ofWord?_eq_some_iff,
    fun word name => Name.ofText?_eq_some_iff⟩
  simp only [← read_eq_ok_iff]
  cases read text with
  | error error => exact ⟨fun _ => nofun, fun _ => ⟨error, rfl⟩⟩
  | ok e => exact ⟨nofun, fun h => absurd ⟨e, rfl⟩ h⟩

end Propositional.Document
