import Propositional.Document.Reader
import Propositional.Proofs.Document.Scan

/-!
# The grammar of documents

`Derives` is the grammar as it is documented: which symbols encode which formula. The reader keeps
the open arrays and looks at the words of an element only after the token behind it. Where an
element has been read, its state is one of two (`Holds`); that is the invariant of a run over the
symbols of an element, and it holds over any open arrays.

Results:
* `reads_of_derives`: over symbols that derive a formula the reader runs from "an element is
  expected" to "this formula has been read". The `reads_` lemmas are its cases, one for each rule of
  the grammar.
* `read_of_derives`: a text without a lexical fault whose symbols derive a formula is read as it.
-/

namespace Propositional.Document

/-- The symbols encode the formula. -/
inductive Derives : List Symbol → Expr → Prop
  /-- `true` or `false`. -/
  | const (value : Bool) : Derives [.bool value] (.const value)
  /-- A string that names no operator. -/
  | var {word : String} {name : Name} (hw : Name.ofText? word = some name) :
      Derives [.string word] (.var name)
  /-- An array of one element. -/
  | group {symbols : List Symbol} {e : Expr} (h : Derives symbols e) :
      Derives (.opening :: (symbols ++ [.closing])) e
  /-- A word for negation and one element. -/
  | unary {word : String} {symbols : List Symbol} {e : Expr}
      (hw : Operator.ofWord? word = some .not) (h : Derives symbols e) :
      Derives (.opening :: .string word :: .comma :: (symbols ++ [.closing])) (.not e)
  /-- A word for a connective and two elements. -/
  | binary {word : String} {c : Connective} {ls rs : List Symbol} {l r : Expr}
      (hw : Operator.ofWord? word = some (.bin c)) (hl : Derives ls l) (hr : Derives rs r) :
      Derives (.opening :: .string word :: .comma :: (ls ++ .comma :: (rs ++ [.closing])))
        (.bin c l r)

/-- The symbols that a formula is written with. -/
def symbolsOf : Expr → List Symbol
  | .const value => [.bool value]
  | .var name => [.string name.text]
  | .not e => .opening :: .string Operator.not.word :: .comma :: (symbolsOf e ++ [.closing])
  | .bin c l r =>
    .opening :: .string (Operator.bin c).word :: .comma ::
      (symbolsOf l ++ .comma :: (symbolsOf r ++ [.closing]))

/-- A formula is derived from the symbols that it is written with. -/
theorem derives_symbolsOf (e : Expr) : Derives (symbolsOf e) e := by
  induction e with
  | const value => exact .const value
  | var name => exact .var (Name.ofText?_text name)
  | not e ih => exact .unary (Operator.ofWord?_word .not) ih
  | bin c l r ihl ihr => exact .binary (Operator.ofWord?_word (.bin c)) ihl ihr

/-! ## Runs of the reader -/

/-- The reader has read an element that stands for the formula, inside the given open arrays. After
a bracket a string may still turn out to be an operator's word. -/
inductive Holds (e : Expr) : List Frame → State → Prop
  | item {item : Item} {frames : List Frame} (h : item.formula = .ok e) :
      Holds e frames (.read item frames)
  | word {word : String} {frames : List Frame} (h : (Item.variable word).formula = .ok e) :
      Holds e (.bracket :: frames) (.word word frames)

theorem step_opening {token : Token} (ht : token.symbol = .opening) (frames : List Frame) :
    step (.expecting frames) token = .ok (.expecting (.bracket :: frames)) := by
  simp only [step, ht]

theorem step_string {token : Token} {word : String} (ht : token.symbol = .string word)
    (frames : List Frame) :
    step (.expecting (.bracket :: frames)) token = .ok (.word word frames) := by
  simp only [step, ht]

/-- A comma after a word makes it the word of an operator. -/
theorem step_word {token : Token} (ht : token.symbol = .comma) (word : String)
    (frames : List Frame) :
    step (.word word frames) token = .ok (.expecting (.operand word :: frames)) := by
  simp only [step, ht]

theorem step_closing {e : Expr} {frames : List Frame} {state : State} (h : Holds e frames state)
    {token : Token} (ht : token.symbol = .closing) :
    step state token = afterClosing token e frames := by
  cases h with
  | item h =>
    simp only [step, ht, h]
    rfl
  | word h =>
    simp only [step, ht, h]
    rfl

/-- A comma is taken after the first operand. -/
theorem step_comma {e : Expr} {word : String} {frames : List Frame} {state : State}
    (h : Holds e (.operand word :: frames) state) {token : Token} (ht : token.symbol = .comma) :
    step state token = .ok (.expecting (.second word e :: frames)) := by
  cases h with
  | item h =>
    simp only [step, ht, h]
    rfl

/-- The reader's run over some tokens. -/
def run (state : State) (tokens : List Token) : Except Error State :=
  tokens.foldlM step state

theorem run_cons_bind (state : State) (token : Token) (tokens : List Token) :
    run state (token :: tokens) = step state token >>= fun next => run next tokens :=
  List.foldlM_cons

theorem run_append_bind (state : State) (first rest : List Token) :
    run state (first ++ rest) = run state first >>= fun next => run next rest :=
  List.foldlM_append

theorem run_singleton (state : State) (token : Token) : run state [token] = step state token := by
  rw [run_cons_bind]
  exact bind_pure _

theorem run_cons {state next : State} {token : Token} (h : step state token = .ok next)
    (tokens : List Token) : run state (token :: tokens) = run next tokens := by
  rw [run_cons_bind, h]
  rfl

theorem run_append {state next : State} {tokens : List Token} (h : run state tokens = .ok next)
    (rest : List Token) : run state (tokens ++ rest) = run next rest := by
  rw [run_append_bind, h]
  rfl

/-- What follows tokens that the reader runs over is read from where the run ends. -/
theorem readFrom_append {state next : State} {first : List Token}
    (h : run state first = .ok next) (fault : Option LexicalFault) (rest : List Token) :
    readFrom state fault (first ++ rest) = readFrom next fault rest := by
  induction first generalizing state with
  | nil =>
    cases h
    rfl
  | cons token first ih =>
    cases hstep : step state token with
    | error error =>
      rw [run_cons_bind, hstep] at h
      cases h
    | ok next' =>
      rw [run_cons hstep] at h
      rw [List.cons_append, readFrom, hstep]
      exact ih h

theorem readFrom_of_run {state next : State} {tokens : List Token}
    (h : run state tokens = .ok next) : readFrom state none tokens = finish next := by
  have happend := readFrom_append h none []
  rwa [List.append_nil] at happend

/-- A bracket, a word and a comma open an operator's array. -/
theorem run_operator {word : String} {opening string comma : Token}
    (ho : opening.symbol = .opening) (hs : string.symbol = .string word)
    (hc : comma.symbol = .comma) (frames : List Frame) (rest : List Token) :
    run (.expecting frames) (opening :: string :: comma :: rest) =
      run (.expecting (.operand word :: frames)) rest := by
  rw [run_cons (step_opening ho frames), run_cons (step_string hs frames),
    run_cons (step_word hc word frames)]

/-- An element that has been read and the bracket after it. -/
theorem run_closed {e : Expr} {frames : List Frame} {state next : State} {tokens : List Token}
    {closing : Token} (hrun : run (.expecting frames) tokens = .ok state)
    (hholds : Holds e frames state) (hc : closing.symbol = .closing)
    (hnext : afterClosing closing e frames = .ok next) :
    run (.expecting frames) (tokens ++ [closing]) = .ok next := by
  rw [run_append hrun]
  exact run_cons ((step_closing hholds hc).trans hnext) []

/-! ## The run over an element -/

/-- Over tokens with these symbols, inside any open arrays, the reader reads the formula. -/
def Reads (symbols : List Symbol) (e : Expr) : Prop :=
  ∀ (frames : List Frame) (tokens : List Token), tokens.map Token.symbol = symbols →
    ∃ state, run (.expecting frames) tokens = .ok state ∧ Holds e frames state

theorem reads_const (value : Bool) : Reads [.bool value] (.const value) := by
  intro frames tokens hmap
  obtain ⟨token, rfl, ht⟩ := List.map_eq_singleton_iff.mp hmap
  exact ⟨.read (.const value) frames, run_cons (by simp only [step, ht]) [], .item rfl⟩

theorem reads_var {word : String} {name : Name} (hw : Name.ofText? word = some name) :
    Reads [.string word] (.var name) := by
  intro frames tokens hmap
  obtain ⟨token, rfl, ht⟩ := List.map_eq_singleton_iff.mp hmap
  have hformula : (Item.variable word).formula = .ok (.var name) := by
    simp only [Item.formula, hw]
  match frames with
  | .bracket :: frames =>
    exact ⟨.word word frames, run_cons (step_string ht frames) [], .word hformula⟩
  | [] | .operand _ :: _ | .second _ _ :: _ =>
    exact ⟨.read (.variable word) _, run_cons (by simp only [step, ht]) [], .item hformula⟩

theorem reads_group {symbols : List Symbol} {e : Expr} (h : Reads symbols e) :
    Reads (.opening :: (symbols ++ [.closing])) e := by
  intro frames tokens hmap
  obtain ⟨opening, rest, rfl, ho, hrest⟩ := List.map_eq_cons_iff.mp hmap
  obtain ⟨inner, last, rfl, hinner, hlast⟩ := List.map_eq_append_iff.mp hrest
  obtain ⟨closing, rfl, hc⟩ := List.map_eq_singleton_iff.mp hlast
  obtain ⟨state, hrun, hholds⟩ := h (.bracket :: frames) inner hinner
  refine ⟨.read (.group e) frames, ?_, .item rfl⟩
  rw [run_cons (step_opening ho frames)]
  exact run_closed hrun hholds hc rfl

theorem reads_unary {word : String} {symbols : List Symbol} {e : Expr}
    (hw : Operator.ofWord? word = some .not) (h : Reads symbols e) :
    Reads (.opening :: .string word :: .comma :: (symbols ++ [.closing])) (.not e) := by
  intro frames tokens hmap
  obtain ⟨opening, rest, rfl, ho, hrest⟩ := List.map_eq_cons_iff.mp hmap
  obtain ⟨string, rest, rfl, hs, hrest⟩ := List.map_eq_cons_iff.mp hrest
  obtain ⟨comma, rest, rfl, hcomma, hrest⟩ := List.map_eq_cons_iff.mp hrest
  obtain ⟨inner, last, rfl, hinner, hlast⟩ := List.map_eq_append_iff.mp hrest
  obtain ⟨closing, rfl, hc⟩ := List.map_eq_singleton_iff.mp hlast
  obtain ⟨state, hrun, hholds⟩ := h (.operand word :: frames) inner hinner
  refine ⟨.read (.unary word e) frames, ?_, .item (by simp only [Item.formula, hw])⟩
  rw [run_operator ho hs hcomma]
  exact run_closed hrun hholds hc rfl

theorem reads_binary {word : String} {c : Connective} {ls rs : List Symbol} {l r : Expr}
    (hw : Operator.ofWord? word = some (.bin c)) (hl : Reads ls l) (hr : Reads rs r) :
    Reads (.opening :: .string word :: .comma :: (ls ++ .comma :: (rs ++ [.closing])))
      (.bin c l r) := by
  intro frames tokens hmap
  obtain ⟨opening, rest, rfl, ho, hrest⟩ := List.map_eq_cons_iff.mp hmap
  obtain ⟨string, rest, rfl, hs, hrest⟩ := List.map_eq_cons_iff.mp hrest
  obtain ⟨comma, rest, rfl, hcomma, hrest⟩ := List.map_eq_cons_iff.mp hrest
  obtain ⟨left, rest, rfl, hleft, hrest⟩ := List.map_eq_append_iff.mp hrest
  obtain ⟨comma', rest, rfl, hcomma', hrest⟩ := List.map_eq_cons_iff.mp hrest
  obtain ⟨right, last, rfl, hright, hlast⟩ := List.map_eq_append_iff.mp hrest
  obtain ⟨closing, rfl, hc⟩ := List.map_eq_singleton_iff.mp hlast
  obtain ⟨state, hrun, hholds⟩ := hl (.operand word :: frames) left hleft
  obtain ⟨state', hrun', hholds'⟩ := hr (.second word l :: frames) right hright
  refine ⟨.read (.binary word l r) frames, ?_, .item (by simp only [Item.formula, hw])⟩
  rw [run_operator ho hs hcomma, run_append hrun, run_cons (step_comma hholds hcomma')]
  exact run_closed hrun' hholds' hc rfl

/-- **What the grammar derives, the reader reads.** -/
theorem reads_of_derives {symbols : List Symbol} {e : Expr} (h : Derives symbols e) :
    Reads symbols e := by
  induction h with
  | const value => exact reads_const value
  | var hw => exact reads_var hw
  | group _ ih => exact reads_group ih
  | unary hw _ ih => exact reads_unary hw ih
  | binary hw _ _ ihl ihr => exact reads_binary hw ihl ihr

/-! ## Reading a text -/

/-- A text without tokens derives nothing, so a text that derives a formula is not blank. -/
theorem not_blank_of_derives {text : String} {e : Expr} (h : Derives (scan text).symbols e) :
    text.toList.all Text.isBlank = false := by
  rw [← Bool.not_eq_true, List.all_eq_true]
  intro hblank
  have hnil : (scan text).symbols = [] := by
    rw [Scan.symbols, scan, scanFrom_of_blank hblank, List.map_nil]
  rw [hnil] at h
  cases h

/-- **Tokens whose symbols derive a formula are read as it.** -/
theorem readFrom_of_derives {tokens : List Token} {e : Expr}
    (h : Derives (tokens.map Token.symbol) e) : readFrom .initial none tokens = .ok e := by
  obtain ⟨state, hrun, hholds⟩ := reads_of_derives h [] tokens rfl
  rw [State.initial, readFrom_of_run hrun]
  cases hholds with
  | item hformula =>
    rw [finish, hformula]
    rfl

/-- **A text whose symbols derive a formula is read as it.** -/
theorem read_of_derives {text : String} {e : Expr} (hfault : (scan text).fault = none)
    (h : Derives (scan text).symbols e) : read text = .ok e := by
  rw [read, not_blank_of_derives h, if_neg Bool.false_ne_true]
  dsimp only
  rw [hfault]
  exact readFrom_of_derives h

end Propositional.Document
