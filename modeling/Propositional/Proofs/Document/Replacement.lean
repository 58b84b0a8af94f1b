import Propositional.Proofs.Document.Acceptance
import Propositional.Proofs.Document.Tiling

/-!
# Replacing a part of a document

What encodes a formula inside a document may be replaced by anything else that encodes the same
formula, and the document is read as before. The reader is in one state before the part, whatever
the part is; after it, it is in one of the two states in which it holds the formula. The two differ
only where a comma may follow a string and make it the word of an operator. But a word that is taken
in that way is looked at in the end (`isOperator_of_readFrom`), and the name of a variable does not
pass.

Results:
* `readFrom_of_holds`: what can be read after a formula does not depend on how it is held.
* `derives_replace`: a part of the symbols may be replaced.
* `read_replace`: a part of the text may be replaced.
-/

namespace Propositional.Document

/-! ## Words that are still to be looked at -/

/-- The word names an operator. -/
def IsOperator (word : String) : Prop :=
  ∃ o, Operator.ofWord? word = some o

/-- The word that an open array started with, if it has one. -/
def Frame.words : Frame → List String
  | .bracket => []
  | .operand word | .second word _ => [word]

/-- The word that the array of an element started with, if it has one. -/
def Item.words : Item → List String
  | .unary word _ | .binary word _ _ => [word]
  | .const _ | .variable _ | .group _ => []

/-- The words of the arrays that have not been looked at. -/
def State.words : State → List String
  | .expecting frames | .word _ frames => frames.flatMap Frame.words
  | .read item frames => item.words ++ frames.flatMap Frame.words

theorem isOperator_of_formula {item : Item} {e : Expr} {word : String} (h : item.formula = .ok e)
    (hw : word ∈ item.words) : IsOperator word := by
  match item with
  | .const _ | .variable _ | .group _ => cases hw
  | .unary first operand =>
    obtain rfl := List.mem_singleton.mp hw
    simp only [Item.formula] at h
    split at h
    · next hword => exact ⟨_, hword⟩
    · cases h
  | .binary first left right =>
    obtain rfl := List.mem_singleton.mp hw
    simp only [Item.formula] at h
    split at h
    · next hword => exact ⟨_, hword⟩
    · cases h

theorem words_afterComma {token : Token} {e : Expr} {frames : List Frame} {next : State}
    (h : afterComma token e frames = .ok next) {word : String}
    (hw : word ∈ frames.flatMap Frame.words) : word ∈ next.words := by
  unfold afterComma at h
  split at h
  · cases h
    exact hw
  · cases h

theorem words_afterClosing {token : Token} {e : Expr} {frames : List Frame} {next : State}
    (h : afterClosing token e frames = .ok next) {word : String}
    (hw : word ∈ frames.flatMap Frame.words) : word ∈ next.words := by
  unfold afterClosing at h
  split at h <;> cases h
  all_goals exact hw

/-- **One more token**: a word stays to be looked at, or it has been found to name an operator. -/
theorem words_step {state next : State} {token : Token} (h : step state token = .ok next)
    {word : String} (hw : word ∈ state.words) : word ∈ next.words ∨ IsOperator word := by
  cases state with
  | expecting frames =>
    left
    cases hs : token.symbol with
    | opening =>
      rw [step_opening hs] at h
      cases h
      exact hw
    | bool value =>
      simp only [step, hs] at h
      cases h
      exact hw
    | string first =>
      unfold step at h
      rw [hs] at h
      rcases frames with _ | ⟨_ | _ | _, frames⟩
      all_goals
        cases h
        exact hw
    | closing | comma =>
      simp only [step, hs] at h
      cases h
  | word first frames =>
    left
    cases hs : token.symbol with
    | comma =>
      rw [step_word hs] at h
      cases h
      exact List.mem_cons_of_mem first hw
    | closing =>
      simp only [step, hs] at h
      obtain ⟨e, -, hnext⟩ := exists_ok_of_bind h
      exact words_afterClosing hnext hw
    | opening | string | bool =>
      simp only [step, hs] at h
      cases h
  | read item frames =>
    cases hs : token.symbol with
    | comma =>
      simp only [step, hs] at h
      obtain ⟨e, he, hnext⟩ := exists_ok_of_bind h
      rcases List.mem_append.mp hw with hitem | hframes
      · exact .inr (isOperator_of_formula he hitem)
      · exact .inl (words_afterComma hnext hframes)
    | closing =>
      simp only [step, hs] at h
      obtain ⟨e, he, hnext⟩ := exists_ok_of_bind h
      rcases List.mem_append.mp hw with hitem | hframes
      · exact .inr (isOperator_of_formula he hitem)
      · exact .inl (words_afterClosing hnext hframes)
    | opening | string | bool =>
      simp only [step, hs] at h
      cases h

/-- **A word that is taken for an operator's is one**, if a formula is read in the end. -/
theorem isOperator_of_readFrom {state : State} {fault : Option LexicalFault} {tokens : List Token}
    {e : Expr} (h : readFrom state fault tokens = .ok e) {word : String}
    (hw : word ∈ state.words) : IsOperator word := by
  induction tokens generalizing state with
  | nil =>
    cases fault with
    | some fault => cases h
    | none =>
      cases state with
      | expecting | word => cases h
      | read item frames =>
        obtain ⟨e', he, hend⟩ := exists_ok_of_bind h
        rcases List.mem_append.mp hw with hitem | hframes
        · exact isOperator_of_formula he hitem
        · cases frames with
          | nil => cases hframes
          | cons => cases hend
  | cons token tokens ih =>
    obtain ⟨next, hs, hread⟩ := exists_step_of_readFrom h
    rcases words_step hs hw with hnext | hword
    · exact ih hread hnext
    · exact hword

/-! ## What can be read after a formula -/

theorem not_isOperator_of_variable {word : String} {e : Expr}
    (h : (Item.variable word).formula = .ok e) : ¬ IsOperator word := by
  rintro ⟨o, ho⟩
  simp only [Item.formula] at h
  split at h
  · next name hname =>
    have hnone := name.notReserved
    rw [Name.text_of_ofText? hname, ho] at hnone
    cases hnone
  · cases h

/-- A formula may be held as a string that a comma would make an operator's word. Then the comma is
refused, or the word in the end. -/
theorem step_of_holds {f e : Expr} {frames : List Frame} {state other next : State}
    (h : Holds f frames state) (h' : Holds f frames other) {fault : Option LexicalFault}
    {token : Token} {tokens : List Token} (hs : step state token = .ok next)
    (hread : readFrom next fault tokens = .ok e) : step other token = .ok next := by
  cases ht : token.symbol with
  | closing => rw [step_closing h' ht, ← step_closing h ht, hs]
  | comma =>
    cases h with
    | item hf =>
      have hcomma := hs
      simp only [step, ht, hf] at hcomma
      rcases frames with _ | ⟨_ | word | _, frames⟩
      case cons.operand => rw [step_comma h' ht, ← step_comma (.item hf) ht, hs]
      all_goals cases hcomma
    | word hf =>
      rw [step_word ht] at hs
      cases hs
      have hword := isOperator_of_readFrom hread List.mem_cons_self
      exact absurd hword (not_isOperator_of_variable hf)
  | opening | string | bool =>
    cases h <;> simp only [step, ht] at hs <;> cases hs

/-- **What can be read after a formula does not depend on how it is held.** -/
theorem readFrom_of_holds {f e : Expr} {frames : List Frame} {state other : State}
    (h : Holds f frames state) (h' : Holds f frames other) {fault : Option LexicalFault}
    {tokens : List Token} (hread : readFrom state fault tokens = .ok e) :
    readFrom other fault tokens = .ok e := by
  cases tokens with
  | nil =>
    cases fault with
    | some fault => cases hread
    | none =>
      cases h with
      | word => cases hread
      | item hf =>
        obtain ⟨e', he', hend⟩ := exists_ok_of_bind hread
        rw [hf] at he'
        cases he'
        cases frames with
        | cons => cases hend
        | nil =>
          cases h' with
          | item hf' =>
            rw [readFrom, finish, hf']
            exact hend
  | cons token tokens =>
    obtain ⟨next, hs, hnext⟩ := exists_step_of_readFrom hread
    rw [readFrom, step_of_holds h h' hs hnext]
    exact hnext

/-! ## Replacing symbols -/

/-- Reading is a run over the first tokens and reading from there on. -/
theorem exists_run_of_readFrom {state : State} {fault : Option LexicalFault}
    {first rest : List Token} {e : Expr} (h : readFrom state fault (first ++ rest) = .ok e) :
    ∃ next, run state first = .ok next ∧ readFrom next fault rest = .ok e := by
  induction first generalizing state with
  | nil => exact ⟨state, rfl, h⟩
  | cons token first ih =>
    obtain ⟨next, hs, hread⟩ := exists_step_of_readFrom h
    rw [run_cons hs]
    exact ih hread

/-- No formula starts with a comma or a closing bracket. -/
theorem exists_first_of_derives {symbols : List Symbol} {e : Expr} (h : Derives symbols e) :
    ∃ first rest, symbols = first :: rest ∧ first ≠ .closing ∧ first ≠ .comma := by
  cases h with
  | const | var | group | unary | binary => exact ⟨_, _, rfl, nofun, nofun⟩

theorem expecting_of_step {state next : State} {token : Token} (h : step state token = .ok next)
    (hclosing : token.symbol ≠ .closing) (hcomma : token.symbol ≠ .comma) :
    ∃ frames, state = .expecting frames := by
  cases state with
  | expecting frames => exact ⟨frames, rfl⟩
  | word | read =>
    cases ht : token.symbol with
    | closing => exact absurd ht hclosing
    | comma => exact absurd ht hcomma
    | opening | string | bool =>
      simp only [step, ht] at h
      cases h

/-- Where the reader meets a formula an element is expected. -/
theorem expecting_of_readFrom {state : State} {fault : Option LexicalFault}
    {tokens rest : List Token} {e f : Expr} (h : readFrom state fault (tokens ++ rest) = .ok e)
    (hd : Derives (tokens.map Token.symbol) f) : ∃ frames, state = .expecting frames := by
  obtain ⟨first, symbols, hmap, hclosing, hcomma⟩ := exists_first_of_derives hd
  obtain ⟨token, tokens, rfl, rfl, -⟩ := List.map_eq_cons_iff.mp hmap
  obtain ⟨next, hs, -⟩ := exists_step_of_readFrom h
  exact expecting_of_step hs hclosing hcomma

/-- Symbols as tokens. Where they stand makes no difference to what is read. -/
def tokensOf (symbols : List Symbol) : List Token :=
  symbols.map (⟨·, 0, 0⟩)

theorem map_symbol_tokensOf (symbols : List Symbol) :
    (tokensOf symbols).map Token.symbol = symbols := by
  rw [tokensOf, List.map_map]
  exact List.map_id symbols

/-- **A part that encodes a formula may be replaced** by anything that encodes the same formula. -/
theorem derives_replace {before part other after : List Symbol} {e f : Expr}
    (hpart : Derives part f) (hother : Derives other f)
    (h : Derives (before ++ (part ++ after)) e) : Derives (before ++ (other ++ after)) e := by
  have hmap (symbols : List Symbol) : (tokensOf before ++ (tokensOf symbols ++ tokensOf after)).map
      Token.symbol = before ++ (symbols ++ after) := by
    simp only [List.map_append, map_symbol_tokensOf]
  rw [← hmap part] at h
  obtain ⟨state, hbefore, hread⟩ := exists_run_of_readFrom (readFrom_of_derives h)
  rw [← map_symbol_tokensOf part] at hpart
  obtain ⟨frames, rfl⟩ := expecting_of_readFrom hread hpart
  obtain ⟨state, hrun, hholds⟩ := reads_of_derives hpart frames (tokensOf part) rfl
  obtain ⟨state', hrun', hholds'⟩ :=
    reads_of_derives hother frames (tokensOf other) (map_symbol_tokensOf other)
  rw [readFrom_append hrun] at hread
  have hread' := readFrom_of_holds hholds hholds' hread
  rw [← readFrom_append hrun', ← readFrom_append hbefore] at hread'
  have hd := (derives_of_readFrom hread' (.expecting .nil)).2
  rwa [List.nil_append, hmap] at hd

/-! ## Replacing text -/

theorem read_eq_ok_iff_tiles {text : String} {e : Expr} :
    read text = .ok e ↔ ∃ symbols, Tiles text.toList symbols ∧ Derives symbols e := by
  rw [read_eq_ok_iff]
  constructor
  · rintro ⟨hfault, hd⟩
    exact ⟨_, tiles_scanFrom hfault, hd⟩
  · rintro ⟨symbols, htiles, hd⟩
    obtain ⟨hfault, rfl⟩ := (scanFrom_eq_iff_tiles 0).mpr htiles
    exact ⟨hfault, hd⟩

/-- Behind a row the rest of a row is a row. -/
theorem exists_of_tiles_text_append {a b : List Char} {as symbols : List Symbol} (ha : Tiles a as)
    (h : Tiles (a ++ b) symbols) : ∃ bs, symbols = as ++ bs ∧ Tiles b bs := by
  obtain ⟨tokens, next, rfl, hscan⟩ := spells_of_tiles ha 0 b
  obtain ⟨hfault, rfl⟩ := (scanFrom_eq_iff_tiles 0).mpr h
  rw [hscan] at hfault ⊢
  exact ⟨_, List.map_append, tiles_scanFrom hfault⟩

/-- **A part of a text that encodes a formula may be replaced** by any other text that encodes it.
The text before the part must not end inside a literal. -/
theorem read_replace {before part other after : String} {e f : Expr}
    (hbefore : (scan before).fault = none) (hpart : read part = .ok f) (hother : read other = .ok f)
    (h : read (before ++ part ++ after) = .ok e) : read (before ++ other ++ after) = .ok e := by
  rw [read_eq_ok_iff_tiles] at hpart hother h ⊢
  obtain ⟨ps, hps, hdp⟩ := hpart
  obtain ⟨os, hos, hdo⟩ := hother
  obtain ⟨symbols, htiles, hd⟩ := h
  simp only [String.toList_append, List.append_assoc] at htiles ⊢
  have hbs := tiles_scanFrom hbefore
  obtain ⟨rest, rfl, hrest⟩ := exists_of_tiles_text_append hbs htiles
  obtain ⟨as, rfl, has⟩ := exists_of_tiles_text_append hps hrest
  exact ⟨_, tiles_append hbs (tiles_append hos has), derives_replace hdp hdo hd⟩

end Propositional.Document
