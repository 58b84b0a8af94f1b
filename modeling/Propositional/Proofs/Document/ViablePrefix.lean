import Propositional.Proofs.Document.Acceptance
import Propositional.Proofs.Document.Stopping

/-!
# Syntax errors come at the first possible token

The shape of a document is the grammar without its words: any string may name a variable or an
operator. Some symbols are *viable* if they can be continued to a document of the right shape. The
reader reports a token as soon as the symbols up to it are not viable, although it turns an element
into a formula only after it has seen the token behind it.

What the reader has read is always viable, since its open arrays can be closed
(`viable_of_reached`). Conversely a run over the symbols of a shape comes through or stops at a word
(`passes_of_shaped`), so nothing viable is reported as a syntax error.

Results:
* `passes_of_shaped`: the run over an element, whatever its words.
* `viable_of_reached`: what has been read can be continued.
* `aboutWord_of_viable`: over viable symbols the reader stops at words only.
* `stops_at_first_possible_token`: a syntax error comes at the first token that no document
  continues with, and the end of the text is reported only where a document could go on and is not
  complete.
-/

namespace Propositional.Document

/-! ## Shapes -/

/-- The symbols have the shape of an element. The words are not looked at. -/
inductive Shaped : List Symbol → Prop
  | bool (value : Bool) : Shaped [.bool value]
  | string (word : String) : Shaped [.string word]
  | group {symbols : List Symbol} (h : Shaped symbols) :
      Shaped (.opening :: (symbols ++ [.closing]))
  | unary {symbols : List Symbol} (word : String) (h : Shaped symbols) :
      Shaped (.opening :: .string word :: .comma :: (symbols ++ [.closing]))
  | binary {ls rs : List Symbol} (word : String) (hl : Shaped ls) (hr : Shaped rs) :
      Shaped (.opening :: .string word :: .comma :: (ls ++ .comma :: (rs ++ [.closing])))

/-- The symbols are the first ones of a document of the right shape. -/
def Viable (symbols : List Symbol) : Prop :=
  ∃ rest, Shaped (symbols ++ rest)

theorem Viable.of_isPrefix {first symbols : List Symbol} (h : Viable symbols)
    (hfirst : first <+: symbols) : Viable first := by
  obtain ⟨more, hshaped⟩ := h
  obtain ⟨rest, rfl⟩ := hfirst
  exact ⟨rest ++ more, by rwa [← List.append_assoc]⟩

theorem viable_of_shaped {symbols : List Symbol} (h : Shaped symbols) : Viable symbols :=
  ⟨[], by rwa [List.append_nil]⟩

theorem shaped_of_derives {symbols : List Symbol} {e : Expr} (h : Derives symbols e) :
    Shaped symbols := by
  induction h with
  | const value => exact .bool value
  | var => exact .string _
  | group _ ih => exact .group ih
  | unary _ _ ih => exact .unary _ ih
  | binary _ _ _ ihl ihr => exact .binary _ ihl ihr

theorem shaped_of_covers {item : Item} {symbols : List Symbol} (h : Covers item symbols) :
    Shaped symbols := by
  cases h with
  | const value => exact .bool value
  | string word => exact .string word
  | group h => exact .group (shaped_of_derives h)
  | unary word h => exact .unary word (shaped_of_derives h)
  | binary word hl hr => exact .binary word (shaped_of_derives hl) (shaped_of_derives hr)

/-! ## What has been read can be continued -/

/-- Open arrays can be closed around any element. -/
theorem viable_of_opened {frames : List Frame} {before symbols : List Symbol}
    (ho : Opened frames before) (h : Shaped symbols) : Viable (before ++ symbols) := by
  induction ho generalizing symbols with
  | nil => exact viable_of_shaped h
  | bracket _ ih => exact (ih (.group h)).of_isPrefix ⟨[.closing], by simp⟩
  | operand word _ ih => exact (ih (.unary word h)).of_isPrefix ⟨[.closing], by simp⟩
  | second word _ hl ih =>
    exact (ih (.binary word (shaped_of_derives hl) h)).of_isPrefix ⟨[.closing], by simp⟩

/-- **What has been read can be continued.** -/
theorem viable_of_reached {state : State} {symbols : List Symbol} (h : Reached state symbols) :
    Viable symbols := by
  cases h with
  | expecting ho => exact (viable_of_opened ho (.bool true)).of_isPrefix (List.prefix_append _ _)
  | word word ho =>
    exact (viable_of_opened ho (.group (.string word))).of_isPrefix ⟨[.closing], by simp⟩
  | read ho hi => exact viable_of_opened ho (shaped_of_covers hi)

theorem reached_run {state next : State} {tokens : List Token} {before : List Symbol}
    (h : run state tokens = .ok next) (hr : Reached state before) :
    Reached next (before ++ tokens.map Token.symbol) := by
  induction tokens generalizing state before with
  | nil =>
    cases h
    rwa [List.map_nil, List.append_nil]
  | cons token tokens ih =>
    rw [run_cons_bind] at h
    obtain ⟨state', hstep, hrun⟩ := exists_ok_of_bind h
    have hreached := ih hrun (reached_step hstep hr)
    rwa [List.append_assoc] at hreached

theorem viable_of_run {state : State} {tokens : List Token} (h : run .initial tokens = .ok state) :
    Viable (tokens.map Token.symbol) :=
  viable_of_reached (reached_run h (.expecting .nil))

/-! ## Runs that come through -/

/-- The result is as described, unless a word is wrong. -/
inductive Passes (P : State → Prop) : Except Error State → Prop
  | ok {state : State} (h : P state) : Passes P (.ok state)
  | stops {error : Error} (h : AboutWord error) : Passes P (.error error)

theorem Passes.bind {P Q : State → Prop} {result : Except Error State}
    {next : State → Except Error State} (h : Passes P result)
    (hnext : ∀ state, P state → Passes Q (next state)) : Passes Q (result >>= next) := by
  cases h with
  | ok h => exact hnext _ h
  | stops h => exact .stops h

theorem passes_formula {P : State → Prop} {item : Item} {next : Expr → Except Error State}
    (hnext : ∀ e, Passes P (next e)) : Passes P (item.formula >>= next) := by
  cases h : item.formula with
  | error error => exact .stops (aboutWord_of_formula h)
  | ok e => exact hnext e

/-! ## The run over a shape -/

/-- An element has been read inside the given open arrays, and its words have not been looked at. -/
inductive Finished : List Frame → State → Prop
  | item (item : Item) (frames : List Frame) : Finished frames (.read item frames)
  | word (word : String) (frames : List Frame) : Finished (.bracket :: frames) (.word word frames)

/-- A string is an element; right after a bracket it may still become the word of an operator. -/
theorem exists_step_string {token : Token} {word : String} (ht : token.symbol = .string word)
    (frames : List Frame) :
    ∃ next, step (.expecting frames) token = .ok next ∧ Finished frames next := by
  match frames with
  | .bracket :: frames => exact ⟨_, step_string ht frames, .word word frames⟩
  | [] | .operand _ :: _ | .second _ _ :: _ =>
    exact ⟨.read (.variable word) _, by simp only [step, ht], .item _ _⟩

/-- A bracket closes the array that an element stands in. -/
theorem passes_closing {frame : Frame} {frames : List Frame} {state : State}
    (h : Finished (frame :: frames) state) {closing : Token} (hc : closing.symbol = .closing) :
    Passes (Finished frames) (step state closing) := by
  have hclosed : ∀ e, Passes (Finished frames) (afterClosing closing e (frame :: frames)) := by
    intro e
    cases frame <;> exact .ok (.item _ _)
  cases h with
  | item item =>
    simp only [step, hc]
    exact passes_formula hclosed
  | word word =>
    simp only [step, hc]
    exact passes_formula hclosed

/-- A comma is taken after the first operand. -/
theorem passes_comma {word : String} {frames : List Frame} {state : State}
    (h : Finished (.operand word :: frames) state) {comma : Token} (hc : comma.symbol = .comma) :
    Passes (fun next => ∃ left, next = .expecting (.second word left :: frames))
      (step state comma) := by
  cases h with
  | item item =>
    simp only [step, hc]
    exact passes_formula fun e => .ok ⟨e, rfl⟩

/-- An element and the bracket that closes the array it stands in. -/
theorem passes_closed {frame : Frame} {frames : List Frame} {tokens : List Token}
    {symbols : List Symbol}
    (ih : ∀ {tokens : List Token}, tokens.map Token.symbol = symbols →
      Passes (Finished (frame :: frames)) (run (.expecting (frame :: frames)) tokens))
    (hmap : tokens.map Token.symbol = symbols ++ [.closing]) :
    Passes (Finished frames) (run (.expecting (frame :: frames)) tokens) := by
  obtain ⟨inner, last, rfl, hinner, hlast⟩ := List.map_eq_append_iff.mp hmap
  obtain ⟨closing, rfl, hc⟩ := List.map_eq_singleton_iff.mp hlast
  rw [run_append_bind]
  refine (ih hinner).bind fun state hfinished => ?_
  rw [run_singleton]
  exact passes_closing hfinished hc

/-- **The reader comes through a shape, or stops at a word.** -/
theorem passes_of_shaped {symbols : List Symbol} (h : Shaped symbols) {frames : List Frame}
    {tokens : List Token} (hmap : tokens.map Token.symbol = symbols) :
    Passes (Finished frames) (run (.expecting frames) tokens) := by
  induction h generalizing frames tokens with
  | bool value =>
    obtain ⟨token, rfl, ht⟩ := List.map_eq_singleton_iff.mp hmap
    have hstep : step (.expecting frames) token = .ok (.read (.const value) frames) := by
      simp only [step, ht]
    rw [run_cons hstep]
    exact .ok (.item _ _)
  | string word =>
    obtain ⟨token, rfl, ht⟩ := List.map_eq_singleton_iff.mp hmap
    obtain ⟨next, hstep, hfinished⟩ := exists_step_string ht frames
    rw [run_cons hstep]
    exact .ok hfinished
  | group _ ih =>
    obtain ⟨opening, rest, rfl, ho, hrest⟩ := List.map_eq_cons_iff.mp hmap
    rw [run_cons (step_opening ho frames)]
    exact passes_closed ih hrest
  | unary word _ ih =>
    obtain ⟨opening, rest, rfl, ho, hrest⟩ := List.map_eq_cons_iff.mp hmap
    obtain ⟨string, rest, rfl, hs, hrest⟩ := List.map_eq_cons_iff.mp hrest
    obtain ⟨comma, rest, rfl, hcomma, hrest⟩ := List.map_eq_cons_iff.mp hrest
    rw [run_operator ho hs hcomma]
    exact passes_closed ih hrest
  | binary word _ _ ihl ihr =>
    obtain ⟨opening, rest, rfl, ho, hrest⟩ := List.map_eq_cons_iff.mp hmap
    obtain ⟨string, rest, rfl, hs, hrest⟩ := List.map_eq_cons_iff.mp hrest
    obtain ⟨comma, rest, rfl, hcomma, hrest⟩ := List.map_eq_cons_iff.mp hrest
    obtain ⟨left, rest, rfl, hleft, hrest⟩ := List.map_eq_append_iff.mp hrest
    obtain ⟨comma', rest, rfl, hcomma', hrest⟩ := List.map_eq_cons_iff.mp hrest
    rw [run_operator ho hs hcomma, run_append_bind]
    refine (ihl hleft).bind fun state hfinished => ?_
    rw [run_cons_bind]
    refine (passes_comma hfinished hcomma').bind ?_
    rintro _ ⟨e, rfl⟩
    exact passes_closed ihr hrest

/-- **Over viable symbols the reader stops at words only.** -/
theorem aboutWord_of_viable {tokens : List Token} {error : Error}
    (hviable : Viable (tokens.map Token.symbol)) (h : run .initial tokens = .error error) :
    AboutWord error := by
  obtain ⟨more, hshaped⟩ := hviable
  -- Any tokens with the missing symbols will do.
  have hmap : (tokens ++ more.map fun symbol => Token.mk symbol 0 0).map Token.symbol =
      tokens.map Token.symbol ++ more := by
    simp [Function.comp_def]
  have hpasses : Passes (Finished []) (run .initial (tokens ++ _)) :=
    passes_of_shaped hshaped hmap
  rw [run_append_bind, h] at hpasses
  cases hpasses with
  | stops hword => exact hword

/-! ## Where reading stops -/

/-- Where an element has been read outside all arrays, only its words are left to look at. -/
theorem aboutWord_of_finished {state : State} {error : Error} (h : Finished [] state)
    (hfinish : finish state = .error error) : AboutWord error := by
  cases h with
  | item item =>
    cases hf : item.formula with
    | error error' =>
      rw [finish, hf] at hfinish
      cases hfinish
      exact aboutWord_of_formula hf
    | ok e =>
      rw [finish, hf] at hfinish
      cases hfinish

/-- **A token is reported as soon as no document continues with it.** -/
theorem not_viable_of_unexpected {fault : Option LexicalFault} {tokens : List Token} {token : Token}
    (h : readFrom .initial fault tokens = .error (.unexpected token)) :
    ∃ before after, tokens = before ++ token :: after ∧ Viable (before.map Token.symbol) ∧
      ¬ Viable ((before ++ [token]).map Token.symbol) := by
  rcases cases_of_readFrom h with ⟨before, token', after, next, rfl, hrun, hstep⟩ | ⟨next, -, hend⟩
  · obtain rfl : token = token' := by
      rcases eq_or_aboutWord_of_step hstep with heq | hword
      · exact Error.unexpected.inj heq
      · cases hword
    refine ⟨before, after, rfl, viable_of_run hrun, fun hviable => ?_⟩
    have herror : run .initial (before ++ [token]) = .error (.unexpected token) := by
      rw [run_append hrun, run_singleton, hstep]
    cases aboutWord_of_viable hviable herror
  · rcases cases_of_end hend with ⟨f, -, heq⟩ | ⟨-, hfinish⟩
    · cases heq
    · rcases eq_or_aboutWord_of_finish hfinish with heq | hword
      · cases heq
      · cases hword

/-- **The end is reported only where a document could go on and is not complete.** -/
theorem not_shaped_of_unexpectedEnd {fault : Option LexicalFault} {tokens : List Token}
    (h : readFrom .initial fault tokens = .error .unexpectedEnd) :
    fault = none ∧ Viable (tokens.map Token.symbol) ∧ ¬ Shaped (tokens.map Token.symbol) := by
  rcases cases_of_readFrom h with ⟨before, token, after, next, rfl, -, hstep⟩ | ⟨next, hrun, hend⟩
  · rcases eq_or_aboutWord_of_step hstep with heq | hword
    · cases heq
    · cases hword
  · rcases cases_of_end hend with ⟨f, -, heq⟩ | ⟨hnone, hfinish⟩
    · cases heq
    · refine ⟨hnone, viable_of_run hrun, fun hshaped => ?_⟩
      have hpasses : Passes (Finished []) (run .initial tokens) := passes_of_shaped hshaped rfl
      rw [hrun] at hpasses
      cases hpasses with
      | ok hfinished => cases aboutWord_of_finished hfinished hfinish

/-- **The first token that no document continues with is reported**, unless a word before it is. -/
theorem exists_error_of_not_viable {fault : Option LexicalFault} {before after : List Token}
    {token : Token} (hbefore : Viable (before.map Token.symbol))
    (htoken : ¬ Viable ((before ++ [token]).map Token.symbol)) :
    ∃ error, readFrom .initial fault (before ++ token :: after) = .error error ∧
      (error = .unexpected token ∨ AboutWord error) := by
  cases hrun : run .initial before with
  | error error =>
    exact ⟨error, readFrom_of_run_error hrun fault _, Or.inr (aboutWord_of_viable hbefore hrun)⟩
  | ok state =>
    cases hstep : step state token with
    | ok next =>
      have hnext : run .initial (before ++ [token]) = .ok next := by
        rw [run_append hrun, run_singleton, hstep]
      exact (htoken (viable_of_run hnext)).elim
    | error error =>
      refine ⟨error, ?_, eq_or_aboutWord_of_step hstep⟩
      rw [readFrom_append hrun, readFrom, hstep]

/-- **Syntax errors come at the first possible token.** If a token is reported, the symbols before
it are the first ones of some document, whatever its words, and with the token they are not. If the
end is reported, all symbols of the text are the first ones of a document and not a whole one.
Conversely the first token with which the symbols are not viable is reported, unless a word before
it is. -/
theorem stops_at_first_possible_token (text : String) :
    (∀ token, read text = .error (.unexpected token) →
      ∃ before after, (scan text).tokens = before ++ token :: after ∧
        Viable (before.map Token.symbol) ∧ ¬ Viable ((before ++ [token]).map Token.symbol)) ∧
    (read text = .error .unexpectedEnd →
      (scan text).fault = none ∧ Viable (scan text).symbols ∧ ¬ Shaped (scan text).symbols) ∧
    ∀ before token after, (scan text).tokens = before ++ token :: after →
      Viable (before.map Token.symbol) → ¬ Viable ((before ++ [token]).map Token.symbol) →
        ∃ error, read text = .error error ∧ (error = .unexpected token ∨ AboutWord error) := by
  refine ⟨fun token h => not_viable_of_unexpected (readFrom_of_read h nofun),
    fun h => not_shaped_of_unexpectedEnd (readFrom_of_read h nofun),
    fun before token after htokens hb ht => ?_⟩
  have hne : (scan text).tokens ≠ [] := by
    rw [htokens]
    exact List.append_ne_nil_of_right_ne_nil before (List.cons_ne_nil token after)
  rw [read_of_tokens hne, htokens]
  exact exists_error_of_not_viable hb ht

/-- A lone element takes no comma, and an operator's array has to be closed. -/
theorem comma_after_lone_element :
    (∃ before after, (scan "[true, \"p\"]").tokens = before ++ ⟨.comma, 5, 6⟩ :: after ∧
      Viable (before.map Token.symbol) ∧
      ¬ Viable ((before ++ [⟨.comma, 5, 6⟩]).map Token.symbol)) ∧
    (scan "[\"NOT\", \"p\"").fault = none ∧ Viable (scan "[\"NOT\", \"p\"").symbols ∧
      ¬ Shaped (scan "[\"NOT\", \"p\"").symbols := by
  have hscan : scan "[true, \"p\"]" =
      ⟨[⟨.opening, 0, 1⟩, ⟨.bool true, 1, 5⟩, ⟨.comma, 5, 6⟩, ⟨.string "p", 7, 10⟩,
        ⟨.closing, 10, 11⟩], none⟩ := by cbv
  have hscan' : scan "[\"NOT\", \"p\"" =
      ⟨[⟨.opening, 0, 1⟩, ⟨.string "NOT", 1, 6⟩, ⟨.comma, 6, 7⟩, ⟨.string "p", 8, 11⟩], none⟩ := by
    cbv
  have hcomma : read "[true, \"p\"]" = .error (.unexpected ⟨.comma, 5, 6⟩) := by
    rw [read_of_tokens (by rw [hscan]; exact List.cons_ne_nil _ _), hscan]
    rfl
  have hend : read "[\"NOT\", \"p\"" = .error .unexpectedEnd := by
    rw [read_of_tokens (by rw [hscan']; exact List.cons_ne_nil _ _), hscan']
    rfl
  exact ⟨(stops_at_first_possible_token _).1 _ hcomma, (stops_at_first_possible_token _).2.1 hend⟩

end Propositional.Document
