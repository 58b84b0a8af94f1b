import Propositional.Proofs.Session.Calls
import Propositional.Proofs.Session.Recent

/-!
# Answers do not depend on what is remembered

A session answers questions one after another and remembers results between and within them. Its
answers are those of the plain definitions, which remember nothing, in every session and whatever
was asked before: each table holds right results only, since its entries carry the proof. What a
whole run adds to that is `Sound`: the results kept stay within their bound, so results are given up
once more formulas than that have been simplified, and every step noted on the way is right, also
those of the calls that simplifying and comparing make of each other.

The two call each other; that a session stays sound is shown for the parts of these calls
(`followsCalls_sound`), and so it holds of every call.

Results:
* `sound_ask`: one question keeps a session sound.
* `answers_askAll`, `sound_askAll`: a whole run gives the plain answers and keeps it sound.
* `remembering_changes_no_answer`: both together.
-/

namespace Propositional

/-! ## Sound sessions -/

/-- The step is one of the plain definitions. -/
def Step.Right : Step → Prop
  | .simplified before after => after = before.simplify
  | .compared left right verdict =>
    (∃ a b : Expr, left = a.simplify ∧ right = b.simplify) ∧ verdict = Expr.verdict left right
  | .startedNnf _ => True
  | .finishedNnf before after => after = before.toNnf
  | .finishedDnf before after => before.toDnf = .ok after

namespace Session

/-- No more results are kept than there may be, and every step that was noted is right. -/
structure Sound (session : Session) : Prop where
  bounded : session.results.Bounded
  right : ∀ step ∈ session.steps, step.Right

theorem sound_initial : Sound initial where
  bounded := Recent.bounded_empty
  right := nofun

variable {session : Session}

theorem Sound.note (h : session.Sound) {step : Step} (hstep : step.Right) :
    (session.note step).Sound where
  bounded := h.bounded
  right := by
    intro other hmem
    rw [steps, List.mem_reverse, Session.note] at hmem
    rcases List.mem_cons.mp hmem with rfl | hmem
    · exact hstep
    · exact h.right other (List.mem_reverse.mpr hmem)

theorem Sound.keep (h : session.Sound) {results : Recent Expr.simplify} (hr : results.Bounded) :
    Sound { session with results } where
  bounded := hr
  right := h.right

/-! ## Simplifying and comparing -/

/-- Looking results up, keeping them and noting what was done, a session stays sound. -/
theorem followsCalls_sound :
    FollowsCalls (fun _ s t => s.Sound → t.Sound) (fun _ _ s t => s.Sound → t.Sound) where
  refl _ _ h := h
  trans hst htu h := htu (hst h)
  lookup hlookup h := h.keep (h.bounded.lookup hlookup)
  ask _ _ h := h
  finish {e _ _} r h hs := by
    have hstep : Step.Right (.simplified e r.1) := r.2
    have hnote := (h hs).note hstep
    exact hnote.keep (hnote.bounded.remember e r)
  compare {a b _ _ _} l r hl hr h := (hr (hl h)).note ⟨⟨a, b, l.2, r.2⟩, rfl⟩

theorem sound_judge (a b : Expr) (h : session.Sound) : (judge a b session).2.Sound :=
  followsCalls_sound.judge a b session h

theorem sound_simplify (e : Expr) (h : session.Sound) : (simplify e session).2.Sound :=
  followsCalls_sound.simplify e session h

/-! ## Normal forms -/

theorem sound_toNnf (e : Expr) (h : session.Sound) : (toNnf e session).2.Sound := by
  have hstarted : Step.Right (.startedNnf e) := trivial
  have hfinished : Step.Right (.finishedNnf e (visitNnf e ∅).1.1) := (visitNnf e ∅).1.2
  exact (h.note hstarted).note hfinished

theorem sound_toDnf (e : Expr) (h : session.Sound) : (toDnf e session).2.Sound := by
  have hsimple := sound_simplify (toNnf e session).1.1 (sound_toNnf e h)
  have hvalue := value_toDnf e session
  unfold toDnf at hvalue ⊢
  dsimp only at hvalue ⊢
  split
  · next dnf hdnf =>
    rw [hdnf] at hvalue
    exact hsimple.note hvalue.symm
  · exact hsimple

/-! ## Questions one after another -/

/-- What can be asked of a session. -/
inductive Query where
  | simplify (e : Expr)
  | equivalent (a b : Expr)
  | toNnf (e : Expr)
  | toDnf (e : Expr)

/-- What is answered: a formula, or for a comparison whether it holds. Putting a formula into
disjunctive normal form may also fail. -/
inductive Answer where
  | formula (result : Except NotNnf Expr)
  | holds (result : Bool)

/-- The answer of the plain definitions. -/
def Query.answer : Query → Answer
  | .simplify e => .formula (.ok e.simplify)
  | .equivalent a b => .holds (Expr.equivalent a b)
  | .toNnf e => .formula (.ok e.toNnf)
  | .toDnf e => .formula e.toDnf

/-- The answer of a session, and the session after it. -/
def ask (query : Query) (session : Session) : Answer × Session :=
  match query with
  | .simplify e =>
    let (s, session) := simplify e session
    (.formula (.ok s.1), session)
  | .equivalent a b =>
    let (holds, session) := equivalent a b session
    (.holds holds, session)
  | .toNnf e =>
    let (s, session) := toNnf e session
    (.formula (.ok s.1), session)
  | .toDnf e =>
    let (result, session) := toDnf e session
    (.formula result, session)

/-- The answers of a session to questions in a row, and the session after them. -/
def askAll (session : Session) : List Query → List Answer × Session
  | [] => ([], session)
  | query :: queries =>
    let (answer, session) := ask query session
    let (answers, session) := askAll session queries
    (answer :: answers, session)

theorem answer_ask (query : Query) (session : Session) : (ask query session).1 = query.answer := by
  cases query with
  | simplify e => exact congrArg (Answer.formula ∘ .ok) (value_simplify e session)
  | equivalent a b => exact congrArg Answer.holds (value_equivalent a b session)
  | toNnf e => exact congrArg (Answer.formula ∘ .ok) (value_toNnf e session)
  | toDnf e => exact congrArg Answer.formula (value_toDnf e session)

/-- **One question keeps a session sound.** -/
theorem sound_ask (query : Query) (h : session.Sound) : (ask query session).2.Sound := by
  cases query with
  | simplify e => exact sound_simplify e h
  | equivalent a b => exact sound_judge a b h
  | toNnf e => exact sound_toNnf e h
  | toDnf e => exact sound_toDnf e h

/-- **Questions in a row get the plain answers**, each of them whatever was asked before. -/
theorem answers_askAll (session : Session) (queries : List Query) :
    (askAll session queries).1 = queries.map Query.answer := by
  induction queries generalizing session with
  | nil => rfl
  | cons query queries ih =>
    rw [List.map_cons, ← ih (ask query session).2, ← answer_ask query session]
    rfl

theorem sound_askAll (h : session.Sound) (queries : List Query) :
    (askAll session queries).2.Sound := by
  induction queries generalizing session with
  | nil => exact h
  | cons query queries ih => exact ih (sound_ask query h)

/-- **Remembering changes no answer.** Whatever a session remembers, questions in a row get the
answers of the definitions that remember nothing. From the first session on, moreover, every result
kept is right, no more of them are kept than there may be, and every step that was taken on the way,
within whatever computation, is one of those definitions. -/
theorem remembering_changes_no_answer (queries : List Query) :
    (∀ session, (askAll session queries).1 = queries.map Query.answer) ∧
      (∀ e entry, (askAll initial queries).2.results.entries.get? e = some entry →
        entry.2.1 = e.simplify) ∧
      (askAll initial queries).2.results.entries.size ≤ Recent.capacity ∧
      ∀ step ∈ (askAll initial queries).2.steps, step.Right := by
  have h := sound_askAll sound_initial queries
  have hkept : ∀ e entry, (askAll initial queries).2.results.entries.get? e = some entry →
      entry.2.1 = e.simplify := fun _ entry _ => entry.2.2
  exact ⟨fun session => answers_askAll session queries, hkept, h.bounded, h.right⟩

end Session

end Propositional
