import Propositional.Command.Run
import Propositional.Proofs.Session.Remarks

/-!
# What comes of a job

A part of a run that draws nothing leaves the files alone, and where the files and the session are
known it is known what comes of it: its result and the session it leaves, or its failure, and the
lines it adds to those that are shown by default (`Gives`). None of the steps is shown. What the
session decides is which remarks are made, and so whether there is one among them that cannot be
made; and the stack decides whether there is room.

Results:
* `Gives.bind`, `Gives.bind_error`, `gives_forIn`: what comes of jobs one after the other.
* `gives_compute`: where there is room and all remarks can be made, a task gives the answer of its
  computation and shows nothing. `gives_compute_uncounted` and `gives_compute_tooDeep` say what
  comes of it otherwise.
-/

namespace Propositional.Command

/-! ## What a state adds to another -/

/-- The lines shown so far, unless more is asked for. -/
def State.shown (s : State) : List String :=
  linesOf .warning s.report.reverse

/-- All that comes between two states, apart from the sessions, are lines that are shown. -/
structure State.Adds (lines : List String) (before after : State) : Prop where
  tree : after.tree = before.tree
  written : after.written = before.written
  shown : after.shown = before.shown ++ lines

namespace State.Adds

variable {lines lines' : List String} {s s' s'' : State}

theorem of_report_eq (htree : s'.tree = s.tree) (hwritten : s'.written = s.written)
    (h : s'.report = s.report) : Adds [] s s' :=
  ⟨htree, hwritten, by rw [State.shown, State.shown, h, List.append_nil]⟩

theorem refl (s : State) : Adds [] s s :=
  .of_report_eq rfl rfl rfl

theorem trans (h : Adds lines s s') (h' : Adds lines' s' s'') : Adds (lines ++ lines') s s'' := by
  refine ⟨h'.tree.trans h.tree, h'.written.trans h.written, ?_⟩
  rw [h'.shown, h.shown, List.append_assoc]

theorem entry (entry : Entry) (s : State) :
    Adds (entry.shown .warning) s { s with report := entry :: s.report } := by
  refine ⟨rfl, rfl, ?_⟩
  simp only [State.shown, linesOf, List.reverse_cons, List.flatMap_append, List.flatMap_cons,
    List.flatMap_nil, List.append_nil]

end State.Adds

namespace Job

variable {α β : Type} {tree : FileTree} {session session' : Session} {lines lines' : List String}

/-- Wherever these are the files and the session, the job has this result and leaves this session,
or fails like this, and all that it adds are these lines. -/
def Gives (tree : FileTree) (session : Session) (job : Job α)
    (outcome : Except Failure (α × Session)) (lines : List String) : Prop :=
  ∀ s : State, s.tree = tree → s.session = session →
    (job.run s).1 = outcome.map Prod.fst ∧ s.Adds lines (job.run s).2 ∧
      ∀ a after, outcome = .ok (a, after) → (job.run s).2.session = after

/-! ## Jobs put together -/

theorem run_bind_of_ok {job : Job α} {s : State} {a : α} (f : α → Job β)
    (h : (job.run s).1 = .ok a) : (job >>= f).run s = (f a).run (job.run s).2 := by
  have hbind : (job >>= f).run s = ExceptT.bindCont f (job.run s).1 (job.run s).2 := rfl
  rw [hbind, h]
  rfl

theorem run_bind_of_error {job : Job α} {s : State} {failure : Failure} (f : α → Job β)
    (h : (job.run s).1 = .error failure) :
    (job >>= f).run s = (.error failure, (job.run s).2) := by
  have hbind : (job >>= f).run s = ExceptT.bindCont f (job.run s).1 (job.run s).2 := rfl
  rw [hbind, h]
  rfl

theorem gives_pure (a : α) : Gives tree session (pure a) (.ok (a, session)) [] := by
  intro s _ hs
  refine ⟨rfl, .refl s, fun b after h => ?_⟩
  cases h
  exact hs

theorem gives_throw (failure : Failure) :
    Gives tree session (throw failure : Job α) (.error failure) [] :=
  fun s _ _ => ⟨rfl, .refl s, nofun⟩

/-- A job goes on after one that has a result, with the files as they were. -/
theorem Gives.bind {job : Job α} {f : α → Job β} {a : α} {outcome : Except Failure (β × Session)}
    (h : Gives tree session job (.ok (a, session')) lines)
    (h' : Gives tree session' (f a) outcome lines') :
    Gives tree session (job >>= f) outcome (lines ++ lines') := by
  intro s htree hs
  obtain ⟨hresult, hadds, hsession⟩ := h s htree hs
  obtain ⟨hresult', hadds', hsession'⟩ :=
    h' (job.run s).2 (hadds.tree.trans htree) (hsession a session' rfl)
  rw [run_bind_of_ok f hresult]
  exact ⟨hresult', hadds.trans hadds', hsession'⟩

/-- A job goes on after one that shows nothing. -/
theorem Gives.bind_silent {job : Job α} {f : α → Job β} {a : α}
    {outcome : Except Failure (β × Session)} (h : Gives tree session job (.ok (a, session')) [])
    (h' : Gives tree session' (f a) outcome lines) :
    Gives tree session (job >>= f) outcome lines :=
  h.bind h'

/-- Nothing goes on after a failure. -/
theorem Gives.bind_error {job : Job α} {f : α → Job β} {failure : Failure}
    (h : Gives tree session job (.error failure) lines) :
    Gives tree session (job >>= f) (.error failure) lines := by
  intro s htree hs
  obtain ⟨hresult, hadds, -⟩ := h s htree hs
  rw [run_bind_of_error f hresult]
  exact ⟨rfl, hadds, nofun⟩

/-- A job whose result is replaced. -/
theorem Gives.map {job : Job α} {outcome : Except Failure (α × Session)}
    (h : Gives tree session job outcome lines) (g : α → β) :
    Gives tree session (job >>= fun a => pure (g a)) (outcome.map fun given => (g given.1, given.2))
      lines := by
  cases outcome with
  | error => exact h.bind_error
  | ok outcome =>
    have hb := h.bind (f := fun a => pure (g a)) (gives_pure (g outcome.1))
    rwa [List.append_nil] at hb

/-- The jobs of a loop, one after the other. -/
theorem gives_forIn (xs : List α) {job : α → Job Unit} {line : α → List String}
    (h : ∀ x, Gives tree session (job x) (.ok ((), session)) (line x)) :
    Gives tree session
      (forIn xs PUnit.unit fun x _ => do
        job x
        pure (ForInStep.yield PUnit.unit))
      (.ok (PUnit.unit, session)) (xs.flatMap line) := by
  induction xs with
  | nil => exact gives_pure _
  | cons x xs ih =>
    rw [List.forIn_cons, List.flatMap_cons]
    exact ((h x).map fun _ => ForInStep.yield PUnit.unit).bind ih

/-- What depends on the state may depend on the files and on the session. -/
theorem gives_get {f : State → Job α} {outcome : Except Failure (α × Session)}
    (h : ∀ s, s.tree = tree → s.session = session → Gives tree session (f s) outcome lines) :
    Gives tree session (get >>= f) outcome lines :=
  fun s htree hs => h s htree hs s htree hs

theorem gives_setSession (after : Session) :
    Gives tree session (modify fun s => { s with session := after }) (.ok ((), after)) [] := by
  intro s _ _
  refine ⟨rfl, .of_report_eq rfl rfl rfl, fun _ _ h => ?_⟩
  cases h
  rfl

/-! ## The report -/

theorem gives_add (entry : Entry) :
    Gives tree session (add entry) (.ok ((), session)) (entry.shown .warning) := by
  intro s _ hs
  refine ⟨rfl, .entry entry s, fun _ _ h => ?_⟩
  cases h
  exact hs

theorem gives_print (line : String) :
    Gives tree session (print line) (.ok ((), session)) [line] :=
  gives_add _

/-- Events of the lower levels are not shown by default. -/
theorem gives_note {event : Event} (h : event.level.rank < Level.warning.rank) :
    Gives tree session (note event) (.ok ((), session)) [] := by
  have hshown : (Entry.noted event).shown .warning = [] := if_pos h
  rw [← hshown]
  exact gives_add _

theorem gives_remark {made : Remark} (h : made.isWritable = true) :
    Gives tree session (remark made) (.ok ((), session)) [] := by
  rw [remark, if_pos h]
  exact gives_note Nat.zero_lt_two

theorem gives_remark_uncounted {made : Remark} (h : ¬ made.isWritable = true) :
    Gives tree session (remark made) (.error .uncounted) [] := by
  rw [remark, if_neg h]
  exact gives_throw _

theorem gives_forM_remark {made : List Remark} (h : ∀ r ∈ made, r.isWritable = true) :
    Gives tree session (made.forM remark) (.ok ((), session)) [] := by
  induction made with
  | nil => exact gives_pure _
  | cons r made ih =>
    exact (gives_remark (h r List.mem_cons_self)).bind_silent
      (ih fun r' hr' => h r' (List.mem_cons_of_mem _ hr'))

/-- The first remark that cannot be made is the last thing to be tried. -/
theorem gives_forM_remark_uncounted {made : List Remark} (h : ¬ ∀ r ∈ made, r.isWritable = true) :
    Gives tree session (made.forM remark) (.error .uncounted) [] := by
  induction made with
  | nil => exact absurd (fun _ hmem => absurd hmem List.not_mem_nil) h
  | cons r made ih =>
    by_cases hr : r.isWritable = true
    · refine (gives_remark hr).bind_silent (ih fun hall => h fun r' hr' => ?_)
      exact (List.mem_cons.mp hr').elim (fun heq => heq ▸ hr) (hall r')
    · exact (gives_remark_uncounted hr).bind_error

/-! ## Room on the stack -/

section

variable {here : Workplace} {work : Walk} {task : Task} {f : Session → α × Session}

theorem gives_walk (h : here.stack.holds work = true) :
    Gives tree session (walk here work) (.ok ((), session)) [] := by
  rw [walk, if_pos h]
  exact gives_pure ()

theorem gives_walk_tooDeep (h : here.stack.holds work = false) :
    Gives tree session (walk here work) (.error (.tooDeep here.own)) [] := by
  rw [walk, h]
  exact gives_throw _

theorem gives_walkShown (h : here.shown = true → here.stack.holds work = true) :
    Gives tree session (walkShown here work) (.ok ((), session)) [] := by
  unfold walkShown
  split
  · next hshown => exact gives_walk (h hshown)
  · exact gives_pure ()

theorem gives_walkShown_tooDeep (hshown : here.shown = true)
    (h : here.stack.holds work = false) :
    Gives tree session (walkShown here work) (.error (.tooDeep here.own)) [] := by
  rw [walkShown, if_pos hshown]
  exact gives_walk_tooDeep h

theorem gives_compute_of_remarks {outcome : Except Failure (Unit × Session)}
    (hreach : here.stack.reach here.shown task session = none)
    (h : Gives tree (f session).2 (((f session).2.remarksSince session).forM remark) outcome []) :
    Gives tree session (compute here task f)
      (outcome.map fun given => ((f session).1, given.2)) [] := by
  refine gives_get fun s _ hs => ?_
  rw [hs, computeIn, hreach]
  refine (gives_setSession _).bind_silent ?_
  exact h.map fun _ => (f session).1

/-- **A task gives the answer of its computation and shows nothing**, where there is room for it and
all remarks can be made. -/
theorem gives_compute {V : String → Prop} (hreach : here.stack.reach here.shown task session = none)
    (h : Session.Counts V session (f session).2) (hcount : (f session).2.Countable) :
    Gives tree session (compute here task f) (.ok (f session)) [] :=
  gives_compute_of_remarks hreach (gives_forM_remark (h.countable_iff.mp hcount).2)

theorem gives_compute_uncounted {V : String → Prop}
    (hreach : here.stack.reach here.shown task session = none)
    (h : Session.Counts V session (f session).2) (hs : session.Countable)
    (hcount : ¬ (f session).2.Countable) :
    Gives tree session (compute here task f) (.error .uncounted) [] :=
  gives_compute_of_remarks hreach (gives_forM_remark_uncounted fun hall =>
    hcount (h.countable_iff.mpr ⟨hs, hall⟩))

end

end Job

end Propositional.Command
