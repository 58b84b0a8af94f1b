import Propositional.Proofs.Command.Gives
import Propositional.Proofs.Response
import Propositional.Proofs.Simplify.Reduction

/-!
# What a run does, part by part

Each part of a run gives what the definition that it carries out says, in every session. Formulas of
few levels leave room on the stack for all the work on them and for all of its steps, except for
distribution and what comes after it. So there are three ways for the transformation of such a
formula to go: a remark cannot be made, or there is no room for the disjunctive normal form
(`Exhausts`), or the result is the one of the plain definition.

Results:
* `gives_readFile`, `gives_parse`: what is read is the text of the file, and its formula.
* `gives_produce`, `gives_produce_tooDeep`, `gives_produce_uncounted`: the three ways.
* `gives_compare`, `gives_compare_uncounted`: a comparison gives the verdict, or is not announced.
* `gives_all_of_textError`, `gives_all_of_readError`, `gives_all`: what the whole work gives, by
  what comes of its parts.
-/

namespace Propositional.Command

variable {tree : FileTree} {session session' : Session} {lines lines' : List String}

namespace Job

/-! ## Reading -/

theorem gives_readFile {shown : String} {text : Except SourceError String}
    (h : readText tree shown = text) :
    Gives tree session (readFile shown)
      ((text.mapError SourceError.failure).map fun text => (text, session)) [] := by
  refine gives_get fun s htree _ => ?_
  rw [htree]
  have hreading : Gives tree session (note (.readingFile shown)) (.ok ((), session)) [] :=
    gives_note Nat.zero_lt_two
  have hrest {found : Bool} {job : Job String} {outcome : Except Failure (String × Session)}
      (h : Gives tree session job outcome []) :
      Gives tree session (if found then do note (.readingFile shown); job else job) outcome [] := by
    split
    · exact hreading.bind_silent h
    · exact h
  refine hrest ?_
  rw [h]
  cases text with
  | ok text => exact gives_pure text
  | error error => exact gives_throw _

theorem gives_parse {text : String} {result : Except Document.Error Expr}
    (h : Document.read text = result) :
    Gives tree session (parse text) (.ok (result, session)) [] := by
  have hparsing : Gives tree session (note (.parsing text)) (.ok ((), session)) [] :=
    gives_note Nat.zero_lt_two
  refine hparsing.bind_silent ?_
  rw [h]
  split
  · next e =>
    have hparsed : Gives tree session (note (.parsed e)) (.ok ((), session)) [] :=
      gives_note Nat.zero_lt_two
    exact hparsed.bind_silent (gives_pure _)
  · next position c =>
    have hillegal : Gives tree session (note (.illegalCharacter c position))
        (.ok ((), session)) [] := gives_note Nat.zero_lt_two
    exact hillegal.bind_silent (gives_pure _)
  · exact gives_pure _

end Job

/-! ## Transforming -/

/-- There is no room for the result of a transformation: it cannot be made, or not reported where
that is asked for, or not written. -/
inductive Exhausts (stack : Stack) (shown : Bool) (e : Expr) : Transformation → Prop
  | distributing (h : stack.holds (.distribute e.toNnf.simplify) = false) :
      Exhausts stack shown e .dnf
  | reporting {r : Expr} (hr : e.toDnf = .ok r) (hshown : shown = true)
      (h : stack.holds (.report e r) = false) : Exhausts stack shown e .dnf
  | writing {r : Expr} (hr : e.toDnf = .ok r) (h : stack.holds (.write r) = false) :
      Exhausts stack shown e .dnf

theorem depth_toNnf_le (e : Expr) : e.toNnf.depth ≤ e.depth :=
  Expr.depth_nnfOf_le true e

theorem depth_simplify_le (e : Expr) : e.simplify.depth ≤ e.depth :=
  Expr.countsParts_depth.simplify_le e

namespace Job

section

variable {here : Workplace} {e r : Expr}

theorem gives_distribute {simple : Expr} (hr : simple.distribute = .ok r)
    (hroom : here.stack.holds (.distribute simple) = true)
    (hreport : here.shown = true → here.stack.holds (.report e r) = true) :
    Gives tree session (distribute here e simple)
      (.ok (r, session.note (.finishedDnf e r))) [] := by
  have hrest : Gives tree session
      (do
        modify fun s => { s with session := s.session.note (.finishedDnf e r) }
        note (.remark (.taken (.finishedDnf e r)))
        return r)
      (.ok (r, session.note (.finishedDnf e r))) [] := by
    have hset : Gives tree session
        (modify fun s => { s with session := s.session.note (.finishedDnf e r) })
        (.ok ((), session.note (.finishedDnf e r))) [] := by
      intro s htree hs
      subst hs
      exact gives_setSession _ s htree rfl
    have hnote : Gives tree (session.note (.finishedDnf e r))
        (note (.remark (.taken (.finishedDnf e r)))) (.ok ((), _)) [] := gives_note Nat.zero_lt_two
    exact hset.bind_silent (hnote.bind_silent (gives_pure r))
  refine (gives_walk hroom).bind_silent ?_
  rw [hr]
  exact (gives_walkShown hreport).bind_silent hrest

/-- Where there is no room for distribution, or for the report that is asked for. -/
theorem gives_distribute_tooDeep {simple : Expr} (hr : simple.distribute = .ok r)
    (h : here.stack.holds (.distribute simple) = false ∨
      here.shown = true ∧ here.stack.holds (.report e r) = false) :
    Gives tree session (distribute here e simple) (.error (.tooDeep here.own)) [] := by
  cases hroom : here.stack.holds (.distribute simple) with
  | false => exact (gives_walk_tooDeep hroom).bind_error
  | true =>
    obtain ⟨hshown, hreport⟩ := h.resolve_left (by rw [hroom]; decide)
    refine (gives_walk hroom).bind_silent ?_
    rw [hr]
    exact (gives_walkShown_tooDeep hshown hreport).bind_error

theorem gives_toNnf (hdepth : e.depth ≤ shallowDepth) (hs : session.Countable) :
    Gives tree session (compute here (.toNnf e) (Session.toNnf e))
      (.ok (Session.toNnf e session)) [] :=
  gives_compute (here.stack.reach_of_isShallow _ (.toNnf e) _ hdepth)
    (Session.counts_toNnf (V := fun _ => True) e session)
    ((Session.countable_toNnf e session).mpr hs)

theorem gives_simplify (hdepth : e.depth ≤ shallowDepth)
    (hcount : (Session.simplify e session).2.Countable) :
    Gives tree session (compute here (.simplify e) (Session.simplify e))
      (.ok (Session.simplify e session)) [] :=
  gives_compute (here.stack.reach_of_isShallow _ (.simplify e) _ hdepth)
    (Session.counts_simplify e session) hcount

theorem gives_simplify_uncounted (hdepth : e.depth ≤ shallowDepth) (hs : session.Countable)
    (hcount : ¬ (Session.simplify e session).2.Countable) :
    Gives tree session (compute here (.simplify e) (Session.simplify e)) (.error .uncounted) [] :=
  gives_compute_uncounted (here.stack.reach_of_isShallow _ (.simplify e) _ hdepth)
    (Session.counts_simplify e session) hs hcount

theorem depth_value_toNnf (hdepth : e.depth ≤ shallowDepth) (session : Session) :
    (Session.toNnf e session).1.1.depth ≤ shallowDepth := by
  rw [Session.value_toNnf]
  exact Nat.le_trans (depth_toNnf_le e) hdepth

/-- The disjunctive normal form comes of the distribution, if all before it can be remarked. -/
theorem gives_toDnf {outcome : Except Failure (Expr × Session)} (hdepth : e.depth ≤ shallowDepth)
    (hs : session.Countable) (hcount : (Session.beforeDistribute e session).Countable)
    (h : Gives tree (Session.beforeDistribute e session) (distribute here e e.toNnf.simplify)
      outcome []) :
    Gives tree session (toDnf here e) outcome [] := by
  have hvalue : (Session.simplify (Session.toNnf e session).1.1 (Session.toNnf e session).2).1.1 =
      e.toNnf.simplify := by rw [Session.value_simplify, Session.value_toNnf]
  rw [← hvalue] at h
  exact (gives_toNnf hdepth hs).bind_silent
    ((gives_simplify (depth_value_toNnf hdepth session) hcount).bind_silent h)

/-- A remark that cannot be made comes before there is anything to distribute. -/
theorem gives_toDnf_uncounted (hdepth : e.depth ≤ shallowDepth) (hs : session.Countable)
    (hcount : ¬ (Session.beforeDistribute e session).Countable) :
    Gives tree session (toDnf here e) (.error .uncounted) [] := by
  have hs' := (Session.countable_toNnf e session).mpr hs
  exact (gives_toNnf hdepth hs).bind_silent
    (gives_simplify_uncounted (depth_value_toNnf hdepth session) hs' hcount).bind_error

theorem gives_produce_of_transform {t : Transformation}
    (h : Gives tree session (transform here t e) (.ok (r, session')) [])
    (hwrite : here.stack.holds (.write r) = true) :
    Gives tree session (produce here t e) (.ok (r, session')) [] :=
  h.bind_silent ((gives_walk hwrite).bind_silent (gives_pure r))

/-- **A formula of few levels is transformed as the plain definition says**, where all remarks can
be made and there is room for the result. -/
theorem gives_produce {t : Transformation} (hdepth : e.depth ≤ shallowDepth)
    (hs : session.Countable) (hr : t.apply e = .ok r) (hcount : (t.run e session).2.Countable)
    (hroom : ¬ Exhausts here.stack here.shown e t) :
    Gives tree session (produce here t e) (.ok (r, (t.run e session).2)) [] := by
  cases t with
  | dnf =>
    have hsession : (Transformation.dnf.run e session).2 = _ := Session.snd_toDnf hr session
    have hcount := (Session.countable_toDnf hr session).mp hcount
    rw [hsession]
    have hdistribute : here.stack.holds (.distribute e.toNnf.simplify) = true :=
      Bool.eq_true_of_not_eq_false fun h => hroom (.distributing h)
    have hreport (hshown : here.shown = true) : here.stack.holds (.report e r) = true :=
      Bool.eq_true_of_not_eq_false fun h => hroom (.reporting hr hshown h)
    have hwrite : here.stack.holds (.write r) = true :=
      Bool.eq_true_of_not_eq_false fun h => hroom (.writing hr h)
    exact gives_produce_of_transform
      (gives_toDnf hdepth hs hcount (gives_distribute hr hdistribute hreport)) hwrite
  | nnf =>
    cases hr
    have hwrite : (Walk.write e.toNnf).IsShallow := Nat.le_trans (depth_toNnf_le e) hdepth
    refine gives_produce_of_transform ?_ (here.stack.holds_of_isShallow _ hwrite)
    rw [← Session.value_toNnf e session]
    exact (gives_toNnf hdepth hs).map fun s => s.1
  | simplify =>
    cases hr
    have hwrite : (Walk.write e.simplify).IsShallow := Nat.le_trans (depth_simplify_le e) hdepth
    refine gives_produce_of_transform ?_ (here.stack.holds_of_isShallow _ hwrite)
    rw [← Session.value_simplify e session]
    exact (gives_simplify hdepth hcount).map fun s => s.1

/-- **Without room for its result the transformation is given up.** -/
theorem gives_produce_tooDeep {t : Transformation} (hdepth : e.depth ≤ shallowDepth)
    (hs : session.Countable) (hcount : (t.run e session).2.Countable)
    (h : Exhausts here.stack here.shown e t) :
    Gives tree session (produce here t e) (.error (.tooDeep here.own)) [] := by
  obtain rfl : t = .dnf := by cases h <;> rfl
  obtain ⟨r, hr⟩ := Transformation.dnf.exists_apply e
  have hcount := (Session.countable_toDnf hr session).mp hcount
  by_cases hgiven : here.stack.holds (.distribute e.toNnf.simplify) = false ∨
      here.shown = true ∧ here.stack.holds (.report e r) = false
  · exact (gives_toDnf hdepth hs hcount (gives_distribute_tooDeep hr hgiven)).bind_error
  · obtain ⟨hdistribute, hreport⟩ := not_or.mp hgiven
    have hshow (hshown : here.shown = true) : here.stack.holds (.report e r) = true :=
      Bool.eq_true_of_not_eq_false fun h => hreport ⟨hshown, h⟩
    have hroom := Bool.eq_true_of_not_eq_false hdistribute
    refine (gives_toDnf hdepth hs hcount (gives_distribute hr hroom hshow)).bind_silent
      (Gives.bind_error (gives_walk_tooDeep ?_))
    cases h with
    | distributing h => exact absurd h hdistribute
    | reporting hr' hshown h =>
      cases hr.symm.trans hr'
      exact absurd ⟨hshown, h⟩ hreport
    | writing hr' h =>
      cases hr.symm.trans hr'
      exact h

/-- **Where a remark cannot be made the transformation fails.** -/
theorem gives_produce_uncounted {t : Transformation} (hdepth : e.depth ≤ shallowDepth)
    (hs : session.Countable) (hcount : ¬ (t.run e session).2.Countable) :
    Gives tree session (produce here t e) (.error .uncounted) [] := by
  refine Gives.bind_error ?_
  cases t with
  | dnf =>
    obtain ⟨r, hr⟩ := Transformation.dnf.exists_apply e
    have hcount := mt (Session.countable_toDnf hr session).mpr hcount
    exact gives_toDnf_uncounted hdepth hs hcount
  | nnf => exact absurd ((Session.countable_toNnf e session).mpr hs) hcount
  | simplify => exact (gives_simplify_uncounted hdepth hs hcount).bind_error

end

end Job

/-! ## Comparing -/

namespace Job

/-- The line that tells whether a formula is equivalent to the one in a file. -/
def verdictLine (shown : String) (same : Bool) : String :=
  "Equivalent to " ++ shown ++ ": " ++ if same then "true" else "false"

section

variable {here : Workplace} {e other : Expr} {shown text : String}

/-- Comparing the simplified forms of formulas of few levels is a task on such formulas. -/
theorem isShallow_compare_simplify (he : e.depth ≤ shallowDepth)
    (hother : other.depth ≤ shallowDepth) (s s' : Session) :
    (Task.compare (Session.simplify e s).1.1 (Session.simplify other s').1.1).IsShallow := by
  rw [Session.value_simplify, Session.value_simplify]
  exact ⟨Nat.le_trans (depth_simplify_le e) he, Nat.le_trans (depth_simplify_le other) hother⟩

theorem gives_judge (he : e.depth ≤ shallowDepth) (hother : other.depth ≤ shallowDepth)
    (hcount : (Session.equivalent e other session).2.Countable) :
    Gives tree session (judge here e other)
      (.ok (Expr.equivalent e other, (Session.equivalent e other session).2)) [] := by
  have hvalue : (Expr.equivalent e other, (Session.equivalent e other session).2) =
      Session.equivalent e other session := by rw [← Session.value_equivalent e other session]
  rw [hvalue]
  rw [Session.equivalent_eq_settle] at hcount ⊢
  have hsecond := ((Session.counts_settle _ _ _).countable_iff.mp hcount).1
  have hfirst := ((Session.counts_simplify _ _).countable_iff.mp hsecond).1
  refine (gives_simplify he hfirst).bind_silent ((gives_simplify hother hsecond).bind_silent ?_)
  exact gives_compute
    (here.stack.reach_of_isShallow _ _ _ (isShallow_compare_simplify he hother _ _))
    (Session.counts_settle _ _ _) hcount

theorem gives_judge_uncounted (he : e.depth ≤ shallowDepth) (hother : other.depth ≤ shallowDepth)
    (hs : session.Countable) (hcount : ¬ (Session.equivalent e other session).2.Countable) :
    Gives tree session (judge here e other) (.error .uncounted) [] := by
  rw [Session.equivalent_eq_settle] at hcount
  by_cases hfirst : (Session.simplify e session).2.Countable
  · refine (gives_simplify he hfirst).bind_silent ?_
    by_cases hsecond : (Session.simplify other (Session.simplify e session).2).2.Countable
    · refine (gives_simplify hother hsecond).bind_silent ?_
      exact gives_compute_uncounted
        (here.stack.reach_of_isShallow _ _ _ (isShallow_compare_simplify he hother _ _))
        (Session.counts_settle _ _ _) hsecond hcount
    · exact (gives_simplify_uncounted hother hfirst hsecond).bind_error
  · exact (gives_simplify_uncounted he hs hfirst).bind_error

theorem gives_compare_of_textError {error : SourceError} (h : readText tree shown = .error error) :
    Gives tree session (compare here e shown) (.error error.failure) [] :=
  (gives_readFile h).bind_error

theorem gives_compare_of_readError {error : Document.Error} (htext : readText tree shown = .ok text)
    (hread : Document.read text = .error error) :
    Gives tree session (compare here e shown) (.error (.source (.malformed shown error))) [] :=
  (gives_readFile htext).bind_silent ((gives_parse hread).bind_silent (gives_throw _))

theorem gives_compare (htext : readText tree shown = .ok text)
    (hread : Document.read text = .ok other) (he : e.depth ≤ shallowDepth)
    (hother : other.depth ≤ shallowDepth)
    (hcount : (Session.equivalent e other session).2.Countable) :
    Gives tree session (compare here e shown) (.ok ((), (Session.equivalent e other session).2))
      [verdictLine shown (Expr.equivalent e other)] :=
  (gives_readFile htext).bind_silent ((gives_parse hread).bind_silent
    ((gives_judge he hother hcount).bind_silent (gives_print _)))

theorem gives_compare_uncounted (htext : readText tree shown = .ok text)
    (hread : Document.read text = .ok other) (he : e.depth ≤ shallowDepth)
    (hother : other.depth ≤ shallowDepth) (hs : session.Countable)
    (hcount : ¬ (Session.equivalent e other session).2.Countable) :
    Gives tree session (compare here e shown) (.error .uncounted) [] :=
  (gives_readFile htext).bind_silent ((gives_parse hread).bind_silent
    (gives_judge_uncounted he hother hs hcount).bind_error)

end

end Job

/-! ## The whole run -/

/-- The settings ask for the transformation `t`, under a name of it, of the formula in a file. -/
structure Settings.Asks (settings : Settings) (name : String) (t : Transformation) (path : Path) :
    Prop where
  transformation : settings.transformation = some name
  known : Transformation.ofName? name = some t
  expression : settings.expression = some path

/-- The truth table, if it is asked for. -/
def Settings.tableOf (settings : Settings) (e : Expr) : List String :=
  if settings.showTable then TruthTable.lines e else []

namespace Job

section

variable {here : Workplace} {settings : Settings} {t : Transformation} {e r : Expr}

theorem gives_tabulateAsked
    (hroom : settings.showTable = true → here.stack.holds (.tabulate e) = true) :
    Gives tree session (tabulateAsked here settings e) (.ok ((), session))
      (settings.tableOf e) := by
  have hprint (line : String) : Gives tree session (print line) (.ok ((), session)) [line] :=
    gives_print line
  have htable := gives_forIn (TruthTable.lines e) hprint
  rw [List.flatMap_singleton'] at htable
  unfold tabulateAsked Settings.tableOf
  split
  · next hasked => exact (gives_walk (hroom hasked)).bind_silent (htable.map fun _ => ())
  · exact gives_pure ()

theorem gives_describe {outcome : Except Failure (Expr × Session)} {rest : Job Expr}
    (hroom : here.stack.holds (.describe e) = true)
    (h : Gives tree session rest outcome lines) :
    Gives tree session
      (do
        walk here (.describe e)
        note (.loaded e)
        rest)
      outcome lines := by
  have hloaded : Gives tree session (note (.loaded e)) (.ok ((), session)) [] :=
    gives_note Nat.one_lt_two
  exact (gives_walk hroom).bind_silent (hloaded.bind_silent h)

theorem gives_answer_of_error {failure : Failure} (hroom : here.stack.holds (.describe e) = true)
    (h : Gives tree session (produce here t e) (.error failure) []) :
    Gives tree session (answer here settings t e) (.error failure) [] :=
  gives_describe hroom h.bind_error

theorem gives_answer {outcome : Except Failure (Unit × Session)}
    (hroom : here.stack.holds (.describe e) = true)
    (htable : settings.showTable = true → here.stack.holds (.tabulate e) = true)
    (h : Gives tree session (produce here t e) (.ok (r, session')) [])
    (hcompare : Gives tree session' (compareAsked here settings e) outcome lines) :
    Gives tree session (answer here settings t e) (outcome.map fun given => (r, given.2))
      (Document.write r :: (settings.tableOf e ++ lines)) :=
  gives_describe hroom (h.bind_silent ((gives_print _).bind
    ((gives_tabulateAsked htable).bind (hcompare.map fun _ => r))))

end

section

variable {stack : Stack} {shown : Bool} {settings : Settings} {name text : String}
  {t : Transformation} {path : Path} {e : Expr}

theorem gives_all_of_noName (h : settings.transformation = none) :
    Gives tree session (all stack shown settings) (.error (.noValue .transformation)) [] := by
  unfold all
  rw [h]
  exact (gives_throw _).bind_error

theorem gives_all_of_unknown (h : settings.transformation = some name)
    (hknown : Transformation.ofName? name = none) :
    Gives tree session (all stack shown settings) (.error (.unknownTransformation name)) [] := by
  unfold all
  rw [h]
  refine (gives_pure name).bind_silent ?_
  rw [hknown]
  exact gives_throw _

theorem gives_all_of_noFile (h : settings.transformation = some name)
    (hknown : Transformation.ofName? name = some t) (hfile : settings.expression = none) :
    Gives tree session (all stack shown settings) (.error (.noValue .expression)) [] := by
  unfold all
  rw [h, hfile]
  refine (gives_pure name).bind_silent ?_
  rw [hknown]
  exact (gives_throw _).bind_error

theorem gives_all_of_textError {error : SourceError} (h : settings.Asks name t path)
    (htext : readText tree path.text = .error error) :
    Gives tree session (all stack shown settings) (.error error.failure) [] := by
  unfold all
  rw [h.transformation, h.expression]
  refine (gives_pure name).bind_silent ?_
  rw [h.known]
  exact (gives_pure path).bind_silent (gives_readFile htext).bind_error

theorem gives_all_of_readError {error : Document.Error} (h : settings.Asks name t path)
    (htext : readText tree path.text = .ok text) (hread : Document.read text = .error error) :
    Gives tree session (all stack shown settings) (.ok (.malformed, session))
      [malformedResponse] := by
  have hrejected : Gives tree session (note (.rejected error)) (.ok ((), session)) [] :=
    gives_note Nat.zero_lt_two
  unfold all
  rw [h.transformation, h.expression]
  refine (gives_pure name).bind_silent ?_
  rw [h.known]
  refine (gives_pure path).bind_silent ((gives_readFile htext).bind_silent ?_)
  refine (gives_parse hread).bind_silent ?_
  exact hrejected.bind_silent ((gives_print _).bind (gives_pure _))

/-- Where nothing is drawn the run is over with the answer. -/
theorem gives_all {outcome : Except Failure (Expr × Session)} (h : settings.Asks name t path)
    (hvisualize : settings.visualize = none) (htext : readText tree path.text = .ok text)
    (hread : Document.read text = .ok e)
    (hanswer : Gives tree session (answer ⟨stack, shown, path.text⟩ settings t e) outcome lines) :
    Gives tree session (all stack shown settings) (outcome.map fun given => (.done, given.2))
      lines := by
  have hdraw (r : Expr) :
      drawAsked ⟨stack, shown, path.text⟩ settings name e r = (return ()) := by
    unfold drawAsked
    rw [hvisualize]
    rfl
  unfold all
  rw [h.transformation, h.expression]
  refine (gives_pure name).bind_silent ?_
  rw [h.known]
  refine (gives_pure path).bind_silent ((gives_readFile htext).bind_silent ?_)
  refine (gives_parse hread).bind_silent ?_
  simp only [hdraw]
  exact hanswer.map fun _ => Exit.done

end

end Job

end Propositional.Command
