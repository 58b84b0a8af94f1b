import Propositional.Proofs.Command.FileTree
import Propositional.Proofs.Command.Job
import Propositional.Proofs.Command.Texts
import Propositional.Proofs.Response

/-!
# How a run ends

Where nothing is drawn, a few rules say what a run comes to (`Ends`). They look at the settings and
at what stands under the paths in them: first at the name of the transformation, then at the file
with the formula and at its text, and last at the file to compare with. What is printed before
something goes wrong stays. The first line of a run that reads a text is the answer to a request for
the transformation of that text, as `respond` gives it.

Five things are not foreseen (`Stumbles`): an option that is used without its value, of which there
are two; a path that the system refuses to look under; a disjunctive normal form for which there is
no room on the stack, though the formula has few levels; and a comparison of so many rows that their
number cannot be written out. They come up while the work is done and end it like a failure that
nobody expected, though a path that is refused leaves no more of a formula to be had than a missing
file.

Results:
* `finishes_of_ends`: a run keeps to the rules.
* `exists_ends`: there is a rule for every run.
* `run_ends`: so the rules say how a run ends, what it prints, and that it writes nothing.
* `exit_of_long_name`: a file whose name is too long is not reported as missing.
-/

namespace Propositional.Command

open Propositional.Document

/-! ## The rules -/

/-- How a run ends once its result and the table are printed, and the lines that come after them. -/
inductive Compares (tree : FileTree) (settings : Settings) (e : Expr) (session : Session) :
    Exit → List String → Prop
  | alone (h : settings.compare = none) : Compares tree settings e session .done []
  | judged {path : Path} {text : String} {other : Expr} (h : settings.compare = some path)
      (htext : HasText tree path.text text) (hread : read text = .ok other)
      (hcount : (Session.equivalent e other session).2.Countable) :
      Compares tree settings e session .done
        [Job.verdictLine path.text (Expr.equivalent e other)]
  /-- Not foreseen. -/
  | uncounted {path : Path} {text : String} {other : Expr} (h : settings.compare = some path)
      (htext : HasText tree path.text text) (hread : read text = .ok other)
      (hcount : ¬ (Session.equivalent e other session).2.Countable) :
      Compares tree settings e session .unexpected [Failure.uncounted.message]
  | noText {path : Path} {error : SourceError} (h : settings.compare = some path)
      (htext : LacksText tree path.text error) :
      Compares tree settings e session .fileError [(Failure.source error).message]
  | noDocument {path : Path} {text : String} {error : Error} (h : settings.compare = some path)
      (htext : HasText tree path.text text) (hread : read text = .error error) :
      Compares tree settings e session .fileError
        [(Failure.source (.malformed path.text error)).message]
  /-- Not foreseen. -/
  | refused {path : Path} {error : SystemError} (h : settings.compare = some path)
      (htext : Refused tree path.text error) :
      Compares tree settings e session .unexpected [(Failure.system error).message]

/-- How a run ends that draws nothing, and the lines of its output unless more is asked for. -/
inductive Ends (stack : Stack) (tree : FileTree) (settings : Settings) : Exit → List String → Prop
  /-- Not foreseen. -/
  | noName (h : settings.transformation = none) :
      Ends stack tree settings .unexpected [(Failure.noValue .transformation).message]
  | unknownName {name : String} (h : settings.transformation = some name)
      (hknown : Transformation.ofName? name = none) :
      Ends stack tree settings .unknownTransformation
        [(Failure.unknownTransformation name).message]
  /-- Not foreseen. -/
  | noFile {name : String} {t : Transformation} (h : settings.transformation = some name)
      (hknown : Transformation.ofName? name = some t) (hfile : settings.expression = none) :
      Ends stack tree settings .unexpected [(Failure.noValue .expression).message]
  /-- Not foreseen. -/
  | refused {name : String} {t : Transformation} {path : Path} {error : SystemError}
      (h : settings.Asks name t path) (htext : Refused tree path.text error) :
      Ends stack tree settings .unexpected [(Failure.system error).message]
  | noText {name : String} {t : Transformation} {path : Path} {error : SourceError}
      (h : settings.Asks name t path) (htext : LacksText tree path.text error) :
      Ends stack tree settings .fileError [(Failure.source error).message]
  | noDocument {name text answer : String} {t : Transformation} {path : Path} {error : Error}
      (h : settings.Asks name t path) (htext : HasText tree path.text text)
      (hread : read text = .error error) (hanswer : respond (some text) name = .ok answer) :
      Ends stack tree settings .malformed [answer]
  /-- Not foreseen. -/
  | uncounted {name text : String} {t : Transformation} {path : Path} {e : Expr}
      (h : settings.Asks name t path) (htext : HasText tree path.text text)
      (hread : read text = .ok e) (hcount : ¬ (t.run e .initial).2.Countable) :
      Ends stack tree settings .unexpected [Failure.uncounted.message]
  /-- Not foreseen. -/
  | exhausted {name text : String} {t : Transformation} {path : Path} {e : Expr}
      (h : settings.Asks name t path) (htext : HasText tree path.text text)
      (hread : read text = .ok e) (hcount : (t.run e .initial).2.Countable)
      (hroom : Exhausts stack settings.debug e t) :
      Ends stack tree settings .tooDeep [(Failure.tooDeep path.text).message]
  /-- Result and table are printed, whatever comes of the comparison. -/
  | answered {name text answer : String} {t : Transformation} {path : Path} {e : Expr} {exit : Exit}
      {lines : List String} (h : settings.Asks name t path) (htext : HasText tree path.text text)
      (hread : read text = .ok e) (hcount : (t.run e .initial).2.Countable)
      (hroom : ¬ Exhausts stack settings.debug e t)
      (hanswer : respond (some text) name = .ok answer)
      (hcompare : Compares tree settings e (t.run e .initial).2 exit lines) :
      Ends stack tree settings exit (answer :: (settings.tableOf e ++ lines))

/-- The files that the settings name. -/
def Settings.files (settings : Settings) : List Path :=
  settings.expression.toList ++ settings.compare.toList

theorem Settings.mem_files_of_expression {settings : Settings} {path : Path}
    (h : settings.expression = some path) : path ∈ settings.files := by
  rw [files, h]
  exact List.mem_append_left _ List.mem_cons_self

theorem Settings.mem_files_of_compare {settings : Settings} {path : Path}
    (h : settings.compare = some path) : path ∈ settings.files := by
  rw [files, h]
  exact List.mem_append_right _ List.mem_cons_self

/-- The formulas in the files that the settings name have few levels. -/
def Shallow (tree : FileTree) (settings : Settings) : Prop :=
  ∀ path ∈ settings.files, ∀ text e,
    HasText tree path.text text → read text = .ok e → e.depth ≤ shallowDepth

/-! ## From the rules to the run -/

/-- A run with these settings ends like this and shows these lines by default, and leaves the files
alone. -/
structure Finishes (stack : Stack) (tree : FileTree) (settings : Settings) (exit : Exit)
    (lines : List String) : Prop where
  exit : (report stack tree settings).1 = exit
  written : (report stack tree settings).2.written = []
  shown : (report stack tree settings).2.shown = lines

/-- The ending that the outcome of the work leads to. -/
def exitOf : Except Failure (Exit × Session) → Exit
  | .ok (exit, _) => exit
  | .error failure => failure.exit

/-- The line that is shown for a failure. -/
def failureLine {α : Type} : Except Failure α → List String
  | .ok _ => []
  | .error failure => [failure.message]

theorem failureLine_map {α β : Type} (f : α → β) (outcome : Except Failure α) :
    failureLine (outcome.map f) = failureLine outcome := by
  cases outcome <;> rfl

section

variable {stack : Stack} {tree : FileTree} {settings : Settings} {exit : Exit}
  {lines : List String}

/-- The run ends as the work does, after one more line if that fails. -/
theorem finishes_of_gives {outcome : Except Failure (Exit × Session)}
    (h : Job.Gives tree .initial (Job.all stack settings.debug settings) outcome lines) :
    Finishes stack tree settings (exitOf outcome) (lines ++ failureLine outcome) := by
  obtain ⟨hresult, hadds, -⟩ := h ⟨tree, .initial, [], []⟩ rfl rfl
  rcases hrun : (Job.all stack settings.debug settings).run ⟨tree, .initial, [], []⟩ with
    ⟨result, after⟩
  rw [hrun] at hresult hadds
  subst hresult
  cases outcome with
  | ok given =>
    have hreport : report stack tree settings = (given.1, after) := by
      unfold report
      rw [hrun]
      rfl
    refine ⟨?_, ?_, ?_⟩ <;> rw [hreport]
    · rfl
    · exact hadds.written
    · exact hadds.shown.trans (List.append_nil _).symm
  | error failure =>
    have hreport : report stack tree settings = (failure.exit,
        { after with report := .noted (.failed failure) :: after.report }) := by
      unfold report
      rw [hrun]
      rfl
    have hlast := hadds.trans (.entry (.noted (.failed failure)) after)
    refine ⟨?_, ?_, ?_⟩ <;> rw [hreport]
    · rfl
    · exact hlast.written
    · exact hlast.shown

theorem LacksText.failure {shown : String} {error : SourceError}
    (h : LacksText tree shown error) : error.failure = .source error := by
  cases h <;> rfl

theorem gives_of_compares {here : Workplace} {e : Expr} {session : Session}
    (h : Compares tree settings e session exit lines) (hshallow : Shallow tree settings)
    (he : e.depth ≤ shallowDepth) (hs : session.Countable) :
    ∃ outcome printed, Job.Gives tree session (Job.compareAsked here settings e) outcome printed ∧
      exitOf (outcome.map fun given => (.done, given.2)) = exit ∧
        printed ++ failureLine outcome = lines := by
  unfold Job.compareAsked
  cases h with
  | alone h =>
    rw [h]
    exact ⟨_, _, Job.gives_pure (), rfl, rfl⟩
  | @judged path text other h htext hread hcount =>
    have hother := hshallow path (settings.mem_files_of_compare h) text other htext hread
    rw [h]
    exact ⟨_, _, Job.gives_compare (readText_of_hasText htext) hread he hother hcount, rfl, rfl⟩
  | @uncounted path text other h htext hread hcount =>
    have hother := hshallow path (settings.mem_files_of_compare h) text other htext hread
    rw [h]
    exact ⟨_, _, Job.gives_compare_uncounted (readText_of_hasText htext) hread he hother hs hcount,
      rfl, rfl⟩
  | @noText path error h htext =>
    have hgives : Job.Gives tree session (Job.compare here e path.text) (.error error.failure) [] :=
      Job.gives_compare_of_textError (readText_of_lacksText htext)
    rw [htext.failure] at hgives
    rw [h]
    exact ⟨_, _, hgives, rfl, rfl⟩
  | noDocument h htext hread =>
    rw [h]
    exact ⟨_, _, Job.gives_compare_of_readError (readText_of_hasText htext) hread, rfl, rfl⟩
  | refused h htext =>
    rw [h]
    exact ⟨_, _, Job.gives_compare_of_textError (readText_of_refused htext), rfl, rfl⟩

/-- **A run keeps to the rules.** -/
theorem finishes_of_ends (hvisualize : settings.visualize = none) (hshallow : Shallow tree settings)
    (h : Ends stack tree settings exit lines) : Finishes stack tree settings exit lines := by
  cases h with
  | noName h => exact finishes_of_gives (Job.gives_all_of_noName h)
  | unknownName h hknown => exact finishes_of_gives (Job.gives_all_of_unknown h hknown)
  | noFile h hknown hfile => exact finishes_of_gives (Job.gives_all_of_noFile h hknown hfile)
  | refused h htext =>
    exact finishes_of_gives (Job.gives_all_of_textError h (readText_of_refused htext))
  | noText h htext =>
    have hgives : Job.Gives tree .initial (Job.all stack settings.debug settings) _ [] :=
      Job.gives_all_of_textError h (readText_of_lacksText htext)
    rw [htext.failure] at hgives
    exact finishes_of_gives hgives
  | noDocument h htext hread hanswer =>
    rw [respond_of_error h.known hread] at hanswer
    cases hanswer
    exact finishes_of_gives (Job.gives_all_of_readError h (readText_of_hasText htext) hread)
  | @uncounted name text t path e h htext hread hcount =>
    have he := hshallow path (settings.mem_files_of_expression h.expression) text e htext hread
    exact finishes_of_gives (Job.gives_all h hvisualize (readText_of_hasText htext) hread
      (Job.gives_answer_of_error (stack.holds_of_isShallow (.describe e) he)
        (Job.gives_produce_uncounted he Session.countable_initial hcount)))
  | @exhausted name text t path e h htext hread hcount hroom =>
    have he := hshallow path (settings.mem_files_of_expression h.expression) text e htext hread
    exact finishes_of_gives (Job.gives_all h hvisualize (readText_of_hasText htext) hread
      (Job.gives_answer_of_error (stack.holds_of_isShallow (.describe e) he)
        (Job.gives_produce_tooDeep he Session.countable_initial hcount hroom)))
  | @answered name text answer t path e exit lines h htext hread hcount hroom hanswer hcompare =>
    have he := hshallow path (settings.mem_files_of_expression h.expression) text e htext hread
    obtain ⟨r, hr⟩ := t.exists_apply e
    rw [respond_of_apply h.known hread (Nat.le_trans he (by decide)) hr] at hanswer
    cases hanswer
    obtain ⟨outcome, printed, hgives, rfl, rfl⟩ := gives_of_compares hcompare hshallow he hcount
    have hproduce : Job.Gives tree .initial
        (Job.produce ⟨stack, settings.debug, path.text⟩ t e) _ [] :=
      Job.gives_produce he Session.countable_initial hr hcount hroom
    have hall := finishes_of_gives (Job.gives_all h hvisualize (readText_of_hasText htext) hread
      (Job.gives_answer (stack.holds_of_isShallow (.describe e) he)
        (fun _ => stack.holds_of_isShallow (.tabulate e) he) hproduce hgives))
    rw [failureLine_map, failureLine_map, List.cons_append, List.append_assoc] at hall
    cases outcome <;> exact hall

theorem exists_compares (tree : FileTree) (settings : Settings) (e : Expr) (session : Session) :
    ∃ exit lines, Compares tree settings e session exit lines := by
  cases h : settings.compare with
  | none => exact ⟨_, _, .alone h⟩
  | some path =>
    rcases hasText_or_lacksText_or_refused tree path.text with
      ⟨text, htext⟩ | ⟨_, htext⟩ | ⟨_, htext⟩
    · cases hread : read text with
      | ok other =>
        by_cases hcount : (Session.equivalent e other session).2.Countable
        · exact ⟨_, _, .judged h htext hread hcount⟩
        · exact ⟨_, _, .uncounted h htext hread hcount⟩
      | error error => exact ⟨_, _, .noDocument h htext hread⟩
    · exact ⟨_, _, .noText h htext⟩
    · exact ⟨_, _, .refused h htext⟩

/-- **There is a rule for every run.** -/
theorem exists_ends (stack : Stack) (hshallow : Shallow tree settings) :
    ∃ exit lines, Ends stack tree settings exit lines := by
  cases hname : settings.transformation with
  | none => exact ⟨_, _, .noName hname⟩
  | some name =>
    cases hknown : Transformation.ofName? name with
    | none => exact ⟨_, _, .unknownName hname hknown⟩
    | some t =>
      cases hpath : settings.expression with
      | none => exact ⟨_, _, .noFile hname hknown hpath⟩
      | some path =>
        have hasks : settings.Asks name t path := ⟨hname, hknown, hpath⟩
        rcases hasText_or_lacksText_or_refused tree path.text with
          ⟨text, htext⟩ | ⟨_, htext⟩ | ⟨_, htext⟩
        · cases hread : read text with
          | error error =>
            exact ⟨_, _, .noDocument hasks htext hread (respond_of_error hknown hread)⟩
          | ok e =>
            by_cases hcount : (t.run e .initial).2.Countable
            · by_cases hroom : Exhausts stack settings.debug e t
              · exact ⟨_, _, .exhausted hasks htext hread hcount hroom⟩
              · have he := hshallow path (settings.mem_files_of_expression hpath) text e htext hread
                obtain ⟨r, hr⟩ := t.exists_apply e
                obtain ⟨exit, lines, hcompare⟩ :=
                  exists_compares tree settings e (t.run e .initial).2
                exact ⟨_, _, .answered hasks htext hread hcount hroom
                  (respond_of_apply hknown hread (Nat.le_trans he (by decide)) hr) hcompare⟩
            · exact ⟨_, _, .uncounted hasks htext hread hcount⟩
        · exact ⟨_, _, .noText hasks htext⟩
        · exact ⟨_, _, .refused hasks htext⟩

/-- A formula in one of the files has a variable with this text. -/
def Mentions (tree : FileTree) (settings : Settings) (x : String) : Prop :=
  ∃ path ∈ settings.files, ∃ text e,
    HasText tree path.text text ∧ read text = .ok e ∧ x ∈ e.vocabulary

/-- What a run trips over before it can tell what is wrong. -/
inductive Stumbles (stack : Stack) (tree : FileTree) (settings : Settings) : Prop
  /-- The option for the transformation is used without a value. -/
  | noName (h : settings.transformation = none)
  /-- The option for the file is used without a value. -/
  | noFile (h : settings.expression = none)
  /-- The system refuses to look under a path. -/
  | refused {path : Path} {error : SystemError} (hpath : path ∈ settings.files)
      (h : Refused tree path.text error)
  /-- There is no room for the disjunctive normal form of the formula. -/
  | exhausted {name text : String} {path : Path} {e : Expr} (h : settings.Asks name .dnf path)
      (htext : HasText tree path.text text) (hread : read text = .ok e)
      (hroom : Exhausts stack settings.debug e .dnf)
  /-- The formulas have so many variables that the rows over them cannot be counted in writing. -/
  | uncounted {xs : Vocabulary} (hnodup : xs.Nodup) (hxs : ∀ x ∈ xs, Mentions tree settings x)
      (h : Session.uncountedLength ≤ xs.length)

theorem stumbles_of_not_countable {V : String → Prop} {before after : Session}
    (h : Session.Counts V before after) (hV : ∀ x, V x → Mentions tree settings x)
    (hbefore : before.Countable) (hafter : ¬ after.Countable) : Stumbles stack tree settings := by
  obtain ⟨xs, hnodup, hxs, hlength⟩ :=
    Session.exists_variables_of_not_countable h hbefore hafter
  exact .uncounted hnodup (fun x hx => hV x (hxs x hx)) hlength

theorem code_le_of_compares {e : Expr} {session : Session}
    (h : Compares tree settings e session exit lines)
    (he : ∀ x ∈ e.vocabulary, Mentions tree settings x) (hs : session.Countable) :
    exit.code ≤ 2 ∨ Stumbles stack tree settings := by
  cases h with
  | alone => exact .inl (by decide)
  | judged => exact .inl (by decide)
  | @uncounted path text other h htext hread hcount =>
    have hother (x : String) (hx : x ∈ other.vocabulary) : Mentions tree settings x :=
      ⟨path, settings.mem_files_of_compare h, text, other, htext, hread, hx⟩
    exact .inr (stumbles_of_not_countable (Session.counts_equivalent e other session)
      (fun x hx => hx.elim (he x) (hother x)) hs hcount)
  | noText => exact .inl (by decide)
  | noDocument => exact .inl (by decide)
  | refused h htext => exact .inr (.refused (settings.mem_files_of_compare h) htext)

theorem code_le_of_ends (h : Ends stack tree settings exit lines) :
    exit.code ≤ 3 ∨ Stumbles stack tree settings := by
  cases h with
  | noName h => exact .inr (.noName h)
  | unknownName => exact .inl (by decide)
  | noFile _ _ h => exact .inr (.noFile h)
  | refused h htext =>
    exact .inr (.refused (settings.mem_files_of_expression h.expression) htext)
  | noText => exact .inl (by decide)
  | noDocument => exact .inl (by decide)
  | @uncounted name text t path e h htext hread hcount =>
    have he (x : String) (hx : x ∈ e.vocabulary) : Mentions tree settings x :=
      ⟨path, settings.mem_files_of_expression h.expression, text, e, htext, hread, hx⟩
    exact .inr (stumbles_of_not_countable (Session.counts_run t e .initial) he
      Session.countable_initial hcount)
  | @exhausted name text t path e h htext hread hcount hroom =>
    obtain rfl : t = .dnf := by cases hroom <;> rfl
    exact .inr (.exhausted h htext hread hroom)
  | @answered name text answer t path e exit lines h htext hread hcount hroom hanswer hcompare =>
    have he (x : String) (hx : x ∈ e.vocabulary) : Mentions tree settings x :=
      ⟨path, settings.mem_files_of_expression h.expression, text, e, htext, hread, hx⟩
    exact (code_le_of_compares hcompare he hcount).imp_left fun h => Nat.le_succ_of_le h

end

/-! ## Whole runs -/

/-- Only a file is named. -/
theorem ofWords_expression {name : String} (h : name.toList.head? ≠ some '-') :
    Settings.ofWords ["-e", name] =
      .ok { Settings.initial with expression := some (Path.ofText name) } := by
  have hclassify : classify name = .ok (.value name) := by
    unfold classify
    dsimp only
    split
    · next heq => exact absurd (heq ▸ rfl) h
    · rfl
  have hname : name ≠ "--" := by
    rintro rfl
    exact h rfl
  have hrest : classifyAll [name] = .ok [.value name] := by
    rw [classifyAll, hclassify]
    · rfl
    · exact hname
  have hall : classifyAll ["-e", name] = .ok [.option ⟨.expression, true, none⟩, .value name] :=
    congrArg (Except.map (Word.option ⟨.expression, true, none⟩ :: ·)) hrest
  rw [Settings.ofWords, hall]
  rfl

theorem runOn_eq (stack : Stack) (tree : FileTree) {words : List String} {settings : Settings}
    (hwords : Settings.ofWords words = .ok settings) (hhelp : settings.help = false) :
    runOn stack tree words = ⟨(report stack tree settings).1,
      textOf (thresholdOf settings.verbose settings.debug)
        (report stack tree settings).2.report.reverse,
      (report stack tree settings).2.written,
      createdIn tree (report stack tree settings).2.written⟩ := by
  unfold runOn
  rw [hwords]
  dsimp only
  rw [hhelp]
  rfl

theorem exit_runOn (stack : Stack) (tree : FileTree) {words : List String} {settings : Settings}
    (hwords : Settings.ofWords words = .ok settings) (hhelp : settings.help = false) :
    (runOn stack tree words).exit = (report stack tree settings).1 := by
  rw [runOn_eq stack tree hwords hhelp]

/-- **The rules say how a run ends that draws nothing.** Whatever room there is, and whatever the
files and the words of the command line are, as long as the formulas have few levels, exactly one
ending and one list of lines comes from the rules. It is how the run ends, and unless more is asked
for these are the lines of its output. The code is one of those from zero to three, unless the run
stumbles over something that is not foreseen. No file is written. -/
theorem run_ends (stack : Stack) {tree : FileTree} {words : List String} {settings : Settings}
    (hwords : Settings.ofWords words = .ok settings) (hhelp : settings.help = false)
    (hvisualize : settings.visualize = none) (hshallow : Shallow tree settings) :
    (∃ lines,
      (∀ exit lines', Ends stack tree settings exit lines' ↔
        exit = (runOn stack tree words).exit ∧ lines' = lines) ∧
      (settings.verbose = false → settings.debug = false →
        (runOn stack tree words).output = String.join (lines.map (· ++ "\n")))) ∧
    ((runOn stack tree words).exit.code ≤ 3 ∨ Stumbles stack tree settings) ∧
    (runOn stack tree words).written = [] ∧ (runOn stack tree words).created = [] := by
  obtain ⟨exit, lines, hends⟩ := exists_ends stack hshallow
  have hfinishes := finishes_of_ends hvisualize hshallow hends
  have hrun := runOn_eq stack tree hwords hhelp
  have hexit : (runOn stack tree words).exit = exit :=
    (exit_runOn stack tree hwords hhelp).trans hfinishes.exit
  refine ⟨⟨lines, fun exit' lines' => ⟨fun h => ?_, ?_⟩, fun hverbose hdebug => ?_⟩, ?_, ?_, ?_⟩
  · have hfinishes' := finishes_of_ends hvisualize hshallow h
    exact ⟨(hfinishes'.exit.symm.trans hfinishes.exit).trans hexit.symm,
      hfinishes'.shown.symm.trans hfinishes.shown⟩
  · rintro ⟨rfl, rfl⟩
    rw [hexit]
    exact hends
  · rw [hrun, hverbose, hdebug, ← hfinishes.shown]
    rfl
  · rw [hexit]
    exact code_le_of_ends hends
  · rw [hrun]
    exact hfinishes.written
  · rw [hrun, hfinishes.written]
    rfl

/-- A file with a variable: the variable is printed again. -/
theorem variable_printed : ∃ (tree : FileTree) (words : List String) (settings : Settings),
    Settings.ofWords words = .ok settings ∧ settings.help = false ∧ settings.visualize = none ∧
      Shallow tree settings ∧ words = ["-e", "f"] ∧ (run tree words).exit = .done ∧
      (run tree words).output = "\"p\"\n" := by
  let p : Name := ⟨"p", by decide⟩
  let tree : FileTree :=
    FileTree.empty.insert ⟨.above 0, ["f"]⟩ (.file (write (.var p)).toUTF8.toList)
  let settings : Settings := { Settings.initial with expression := some (Path.ofText "f") }
  have hpath : (Path.ofText (Path.ofText "f").text).text = "f" := by decide +kernel
  have hplace : tree.locate "f" = .ok ⟨.above 0, ["f"]⟩ := rfl
  have htext : HasText tree (Path.ofText "f").text (write (.var p)) := by
    refine ⟨write (.var p), ?_, by decide +kernel, by decide +kernel⟩
    rw [hpath]
    exact FileTree.find_insert hplace (List.cons_ne_nil _ _)
  have hshallow : Shallow tree settings := by
    intro path hmem text e htext' hread
    obtain rfl : path = Path.ofText "f" := List.mem_singleton.mp hmem
    have hsame := (readText_of_hasText htext').symm.trans (readText_of_hasText htext)
    cases hsame
    rw [read_write] at hread
    cases hread
    decide
  have hwords : Settings.ofWords ["-e", "f"] = .ok settings := ofWords_expression (by decide)
  obtain ⟨⟨lines, hends, houtput⟩, -⟩ := run_ends .standard hwords rfl rfl hshallow
  have hanswer : respond (some (write (.var p))) "DNF" = .ok (write (.var p)) :=
    respond_of_apply Transformation.dnf.ofName?_name (read_write _) (by decide)
      (Transformation.dnf.apply_var p)
  have hcount : (Transformation.dnf.run (.var p) .initial).2.Countable :=
    (Session.counts_run .dnf (.var p) .initial).countable Session.countable_initial (by decide)
  have hsimple : (Expr.var p).toNnf.simplify = .var p := Expr.simplify_var p
  have hroom : ¬ Exhausts .standard false (.var p) .dnf := by
    rintro (h | ⟨_, hshown, _⟩ | ⟨hr, h⟩)
    · rw [hsimple] at h
      cases h
    · cases hshown
    · cases (Transformation.dnf.apply_var p).symm.trans hr
      cases h
  have hdone : Ends .standard tree settings .done [write (.var p)] :=
    .answered ⟨rfl, Transformation.dnf.ofName?_name, rfl⟩ htext (read_write _) hcount hroom hanswer
      (.alone rfl)
  obtain ⟨hexit, hlines⟩ := (hends _ _).mp hdone
  refine ⟨tree, _, settings, hwords, rfl, rfl, hshallow, rfl, hexit.symm, ?_⟩
  rw [run, houtput rfl rfl, ← hlines]
  decide +kernel

/-- **A file with a name that is too long is not reported as missing.** The system refuses to look
for it, and the error is not one that is expected. -/
theorem exit_of_long_name (stack : Stack) (tree : FileTree) {name : String}
    (hhyphen : name.toList.head? ≠ some '-') (hslash : '/' ∉ name.toList)
    (hnull : '\x00' ∉ name.toList)
    (hlong : nameLimit < name.utf8ByteSize) (hlimit : name.utf8ByteSize ≤ pathLimit) :
    (∀ text, ¬ HasText tree (Path.ofText name).text text) ∧
      (runOn stack tree ["-e", name]).exit = .unexpected := by
  let settings : Settings := { Settings.initial with expression := some (Path.ofText name) }
  have hne (other : String) (hshort : other.utf8ByteSize ≤ nameLimit) : name ≠ other := by
    rintro rfl
    omega
  have hpath : (Path.ofText name).text = name :=
    Path.text_ofText_name hslash (hne "" (by decide)) (hne "." (by decide))
  have hfind : tree.find (Path.ofText (Path.ofText name).text).text = .error .tooLong := by
    rw [hpath, hpath]
    exact tree.find_long_name hslash hnull hlong hlimit
  have hnone (text : String) : ¬ HasText tree (Path.ofText name).text text := by
    rintro ⟨content, hfile, -⟩
    rw [hfind] at hfile
    cases hfile
  have hshallow : Shallow tree settings := by
    intro path hmem text e htext
    obtain rfl : path = Path.ofText name := List.mem_singleton.mp hmem
    exact absurd htext (hnone text)
  have hends : Ends stack tree settings .unexpected _ :=
    .refused ⟨rfl, Transformation.dnf.ofName?_name, rfl⟩ (.tooLong hfind)
  have hfinishes := finishes_of_ends rfl hshallow hends
  have hwords : Settings.ofWords ["-e", name] = .ok settings := ofWords_expression hhyphen
  exact ⟨hnone, (exit_runOn stack tree hwords rfl).trans hfinishes.exit⟩

/-- With a name of 256 letters there is no file to be read, the transformation is a known one, and
still the run ends with none of the endings for that. -/
theorem long_name_unexpected : ∃ (name : String) (settings : Settings),
    name = String.ofList (List.replicate 256 'n') ∧
      Settings.ofWords ["-e", name] = .ok settings ∧ settings.help = false ∧
      settings.visualize = none ∧ settings.transformation = some Transformation.dnf.name ∧
      (∀ path text, settings.expression = some path → ¬ HasText FileTree.empty path.text text) ∧
      (run FileTree.empty ["-e", name]).exit.code = 5 := by
  obtain ⟨name, hname⟩ : ∃ name, name = String.ofList (List.replicate 256 'n') := ⟨_, rfl⟩
  have htoList : name.toList = List.replicate 256 'n' := by rw [hname, String.toList_ofList]
  have hsize : name.utf8ByteSize = 256 := by
    rw [hname]
    decide +kernel
  have hhyphen : name.toList.head? ≠ some '-' := by
    rw [htoList]
    decide
  obtain ⟨hnone, hexit⟩ := exit_of_long_name .standard FileTree.empty hhyphen
    (by rw [htoList]; decide) (by rw [htoList]; decide) (by rw [hsize]; decide)
    (by rw [hsize]; decide)
  refine ⟨name, _, hname, ofWords_expression hhyphen, rfl, rfl, rfl, ?_, ?_⟩
  · intro path text h
    obtain rfl : Path.ofText name = path := Option.some.inj h
    exact hnone text
  · rw [run, hexit]
    rfl

end Propositional.Command
