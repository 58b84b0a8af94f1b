import Propositional.Proofs.NormalForm.Disjunctive

/-!
# Why distribution ends

A call of distribution on a conjunction without a disjunction on either side first converts the
sides and then calls itself on the conjunction of what these calls gave. That formula is no part of
the first one and may be much larger, so no count of nodes goes down. What goes down depends on what
the function gives: converting a side keeps the number of clauses still to be made, and a side that
is no clause comes back as a disjunction. So the conjunction of the results can be distributed, as
the conjunction itself could not.

To speak of the calls before it is known that they end, the work of one call is written down as a
tree without recursion (`work`): it gives a result, or it calls for the conversion of a formula and
goes on with what that gives. `Returns` says that a call comes to an end, by a finite derivation;
`Calls` are the calls that are made on the way.

Results:
* `run_work`: `distribute` satisfies the equation of the work, so whatever a call returns is its
  value (`run_eq_of_returns`).
* `Calls.rank_lt`, `wellFounded_calls`: each call descends, those on conjunctions of results too.
* `returns_work`: so each call returns.
* `distribution_ends`: these together, with the reason why distributing again makes progress.
* `agrees_distributeWithin`: within limited room the same is distributed, or it is given up.
-/

namespace Propositional

namespace Expr

/-- A conjunction at the root. -/
def isConjunction : Expr → Bool
  | and _ _ => true
  | _ => false

/-- What a call of distribution has left to do. -/
inductive Work where
  /-- It gives this result. -/
  | done (result : Except NotNnf Expr)
  /-- It converts a formula, and goes on with what that gives. -/
  | call (e : Expr) (resume : Expr → Work)

namespace Work

/-- Converts two formulas and gives the disjunction of the results. -/
def join (a b : Expr) : Work :=
  .call a fun a' => .call b fun b' => .done (.ok (or a' b'))

/-- Gives what converting the formula gives. -/
def again (e : Expr) : Work :=
  .call e fun s => .done (.ok s)

end Work

/-- The work of a call on the formula, without the work of the calls that it makes. -/
def work (e : Expr) : Work :=
  if e.isLiteral || e.isClause then .done (.ok e)
  else
    match e with
    | or l r => .join l r
    | and l r =>
      match l.sides with
      | .disjunction x y _ => .join (and x r) (and y r)
      | .other _ =>
        match r.sides with
        | .disjunction x y _ => .join (and l x) (and l y)
        | .other _ =>
          -- Where one side is a literal, no call is made for it.
          if l.isLiteral && r.isConjunction then .call r fun r' => .again (and l r')
          else if r.isLiteral && l.isConjunction then .call l fun l' => .again (and l' r)
          else .call l fun l' => .call r fun r' => .again (and l' r')
    | e => .done (.error ⟨e⟩)

/-- The work comes to an end with this result. -/
inductive Returns : Work → Except NotNnf Expr → Prop
  /-- There is nothing left to do. -/
  | done {result : Except NotNnf Expr} : Returns (.done result) result
  /-- A call fails, and the work with it. -/
  | failed {e : Expr} {resume : Expr → Work} {reason : NotNnf}
      (h : Returns (work e) (.error reason)) : Returns (.call e resume) (.error reason)
  /-- A call returns, and the work goes on with what it gave. -/
  | resumed {e s : Expr} {resume : Expr → Work} {result : Except NotNnf Expr}
      (h : Returns (work e) (.ok s)) (h' : Returns (resume s) result) :
      Returns (.call e resume) result

/-- While the work is done, this formula is converted. -/
inductive Calls : Work → Expr → Prop
  /-- It is converted next. -/
  | next {e : Expr} {resume : Expr → Work} : Calls (.call e resume) e
  /-- It is converted after another call has returned. -/
  | later {e s f : Expr} {resume : Expr → Work} (h : Returns (work e) (.ok s))
      (h' : Calls (resume s) f) : Calls (.call e resume) f

/-! ## What the calls return -/

/-- The result of the work, if each call gives the value of `distribute`. -/
def Work.run : Work → Except NotNnf Expr
  | .done result => result
  | .call e resume => do (resume (← e.distribute)).run

theorem run_join (a b : Expr) :
    (Work.join a b).run = (do return or (← a.distribute) (← b.distribute)) := rfl

theorem run_again (e : Expr) : (Work.again e).run = e.distribute := by
  rw [Work.again, Work.run]
  cases e.distribute <;> rfl

section Rules

variable {e l r x y : Expr}

theorem work_of_isClause (h : e.isClause = true) : work e = .done (.ok e) := by
  unfold work
  rw [if_pos (by rw [h, Bool.or_true])]

/-- What is no clause is no literal, so the first question is answered in the negative. -/
theorem not_isLiteral_or_isClause (h : e.isClause ≠ true) :
    ¬ (e.isLiteral || e.isClause) = true := by
  rw [Bool.or_eq_true]
  exact fun hor => h (hor.elim isClause_of_isLiteral id)

theorem work_not (h : (not e).isClause ≠ true) : work (not e) = .done (.error ⟨not e⟩) := by
  unfold work
  rw [if_neg (not_isLiteral_or_isClause h)]

theorem work_or (h : (or l r).isClause ≠ true) : work (or l r) = .join l r := by
  unfold work
  rw [if_neg (not_isLiteral_or_isClause h)]

theorem work_and_or_left (h : (and (or x y) r).isClause ≠ true) :
    work (and (or x y) r) = .join (and x r) (and y r) := by
  unfold work
  rw [if_neg (not_isLiteral_or_isClause h)]
  rfl

theorem work_and_or_right (h : (and l (or x y)).isClause ≠ true) (hl : l.isDisjunction = false) :
    work (and l (or x y)) = .join (and l x) (and l y) := by
  unfold work
  rw [if_neg (not_isLiteral_or_isClause h)]
  dsimp only [sides_or]
  rw [sides_of_not_disjunction hl]

theorem work_and (h : (and l r).isClause ≠ true) (hl : l.isDisjunction = false)
    (hr : r.isDisjunction = false) :
    work (and l r) =
      if l.isLiteral && r.isConjunction then .call r fun r' => .again (and l r')
      else if r.isLiteral && l.isConjunction then .call l fun l' => .again (and l' r)
      else .call l fun l' => .call r fun r' => .again (and l' r') := by
  unfold work
  rw [if_neg (not_isLiteral_or_isClause h)]
  dsimp only
  rw [sides_of_not_disjunction hl, sides_of_not_disjunction hr]

/-- Both sides are converted, or one of them, and then the other one is a clause. -/
theorem work_and_cases (h : (and l r).isClause ≠ true) (hl : l.isDisjunction = false)
    (hr : r.isDisjunction = false) :
    (l.isClause = true ∧ work (and l r) = .call r fun r' => .again (and l r')) ∨
      (r.isClause = true ∧ work (and l r) = .call l fun l' => .again (and l' r)) ∨
      work (and l r) = .call l fun l' => .call r fun r' => .again (and l' r') := by
  rw [work_and h hl hr]
  split
  · next hlit =>
    rw [Bool.and_eq_true] at hlit
    exact Or.inl ⟨isClause_of_isLiteral hlit.1, rfl⟩
  · split
    · next hlit =>
      rw [Bool.and_eq_true] at hlit
      exact Or.inr (Or.inl ⟨isClause_of_isLiteral hlit.1, rfl⟩)
    · exact Or.inr (Or.inr rfl)

end Rules

/-- **Distribution satisfies the equation of its work.** -/
theorem run_work (e : Expr) : (work e).run = e.distribute := by
  cases e using distribute_cases with
  | clause e hc =>
    rw [work_of_isClause hc, distribute_of_isClause hc]
    rfl
  | not e hc =>
    rw [work_not hc, distribute_not hc]
    rfl
  | or l r hc => rw [work_or hc, run_join, distribute_or hc]
  | and_or_left x y r hc => rw [work_and_or_left hc, run_join, distribute_and_or_left hc]
  | and_or_right l x y hc hl =>
    rw [work_and_or_right hc hl, run_join, distribute_and_or_right hc hl]
  | and l r hc hl hr =>
    rw [distribute_and hc hl hr]
    rcases work_and_cases hc hl hr with ⟨hclause, hwork⟩ | ⟨hclause, hwork⟩ | hwork
    · -- Converting a clause makes no difference.
      rw [hwork, distribute_of_isClause hclause]
      simp only [Work.run, run_again]
      rfl
    · rw [hwork, distribute_of_isClause hclause]
      simp only [Work.run, run_again]
      rfl
    · rw [hwork]
      simp only [Work.run, run_again]

theorem run_eq_of_returns {w : Work} {result : Except NotNnf Expr} (h : Returns w result) :
    w.run = result := by
  induction h with
  | done => rfl
  | failed _ ih =>
    rw [run_work] at ih
    rw [Work.run, ih]
    rfl
  | resumed _ _ ih ih' =>
    rw [run_work] at ih
    rw [Work.run, ih]
    exact ih'

theorem distribute_of_returns {e : Expr} {result : Except NotNnf Expr}
    (h : Returns (work e) result) : e.distribute = result := by
  rw [← run_work]
  exact run_eq_of_returns h

/-! ## The calls descend -/

theorem calls_join {a b f : Expr} (h : Calls (.join a b) f) : f = a ∨ f = b := by
  cases h with
  | next => exact Or.inl rfl
  | later _ h =>
    cases h with
    | next => exact Or.inr rfl
    | later _ h => cases h

theorem calls_again {e f : Expr} (h : Calls (.again e) f) : f = e := by
  cases h with
  | next => rfl
  | later _ h => cases h

/-- A conjunction without a disjunction on either side calls for its sides, or for the conjunction
of what distribution makes of them. -/
theorem calls_and {l r f : Expr} (hc : (and l r).isClause ≠ true) (hl : l.isDisjunction = false)
    (hr : r.isDisjunction = false) (h : Calls (work (and l r)) f) :
    f = l ∨ f = r ∨ ∃ l' r', l.distribute = .ok l' ∧ r.distribute = .ok r' ∧ f = and l' r' := by
  rcases work_and_cases hc hl hr with ⟨hclause, hwork⟩ | ⟨hclause, hwork⟩ | hwork
  · rw [hwork] at h
    cases h with
    | next => exact Or.inr (Or.inl rfl)
    | later hr' h =>
      exact Or.inr (Or.inr ⟨l, _, distribute_of_isClause hclause, distribute_of_returns hr',
        calls_again h⟩)
  · rw [hwork] at h
    cases h with
    | next => exact Or.inl rfl
    | later hl' h =>
      exact Or.inr (Or.inr ⟨_, r, distribute_of_returns hl', distribute_of_isClause hclause,
        calls_again h⟩)
  · rw [hwork] at h
    cases h with
    | next => exact Or.inl rfl
    | later hl' h =>
      cases h with
      | next => exact Or.inr (Or.inl rfl)
      | later hr' h =>
        exact Or.inr (Or.inr ⟨_, _, distribute_of_returns hl', distribute_of_returns hr',
          calls_again h⟩)

/-- **Each call descends**: there are fewer clauses to make, or as many and a disjunction to
distribute over that was not there before, or as many and the formula is smaller. -/
theorem Calls.rank_lt {e f : Expr} (h : Calls (work e) f) :
    Prod.Lex (· < ·) (Prod.Lex (· < ·) (· < ·)) f.distributeRank e.distributeRank := by
  cases e using distribute_cases with
  | clause e hc =>
    rw [work_of_isClause hc] at h
    cases h
  | not e hc =>
    rw [work_not hc] at h
    cases h
  | or l r hc =>
    rw [work_or hc] at h
    rcases calls_join h with rfl | rfl
    · exact .left _ _ (Nat.lt_add_of_pos_right r.clauseCount_pos)
    · exact .left _ _ (Nat.lt_add_of_pos_left l.clauseCount_pos)
  | and_or_left x y r hc =>
    rw [work_and_or_left hc] at h
    obtain ⟨hx, hy⟩ := clauseCount_left_lt (r := r) (rfl : Expr.or x y = Expr.or x y)
    rcases calls_join h with rfl | rfl
    · exact .left _ _ hx
    · exact .left _ _ hy
  | and_or_right l x y hc hl =>
    rw [work_and_or_right hc hl] at h
    obtain ⟨hx, hy⟩ := clauseCount_right_lt (l := l) (rfl : Expr.or x y = Expr.or x y)
    rcases calls_join h with rfl | rfl
    · exact .left _ _ hx
    · exact .left _ _ hy
  | and l r hc hl hr =>
    obtain ⟨hlt, hrt⟩ := rank_lt_of_no_disjunction hl hr
    rcases calls_and hc hl hr h with rfl | rfl | ⟨l', r', hl', hr', rfl⟩
    · exact hlt
    · exact hrt
    · exact rank_and_lt hc hl hr (distributed_of_distribute hl') (distributed_of_distribute hr')

/-- **There is no infinite descent in the calls.** -/
theorem wellFounded_calls : WellFounded fun f e : Expr => Calls (work e) f :=
  Subrelation.wf Calls.rank_lt (invImage distributeRank inferInstance).wf

/-! ## Each call returns -/

theorem returns_of_isClause {e : Expr} (h : e.isClause = true) : Returns (work e) (.ok e) := by
  rw [work_of_isClause h]
  exact .done

/-- Work comes to an end if all the calls do that are made on the way. -/
theorem returns_run {w : Work} (h : ∀ f, Calls w f → Returns (work f) f.distribute) :
    Returns w w.run := by
  induction w with
  | done result => exact .done
  | call e resume ih =>
    have he := h e .next
    rw [Work.run]
    cases hd : e.distribute with
    | error reason =>
      rw [hd] at he
      exact .failed he
    | ok s =>
      rw [hd] at he
      exact .resumed he (ih s fun f hf => h f (.later he hf))

/-- **Each call returns**, and what it returns is the value of `distribute`. -/
theorem returns_work (e : Expr) : Returns (work e) e.distribute := by
  induction e using wellFounded_calls.induction with
  | h e ih =>
    have hrun := returns_run ih
    rwa [run_work] at hrun

theorem returns_work_iff {e : Expr} {result : Except NotNnf Expr} :
    Returns (work e) result ↔ result = e.distribute := by
  constructor
  · exact fun h => (distribute_of_returns h).symm
  · rintro rfl
    exact returns_work e

/-- One of two converted sides is a disjunction, unless the sides made up a clause. -/
theorem isDisjunction_of_converted {l r l' r' : Expr} (hc : (and l r).isClause ≠ true)
    (hl : l.distribute = .ok l') (hr : r.distribute = .ok r') :
    (l'.isDisjunction || r'.isDisjunction) = true := by
  have hsteps := stepsToDistribute_and hc (distributed_of_distribute hl)
    (distributed_of_distribute hr)
  cases hd : l'.isDisjunction || r'.isDisjunction with
  | true => rfl
  | false =>
    rw [stepsToDistribute, hd] at hsteps
    cases hsteps

/-- **Distribution ends on every formula**, in negation normal form or not. Its calls descend in a
well-founded order, those on conjunctions of results too; so each call comes to an end, and what it
returns is the value of `distribute`. A conjunction in negation normal form that is no clause
becomes a disjunction. So where both sides of a conjunction are converted first, one of the results
is a disjunction, which it is then distributed over. -/
theorem distribution_ends :
    (∀ e f : Expr, Calls (work e) f →
      Prod.Lex (· < ·) (Prod.Lex (· < ·) (· < ·)) f.distributeRank e.distributeRank) ∧
    (WellFounded fun f e : Expr => Calls (work e) f) ∧
    (∀ (e : Expr) (result : Except NotNnf Expr),
      Returns (work e) result ↔ result = e.distribute) ∧
    (∀ l r : Expr, (and l r).isNnf = true → (and l r).isClause ≠ true →
      ∃ x y, (and l r).distribute = .ok (or x y)) ∧
    ∀ l r l' r' : Expr, (and l r).isClause ≠ true →
      Returns (work l) (.ok l') → Returns (work r) (.ok r') →
      l'.isDisjunction = true ∨ r'.isDisjunction = true := by
  refine ⟨fun _ _ => Calls.rank_lt, wellFounded_calls, fun _ _ => returns_work_iff,
    fun l r hnnf hc => ?_, fun l r l' r' hc hl hr => ?_⟩
  · obtain ⟨s, hs⟩ := exists_distribute_of_isNnf hnnf
    obtain ⟨x, y, rfl⟩ := eq_or_of_isDisjunction (isDisjunction_of_distribute hs hc)
    exact ⟨x, y, hs⟩
  · rw [← Bool.or_eq_true]
    exact isDisjunction_of_converted hc (distribute_of_returns hl) (distribute_of_returns hr)

/-- At `p & (q & (r | s))`, of seven nodes, distribution calls itself on
`p & ((q & r) | (q & s))`, of nine, and yet it descends. -/
theorem conjunction_of_results_descends : ∃ p q r s : Name, ∃ e f : Expr,
    e = and (var p) (and (var q) (or (var r) (var s))) ∧
      f = and (var p) (or (and (var q) (var r)) (and (var q) (var s))) ∧
      Calls (work e) f ∧ e.size < f.size ∧
      Prod.Lex (· < ·) (Prod.Lex (· < ·) (· < ·)) f.distributeRank e.distributeRank ∧
      e.isNnf = true ∧ e.isClause ≠ true ∧ (∃ x y, e.distribute = .ok (or x y)) ∧
      ∃ l' r', f = and l' r' ∧ Returns (work (var p)) (.ok l') ∧
        Returns (work (and (var q) (or (var r) (var s)))) (.ok r') ∧
        (l'.isDisjunction = true ∨ r'.isDisjunction = true) := by
  let p : Name := ⟨"p", by decide⟩
  let q : Name := ⟨"q", by decide⟩
  let r : Name := ⟨"r", by decide⟩
  let s : Name := ⟨"s", by decide⟩
  have hleft : Returns (work (var p)) (.ok (var p)) := returns_of_isClause rfl
  have hright : Returns (work (and (var q) (or (var r) (var s))))
      (.ok (or (and (var q) (var r)) (and (var q) (var s)))) := by
    rw [work_and_or_right (by decide) rfl]
    exact .resumed (returns_of_isClause rfl) (.resumed (returns_of_isClause rfl) .done)
  have hcalls : Calls (work (and (var p) (and (var q) (or (var r) (var s)))))
      (and (var p) (or (and (var q) (var r)) (and (var q) (var s)))) := by
    rw [work_and (by decide) rfl rfl]
    exact .later hright .next
  exact ⟨p, q, r, s, _, _, rfl, rfl, hcalls, by decide, distribution_ends.1 _ _ hcalls, rfl,
    by decide, distribution_ends.2.2.2.1 _ _ rfl (by decide), _, _, rfl, hleft, hright,
    distribution_ends.2.2.2.2 _ _ _ _ (by decide) hleft hright⟩

/-! ## Within limited room -/

/-- What is done within limited room, if it is not given up, has this outcome. -/
def Agrees {α : Type} (within : ExceptT NotNnf Option α) (outcome : Except NotNnf α) : Prop :=
  ∀ result, within.run = some result → result = outcome

section

variable {α β : Type} {within : ExceptT NotNnf Option α} {outcome : Except NotNnf α}

theorem agrees_pure (a : α) : Agrees (pure a) (.ok a) := by
  rintro _ ⟨⟩
  rfl

theorem Agrees.bind {f : α → ExceptT NotNnf Option β} {g : α → Except NotNnf β}
    (h : Agrees within outcome) (h' : ∀ a, Agrees (f a) (g a)) :
    Agrees (within >>= f) (outcome >>= g) := by
  intro result hresult
  have hbind : (within >>= f).run = within.run.bind (ExceptT.bindCont f) := rfl
  rw [hbind, Option.bind_eq_some_iff] at hresult
  obtain ⟨first, hfirst, hrest⟩ := hresult
  obtain rfl := h first hfirst
  cases first with
  | error reason =>
    cases hrest
    rfl
  | ok a => exact h' a result hrest

/-- Two parts of a disjunction are converted one after the other. -/
theorem Agrees.or {within' : ExceptT NotNnf Option Expr} {outcome' : Except NotNnf Expr}
    {within : ExceptT NotNnf Option Expr} {outcome : Except NotNnf Expr}
    (h : Agrees within outcome) (h' : Agrees within' outcome') :
    Agrees (do return Expr.or (← within) (← within'))
      (do return Expr.or (← outcome) (← outcome')) :=
  h.bind fun _ => h'.bind fun _ => agrees_pure _

end

/-- **What is distributed within limited room is what distribution gives.** -/
theorem agrees_distributeWithin (room : Nat) (e : Expr) :
    Agrees (distributeWithin room e) e.distribute := by
  induction room generalizing e with
  | zero => exact nofun
  | succ room ih =>
    unfold distributeWithin
    cases e using distribute_cases with
    | clause e hc =>
      rw [if_pos hc, distribute_of_isClause hc]
      exact agrees_pure e
    | not e hc =>
      rw [if_neg hc, distribute_not hc]
      rintro _ ⟨⟩
      rfl
    | or l r hc =>
      rw [if_neg hc, distribute_or hc]
      exact (ih l).or (ih r)
    | and_or_left x y r hc =>
      rw [if_neg hc, distribute_and_or_left hc]
      exact (ih _).or (ih _)
    | and_or_right l x y hc hl =>
      rw [if_neg hc, distribute_and_or_right hc hl]
      dsimp only [sides_or]
      rw [sides_of_not_disjunction hl]
      exact (ih _).or (ih _)
    | and l r hc hl hr =>
      rw [if_neg hc, distribute_and hc hl hr]
      dsimp only
      rw [sides_of_not_disjunction hl, sides_of_not_disjunction hr]
      exact (ih l).bind fun _ => (ih r).bind fun _ => ih _

end Expr

end Propositional
