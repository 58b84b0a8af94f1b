import Propositional.NormalForm.Negation
import Propositional.Simplify

/-!
# Disjunctive normal form

`distribute` takes a formula in negation normal form to disjunctive normal form. Clauses stay as
they are and disjunctions are converted side by side. A conjunction is distributed over a
disjunction on its left or, failing that, on its right; where there is none, both sides are
converted first, and then one of them is a disjunction. A negation of anything but a variable stops
the conversion.

`distribute` ends because it keeps `clauseCount`, the number of clauses the result will have, and
each call has fewer clauses to make, or as many and a disjunction to distribute over, or as many and
a smaller formula.

`toDnf` puts a formula into negation normal form, simplifies it, and distributes.

* `distribute_of_isClause`, `distribute_or`, `distribute_and_or_left` and their neighbours are the
  rules as equations.
* `isDisjunction_of_distribute`: what is no clause becomes a disjunction.

`distribute` is `nnf_to_dnf` and `toDnf` is `to_dnf`. A side that is a literal is converted like any
other side, which changes nothing; the calls as they are made, and why they end, are the subject of
`Proofs.NormalForm.Calls`. `distributeWithin` is the same with a bound on the calls that are open at
a time. Out of scope: the steps that are noted, which `Session.toDnf` adds.
-/

namespace Propositional

/-- The reason why a formula cannot be distributed: it holds this formula, the negation of
something that is not a variable. -/
structure NotNnf where
  offending : Expr
  deriving DecidableEq

/-- The wording of the reason. -/
def NotNnf.message (reason : NotNnf) : String :=
  "Expression is not in negation normal form: " ++ reason.offending.display

namespace Expr

/-- A formula looked at as a disjunction, or as anything else. -/
inductive Sides (e : Expr) where
  | disjunction (left right : Expr) (eq_or : e = or left right)
  | other (not_or : e.isDisjunction = false)

/-- Takes a disjunction apart. -/
def sides : (e : Expr) → Sides e
  | const _ | var _ | not _ | and _ _ => .other rfl
  | or l r => .disjunction l r rfl

theorem sides_or (l r : Expr) : (or l r).sides = .disjunction l r rfl := rfl

theorem sides_of_not_disjunction {e : Expr} (h : e.isDisjunction = false) :
    e.sides = .other h := by
  cases e with
  | bin c l r =>
    cases c with
    | and => rfl
    | or => cases h
  | _ => rfl

/-- The number of clauses after distribution. -/
def clauseCount : Expr → Nat
  | or l r => l.clauseCount + r.clauseCount
  | and l r => l.clauseCount * r.clauseCount
  | _ => 1

/-- Zero for a conjunction with a disjunction on one side, one for all others. -/
def stepsToDistribute : Expr → Nat
  | and l r => if l.isDisjunction || r.isDisjunction then 0 else 1
  | _ => 1

theorem clauseCount_pos (e : Expr) : 0 < e.clauseCount := by
  induction e with
  | bin c l r ihl ihr =>
    cases c with
    | and => exact Nat.mul_pos ihl ihr
    | or => exact Nat.add_pos_left ihl _
  | _ => exact Nat.one_pos

theorem stepsToDistribute_le (e : Expr) : e.stepsToDistribute ≤ 1 := by
  unfold stepsToDistribute
  split
  · split <;> decide
  · exact Nat.le_refl 1

/-- A clause that is no disjunction is a conjunctive clause. -/
theorem isClauseOf_and_of_isClause {e : Expr} (h : e.isClause = true)
    (hd : e.isDisjunction = false) : e.isClauseOf .and = true := by
  cases e with
  | bin c l r =>
    cases c with
    | and => rw [isClauseOf_bin_self]; exact h
    | or => cases hd
  | _ => exact h

theorem isDisjunction_eq_false_of_isClauseOf_and {e : Expr} (h : e.isClauseOf .and = true) :
    e.isDisjunction = false := by
  cases e with
  | bin c l r =>
    cases c with
    | and => rfl
    | or => simp [isClauseOf] at h
  | _ => rfl

/-- What the recursion of `distribute` rests on: the number of clauses is kept, a clause is left
alone, and anything else becomes a disjunction. -/
structure Distributed (e r : Expr) : Prop where
  clauseCount_eq : r.clauseCount = e.clauseCount
  eq_of_isClause : e.isClause = true → r = e
  isDisjunction : e.isClause ≠ true → r.isDisjunction = true

/-- Converting both sides of a conjunction that is no clause gives none either. -/
theorem not_isClause_and {l r l' r' : Expr} (h : (and l r).isClause ≠ true)
    (hl : Distributed l l') (hr : Distributed r r') : (and l' r').isClause ≠ true := by
  intro hc
  rw [isClause_bin, Bool.and_eq_true] at hc
  have side : ∀ {e e' : Expr}, Distributed e e' → e'.isClauseOf .and = true →
      e.isClauseOf .and = true := by
    intro e e' he hc'
    by_cases hce : e.isClause = true
    · rw [← he.eq_of_isClause hce]; exact hc'
    · have := he.isDisjunction hce
      rw [isDisjunction_eq_false_of_isClauseOf_and hc'] at this
      cases this
  apply h
  rw [isClause_bin, side hl hc.1, side hr hc.2]
  rfl

/-- A conjunction of converted sides that is no clause can be distributed. -/
theorem stepsToDistribute_and {l r l' r' : Expr} (h : (and l r).isClause ≠ true)
    (hl : Distributed l l') (hr : Distributed r r') : (and l' r').stepsToDistribute = 0 := by
  show (if l'.isDisjunction || r'.isDisjunction then 0 else 1) = 0
  rw [if_pos]
  have side : ∀ {e e' : Expr}, Distributed e e' → e'.isDisjunction = false →
      e'.isClauseOf .and = true := by
    intro e e' he hd
    by_cases hce : e.isClause = true
    · rw [he.eq_of_isClause hce] at hd ⊢
      exact isClauseOf_and_of_isClause hce hd
    · rw [he.isDisjunction hce] at hd
      cases hd
  cases hdl : l'.isDisjunction with
  | true => rfl
  | false =>
    cases hdr : r'.isDisjunction with
    | true => rfl
    | false =>
      refine absurd ?_ (not_isClause_and h hl hr)
      rw [isClause_bin, side hl hdl, side hr hdr]
      rfl

/-- The order in which the calls of `distribute` descend. -/
abbrev distributeRank (e : Expr) : Nat × Nat × Nat :=
  (e.clauseCount, e.stepsToDistribute, e.size)

theorem clauseCount_left_lt {l r x y : Expr} (h : l = or x y) :
    (and x r).clauseCount < (and l r).clauseCount ∧
      (and y r).clauseCount < (and l r).clauseCount := by
  subst h
  have hx := Nat.mul_pos x.clauseCount_pos r.clauseCount_pos
  have hy := Nat.mul_pos y.clauseCount_pos r.clauseCount_pos
  simp only [clauseCount, Nat.add_mul]
  omega

theorem clauseCount_right_lt {l r x y : Expr} (h : r = or x y) :
    (and l x).clauseCount < (and l r).clauseCount ∧
      (and l y).clauseCount < (and l r).clauseCount := by
  subst h
  have hx := Nat.mul_pos l.clauseCount_pos x.clauseCount_pos
  have hy := Nat.mul_pos l.clauseCount_pos y.clauseCount_pos
  simp only [clauseCount, Nat.mul_add]
  omega

theorem stepsToDistribute_of_no_disjunction {l r : Expr} (hl : l.isDisjunction = false)
    (hr : r.isDisjunction = false) : (and l r).stepsToDistribute = 1 := by
  show (if l.isDisjunction || r.isDisjunction then 0 else 1) = 1
  simp [hl, hr]

/-- A rank is smaller if it has no more clauses, no more steps, and a smaller formula. -/
theorem rank_lt {e f : Expr} (hc : e.clauseCount ≤ f.clauseCount)
    (hs : e.stepsToDistribute ≤ f.stepsToDistribute) (h : e.size < f.size) :
    Prod.Lex (· < ·) (Prod.Lex (· < ·) (· < ·)) e.distributeRank f.distributeRank := by
  rcases Nat.lt_or_eq_of_le hc with hc | hc
  · exact Prod.Lex.left _ _ hc
  · rcases Nat.lt_or_eq_of_le hs with hs | hs
    · unfold distributeRank; rw [hc]; exact Prod.Lex.right _ (Prod.Lex.left _ _ hs)
    · unfold distributeRank; rw [hc, hs]; exact Prod.Lex.right _ (Prod.Lex.right _ h)

theorem rank_lt_of_no_disjunction {l r : Expr} (hl : l.isDisjunction = false)
    (hr : r.isDisjunction = false) :
    Prod.Lex (· < ·) (Prod.Lex (· < ·) (· < ·)) l.distributeRank (and l r).distributeRank ∧
      Prod.Lex (· < ·) (Prod.Lex (· < ·) (· < ·)) r.distributeRank (and l r).distributeRank := by
  have hs := stepsToDistribute_of_no_disjunction hl hr
  constructor
  · exact rank_lt (Nat.le_mul_of_pos_right _ r.clauseCount_pos)
      (hs ▸ l.stepsToDistribute_le) (by simp only [size]; omega)
  · exact rank_lt (Nat.le_mul_of_pos_left _ l.clauseCount_pos)
      (hs ▸ r.stepsToDistribute_le) (by simp only [size]; omega)

theorem rank_and_lt {l r l' r' : Expr} (h : (and l r).isClause ≠ true)
    (hl : l.isDisjunction = false) (hr : r.isDisjunction = false)
    (hl' : Distributed l l') (hr' : Distributed r r') :
    Prod.Lex (· < ·) (Prod.Lex (· < ·) (· < ·)) (and l' r').distributeRank
      (and l r).distributeRank := by
  have hc : (and l' r').clauseCount = (and l r).clauseCount := by
    simp only [clauseCount, hl'.clauseCount_eq, hr'.clauseCount_eq]
  unfold distributeRank
  rw [hc, stepsToDistribute_and h hl' hr', stepsToDistribute_of_no_disjunction hl hr]
  exact Prod.Lex.right _ (Prod.Lex.left _ _ Nat.one_pos)

/-- `distribute` together with the facts that its recursion rests on. -/
def distributeBounded (e : Expr) : Except NotNnf { r : Expr // Distributed e r } :=
  if hc : e.isClause = true then .ok ⟨e, rfl, fun _ => rfl, fun h => absurd hc h⟩
  else
    match e with
    | or l r =>
      match distributeBounded l with
      | .error reason => .error reason
      | .ok l' =>
        match distributeBounded r with
        | .error reason => .error reason
        | .ok r' =>
          .ok ⟨or l'.1 r'.1, by simp only [clauseCount, l'.2.clauseCount_eq, r'.2.clauseCount_eq],
            fun h => absurd h hc, fun _ => rfl⟩
    | and l r =>
      match l.sides with
      | .disjunction x y hl =>
        match distributeBounded (and x r) with
        | .error reason => .error reason
        | .ok x' =>
          match distributeBounded (and y r) with
          | .error reason => .error reason
          | .ok y' =>
            .ok ⟨or x'.1 y'.1, by
              simp only [clauseCount, x'.2.clauseCount_eq, y'.2.clauseCount_eq, hl,
                Nat.add_mul],
              fun h => absurd h hc, fun _ => rfl⟩
      | .other hl =>
        match r.sides with
        | .disjunction x y hr =>
          match distributeBounded (and l x) with
          | .error reason => .error reason
          | .ok x' =>
            match distributeBounded (and l y) with
            | .error reason => .error reason
            | .ok y' =>
              .ok ⟨or x'.1 y'.1, by
                simp only [clauseCount, x'.2.clauseCount_eq, y'.2.clauseCount_eq, hr,
                  Nat.mul_add],
                fun h => absurd h hc, fun _ => rfl⟩
        | .other hr =>
          match distributeBounded l with
          | .error reason => .error reason
          | .ok l' =>
            match distributeBounded r with
            | .error reason => .error reason
            | .ok r' =>
              match distributeBounded (and l'.1 r'.1) with
              | .error reason => .error reason
              | .ok s =>
                .ok ⟨s.1, by
                  have := s.2.clauseCount_eq
                  simp only [clauseCount, l'.2.clauseCount_eq, r'.2.clauseCount_eq] at this ⊢
                  exact this,
                  fun h => absurd h hc,
                  fun _ => s.2.isDisjunction (not_isClause_and hc l'.2 r'.2)⟩
    | e => .error ⟨e⟩
  termination_by distributeRank e
  decreasing_by
    · exact Prod.Lex.left _ _ (Nat.lt_add_of_pos_right (clauseCount_pos r))
    · exact Prod.Lex.left _ _ (Nat.lt_add_of_pos_left (clauseCount_pos l))
    · exact Prod.Lex.left _ _ (clauseCount_left_lt hl).1
    · exact Prod.Lex.left _ _ (clauseCount_left_lt hl).2
    · exact Prod.Lex.left _ _ (clauseCount_right_lt hr).1
    · exact Prod.Lex.left _ _ (clauseCount_right_lt hr).2
    · exact (rank_lt_of_no_disjunction hl hr).1
    · exact (rank_lt_of_no_disjunction hl hr).2
    · exact rank_and_lt hc hl hr l'.2 r'.2

/-- The disjunctive normal form of a formula in negation normal form. -/
def distribute (e : Expr) : Except NotNnf Expr :=
  match e.distributeBounded with
  | .ok r => .ok r.1
  | .error reason => .error reason

/-- `distribute`, unless it takes more calls inside calls than there is room for. -/
def distributeWithin : (room : Nat) → Expr → ExceptT NotNnf Option Expr
  | 0, _ => ExceptT.mk none
  | room + 1, e =>
    if e.isClause then return e
    else
      match e with
      | or l r => return or (← distributeWithin room l) (← distributeWithin room r)
      | and l r =>
        match l.sides with
        | .disjunction x y _ =>
          return or (← distributeWithin room (and x r)) (← distributeWithin room (and y r))
        | .other _ =>
          match r.sides with
          | .disjunction x y _ =>
            return or (← distributeWithin room (and l x)) (← distributeWithin room (and l y))
          | .other _ => do
            distributeWithin room (and (← distributeWithin room l) (← distributeWithin room r))
      | e => throw ⟨e⟩

/-- The disjunctive normal form of a formula. -/
def toDnf (e : Expr) : Except NotNnf Expr :=
  e.toNnf.simplify.distribute

/-! ## The rules as equations -/

theorem distribute_of_isClause {e : Expr} (h : e.isClause = true) : e.distribute = .ok e := by
  unfold distribute
  rw [distributeBounded, dif_pos h]

theorem isDisjunction_of_distribute {e r : Expr} (h : e.distribute = .ok r)
    (hc : e.isClause ≠ true) : r.isDisjunction = true := by
  unfold distribute at h
  split at h
  · next r' _ => cases h; exact r'.2.isDisjunction hc
  · cases h

theorem clauseCount_of_distribute {e r : Expr} (h : e.distribute = .ok r) :
    r.clauseCount = e.clauseCount := by
  unfold distribute at h
  split at h
  · next r' _ => cases h; exact r'.2.clauseCount_eq
  · cases h

theorem distribute_not {e : Expr} (h : (not e).isClause ≠ true) :
    (not e).distribute = .error ⟨not e⟩ := by
  unfold distribute
  rw [distributeBounded, dif_neg h]

theorem distribute_or {l r : Expr} (h : (or l r).isClause ≠ true) :
    (or l r).distribute = (do return or (← l.distribute) (← r.distribute)) := by
  unfold distribute
  rw [distributeBounded, dif_neg h]
  dsimp only
  cases l.distributeBounded with
  | error => rfl
  | ok => cases r.distributeBounded <;> rfl

theorem distribute_and_or_left {x y r : Expr} (h : (and (or x y) r).isClause ≠ true) :
    (and (or x y) r).distribute =
      (do return or (← (and x r).distribute) (← (and y r).distribute)) := by
  unfold distribute
  rw [distributeBounded, dif_neg h]
  dsimp only [sides_or]
  cases (and x r).distributeBounded with
  | error => rfl
  | ok => cases (and y r).distributeBounded <;> rfl

theorem distribute_and_or_right {l x y : Expr} (h : (and l (or x y)).isClause ≠ true)
    (hl : l.isDisjunction = false) :
    (and l (or x y)).distribute =
      (do return or (← (and l x).distribute) (← (and l y).distribute)) := by
  unfold distribute
  rw [distributeBounded, dif_neg h]
  dsimp only [sides_or]
  rw [sides_of_not_disjunction hl]
  dsimp only
  cases (and l x).distributeBounded with
  | error => rfl
  | ok => cases (and l y).distributeBounded <;> rfl

theorem distribute_and {l r : Expr} (h : (and l r).isClause ≠ true)
    (hl : l.isDisjunction = false) (hr : r.isDisjunction = false) :
    (and l r).distribute = (do (and (← l.distribute) (← r.distribute)).distribute) := by
  unfold distribute
  rw [distributeBounded, dif_neg h]
  dsimp only
  rw [sides_of_not_disjunction hl, sides_of_not_disjunction hr]
  dsimp only
  cases l.distributeBounded with
  | error => rfl
  | ok l' =>
    cases r.distributeBounded with
    | error => rfl
    | ok r' =>
      dsimp only [bind, Except.bind]
      cases (and l'.1 r'.1).distributeBounded <;> rfl

end Expr

end Propositional
