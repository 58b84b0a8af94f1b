import Propositional.Session.Memo
import Propositional.Session.Step

/-!
# Sessions

Without remembered results, simplifying takes time exponential in the depth of a formula, since each
operand is simplified again for every comparison above it. A session remembers: within one pass each
subformula is simplified once, and across passes the most recent results are kept. It also notes the
steps it takes.

Every answer of a session comes with the proof that it is the answer of the plain definition, so
`Session.simplify`, `Session.equivalent`, `Session.toNnf` and `Session.toDnf` give what
`Expr.simplify`, `Expr.equivalent`, `Expr.toNnf` and `Expr.toDnf` give in every session:
`value_simplify`, `value_equivalent`, `value_toNnf`, `value_toDnf`.

`visit` and `simplify` are the methods of `Simplifier` and the cached function `simplify` around it,
`judge` is `is_equivalent_to`, `visitNnf` and `toNnf` are those of `NNFTransformer`, and `toDnf` is
`to_dnf`. Out of scope: sessions that several threads work in at once.
-/

namespace Propositional

open Propositional.Expr (absorb? joinSimplified simplify_bin simplify_not simplify_const
  simplify_var leaves_pos leaves_negate leaves_left_lt leaves_right_lt leaves_simplify_le)

/-- What is carried from one computation to the next. -/
structure Session where
  /-- Recent results of simplification. -/
  results : Recent Expr.simplify
  /-- The steps taken, latest first. -/
  notes : List Step

namespace Session

/-- The session before any computation. -/
def initial : Session := ⟨.empty, []⟩

/-- The session with one more note. -/
def note (step : Step) (session : Session) : Session :=
  { session with notes := step :: session.notes }

/-- The steps taken, in order. -/
def steps (session : Session) : List Step :=
  session.notes.reverse

/-- The remarks about all steps, in order. -/
def remarks (session : Session) : List Remark :=
  session.steps.flatMap Step.remarks

/-- The remarks about the steps taken since an earlier moment, in order. -/
def remarksSince (session before : Session) : List Remark :=
  (session.steps.drop before.steps.length).flatMap Step.remarks

/-- Whether two formulas are equivalent, together with the proof that it is the answer. -/
abbrev Decision (a b : Expr) := { answer : Bool // answer = Expr.equivalent a b }

/-- A pass over one formula: what it has simplified, and the session it belongs to. -/
structure Pass where
  memo : Memo Expr.simplify
  session : Session

theorem joinSimplified_of_absorb? {c : Connective} {l r l' r' e : Expr} (hl : l' = l.simplify)
    (hr : r' = r.simplify) (h : absorb? c l' r' = some e) : e = (Expr.bin c l r).simplify := by
  rw [simplify_bin, ← hl, ← hr, joinSimplified, h]

theorem joinSimplified_of_same {c : Connective} {l r l' r' : Expr} (hl : l' = l.simplify)
    (hr : r' = r.simplify) (h : absorb? c l' r' = none) (hs : true = Expr.equivalent l' r') :
    l' = (Expr.bin c l r).simplify := by
  rw [simplify_bin, ← hl, ← hr, joinSimplified, h, ← hs]; rfl

theorem joinSimplified_of_opposite {c : Connective} {l r l' r' : Expr} (hl : l' = l.simplify)
    (hr : r' = r.simplify) (h : absorb? c l' r' = none) (hs : false = Expr.equivalent l' r')
    (ho : true = Expr.equivalent l'.negate r') :
    Expr.const c.absorbing = (Expr.bin c l r).simplify := by
  rw [simplify_bin, ← hl, ← hr, joinSimplified, h, ← hs, ← ho]; rfl

theorem joinSimplified_of_neither {c : Connective} {l r l' r' : Expr} (hl : l' = l.simplify)
    (hr : r' = r.simplify) (h : absorb? c l' r' = none) (hs : false = Expr.equivalent l' r')
    (ho : false = Expr.equivalent l'.negate r') : Expr.bin c l' r' = (Expr.bin c l r).simplify := by
  rw [simplify_bin, ← hl, ← hr, joinSimplified, h, ← hs, ← ho]; rfl

theorem max_leaves_lt {c : Connective} {l r l' r' : Expr} (hl : l' = l.simplify)
    (hr : r' = r.simplify) : max l'.leaves r'.leaves < (Expr.bin c l r).leaves := by
  subst hl hr
  exact Nat.max_lt.mpr
    ⟨leaves_left_lt (leaves_simplify_le l), leaves_right_lt (leaves_simplify_le r)⟩

theorem lex_of_le {m n : Nat} (h : m ≤ n) :
    Prod.Lex (· < ·) (Prod.Lex (· < ·) (· < ·)) (m, 1, 0) (n, 2, 0) := by
  rcases Nat.lt_or_eq_of_le h with h | h
  · exact Prod.Lex.left _ _ h
  · subst h; exact Prod.Lex.right _ (Prod.Lex.left _ _ (by decide))

mutual

/-- Simplifies a subformula within a pass. -/
def visit (e : Expr) (pass : Pass) : ValueOf Expr.simplify e × Pass :=
  match pass.memo.get? e with
  | some s => (s, pass)
  | none =>
    let (s, pass) : ValueOf Expr.simplify e × Pass :=
      match e with
      | .const b => (⟨.const b, (simplify_const b).symm⟩, pass)
      | .var x => (⟨.var x, (simplify_var x).symm⟩, pass)
      | .not a =>
        let (a', pass) := visit a pass
        (⟨a'.1.negateSimplified, by rw [simplify_not, a'.2]⟩, pass)
      | .bin c l r =>
        let (l', pass) := visit l pass
        let (r', pass) := visit r pass
        match h : absorb? c l'.1 r'.1 with
        | some s => (⟨s, joinSimplified_of_absorb? l'.2 r'.2 h⟩, pass)
        | none =>
          match judge l'.1 r'.1 pass.session with
          | (⟨true, hs⟩, session) =>
            (⟨l'.1, joinSimplified_of_same l'.2 r'.2 h hs⟩, { pass with session })
          | (⟨false, hs⟩, session) =>
            match judge l'.1.negate r'.1 session with
            | (⟨true, ho⟩, session) =>
              (⟨.const c.absorbing, joinSimplified_of_opposite l'.2 r'.2 h hs ho⟩,
                { pass with session })
            | (⟨false, ho⟩, session) =>
              (⟨.bin c l'.1 r'.1, joinSimplified_of_neither l'.2 r'.2 h hs ho⟩,
                { pass with session })
    (s, { pass with memo := pass.memo.insert e s })
  termination_by (e.leaves, 0, e.size)
  decreasing_by
    · exact Prod.Lex.right _ (Prod.Lex.right _ (Nat.lt_add_of_pos_left Nat.one_pos))
    · exact Prod.Lex.left _ _ (Nat.lt_add_of_pos_right (leaves_pos r))
    · exact Prod.Lex.left _ _ (Nat.lt_add_of_pos_left (leaves_pos l))
    · exact Prod.Lex.left _ _ (max_leaves_lt l'.2 r'.2)
    · exact Prod.Lex.left _ _ (leaves_negate l'.1 ▸ max_leaves_lt l'.2 r'.2)

/-- Simplifies a formula: by the result kept from before, or in a pass of its own. -/
def simplify (e : Expr) (session : Session) : ValueOf Expr.simplify e × Session :=
  match session.results.lookup? e with
  | some (s, results) => (s, { session with results })
  | none =>
    let (s, pass) := visit e ⟨∅, session⟩
    let session := pass.session.note (.simplified e s.1)
    (s, { session with results := session.results.remember e s })
  termination_by (e.leaves, 1, 0)
  decreasing_by exact Prod.Lex.right _ (Prod.Lex.left _ _ Nat.one_pos)

/-- Decides whether two formulas are equivalent, on their simplified forms. -/
def judge (a b : Expr) (session : Session) : Decision a b × Session :=
  let (a', session) := simplify a session
  let (b', session) := simplify b session
  let verdict := Expr.verdict a'.1 b'.1
  (⟨verdict.holds, by rw [Expr.equivalent, ← a'.2, ← b'.2]⟩,
    session.note (.compared a'.1 b'.1 verdict))
  termination_by (max a.leaves b.leaves, 2, 0)
  decreasing_by
    · exact lex_of_le (Nat.le_max_left _ _)
    · exact lex_of_le (Nat.le_max_right _ _)

end

/-- Compares two simplified formulas and notes the outcome. -/
def settle (a b : Expr) (session : Session) : Bool × Session :=
  let verdict := Expr.verdict a b
  (verdict.holds, session.note (.compared a b verdict))

/-- Decides whether two formulas are equivalent. -/
def equivalent (a b : Expr) (session : Session) : Bool × Session :=
  let (answer, session) := judge a b session
  (answer.1, session)

/-- Puts a subformula into negation normal form within a pass. -/
def visitNnf (e : Expr) (memo : Memo Expr.toNnf) : ValueOf Expr.toNnf e × Memo Expr.toNnf :=
  match memo.get? e with
  | some s => (s, memo)
  | none =>
    let (s, memo) : ValueOf Expr.toNnf e × Memo Expr.toNnf :=
      match e with
      | .const b => (⟨.const b, rfl⟩, memo)
      | .var x => (⟨.var x, rfl⟩, memo)
      | .bin c l r =>
        let (l', memo) := visitNnf l memo
        let (r', memo) := visitNnf r memo
        (⟨.bin c l'.1 r'.1, by rw [Expr.toNnf_bin, l'.2, r'.2]⟩, memo)
      | .not (.const b) => (⟨.const (!b), rfl⟩, memo)
      | .not (.var x) => (⟨.not (.var x), rfl⟩, memo)
      | .not (.not a) =>
        let (a', memo) := visitNnf a memo
        (⟨a'.1, by rw [Expr.toNnf_not_not, a'.2]⟩, memo)
      | .not (.bin c l r) =>
        let (l', memo) := visitNnf (.not l) memo
        let (r', memo) := visitNnf (.not r) memo
        (⟨.bin c.dual l'.1 r'.1, by rw [Expr.toNnf_not_bin, l'.2, r'.2]⟩, memo)
    (s, memo.insert e s)
  termination_by e.size
  decreasing_by
    all_goals simp only [Expr.size]; omega

/-- Puts a formula into negation normal form. -/
def toNnf (e : Expr) (session : Session) : ValueOf Expr.toNnf e × Session :=
  let s := (visitNnf e ∅).1
  (s, (session.note (.startedNnf e)).note (.finishedNnf e s.1))

/-- Puts a formula into disjunctive normal form. -/
def toDnf (e : Expr) (session : Session) : Except NotNnf Expr × Session :=
  let (nnf, session) := toNnf e session
  let (simple, session) := simplify nnf.1 session
  match simple.1.distribute with
  | .ok dnf => (.ok dnf, session.note (.finishedDnf e dnf))
  | .error reason => (.error reason, session)

theorem value_simplify (e : Expr) (session : Session) :
    (simplify e session).1.1 = e.simplify :=
  (simplify e session).1.2

theorem value_equivalent (a b : Expr) (session : Session) :
    (equivalent a b session).1 = Expr.equivalent a b :=
  (judge a b session).1.2

theorem value_toNnf (e : Expr) (session : Session) : (toNnf e session).1.1 = e.toNnf :=
  (toNnf e session).1.2

theorem value_toDnf (e : Expr) (session : Session) : (toDnf e session).1 = e.toDnf := by
  unfold toDnf Expr.toDnf
  dsimp only
  rw [value_simplify, value_toNnf]
  split <;> next h => rw [h]

end Session

end Propositional
