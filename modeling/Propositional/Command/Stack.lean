import Propositional.Session.Basic

/-!
# Room for calls

Work that follows a formula from its root to its leaves makes calls inside calls, and an interpreter
allows only so many of them to be open at a time (`recursionLimit`). How many calls a piece of work
takes depends on the interpreter as much as on the formula, so a `Stack` only tells for which work
there is room, and keeps to what is certain:

* There is room for the work on formulas of up to `shallowDepth` levels. Distribution is the
  exception, since what it takes adds up over the factors of a conjunction, and with it all work on
  its result, which may be much deeper than the formula.
* Showing the steps of a task takes room and never gives any, so that a task whose steps are shown
  comes no further than it comes without.

The results about commands hold for every stack. `Stack.standard` is the one that commands run with:
it counts the calls that one interpreter has open for each level, over a few that are open before.
The numbers were measured at formulas of a few shapes and are no bounds; between formulas that have
room in any case and formulas of half a thousand levels, which never have, they are an estimate.

Out of scope: what runs out besides the stack, such as memory or the patience of the user.
-/

namespace Propositional

namespace Command

/-- The number of calls that may be open at a time, as users are told. -/
def recursionLimit : Nat := 1000

/-- The number of levels that a formula may have in any case. -/
def shallowDepth : Nat := 100

/-- Work on a formula that takes no steps on its way. -/
inductive Walk where
  /-- The line about a formula that was read. It is worded whether or not it is shown. -/
  | describe (e : Expr)
  | distribute (e : Expr)
  /-- The line about a disjunctive normal form. It is only worded to be shown. -/
  | report (before after : Expr)
  | write (e : Expr)
  | tabulate (e : Expr)
  | draw (e : Expr)

/-- Work on formulas that takes steps, each of which can be shown. -/
inductive Task where
  | toNnf (e : Expr)
  | simplify (e : Expr)
  /-- The comparison of two simplified formulas. -/
  | compare (left right : Expr)

/-- The work is on formulas that have room in any case. -/
def Walk.IsShallow : Walk → Prop
  | .describe e | .write e | .tabulate e | .draw e => e.depth ≤ shallowDepth
  | .report before after => before.depth ≤ shallowDepth ∧ after.depth ≤ shallowDepth
  | .distribute _ => False

/-- The task is on formulas that have room in any case. -/
def Task.IsShallow : Task → Prop
  | .toNnf e | .simplify e => e.depth ≤ shallowDepth
  | .compare left right => left.depth ≤ shallowDepth ∧ right.depth ≤ shallowDepth

/-- What there is room for. -/
structure Stack where
  holds : Walk → Bool
  /-- After how many remarks there is no room left for a task in a session, if it comes to that.
  What a session remembers takes no room, and whether the remarks are shown makes a difference. -/
  reach : (shown : Bool) → Task → Session → Option Nat
  /-- How many folders can be made one inside the other. -/
  folders : Nat
  holds_of_isShallow : ∀ walk, walk.IsShallow → holds walk = true
  reach_of_isShallow : ∀ shown task session, task.IsShallow → reach shown task session = none
  reach_of_hidden : ∀ task session n, reach false task session = some n →
    ∃ m ≤ n, reach true task session = some m

namespace Stack

/-- The calls that are open at a time during a walk, distribution excepted. -/
def callsOfWalk : Walk → Nat
  | .describe e => 3 * e.depth + 4
  | .report before after => 3 * max before.depth after.depth + 6
  | .write e => e.depth + 9
  | .tabulate e => 3 * e.depth + 5
  | .draw e => e.depth + 12
  | .distribute e => e.depth

/-- The calls that are open at a time during a task, the last of them in order to show a step. -/
def callsOfTask (shown : Bool) : Task → Nat
  | .toNnf e => 3 * e.depth + 5
  | .simplify e => 3 * e.depth + if shown then 21 else 15
  | .compare left right =>
    let depth := max left.depth right.depth
    if shown then 3 * depth + 8 else 2 * depth + 8

/-- The estimate for one interpreter. A task without room is given up before its first remark. -/
def standard : Stack where
  holds
    | .distribute e => (e.distributeWithin (recursionLimit - 10)).isSome
    | walk => callsOfWalk walk ≤ recursionLimit
  reach shown task _ := if callsOfTask shown task ≤ recursionLimit then none else some 0
  folders := recursionLimit - 20
  holds_of_isShallow walk h := by
    cases walk with
    | distribute e => exact h.elim
    | _ =>
      refine decide_eq_true ?_
      simp only [Walk.IsShallow, shallowDepth] at h
      simp only [callsOfWalk, recursionLimit]
      omega
  reach_of_isShallow shown task session h := by
    refine if_pos ?_
    cases task <;> cases shown <;>
      simp only [Task.IsShallow, shallowDepth] at h <;>
      simp only [callsOfTask, recursionLimit, if_true, Bool.false_eq_true, if_false] <;> omega
  reach_of_hidden task session n h := by
    split at h
    · cases h
    · next hcalls =>
      have hmore : callsOfTask false task ≤ callsOfTask true task := by
        cases task <;> simp only [callsOfTask, if_true, Bool.false_eq_true, if_false] <;> omega
      exact ⟨0, Nat.zero_le n, if_neg fun hle => hcalls (Nat.le_trans hmore hle)⟩

end Stack

end Command

end Propositional
