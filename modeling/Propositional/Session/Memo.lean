import Std.Data.DHashMap
import Propositional.Expr.Basic

/-!
# Remembered results

Two tables of results of a function on formulas. Each entry carries the proof that it is the
function's value, so a table can only shorten a computation, never change its result.

* `Memo f` keeps every result.
* `Recent f` keeps at most `Recent.capacity` results. Looking a result up makes it the most recent
  one, and a new result that finds the table full displaces the least recent one.

`Memo` is the table `_memo` of a pass, and `Recent` the cache that the function `simplify` has. Out
of scope: counts of hits and misses, and emptying the cache by hand.
-/

namespace Propositional

/-- The value of `f` at `e`, together with the proof that it is. -/
abbrev ValueOf (f : Expr → Expr) (e : Expr) := { s : Expr // s = f e }

/-- Results of `f` by argument. -/
abbrev Memo (f : Expr → Expr) := Std.DHashMap Expr (ValueOf f)

/-- A bounded number of results of `f`, each with the time of its last use. -/
structure Recent (f : Expr → Expr) where
  /-- The time of the latest use. -/
  clock : Nat
  entries : Std.DHashMap Expr fun e => Nat × ValueOf f e

namespace Recent

variable {f : Expr → Expr}

/-- How many results are kept. -/
def capacity : Nat := 4096

/-- The table without results. -/
def empty : Recent f := ⟨0, ∅⟩

/-- The result kept for a formula; looking it up counts as a use. -/
def lookup? (e : Expr) (recent : Recent f) : Option (ValueOf f e × Recent f) :=
  match recent.entries.get? e with
  | some (_, s) =>
    some (s, ⟨recent.clock + 1, recent.entries.insert e (recent.clock + 1, s)⟩)
  | none => none

/-- The formula whose last use is longest ago. -/
def oldest? (recent : Recent f) : Option Expr :=
  let earlier (found : Option (Nat × Expr)) (e : Expr) (used : Nat) : Option (Nat × Expr) :=
    match found with
    | some (time, other) => if time ≤ used then some (time, other) else some (used, e)
    | none => some (used, e)
  (recent.entries.fold (fun found e entry => earlier found e entry.1) none).map (·.2)

/-- The table with room for one more result. -/
def makeRoom (recent : Recent f) : Recent f :=
  if recent.entries.size < capacity then recent
  else
    match recent.oldest? with
    | some e => { recent with entries := recent.entries.erase e }
    | none => recent

/-- The table with a new result. -/
def remember (e : Expr) (s : ValueOf f e) (recent : Recent f) : Recent f :=
  let roomy := recent.makeRoom
  ⟨roomy.clock + 1, roomy.entries.insert e (roomy.clock + 1, s)⟩

end Recent

end Propositional
