import Propositional.Proofs.Simplify.Calls
import Propositional.Session.Basic

/-!
# What a session does to answer

A session works as the plain definitions do, but it skips what it remembers. So it never does more:
whatever it simplifies is reached by the calls of the plain definitions (`Expr.Reaches`). This is
read off its notes, in which each formula that it has simplified is written down.

Results:
* `visit_keeps`: a pass does nothing to its session but ask the check, and only the questions that
  belong to formulas it reaches.
* `FollowsCalls.judge`, `FollowsCalls.simplify`: what holds of a whole if it holds of its parts,
  holds of every comparison and of every simplification.
* `simplifies_judge`, `simplifies_simplify`: what is simplified to answer one question.
* `simplification_ends`: so the leaves get fewer with each question, in the plain definitions and in
  every session, and the calls come to an end.
-/

namespace Propositional.Session

open Propositional.Expr (Asks Needs Reaches absorb? leaves_le_of_reaches wellFounded_needs
  asks_negated_disjunction)

/-! ## One pass -/

theorem asks_same {c : Connective} {l r l' r' : Expr} (hl : l' = l.simplify)
    (hr : r' = r.simplify) (h : absorb? c l' r' = none) : Asks (.bin c l r) l' r' := by
  subst hl hr
  exact .same h

theorem asks_opposite {c : Connective} {l r l' r' : Expr} (hl : l' = l.simplify)
    (hr : r' = r.simplify) (h : absorb? c l' r' = none) (hs : false = Expr.equivalent l' r') :
    Asks (.bin c l r) l'.negate r' := by
  subst hl hr
  exact .opposite h hs.symm

/-- **A pass changes its session only by asking the check.** Whatever relation between sessions
holds of each question and is kept by doing nothing and by doing one thing after another, it holds
between the sessions before and after a pass. -/
theorem visit_keeps {R : Session → Session → Prop} (hrefl : ∀ s, R s s)
    (htrans : ∀ {s t u}, R s t → R t u → R s u) {e : Expr}
    (hask : ∀ {n a b} (s : Session), Reaches e n → Asks n a b → R s (judge a b s).2) (pass : Pass) :
    R pass.session (visit e pass).2.session := by
  induction e generalizing pass with
  | const b =>
    unfold visit
    split <;> exact hrefl _
  | var x =>
    unfold visit
    split <;> exact hrefl _
  | not a ih =>
    unfold visit
    split
    · exact hrefl _
    · exact ih (fun s h => hask s (.head .not h)) pass
  | bin c l r ihl ihr =>
    have hl := ihl (fun s h => hask s (.head .left h)) pass
    have hr := ihr (fun s h => hask s (.head .right h)) (visit l pass).2
    have hboth := htrans hl hr
    unfold visit
    split
    · exact hrefl _
    · dsimp only
      split
      · exact hboth
      · next habsorb =>
        have hl' := (visit l pass).1.2
        have hr' := (visit r (visit l pass).2).1.2
        have hsame := hask (visit r (visit l pass).2).2.session .refl (asks_same hl' hr' habsorb)
        split
        · next heq =>
          rw [heq] at hsame
          exact htrans hboth hsame
        · next hs session heq =>
          rw [heq] at hsame
          have hopposite := hask session .refl (asks_opposite hl' hr' habsorb hs)
          split
          all_goals
            next heq' =>
              rw [heq'] at hopposite
              exact htrans (htrans hboth hsame) hopposite

/-! ## All calls -/

/-- Relations between the sessions before and after a formula `e` is simplified, `S e`, and before
and after two formulas are compared, `J a b`, that hold of a whole if they hold of its parts. -/
structure FollowsCalls (S : Expr → Session → Session → Prop)
    (J : Expr → Expr → Session → Session → Prop) : Prop where
  /-- Nothing may be done. -/
  refl : ∀ e s, S e s s
  /-- One thing may be done after another. -/
  trans : ∀ {e s t u}, S e s t → S e t u → S e s u
  /-- A result may be looked up. -/
  lookup : ∀ {e r results s}, s.results.lookup? e = some (r, results) → S e s { s with results }
  /-- The questions may be asked that the calls come to. -/
  ask : ∀ {e n a b s t}, Reaches e n → Asks n a b → J a b s t → S e s t
  /-- In the end the result is noted and kept. -/
  finish : ∀ {e s t} (r : ValueOf Expr.simplify e), S e s t →
    S e s { t.note (.simplified e r.1) with results := t.results.remember e r }
  /-- To compare two formulas both are simplified, and the outcome is noted. -/
  compare : ∀ {a b s t u} (l : ValueOf Expr.simplify a) (r : ValueOf Expr.simplify b),
    S a s t → S b t u → J a b s (u.note (.compared l.1 r.1 (Expr.verdict l.1 r.1)))

namespace FollowsCalls

variable {S : Expr → Session → Session → Prop} {J : Expr → Expr → Session → Session → Prop}

/-- Simplifying is related as claimed if comparing is for all formulas with fewer leaves. -/
theorem simplify_of_judge (h : FollowsCalls S J) {n : Nat} {e : Expr} (hn : e.leaves ≤ n)
    (hjudge : ∀ a b s, max a.leaves b.leaves < n → J a b s (judge a b s).2) (s : Session) :
    S e s (simplify e s).2 := by
  unfold Session.simplify
  split
  · next hlookup => exact h.lookup hlookup
  · have hask : ∀ {m a b : Expr} (t : Session), Reaches e m → Asks m a b →
        S e t (judge a b t).2 := by
      intro m a b t hm hasks
      have hle := Nat.le_trans (leaves_le_of_reaches hm) hn
      exact h.ask hm hasks (hjudge a b t (Nat.lt_of_lt_of_le (Nat.max_lt.mpr hasks.leaves_lt) hle))
    exact h.finish _ (visit_keeps (h.refl e) h.trans hask ⟨∅, s⟩)

/-- **Every comparison is related as claimed**, by induction on a bound of the leaves. -/
theorem judge (h : FollowsCalls S J) (a b : Expr) (s : Session) : J a b s (judge a b s).2 := by
  have hbound : ∀ n a b s, max a.leaves b.leaves < n → J a b s (Session.judge a b s).2 := by
    intro n
    induction n with
    | zero => exact fun _ _ _ hlt => absurd hlt (Nat.not_lt_zero _)
    | succ n ih =>
      intro a b s hlt
      obtain ⟨ha, hb⟩ := Nat.max_lt.mp hlt
      have hleft := h.simplify_of_judge (Nat.le_of_lt_succ ha) ih s
      have hright := h.simplify_of_judge (Nat.le_of_lt_succ hb) ih (Session.simplify a s).2
      unfold Session.judge
      exact h.compare _ _ hleft hright
  exact hbound _ a b s (Nat.lt_succ_self _)

/-- **So is simplifying any formula.** -/
theorem simplify (h : FollowsCalls S J) (e : Expr) (s : Session) : S e s (simplify e s).2 :=
  h.simplify_of_judge (Nat.le_refl _) (fun a b s _ => h.judge a b s) s

end FollowsCalls

/-! ## What is simplified -/

/-- From the first session to the second one only formulas with the property were simplified. -/
def Simplifies (P : Expr → Prop) (before after : Session) : Prop :=
  ∃ new, after.notes = new ++ before.notes ∧ ∀ e s, Step.simplified e s ∈ new → P e

variable {P Q : Expr → Prop} {s t u : Session}

theorem simplifies_refl (s : Session) : Simplifies P s s :=
  ⟨[], rfl, nofun⟩

theorem Simplifies.trans (h : Simplifies P s t) (h' : Simplifies P t u) : Simplifies P s u := by
  obtain ⟨new, hnew, hP⟩ := h
  obtain ⟨new', hnew', hP'⟩ := h'
  refine ⟨new' ++ new, by rw [hnew', hnew, List.append_assoc], fun e r hmem => ?_⟩
  rcases List.mem_append.mp hmem with hmem | hmem
  · exact hP' e r hmem
  · exact hP e r hmem

theorem Simplifies.mono (h : Simplifies P s t) (hPQ : ∀ e, P e → Q e) : Simplifies Q s t := by
  obtain ⟨new, hnew, hP⟩ := h
  exact ⟨new, hnew, fun e r hmem => hPQ e (hP e r hmem)⟩

/-- One more note, which is of a formula with the property if a formula was simplified. -/
theorem simplifies_note {step : Step} (h : ∀ e r, step = .simplified e r → P e) :
    Simplifies P s (s.note step) :=
  ⟨[step], rfl, fun e r hmem => h e r (List.mem_singleton.mp hmem).symm⟩

/-- What is simplified is reached by the calls of the plain definitions. -/
theorem followsCalls_simplifies :
    FollowsCalls (fun e => Simplifies (Reaches e))
      (fun a b => Simplifies fun f => Reaches a f ∨ Reaches b f) where
  refl _ s := simplifies_refl s
  trans := Simplifies.trans
  lookup _ := ⟨[], rfl, nofun⟩
  ask hreaches hasks h := by
    refine h.mono fun f hf => ?_
    rcases hf with hf | hf
    · exact (hreaches.tail (.askedLeft hasks)).trans hf
    · exact (hreaches.tail (.askedRight hasks)).trans hf
  finish r h := by
    refine h.trans (simplifies_note fun f _ hstep => ?_)
    cases hstep
    exact .refl
  compare l r hl hr :=
    ((hl.mono fun _ => .inl).trans (hr.mono fun _ => .inr)).trans (simplifies_note nofun)

/-- **To compare two formulas, a session simplifies only what is reached from one of them.** -/
theorem simplifies_judge (a b : Expr) (session : Session) :
    Simplifies (fun f => Reaches a f ∨ Reaches b f) session (judge a b session).2 :=
  followsCalls_simplifies.judge a b session

/-- **To simplify a formula, a session simplifies only what is reached from it.** -/
theorem simplifies_simplify (e : Expr) (session : Session) :
    Simplifies (Reaches e) session (simplify e session).2 :=
  followsCalls_simplifies.simplify e session

/-- **Simplification and the check come to an end**: there is no infinite descent in their calls.
Whatever is simplified to answer a question of the check has fewer leaves than the formula at which
the question was asked, although the check may be asked about a formula with more nodes. This holds
of the calls of the plain definitions and of what a session does, which is among them. -/
theorem simplification_ends :
    (WellFounded fun f e : Expr => Needs e f) ∧
    (∀ n a b : Expr, Asks n a b →
      (∀ f, Reaches a f ∨ Reaches b f → f.leaves < n.leaves) ∧
      ∀ session, Simplifies (fun f => f.leaves < n.leaves) session (judge a b session).2) ∧
    (∀ (e : Expr) session, Simplifies (Reaches e) session (simplify e session).2) ∧
    ∃ n a b : Expr, Asks n a b ∧ n.size < a.size := by
  refine ⟨wellFounded_needs, fun n a b h => ⟨fun f => h.leaves_lt_of_reaches, fun session => ?_⟩,
    simplifies_simplify, ?_⟩
  · exact (simplifies_judge a b session).mono fun f => h.leaves_lt_of_reaches
  · have hne : (⟨"p", by decide⟩ : Name) ≠ ⟨"q", by decide⟩ := by decide
    exact ⟨_, _, _, asks_negated_disjunction hne, by decide⟩

/-- At `(p | (q & p)) & q` the check is asked about the larger formula `!p & (!q | !p)`; the calls
from there reach `!q | !p`, with half as many leaves. -/
theorem negated_disjunction_has_fewer_leaves : ∃ p q : Name, ∃ n a f : Expr,
    n = .and (.or (.var p) (.and (.var q) (.var p))) (.var q) ∧
      a = .and (.not (.var p)) (.or (.not (.var q)) (.not (.var p))) ∧
      f = .or (.not (.var q)) (.not (.var p)) ∧
      Asks n a (.var q) ∧ n.size < a.size ∧ Reaches a f ∧ f.leaves < n.leaves := by
  have hasks := asks_negated_disjunction (p := ⟨"p", by decide⟩) (q := ⟨"q", by decide⟩)
    (by decide)
  have hreaches := Relation.ReflTransGen.single (Needs.right (c := .and)
    (l := .not (.var ⟨"p", by decide⟩))
    (r := .or (.not (.var ⟨"q", by decide⟩)) (.not (.var ⟨"p", by decide⟩))))
  exact ⟨_, _, _, _, _, rfl, rfl, rfl, hasks, by decide, hreaches,
    (simplification_ends.2.1 _ _ _ hasks).1 _ (Or.inl hreaches)⟩

end Propositional.Session
