import Mathlib.Data.List.Nodup
import Propositional.Proofs.Enumeration
import Propositional.Proofs.NormalForm.DeMorgan
import Propositional.Proofs.NormalForm.Negation
import Propositional.Proofs.Session.Calls
import Propositional.Transformation

/-!
# What is remarked on the way to an answer

A session only adds to its notes, so the remarks about its steps since some moment come after those
that could be made then. Not every remark can be made: where rows are compared, their number is
written out, and it may have too many digits. But the rows range over variables of the formulas that
were asked about, since neither simplifying nor negating brings in a variable. So it takes formulas
with very many variables to come to such a remark.

Results:
* `Counts.remarks_eq`: the remarks are those from before and those since.
* `counts_run`, `counts_equivalent`: a transformation, and a comparison, count rows over variables
  of their formulas only.
* `exists_variables_of_not_countable`: where a remark cannot be made, these are too many.
-/

namespace Propositional

/-- The rows that are counted in the remarks about the step range over texts with the property. -/
def Step.CountsWithin (V : String → Prop) (step : Step) : Prop :=
  ∀ xs, Remark.counted xs ∈ step.remarks → xs.Nodup ∧ ∀ x ∈ xs, V x

theorem Step.CountsWithin.of_remarks_eq {V : String → Prop} {step : Step}
    (h : step.remarks = [.taken step]) : step.CountsWithin V := by
  intro xs hmem
  rw [h] at hmem
  cases List.mem_singleton.mp hmem

theorem countsWithin_compared {V : String → Prop} {a b : Expr} (ha : ∀ x ∈ a.vocabulary, V x)
    (hb : ∀ x ∈ b.vocabulary, V x) (verdict : Verdict) :
    (Step.compared a b verdict).CountsWithin V := by
  intro xs hmem
  obtain rfl : xs = Vocabulary.union a.vocabulary b.vocabulary := by
    cases verdict <;> simp [Step.remarks, Verdict.announcement?] at hmem <;> exact hmem
  refine ⟨?_, fun x hx => (Vocabulary.mem_union.mp hx).elim (ha x) (hb x)⟩
  exact (Vocabulary.pairwise_union (Vocabulary.pairwise_ofList _)).imp String.ne_of_lt

namespace Session

open Propositional.Expr (Asks Needs Reaches mem_vocabulary_of_simplify vocabulary_negate
  mem_vocabulary_bin vocabulary_toNnf)

/-- From the first session to the second one steps were only added, and rows were counted over texts
with the property. -/
def Counts (V : String → Prop) (before after : Session) : Prop :=
  ∃ new, after.notes = new ++ before.notes ∧ ∀ step ∈ new, step.CountsWithin V

variable {V W : String → Prop} {s t u : Session}

/-! ## One after another -/

theorem Counts.of_notes_eq (h : t.notes = s.notes) : Counts V s t :=
  ⟨[], h, nofun⟩

theorem counts_note {step : Step} (h : step.CountsWithin V) : Counts V s (s.note step) :=
  ⟨[step], rfl, fun _ hmem => List.mem_singleton.mp hmem ▸ h⟩

theorem Counts.trans (h : Counts V s t) (h' : Counts V t u) : Counts V s u := by
  obtain ⟨new, hnew, hV⟩ := h
  obtain ⟨new', hnew', hV'⟩ := h'
  refine ⟨new' ++ new, by rw [hnew', hnew, List.append_assoc], fun step hmem => ?_⟩
  exact (List.mem_append.mp hmem).elim (hV' step) (hV step)

theorem Counts.mono (h : Counts V s t) (hVW : ∀ x, V x → W x) : Counts W s t := by
  obtain ⟨new, hnew, hV⟩ := h
  refine ⟨new, hnew, fun step hmem xs hxs => ?_⟩
  obtain ⟨hnodup, hall⟩ := hV step hmem xs hxs
  exact ⟨hnodup, fun x hx => hVW x (hall x hx)⟩

/-! ## Remarks from before and since -/

theorem Counts.drop_steps (h : Counts V s t) :
    ∃ new, t.steps = s.steps ++ new ∧ t.steps.drop s.steps.length = new ∧
      ∀ step ∈ new, step.CountsWithin V := by
  obtain ⟨new, hnew, hV⟩ := h
  have hsteps : t.steps = s.steps ++ new.reverse := by
    rw [steps, hnew, List.reverse_append, ← steps]
  refine ⟨new.reverse, hsteps, ?_, fun step hmem => hV step (List.mem_reverse.mp hmem)⟩
  rw [hsteps, List.drop_left]

/-- **The remarks are those from before and those since.** -/
theorem Counts.remarks_eq (h : Counts V s t) : t.remarks = s.remarks ++ t.remarksSince s := by
  obtain ⟨new, hsteps, hdrop, -⟩ := h.drop_steps
  rw [remarksSince, hdrop, remarks, hsteps, List.flatMap_append, ← remarks]

theorem Counts.of_mem_remarksSince (h : Counts V s t) {xs : Vocabulary}
    (hmem : .counted xs ∈ t.remarksSince s) : xs.Nodup ∧ ∀ x ∈ xs, V x := by
  obtain ⟨new, -, hdrop, hV⟩ := h.drop_steps
  rw [remarksSince, hdrop] at hmem
  obtain ⟨step, hstep, hxs⟩ := List.mem_flatMap.mp hmem
  exact hV step hstep xs hxs

/-- The remarks about all steps can be made. -/
def Countable (session : Session) : Prop :=
  ∀ made ∈ session.remarks, made.isWritable = true

theorem countable_initial : Countable initial :=
  nofun

theorem Counts.countable_iff (h : Counts V s t) :
    t.Countable ↔ s.Countable ∧ ∀ made ∈ t.remarksSince s, made.isWritable = true := by
  rw [Countable, h.remarks_eq, List.forall_mem_append, ← Countable]

theorem countable_note {step : Step} :
    (s.note step).Countable ↔ s.Countable ∧ ∀ made ∈ step.remarks, made.isWritable = true := by
  have hremarks : (s.note step).remarks = s.remarks ++ step.remarks := by
    simp only [remarks, steps, note, List.reverse_cons, List.flatMap_append, List.flatMap_singleton]
  rw [Countable, hremarks, List.forall_mem_append, ← Countable]

/-- A step of which it is only told that it was taken. -/
theorem countable_note_of_taken {step : Step} (h : step.remarks = [.taken step]) :
    (s.note step).Countable ↔ s.Countable := by
  rw [countable_note, h, List.forall_mem_singleton]
  exact and_iff_left rfl

/-! ## Simplifying and comparing -/

theorem mem_vocabulary_of_asks {n a b : Expr} (h : Asks n a b) {x : String} :
    (x ∈ a.vocabulary → x ∈ n.vocabulary) ∧ (x ∈ b.vocabulary → x ∈ n.vocabulary) := by
  cases h with
  | same h =>
    exact ⟨fun hx => mem_vocabulary_bin.mpr (.inl (mem_vocabulary_of_simplify hx)),
      fun hx => mem_vocabulary_bin.mpr (.inr (mem_vocabulary_of_simplify hx))⟩
  | opposite h hs =>
    rw [vocabulary_negate]
    exact ⟨fun hx => mem_vocabulary_bin.mpr (.inl (mem_vocabulary_of_simplify hx)),
      fun hx => mem_vocabulary_bin.mpr (.inr (mem_vocabulary_of_simplify hx))⟩

theorem mem_vocabulary_of_needs {e f : Expr} (h : Needs e f) {x : String}
    (hx : x ∈ f.vocabulary) : x ∈ e.vocabulary := by
  cases h with
  | not => exact hx
  | left => exact mem_vocabulary_bin.mpr (.inl hx)
  | right => exact mem_vocabulary_bin.mpr (.inr hx)
  | askedLeft h => exact (mem_vocabulary_of_asks h).1 hx
  | askedRight h => exact (mem_vocabulary_of_asks h).2 hx

theorem mem_vocabulary_of_reaches {e f : Expr} (h : Reaches e f) {x : String}
    (hx : x ∈ f.vocabulary) : x ∈ e.vocabulary := by
  induction h with
  | refl => exact hx
  | tail _ hneeds ih => exact ih (mem_vocabulary_of_needs hneeds hx)

/-- Rows are counted over variables of the formulas in question. -/
theorem followsCalls_counts :
    FollowsCalls (fun e => Counts (· ∈ e.vocabulary))
      (fun a b => Counts fun x => x ∈ a.vocabulary ∨ x ∈ b.vocabulary) where
  refl _ _ := .of_notes_eq rfl
  trans := Counts.trans
  lookup _ := .of_notes_eq rfl
  ask hreaches hasks h := by
    refine h.mono fun x hx => mem_vocabulary_of_reaches hreaches ?_
    exact hx.elim (mem_vocabulary_of_asks hasks).1 (mem_vocabulary_of_asks hasks).2
  finish r h := h.trans (counts_note (.of_remarks_eq rfl))
  compare {a b _ _ _} l r hl hr := by
    refine ((hl.mono fun _ => .inl).trans (hr.mono fun _ => .inr)).trans (counts_note ?_)
    refine countsWithin_compared (fun x hx => .inl ?_) (fun x hx => .inr ?_) _
    · exact mem_vocabulary_of_simplify (l.2 ▸ hx)
    · exact mem_vocabulary_of_simplify (r.2 ▸ hx)

theorem counts_simplify (e : Expr) (session : Session) :
    Counts (· ∈ e.vocabulary) session (simplify e session).2 :=
  followsCalls_counts.simplify e session

/-- Two formulas are compared on the forms that simplifying them one after the other gives. -/
theorem equivalent_eq_settle (a b : Expr) (session : Session) :
    equivalent a b session =
      settle (simplify a session).1.1 (simplify b (simplify a session).2).1.1
        (simplify b (simplify a session).2).2 := by
  unfold equivalent judge
  rfl

theorem counts_settle (a b : Expr) (session : Session) :
    Counts (fun x => x ∈ a.vocabulary ∨ x ∈ b.vocabulary) session (settle a b session).2 :=
  counts_note (countsWithin_compared (fun _ => .inl) (fun _ => .inr) _)

/-- **A comparison counts rows over variables of the two formulas only.** -/
theorem counts_equivalent (a b : Expr) (session : Session) :
    Counts (fun x => x ∈ a.vocabulary ∨ x ∈ b.vocabulary) session (equivalent a b session).2 :=
  followsCalls_counts.judge a b session

/-! ## Transformations -/

theorem counts_toNnf (e : Expr) (session : Session) : Counts V session (toNnf e session).2 :=
  (counts_note (.of_remarks_eq rfl)).trans (counts_note (.of_remarks_eq rfl))

theorem countable_toNnf (e : Expr) (session : Session) :
    (toNnf e session).2.Countable ↔ session.Countable := by
  rw [toNnf, countable_note_of_taken rfl, countable_note_of_taken rfl]

/-- The session in which a formula is distributed: it is in simplified negation normal form. -/
def beforeDistribute (e : Expr) (session : Session) : Session :=
  (simplify (toNnf e session).1.1 (toNnf e session).2).2

theorem snd_toDnf {e r : Expr} (h : e.toDnf = .ok r) (session : Session) :
    (toDnf e session).2 = (beforeDistribute e session).note (.finishedDnf e r) := by
  have hdistribute :
      (simplify (toNnf e session).1.1 (toNnf e session).2).1.1.distribute = .ok r := by
    rw [value_simplify, value_toNnf]
    exact h
  unfold toDnf
  dsimp only
  rw [hdistribute]
  rfl

theorem countable_toDnf {e r : Expr} (h : e.toDnf = .ok r) (session : Session) :
    (toDnf e session).2.Countable ↔ (beforeDistribute e session).Countable := by
  rw [snd_toDnf h, countable_note_of_taken rfl]

theorem counts_toDnf (e : Expr) (session : Session) :
    Counts (· ∈ e.vocabulary) session (toDnf e session).2 := by
  have hsimple := counts_simplify (toNnf e session).1.1 (toNnf e session).2
  rw [value_toNnf, vocabulary_toNnf] at hsimple
  have hboth := (counts_toNnf e session).trans (value_toNnf e session ▸ hsimple)
  unfold toDnf
  dsimp only
  split
  · exact hboth.trans (counts_note (.of_remarks_eq rfl))
  · exact hboth

/-- **A transformation counts rows over variables of the formula only.** -/
theorem counts_run (t : Transformation) (e : Expr) (session : Session) :
    Counts (· ∈ e.vocabulary) session (t.run e session).2 := by
  cases t with
  | dnf => exact counts_toDnf e session
  | nnf => exact counts_toNnf e session
  | simplify => exact counts_simplify e session

/-! ## Too many rows -/

/-- The least number of variables whose rows are so many that they cannot be counted in writing. -/
def uncountedLength : Nat := 14285

theorem two_pow_lt_leastUnwritable : 2 ^ (uncountedLength - 1) < leastUnwritable := by
  decide +kernel

theorem leastUnwritable_le_two_pow : leastUnwritable ≤ 2 ^ uncountedLength := by
  decide +kernel

theorem leastUnwritable_le_rowCount_iff {xs : Vocabulary} :
    leastUnwritable ≤ rowCount xs ↔ uncountedLength ≤ xs.length := by
  rw [rowCount_eq]
  constructor
  · intro h
    by_contra hlt
    have hle : xs.length ≤ uncountedLength - 1 := Nat.le_sub_one_of_lt (Nat.not_le.mp hlt)
    have hpow := Nat.pow_le_pow_right Nat.two_pos hle
    exact absurd two_pow_lt_leastUnwritable (Nat.not_lt.mpr (h.trans hpow))
  · intro h
    exact leastUnwritable_le_two_pow.trans (Nat.pow_le_pow_right Nat.two_pos h)

/-- **Where a remark cannot be made, there are too many variables.** -/
theorem exists_variables_of_not_countable (h : Counts V s t) (hs : s.Countable)
    (ht : ¬ t.Countable) :
    ∃ xs : Vocabulary, xs.Nodup ∧ (∀ x ∈ xs, V x) ∧ uncountedLength ≤ xs.length := by
  have hsince : ∃ made ∈ t.remarksSince s, ¬ made.isWritable = true := by
    by_contra hall
    push Not at hall
    exact ht (h.countable_iff.mpr ⟨hs, hall⟩)
  obtain ⟨made, hmem, hnot⟩ := hsince
  cases made with
  | taken => exact absurd rfl hnot
  | counted xs =>
    obtain ⟨hnodup, hV⟩ := h.of_mem_remarksSince hmem
    have hrows : leastUnwritable ≤ rowCount xs := Nat.not_lt.mp (mt isWritable_counted.mpr hnot)
    exact ⟨xs, hnodup, hV, leastUnwritable_le_rowCount_iff.mp hrows⟩

/-- With few variables every remark can be made. -/
theorem Counts.countable {ys : List String} (h : Counts (· ∈ ys) s t) (hs : s.Countable)
    (hys : ys.length < uncountedLength) : t.Countable := by
  by_contra ht
  obtain ⟨xs, hnodup, hmem, hxs⟩ := exists_variables_of_not_countable h hs ht
  exact absurd (hxs.trans (hnodup.subperm hmem).length_le) (Nat.not_le.mpr hys)

end Session

end Propositional
