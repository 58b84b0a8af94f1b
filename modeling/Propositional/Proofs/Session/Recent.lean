import Std.Data.DHashMap.Lemmas
import Propositional.Session.Memo

/-!
# The bound on recent results

A table of recent results never holds more than `Recent.capacity` of them. A lookup adds nothing,
since what it finds is already there. A new result goes into a table with room: where the table was
full, the formula whose last use is longest ago is one of its own and goes.

Results:
* `mem_of_oldest?`, `exists_oldest?`: a table that holds something has such a formula.
* `Bounded.lookup`, `Bounded.remember`: both operations keep the bound.
-/

namespace Propositional.Recent

open Std (DHashMap)

variable {f : Expr → Expr}

/-! ## What is displaced -/

/-- Of the use found so far and another one, the one that is longer ago. -/
def earlier (found : Option (Nat × Expr)) (e : Expr) (used : Nat) : Option (Nat × Expr) :=
  match found with
  | some (time, other) => if time ≤ used then some (time, other) else some (used, e)
  | none => some (used, e)

/-- The use that is longest ago, of those in a list and the one found before. -/
def earliest (found : Option (Nat × Expr)) (entries : List ((e : Expr) × Nat × ValueOf f e)) :
    Option (Nat × Expr) :=
  entries.foldl (fun found entry => earlier found entry.1 entry.2.1) found

theorem oldest?_eq (recent : Recent f) :
    recent.oldest? = (earliest none recent.entries.toList).map (·.2) := by
  unfold oldest?
  dsimp only
  rw [DHashMap.fold_eq_foldl_toList]
  rfl

theorem earlier_eq (found : Option (Nat × Expr)) (e : Expr) (used : Nat) :
    earlier found e used = found ∨ earlier found e used = some (used, e) := by
  unfold earlier
  split
  · split
    · exact .inl rfl
    · exact .inr rfl
  · exact .inr rfl

theorem earlier_ne_none (found : Option (Nat × Expr)) (e : Expr) (used : Nat) :
    earlier found e used ≠ none := by
  rcases found with _ | ⟨time, other⟩
  · exact nofun
  · rw [earlier]
    split <;> exact nofun

/-- The use that is longest ago was found before, or it is in the list. -/
theorem mem_of_earliest {found : Option (Nat × Expr)}
    {entries : List ((e : Expr) × Nat × ValueOf f e)} {time : Nat} {e : Expr}
    (h : earliest found entries = some (time, e)) :
    found = some (time, e) ∨ ∃ entry ∈ entries, entry.1 = e := by
  induction entries generalizing found with
  | nil => exact .inl h
  | cons entry entries ih =>
    rcases ih h with hfound | ⟨entry', hmem, rfl⟩
    · rcases earlier_eq found entry.1 entry.2.1 with hold | hnew
      · exact .inl (hold.symm.trans hfound)
      · have heq := Option.some.inj (hnew.symm.trans hfound)
        exact .inr ⟨entry, List.mem_cons_self, (Prod.mk.inj heq).2⟩
    · exact .inr ⟨entry', List.mem_cons_of_mem _ hmem, rfl⟩

theorem earliest_ne_none {found : Option (Nat × Expr)}
    (entries : List ((e : Expr) × Nat × ValueOf f e)) (h : found ≠ none) :
    earliest found entries ≠ none := by
  induction entries generalizing found with
  | nil => exact h
  | cons entry entries ih => exact ih (earlier_ne_none found entry.1 entry.2.1)

/-- **What is displaced is in the table.** -/
theorem mem_of_oldest? {recent : Recent f} {e : Expr} (h : recent.oldest? = some e) :
    e ∈ recent.entries := by
  rw [oldest?_eq] at h
  obtain ⟨⟨time, e⟩, hfound, rfl⟩ := Option.map_eq_some_iff.mp h
  rcases mem_of_earliest hfound with hnone | ⟨⟨e, entry⟩, hmem, rfl⟩
  · cases hnone
  · have hget := DHashMap.mem_toList_iff_get?_eq_some.mp hmem
    rw [DHashMap.mem_iff_isSome_get?, hget]
    rfl

/-- **Something is displaced from every table that holds something.** -/
theorem exists_oldest? {recent : Recent f} (h : 0 < recent.entries.size) :
    ∃ e, recent.oldest? = some e := by
  rw [← DHashMap.length_toList] at h
  rw [oldest?_eq]
  cases hlist : recent.entries.toList with
  | nil =>
    rw [hlist] at h
    cases h
  | cons entry entries =>
    have hne := earliest_ne_none entries (earlier_ne_none none entry.1 entry.2.1)
    obtain ⟨found, hfound⟩ := Option.ne_none_iff_exists'.mp hne
    exact ⟨found.2, congrArg (Option.map (·.2)) hfound⟩

/-! ## The bound -/

/-- No more results than the table may hold. -/
def Bounded (recent : Recent f) : Prop :=
  recent.entries.size ≤ capacity

theorem bounded_empty : Bounded (empty : Recent f) := by
  rw [Bounded, empty, DHashMap.size_empty]
  exact Nat.zero_le _

theorem Bounded.lookup {recent results : Recent f} {e : Expr} {s : ValueOf f e}
    (h : recent.Bounded) (hlookup : recent.lookup? e = some (s, results)) : results.Bounded := by
  unfold lookup? at hlookup
  split at hlookup
  · next used s' hget =>
    cases hlookup
    have hmem : e ∈ recent.entries := by
      rw [DHashMap.mem_iff_isSome_get?, hget]
      rfl
    rw [Bounded, DHashMap.size_insert, if_pos hmem]
    exact h
  · cases hlookup

/-- A table that was not over the bound is below it once there is room. -/
theorem Bounded.size_makeRoom_lt {recent : Recent f} (h : recent.Bounded) :
    recent.makeRoom.entries.size < capacity := by
  rw [Bounded] at h
  unfold makeRoom
  split
  · next hlt => exact hlt
  · next hfull =>
    have hpos : 0 < recent.entries.size := by
      have : 0 < capacity := by decide
      omega
    obtain ⟨e, he⟩ := exists_oldest? hpos
    rw [he]
    dsimp only
    rw [DHashMap.size_erase, if_pos (mem_of_oldest? he)]
    omega

theorem Bounded.remember {recent : Recent f} (h : recent.Bounded) (e : Expr) (s : ValueOf f e) :
    (recent.remember e s).Bounded := by
  have hroom := h.size_makeRoom_lt
  have hinsert : (recent.remember e s).entries.size ≤ recent.makeRoom.entries.size + 1 :=
    DHashMap.size_insert_le
  rw [Bounded]
  omega

end Propositional.Recent
