import Mathlib.Algebra.Group.Nat.Defs
import Mathlib.Data.Finset.Card
import Mathlib.Data.List.Sort
import Propositional.Proofs.Evaluation
import Propositional.Proofs.Rows
import Propositional.Proofs.Simplify.Equivalence
import Propositional.TruthTable

/-!
# The rows count in binary

The rows over a vocabulary of `k` texts are numbered from zero, and row number `r` spells `r` with
`k` binary digits, the first text having the most significant one. So each total assignment of the
texts is found once, at the number that it spells.

Results:
* `rows_eq_map_binaryRow`: the rows are the binary numbers with as many digits as there are texts.
* `eq_rowOf_of_agrees`: a row is determined by its interpretation.
* `existsUnique_agreeing`, `isTotalOver_iff_existsUnique`: exactly one row agrees with whatever
  assigns the vocabulary, and the interpretations of rows are the total assignments.
* `enumerates_rows`: the rows over some names enumerate their total assignments.
* `Expr.exists_row_of_assigns`: looking up a complete interpretation in a truth table gives the
  value of the formula.
* `rows_enumerate_assignments`: all of it.
-/

namespace Propositional

/-- The interpretation assigns the texts of the list and no others. -/
def Interpretation.IsTotalOver (i : Interpretation) (names : List String) : Prop :=
  ∀ x, (i x).isSome = true ↔ x ∈ names

/-- The row that spells a number in binary. -/
def binaryRow (r : Nat) : Vocabulary → Row
  | [] => []
  | x :: xs => (x, r.testBit xs.length) :: binaryRow r xs

theorem interpretation_cons (y : String) (b : Bool) (row : Row) (x : String) :
    Row.interpretation ((y, b) :: row) x = if x = y then some b else row.interpretation x := by
  show List.lookup x ((y, b) :: row) = _
  rw [List.lookup_cons]
  by_cases h : x = y
  · rw [if_pos h, h, beq_self_eq_true]
  · rw [if_neg h, beq_false_of_ne h]
    rfl

/-! ## Numbering -/

/-- Only the digits that there are texts for are spelled. -/
theorem binaryRow_congr {r s : Nat} {xs : Vocabulary}
    (h : ∀ j, j < xs.length → r.testBit j = s.testBit j) : binaryRow r xs = binaryRow s xs := by
  induction xs with
  | nil => rfl
  | cons x xs ih =>
    rw [binaryRow, binaryRow, h xs.length (Nat.lt_succ_self _),
      ih fun j hj => h j (Nat.lt_succ_of_lt hj)]

/-- **The rows are the binary numbers** with as many digits as there are texts. -/
theorem rows_eq_map_binaryRow (xs : Vocabulary) :
    rows xs = (List.range (2 ^ xs.length)).map fun r => binaryRow r xs := by
  induction xs with
  | nil => rfl
  | cons x xs ih =>
    -- The numbers below twice a power of two are those below it, with a leading zero or one.
    have hrange : List.range (2 ^ (xs.length + 1)) =
        List.range (2 ^ xs.length) ++
          (List.range (2 ^ xs.length)).map fun r => 2 ^ xs.length + r := by
      rw [Nat.pow_succ, Nat.mul_two, List.range_add]
    have hfalse : ∀ r ∈ List.range (2 ^ xs.length),
        (x, false) :: binaryRow r xs = binaryRow r (x :: xs) := by
      intro r hr
      rw [binaryRow, Nat.testBit_lt_two_pow (List.mem_range.mp hr)]
    have htrue : ∀ r ∈ List.range (2 ^ xs.length),
        (x, true) :: binaryRow r xs = binaryRow (2 ^ xs.length + r) (x :: xs) := by
      intro r hr
      rw [binaryRow, Nat.testBit_two_pow_add_eq, Nat.testBit_lt_two_pow (List.mem_range.mp hr),
        binaryRow_congr fun j hj => (Nat.testBit_two_pow_add_gt hj r).symm]
      rfl
    rw [rows, ih, List.length_cons, hrange, List.map_append, List.map_map, List.map_map,
      List.map_map]
    exact congrArg₂ (· ++ ·) (List.map_congr_left hfalse) (List.map_congr_left htrue)

theorem rowCount_eq (xs : Vocabulary) : rowCount xs = 2 ^ xs.length := by
  rw [← length_rows, rows_eq_map_binaryRow, List.length_map, List.length_range]

theorem getElem?_rows_eq_some_iff {xs : Vocabulary} {r : Nat} {row : Row} :
    (rows xs)[r]? = some row ↔ r < 2 ^ xs.length ∧ binaryRow r xs = row := by
  rw [rows_eq_map_binaryRow, List.getElem?_map, Option.map_eq_some_iff]
  constructor
  · rintro ⟨s, hs, hrow⟩
    obtain ⟨hlt, rfl⟩ := List.getElem?_eq_some_iff.mp hs
    rw [List.length_range] at hlt
    rw [List.getElem_range] at hrow
    exact ⟨hlt, hrow⟩
  · rintro ⟨hlt, hrow⟩
    exact ⟨r, List.getElem?_range hlt, hrow⟩

/-- The digit of each text, the first one being the most significant. -/
theorem interpretation_binaryRow {xs : Vocabulary} (hxs : xs.Nodup) (r : Nat) {j : Nat} {x : String}
    (hj : xs[j]? = some x) :
    (binaryRow r xs).interpretation x = some (r.testBit (xs.length - 1 - j)) := by
  induction xs generalizing j with
  | nil => cases hj
  | cons y xs ih =>
    obtain ⟨hy, hxs⟩ := List.nodup_cons.mp hxs
    rw [binaryRow, interpretation_cons]
    cases j with
    | zero =>
      cases hj
      rw [if_pos rfl]
      rfl
    | succ j =>
      rw [List.getElem?_cons_succ] at hj
      have hne : x ≠ y := by
        rintro rfl
        exact hy (List.mem_of_getElem? hj)
      have hindex : (y :: xs).length - 1 - (j + 1) = xs.length - 1 - j := by
        rw [List.length_cons]
        omega
      rw [if_neg hne, hindex]
      exact ih hxs hj

theorem nodup_rows (xs : Vocabulary) : (rows xs).Nodup := by
  induction xs with
  | nil => exact List.nodup_singleton []
  | cons x xs ih =>
    have hinj : ∀ b : Bool, Function.Injective fun row : Row => (x, b) :: row :=
      fun b _ _ h => (List.cons.inj h).2
    refine List.nodup_append.mpr ⟨ih.map (hinj false), ih.map (hinj true), ?_⟩
    rintro _ hfalse _ htrue rfl
    obtain ⟨row, -, hrow⟩ := List.mem_map.mp hfalse
    obtain ⟨row', -, hrow'⟩ := List.mem_map.mp htrue
    cases hrow.trans hrow'.symm

/-! ## Rows and assignments -/

/-- A row assigns the texts of the vocabulary that it is over and no others. -/
theorem isTotalOver_of_mem_rows {xs : Vocabulary} {row : Row} (h : row ∈ rows xs) :
    row.interpretation.IsTotalOver xs := by
  intro x
  constructor
  · intro hx
    obtain ⟨⟨y, b⟩, hmem, heq⟩ := List.lookup_isSome_iff.mp hx
    rw [← mem_rows.mp h, eq_of_beq heq]
    exact List.mem_map_of_mem hmem
  · exact isSome_interpretation_of_mem_rows h

/-- **A row is determined by its interpretation.** -/
theorem eq_rowOf_of_agrees {xs : Vocabulary} (hxs : xs.Nodup) {row : Row} (h : row ∈ rows xs)
    {v : Valuation} (hv : ∀ x ∈ xs, row.interpretation x = some (v x)) : row = rowOf v xs := by
  rw [mem_rows] at h
  induction xs generalizing row with
  | nil => exact List.map_eq_nil_iff.mp h
  | cons y xs ih =>
    obtain ⟨⟨y, b⟩, row, rfl, rfl, hrow⟩ := List.map_eq_cons_iff.mp h
    obtain ⟨hy, hxs⟩ := List.nodup_cons.mp hxs
    have hb : b = v y := by
      have hfirst := hv y List.mem_cons_self
      rw [interpretation_cons, if_pos rfl] at hfirst
      exact Option.some.inj hfirst
    have hrest : ∀ x ∈ xs, Row.interpretation row x = some (v x) := by
      intro x hx
      have hne : x ≠ y := by
        rintro rfl
        exact hy hx
      have hnext := hv x (List.mem_cons_of_mem y hx)
      rwa [interpretation_cons, if_neg hne] at hnext
    rw [hb, ih hxs hrow hrest]
    rfl

/-- **Exactly one row agrees** with an interpretation that assigns the whole vocabulary. -/
theorem existsUnique_agreeing {xs : Vocabulary} (hxs : xs.Nodup) {i : Interpretation}
    (hi : ∀ x ∈ xs, (i x).isSome = true) :
    ∃! r : Nat, ∃ row : Row, (rows xs)[r]? = some row ∧ ∀ x ∈ xs, row.interpretation x = i x := by
  have hvalue : ∀ x ∈ xs, i x = some (i.valuation x) := by
    intro x hx
    obtain ⟨b, hb⟩ := Option.isSome_iff_exists.mp (hi x hx)
    rw [Interpretation.valuation, hb, Option.getD_some]
  obtain ⟨r, hr⟩ := List.mem_iff_getElem?.mp (rowOf_mem_rows i.valuation xs)
  refine ⟨r, ⟨_, hr, fun x hx => ?_⟩, ?_⟩
  · rw [interpretation_rowOf _ hx, hvalue x hx]
  · rintro r' ⟨row, hr', hagrees⟩
    have hrow : row = rowOf i.valuation xs :=
      eq_rowOf_of_agrees hxs (List.mem_of_getElem? hr') fun x hx =>
        (hagrees x hx).trans (hvalue x hx)
    subst hrow
    have hlt : r' < (rows xs).length := (List.getElem?_eq_some_iff.mp hr').1
    exact (List.getElem?_inj hlt (nodup_rows xs)).mp (hr'.trans hr.symm)

/-- A total assignment is a row iff it agrees with the row on the vocabulary. -/
theorem interpretation_eq_iff {xs : Vocabulary} {row : Row} (hrow : row ∈ rows xs)
    {i : Interpretation} (hi : i.IsTotalOver xs) :
    row.interpretation = i ↔ ∀ x ∈ xs, row.interpretation x = i x := by
  constructor
  · rintro rfl x -
    rfl
  · intro h
    funext x
    by_cases hx : x ∈ xs
    · exact h x hx
    · have hnone : ∀ {j : Interpretation}, j.IsTotalOver xs → j x = none := fun hj =>
        Option.not_isSome_iff_eq_none.mp fun hsome => hx ((hj x).mp hsome)
      rw [hnone hi, hnone (isTotalOver_of_mem_rows hrow)]

/-- **Each total assignment is listed once**, and nothing else is listed. -/
theorem isTotalOver_iff_existsUnique {xs : Vocabulary} (hxs : xs.Nodup) {i : Interpretation} :
    i.IsTotalOver xs ↔
      ∃! r : Nat, ∃ row : Row, (rows xs)[r]? = some row ∧ row.interpretation = i := by
  constructor
  · intro hi
    have hsame : ∀ r, (∃ row : Row, (rows xs)[r]? = some row ∧ row.interpretation = i) ↔
        ∃ row : Row, (rows xs)[r]? = some row ∧ ∀ x ∈ xs, row.interpretation x = i x :=
      fun r => exists_congr fun row => and_congr_right fun hr =>
        interpretation_eq_iff (List.mem_of_getElem? hr) hi
    simp only [hsame]
    exact existsUnique_agreeing hxs fun x => (hi x).mpr
  · rintro ⟨r, ⟨row, hr, rfl⟩, -⟩
    exact isTotalOver_of_mem_rows (List.mem_of_getElem? hr)

/-- The rows are the total assignments of these names, numbered in binary. -/
structure Enumerates (listed : List Row) (names : List String) : Prop where
  /-- Each name doubles the number of rows, however often it stands in the list. -/
  count : listed.length = 2 ^ names.toFinset.card
  /-- The total assignments are listed, each once, and nothing else is. -/
  once : ∀ i : Interpretation, i.IsTotalOver names ↔
    ∃! r : Nat, ∃ row : Row, listed[r]? = some row ∧ row.interpretation = i
  /-- Row number `r` gives the `j`-th name in code-point order the `j`-th digit of `r`, the first
  one being the most significant. -/
  digit : ∀ xs : List String, xs.Pairwise (· < ·) → (∀ x, x ∈ xs ↔ x ∈ names) →
    ∀ (r j : Nat) (row : Row) (x : String), listed[r]? = some row → xs[j]? = some x →
      row.interpretation x = some (r.testBit (xs.length - 1 - j))

/-- **The rows over the sorted names enumerate their total assignments.** -/
theorem enumerates_rows {xs : Vocabulary} (hsorted : xs.Pairwise (· < ·)) {names : List String}
    (hmem : ∀ x, x ∈ xs ↔ x ∈ names) : Enumerates (rows xs) names := by
  have hnodup : xs.Nodup := Vocabulary.nodup_of_pairwise hsorted
  refine ⟨?_, fun i => ?_, fun ys hys hy r j row x hr hj => ?_⟩
  · have hset : xs.toFinset = names.toFinset :=
      Finset.ext fun x => by rw [List.mem_toFinset, List.mem_toFinset, hmem]
    rw [length_rows, rowCount_eq, ← hset, List.toFinset_card_of_nodup hnodup]
  · rw [← isTotalOver_iff_existsUnique hnodup]
    exact forall_congr' fun x => by rw [hmem]
  · obtain rfl : ys = xs := hys.eq_of_mem_iff hsorted fun x => by rw [hy, hmem]
    obtain ⟨-, rfl⟩ := getElem?_rows_eq_some_iff.mp hr
    exact interpretation_binaryRow hnodup r hj

/-! ## Truth tables -/

namespace Expr

theorem rows_of_truthTable (e : Expr) : e.truthTable.map Prod.fst = rows e.vocabulary := by
  rw [truthTable, List.map_map]
  exact List.map_id _

/-- Every row of a truth table has a value. -/
theorem ne_none_of_mem_truthTable {e : Expr} {row : Row} {value : Option Bool}
    (h : (row, value) ∈ e.truthTable) : value ≠ none := by
  obtain ⟨row, hrow, heq⟩ := List.mem_map.mp h
  cases heq
  rw [eval_of_assigns fun x => isSome_interpretation_of_mem_rows hrow]
  exact Option.some_ne_none _

/-- **Looking up a complete interpretation**: exactly one row agrees with it on the variables, and
that row has the value of the formula under it. -/
theorem exists_row_of_assigns {e : Expr} {i : Interpretation} (hi : i.Assigns e) :
    ∃ (r : Nat) (row : Row), e.truthTable[r]? = some (row, e.eval i) ∧
      (∀ x ∈ e.vocabulary, row.interpretation x = i x) ∧
      ∀ (r' : Nat) (entry : Row × Option Bool), e.truthTable[r']? = some entry →
        (∀ x ∈ e.vocabulary, entry.1.interpretation x = i x) → r' = r := by
  obtain ⟨r, ⟨row, hr, hagrees⟩, honly⟩ := existsUnique_agreeing e.nodup_vocabulary hi
  refine ⟨r, row, ?_, hagrees, fun r' entry hentry hagrees' => honly r' ⟨entry.1, ?_, hagrees'⟩⟩
  · rw [truthTable, List.getElem?_map, hr, Option.map_some, eval_congr hagrees]
  · rw [← rows_of_truthTable, List.getElem?_map, hentry, Option.map_some]

end Expr

/-- **The rows enumerate the total assignments of any names**, and a truth table those of the
variables of its formula: each of its rows has a value, and whatever assigns at least the variables
agrees with exactly one row, which has the value of the formula. -/
theorem rows_enumerate_assignments :
    (∀ names : List String, Enumerates (rows (Vocabulary.ofList names)) names) ∧
    ∀ e : Expr,
      Enumerates (e.truthTable.map Prod.fst) e.vocabulary ∧
      (∀ entry ∈ e.truthTable, entry.2 ≠ none) ∧
      ∀ i : Interpretation, i.Assigns e →
        ∃ (r : Nat) (row : Row), e.truthTable[r]? = some (row, e.eval i) ∧
          (∀ x ∈ e.vocabulary, row.interpretation x = i x) ∧
          ∀ (r' : Nat) (entry : Row × Option Bool), e.truthTable[r']? = some entry →
            (∀ x ∈ e.vocabulary, entry.1.interpretation x = i x) → r' = r := by
  refine ⟨fun names => ?_, fun e => ⟨?_, fun entry => Expr.ne_none_of_mem_truthTable, fun i =>
    Expr.exists_row_of_assigns⟩⟩
  · exact enumerates_rows (Vocabulary.pairwise_ofList names) fun _ => Vocabulary.mem_ofList
  · rw [Expr.rows_of_truthTable]
    exact enumerates_rows (Vocabulary.pairwise_ofList _) fun _ => Iff.rfl

/-- Of the four rows over `p` and `q`, number two spells one, zero: there `p & !q` is true, also
under an interpretation of a third name. -/
theorem row_two_over_two_names :
    (∃ row : Row, (rows (Vocabulary.ofList ["q", "p", "q"]))[2]? = some row ∧
      row.interpretation "p" = some true ∧ row.interpretation "q" = some false) ∧
    ∃ (p q : Name) (r : Nat) (row : Row), p.text = "p" ∧ q.text = "q" ∧
      (Expr.and (.var p) (.not (.var q))).truthTable[r]? = some (row, some true) ∧
      row.interpretation "p" = some true := by
  have hdigit := (rows_enumerate_assignments.1 ["q", "p", "q"]).digit ["p", "q"] (by decide)
    (by simp [or_comm])
  refine ⟨⟨[("p", true), ("q", false)], rfl, hdigit 2 0 _ _ rfl rfl, hdigit 2 1 _ _ rfl rfl⟩, ?_⟩
  let i : Interpretation := fun x => some (x = "p" || x = "r")
  obtain ⟨r, row, hr, hagrees, -⟩ :=
    (rows_enumerate_assignments.2 (.and (.var ⟨"p", by decide⟩) (.not (.var ⟨"q", by decide⟩)))).2.2
      i (fun _ _ => rfl)
  exact ⟨_, _, r, row, rfl, rfl, hr, hagrees "p" (by decide)⟩

end Propositional
