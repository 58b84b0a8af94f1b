import Propositional.Proofs.Enumeration
import Propositional.Proofs.Text.Margins

/-!
# Truth tables as aligned text

A truth table is printed for a reader who looks down its columns. So each line has its cells at the
same positions, wide enough for whatever stands in them, and the double bar before the result at the
same position as well; and what is printed can be read back into the table.

A layout says where columns and double bar stand. It depends on the names alone, not on what a line
has in its cells: names of any length, the empty one too, and no name at all.

Results:
* `fits_line`: a line with cells of the right width has them where the layout says.
* `columns_apart`: columns lie apart from each other, and before the double bar.
* `readLine_rowLine`: reading the line of a row gives the row and its value.
* `table_is_aligned`: all of it, for the table of a formula.
-/

namespace Propositional.TruthTable

open Propositional.Text

/-- Where the cells of a name stand. -/
structure Column where
  name : String
  /-- The position of the first character. -/
  start : Nat
  width : Nat

namespace Column

/-- The position after the last character. -/
def stop (c : Column) : Nat :=
  c.start + c.width

/-- The part of a line that stands in a column. -/
def cell (c : Column) (line : List Char) : List Char :=
  line.extract c.start c.stop

end Column

/-- Where the parts of every line of a table stand. -/
structure Layout where
  columns : List Column
  /-- The position of the double bar. -/
  bar : Nat

/-- The layout for some names from a position on: between two columns there is room for a bar with
a blank on either side, and between the last column and the double bar for a blank. -/
def layoutFrom (position : Nat) : Vocabulary → Layout
  | [] => ⟨[], position⟩
  | [x] => ⟨[⟨x, position, columnWidth x⟩], position + columnWidth x + 1⟩
  | x :: y :: xs =>
    let next := layoutFrom (position + columnWidth x + 3) (y :: xs)
    ⟨⟨x, position, columnWidth x⟩ :: next.columns, next.bar⟩

/-- The layout of a table over some names. -/
def layout (xs : Vocabulary) : Layout :=
  layoutFrom 0 xs

/-- A line has a text in the column of each name, filled up with blanks, a bar after it, and the
result after the double bar. -/
structure Fits (l : Layout) (line : List Char) (cells : List (String × String))
    (result : List Char) : Prop where
  cells : List.Forall₂ (fun (c : Column) (p : String × String) =>
    c.name = p.1 ∧ c.cell line = (pad c.width p.2).toList) l.columns cells
  edges : ∀ c ∈ l.columns, line.extract c.stop (c.stop + 2) = [' ', '|']
  bar : line.drop l.bar = '|' :: '|' :: ' ' :: result

/-- The lines are aligned to the layout, whose columns have the names. -/
structure Aligned (l : Layout) (names : Vocabulary) (lines : List String) : Prop where
  names : l.columns.map Column.name = names
  /-- A column has room for its name and for both truth values. -/
  wide : ∀ c ∈ l.columns, c.name.length ≤ c.width ∧ ∀ b, (valueText (some b)).length ≤ c.width
  apart : l.columns.Pairwise fun c d => c.stop < d.start
  left : ∀ c ∈ l.columns, c.stop < l.bar
  /-- Every line has its cells in the columns and the double bar at its position. -/
  fits : ∀ line ∈ lines, ∃ cells result, Fits l line.toList cells result

/-- The truth value that a text shows among blanks. -/
def readValue (text : List Char) : Option Bool :=
  if trim text = "true".toList then some true
  else if trim text = "false".toList then some false
  else none

/-- What a line shows in each column, and after the double bar. -/
def readLine (l : Layout) (line : String) : List (String × Option Bool) × Option Bool :=
  (l.columns.map fun c => (c.name, readValue (c.cell line.toList)),
    readValue (line.toList.drop (l.bar + 2)))

/-! ## Layouts -/

theorem columns_names (position : Nat) (xs : Vocabulary) :
    (layoutFrom position xs).columns.map Column.name = xs := by
  fun_induction layoutFrom position xs with
  | case1 => rfl
  | case2 => rfl
  | case3 position x y xs next ih => rw [List.map_cons, ih]

theorem position_le_bar (position : Nat) (xs : Vocabulary) :
    position ≤ (layoutFrom position xs).bar := by
  fun_induction layoutFrom position xs with
  | case1 => exact Nat.le_refl _
  | case2 position x => exact Nat.le_add_right_of_le (Nat.le_add_right _ _)
  | case3 position x y xs next ih =>
    exact Nat.le_trans (Nat.le_add_right_of_le (Nat.le_add_right _ _)) ih

/-- A column is as wide as its name asks for, and lies between the start of the layout and the
double bar. -/
theorem column_of_mem {position : Nat} {xs : Vocabulary} {c : Column}
    (h : c ∈ (layoutFrom position xs).columns) :
    c.width = columnWidth c.name ∧ position ≤ c.start ∧ c.stop < (layoutFrom position xs).bar := by
  fun_induction layoutFrom position xs with
  | case1 => cases h
  | case2 position x =>
    obtain rfl := List.mem_singleton.mp h
    exact ⟨rfl, Nat.le_refl _, Nat.lt_succ_self _⟩
  | case3 position x y xs next ih =>
    rcases List.mem_cons.mp h with rfl | h
    · have hbar := position_le_bar (position + columnWidth x + 3) (y :: xs)
      exact ⟨rfl, Nat.le_refl _, Nat.lt_of_lt_of_le (Nat.lt_add_of_pos_right (by decide)) hbar⟩
    · obtain ⟨hwidth, hstart, hstop⟩ := ih h
      exact ⟨hwidth, by omega, hstop⟩

/-- **Columns lie apart**, in the order of the names. -/
theorem columns_apart (position : Nat) (xs : Vocabulary) :
    (layoutFrom position xs).columns.Pairwise fun c d => c.stop < d.start := by
  fun_induction layoutFrom position xs with
  | case1 => exact .nil
  | case2 => exact List.pairwise_singleton _ _
  | case3 position x y xs next ih =>
    refine List.pairwise_cons.mpr ⟨fun d hd => ?_, ih⟩
    obtain ⟨-, hstart, -⟩ := column_of_mem hd
    exact Nat.lt_of_lt_of_le (Nat.lt_add_of_pos_right (by decide)) hstart

/-! ## Lines -/

theorem length_pad {width : Nat} {text : String} (h : text.length ≤ width) :
    (pad width text).toList.length = width := by
  rw [pad, String.toList_append, String.toList_ofList, List.length_append, List.length_replicate,
    String.length_toList, Nat.add_sub_cancel' h]

theorem toList_cells_singleton (p : String × String) :
    (cells [p]).toList = (pad (columnWidth p.1) p.2).toList := by
  simp [cells]

theorem toList_cells_cons (p q : String × String) (cs : List (String × String)) :
    (cells (p :: q :: cs)).toList =
      (pad (columnWidth p.1) p.2).toList ++ (' ' :: '|' :: ' ' :: (cells (q :: cs)).toList) := by
  simp [cells, String.toList_intercalate]

/-- What is in a line at the column of a cell and right after it. -/
theorem extract_cell {cell : List Char} {width : Nat} (h : cell.length = width)
    (before after : List Char) :
    let line := before ++ (cell ++ (' ' :: '|' :: after))
    line.extract before.length (before.length + width) = cell ∧
      line.extract (before.length + width) (before.length + width + 2) = [' ', '|'] ∧
      line.drop (before.length + width + 1) = '|' :: after := by
  subst h
  have hdrop (n : Nat) : (before ++ (cell ++ (' ' :: '|' :: after))).drop
      (before.length + cell.length + n) = (' ' :: '|' :: after).drop n := by
    rw [← List.append_assoc, ← List.length_append, List.drop_length_add_append]
  refine ⟨?_, ?_, hdrop 1⟩
  · rw [List.extract_eq_take_drop, List.drop_left, Nat.add_sub_cancel_left, List.take_left]
  · rw [List.extract_eq_take_drop, Nat.add_sub_cancel_left]
    exact congrArg (List.take 2) (hdrop 0)

/-- **Cells of the right width are where the layout says**, whatever stands before them. -/
theorem fits_cells {cs : List (String × String)} (hcs : cs ≠ [])
    (hfit : ∀ p ∈ cs, p.2.length ≤ columnWidth p.1) (before result : List Char) :
    Fits (layoutFrom before.length (cs.map Prod.fst))
      (before ++ ((cells cs).toList ++ (' ' :: '|' :: '|' :: ' ' :: result))) cs result := by
  induction cs generalizing before with
  | nil => exact absurd rfl hcs
  | cons p cs ih =>
    obtain ⟨hp, hfit⟩ := List.forall_mem_cons.mp hfit
    have hwidth := length_pad hp
    cases cs with
    | nil =>
      rw [toList_cells_singleton]
      obtain ⟨hcell, hedge, hbar⟩ := extract_cell hwidth before ('|' :: ' ' :: result)
      exact {
        cells := .cons ⟨rfl, hcell⟩ .nil
        edges := List.forall_mem_singleton.mpr hedge
        bar := hbar }
    | cons q cs =>
      have hnext := ih (List.cons_ne_nil q cs) hfit
        (before ++ (pad (columnWidth p.1) p.2).toList ++ [' ', '|', ' '])
      rw [toList_cells_cons]
      obtain ⟨hcell, hedge, -⟩ := extract_cell hwidth before
        (' ' :: ((cells (q :: cs)).toList ++ (' ' :: '|' :: '|' :: ' ' :: result)))
      simp only [List.length_append, hwidth, List.length_cons, List.length_nil,
        List.append_assoc, List.cons_append, List.nil_append] at hnext hcell hedge ⊢
      exact {
        cells := .cons ⟨rfl, hcell⟩ hnext.cells
        edges := List.forall_mem_cons.mpr ⟨hedge, hnext.edges⟩
        bar := hnext.bar }

/-- **A line has its cells where the layout says**, and the result after the double bar. -/
theorem fits_line {cs : List (String × String)} (hfit : ∀ p ∈ cs, p.2.length ≤ columnWidth p.1)
    (result : String) :
    Fits (layout (cs.map Prod.fst)) (line cs result).toList cs result.toList := by
  cases cs with
  | nil => exact ⟨.nil, List.forall_mem_nil _, by simp [line, layout, layoutFrom]⟩
  | cons p cs =>
    have h := fits_cells (List.cons_ne_nil p cs) hfit [] result.toList
    simpa [line, layout] using h

/-! ## Reading -/

theorem length_valueText_le (b : Bool) (x : String) :
    (valueText (some b)).length ≤ columnWidth x := by
  have hfive : (valueText (some b)).length ≤ 5 := by cases b <;> decide
  exact Nat.le_trans hfive (Nat.le_max_right _ _)

/-- A truth value is read back, whatever blanks are around it. -/
theorem readValue_valueText (b : Bool) {before after : List Char}
    (hbefore : ∀ c ∈ before, isBlank c = true) (hafter : ∀ c ∈ after, isBlank c = true) :
    readValue (before ++ ((valueText (some b)).toList ++ after)) = some b := by
  have hbare : Bare (valueText (some b)).toList := by
    cases b with
    | false => exact @Bare.intro 'f' 'e' ['a', 'l', 's'] (by decide) (by decide)
    | true => exact @Bare.intro 't' 'e' ['r', 'u'] (by decide) (by decide)
  rw [readValue, trim_margins hbare hbefore hafter]
  cases b <;> decide

theorem readValue_pad (width : Nat) (b : Bool) :
    readValue (pad width (valueText (some b))).toList = some b := by
  rw [pad, String.toList_append, String.toList_ofList]
  refine @readValue_valueText b [] _ (List.forall_mem_nil _) fun c hc => ?_
  rw [List.eq_of_mem_replicate hc]
  decide

theorem fits_rowLine (row : Row) (value : Option Bool) :
    Fits (layout (row.map Prod.fst)) (rowLine row value).toList
      (row.map fun p => (p.1, valueText (some p.2))) (valueText value).toList := by
  have hnames : (row.map fun p => (p.1, valueText (some p.2))).map Prod.fst = row.map Prod.fst :=
    List.map_map ..
  rw [← hnames]
  refine fits_line (fun p hp => ?_) (valueText value)
  obtain ⟨⟨x, b⟩, -, rfl⟩ := List.mem_map.mp hp
  exact length_valueText_le b x

/-- **Reading the line of a row gives the row and its value.** -/
theorem readLine_rowLine (row : Row) (b : Bool) :
    readLine (layout (row.map Prod.fst)) (rowLine row (some b)) =
      (row.map fun p => (p.1, some p.2), some b) := by
  have hfits := fits_rowLine row (some b)
  have hcells : (layout (row.map Prod.fst)).columns.map
        (fun c => (c.name, readValue (c.cell (rowLine row (some b)).toList))) =
      row.map fun p => (p.1, some p.2) := by
    have h := hfits.cells
    rw [List.forall₂_map_right_iff] at h
    rw [← List.forall₂_eq_eq_eq, List.forall₂_map_left_iff, List.forall₂_map_right_iff]
    refine h.imp fun c p hp => ?_
    rw [hp.1, hp.2, readValue_pad]
  have hresult : readValue ((rowLine row (some b)).toList.drop
      ((layout (row.map Prod.fst)).bar + 2)) = some b := by
    rw [← List.drop_drop, hfits.bar]
    have hspace : ∀ c ∈ [' '], isBlank c = true :=
      List.forall_mem_singleton.mpr (isBlank_of_isSpace rfl)
    have h := readValue_valueText b hspace (List.forall_mem_nil _)
    rwa [List.append_nil] at h
  rw [readLine, hcells, hresult]

/-! ## The table of a formula -/

theorem fits_heading (e : Expr) :
    Fits (layout e.vocabulary) (heading e).toList (e.vocabulary.map fun x => (x, x))
      e.display.toList := by
  have hnames : (e.vocabulary.map fun x => (x, x)).map Prod.fst = e.vocabulary := by
    rw [List.map_map]
    exact List.map_id _
  have h : ∀ p ∈ e.vocabulary.map fun x => (x, x), p.2.length ≤ columnWidth p.1 := by
    intro p hp
    obtain ⟨x, -, rfl⟩ := List.mem_map.mp hp
    exact Nat.le_max_left _ _
  have hfits := fits_line h e.display
  rwa [hnames] at hfits

/-- The names of a row of a truth table are those of the formula. -/
theorem names_of_mem_truthTable {e : Expr} {entry : Row × Option Bool} (h : entry ∈ e.truthTable) :
    entry.1.map Prod.fst = e.vocabulary := by
  obtain ⟨row, hrow, rfl⟩ := List.mem_map.mp h
  exact mem_rows.mp hrow

theorem aligned_lines (e : Expr) : Aligned (layout e.vocabulary) e.vocabulary (lines e) where
  names := columns_names 0 e.vocabulary
  wide c hc := by
    rw [(column_of_mem hc).1]
    exact ⟨Nat.le_max_left _ _, fun b => length_valueText_le b c.name⟩
  apart := columns_apart 0 e.vocabulary
  left c hc := (column_of_mem hc).2.2
  fits := by
    refine List.forall_mem_cons.mpr ⟨⟨_, _, fits_heading e⟩, fun line hline => ?_⟩
    obtain ⟨⟨row, value⟩, hentry, rfl⟩ := List.mem_map.mp hline
    rw [← names_of_mem_truthTable hentry]
    exact ⟨_, _, fits_rowLine row value⟩

theorem readLine_of_mem_truthTable {e : Expr} {entry : Row × Option Bool}
    (h : entry ∈ e.truthTable) :
    readLine (layout e.vocabulary) (rowLine entry.1 entry.2) =
      (entry.1.map fun p => (p.1, some p.2), entry.2) := by
  obtain ⟨b, hb⟩ := Option.ne_none_iff_exists'.mp (Expr.ne_none_of_mem_truthTable h)
  rw [← names_of_mem_truthTable h, hb]
  exact readLine_rowLine entry.1 b

/-- **The table of a formula is aligned, and it can be read.** It has a heading and two to the
number of variables lines, all of them with their cells and the double bar where the layout says;
the heading has the names in the columns, and what line number `r + 1` shows is row number `r` of
the truth table with its value. -/
theorem table_is_aligned (e : Expr) :
    (lines e).length = 2 ^ e.occurrences.toFinset.card + 1 ∧
    Aligned (layout e.vocabulary) e.vocabulary (lines e) ∧
    (∃ line, (lines e)[0]? = some line ∧ Fits (layout e.vocabulary) line.toList
      (e.vocabulary.map fun x => (x, x)) e.display.toList) ∧
    ∀ r, (lines e)[r + 1]?.map (readLine (layout e.vocabulary)) =
      e.truthTable[r]?.map fun entry => (entry.1.map fun p => (p.1, some p.2), entry.2) := by
  refine ⟨?_, aligned_lines e, ⟨heading e, rfl, fits_heading e⟩, fun r => ?_⟩
  · rw [length_lines, ← length_rows]
    have hrows : Enumerates (rows e.vocabulary) e.occurrences :=
      enumerates_rows (Vocabulary.pairwise_ofList _) fun _ => Expr.mem_vocabulary
    rw [hrows.count]
  · rw [lines, List.getElem?_cons_succ, List.getElem?_map, Option.map_map]
    refine Option.map_congr fun entry hentry => ?_
    exact readLine_of_mem_truthTable (List.mem_of_getElem? hentry)

end Propositional.TruthTable
