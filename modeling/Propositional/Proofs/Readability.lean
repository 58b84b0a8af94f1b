import Propositional.Expr.Basic

/-!
# Unique readability

A negation is written with its sign in front, and whatever joins two formulas stands in parentheses,
so no rule of precedence is needed to read a written formula. Two formulas can still be written
alike: nothing in a name is escaped, and a variable may be called `true` or `p & q`. With plain
names this does not happen.

The induction needs more than formulas with one text: an operand is read with the rest of the text
behind it. An operand ends at the end of the text, at a blank or at a closing parenthesis, and no
plain name goes on there, so it is not a matter of choice where a name ends. The first character
tells a negation and a joined pair from each other, and from a name or constant.

Results:
* `word_append_inj`, `opening_eq_of_display_append_eq`: these two observations.
* `display_append_inj`: if two written formulas, each with a rest behind it, are one text, then the
  formulas are equal, and so are the rests.
* `eq_of_display_eq`: formulas with plain names that are written alike are equal.
-/

namespace Propositional

/-- The characters that are written around names and constants. -/
def displayMarks : List Char :=
  ['!', '(', ')', '&', '|', ' ']

/-- A text with none of these characters. -/
def Unmarked (word : List Char) : Prop :=
  ∀ c ∈ word, c ∉ displayMarks

-- Given by name, since instance search may take the one that goes through all characters there are.
instance (word : List Char) : Decidable (Unmarked word) :=
  List.decidableBAll (fun c => c ∉ displayMarks) word

/-- A name is plain if it is not written like a constant and has none of the characters that are
written around names. The empty name is plain, too. -/
structure Name.IsPlain (name : String) : Prop where
  notTrue : name ≠ "true"
  notFalse : name ≠ "false"
  unmarked : Unmarked name.toList

instance (name : String) : Decidable (Name.IsPlain name) :=
  decidable_of_iff (name ≠ "true" ∧ name ≠ "false" ∧ Unmarked name.toList)
    ⟨fun h => ⟨h.1, h.2.1, h.2.2⟩, fun h => ⟨h.1, h.2, h.3⟩⟩

/-! ## Where a name ends -/

/-- A text that can stand after an operand. -/
inductive EndsOperand : List Char → Prop
  | done : EndsOperand []
  | blank (rest : List Char) : EndsOperand (' ' :: rest)
  | closing (rest : List Char) : EndsOperand (')' :: rest)

/-- A text without marks is all that stands before the first mark behind it. -/
theorem takeWhile_word_append {word rest : List Char} (hword : Unmarked word)
    (hrest : EndsOperand rest) : (word ++ rest).takeWhile (· ∉ displayMarks) = word := by
  have hstop : rest.takeWhile (· ∉ displayMarks) = [] := by
    cases hrest <;> rfl
  rw [List.takeWhile_append_of_pos fun c hc => decide_eq_true (hword c hc), hstop,
    List.append_nil]

/-- **Two words at the start of one text end at the same place.** -/
theorem word_append_inj {v w s t : List Char} (hv : Unmarked v) (hw : Unmarked w)
    (hs : EndsOperand s) (ht : EndsOperand t) (h : v ++ s = w ++ t) : v = w ∧ s = t := by
  have hvw : v = w := by
    rw [← takeWhile_word_append hv hs, h, takeWhile_word_append hw ht]
  rw [hvw] at h
  exact ⟨hvw, List.append_cancel_left h⟩

/-- The characters that formulas with operands start with. -/
def isOpening (c : Char) : Bool :=
  c == '!' || c == '('

/-- A word does not start like a formula with operands. This holds of the empty word as well, since
no operand starts where one ends. -/
theorem filter_head?_word_append {word rest : List Char} (hword : Unmarked word)
    (hrest : EndsOperand rest) : (word ++ rest).head?.filter isOpening = none := by
  cases word with
  | nil => cases hrest <;> rfl
  | cons c word =>
    refine Option.filter_some_neg (Bool.eq_false_iff.mpr fun hopening => ?_)
    refine hword c List.mem_cons_self ?_
    simp only [isOpening, Bool.or_eq_true, beq_iff_eq] at hopening
    rcases hopening with rfl | rfl <;> decide

namespace Expr

/-! ## Written formulas -/

/-- All names in a formula are plain. -/
def HasPlainNames (e : Expr) : Prop :=
  ∀ name ∈ e.occurrences, Name.IsPlain name

instance (e : Expr) : Decidable e.HasPlainNames :=
  inferInstanceAs (Decidable (∀ name ∈ e.occurrences, Name.IsPlain name))

theorem hasPlainNames_var {x : Name} : (var x).HasPlainNames ↔ Name.IsPlain x.text :=
  List.forall_mem_singleton

theorem hasPlainNames_not {e : Expr} : (not e).HasPlainNames ↔ e.HasPlainNames :=
  Iff.rfl

theorem hasPlainNames_bin {c : Connective} {l r : Expr} :
    (bin c l r).HasPlainNames ↔ l.HasPlainNames ∧ r.HasPlainNames :=
  List.forall_mem_append

theorem toList_display_not (e : Expr) : (not e).display.toList = '!' :: e.display.toList := by
  simp [display]

theorem toList_display_bin (c : Connective) (l r : Expr) :
    (bin c l r).display.toList = '(' :: (l.display.toList ++
      ' ' :: (c.sign.toList ++ ' ' :: (r.display.toList ++ [')']))) := by
  simp [display]

theorem sign_append_inj {c d : Connective} {s t : List Char}
    (h : c.sign.toList ++ s = d.sign.toList ++ t) : c = d ∧ s = t := by
  match c, d with
  | .and, .and | .or, .or => exact ⟨rfl, (List.cons.inj h).2⟩
  | .and, .or | .or, .and => exact absurd (List.cons.inj h).1 (by decide)

/-- The first character of a written formula with operands. -/
def opening : Expr → Option Char
  | const _ | var _ => none
  | not _ => some '!'
  | bin .. => some '('

/-- A formula without operands is written as one word. -/
theorem unmarked_of_opening_eq_none {e : Expr} (h : e.HasPlainNames) (hopening : e.opening = none) :
    Unmarked e.display.toList := by
  cases e with
  | const b => cases b <;> decide
  | var x => exact (hasPlainNames_var.mp h).unmarked
  | not | bin => cases hopening

theorem eq_of_display_const_eq {v w : Bool} (h : (const v).display = (const w).display) :
    v = w := by
  revert v w
  decide

theorem display_const_ne_display_var {b : Bool} {x : Name} (h : (var x).HasPlainNames) :
    (const b).display ≠ (var x).display := by
  cases b with
  | true => exact (hasPlainNames_var.mp h).notTrue.symm
  | false => exact (hasPlainNames_var.mp h).notFalse.symm

/-- Formulas without operands are told apart by their words. -/
theorem eq_of_display_eq_of_opening {a b : Expr} (ha : a.HasPlainNames) (hb : b.HasPlainNames)
    (hopena : a.opening = none) (hopenb : b.opening = none) (h : a.display = b.display) :
    a = b := by
  cases a with
  | const v =>
    cases b with
    | const w => exact congrArg const (eq_of_display_const_eq h)
    | var y => exact absurd h (display_const_ne_display_var hb)
    | not | bin => cases hopenb
  | var x =>
    cases b with
    | const w => exact absurd h.symm (display_const_ne_display_var ha)
    | var y => exact congrArg var (Name.ext h)
    | not | bin => cases hopenb
  | not | bin => cases hopena

/-- The kind of a formula is seen at its first character. -/
theorem filter_head?_display_append {e : Expr} (h : e.HasPlainNames) {s : List Char}
    (hs : EndsOperand s) : (e.display.toList ++ s).head?.filter isOpening = e.opening := by
  cases e with
  | const | var => exact filter_head?_word_append (unmarked_of_opening_eq_none h rfl) hs
  | not e =>
    rw [toList_display_not]
    rfl
  | bin c l r =>
    rw [toList_display_bin]
    rfl

/-- **Formulas at the start of one text are of one kind.** -/
theorem opening_eq_of_display_append_eq {a b : Expr} (ha : a.HasPlainNames)
    (hb : b.HasPlainNames) {s t : List Char} (hs : EndsOperand s) (ht : EndsOperand t)
    (h : a.display.toList ++ s = b.display.toList ++ t) : a.opening = b.opening := by
  rw [← filter_head?_display_append ha hs, h, filter_head?_display_append hb ht]

/-- **Formulas at the start of one text are equal**, if an operand can end after each of them. -/
theorem display_append_inj {a b : Expr} (ha : a.HasPlainNames) (hb : b.HasPlainNames)
    {s t : List Char} (hs : EndsOperand s) (ht : EndsOperand t)
    (h : a.display.toList ++ s = b.display.toList ++ t) : a = b ∧ s = t := by
  induction a generalizing b s t with
  | const | var =>
    have hopening := opening_eq_of_display_append_eq ha hb hs ht h
    obtain ⟨hword, rfl⟩ := word_append_inj (unmarked_of_opening_eq_none ha rfl)
      (unmarked_of_opening_eq_none hb hopening.symm) hs ht h
    exact ⟨eq_of_display_eq_of_opening ha hb rfl hopening.symm (String.toList_inj.mp hword), rfl⟩
  | not e ih =>
    have hopening := opening_eq_of_display_append_eq ha hb hs ht h
    cases b with
    | not f =>
      rw [toList_display_not, toList_display_not] at h
      obtain ⟨rfl, rfl⟩ := ih (hasPlainNames_not.mp ha) (hasPlainNames_not.mp hb) hs ht
        (List.cons.inj h).2
      exact ⟨rfl, rfl⟩
    | const | var | bin => cases hopening
  | bin c l r ihl ihr =>
    have hopening := opening_eq_of_display_append_eq ha hb hs ht h
    cases b with
    | bin d l' r' =>
      obtain ⟨hal, har⟩ := hasPlainNames_bin.mp ha
      obtain ⟨hbl, hbr⟩ := hasPlainNames_bin.mp hb
      simp only [toList_display_bin, List.cons_append, List.append_assoc, List.cons.injEq,
        true_and] at h
      -- The left operands end at a blank, the right ones at the closing parenthesis.
      obtain ⟨rfl, hsign⟩ := ihl hal hbl (.blank _) (.blank _) h
      obtain ⟨rfl, hright⟩ := sign_append_inj (List.cons.inj hsign).2
      obtain ⟨rfl, hrest⟩ := ihr har hbr (.closing _) (.closing _) (List.cons.inj hright).2
      exact ⟨rfl, (List.cons.inj hrest).2⟩
    | const | var | not => cases hopening

/-- **Unique readability.** Formulas with plain names that are written alike are equal. -/
theorem eq_of_display_eq {a b : Expr} (ha : a.HasPlainNames) (hb : b.HasPlainNames)
    (h : a.display = b.display) : a = b := by
  have htext : a.display.toList ++ [] = b.display.toList ++ [] := by rw [h]
  exact (display_append_inj ha hb .done .done htext).1

/-- The De Morgan negation of `p & !q` is written `(!p | q)`, so it is this formula. -/
theorem negated_conjunction_of_display : ∃ p q : Name,
    (and (var p) (not (var q))).negate.HasPlainNames ∧
      (or (not (var p)) (var q)).HasPlainNames ∧
      (and (var p) (not (var q))).negate.display = "(!p | q)" ∧
      (or (not (var p)) (var q)).display = "(!p | q)" ∧
      (and (var p) (not (var q))).negate = or (not (var p)) (var q) := by
  let p : Name := ⟨"p", by decide⟩
  let q : Name := ⟨"q", by decide⟩
  have hnegated : (and (var p) (not (var q))).negate.HasPlainNames := by decide
  have hjoined : (or (not (var p)) (var q)).HasPlainNames := by decide
  exact ⟨p, q, hnegated, hjoined, rfl, rfl, eq_of_display_eq hnegated hjoined rfl⟩

/-- A variable may be written like a constant; then its name is not plain. -/
example : (var ⟨"true", by decide⟩).display = (const true).display ∧
    ¬ (var ⟨"true", by decide⟩).HasPlainNames := by
  decide

end Expr

end Propositional
