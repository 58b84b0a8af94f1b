import Mathlib.Data.List.TakeWhile
import Propositional.Text.Blank
import Propositional.Text.Lines

/-!
# Blanks around a text

A text that neither starts nor ends with a blank is what is left when blanks stand around it and are
removed (`trim_margins`); of blanks alone nothing is left (`trim_eq_nil_iff`). Unifying line ends
comes before that. It may shorten a margin, but it makes no line end out of a margin and the text
together: a line end of two characters starts with a carriage return and ends with a line feed, and
both are blanks (`unify_append`).
-/

namespace Propositional.Text

/-! ## Removing blanks -/

/-- The text starts and ends with characters that are no blanks. -/
inductive Bare : (text : List Char) → Prop
  | intro {first last : Char} {middle : List Char} (hfirst : isBlank first = false)
      (hlast : isBlank last = false) : Bare (first :: (middle ++ [last]))

theorem Bare.isEmpty {text : List Char} (h : Bare text) : text.isEmpty = false := by
  cases h
  rfl

/-- A bare text does not start with the second half of a line end. -/
theorem Bare.head?_append_ne {text : List Char} (h : Bare text) (rest : List Char) :
    (text ++ rest).head? ≠ some '\n' := by
  obtain @⟨first, last, middle, hfirst, -⟩ := h
  intro hhead
  obtain rfl : first = '\n' := Option.some.inj hhead
  cases hfirst

theorem dropWhile_margin {before rest : List Char} {c : Char} (hc : isBlank c = false)
    (hbefore : ∀ d ∈ before, isBlank d = true) :
    (before ++ c :: rest).dropWhile isBlank = c :: rest := by
  rw [List.dropWhile_append_of_pos hbefore,
    List.dropWhile_cons_of_neg (by rw [hc]; exact Bool.false_ne_true)]

/-- **Blanks around a text are removed**, and nothing else. -/
theorem trim_margins {before text after : List Char} (h : Bare text)
    (hbefore : ∀ c ∈ before, isBlank c = true) (hafter : ∀ c ∈ after, isBlank c = true) :
    trim (before ++ (text ++ after)) = text := by
  obtain @⟨first, last, middle, hfirst, hlast⟩ := h
  have hreverse : ∀ c ∈ after.reverse, isBlank c = true := fun c hc =>
    hafter c (List.mem_reverse.mp hc)
  have hback : (first :: (middle ++ [last] ++ after)).reverse =
      after.reverse ++ last :: (first :: middle).reverse := by
    simp only [List.reverse_cons, List.reverse_append, List.append_assoc, List.cons_append,
      List.nil_append]
  rw [trim, List.cons_append, dropWhile_margin hfirst hbefore, hback,
    dropWhile_margin hlast hreverse, List.reverse_cons, List.reverse_reverse, List.cons_append]

/-- Nothing is left of blanks alone. -/
theorem trim_eq_nil_iff {text : List Char} : trim text = [] ↔ ∀ c ∈ text, isBlank c = true := by
  simp only [trim, List.reverse_eq_nil_iff, List.dropWhile_eq_nil_iff, List.mem_reverse]
  constructor
  · intro h c hc
    rw [← List.takeWhile_append_dropWhile (p := isBlank) (l := text)] at hc
    rcases List.mem_append.mp hc with hc | hc
    · exact List.mem_takeWhile_imp hc
    · exact h c hc
  · intro h c hc
    exact h c ((List.dropWhile_sublist isBlank).mem hc)

/-! ## Unifying line ends -/

/-- Unifying makes no blanks and no others. -/
theorem forall_isBlank_unify {text : List Char} :
    (∀ c ∈ unify text, isBlank c = true) ↔ ∀ c ∈ text, isBlank c = true := by
  have hfeed : isBlank '\n' = true := rfl
  have hreturn : isBlank '\r' = true := rfl
  fun_induction unify text with
  | case1 rest ih => simp only [List.forall_mem_cons, hfeed, hreturn, true_and, ih]
  | case2 rest _ ih => simp only [List.forall_mem_cons, hfeed, hreturn, true_and, ih]
  | case3 c rest _ _ ih => simp only [List.forall_mem_cons, ih]
  | case4 => exact Iff.rfl

theorem getLast?_of_cons {c d : Char} {rest : List Char}
    (h : (c :: rest).getLast? ≠ some d) : rest.getLast? ≠ some d := by
  intro hlast
  rw [List.getLast?_cons, hlast] at h
  exact h rfl

/-- **Line ends on both sides of a place are unified by themselves**, unless one line end lies on
both sides. -/
theorem unify_append {a b : List Char} (h : a.getLast? ≠ some '\r' ∨ b.head? ≠ some '\n') :
    unify (a ++ b) = unify a ++ unify b := by
  fun_induction unify a with
  | case1 rest ih =>
    have hrest := h.imp_left fun h => getLast?_of_cons (getLast?_of_cons h)
    rw [List.cons_append, List.cons_append, unify, ih hrest, List.cons_append]
  | case2 rest hfeed ih =>
    have hrest := h.imp_left getLast?_of_cons
    rw [List.cons_append, unify, ih hrest, List.cons_append]
    intro rest' heq
    -- A line feed after the carriage return is the first character of `rest` or of `b`.
    cases rest with
    | nil =>
      rcases h with h | h
      · exact h rfl
      · rw [List.nil_append] at heq
        exact h (by rw [heq, List.head?_cons])
    | cons c rest =>
      obtain ⟨rfl, -⟩ := List.cons.inj heq
      exact hfeed rest rfl
  | case3 c rest hfeed hreturn ih =>
    have hrest := h.imp_left getLast?_of_cons
    rw [List.cons_append, unify, ih hrest, List.cons_append]
    · exact fun _ heq _ => hreturn heq
    · exact hreturn
  | case4 => rfl

end Propositional.Text
