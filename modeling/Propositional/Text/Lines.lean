/-!
# Line ends

A text file may end its lines with a line feed, a carriage return, or both in the order return,
feed. `unify` writes all three as a line feed.

* `unify_of_noReturn`: a text without a carriage return is left alone.

This is how `read_expression_text` opens a file. Out of scope: the line ends of written files.
-/

namespace Propositional.Text

/-- The text with every line end written as a line feed. -/
def unify : List Char → List Char
  | '\r' :: '\n' :: rest => '\n' :: unify rest
  | '\r' :: rest => '\n' :: unify rest
  | c :: rest => c :: unify rest
  | [] => []

theorem unify_of_noReturn {text : List Char} (h : '\r' ∉ text) : unify text = text := by
  fun_induction unify text with
  | case1 => simp at h
  | case2 => simp at h
  | case3 c rest _ _ ih => rw [ih (fun hr => h (List.mem_cons_of_mem c hr))]
  | case4 => rfl

end Propositional.Text
