import Propositional.Document.Literal

/-!
# Where a string literal ends

A piece of a literal *stays inside* if no quote in it closes the literal: whatever follows, the
literal ends where it would have ended without the piece.

Results:
* `staysInside_append`, `staysInside_escape`, `staysInside_plain`: what stays inside.
* `split_of_staysInside`: the quote after what stays inside is the closing one.
-/

namespace Propositional.Document.Literal

open Propositional.Text

/-- The piece does not close a literal, whatever follows. -/
def StaysInside (piece : List Char) : Prop :=
  ∀ rest, split (piece ++ rest) = (split rest).map fun p => (piece ++ p.1, p.2)

theorem staysInside_nil : StaysInside [] := by
  intro rest
  show split rest = (split rest).map id
  rw [Option.map_id, id]

theorem staysInside_append {a b : List Char} (ha : StaysInside a) (hb : StaysInside b) :
    StaysInside (a ++ b) := by
  intro rest
  rw [List.append_assoc, ha, hb, Option.map_map]
  congr 1
  funext p
  simp only [Function.comp, List.append_assoc]

/-- A backslash takes the character after it along, unless it is a line feed. -/
theorem staysInside_escape {c : Char} (h : c ≠ '\n') : StaysInside ['\\', c] := by
  intro rest
  simp only [List.cons_append, List.nil_append, split, if_neg h]

/-- A character that stands for itself inside a literal. -/
def Plain (c : Char) : Prop :=
  0x20 ≤ c.toNat ∧ c ≠ '"' ∧ c ≠ '\\'

theorem staysInside_plain {c : Char} (h : Plain c) : StaysInside [c] := by
  obtain ⟨hspace, hquote, hslash⟩ := h
  intro rest
  rw [List.singleton_append, split]
  · rw [if_neg (by omega)]
    rfl
  · exact hquote
  · exact fun heq _ => hslash heq
  · exact fun _ _ heq _ => hslash heq

theorem staysInside_of_forall_plain {piece : List Char} (h : ∀ c ∈ piece, Plain c) :
    StaysInside piece := by
  induction piece with
  | nil => exact staysInside_nil
  | cons c piece ih =>
    exact staysInside_append (staysInside_plain (h c List.mem_cons_self))
      (ih fun d hd => h d (List.mem_cons_of_mem c hd))

/-- **What stays inside is cut off at the quote after it.** -/
theorem split_of_staysInside {body : List Char} (h : StaysInside body) (rest : List Char) :
    split (body ++ '"' :: rest) = some (body, rest) := by
  rw [h, split, Option.map_some, List.append_nil]

end Propositional.Document.Literal
