import Propositional.Proofs.Document.Acceptance
import Propositional.Proofs.Json.Symbols

/-!
# Two ways to decode a formula

A formula is decoded from the text of a document or from a JSON value. Up to the nesting limit,
which only values have, the two agree: on every text of a value the reader gives what the value
encodes (`toOption_read`), and every text that is read is the text of some value (`exists_of_read`).

Results:
* `decoders_agree`: both directions, with the limit.
* `read_bracketed`, `formula?_of_denotes_bracketed`: behind enough brackets a constant is still read
  from its text, but it is not decoded from its value.
-/

namespace Propositional.Json

open Propositional.Document

theorem toOption_eq_some_iff {text : String} {e : Expr} :
    (read text).toOption = some e ↔ read text = .ok e := by
  cases read text with
  | error => exact ⟨nofun, nofun⟩
  | ok e' => simp [Except.toOption]

/-- **From a text of a value the reader gives what the value encodes.** -/
theorem toOption_read {text : String} {v : Json} (h : Denotes text.toList v) :
    (read text).toOption = v.decode := by
  have hscans := scans_of_denotes h
  refine Option.ext fun e => ?_
  rw [toOption_eq_some_iff, read_eq_ok_iff]
  cases hv : v.symbols? with
  | none =>
    rw [hv] at hscans
    constructor
    · intro hread
      exact absurd hread.1 (fault_ne_none_of_scans hscans 0)
    · intro hdecode
      obtain ⟨symbols, hsome, -⟩ := derives_of_decode hdecode
      rw [hv] at hsome
      cases hsome
  | some symbols =>
    rw [hv] at hscans
    obtain ⟨hfault, rfl⟩ := (scanFrom_eq_iff_tiles 0).mpr hscans
    rw [← derives_iff_decode hv]
    exact and_iff_right hfault

/-- **Every text that is read is the text of a value.** -/
theorem exists_of_read {text : String} {e : Expr} (h : read text = .ok e) :
    ∃ v : Json, Denotes text.toList v ∧ v.decode = some e := by
  obtain ⟨hfault, hd⟩ := read_eq_ok_iff.mp h
  obtain ⟨v, hv, hdecode⟩ := exists_of_derives hd
  exact ⟨v, denotes_of_tiles hv ((scanFrom_eq_iff_tiles 0).mp ⟨hfault, rfl⟩), hdecode⟩

/-- **The two decoders agree.** From a text of a value within the limit the reader gives the formula
that is decoded from the value, or neither gives one. Conversely every text that is read is the text
of a value from which the same formula is decoded, unless it is nested past the limit. -/
theorem decoders_agree :
    (∀ (text : String) (v : Json), Denotes text.toList v → v.depth ≤ nestingLimit →
      (read text).toOption = v.formula?) ∧
    ∀ (text : String) (e : Expr), read text = .ok e →
      ∃ v : Json, Denotes text.toList v ∧
        v.formula? = if v.depth ≤ nestingLimit then some e else none := by
  constructor
  · intro text v h hdepth
    rw [formula?, if_pos hdepth]
    exact toOption_read h
  · intro text e h
    obtain ⟨v, hdenotes, hdecode⟩ := exists_of_read h
    exact ⟨v, hdenotes, by rw [formula?, hdecode]⟩

/-- A negation whose word is in small letters with an escape in it, with spaces here and there. -/
theorem decoders_agree_on_negation :
    Denotes " [ \"n\\u006ft\", true ]".toList (array [string "not", bool true]) ∧
      (array [string "not", bool true]).depth ≤ nestingLimit ∧
      (read " [ \"n\\u006ft\", true ]").toOption = some (.not (.const true)) ∧
      ∃ v : Json, Denotes " [ \"n\\u006ft\", true ]".toList v ∧
        v.formula? = if v.depth ≤ nestingLimit then some (.not (.const true)) else none := by
  have hword : Literal.Spelling ['n', '\\', 'u', '0', '0', '6', 'f', 't'] "not".toList :=
    .plain ⟨by decide, by decide, by decide⟩ <| .number (c := 'o') rfl <|
      .plain ⟨by decide, by decide, by decide⟩ .nil
  have hspace : ∀ c ∈ [' '], Text.isSpace c = true := List.forall_mem_singleton.mpr rfl
  have hdenotes : Denotes " [ \"n\\u006ft\", true ]".toList (array [string "not", bool true]) :=
    .array (@Mark.intro '[' [' '] [' '] hspace hspace) (.string hword) <|
      .cons (@Mark.intro ',' [] [' '] nofun hspace) (.bool true) <|
        .closing (@Mark.intro ']' [' '] [] hspace nofun)
  have hdepth : (array [string "not", bool true]).depth ≤ nestingLimit := by decide
  have hread : (read _).toOption = some (.not (.const true)) :=
    decoders_agree.1 _ _ hdenotes hdepth
  exact ⟨hdenotes, hdepth, hread, decoders_agree.2 _ _ (toOption_eq_some_iff.mp hread)⟩

/-! ## Brackets -/

/-- The value in this many arrays of one element. -/
def bracketed (v : Json) : Nat → Json
  | 0 => v
  | n + 1 => array [bracketed v n]

/-- The text in this many brackets. -/
def bracketedText (text : List Char) : Nat → List Char
  | 0 => text
  | n + 1 => '[' :: (bracketedText text n ++ [']'])

theorem denotes_bracketed {text : List Char} {v : Json} (h : Denotes text v) (n : Nat) :
    Denotes (bracketedText text n) (bracketed v n) := by
  induction n with
  | zero => exact h
  | succ n ih =>
    exact .array (@Mark.intro '[' [] [] nofun nofun) ih
      (.closing (@Mark.intro ']' [] [] nofun nofun))

theorem decode_bracketed (v : Json) (n : Nat) : (bracketed v n).decode = v.decode := by
  induction n with
  | zero => rfl
  | succ n ih => rw [bracketed, decode, ih]

theorem depth_bracketed (v : Json) (n : Nat) : (bracketed v n).depth = n + v.depth := by
  induction n with
  | zero => rw [bracketed, Nat.zero_add]
  | succ n ih =>
    rw [bracketed, depth, depth.depthOfAll, depth.depthOfAll, Nat.max_zero, ih]
    omega

/-- Brackets are read, however many there are. -/
theorem read_bracketed {text : List Char} {v : Json} {e : Expr} (h : Denotes text v)
    (hv : v.decode = some e) (n : Nat) : read (String.ofList (bracketedText text n)) = .ok e := by
  have hdenotes := denotes_bracketed h n
  rw [← String.toList_ofList (l := bracketedText text n)] at hdenotes
  rw [← toOption_eq_some_iff, toOption_read hdenotes, decode_bracketed, hv]

/-- Past the limit nothing is decoded from any value of the same text. -/
theorem formula?_of_denotes_bracketed {text : List Char} {v w : Json} {e : Expr}
    (h : Denotes text v) (hv : v.decode = some e) {n : Nat} (hn : nestingLimit ≤ n)
    (hw : Denotes (bracketedText text n) w) : w.formula? = none := by
  rw [← decode_bracketed v n] at hv
  obtain ⟨symbols, hsymbols, -⟩ := derives_of_decode hv
  obtain rfl := eq_of_denotes hw (denotes_bracketed h n) hsymbols
  have hpos : 1 ≤ v.depth := by cases v <;> simp only [depth] <;> omega
  rw [formula?, if_neg]
  rw [depth_bracketed]
  omega

/-- A constant in two thousand brackets is read, but it is not decoded. -/
theorem deep_constant_is_read_but_not_decoded :
    read (String.ofList (bracketedText "true".toList 2000)) = .ok (.const true) ∧
      ∀ v : Json, Denotes (bracketedText "true".toList 2000) v → v.formula? = none :=
  ⟨read_bracketed (.bool true) rfl 2000,
    fun _ hv => formula?_of_denotes_bracketed (.bool true) rfl (by decide) hv⟩

end Propositional.Json
