import Propositional.Document.Literal
import Propositional.Text.Blank

/-!
# Tokens

A document is read as brackets, commas, the two constants and string literals, with spaces, tabs,
carriage returns and line feeds between them. Each token carries the positions of its first
character and of the one after its last; positions count characters from zero.

* `lexeme_split`: a token is a non-empty piece at the start of the text.
* `scan` gives all tokens up to the end of the text or up to the first fault.

`scan` is `BoolExpLexer`: `Symbol` has its kinds of tokens, `lexeme` its rules in their order, and
`LexicalFault` is what `error` and `STRING` raise. Out of scope: what it would go on with after an
error.
-/

namespace Propositional.Document

open Propositional.Text

/-- What a token stands for. -/
inductive Symbol where
  | opening
  | closing
  | comma
  | string (value : String)
  | bool (value : Bool)
  deriving DecidableEq, Repr

/-- The name of the kind of a symbol. -/
def Symbol.kind : Symbol → String
  | .opening => "LBRACKET"
  | .closing => "RBRACKET"
  | .comma => "COMMA"
  | .string _ => "STRING"
  | .bool true => "TRUE"
  | .bool false => "FALSE"

/-- The text that a symbol stands for: the value of a literal, and the spelling of all others. -/
def Symbol.value : Symbol → String
  | .opening => "["
  | .closing => "]"
  | .comma => ","
  | .string value => value
  | .bool true => "true"
  | .bool false => "false"

/-- A symbol and where it stands. -/
structure Token where
  symbol : Symbol
  /-- The position of its first character. -/
  start : Nat
  /-- The position after its last character. -/
  stop : Nat
  deriving DecidableEq, Repr

/-- Why no token can be read. -/
inductive LexicalCause where
  /-- No token starts with this character. A quote without a closing quote is such a character. -/
  | illegal (c : Char)
  /-- The literal that starts here spells no text. -/
  | literal (fault : Literal.Fault)
  deriving DecidableEq, Repr

/-- Why and where no token can be read. -/
structure LexicalFault where
  position : Nat
  cause : LexicalCause
  deriving DecidableEq, Repr

/-- The wording of a lexical fault. -/
def LexicalFault.message : LexicalFault → String
  | ⟨position, .illegal c⟩ =>
    "Illegal character '" ++ c.toString ++ s!"' encountered at position {position}"
  | ⟨position, .literal fault⟩ =>
    s!"Invalid string literal at position {position}: " ++ fault.message

/-- The symbol that a text starts with, how it is spelled, and the text after it. -/
def lexeme (c : Char) (rest : List Char) : Except LexicalCause (Symbol × List Char × List Char) :=
  match c, rest with
  | '[', rest => .ok (.opening, ['['], rest)
  | ']', rest => .ok (.closing, [']'], rest)
  | ',', rest => .ok (.comma, [','], rest)
  | 't', 'r' :: 'u' :: 'e' :: rest => .ok (.bool true, ['t', 'r', 'u', 'e'], rest)
  | 'f', 'a' :: 'l' :: 's' :: 'e' :: rest => .ok (.bool false, ['f', 'a', 'l', 's', 'e'], rest)
  | '"', rest =>
    match Literal.split rest with
    | none => .error (.illegal '"')
    | some (body, after) =>
      match Literal.decode body with
      | .ok value => .ok (.string (String.ofList value), '"' :: body ++ ['"'], after)
      | .error fault => .error (.literal fault)
  | c, _ => .error (.illegal c)

theorem lexeme_split {c : Char} {rest : List Char} {s : Symbol} {spelling after : List Char}
    (h : lexeme c rest = .ok (s, spelling, after)) :
    c :: rest = spelling ++ after ∧ spelling ≠ [] := by
  unfold lexeme at h
  split at h
  · cases h; exact ⟨rfl, by simp⟩
  · cases h; exact ⟨rfl, by simp⟩
  · cases h; exact ⟨rfl, by simp⟩
  · cases h; exact ⟨rfl, by simp⟩
  · cases h; exact ⟨rfl, by simp⟩
  · split at h
    · cases h
    · next body after' hs =>
      split at h
      · cases h
        rw [Literal.split_eq_some hs]
        exact ⟨by simp, by simp⟩
      · cases h
  · cases h

/-- What scanning a text gives: tokens, and the fault that stopped it, if one did. -/
structure Scan where
  tokens : List Token
  fault : Option LexicalFault
  deriving DecidableEq, Repr

/-- The tokens of a text whose first character has the given position. -/
def scanFrom (position : Nat) : List Char → Scan
  | [] => ⟨[], none⟩
  | c :: rest =>
    if isSpace c then scanFrom (position + 1) rest
    else
      match _read : lexeme c rest with
      | .error cause => ⟨[], some ⟨position, cause⟩⟩
      | .ok (symbol, spelling, after) =>
        let stop := position + spelling.length
        let scanned := scanFrom stop after
        ⟨⟨symbol, position, stop⟩ :: scanned.tokens, scanned.fault⟩
  termination_by text => text.length
  decreasing_by
    · exact Nat.lt_succ_self _
    · obtain ⟨hs, hne⟩ := lexeme_split _read
      have := List.length_pos_iff.mpr hne
      have := congrArg List.length hs
      simp only [List.length_append, List.length_cons] at this ⊢
      omega

/-- The tokens of a text. -/
def scan (text : String) : Scan :=
  scanFrom 0 text.toList

end Propositional.Document
