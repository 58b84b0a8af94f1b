import Propositional.Text.Hex

/-!
# String literals

A string literal stands between double quotes. Inside, a character from the space upward other than
the quote and the backslash stands for itself; all others are escaped. Written literals use the
short escapes where there is one and four lower-case hexadecimal digits elsewhere; a reader accepts
any character in any legal spelling. A character past the sixteen-bit range may be spelled as a high
and a low surrogate.

Reading takes two steps: `split` finds the closing quote, and `decode` reads what is inside.

* `split_eq_some`: what `split` returns is the text it was given, cut at a quote.

`split` is the pattern of the rule `STRING` of `BoolExpLexer`, and `decode` is what the rule does
with the text; `encode` is how `serialize` writes a text. Out of scope: texts with unpaired
surrogates.
-/

namespace Propositional.Document.Literal

open Propositional.Text

/-! ## Writing -/

/-- The written form of one character inside a literal. -/
def encodeChar (c : Char) : List Char :=
  if c = '"' then ['\\', '"']
  else if c = '\\' then ['\\', '\\']
  else if c = '\n' then ['\\', 'n']
  else if c = '\r' then ['\\', 'r']
  else if c = '\t' then ['\\', 't']
  else if c = '\x08' then ['\\', 'b']
  else if c = '\x0c' then ['\\', 'f']
  else if c.toNat < 0x20 then '\\' :: 'u' :: Hex.fixed 4 c.toNat
  else [c]

/-- The written form of a text, without the quotes. -/
def encodeBody (text : List Char) : List Char :=
  text.flatMap encodeChar

/-- The literal that a text is written as. -/
def encode (text : List Char) : List Char :=
  '"' :: encodeBody text ++ ['"']

/-! ## Reading -/

/-- The text before the closing quote and the text after it. An escaped character is passed over
whatever it is, except that a line feed cannot be escaped; no control character may stand for
itself. -/
def split : List Char → Option (List Char × List Char)
  | [] => none
  | '"' :: rest => some ([], rest)
  | ['\\'] => none
  | '\\' :: c :: rest =>
    if c = '\n' then none
    else (split rest).map fun (body, after) => ('\\' :: c :: body, after)
  | c :: rest =>
    if c.toNat < 0x20 then none
    else (split rest).map fun (body, after) => (c :: body, after)

/-- Why the inside of a literal stands for no text. Offsets count from the opening quote, positions
from the start of the text that is spelled. -/
inductive Fault where
  /-- The backslash at this offset starts no escape. -/
  | unknownEscape (offset : Nat)
  /-- The `u` at this offset is not followed by four hexadecimal digits. -/
  | brokenUnit (offset : Nat)
  /-- From the first to the last of these positions stand surrogates without their partner. -/
  | unpaired (unit first last : Nat)
  deriving DecidableEq, Repr

/-- A spelled unit: a character, or a surrogate that has not found its partner. -/
inductive Piece where
  | char (c : Char)
  | surrogate (unit : Nat)
  deriving DecidableEq, Repr

/-- The unit that four digits spell. -/
def Piece.ofUnit (unit : Nat) : Piece :=
  if 0xd800 ≤ unit ∧ unit < 0xe000 then .surrogate unit else .char (Char.ofNat unit)

/-- The character of a short escape. -/
def shortEscape? (c : Char) : Option Char :=
  if c = '"' ∨ c = '\\' ∨ c = '/' then some c
  else if c = 'b' then some '\x08'
  else if c = 'f' then some '\x0c'
  else if c = 'n' then some '\n'
  else if c = 'r' then some '\r'
  else if c = 't' then some '\t'
  else none

/-- The units that the inside of a literal spells, from an offset on. -/
def pieces (offset : Nat) : List Char → Except Fault (List Piece)
  | [] => .ok []
  | '\\' :: 'u' :: a :: b :: c :: d :: rest =>
    match Hex.value4? a b c d with
    | some unit => (pieces (offset + 6) rest).map (Piece.ofUnit unit :: ·)
    | none => .error (.brokenUnit (offset + 1))
  | '\\' :: 'u' :: _ => .error (.brokenUnit (offset + 1))
  | '\\' :: c :: rest =>
    match shortEscape? c with
    | some e => (pieces (offset + 2) rest).map (Piece.char e :: ·)
    | none => .error (.unknownEscape offset)
  | c :: rest => (pieces (offset + 1) rest).map (Piece.char c :: ·)

/-- A high surrogate, the first of a pair. -/
def isHigh (unit : Nat) : Bool :=
  0xd800 ≤ unit && unit < 0xdc00

/-- A low surrogate, the second of a pair. -/
def isLow (unit : Nat) : Bool :=
  0xdc00 ≤ unit && unit < 0xe000

/-- The character of a surrogate pair. -/
def pairChar (high low : Nat) : Char :=
  Char.ofNat (0x10000 + (high - 0xd800) * 0x400 + (low - 0xdc00))

/-- Joins each high surrogate with a low one right after it. -/
def joinPairs : List Piece → List Piece
  | .surrogate high :: .surrogate low :: rest =>
    if isHigh high && isLow low then .char (pairChar high low) :: joinPairs rest
    else .surrogate high :: joinPairs (.surrogate low :: rest)
  | p :: rest => p :: joinPairs rest
  | [] => []

/-- The number of surrogates at the start. -/
def runLength : List Piece → Nat
  | .surrogate _ :: rest => runLength rest + 1
  | _ => 0

/-- The text of joined units from a position on. The first surrogate that is left stops it. -/
def characters (position : Nat) : List Piece → Except Fault (List Char)
  | [] => .ok []
  | .char c :: rest => (characters (position + 1) rest).map (c :: ·)
  | .surrogate unit :: rest => .error (.unpaired unit position (position + runLength rest))

/-- The text that the inside of a literal spells. -/
def decode (body : List Char) : Except Fault (List Char) :=
  match pieces 1 body with
  | .ok units => characters 0 (joinPairs units)
  | .error fault => .error fault

/-- The wording of a fault. Columns count from one. -/
def Fault.message : Fault → String
  | .unknownEscape n => s!"Invalid \\escape: line 1 column {n + 1} (char {n})"
  | .brokenUnit n => s!"Invalid \\uXXXX escape: line 1 column {n + 1} (char {n})"
  | .unpaired unit first last =>
    if first = last then
      "'utf-8' codec can't encode character '\\u" ++ String.ofList (Hex.fixed 4 unit) ++
        s!"' in position {first}: surrogates not allowed"
    else
      s!"'utf-8' codec can't encode characters in position {first}-{last}: surrogates not allowed"

/-! ## Where a literal is cut -/

theorem split_eq_some {text body after : List Char} (h : split text = some (body, after)) :
    text = body ++ '"' :: after := by
  fun_induction split text generalizing body after with
  | case1 => cases h
  | case2 rest => cases h; rfl
  | case3 => cases h
  | case4 => cases h
  | case5 c rest _ ih =>
    obtain ⟨⟨b, r⟩, hs, he⟩ := Option.map_eq_some_iff.mp h
    cases he
    rw [ih hs]; rfl
  | case6 => cases h
  | case7 c rest _ _ _ _ ih =>
    obtain ⟨⟨b, r⟩, hs, he⟩ := Option.map_eq_some_iff.mp h
    cases he
    rw [ih hs]; rfl

end Propositional.Document.Literal
