import Propositional.Text.Hex

/-!
# Reading UTF-8

Bytes are read strictly: no byte is skipped or replaced, and the first bad sequence stops the
reading. A sequence is one leading byte and up to three continuation bytes; the range allowed for
the first continuation byte is narrower after some leading bytes, which rules out overlong forms,
surrogates and numbers past the last code point.

* `decode` gives the characters, or a `Fault` that says which bytes are bad and why.
* `decode_ascii`: below 128 each byte is one character.

This is how `read_expression_text` decodes a file, and `Fault.message` is the wording of the error
that it passes on. Out of scope: other encodings.
-/

namespace Propositional.Text.Utf8

/-- Why bytes are not the encoding of a text. -/
inductive Reason where
  /-- No sequence starts with this byte. -/
  | invalidStart
  /-- The byte after the bad ones does not continue them. -/
  | invalidContinuation
  /-- The bytes end before the sequence does. -/
  | unexpectedEnd
  deriving DecidableEq, Repr

/-- The first bad sequence: where it starts, how many bytes are bad, and why. -/
structure Fault where
  position : Nat
  count : Nat
  reason : Reason
  deriving DecidableEq, Repr

/-- What a leading byte promises: how many bytes continue it, the least and the greatest value of
the first of them, and the leading bits of the code point. -/
structure Lead where
  owed : Nat
  low : Nat
  high : Nat
  bits : Nat

/-- Reads a leading byte. -/
def lead? (b : UInt8) : Option Lead :=
  let n := b.toNat
  if n < 0x80 then some ⟨0, 0x80, 0xbf, n⟩
  else if n < 0xc2 then none
  else if n < 0xe0 then some ⟨1, 0x80, 0xbf, n - 0xc0⟩
  else if n = 0xe0 then some ⟨2, 0xa0, 0xbf, n - 0xe0⟩
  else if n = 0xed then some ⟨2, 0x80, 0x9f, n - 0xe0⟩
  else if n < 0xf0 then some ⟨2, 0x80, 0xbf, n - 0xe0⟩
  else if n = 0xf0 then some ⟨3, 0x90, 0xbf, n - 0xf0⟩
  else if n < 0xf4 then some ⟨3, 0x80, 0xbf, n - 0xf0⟩
  else if n = 0xf4 then some ⟨3, 0x80, 0x8f, n - 0xf0⟩
  else none

/-- Reads continuation bytes from position `position` of a sequence that starts at `start`.
`pending` is what the leading byte still promises, none between sequences. -/
def decodeFrom (start position : Nat) (pending : Option Lead) :
    List UInt8 → Except Fault (List Char)
  | [] =>
    match pending with
    | none => .ok []
    | some _ => .error ⟨start, position - start, .unexpectedEnd⟩
  | b :: rest =>
    match pending with
    | none =>
      match lead? b with
      | none => .error ⟨position, 1, .invalidStart⟩
      | some ⟨0, _, _, bits⟩ =>
        (decodeFrom (position + 1) (position + 1) none rest).map (Char.ofNat bits :: ·)
      | some lead => decodeFrom position (position + 1) (some lead) rest
    | some lead =>
      if lead.low ≤ b.toNat ∧ b.toNat ≤ lead.high then
        let bits := lead.bits * 0x40 + (b.toNat - 0x80)
        if lead.owed ≤ 1 then
          (decodeFrom (position + 1) (position + 1) none rest).map (Char.ofNat bits :: ·)
        else
          decodeFrom start (position + 1) (some ⟨lead.owed - 1, 0x80, 0xbf, bits⟩) rest
      else .error ⟨start, position - start, .invalidContinuation⟩

/-- The text that bytes encode. -/
def decode (bytes : List UInt8) : Except Fault (List Char) :=
  decodeFrom 0 0 none bytes

/-- The wording of a reason. -/
def Reason.message : Reason → String
  | .invalidStart => "invalid start byte"
  | .invalidContinuation => "invalid continuation byte"
  | .unexpectedEnd => "unexpected end of data"

/-- The wording of a fault in the given bytes: one bad byte is shown, several are only counted. -/
def Fault.message (fault : Fault) (bytes : List UInt8) : String :=
  let place :=
    if fault.count ≤ 1 then
      "byte 0x" ++ String.ofList (Hex.fixed 2 (bytes[fault.position]?.getD 0).toNat) ++
        s!" in position {fault.position}"
    else s!"bytes in position {fault.position}-{fault.position + fault.count - 1}"
  "'utf-8' codec can't decode " ++ place ++ ": " ++ fault.reason.message

theorem decodeFrom_ascii (bytes : List UInt8) (h : ∀ b ∈ bytes, b.toNat < 0x80) (p : Nat) :
    decodeFrom p p none bytes = .ok (bytes.map fun b => Char.ofNat b.toNat) := by
  induction bytes generalizing p with
  | nil => rfl
  | cons b rest ih =>
    have hb := h b List.mem_cons_self
    have hl : lead? b = some ⟨0, 0x80, 0xbf, b.toNat⟩ := by simp [lead?, hb]
    simp only [decodeFrom, hl, ih fun c hc => h c (List.mem_cons_of_mem b hc), Except.map,
      List.map_cons]

theorem decode_ascii {bytes : List UInt8} (h : ∀ b ∈ bytes, b.toNat < 0x80) :
    decode bytes = .ok (bytes.map fun b => Char.ofNat b.toNat) :=
  decodeFrom_ascii bytes h 0

end Propositional.Text.Utf8
