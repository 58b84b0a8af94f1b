/-!
# Hexadecimal digits

* `value?_eq_some_iff`: the digits and their values.
* `value?_digit`: a digit is read back as the number it stands for.
* `length_fixed`: `fixed` writes exactly the digits asked for.

The digits are those of escapes in string literals, which `STRING` reads and `serialize` writes.
-/

namespace Propositional.Text.Hex

/-- The lower-case digit of a number below sixteen. -/
def digit (n : Nat) : Char :=
  if n < 10 then Char.ofNat (0x30 + n) else Char.ofNat (0x57 + n)

/-- The number that a digit of either case stands for. -/
def value? (c : Char) : Option Nat :=
  if '0' ≤ c ∧ c ≤ '9' then some (c.toNat - 0x30)
  else if 'a' ≤ c ∧ c ≤ 'f' then some (c.toNat - 0x57)
  else if 'A' ≤ c ∧ c ≤ 'F' then some (c.toNat - 0x37)
  else none

/-- The last `width` digits of a number, most significant first. -/
def fixed : (width : Nat) → (n : Nat) → List Char
  | 0, _ => []
  | width + 1, n => fixed width (n / 16) ++ [digit (n % 16)]

/-- The number that four digits spell. -/
def value4? (a b c d : Char) : Option Nat :=
  match value? a, value? b, value? c, value? d with
  | some w, some x, some y, some z => some (((w * 16 + x) * 16 + y) * 16 + z)
  | _, _, _, _ => none

theorem value?_digit {n : Nat} (h : n < 16) : value? (digit n) = some n := by
  have all : ∀ n, n < 16 → value? (digit n) = some n := by decide
  exact all n h

/-- Each range of digits starts at its own code point. -/
theorem toNat_of_value? {c : Char} {n : Nat} (h : value? c = some n) :
    n < 10 ∧ c.toNat = n + 0x30 ∨
      10 ≤ n ∧ n < 16 ∧ (c.toNat = n + 0x57 ∨ c.toNat = n + 0x37) := by
  unfold value? at h
  simp only [Char.le_def, UInt32.le_iff_toNat_le] at h
  split at h
  · next hrange =>
    obtain ⟨hfirst, hlast⟩ : 0x30 ≤ c.toNat ∧ c.toNat ≤ 0x39 := hrange
    cases h
    omega
  · split at h
    · next hrange =>
      obtain ⟨hfirst, hlast⟩ : 0x61 ≤ c.toNat ∧ c.toNat ≤ 0x66 := hrange
      cases h
      omega
    · split at h
      · next hrange =>
        obtain ⟨hfirst, hlast⟩ : 0x41 ≤ c.toNat ∧ c.toNat ≤ 0x46 := hrange
        cases h
        omega
      · cases h

theorem value?_lt {c : Char} {n : Nat} (h : value? c = some n) : n < 16 := by
  rcases toNat_of_value? h with ⟨hlt, -⟩ | ⟨-, hlt, -⟩
  · exact Nat.lt_trans hlt (by decide)
  · exact hlt

/-- **The digits and their values**, in lower and in upper case. -/
theorem value?_eq_some_iff {c : Char} {n : Nat} :
    value? c = some n ↔
      "0123456789abcdef".toList[n]? = some c ∨ "0123456789ABCDEF".toList[n]? = some c := by
  constructor
  · have decimal : ∀ n < 10, "0123456789abcdef".toList[n]? = some (Char.ofNat (n + 0x30)) := by
      decide
    have lower : ∀ n < 16, 10 ≤ n →
        "0123456789abcdef".toList[n]? = some (Char.ofNat (n + 0x57)) := by
      decide
    have upper : ∀ n < 16, 10 ≤ n →
        "0123456789ABCDEF".toList[n]? = some (Char.ofNat (n + 0x37)) := by
      decide
    intro h
    rw [← Char.ofNat_toNat c]
    rcases toNat_of_value? h with ⟨hn, hc⟩ | ⟨hle, hlt, hc | hc⟩
    · exact Or.inl (hc ▸ decimal n hn)
    · exact Or.inl (hc ▸ lower n hlt hle)
    · exact Or.inr (hc ▸ upper n hlt hle)
  · have lower : ∀ (n : Nat) (hn : n < "0123456789abcdef".toList.length),
        value? "0123456789abcdef".toList[n] = some n := by
      decide
    have upper : ∀ (n : Nat) (hn : n < "0123456789ABCDEF".toList.length),
        value? "0123456789ABCDEF".toList[n] = some n := by
      decide
    rintro (h | h)
    · obtain ⟨hn, rfl⟩ := List.getElem?_eq_some_iff.mp h
      exact lower n hn
    · obtain ⟨hn, rfl⟩ := List.getElem?_eq_some_iff.mp h
      exact upper n hn

@[simp] theorem length_fixed (width n : Nat) : (fixed width n).length = width := by
  induction width generalizing n with
  | zero => rfl
  | succ width ih => simp [fixed, ih]

/-- Four digits spell a number below two to the sixteenth. -/
theorem value4?_lt {a b c d : Char} {n : Nat} (h : value4? a b c d = some n) : n < 0x10000 := by
  unfold value4? at h
  split at h
  · next w x y z hw hx hy hz =>
    cases h
    have := value?_lt hw
    have := value?_lt hx
    have := value?_lt hy
    have := value?_lt hz
    omega
  · cases h

/-- Four written digits are read back. -/
theorem value4?_fixed {n : Nat} (h : n < 0x10000) :
    ∃ a b c d, fixed 4 n = [a, b, c, d] ∧ value4? a b c d = some n := by
  refine ⟨_, _, _, _, rfl, ?_⟩
  unfold value4?
  rw [value?_digit (Nat.mod_lt _ (by decide)), value?_digit (Nat.mod_lt _ (by decide)),
    value?_digit (Nat.mod_lt _ (by decide)), value?_digit (Nat.mod_lt _ (by decide))]
  simp only [Option.some.injEq]
  omega

end Propositional.Text.Hex
