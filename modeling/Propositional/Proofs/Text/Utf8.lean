import Propositional.Text.Utf8

/-!
# Reading encoded characters

The bytes of a text are read back as the text, whatever follows them: the leading byte of a
character promises as many continuation bytes as there are and leaves the first of them its range,
and the bits of all of them together are the code point. Nothing else is read. What a leading byte
leaves the bytes after it is just what characters are spelled with, so whatever has been read since
the start of a sequence (`Started`) becomes the bytes of a character with the last byte promised.

Results:
* `lead?_two`, `lead?_three`, `lead?_four`: what the leading byte of a character promises.
* `decodeFrom_encodeChar`: the bytes of one character are read as it.
* `decode_toUTF8`: the bytes of a text are read as it.
* `encodeChar_two`, `encodeChar_three`, `encodeChar_four`: bytes in their ranges spell a character.
* `decode_eq_ok_iff`: bytes are read as a text exactly when they are its bytes.
-/

namespace Propositional.Text.Utf8

open String (utf8EncodeChar)

/-! ## One byte -/

section

variable {start position owed low high bits : Nat} {b : UInt8}

/-- A leading byte with continuation bytes to come. -/
theorem decodeFrom_lead (h : lead? b = some ⟨owed + 1, low, high, bits⟩) (rest : List UInt8) :
    decodeFrom start position none (b :: rest) =
      decodeFrom position (position + 1) (some ⟨owed + 1, low, high, bits⟩) rest := by
  rw [decodeFrom, h]
  rfl

/-- A continuation byte with others to come. -/
theorem decodeFrom_next (h : low ≤ b.toNat ∧ b.toNat ≤ high) (rest : List UInt8) :
    decodeFrom start position (some ⟨owed + 2, low, high, bits⟩) (b :: rest) =
      decodeFrom start (position + 1)
        (some ⟨owed + 1, 0x80, 0xbf, bits * 0x40 + (b.toNat - 0x80)⟩) rest := by
  rw [decodeFrom, if_pos h]
  dsimp only
  rw [if_neg (by omega)]
  rfl

/-- The last continuation byte. -/
theorem decodeFrom_last (h : low ≤ b.toNat ∧ b.toNat ≤ high) (rest : List UInt8) :
    decodeFrom start position (some ⟨1, low, high, bits⟩) (b :: rest) =
      (decodeFrom (position + 1) (position + 1) none rest).map
        (Char.ofNat (bits * 0x40 + (b.toNat - 0x80)) :: ·) := by
  rw [decodeFrom, if_pos h]
  dsimp only
  rw [if_pos (Nat.le_refl 1)]

end

/-! ## Leading bytes -/

section

variable {v : Nat}

theorem toNat_ofNat {n : Nat} (h : n < 0x100) : (UInt8.ofNat n).toNat = n := by
  rw [UInt8.toNat_ofNat']
  exact Nat.mod_eq_of_lt h

theorem lead?_one (h : v ≤ 0x7f) : lead? (UInt8.ofNat v) = some ⟨0, 0x80, 0xbf, v⟩ := by
  simp only [lead?, toNat_ofNat (show v < 0x100 by omega), if_pos (show v < 0x80 by omega)]

theorem lead?_two (h : 0x7f < v) (h' : v ≤ 0x7ff) :
    lead? (UInt8.ofNat (v / 0x40 % 0x20 + 0xc0)) = some ⟨1, 0x80, 0xbf, v / 0x40⟩ := by
  have hn : v / 0x40 % 0x20 + 0xc0 = v / 0x40 + 0xc0 := by omega
  simp only [lead?, hn, toNat_ofNat (show v / 0x40 + 0xc0 < 0x100 by omega)]
  rw [if_neg (by omega), if_neg (by omega), if_pos (by omega), Nat.add_sub_cancel]

/-- The second byte of three is in the range that the first leaves it: no code point below `0x800`
is spelled with three bytes, and no surrogate is a character. -/
theorem lead?_three (h : 0x7ff < v) (h' : v ≤ 0xffff) (hs : v < 0xd800 ∨ 0xdfff < v) :
    ∃ low high, lead? (UInt8.ofNat (v / 0x1000 % 0x10 + 0xe0)) =
        some ⟨2, low, high, v / 0x1000⟩ ∧
      low ≤ v / 0x40 % 0x40 + 0x80 ∧ v / 0x40 % 0x40 + 0x80 ≤ high := by
  have hn : v / 0x1000 % 0x10 + 0xe0 = v / 0x1000 + 0xe0 := by omega
  simp only [lead?, hn, toNat_ofNat (show v / 0x1000 + 0xe0 < 0x100 by omega)]
  rw [if_neg (by omega), if_neg (by omega), if_neg (by omega), Nat.add_sub_cancel]
  by_cases hfirst : v / 0x1000 + 0xe0 = 0xe0
  · rw [if_pos hfirst]
    exact ⟨0xa0, 0xbf, rfl, by omega, by omega⟩
  rw [if_neg hfirst]
  by_cases hsurrogate : v / 0x1000 + 0xe0 = 0xed
  · rw [if_pos hsurrogate]
    exact ⟨0x80, 0x9f, rfl, by omega, by omega⟩
  · rw [if_neg hsurrogate, if_pos (by omega)]
    exact ⟨0x80, 0xbf, rfl, by omega, by omega⟩

/-- The second byte of four is in the range that the first leaves it: no code point below `0x10000`
is spelled with four bytes, and none is past `0x10ffff`. -/
theorem lead?_four (h : 0xffff < v) (h' : v ≤ 0x10ffff) :
    ∃ low high, lead? (UInt8.ofNat (v / 0x40000 % 0x8 + 0xf0)) =
        some ⟨3, low, high, v / 0x40000⟩ ∧
      low ≤ v / 0x1000 % 0x40 + 0x80 ∧ v / 0x1000 % 0x40 + 0x80 ≤ high := by
  have hn : v / 0x40000 % 0x8 + 0xf0 = v / 0x40000 + 0xf0 := by omega
  simp only [lead?, hn, toNat_ofNat (show v / 0x40000 + 0xf0 < 0x100 by omega)]
  rw [if_neg (by omega), if_neg (by omega), if_neg (by omega), if_neg (by omega),
    if_neg (by omega), if_neg (by omega), Nat.add_sub_cancel]
  by_cases hfirst : v / 0x40000 + 0xf0 = 0xf0
  · rw [if_pos hfirst]
    exact ⟨0x90, 0xbf, rfl, by omega, by omega⟩
  rw [if_neg hfirst]
  by_cases hlast : v / 0x40000 + 0xf0 = 0xf4
  · rw [if_neg (by omega), if_pos hlast]
    exact ⟨0x80, 0x8f, rfl, by omega, by omega⟩
  · rw [if_pos (by omega)]
    exact ⟨0x80, 0xbf, rfl, by omega, by omega⟩

/-! ## Code points -/

/-- A continuation byte is in the range of all of them. -/
theorem tail_range (n : Nat) : 0x80 ≤ (UInt8.ofNat (n % 0x40 + 0x80)).toNat ∧
    (UInt8.ofNat (n % 0x40 + 0x80)).toNat ≤ 0xbf := by
  rw [toNat_ofNat (by omega)]
  omega

/-- A continuation byte carries six bits. -/
theorem tail_bits (n : Nat) : (UInt8.ofNat (n % 0x40 + 0x80)).toNat - 0x80 = n % 0x40 := by
  rw [toNat_ofNat (by omega), Nat.add_sub_cancel]

theorem decodeFrom_one (h : v ≤ 0x7f) (position : Nat) (rest : List UInt8) :
    decodeFrom position position none (UInt8.ofNat v :: rest) =
      (decodeFrom (position + 1) (position + 1) none rest).map (Char.ofNat v :: ·) := by
  rw [decodeFrom, lead?_one h]
  rfl

theorem decodeFrom_two (h : 0x7f < v) (h' : v ≤ 0x7ff) (position : Nat) (rest : List UInt8) :
    decodeFrom position position none
        (UInt8.ofNat (v / 0x40 % 0x20 + 0xc0) :: UInt8.ofNat (v % 0x40 + 0x80) :: rest) =
      (decodeFrom (position + 2) (position + 2) none rest).map (Char.ofNat v :: ·) := by
  have hv : v / 0x40 * 0x40 + v % 0x40 = v := by omega
  rw [decodeFrom_lead (lead?_two h h'), decodeFrom_last (tail_range v), tail_bits, hv]

theorem decodeFrom_three (h : 0x7ff < v) (h' : v ≤ 0xffff) (hs : v < 0xd800 ∨ 0xdfff < v)
    (position : Nat) (rest : List UInt8) :
    decodeFrom position position none
        (UInt8.ofNat (v / 0x1000 % 0x10 + 0xe0) :: UInt8.ofNat (v / 0x40 % 0x40 + 0x80) ::
          UInt8.ofNat (v % 0x40 + 0x80) :: rest) =
      (decodeFrom (position + 3) (position + 3) none rest).map (Char.ofNat v :: ·) := by
  obtain ⟨low, high, hlead, hsecond⟩ := lead?_three h h' hs
  rw [← toNat_ofNat (show v / 0x40 % 0x40 + 0x80 < 0x100 by omega)] at hsecond
  have hv : (v / 0x1000 * 0x40 + v / 0x40 % 0x40) * 0x40 + v % 0x40 = v := by omega
  rw [decodeFrom_lead hlead, decodeFrom_next hsecond, decodeFrom_last (tail_range v), tail_bits,
    tail_bits, hv]

theorem decodeFrom_four (h : 0xffff < v) (h' : v ≤ 0x10ffff) (position : Nat)
    (rest : List UInt8) :
    decodeFrom position position none
        (UInt8.ofNat (v / 0x40000 % 0x8 + 0xf0) :: UInt8.ofNat (v / 0x1000 % 0x40 + 0x80) ::
          UInt8.ofNat (v / 0x40 % 0x40 + 0x80) :: UInt8.ofNat (v % 0x40 + 0x80) :: rest) =
      (decodeFrom (position + 4) (position + 4) none rest).map (Char.ofNat v :: ·) := by
  obtain ⟨low, high, hlead, hsecond⟩ := lead?_four h h'
  rw [← toNat_ofNat (show v / 0x1000 % 0x40 + 0x80 < 0x100 by omega)] at hsecond
  have hv : ((v / 0x40000 * 0x40 + v / 0x1000 % 0x40) * 0x40 + v / 0x40 % 0x40) * 0x40 +
      v % 0x40 = v := by omega
  rw [decodeFrom_lead hlead, decodeFrom_next hsecond, decodeFrom_next (tail_range (v / 0x40)),
    decodeFrom_last (tail_range v), tail_bits, tail_bits, tail_bits, hv]

end

/-! ## Texts -/

/-- **The bytes of a character are read as it**, whatever follows. -/
theorem decodeFrom_encodeChar (c : Char) (position : Nat) (rest : List UInt8) :
    ∃ next, decodeFrom position position none (utf8EncodeChar c ++ rest) =
      (decodeFrom next next none rest).map (c :: ·) := by
  have hvalid : c.val.toNat.isValidChar := c.valid
  have hchar : Char.ofNat c.val.toNat = c := Char.ofNat_toNat c
  unfold utf8EncodeChar
  generalize c.val.toNat = v at hvalid hchar
  subst hchar
  have hs : v < 0xd800 ∨ 0xdfff < v := by
    rcases hvalid with h | h
    · exact .inl h
    · exact .inr h.1
  have hmax : v ≤ 0x10ffff := by
    rcases hvalid with h | h <;> omega
  dsimp only
  split
  · next h => exact ⟨_, decodeFrom_one h position rest⟩
  split
  · next h h' => exact ⟨_, decodeFrom_two (by omega) h' position rest⟩
  split
  · next h h' => exact ⟨_, decodeFrom_three (by omega) h' hs position rest⟩
  · exact ⟨_, decodeFrom_four (by omega) hmax position rest⟩

theorem decodeFrom_flatMap (text : List Char) (position : Nat) :
    decodeFrom position position none (text.flatMap utf8EncodeChar) = .ok text := by
  induction text generalizing position with
  | nil => rfl
  | cons c text ih =>
    obtain ⟨next, hc⟩ := decodeFrom_encodeChar c position (text.flatMap utf8EncodeChar)
    rw [List.flatMap_cons, hc, ih]
    rfl

theorem toListLoop_eq (bytes : ByteArray) (i : Nat) (done : List UInt8) :
    ByteArray.toList.loop bytes i done = done.reverse ++ bytes.data.toList.drop i := by
  fun_induction ByteArray.toList.loop bytes i done with
  | case1 i done hi ih =>
    have hlength : i < bytes.data.toList.length := hi
    have hget : bytes.get! i = bytes.data.toList[i] := getElem!_pos bytes.data i hi
    rw [ih, List.reverse_cons, List.append_assoc, hget, List.singleton_append,
      ← List.drop_eq_getElem_cons hlength]
  | case2 i done hi =>
    have hlength : bytes.data.toList.length ≤ i := Nat.le_of_not_lt hi
    rw [List.drop_eq_nil_of_le hlength, List.append_nil]

/-- The bytes of a text are those of its characters. -/
theorem toList_toUTF8 (text : String) :
    text.toUTF8.toList = text.toList.flatMap utf8EncodeChar := by
  have hdata : text.toUTF8.toList = text.toUTF8.data.toList := toListLoop_eq text.toUTF8 0 []
  rw [hdata, String.toUTF8_eq_toByteArray, ← String.utf8Encode_toList]
  exact List.toList_data_toByteArray

/-- **The bytes of a text are read as it.** -/
theorem decode_toUTF8 (text : String) : decode text.toUTF8.toList = .ok text.toList := by
  rw [toList_toUTF8, decode]
  exact decodeFrom_flatMap text.toList 0

/-! ## Bytes of a sequence -/

section

variable {owed low high bits : Nat} {b b₂ b₃ b₄ : UInt8}

/-- What leading bytes there are: how many bytes they promise, and what they leave the first of
these where some values would spell no character or spell one at too great a length. -/
theorem lead?_cases (h : lead? b = some ⟨owed, low, high, bits⟩) :
    (owed = 0 ∧ b.toNat < 0x80 ∧ bits = b.toNat) ∨
      (0x80 ≤ low ∧ high ≤ 0xbf ∧
        ((owed = 1 ∧ 0x2 ≤ bits ∧ bits < 0x20 ∧ bits + 0xc0 = b.toNat) ∨
          (owed = 2 ∧ bits < 0x10 ∧ bits + 0xe0 = b.toNat ∧ (bits = 0 → low = 0xa0) ∧
            (bits = 0xd → high = 0x9f)) ∨
          (owed = 3 ∧ bits ≤ 0x4 ∧ bits + 0xf0 = b.toNat ∧ (bits = 0 → low = 0x90) ∧
            (bits = 0x4 → high = 0x8f)))) := by
  simp only [lead?] at h
  repeat' split at h
  all_goals cases h
  all_goals omega

theorem ofNat_eq {n : Nat} (h : n = b.toNat) : UInt8.ofNat n = b := by
  rw [h, UInt8.ofNat_toNat]

theorem val_ofNat {v : Nat} (h : v.isValidChar) : (Char.ofNat v).val.toNat = v := by
  unfold Char.ofNat
  rw [dif_pos h]
  rfl

theorem encodeChar_one (h : lead? b = some ⟨0, low, high, bits⟩) :
    utf8EncodeChar (Char.ofNat bits) = [b] := by
  have hcases := lead?_cases h
  have hv : bits.isValidChar := .inl (by omega)
  unfold utf8EncodeChar
  rw [val_ofNat hv]
  dsimp only
  rw [if_pos (by omega), ofNat_eq (b := b) (by omega)]

theorem encodeChar_two (h : lead? b = some ⟨1, low, high, bits⟩)
    (h₂ : low ≤ b₂.toNat ∧ b₂.toNat ≤ high) :
    utf8EncodeChar (Char.ofNat (bits * 0x40 + (b₂.toNat - 0x80))) = [b, b₂] := by
  have hcases := lead?_cases h
  have hv : (bits * 0x40 + (b₂.toNat - 0x80)).isValidChar := .inl (by omega)
  unfold utf8EncodeChar
  rw [val_ofNat hv]
  dsimp only
  rw [if_neg (by omega), if_pos (by omega), ofNat_eq (b := b) (by omega),
    ofNat_eq (b := b₂) (by omega)]

theorem encodeChar_three (h : lead? b = some ⟨2, low, high, bits⟩)
    (h₂ : low ≤ b₂.toNat ∧ b₂.toNat ≤ high) (h₃ : 0x80 ≤ b₃.toNat ∧ b₃.toNat ≤ 0xbf) :
    utf8EncodeChar (Char.ofNat ((bits * 0x40 + (b₂.toNat - 0x80)) * 0x40 + (b₃.toNat - 0x80))) =
      [b, b₂, b₃] := by
  have hcases := lead?_cases h
  have hv : ((bits * 0x40 + (b₂.toNat - 0x80)) * 0x40 + (b₃.toNat - 0x80)).isValidChar := by
    unfold Nat.isValidChar
    omega
  unfold utf8EncodeChar
  rw [val_ofNat hv]
  dsimp only
  rw [if_neg (by omega), if_neg (by omega), if_pos (by omega), ofNat_eq (b := b) (by omega),
    ofNat_eq (b := b₂) (by omega), ofNat_eq (b := b₃) (by omega)]

theorem encodeChar_four (h : lead? b = some ⟨3, low, high, bits⟩)
    (h₂ : low ≤ b₂.toNat ∧ b₂.toNat ≤ high) (h₃ : 0x80 ≤ b₃.toNat ∧ b₃.toNat ≤ 0xbf)
    (h₄ : 0x80 ≤ b₄.toNat ∧ b₄.toNat ≤ 0xbf) :
    utf8EncodeChar (Char.ofNat (((bits * 0x40 + (b₂.toNat - 0x80)) * 0x40 + (b₃.toNat - 0x80)) *
      0x40 + (b₄.toNat - 0x80))) = [b, b₂, b₃, b₄] := by
  have hcases := lead?_cases h
  have hv : (((bits * 0x40 + (b₂.toNat - 0x80)) * 0x40 + (b₃.toNat - 0x80)) * 0x40 +
      (b₄.toNat - 0x80)).isValidChar := by
    unfold Nat.isValidChar
    omega
  unfold utf8EncodeChar
  rw [val_ofNat hv]
  dsimp only
  rw [if_neg (by omega), if_neg (by omega), if_neg (by omega), ofNat_eq (b := b) (by omega),
    ofNat_eq (b := b₂) (by omega), ofNat_eq (b := b₃) (by omega), ofNat_eq (b := b₄) (by omega)]

end

/-! ## Parts of a sequence -/

/-- The bytes read since the start of a sequence, and what is promised after them. -/
inductive Started : (read : List UInt8) → (lead : Lead) → Prop
  | one {owed low high bits : Nat} {b : UInt8} (h : lead? b = some ⟨owed + 1, low, high, bits⟩) :
      Started [b] ⟨owed + 1, low, high, bits⟩
  | two {owed low high bits : Nat} {b b₂ : UInt8} (h : lead? b = some ⟨owed + 2, low, high, bits⟩)
      (h₂ : low ≤ b₂.toNat ∧ b₂.toNat ≤ high) :
      Started [b, b₂] ⟨owed + 1, 0x80, 0xbf, bits * 0x40 + (b₂.toNat - 0x80)⟩
  | three {low high bits : Nat} {b b₂ b₃ : UInt8} (h : lead? b = some ⟨3, low, high, bits⟩)
      (h₂ : low ≤ b₂.toNat ∧ b₂.toNat ≤ high) (h₃ : 0x80 ≤ b₃.toNat ∧ b₃.toNat ≤ 0xbf) :
      Started [b, b₂, b₃]
        ⟨1, 0x80, 0xbf, (bits * 0x40 + (b₂.toNat - 0x80)) * 0x40 + (b₃.toNat - 0x80)⟩

section

variable {read : List UInt8} {lead : Lead} {b : UInt8}

/-- One more continuation byte. -/
theorem Started.next (h : Started read lead) (howed : ¬ lead.owed ≤ 1)
    (hb : lead.low ≤ b.toNat ∧ b.toNat ≤ lead.high) :
    Started (read ++ [b]) ⟨lead.owed - 1, 0x80, 0xbf, lead.bits * 0x40 + (b.toNat - 0x80)⟩ := by
  cases h with
  | @one owed low high bits b₁ h =>
    cases owed with
    | zero => exact absurd (Nat.le_refl 1) howed
    | succ owed => exact .two h hb
  | @two owed low high bits b₁ b₂ h h₂ =>
    cases owed with
    | zero => exact absurd (Nat.le_refl 1) howed
    | succ owed =>
      obtain rfl : owed = 0 := by
        have := lead?_cases h
        omega
      exact .three h h₂ hb
  | three => exact absurd (Nat.le_refl 1) howed

/-- The last continuation byte. -/
theorem Started.last (h : Started read lead) (howed : lead.owed ≤ 1)
    (hb : lead.low ≤ b.toNat ∧ b.toNat ≤ lead.high) :
    read ++ [b] = utf8EncodeChar (Char.ofNat (lead.bits * 0x40 + (b.toNat - 0x80))) := by
  cases h with
  | @one owed low high bits b₁ h =>
    obtain rfl : owed = 0 := by simpa using howed
    exact (encodeChar_two h hb).symm
  | @two owed low high bits b₁ b₂ h h₂ =>
    obtain rfl : owed = 0 := by simpa using howed
    exact (encodeChar_three h h₂ hb).symm
  | three h h₂ h₃ => exact (encodeChar_four h h₂ h₃ hb).symm

end

/-- The bytes of the sequence that the reader is in, none between sequences. -/
def Between (read : List UInt8) : Option Lead → Prop
  | none => read = []
  | some lead => Started read lead

theorem exists_of_map_cons {c : Char} {result : Except Fault (List Char)} {text : List Char}
    (h : result.map (c :: ·) = .ok text) : ∃ rest, result = .ok rest ∧ text = c :: rest := by
  cases result with
  | error => cases h
  | ok rest => exact ⟨rest, rfl, (Except.ok.inj h).symm⟩

/-- **Whatever is read is spelled by the bytes**, by induction on the reading: the bytes since the
start of a sequence are kept with what is promised after them. -/
theorem eq_flatMap_of_decodeFrom {start position : Nat} {pending : Option Lead}
    {bytes : List UInt8} {text : List Char} (h : decodeFrom start position pending bytes = .ok text)
    {read : List UInt8} (hread : Between read pending) :
    read ++ bytes = text.flatMap utf8EncodeChar := by
  have hnone : Between [] none := rfl
  fun_induction decodeFrom start position pending bytes generalizing text read with
  | case1 =>
    obtain rfl : read = [] := hread
    cases h
    rfl
  | case2 => cases h
  | case3 => cases h
  | case4 _ position b rest low high bits hlead ih =>
    obtain rfl : read = [] := hread
    obtain ⟨text, hrest, rfl⟩ := exists_of_map_cons h
    have htail : rest = text.flatMap utf8EncodeChar := ih hrest hnone
    rw [List.flatMap_cons, encodeChar_one hlead, ← htail]
    rfl
  | case5 _ position b rest lead howed hlead ih =>
    obtain rfl : read = [] := hread
    obtain ⟨owed, low, high, bits⟩ := lead
    cases owed with
    | zero => exact absurd rfl (howed low high bits)
    | succ owed =>
      have hone : Between [b] (some ⟨owed + 1, low, high, bits⟩) := .one hlead
      exact ih h hone
  | case6 start position b rest lead hb bits howed =>
    rename_i ih
    obtain ⟨text, hrest, rfl⟩ := exists_of_map_cons h
    have htail : rest = text.flatMap utf8EncodeChar := ih hrest hnone
    rw [List.flatMap_cons, ← Started.last hread howed hb, ← htail, List.append_assoc]
    rfl
  | case7 start position b rest lead hb bits howed =>
    rename_i ih
    have hall := ih h (Started.next hread howed hb)
    rwa [List.append_assoc] at hall
  | case8 => cases h

/-- **Bytes are read as a text exactly when they are its bytes.** -/
theorem decode_eq_ok_iff {bytes : List UInt8} {text : String} :
    decode bytes = .ok text.toList ↔ text.toUTF8.toList = bytes := by
  constructor
  · intro h
    have hnone : Between [] none := rfl
    have hbytes : bytes = text.toList.flatMap utf8EncodeChar := eq_flatMap_of_decodeFrom h hnone
    rw [toList_toUTF8, hbytes]
  · rintro rfl
    exact decode_toUTF8 text

end Propositional.Text.Utf8
