import Propositional.Proofs.Document.Tiling

/-!
# Where tokens stand

Every message about a document names a position in its text, so the positions of tokens have to be
right. They are if the tokens lie in the text one after the other, each at a spelling of its own
symbol, with nothing but spaces outside of them.

Scanning goes on from a position with the text after it. What has been read before only moves the
positions, so everything is said about the whole text and the first position that is still open
(`Placed`), and each step of scanning opens a later one (`Placed.space`, `Placed.token`).

Results:
* `not_spelled_of_fault`: where a fault is found, no token starts.
* `placed_scanFrom`: tokens are placed, from any position on.
* `fault_iff_isFirstMark`: a fault is at the first character after the last token that is no space,
  and there is one if there is such a character.
* `tokens_tile`: all of it, for a whole document.
-/

namespace Propositional.Document

open Propositional.Text

/-- The position that scanning a text of the given length came to: the fault, or the end. -/
def Scan.reach (scanned : Scan) (length : Nat) : Nat :=
  (scanned.fault.map LexicalFault.position).getD length

/-- What was scanned from an open position on lies in the whole text as it should. -/
structure Placed (whole : List Char) (first : Nat) (scanned : Scan) : Prop where
  /-- Scanning comes to a place in the text, no earlier than the open position. -/
  reach : first ≤ scanned.reach whole.length ∧ scanned.reach whole.length ≤ whole.length
  /-- No token is empty, and each lies between the open position and the place of the end. -/
  within : ∀ t ∈ scanned.tokens,
    first ≤ t.start ∧ t.start < t.stop ∧ t.stop ≤ scanned.reach whole.length
  /-- Tokens follow each other and share no position. -/
  ordered : scanned.tokens.Pairwise fun s t => s.stop ≤ t.start
  /-- The text of a token spells it: a bracket, a comma or a word itself, or a literal with the
  value of the token. -/
  spelled : ∀ t ∈ scanned.tokens, Spelled (whole.extract t.start t.stop) t.symbol
  /-- Only spaces are outside of the tokens. -/
  spaces : ∀ (p : Nat) (c : Char), first ≤ p → p < scanned.reach whole.length →
    (∀ t ∈ scanned.tokens, ¬ (t.start ≤ p ∧ p < t.stop)) → whole[p]? = some c → isSpace c = true
  /-- A fault is at a character that is no space, and no token starts there. -/
  stuck : ∀ fault, scanned.fault = some fault →
    (∃ c, whole[fault.position]? = some c ∧ isSpace c = false) ∧
    ∀ spelling after symbol, whole.drop fault.position = spelling ++ after →
      ¬ Spelled spelling symbol

/-! ## One step -/

/-- Nothing is left to scan at the end. -/
theorem placed_nil (whole : List Char) : Placed whole whole.length ⟨[], none⟩ where
  reach := ⟨Nat.le_refl _, Nat.le_refl _⟩
  within := List.forall_mem_nil _
  ordered := .nil
  spelled := List.forall_mem_nil _
  spaces _ _ hfirst hreach _ _ := absurd hreach (Nat.not_lt.mpr hfirst)
  stuck _ h := nomatch h

/-- A space before the open position may be opened. -/
theorem Placed.space {whole : List Char} {first : Nat} {scanned : Scan} {c : Char}
    (h : Placed whole (first + 1) scanned) (hc : whole[first]? = some c) (hs : isSpace c = true) :
    Placed whole first scanned where
  reach := ⟨Nat.le_of_succ_le h.reach.1, h.reach.2⟩
  within t ht := (h.within t ht).imp_left Nat.le_of_succ_le
  ordered := h.ordered
  spelled := h.spelled
  spaces p d hfirst hreach hout hd := by
    rcases Nat.eq_or_lt_of_le hfirst with rfl | hlt
    · rw [hc] at hd
      cases hd
      exact hs
    · exact h.spaces p d hlt hreach hout hd
  stuck := h.stuck

/-- So may a token that ends there. -/
theorem Placed.token {whole : List Char} {token : Token} {scanned : Scan}
    (h : Placed whole token.stop scanned) (hlt : token.start < token.stop)
    (hspelled : Spelled (whole.extract token.start token.stop) token.symbol) :
    Placed whole token.start ⟨token :: scanned.tokens, scanned.fault⟩ where
  reach := ⟨Nat.le_trans (Nat.le_of_lt hlt) h.reach.1, h.reach.2⟩
  within := List.forall_mem_cons.mpr ⟨⟨Nat.le_refl _, hlt, h.reach.1⟩, fun t ht =>
    (h.within t ht).imp_left (Nat.le_trans (Nat.le_of_lt hlt))⟩
  ordered := List.pairwise_cons.mpr ⟨fun t ht => (h.within t ht).1, h.ordered⟩
  spelled := List.forall_mem_cons.mpr ⟨hspelled, h.spelled⟩
  spaces p c hfirst hreach hout hc := by
    obtain ⟨htoken, hout⟩ := List.forall_mem_cons.mp hout
    exact h.spaces p c (Nat.le_of_not_lt fun hp => htoken ⟨hfirst, hp⟩) hreach hout hc
  stuck := h.stuck

/-- **Where a fault is found, no token starts.** -/
theorem not_spelled_of_fault {c : Char} {rest spelling after : List Char} {cause : LexicalCause}
    {symbol : Symbol} (hs : isSpace c = false) (hread : lexeme c rest = .error cause)
    (htext : c :: rest = spelling ++ after) : ¬ Spelled spelling symbol := by
  intro h
  obtain ⟨tokens, next, hmap, hscan⟩ := spells_of_spelled h 0 after
  rw [← htext, scanFrom_fault hs hread] at hscan
  obtain ⟨hnil, -⟩ := List.append_eq_nil_iff.mp (congrArg Scan.tokens hscan).symm
  rw [hnil] at hmap
  cases hmap

theorem placed_fault {whole before rest : List Char} {c : Char} {cause : LexicalCause}
    (hwhole : whole = before ++ c :: rest) (hs : isSpace c = false)
    (hread : lexeme c rest = .error cause) :
    Placed whole before.length ⟨[], some ⟨before.length, cause⟩⟩ where
  reach := by
    subst hwhole
    exact ⟨Nat.le_refl _, by rw [List.length_append]; exact Nat.le_add_right _ _⟩
  within := List.forall_mem_nil _
  ordered := .nil
  spelled := List.forall_mem_nil _
  spaces _ _ hfirst hreach _ _ := absurd hreach (Nat.not_lt.mpr hfirst)
  stuck fault hfault := by
    cases hfault
    subst hwhole
    refine ⟨⟨c, by simp, hs⟩, fun spelling after symbol hdrop => ?_⟩
    rw [List.drop_left] at hdrop
    exact not_spelled_of_fault hs hread hdrop

/-! ## All steps -/

/-- **Tokens are placed**, from any position on. -/
theorem placed_scanFrom (whole : List Char) (position : Nat) (text : List Char) :
    ∀ before : List Char, whole = before ++ text → before.length = position →
      Placed whole position (scanFrom position text) := by
  fun_induction scanFrom position text with
  | case1 position =>
    rintro before hwhole rfl
    rw [List.append_nil] at hwhole
    rw [← hwhole]
    exact placed_nil whole
  | case2 position c rest hc ih =>
    rintro before hwhole rfl
    have hnext := ih (before ++ [c]) (by rw [hwhole, List.append_assoc]; rfl)
      (by rw [List.length_append]; rfl)
    exact hnext.space (by simp [hwhole]) hc
  | case3 position c rest hc cause hread =>
    rintro before hwhole rfl
    exact placed_fault hwhole (Bool.eq_false_iff.mpr hc) hread
  | case4 position c rest hc symbol spelling after hread stop scanned ih =>
    rintro before hwhole rfl
    obtain ⟨hcut, hne⟩ := lexeme_split hread
    have hnext : Placed whole stop scanned :=
      ih (before ++ spelling) (by rw [hwhole, hcut, List.append_assoc]) (List.length_append ..)
    have hlt : before.length < stop := Nat.lt_add_of_pos_right (List.length_pos_iff.mpr hne)
    have hextract : whole.extract before.length stop = spelling := by
      rw [hwhole, hcut, List.extract_eq_take_drop, List.drop_left, Nat.add_sub_cancel_left,
        List.take_left]
    exact @Placed.token whole ⟨symbol, before.length, stop⟩ scanned hnext hlt
      (hextract.symm ▸ spelled_of_lexeme hread)

/-! ## The position of a fault -/

/-- At the position stands the first character after the last token that is no space. -/
structure IsFirstMark (whole : List Char) (tokens : List Token) (p : Nat) : Prop where
  after : ∀ t ∈ tokens, t.stop ≤ p
  mark : ∃ c, whole[p]? = some c ∧ isSpace c = false
  first : ∀ q c, (∀ t ∈ tokens, t.stop ≤ q) → q < p → whole[q]? = some c → isSpace c = true

theorem IsFirstMark.unique {whole : List Char} {tokens : List Token} {p q : Nat}
    (hp : IsFirstMark whole tokens p) (hq : IsFirstMark whole tokens q) : p = q := by
  have le : ∀ {p q : Nat}, IsFirstMark whole tokens p → IsFirstMark whole tokens q → p ≤ q := by
    intro p q hp hq
    refine Nat.le_of_not_lt fun hlt => ?_
    obtain ⟨c, hc, hs⟩ := hq.mark
    rw [hp.first q c hq.after hlt hc] at hs
    cases hs
  exact Nat.le_antisymm (le hp hq) (le hq hp)

/-- After the last token only spaces stand, up to the place that scanning came to. -/
theorem Placed.isSpace_after {whole : List Char} {scanned : Scan} (h : Placed whole 0 scanned)
    {q : Nat} {c : Char} (hafter : ∀ t ∈ scanned.tokens, t.stop ≤ q)
    (hq : q < scanned.reach whole.length) (hc : whole[q]? = some c) : isSpace c = true :=
  h.spaces q c (Nat.zero_le q) hq (fun t ht hin => Nat.not_lt.mpr (hafter t ht) hin.2) hc

/-- **A fault is at the first mark after the last token**, and there is one if there is such a
mark. -/
theorem fault_iff_isFirstMark {whole : List Char} {scanned : Scan} (h : Placed whole 0 scanned)
    (p : Nat) :
    scanned.fault.map LexicalFault.position = some p ↔ IsFirstMark whole scanned.tokens p := by
  cases hfault : scanned.fault with
  | none =>
    have hreach : scanned.reach whole.length = whole.length := by rw [Scan.reach, hfault]; rfl
    refine iff_of_false (fun hp => nomatch hp) fun hp => ?_
    obtain ⟨c, hc, hs⟩ := hp.mark
    have hlt : p < scanned.reach whole.length := by
      rw [hreach]
      exact (List.getElem?_eq_some_iff.mp hc).1
    rw [h.isSpace_after hp.after hlt hc] at hs
    cases hs
  | some fault =>
    have hreach : scanned.reach whole.length = fault.position := by rw [Scan.reach, hfault]; rfl
    have hmark : IsFirstMark whole scanned.tokens fault.position := {
      after := fun t ht => hreach ▸ (h.within t ht).2.2
      mark := (h.stuck fault hfault).1
      first := fun q c hafter hq hc => h.isSpace_after hafter (hreach.symm ▸ hq) hc }
    rw [Option.map_some, Option.some.injEq]
    constructor
    · rintro rfl
      exact hmark
    · exact hmark.unique

/-- **Tokens tile the text.** They lie in it in order and apart, each at a spelling of itself, with
spaces alone outside of them; and there is a fault iff some character after the last token is no
space, at the first such character, where indeed no token starts. -/
theorem tokens_tile (text : String) :
    Placed text.toList 0 (scan text) ∧
    ∀ p, (scan text).fault.map LexicalFault.position = some p ↔
      IsFirstMark text.toList (scan text).tokens p := by
  have hplaced : Placed text.toList 0 (scan text) :=
    placed_scanFrom text.toList 0 text.toList [] rfl rfl
  exact ⟨hplaced, fault_iff_isFirstMark hplaced⟩

end Propositional.Document
