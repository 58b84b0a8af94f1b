import Mathlib.Data.Set.Function
import Propositional.Proofs.NormalForm.DeMorgan
import Propositional.Proofs.Simplify.Commutation

/-!
# Other names and other connectives

Simplification looks at its operands only through constants and through the answers of the check,
and the check looks at truth functions and at common variables. Nothing of this changes when
variables get other names, as long as two of them do not become one, nor when the two connectives
change places and the two constants with them. Both are done by one map, `relabel`. That
simplification commutes with it is shown by the induction that follows its calls. A relabelling that
gives different names is undone by another one, so what it keeps cannot have been lost before.

Results:
* `mem_vocabulary_relabel`, `truth_relabel`: the variables and the truth function of a relabelled
  formula; `apart_relabel_iff`, `truth_relabel_eq_iff`: what two of them share is not changed.
* `joinSimplified_relabel`: the rules for a connective are carried over.
* `simplify_relabel`, `equivalent_relabel`: so are simplification and the answers of the check.
* `simplification_respects_duality`: in particular, the rules for the two connectives are duals.
-/

namespace Propositional

/-! ## Relabelled formulas -/

namespace Connective

/-- The dual connective if `swapped` is true, otherwise the connective itself. -/
def dualIf (swapped : Bool) (c : Connective) : Connective :=
  if swapped then c.dual else c

@[simp] theorem neutral_dualIf (swapped : Bool) (c : Connective) :
    (c.dualIf swapped).neutral = (swapped ^^ c.neutral) := by
  cases swapped <;> simp [dualIf]

@[simp] theorem absorbing_dualIf (swapped : Bool) (c : Connective) :
    (c.dualIf swapped).absorbing = (swapped ^^ c.absorbing) := by
  cases swapped <;> simp [dualIf]

@[simp] theorem dualIf_dualIf (swapped : Bool) (c : Connective) :
    (c.dualIf swapped).dualIf swapped = c := by
  cases swapped <;> simp [dualIf]

theorem dual_dualIf (swapped : Bool) (c : Connective) :
    (c.dualIf swapped).dual = c.dual.dualIf swapped := by
  cases swapped <;> rfl

theorem apply_dualIf (swapped : Bool) (c : Connective) (a b : Bool) :
    (c.dualIf swapped).apply (swapped ^^ a) (swapped ^^ b) = (swapped ^^ c.apply a b) := by
  cases swapped <;> simp [dualIf, apply_dual]

end Connective

namespace Expr

/-- The names of the variables of a formula. -/
def names (e : Expr) : Set Name :=
  {n | n.text ∈ e.vocabulary}

/-- The formula with its variables renamed by `f` and, where `swapped` is true, with its connectives
and its constants exchanged. -/
def relabel (swapped : Bool) (f : Name → Name) : Expr → Expr
  | const b => const (swapped ^^ b)
  | var n => var (f n)
  | not e => not (e.relabel swapped f)
  | bin c l r => bin (c.dualIf swapped) (l.relabel swapped f) (r.relabel swapped f)

variable (swapped : Bool) {f : Name → Name}

theorem names_bin (c : Connective) (l r : Expr) : (bin c l r).names = l.names ∪ r.names :=
  Set.ext fun _ => mem_vocabulary_bin

theorem names_simplify_subset (e : Expr) : e.simplify.names ⊆ e.names :=
  fun _ => mem_vocabulary_of_simplify

theorem names_negate (e : Expr) : e.negate.names = e.names := by
  rw [names, vocabulary_negate, names]

theorem mem_vocabulary_relabel {e : Expr} {x : String} :
    x ∈ (e.relabel swapped f).vocabulary ↔ ∃ n ∈ e.names, (f n).text = x := by
  induction e with
  | const b => exact ⟨nofun, fun ⟨_, hn, _⟩ => absurd hn List.not_mem_nil⟩
  | var m =>
    rw [relabel, mem_vocabulary_var]
    constructor
    · rintro rfl
      exact ⟨m, mem_vocabulary_var.mpr rfl, rfl⟩
    · rintro ⟨n, hn, rfl⟩
      rw [Name.ext (mem_vocabulary_var.mp hn)]
  | not e ih => exact ih
  | bin c l r ihl ihr =>
    rw [relabel, mem_vocabulary_bin, ihl, ihr, names_bin]
    simp only [Set.mem_union, or_and_right, exists_or]

/-- Relabelling with an inverse of the renaming undoes the relabelling. -/
theorem relabel_relabel {e : Expr} {g : Name → Name} (h : ∀ n ∈ e.names, g (f n) = n) :
    (e.relabel swapped f).relabel swapped g = e := by
  induction e with
  | const b => simp [relabel]
  | var n => rw [relabel, relabel, h n (mem_vocabulary_var.mpr rfl)]
  | not e ih => rw [relabel, relabel, ih h]
  | bin c l r ihl ihr =>
    rw [names_bin] at h
    rw [relabel, relabel, ihl fun n hn => h n (Or.inl hn), ihr fun n hn => h n (Or.inr hn),
      Connective.dualIf_dualIf]

end Expr

/-! ## What the check looks at -/

/-- The valuation that gives a name what another one gives the relabelled name. -/
def Valuation.relabel (swapped : Bool) (f : Name → Name) (v : Valuation) : Valuation :=
  fun x =>
    match Name.ofText? x with
    | some n => swapped ^^ v (f n).text
    | none => false

namespace Expr

variable (swapped : Bool) {f : Name → Name}

/-- **The truth function of a relabelled formula.** -/
theorem truth_relabel (v : Valuation) (e : Expr) :
    (e.relabel swapped f).truth v = (swapped ^^ e.truth (v.relabel swapped f)) := by
  induction e with
  | const b => rfl
  | var n => simp [relabel, truth, Valuation.relabel]
  | not e ih => rw [relabel, truth, ih, truth, Bool.xor_not]
  | bin c l r ihl ihr => rw [relabel, truth, ihl, ihr, Connective.apply_dualIf, truth]

/-- Formulas that have one truth function still have one when both are relabelled. -/
theorem truth_relabel_eq {a b : Expr} (h : ∀ v, a.truth v = b.truth v) (v : Valuation) :
    (a.relabel swapped f).truth v = (b.relabel swapped f).truth v := by
  rw [truth_relabel, truth_relabel, h]

theorem truth_relabel_eq_iff {a b : Expr} (hf : Set.InjOn f (a.names ∪ b.names)) :
    (∀ v, (a.relabel swapped f).truth v = (b.relabel swapped f).truth v) ↔
      ∀ v, a.truth v = b.truth v := by
  refine ⟨fun h v => ?_, truth_relabel_eq swapped⟩
  have hinv := hf.leftInvOn_invFunOn
  have hback := truth_relabel_eq swapped (f := Function.invFunOn f (a.names ∪ b.names)) h v
  rwa [relabel_relabel swapped fun n hn => hinv (Or.inl hn),
    relabel_relabel swapped fun n hn => hinv (Or.inr hn)] at hback

theorem vocabulary_relabel_eq_nil_iff {e : Expr} :
    (e.relabel swapped f).vocabulary = [] ↔ e.vocabulary = [] := by
  simp only [List.eq_nil_iff_forall_not_mem, mem_vocabulary_relabel]
  constructor
  · intro h x hx
    obtain ⟨n, rfl⟩ := exists_name_of_mem hx
    exact h (f n).text ⟨n, hx, rfl⟩
  · rintro h x ⟨n, hn, -⟩
    exact h n.text hn

/-- Two relabelled formulas are without a common variable iff the formulas are. -/
theorem apart_relabel_iff {a b : Expr} (hf : Set.InjOn f (a.names ∪ b.names)) :
    Apart (a.relabel swapped f) (b.relabel swapped f) ↔ Apart a b := by
  refine and_congr (not_congr (vocabulary_relabel_eq_nil_iff swapped))
    (and_congr (not_congr (vocabulary_relabel_eq_nil_iff swapped)) ?_)
  simp only [mem_vocabulary_relabel]
  constructor
  · intro h x hxa hxb
    obtain ⟨n, rfl⟩ := exists_name_of_mem hxa
    exact h (f n).text ⟨n, hxa, rfl⟩ ⟨n, hxb, rfl⟩
  · rintro h x ⟨n, hn, rfl⟩ ⟨m, hm, htext⟩
    obtain rfl := hf (Or.inr hm) (Or.inl hn) (Name.ext htext)
    exact h m.text hn hm

/-! ## Simplification -/

theorem negate_relabel (e : Expr) :
    (e.relabel swapped f).negate = e.negate.relabel swapped f := by
  induction e with
  | const b => simp [relabel, negate]
  | var | not => rfl
  | bin c l r ihl ihr =>
    rw [relabel, negate, ihl, ihr, Connective.dual_dualIf, negate, relabel]

theorem negateSimplified_relabel (e : Expr) :
    (e.relabel swapped f).negateSimplified = e.negateSimplified.relabel swapped f := by
  cases e with
  | const b => simp [relabel, negateSimplified]
  | var | not | bin => rfl

theorem relabel_eq_const_iff {e : Expr} {b : Bool} :
    e.relabel swapped f = const (swapped ^^ b) ↔ e = const b := by
  cases e <;> simp [relabel]

/-- Where simplification commutes with relabelling, the check gives the same answer. -/
theorem equivalent_relabel_of {a b : Expr} (hf : Set.InjOn f (a.names ∪ b.names))
    (ha : (a.relabel swapped f).simplify = a.simplify.relabel swapped f)
    (hb : (b.relabel swapped f).simplify = b.simplify.relabel swapped f) :
    equivalent (a.relabel swapped f) (b.relabel swapped f) = equivalent a b := by
  refine equivalent_eq_of_iff (truth_relabel_eq_iff swapped hf) ?_
  rw [ha, hb]
  exact apart_relabel_iff swapped (hf.mono (Set.union_subset_union a.names_simplify_subset
    b.names_simplify_subset))

/-- The rules for a connective are carried over where the check gives the same answers. -/
theorem joinSimplified_relabel_of {c : Connective} {l r : Expr}
    (hs : equivalent (l.relabel swapped f) (r.relabel swapped f) = equivalent l r)
    (ho : equivalent (l.negate.relabel swapped f) (r.relabel swapped f) =
      equivalent l.negate r) :
    joinSimplified (c.dualIf swapped) (l.relabel swapped f) (r.relabel swapped f) =
      (joinSimplified c l r).relabel swapped f :=
  joinSimplified_map (c.neutral_dualIf swapped) (c.absorbing_dualIf swapped)
    (fun _ => relabel_eq_const_iff swapped) (fun _ => relabel_eq_const_iff swapped)
    (fun _ => rfl) rfl hs (by rw [negate_relabel, ho])

/-- **Simplification commutes with relabelling.** -/
theorem simplify_relabel {e : Expr} (hf : Set.InjOn f e.names) :
    (e.relabel swapped f).simplify = e.simplify.relabel swapped f := by
  induction e using simplify_induction with
  | const b => rw [relabel, simplify_const, simplify_const, relabel]
  | var n => rw [relabel, simplify_var, simplify_var, relabel]
  | not e ih => rw [relabel, simplify_not, ih hf, negateSimplified_relabel, simplify_not]
  | bin c l r ihl ihr ihl' ihr' ihn =>
    rw [names_bin] at hf
    have hl := hf.mono Set.subset_union_left
    have hr := hf.mono Set.subset_union_right
    have hf' := hf.mono (Set.union_subset_union l.names_simplify_subset r.names_simplify_subset)
    have hl' := ihl' (hl.mono l.names_simplify_subset)
    have hr' := ihr' (hr.mono r.names_simplify_subset)
    have hn' := ihn (by rw [names_negate]; exact hl.mono l.names_simplify_subset)
    have hs := equivalent_relabel_of swapped hf' hl' hr'
    have ho := equivalent_relabel_of swapped (by rwa [names_negate]) hn' hr'
    rw [relabel, simplify_bin, ihl hl, ihr hr, joinSimplified_relabel_of swapped hs ho,
      simplify_bin]

/-- **The check gives the same answer for relabelled formulas.** -/
theorem equivalent_relabel {a b : Expr} (hf : Set.InjOn f (a.names ∪ b.names)) :
    equivalent (a.relabel swapped f) (b.relabel swapped f) = equivalent a b :=
  equivalent_relabel_of swapped hf (simplify_relabel swapped (hf.mono Set.subset_union_left))
    (simplify_relabel swapped (hf.mono Set.subset_union_right))

/-- **The rules for a connective are carried over**, whatever operands they are applied to. -/
theorem joinSimplified_relabel {c : Connective} {l r : Expr}
    (hf : Set.InjOn f (l.names ∪ r.names)) :
    joinSimplified (c.dualIf swapped) (l.relabel swapped f) (r.relabel swapped f) =
      (joinSimplified c l r).relabel swapped f :=
  joinSimplified_relabel_of swapped (equivalent_relabel swapped hf)
    (equivalent_relabel swapped (by rwa [names_negate]))

/-! ## Duality -/

theorem dual_eq_relabel (e : Expr) : e.dual = e.relabel true id := by
  induction e with
  | const b => rw [dual, relabel, Bool.true_xor]
  | var n => rfl
  | not e ih => rw [dual, ih, relabel]
  | bin c l r ihl ihr =>
    rw [dual, ihl, ihr, relabel]
    rfl

/-- **The rules for conjunctions and for disjunctions are exact duals**, applied to any operands.
So simplifying a dual formula gives the dual of what simplifying the formula gives, and the check
gives the same answer for two dual formulas. -/
theorem simplification_respects_duality (a b : Expr) :
    a.dual.simplify = a.simplify.dual ∧
    equivalent a.dual b.dual = equivalent a b ∧
    ∀ c l r, joinSimplified (Connective.dual c) l.dual r.dual = (joinSimplified c l r).dual := by
  simp only [dual_eq_relabel]
  have hid : ∀ s : Set Name, Set.InjOn id s := Set.injOn_id
  refine ⟨simplify_relabel true (hid _), equivalent_relabel true (hid _), fun c l r => ?_⟩
  exact joinSimplified_relabel true (hid _)

end Expr

end Propositional
