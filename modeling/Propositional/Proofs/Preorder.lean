import Propositional.Expr.Basic

/-!
# Subformulas in preorder

A formula has a subformula at each of its nodes. In preorder a formula comes before its operands,
and the left operand, with all that is in it, before the right one; so the place of a subformula
there is a number for its node. Equal subformulas at two nodes have two numbers.

* `standsAt_iff`: the derivations of `StandsAt` follow the tree and find the place in the list.
* `StandsAt.operand`: the numbers of the operands of a subformula, from its own (`operandsAt`).
* `shape` forgets which constants and names a formula has.
-/

namespace Propositional.Expr

/-- The subformulas in the order in which they begin, one for each occurrence. -/
def preorder : Expr → List Expr
  | const b => [const b]
  | var x => [var x]
  | not e => not e :: e.preorder
  | bin c l r => bin c l r :: (l.preorder ++ r.preorder)

@[simp] theorem length_preorder (e : Expr) : e.preorder.length = e.size := by
  induction e with
  | const => rfl
  | var => rfl
  | not e ih => rw [preorder, List.length_cons, ih, size, Nat.add_comm]
  | bin c l r ihl ihr =>
    rw [preorder, List.length_cons, List.length_append, ihl, ihr, size]
    omega

/-- The formula `a` is number `k` in the preorder. -/
inductive StandsAt (a : Expr) : (k : Nat) → Expr → Prop
  | root : StandsAt a 0 a
  | not {k : Nat} {e : Expr} (h : StandsAt a k e) : StandsAt a (k + 1) (not e)
  | left {k : Nat} {c : Connective} {l r : Expr} (h : StandsAt a k l) :
      StandsAt a (k + 1) (bin c l r)
  | right {k : Nat} {c : Connective} {l r : Expr} (h : StandsAt a k r) :
      StandsAt a (l.size + k + 1) (bin c l r)

theorem standsAt_iff {a e : Expr} {k : Nat} : StandsAt a k e ↔ e.preorder[k]? = some a := by
  constructor
  · intro h
    induction h with
    | root => cases a <;> rfl
    | not _ ih => exact ih
    | @left k c l r _ ih =>
      have hk : k < l.preorder.length := (List.getElem?_eq_some_iff.mp ih).1
      rwa [preorder, List.getElem?_cons_succ, List.getElem?_append_left hk]
    | @right k c l r _ ih =>
      rw [preorder, List.getElem?_cons_succ, ← length_preorder, List.getElem?_append_right
        (Nat.le_add_right _ _), Nat.add_sub_cancel_left, ih]
  · intro h
    induction e generalizing k with
    | const | var =>
      cases k with
      | zero => cases h; exact .root
      | succ k => cases h
    | not e ih =>
      cases k with
      | zero => cases h; exact .root
      | succ k => exact .not (ih h)
    | bin c l r ihl ihr =>
      cases k with
      | zero => cases h; exact .root
      | succ k =>
        rw [preorder, List.getElem?_cons_succ] at h
        rcases Nat.lt_or_ge k l.preorder.length with hk | hk
        · rw [List.getElem?_append_left hk] at h
          exact .left (ihl h)
        · rw [List.getElem?_append_right hk] at h
          obtain ⟨j, rfl⟩ := Nat.exists_eq_add_of_le hk
          rw [Nat.add_sub_cancel_left] at h
          rw [length_preorder]
          exact .right (ihr h)

/-- The operands of a formula, each with its number, if the formula has number `k`. -/
def operandsAt (k : Nat) : Expr → List (Nat × Expr)
  | const _ | var _ => []
  | not e => [(k + 1, e)]
  | bin _ l r => [(k + 1, l), (k + 1 + l.size, r)]

theorem StandsAt.size_le {a e : Expr} {k : Nat} (h : StandsAt a k e) : k + a.size ≤ e.size := by
  induction h with
  | root => exact Nat.le_of_eq (Nat.zero_add _)
  | not _ ih => rw [size]; omega
  | left _ ih => rw [size]; omega
  | right _ ih => rw [size]; omega

theorem StandsAt.trans {a b e : Expr} {j k : Nat} (h : StandsAt b j a) (h' : StandsAt a k e) :
    StandsAt b (k + j) e := by
  induction h' with
  | root => rwa [Nat.zero_add]
  | not _ ih =>
    rw [Nat.add_right_comm]
    exact .not ih
  | left _ ih =>
    rw [Nat.add_right_comm]
    exact .left ih
  | right _ ih =>
    rw [Nat.add_right_comm, Nat.add_assoc _ _ j]
    exact .right ih

/-- The operands of a subformula stand in the preorder at their numbers. -/
theorem StandsAt.operand {a e : Expr} {k : Nat} (h : StandsAt a k e) :
    ∀ p ∈ a.operandsAt k, StandsAt p.2 p.1 e := by
  cases a with
  | const | var => exact List.forall_mem_nil _
  | not a => exact List.forall_mem_singleton.mpr (StandsAt.trans (.not .root) h)
  | bin c l r =>
    have hright : StandsAt r (k + 1 + l.size) e := by
      rw [Nat.add_assoc, Nat.add_comm 1]
      exact StandsAt.trans (.right .root) h
    exact List.forall_mem_cons.mpr
      ⟨StandsAt.trans (.left .root) h, List.forall_mem_singleton.mpr hright⟩

/-- An operand has a greater number than its formula, and ends no later. -/
theorem lt_of_mem_operandsAt {a : Expr} {k : Nat} {p : Nat × Expr} (h : p ∈ a.operandsAt k) :
    k < p.1 ∧ p.1 + p.2.size ≤ k + a.size := by
  cases a with
  | const | var => cases h
  | not a =>
    obtain rfl := List.mem_singleton.mp h
    simp only [size]
    omega
  | bin c l r =>
    rcases List.mem_cons.mp h with rfl | h
    · simp only [size]
      omega
    · obtain rfl := List.mem_singleton.mp h
      simp only [size]
      omega

/-- What is left of a formula without its constants and names. -/
inductive Shape where
  | constant
  | variable
  | negation (operand : Shape)
  | join (c : Connective) (left right : Shape)

/-- The shape of a formula. -/
def shape : Expr → Shape
  | const _ => .constant
  | var _ => .variable
  | not e => .negation e.shape
  | bin c l r => .join c l.shape r.shape

end Propositional.Expr
