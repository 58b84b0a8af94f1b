import Mathlib.Logic.Relation
import Propositional.Diagram
import Propositional.Proofs.Preorder

/-!
# A drawing is the tree of its formula

The boxes of a drawing are numbered as they are met, and the number of a box depends on how many
boxes were drawn before. What comes out is the preorder of the formula: each occurrence of a
subformula has the number of its place there (`StandsAt`), and its whole drawing lies between its
box and the arrow to it. So a drawing can be described box by box (`about_statements`), without
following how it was made.

Results:
* `boxes_statements`: the boxes are those of the subformulas in preorder, each occurrence with its
  own.
* `about_statements`: after the box of a formula come the arrows to its operands, left operand
  first.
* `count_heads`: one arrow leads to every box but the first.
* `closes_of_standsAt`: it comes from an earlier box, after all that is drawn below its head.
* `shape_eq_of_outline_eq`: styles and arrows alone determine a formula but for its constants and
  names.
* `drawing_is_tree`: all of it.
-/

namespace Propositional.Diagram

open Propositional.Expr (StandsAt)

/-! ## Parts of a drawing -/

/-- The number of the box that a statement draws, or that its arrow starts at. -/
def Statement.origin : Statement → Nat
  | .box id _ _ => id
  | .arrow tail _ => tail

/-- The statements about one box: the box, and the arrows that start there. -/
def about (k : Nat) (drawing : List Statement) : List Statement :=
  drawing.filter fun s => s.origin = k

/-- The boxes of a drawing: number, kind and text of each. -/
def boxes (drawing : List Statement) : List (Nat × Kind × String) :=
  drawing.filterMap fun
    | .box id kind label => some (id, kind, label)
    | .arrow _ _ => none

/-- The arrows of a drawing, each from tail to head. -/
def arrows (drawing : List Statement) : List (Nat × Nat) :=
  drawing.filterMap fun
    | .box _ _ _ => none
    | .arrow tail head => some (tail, head)

/-- The arrows of a drawing lead from a box to another one, or the two are the same. -/
def Leads (drawing : List Statement) : Nat → Nat → Prop :=
  Relation.ReflTransGen fun tail head => .arrow tail head ∈ drawing

theorem origin_of_mem {id : Nat} {e : Expr} {s : Statement} (h : s ∈ statements id e) :
    id ≤ s.origin ∧ s.origin < id + e.size := by
  induction e generalizing id with
  | const | var =>
    obtain rfl := List.mem_singleton.mp h
    exact ⟨Nat.le_refl _, Nat.lt_succ_self _⟩
  | not e ih =>
    simp only [statements, List.mem_append, List.mem_cons, List.not_mem_nil, or_false] at h
    simp only [Expr.size]
    rcases h with (rfl | h) | rfl
    · simp only [Statement.origin]; omega
    · have := ih h; omega
    · simp only [Statement.origin]; omega
  | bin c l r ihl ihr =>
    simp only [statements, List.mem_append, List.mem_cons, List.not_mem_nil, or_false] at h
    simp only [Expr.size]
    rcases h with (((rfl | h) | rfl) | h) | rfl
    · simp only [Statement.origin]; omega
    · have := ihl h; omega
    · simp only [Statement.origin]; omega
    · have := ihr h; omega
    · simp only [Statement.origin]; omega

@[simp] theorem about_append (k : Nat) (as bs : List Statement) :
    about k (as ++ bs) = about k as ++ about k bs :=
  List.filter_append ..

theorem about_cons (k : Nat) (s : Statement) (drawing : List Statement) :
    about k (s :: drawing) = if s.origin = k then s :: about k drawing else about k drawing := by
  rw [about, List.filter_cons]
  simp only [decide_eq_true_eq, about]

theorem about_nil (k : Nat) : about k [] = [] := rfl

/-- A drawing has nothing to say about a box with a number outside of its own. -/
theorem about_of_outside {k id : Nat} {e : Expr} (h : k < id ∨ id + e.size ≤ k) :
    about k (statements id e) = [] := by
  refine List.filter_eq_nil_iff.mpr fun s hs hk => ?_
  have := origin_of_mem hs
  have : s.origin = k := of_decide_eq_true hk
  omega

/-- **What a drawing says about a box**: after the box of a formula come the arrows to its operands,
the left one first. -/
theorem about_statements {a e : Expr} {k : Nat} (h : StandsAt a k e) (id : Nat) :
    about (id + k) (statements id e) =
      .box (id + k) (kind a) (label a) ::
        (a.operandsAt (id + k)).map fun p => .arrow (id + k) p.1 := by
  induction h generalizing id with
  | root =>
    cases a with
    | const | var =>
      simp [statements, about_cons, about_nil, Statement.origin, Expr.operandsAt, kind]
    | not e =>
      have hoperand := @about_of_outside id (id + 1) e (Or.inl (Nat.lt_succ_self _))
      simp [statements, about_cons, about_nil, Statement.origin, Expr.operandsAt, kind, hoperand]
    | bin c l r =>
      have hleft := @about_of_outside id (id + 1) l (Or.inl (Nat.lt_succ_self _))
      have hright := @about_of_outside id (id + 1 + l.size) r (Or.inl (by omega))
      simp [statements, about_cons, about_nil, Statement.origin, Expr.operandsAt, kind, hleft,
        hright]
  | @not k e h ih =>
    have hnot : id ≠ id + (k + 1) := by omega
    have hnext : id + (k + 1) = id + 1 + k := by omega
    have hid := ih (id + 1)
    rw [← hnext] at hid
    simp [statements, about_cons, about_nil, Statement.origin, hid]
  | @left k c l r h ih =>
    have hk := h.size_le
    have := a.size_pos
    have hnext : id + (k + 1) = id + 1 + k := by omega
    have hid := ih (id + 1)
    rw [← hnext] at hid
    have hright := @about_of_outside (id + (k + 1)) (id + 1 + l.size) r (Or.inl (by omega))
    simp [statements, about_cons, about_nil, Statement.origin, hid, hright]
  | @right k c l r h ih =>
    have hnext : id + (l.size + k + 1) = id + 1 + l.size + k := by omega
    have hid := ih (id + 1 + l.size)
    rw [← hnext] at hid
    have hleft := @about_of_outside (id + (l.size + k + 1)) (id + 1) l (Or.inr (by omega))
    simp [statements, about_cons, about_nil, Statement.origin, hid, hleft]

/-! ## Boxes and arrows -/

@[simp] theorem boxes_append (as bs : List Statement) : boxes (as ++ bs) = boxes as ++ boxes bs :=
  List.filterMap_append ..

@[simp] theorem boxes_box (id : Nat) (k : Kind) (label : String) (drawing : List Statement) :
    boxes (.box id k label :: drawing) = (id, k, label) :: boxes drawing := rfl

@[simp] theorem boxes_arrow (tail head : Nat) (drawing : List Statement) :
    boxes (.arrow tail head :: drawing) = boxes drawing := rfl

@[simp] theorem boxes_nil : boxes [] = [] := rfl

@[simp] theorem arrows_append (as bs : List Statement) :
    arrows (as ++ bs) = arrows as ++ arrows bs :=
  List.filterMap_append ..

@[simp] theorem arrows_box (id : Nat) (k : Kind) (label : String) (drawing : List Statement) :
    arrows (.box id k label :: drawing) = arrows drawing := rfl

@[simp] theorem arrows_arrow (tail head : Nat) (drawing : List Statement) :
    arrows (.arrow tail head :: drawing) = (tail, head) :: arrows drawing := rfl

@[simp] theorem arrows_nil : arrows [] = [] := rfl

/-- **The boxes are those of the subformulas in preorder**, numbered without a gap. -/
theorem boxes_statements (id : Nat) (e : Expr) :
    boxes (statements id e) = (e.preorder.zipIdx id).map fun p => (p.2, kind p.1, label p.1) := by
  induction e generalizing id with
  | const | var => rfl
  | not e ih => simp [statements, Expr.preorder, List.zipIdx_cons, ih, kind]
  | bin c l r ihl ihr =>
    simp [statements, Expr.preorder, List.zipIdx_cons, List.zipIdx_append, ihl, ihr, kind]

theorem length_arrows (id : Nat) (e : Expr) : (arrows (statements id e)).length + 1 = e.size := by
  induction e generalizing id with
  | const | var => rfl
  | not e ih =>
    have := ih (id + 1)
    simp [statements, Expr.size]
    omega
  | bin c l r ihl ihr =>
    have := ihl (id + 1)
    have := ihr (id + 1 + l.size)
    simp [statements, Expr.size]
    omega

/-- **One arrow leads to every box but the first.** -/
theorem count_heads (id : Nat) (e : Expr) (k : Nat) :
    ((arrows (statements id e)).map Prod.snd).count k =
      if id < k ∧ k < id + e.size then 1 else 0 := by
  induction e generalizing id with
  | const | var =>
    rw [if_neg (by simp only [Expr.size]; omega)]
    rfl
  | not e ih =>
    have := e.size_pos
    rw [Expr.size]
    simp only [statements, List.cons_append, arrows_box, arrows_append, arrows_arrow, arrows_nil,
      List.map_append, List.map_cons, List.map_nil, List.count_append, ih, List.count_singleton,
      beq_iff_eq]
    repeat' split
    all_goals omega
  | bin c l r ihl ihr =>
    have := l.size_pos
    have := r.size_pos
    rw [Expr.size]
    simp only [statements, List.cons_append, arrows_box, arrows_append, arrows_arrow, arrows_nil,
      List.map_append, List.map_cons, List.map_nil, List.count_append, ihl, ihr,
      List.count_singleton, beq_iff_eq]
    repeat' split
    all_goals omega

/-- An arrow leads from a formula to one of its operands. -/
theorem exists_operand_of_mem {e : Expr} {a : Expr} {k head : Nat} (h : StandsAt a k e)
    (harrow : .arrow k head ∈ statements 0 e) :
    ∃ p ∈ a.operandsAt k, p.1 = head := by
  have hmem : Statement.arrow k head ∈ about k (statements 0 e) :=
    List.mem_filter.mpr ⟨harrow, decide_eq_true rfl⟩
  have habout := about_statements h 0
  rw [Nat.zero_add] at habout
  rw [habout] at hmem
  rcases List.mem_cons.mp hmem with heq | hmem
  · cases heq
  · obtain ⟨p, hp, heq⟩ := List.mem_map.mp hmem
    cases heq
    exact ⟨p, hp, rfl⟩

/-- Arrows lead from a subformula to its own subformulas only. -/
theorem range_of_leads {e : Expr} {k j : Nat} (hleads : Leads (statements 0 e) k j) :
    ∀ a, StandsAt a k e → k ≤ j ∧ j < k + a.size := by
  induction hleads using Relation.ReflTransGen.head_induction_on with
  | refl => exact fun a _ => ⟨Nat.le_refl _, Nat.lt_add_of_pos_right a.size_pos⟩
  | head harrow _ ih =>
    intro a h
    obtain ⟨p, hp, rfl⟩ := exists_operand_of_mem h harrow
    have := ih _ (h.operand p hp)
    have := Expr.lt_of_mem_operandsAt hp
    omega

/-- The arrow to a box comes from an earlier one, and nothing after it is about the given number of
boxes from its head on. -/
def Closes (drawing : List Statement) (head count : Nat) : Prop :=
  ∃ before after tail, drawing = before ++ .arrow tail head :: after ∧ tail < head ∧
    ∀ s ∈ after, ¬ (head ≤ s.origin ∧ s.origin < head + count)

theorem Closes.append {drawing : List Statement} {head count : Nat}
    (h : Closes drawing head count) (as : List Statement) {bs : List Statement}
    (hbs : ∀ s ∈ bs, ¬ (head ≤ s.origin ∧ s.origin < head + count)) :
    Closes (as ++ drawing ++ bs) head count := by
  obtain ⟨before, after, tail, rfl, hlt, hafter⟩ := h
  refine ⟨as ++ before, after ++ bs, tail, by simp, hlt, fun s hs => ?_⟩
  exact (List.mem_append.mp hs).elim (hafter s) (hbs s)

/-- **The arrow to a box comes after all that is drawn below the box.** -/
theorem closes_of_standsAt {a e : Expr} {k : Nat} (h : StandsAt a k e) (hk : 0 < k) (id : Nat) :
    Closes (statements id e) (id + k) a.size := by
  induction h generalizing id with
  | root => exact absurd hk (Nat.lt_irrefl _)
  | @not k e h ih =>
    rcases Nat.eq_zero_or_pos k with rfl | hpos
    · exact ⟨.box id .negation (label (.not e)) :: statements (id + 1) e, [], id, rfl,
        Nat.lt_succ_self _, List.forall_mem_nil _⟩
    · have hnext := ih hpos (id + 1)
      rw [Nat.add_right_comm, Nat.add_assoc] at hnext
      refine hnext.append [.box id .negation (label (.not e))] fun s hs => ?_
      obtain rfl := List.mem_singleton.mp hs
      simp only [Statement.origin]
      omega
  | @left k c l r h ih =>
    have hsize := h.size_le
    -- What comes after the left operand is about the root and the right operand.
    have hafter : ∀ s ∈ statements (id + 1 + l.size) r ++ [.arrow id (id + 1 + l.size)],
        ¬ (id + (k + 1) ≤ s.origin ∧ s.origin < id + (k + 1) + a.size) := by
      intro s hs
      rcases List.mem_append.mp hs with hs | hs
      · have := origin_of_mem hs
        omega
      · obtain rfl := List.mem_singleton.mp hs
        simp only [Statement.origin]
        omega
    rcases Nat.eq_zero_or_pos k with rfl | hpos
    · refine ⟨.box id (.join c) (label (.bin c l r)) :: statements (id + 1) l, _, id, ?_,
        Nat.lt_succ_self _, hafter⟩
      simp [statements]
    · have hnext := ih hpos (id + 1)
      rw [Nat.add_right_comm, Nat.add_assoc] at hnext
      have hrest : ∀ s ∈ Statement.arrow id (id + 1) :: (statements (id + 1 + l.size) r ++
          [.arrow id (id + 1 + l.size)]),
          ¬ (id + (k + 1) ≤ s.origin ∧ s.origin < id + (k + 1) + a.size) :=
        List.forall_mem_cons.mpr ⟨by simp only [Statement.origin]; omega, hafter⟩
      have hall := hnext.append [.box id (.join c) (label (.bin c l r))] hrest
      simpa [statements] using hall
  | @right k c l r h ih =>
    rcases Nat.eq_zero_or_pos k with rfl | hpos
    · refine ⟨.box id (.join c) (label (.bin c l r)) :: statements (id + 1) l ++
        [.arrow id (id + 1)] ++ statements (id + 1 + l.size) r, [], id, ?_, by omega,
        List.forall_mem_nil _⟩
      simp [statements]
      omega
    · have hnext := ih hpos (id + 1 + l.size)
      have hnumber : id + 1 + l.size + k = id + (l.size + k + 1) := by omega
      rw [hnumber] at hnext
      refine hnext.append (.box id (.join c) (label (.bin c l r)) :: statements (id + 1) l ++
        [.arrow id (id + 1)]) fun s hs => ?_
      obtain rfl := List.mem_singleton.mp hs
      simp only [Statement.origin]
      omega

/-! ## The shape from the drawing -/

/-- A statement without the text of a box: what shows is its style. -/
inductive Mark where
  | box (id : Nat) (style : Style)
  | arrow (tail head : Nat)
  deriving DecidableEq

/-- The number of the box that a mark is, or that its arrow starts at. -/
def Mark.origin : Mark → Nat
  | .box id _ => id
  | .arrow tail _ => tail

/-- What shows of a statement. -/
def Statement.mark : Statement → Mark
  | .box id kind _ => .box id kind.style
  | .arrow tail head => .arrow tail head

/-- The drawing of a formula without its texts. -/
def outline (e : Expr) : List Mark :=
  (statements 0 e).map Statement.mark

/-- The kind that has a style. -/
def Style.kind? (style : Style) : Option Kind :=
  [Kind.constant, .variable, .negation, .join .and, .join .or].find? fun k => k.style = style

theorem kind?_style (k : Kind) : k.style.kind? = some k := by
  cases k with
  | join c => cases c <;> rfl
  | _ => rfl

theorem style_injective {k k' : Kind} (h : k.style = k'.style) : k = k' := by
  have hkind := congrArg Style.kind? h
  rw [kind?_style, kind?_style] at hkind
  exact Option.some.inj hkind

/-- What an outline shows at a box: its style, and the heads of the arrows from it. -/
theorem filter_outline {a e : Expr} {k : Nat} (h : StandsAt a k e) :
    (outline e).filter (fun m => m.origin = k) =
      .box k (kind a).style :: ((a.operandsAt k).map Prod.fst).map (.arrow k) := by
  have horigin : (fun m : Mark => decide (m.origin = k)) ∘ Statement.mark =
      fun s => decide (s.origin = k) := by
    funext s
    cases s <;> rfl
  have habout := about_statements h 0
  rw [Nat.zero_add, about] at habout
  rw [outline, List.filter_map, horigin, habout]
  simp [Statement.mark]

theorem kind_heads_of_outline_eq {e e' : Expr} (h : outline e = outline e') {a b : Expr} {k : Nat}
    (ha : StandsAt a k e) (hb : StandsAt b k e') :
    kind a = kind b ∧ (a.operandsAt k).map Prod.fst = (b.operandsAt k).map Prod.fst := by
  have hmarks := filter_outline ha
  rw [h, filter_outline hb, List.cons.injEq, Mark.box.injEq] at hmarks
  obtain ⟨⟨-, hstyle⟩, hheads⟩ := hmarks
  have hinj : ∀ i j, Mark.arrow k i = Mark.arrow k j → i = j := fun _ _ h => (Mark.arrow.inj h).2
  exact ⟨style_injective hstyle.symm, (List.map_inj_right hinj).mp hheads.symm⟩

/-- **Styles and arrows determine the shape**, below every box. -/
theorem shape_eq_of_outline_eq {e e' : Expr} (h : outline e = outline e') {a b : Expr} {k : Nat}
    (ha : StandsAt a k e) (hb : StandsAt b k e') : a.shape = b.shape := by
  induction a generalizing b k with
  | const =>
    obtain ⟨hkind, -⟩ := kind_heads_of_outline_eq h ha hb
    cases b <;> cases hkind
    rfl
  | var =>
    obtain ⟨hkind, -⟩ := kind_heads_of_outline_eq h ha hb
    cases b <;> cases hkind
    rfl
  | not a ih =>
    obtain ⟨hkind, -⟩ := kind_heads_of_outline_eq h ha hb
    cases b with
    | not b =>
      have hoperand := ih (ha.operand (k + 1, a) List.mem_cons_self)
        (hb.operand (k + 1, b) List.mem_cons_self)
      rw [Expr.shape, Expr.shape, hoperand]
    | const | var | bin => cases hkind
  | bin c l r ihl ihr =>
    obtain ⟨hkind, hheads⟩ := kind_heads_of_outline_eq h ha hb
    cases b with
    | bin c' l' r' =>
      cases hkind
      -- The second arrows have one head, so the left operands are equally large.
      have hright : k + 1 + l.size = k + 1 + l'.size := by
        simpa only [Expr.operandsAt, List.map_cons, List.map_nil, List.cons.injEq, true_and,
          and_true] using hheads
      have hl := ihl (ha.operand (k + 1, l) List.mem_cons_self)
        (hb.operand (k + 1, l') List.mem_cons_self)
      have hr := ihr (ha.operand (k + 1 + l.size, r) (List.mem_cons_of_mem _ List.mem_cons_self))
        (hright ▸ hb.operand (k + 1 + l'.size, r') (List.mem_cons_of_mem _ List.mem_cons_self))
      rw [Expr.shape, Expr.shape, hl, hr]
    | const | var | not => cases hkind

/-- Formulas of one shape are drawn alike. -/
theorem marks_eq_of_shape_eq {e e' : Expr} (h : e.shape = e'.shape) :
    e.size = e'.size ∧
      ∀ id, (statements id e).map Statement.mark = (statements id e').map Statement.mark := by
  induction e generalizing e' with
  | const | var =>
    cases e' <;> cases h
    exact ⟨rfl, fun _ => rfl⟩
  | not e ih =>
    cases e' with
    | not e' =>
      obtain ⟨hsize, hmarks⟩ := ih (Expr.Shape.negation.inj h)
      refine ⟨by rw [Expr.size, Expr.size, hsize], fun id => ?_⟩
      simp [statements, Statement.mark, hmarks]
    | const | var | bin => cases h
  | bin c l r ihl ihr =>
    cases e' with
    | bin c' l' r' =>
      obtain ⟨rfl, hl, hr⟩ := Expr.Shape.join.inj h
      obtain ⟨hsizel, hmarksl⟩ := ihl hl
      obtain ⟨hsizer, hmarksr⟩ := ihr hr
      refine ⟨by rw [Expr.size, Expr.size, hsizel, hsizer], fun id => ?_⟩
      simp [statements, Statement.mark, hmarksl, hmarksr, hsizel]
    | const | var | not => cases h

theorem outline_eq_iff {e e' : Expr} : outline e = outline e' ↔ e.shape = e'.shape :=
  ⟨fun h => shape_eq_of_outline_eq h .root .root, fun h => (marks_eq_of_shape_eq h).2 0⟩

/-! ## The whole drawing -/

/-- The comment above a drawing, as a line of its own. An empty one is left out. -/
def commentLine (e : Expr) (title : Option String) : String :=
  if (comment e title).isEmpty then "" else "// " ++ comment e title ++ "\n"

/-- A line between the braces. -/
def indented (line : String) : String :=
  "\t" ++ line ++ "\n"

/-- The lines about the drawing as a whole: how it is laid out, and its title, if it has one. -/
def captions (title : Option String) : String :=
  indented "ordering=out rankdir=TB" ++
    match usedTitle title with
    | some title => indented ("label=" ++ quoteId title ++ " labelloc=t")
    | none => ""

/-- The lines of statements. -/
def statementLines (drawing : List Statement) : String :=
  String.join (drawing.map fun s => indented s.text)

/-- The text of a drawing: the comment, and between braces the lines about the whole and then those
of the statements. -/
theorem source_eq (e : Expr) (title : Option String) :
    source e title = commentLine e title ++ ("digraph \x7b\n" ++
      (captions title ++ (statementLines (statements 0 e) ++ "\x7d\n"))) := by
  have hlines : ∀ lines : List String, String.join (lines.map fun line => "\t" ++ line ++ "\n") =
      String.join (lines.map indented) := fun _ => rfl
  rw [← String.toList_inj, source, drawing_eq, hlines]
  unfold captions statementLines commentLine
  cases usedTitle title <;>
    simp [String.toList_join, List.flatMap_map, indented, Function.comp_def]

/-- The drawing is the tree of the formula. -/
structure DrawsTree (e : Expr) (drawing : List Statement) : Prop where
  /-- The boxes are the subformulas in preorder, each occurrence with a box of its own. -/
  boxes : boxes drawing = e.preorder.zipIdx.map fun p => (p.2, kind p.1, label p.1)
  boxCount : (Diagram.boxes drawing).length = e.size
  arrowCount : (arrows drawing).length = e.size - 1
  /-- One arrow leads to every box but the first. -/
  heads : ∀ k, ((arrows drawing).map Prod.snd).count k = if 0 < k ∧ k < e.size then 1 else 0
  /-- It comes from an earlier box, and what is drawn below its head has been drawn before. -/
  order : ∀ k, 0 < k → k < e.size → ∃ before after tail,
    drawing = before ++ .arrow tail k :: after ∧ tail < k ∧
      ∀ s ∈ after, ¬ Leads drawing k s.origin
  /-- After the box of a subformula come the arrows to the boxes of its operands, the left one
  first. -/
  operands : ∀ k a, e.preorder[k]? = some a →
    about k drawing = .box k (kind a) (label a) :: (a.operandsAt k).map (fun p => .arrow k p.1) ∧
      ∀ p ∈ a.operandsAt k, e.preorder[p.1]? = some p.2

theorem drawsTree_statements (e : Expr) : DrawsTree e (statements 0 e) where
  boxes := boxes_statements 0 e
  boxCount := by
    rw [boxes_statements, List.length_map, List.length_zipIdx, Expr.length_preorder]
  arrowCount := Nat.eq_sub_of_add_eq (length_arrows 0 e)
  heads k := by
    rw [count_heads, Nat.zero_add]
  order k hpos hk := by
    rw [← Expr.length_preorder] at hk
    have h : StandsAt e.preorder[k] k e := Expr.standsAt_iff.mpr (List.getElem?_eq_getElem hk)
    obtain ⟨before, after, tail, hsplit, hlt, hafter⟩ := closes_of_standsAt h hpos 0
    rw [Nat.zero_add] at hsplit hlt hafter
    exact ⟨before, after, tail, hsplit, hlt, fun s hs hleads =>
      hafter s hs (range_of_leads hleads _ h)⟩
  operands k a hk := by
    have h : StandsAt a k e := Expr.standsAt_iff.mpr hk
    have habout := about_statements h 0
    rw [Nat.zero_add] at habout
    exact ⟨habout, fun p hp => Expr.standsAt_iff.mp (h.operand p hp)⟩

/-- **A drawing is the tree of its formula**, whatever its title. Its text has a line for each
statement; the statements are the boxes of the subformulas in preorder, with arrows from each to its
operands, and the arrow to a box after all that is drawn below it; and two formulas look alike, but
for the texts in the boxes, iff they have one shape. -/
theorem drawing_is_tree (e : Expr) (title : Option String) :
    source e title = commentLine e title ++ ("digraph \x7b\n" ++
      (captions title ++ (statementLines (statements 0 e) ++ "\x7d\n"))) ∧
    DrawsTree e (statements 0 e) ∧
    ∀ e', outline e = outline e' ↔ e.shape = e'.shape :=
  ⟨source_eq e title, drawsTree_statements e, fun _ => outline_eq_iff⟩

end Propositional.Diagram
