import Propositional.Proofs.Document.RoundTrip
import Propositional.Proofs.NormalForm.Disjunctive
import Propositional.Transformation

/-!
# The fixed response

A request whose text is no document is answered by one fixed text. That text is a document itself:
it names a variable. So it is also the answer to a request whose transformed formula is this
variable, and nothing tells the two apart.

Results:
* `exists_apply`: every transformation of every formula has a result.
* `respond_of_unknown`, `respond_of_error`, `respond_of_deep`, `respond_of_apply`: the four kinds of
  answers to a request.
* `respond_eq_malformedResponse_iff`: which requests get the fixed response, and that only those
  without a document do as long as the variable is not used.
* `malformedResponse_is_a_document`: the fixed response is a document, answered by itself.
-/

namespace Propositional

open Propositional.Document

/-! ## The results of transformations -/

/-- **Every transformation of every formula has a result.** -/
theorem Transformation.exists_apply (t : Transformation) (e : Expr) : ∃ s, t.apply e = .ok s := by
  cases t with
  | dnf => exact Expr.exists_distribute_of_isNnf (Expr.isNnf_simplify (Expr.isNnf_toNnf e))
  | nnf => exact ⟨e.toNnf, rfl⟩
  | simplify => exact ⟨e.simplify, rfl⟩

theorem Transformation.apply_var (t : Transformation) (x : Name) :
    t.apply (.var x) = .ok (.var x) := by
  cases t with
  | dnf =>
    have hsimple : (Expr.var x).toNnf.simplify = .var x := Expr.simplify_var x
    rw [Transformation.apply, Expr.toDnf, hsimple]
    exact Expr.distribute_of_isClause rfl
  | nnf => rfl
  | simplify => exact congrArg Except.ok (Expr.simplify_var x)

/-- A transformation brings in no variables. -/
theorem Transformation.mem_vocabulary_of_apply {t : Transformation} {e s : Expr} {x : String}
    (h : t.apply e = .ok s) (hx : x ∈ s.vocabulary) : x ∈ e.vocabulary := by
  cases t with
  | dnf =>
    have hs := (Expr.distributes_of_distribute h).mem_vocabulary.mp hx
    rw [← Expr.vocabulary_toNnf]
    exact Expr.mem_vocabulary_of_simplify hs
  | nnf =>
    cases h
    rwa [Expr.vocabulary_toNnf] at hx
  | simplify =>
    cases h
    exact Expr.mem_vocabulary_of_simplify hx

/-! ## The answers to a request -/

section

variable {text name : String} {t : Transformation}

theorem respond_of_unknown (ht : Transformation.ofName? name = none) :
    respond (some text) name = .error (.unknownTransformation name) := by
  simp only [respond, findTransformation, ht, bind, Except.bind]

theorem respond_of_error {error : Error} (ht : Transformation.ofName? name = some t)
    (h : read text = .error error) : respond (some text) name = .ok malformedResponse := by
  simp only [respond, findTransformation, ht, bind, Except.bind, Option.map_some, h]

theorem respond_of_deep {e : Expr} (ht : Transformation.ofName? name = some t)
    (h : read text = .ok e) (hdeep : ¬ e.depth ≤ nestingLimit) :
    respond (some text) name = .error (.tooDeep name) := by
  simp only [respond, findTransformation, ht, bind, Except.bind, Option.map_some, h]
  exact if_neg hdeep

theorem respond_of_apply {e s : Expr} (ht : Transformation.ofName? name = some t)
    (h : read text = .ok e) (hdepth : e.depth ≤ nestingLimit) (hs : t.apply e = .ok s) :
    respond (some text) name = .ok (write s) := by
  simp only [respond, findTransformation, ht, bind, Except.bind, Option.map_some, h,
    Transformation.value_run, hs]
  exact if_pos hdepth

end

/-- The answer depends on no more than the formula that is read. -/
theorem respond_congr {text other : String} (h : ∀ e, read text = .ok e ↔ read other = .ok e)
    (name : String) : respond (some text) name = respond (some other) name := by
  cases hread : read text with
  | ok e => simp only [respond, Option.map_some, hread, (h e).mp hread]
  | error error =>
    cases hread' : read other with
    | ok e =>
      rw [(h e).mpr hread'] at hread
      cases hread
    | error error' => simp only [respond, Option.map_some, hread, hread']

/-! ## The fixed response -/

/-- The variable that the fixed response names. -/
def malformedName : Name := ⟨"Malformed JSON", by decide⟩

/-- The fixed response is how this variable is written. -/
theorem write_malformedName : write (.var malformedName) = malformedResponse := by
  decide +kernel

theorem respond_eq_malformedResponse {text name : String} {t : Transformation}
    (ht : Transformation.ofName? name = some t) :
    respond (some text) name = .ok malformedResponse ↔
      (∃ error, read text = .error error) ∨
        ∃ e, read text = .ok e ∧ e.depth ≤ nestingLimit ∧
          t.apply e = .ok (.var malformedName) := by
  cases h : read text with
  | error error => exact iff_of_true (respond_of_error ht h) (.inl ⟨error, rfl⟩)
  | ok e =>
    by_cases hdepth : e.depth ≤ nestingLimit
    · obtain ⟨s, hs⟩ := t.exists_apply e
      rw [respond_of_apply ht h hdepth hs, ← write_malformedName]
      constructor
      · intro hw
        obtain rfl := write_inj (Except.ok.inj hw)
        exact .inr ⟨e, rfl, hdepth, hs⟩
      · rintro (⟨error, herror⟩ | ⟨e', he', -, hs'⟩)
        · cases herror
        · cases he'
          rw [hs] at hs'
          rw [Except.ok.inj hs']
    · rw [respond_of_deep ht h hdepth]
      constructor
      · intro hw
        cases hw
      · rintro (⟨error, herror⟩ | ⟨e', he', hdepth', -⟩)
        · cases herror
        · cases he'
          exact absurd hdepth' hdepth

/-- Without this variable the fixed response means that the text is no document. -/
theorem exists_error_of_unused {text name : String}
    (hunused : ∀ e, read text = .ok e → malformedName.text ∉ e.vocabulary)
    {t : Transformation} (ht : Transformation.ofName? name = some t)
    (h : respond (some text) name = .ok malformedResponse) : ∃ error, read text = .error error := by
  rcases (respond_eq_malformedResponse ht).mp h with herror | ⟨e, he, -, hs⟩
  · exact herror
  · have hmem : malformedName.text ∈ (Expr.var malformedName).vocabulary :=
      Expr.mem_vocabulary_var.mpr rfl
    exact absurd (Transformation.mem_vocabulary_of_apply hs hmem) (hunused e he)

/-- **Which requests get the fixed response**: those whose text is no document, and those whose
transformed formula is the variable that the response names. So where this variable does not occur
the fixed response means that the text is no document. -/
theorem respond_eq_malformedResponse_iff (text name : String) :
    (respond (some text) name = .ok malformedResponse ↔
      ∃ t, Transformation.ofName? name = some t ∧
        ((∃ error, read text = .error error) ∨
          ∃ e, read text = .ok e ∧ e.depth ≤ nestingLimit ∧
            t.apply e = .ok (.var malformedName))) ∧
    ((∀ e, read text = .ok e → malformedName.text ∉ e.vocabulary) →
      (respond (some text) name = .ok malformedResponse ↔
        (∃ t, Transformation.ofName? name = some t) ∧ ∃ error, read text = .error error)) := by
  cases ht : Transformation.ofName? name with
  | none =>
    rw [respond_of_unknown ht]
    exact ⟨⟨nofun, nofun⟩, fun _ => ⟨nofun, nofun⟩⟩
  | some t =>
    constructor
    · rw [respond_eq_malformedResponse ht]
      constructor
      · intro h
        exact ⟨t, rfl, h⟩
      · rintro ⟨t', ht', h⟩
        rwa [← Option.some.inj ht'] at h
    · intro hunused
      constructor
      · intro h
        exact ⟨⟨t, rfl⟩, exists_error_of_unused hunused ht h⟩
      · rintro ⟨-, error, herror⟩
        exact respond_of_error ht herror

/-- A variable of another name is told from a text that is no document. -/
theorem other_variable_told_apart : ∃ p : Name,
    (∀ e, read (write (.var p)) = .ok e → malformedName.text ∉ e.vocabulary) ∧
      respond (some (write (.var p))) "NNF" ≠ .ok malformedResponse := by
  let p : Name := ⟨"p", by decide⟩
  have hunused : ∀ e, read (write (.var p)) = .ok e → malformedName.text ∉ e.vocabulary := by
    intro e he
    rw [read_write] at he
    cases he
    decide
  refine ⟨p, hunused, fun h => ?_⟩
  obtain ⟨-, error, herror⟩ := ((respond_eq_malformedResponse_iff _ _).2 hunused).mp h
  rw [read_write] at herror
  cases herror

/-- The fixed response is a document, and every transformation answers it by itself. -/
theorem malformedResponse_is_a_document :
    read malformedResponse = .ok (.var malformedName) ∧
      ∀ t : Transformation, respond (some malformedResponse) t.name = .ok malformedResponse := by
  have hread : read malformedResponse = .ok (.var malformedName) := by
    rw [← write_malformedName]
    exact read_write _
  refine ⟨hread, fun t => ?_⟩
  have hdepth : (Expr.var malformedName).depth ≤ nestingLimit := by decide
  exact (respond_eq_malformedResponse t.ofName?_name).mpr
    (.inr ⟨_, hread, hdepth, t.apply_var malformedName⟩)

end Propositional
