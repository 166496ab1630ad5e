import DocumentQuery.Proofs.Query.Placeholders
import DocumentQuery.Proofs.Query.SideBySide

/-!
# The forms of projections

The projections of a select are written as a bare value, as an object literal or as a list of
attributes, all of them in one form. The form depends on all of them at once, the `AS` of an
attribute on its own alias alone. The store takes no `AS value` and no function calls in an
object literal; where both rules are at stake, the second one decides.

Main definitions:

* `Select.style` — the form of the projections of a select.
* `Select.projected` — the projections in this form.

Main results:

* `Select.lower_projected` — where the projections stand in the layout of a select.
* `Select.style_of_isValueWord` — the form that a projection called `value` asks for.
* `generate_value_alias` — what is written for such a projection.
* `not_generate_value_alias` — attributes called `value` beside a function call.
-/

namespace DocumentQuery

open Layout Lowering

/-- The form of the projections of a select. -/
def Select.style (s : Select) : ProjectionStyle := .of s.singleValue s.projection

/-- The projections of a select, around the layouts of their expressions. -/
def Select.projected (s : Select) (parts : List Layout) : Layout :=
  if s.projection.isEmpty then [.text "1"]
  else s.style.clause (List.zipWith s.style.item s.projection parts)

/-- What a select begins with. -/
def Select.head (s : Select) : Layout :=
  .text "SELECT " :: if s.isDistinct then [.text "DISTINCT "] else []

/-- A run gives this layout for the expression of the projection. -/
def Projection.LaidOut (ctx : Context) (p : Projection) (part : Layout) : Prop :=
  ∃ b b', (p.expression.lower ctx).run b = .ok (part, b')

/-- An attribute under a name of its own. -/
def Layout.named (part : Layout) (name : String) : Layout :=
  part ++ [.text " AS ", .text name]

/-! ## Projections in the layout of a select -/

/-- Each projection is written around the layout of its expression. -/
theorem lowerProjections_items (ctx : Context) (style : ProjectionStyle) (ps : List Projection) :
    Yields (fun items => ∃ parts, List.Forall₂ (Projection.LaidOut ctx) ps parts ∧
      items = List.zipWith style.item ps parts) (lowerProjections ctx style ps) := by
  induction ps with
  | nil => exact yields_pure ⟨[], .nil, rfl⟩
  | cons p ps ih =>
    obtain ⟨expression, aliasName, name⟩ := p
    have hFirst : Yields (Projection.LaidOut ctx ⟨expression, aliasName, name⟩)
        (expression.lower ctx) := fun b r hr => ⟨b, r.2, hr⟩
    refine hFirst.bind fun part hPart => ih.bind ?_
    rintro items ⟨parts, hParts, rfl⟩
    exact yields_pure ⟨part :: parts, .cons hPart hParts, rfl⟩

/-- The projections stand at the head of a select, in its form. -/
theorem Select.lower_projected (s : Select) (ctx : Context) :
    Yields (fun l => ∃ parts rest, List.Forall₂ (Projection.LaidOut ctx) s.projection parts ∧
      l = s.head ++ s.projected parts ++ rest) (s.lower ctx) := by
  obtain ⟨isDistinct, projection, singleValue, sources, predicate, orderings, offset, limit⟩ := s
  have hAny {α : Type} (m : Lowering α) : Yields (fun _ => True) m := fun _ _ _ => trivial
  -- the other clauses only add to the end
  have hClauses (projections : Layout) :
      Yields (fun l => ∃ rest, l = .text "SELECT " ::
          (if isDistinct then [.text "DISTINCT "] else []) ++ projections ++ rest) (do
        let source ← lowerSources ctx sources
        let predicate ← lowerOptional ctx predicate
        let orderings ← lowerSortKeys ctx orderings
        let paging ← paging (lowerOptional ctx offset) (lowerOptional ctx limit)
        return ofClauses isDistinct projections source predicate orderings paging) :=
    (hAny _).bind fun _ _ => (hAny _).bind fun _ _ => (hAny _).bind fun _ _ =>
      (hAny _).bind fun _ _ => yields_pure ⟨_, by simp only [ofClauses, List.append_assoc]; rfl⟩
  rw [Select.lower]
  split
  · exact yields_throw _
  · split
    · rename_i hEmpty
      obtain rfl := List.isEmpty_iff.mp hEmpty
      intro b r hr
      obtain ⟨rest, hLayout⟩ := hClauses _ b r hr
      exact ⟨[], rest, .nil, hLayout⟩
    · rename_i hEmpty
      refine (lowerProjections_items ctx _ projection).bind ?_
      rintro items ⟨parts, hParts, rfl⟩ b r hr
      obtain ⟨rest, hLayout⟩ := hClauses _ b r hr
      refine ⟨parts, rest, hParts, hLayout.trans ?_⟩
      rw [projected, if_neg hEmpty]
      rfl

/-! ## Projections called `value` -/

/-- Before `AS` stand the attributes whose alias is not their name, and nothing else. -/
theorem ProjectionStyle.item_eq_named_iff (style : ProjectionStyle) (p : Projection)
    (part : Layout) :
    style.item p part = part.named p.aliasName ↔ style = .columns ∧ p.hasCustomAlias = true := by
  -- the other forms are shorter than an attribute under a name
  have hLonger : part.length + 1 < (part.named p.aliasName).length := by
    simp [Layout.named]
  cases style with
  | value =>
    refine iff_of_false (fun h => ?_) fun h => absurd h.1 (by decide)
    rw [← h, item] at hLonger
    omega
  | object =>
    refine iff_of_false (fun h => ?_) fun h => absurd h.1 (by decide)
    rw [← h, item, List.length_cons] at hLonger
    omega
  | columns =>
    rw [item]
    split
    · rename_i hCustom
      exact iff_of_true rfl ⟨rfl, hCustom⟩
    · rename_i hCustom
      refine iff_of_false (fun h => ?_) (fun h => hCustom h.2)
      rw [← h] at hLonger
      omega

/-- A call has no name of its own, so that its alias is its name. -/
theorem Projection.hasCustomAlias_of_function {e : Expression} (h : ProjectionStyle.isFunction e)
    (aliasName : String) : (Projection.of e aliasName).hasCustomAlias = false := by
  cases e with
  | function _ _ _ _ => simp [Projection.hasCustomAlias, Projection.of, Expression.accessName?]
  | _ => cases h

/-- With a projection under the alias `value`, only function calls keep the projections out of an
object literal. -/
theorem ProjectionStyle.needsObject_of_isValueWord {ps : List Projection} {p : Projection}
    (hMem : p ∈ ps) (hWord : isValueWord p.aliasName = true) (hCustom : p.hasCustomAlias = true) :
    needsObject ps = !ps.any fun other => isFunction other.expression := by
  have hAny : ps.any Projection.hasCustomAlias = true := List.any_eq_true.mpr ⟨p, hMem, hCustom⟩
  match ps with
  | [other] =>
    obtain rfl := List.mem_singleton.mp hMem
    rw [needsObject, hWord, hAny]
    rfl
  | _ :: _ :: _ =>
    unfold needsObject
    rw [hAny]
    rfl

theorem Select.style_of_isValueWord {s : Select} {p : Projection} (hMem : p ∈ s.projection)
    (hWord : ProjectionStyle.isValueWord p.aliasName = true) (hCustom : p.hasCustomAlias = true) :
    s.style = if s.singleValue then .value
      else if s.projection.any fun other => ProjectionStyle.isFunction other.expression
        then .columns else .object := by
  rw [Select.style, ProjectionStyle.of,
    ProjectionStyle.needsObject_of_isValueWord hMem hWord hCustom]
  cases s.projection.any fun other => ProjectionStyle.isFunction other.expression <;> rfl

/-- **No `AS value` without a function call.** Where projections are named after their expressions,
or else after their aliases, one under the alias `value` stands before `AS` only if it has another
name, is no function call itself and a function call is projected beside it. Without function
calls, if it has another name, it is written in an object literal, or as a bare value if the
select is to give one. -/
theorem generate_value_alias {s : Select} {registry : Registry} {values : ParameterValues}
    {options : GeneratorOptions} {q : Query}
    (hNew : ∀ p ∈ s.projection, ∃ expression aliasName, p = .of expression aliasName)
    (hQuery : s.generate registry values options = .ok q) :
    ∃ parts rest, List.Forall₂ (Projection.LaidOut ⟨registry, values⟩) s.projection parts ∧
      q.text = render options.indentSize (s.head ++ s.projected parts ++ rest) ∧
      ∀ p ∈ s.projection, ProjectionStyle.isValueWord p.aliasName = true →
        (∀ part : Layout, s.style.item p part = part.named p.aliasName →
          p.hasCustomAlias = true ∧ s.singleValue = false ∧
          ¬ ProjectionStyle.isFunction p.expression = true ∧
          ∃ other ∈ s.projection, ProjectionStyle.isFunction other.expression = true) ∧
        (p.hasCustomAlias = true →
          (s.singleValue = true → s.style = .value) ∧
          (s.singleValue = false →
            (∀ other ∈ s.projection, ¬ ProjectionStyle.isFunction other.expression = true) →
            s.style = .object)) := by
  rw [Select.generate_eq, map_eq_ok] at hQuery
  obtain ⟨r, hLower, rfl⟩ := hQuery
  obtain ⟨parts, rest, hParts, hLayout⟩ := s.lower_projected ⟨registry, values⟩ {} r hLower
  refine ⟨parts, rest, hParts, congrArg (render options.indentSize) hLayout,
    fun p hMem hWord => ⟨fun part hNamed => ?_, fun hCustom => ⟨?_, ?_⟩⟩⟩
  · obtain ⟨hColumns, hCustom⟩ := (s.style.item_eq_named_iff p part).mp hNamed
    rw [Select.style_of_isValueWord hMem hWord hCustom] at hColumns
    refine ⟨hCustom, ?_, ?_, ?_⟩
    · by_contra hSingle
      rw [if_pos (Bool.eq_true_of_not_eq_false hSingle)] at hColumns
      cases hColumns
    · obtain ⟨expression, aliasName, rfl⟩ := hNew p hMem
      intro hFunction
      exact Bool.false_ne_true
        ((Projection.hasCustomAlias_of_function hFunction aliasName).symm.trans hCustom)
    · by_contra hNone
      rw [← List.any_eq_true] at hNone
      rw [if_neg hNone] at hColumns
      split at hColumns <;> cases hColumns
  · intro hSingle
    rw [Select.style_of_isValueWord hMem hWord hCustom, if_pos hSingle]
  · intro hSeveral hNone
    rw [Select.style_of_isValueWord hMem hWord hCustom, if_neg (by simp [hSeveral]), if_neg]
    rw [List.any_eq_true]
    rintro ⟨other, hOther, hFunction⟩
    exact hNone other hOther hFunction

/-- A property of the rows. -/
def rowProperty (name : String) : Expression :=
  .keyAccess (.objectReference "c") name .string none

/-- A property under the alias `VALUE` beside one under its own name. -/
def renamedToValue : Select :=
  (Select.empty.project (.of (rowProperty "Name") "VALUE")).project (.of (rowProperty "Age") "Age")

/-- Properties are written in an object literal, in whatever case the alias is. -/
theorem renamedToValue_object :
    renamedToValue.generate .builtin [] =
        .ok ⟨"SELECT VALUE\n\x7b\n  \"VALUE\" : c[\"Name\"],\n  \"Age\" : c[\"Age\"]\n\x7d", []⟩ ∧
      renamedToValue.style = .object ∧
      ∀ part : Layout, renamedToValue.style.item (.of (rowProperty "Name") "VALUE") part ≠
        part.named "VALUE" := by
  have hText : renamedToValue.generate .builtin [] =
      .ok ⟨"SELECT VALUE\n\x7b\n  \"VALUE\" : c[\"Name\"],\n  \"Age\" : c[\"Age\"]\n\x7d", []⟩ :=
    rfl
  have hNew : ∀ p ∈ renamedToValue.projection, ∃ expression aliasName,
      p = .of expression aliasName := by
    simp [renamedToValue, Select.project, Select.empty]
  have hNone : ∀ p ∈ renamedToValue.projection,
      ¬ ProjectionStyle.isFunction p.expression = true := by
    simp [renamedToValue, Select.project, Select.empty, Projection.of, rowProperty,
      ProjectionStyle.isFunction]
  obtain ⟨-, -, -, -, hValue⟩ := generate_value_alias hNew hText
  obtain ⟨hNamed, hForm⟩ := hValue (.of (rowProperty "Name") "VALUE")
    List.mem_cons_self (by decide +kernel)
  refine ⟨hText, (hForm rfl).2 rfl hNone, fun part hPart => ?_⟩
  obtain ⟨-, -, -, other, hOther, hFunction⟩ := hNamed part hPart
  exact hNone other hOther hFunction

/-- The rows are counted beside a property under the alias `value`. -/
def countedValue : Select :=
  (Select.empty.project (.of (.function "COUNT" [] .int32 none) "total")).project
    (.of (rowProperty "Name") "value")

/-- A bare value under the alias `value`. -/
def bareValue : Select :=
  { Select.empty.project (.of (rowProperty "Name") "value") with singleValue := true }

/-- A function call beside it puts a projection called `value` before `AS`; and without function
calls such a projection may still be a bare value. -/
theorem not_generate_value_alias :
    (¬ ∀ (s : Select) (q : Query),
      (∀ p ∈ s.projection, ∃ expression aliasName, p = .of expression aliasName) →
      s.generate .builtin [] = .ok q →
      ∀ p ∈ s.projection, ProjectionStyle.isValueWord p.aliasName = true →
        ∀ part : Layout, s.style.item p part ≠ part.named p.aliasName) ∧
    ¬ ∀ (s : Select) (q : Query),
      (∀ p ∈ s.projection, ∃ expression aliasName, p = .of expression aliasName) →
      (∀ p ∈ s.projection, ¬ ProjectionStyle.isFunction p.expression = true) →
      s.generate .builtin [] = .ok q →
      ∀ p ∈ s.projection, ProjectionStyle.isValueWord p.aliasName = true →
        p.hasCustomAlias = true → s.style = .object := by
  refine ⟨fun hNever => ?_, fun hObject => ?_⟩
  · have hText : countedValue.generate .builtin [] =
        .ok ⟨"SELECT COUNT(), c[\"Name\"] AS value", []⟩ := rfl
    refine hNever countedValue _ ?_ hText (.of (rowProperty "Name") "value")
      (List.mem_cons_of_mem _ List.mem_cons_self) (by decide +kernel) [] rfl
    simp [countedValue, Select.project, Select.empty]
  · have hText : bareValue.generate .builtin [] = .ok ⟨"SELECT VALUE c[\"Name\"]", []⟩ := rfl
    have hStyle := hObject bareValue _ (by simp [bareValue, Select.project, Select.empty])
      (by simp [bareValue, Select.project, Select.empty, Projection.of, rowProperty,
        ProjectionStyle.isFunction]) hText _ List.mem_cons_self (by decide +kernel) rfl
    cases hStyle

end DocumentQuery
