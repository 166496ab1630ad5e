import DocumentQuery.Proofs.Query.Steps
import Mathlib.Data.List.DropRight

/-!
# Selects that are built step by step

A step of building never looks at what is there: a further source is added beside the first
one, an attribute beside a bare value, rows are left out of a select without a limit. What is
wrong with the result shows when a query is generated. If nothing is wrong with the parts by
themselves, the number of parts is all that can be wrong with the whole, and of several such
faults the first in the order of visiting is reported.

Main definitions:

* `BuildStep`, `BuildStep.part` — a step of building, and what is given to it.
* `Select.built` — the select after some steps.
* `BuildStep.surplus` — the attributes that have been put beside a bare value.

Main results:

* `Select.Sound.apply`, `BuildStep.Shape.apply` — what one step keeps of the parts, and what it
  does to their number.
* `Select.Sound.run_steps` — the faults of a select with sound parts.
* `generate_built` — which selects queries are generated from, and why there are none from the
  others.
-/

namespace DocumentQuery

/-! ## Steps of building -/

inductive BuildStep where
  | distinct
  | project (p : Projection)
  | projectValue (expression : Expression)
  | fromSource (source : Source)
  | filter (predicate : Expression)
  | orderBy (key : SortKey)
  | skip (count : Expression)
  | take (count : Expression)

namespace BuildStep

/-- Carries out one step. -/
def apply (s : Select) : BuildStep → Select
  | .distinct => s.distinct
  | .project p => s.project p
  | .projectValue expression => s.projectValue expression
  | .fromSource source => s.fromSource source
  | .filter predicate => s.filter predicate
  | .orderBy key => s.orderBy key
  | .skip count => s.skip count
  | .take count => s.take count

/-- What is given to a step, in a select of its own; an expression is its bare value. -/
def part : BuildStep → Select
  | .distinct => .empty
  | .project p => Select.empty.project p
  | .fromSource source => Select.empty.fromSource source
  | .orderBy key => Select.empty.orderBy key
  | .projectValue expression => Select.empty.projectValue expression
  | .filter predicate => Select.empty.projectValue predicate
  | .skip count => Select.empty.projectValue count
  | .take count => Select.empty.projectValue count

def isProject : BuildStep → Bool
  | .project _ => true
  | _ => false

def isValue : BuildStep → Bool
  | .projectValue _ => true
  | _ => false

def isSource : BuildStep → Bool
  | .fromSource _ => true
  | _ => false

def isSkip : BuildStep → Bool
  | .skip _ => true
  | _ => false

def isTake : BuildStep → Bool
  | .take _ => true
  | _ => false

/-- How many attributes are projected after the last bare value, if there is one. -/
def surplus (steps : List BuildStep) : Nat :=
  if steps.any isValue then (steps.rtakeWhile fun step => !step.isValue).countP isProject else 0

end BuildStep

namespace Select

/-- The select after some steps. -/
def built (steps : List BuildStep) : Select := steps.foldl BuildStep.apply empty

/-- There are no references to parameters and no raw fragments in the select: whatever lowering
does besides writing is to fail. -/
def Closed (s : Select) : Prop := ∀ step ∈ s.steps, ∃ e, step = .fail e

/-- Nothing is wrong with any part of the select, and nothing is bound for it. -/
structure Sound (s : Select) : Prop where
  projection : stepsOfProjections s.projection = []
  sources : stepsOfSources s.sources = []
  predicate : stepsOfOptional s.predicate = []
  orderings : stepsOfSortKeys s.orderings = []
  offset : stepsOfOptional s.offset = []
  limit : stepsOfOptional s.limit = []

end Select

open BuildStep

/-! ## Parts -/

theorem stepsOfProjections_append (ps ps' : List Projection) :
    stepsOfProjections (ps ++ ps') = stepsOfProjections ps ++ stepsOfProjections ps' := by
  induction ps with
  | nil => rfl
  | cons p ps ih =>
    obtain ⟨expression, aliasName, name⟩ := p
    rw [List.cons_append, stepsOfProjections, stepsOfProjections, ih, List.append_assoc]

theorem stepsOfSources_append (ss ss' : List Source) :
    stepsOfSources (ss ++ ss') = stepsOfSources ss ++ stepsOfSources ss' := by
  induction ss with
  | nil => rfl
  | cons source ss ih =>
    obtain ⟨container, aliasName, eachItem⟩ := source
    rw [List.cons_append, stepsOfSources, stepsOfSources, ih, List.append_assoc, List.append_assoc,
      List.append_assoc]

theorem stepsOfSortKeys_append (ks ks' : List SortKey) :
    stepsOfSortKeys (ks ++ ks') = stepsOfSortKeys ks ++ stepsOfSortKeys ks' := by
  induction ks with
  | nil => rfl
  | cons key ks ih =>
    obtain ⟨expression, isAscending⟩ := key
    rw [List.cons_append, stepsOfSortKeys, stepsOfSortKeys, ih, List.append_assoc]

namespace Select

variable {s : Select}

/-- What is generated from without binding anything has no steps at all. -/
theorem Closed.steps_eq_nil (h : s.Closed) {registry : Registry} {values : ParameterValues}
    {options : GeneratorOptions} {q : Query} (hQuery : s.generate registry values options = .ok q) :
    s.steps = [] := by
  obtain ⟨b, hRun, -⟩ := generate_ok hQuery
  cases hSteps : s.steps with
  | nil => rfl
  | cons step steps =>
    obtain ⟨e, rfl⟩ := h step (by rw [hSteps]; exact List.mem_cons_self)
    rw [hSteps] at hRun
    cases hRun

theorem Sound.of_steps (h : s.steps = []) : s.Sound := by
  obtain ⟨isDistinct, projection, singleValue, sources, predicate, orderings, offset, limit⟩ := s
  simp only [Select.steps, List.append_eq_nil_iff] at h
  obtain ⟨-, hProjection, ⟨-, hSources⟩, hPredicate, hOrderings, hOffset, hLimit, -⟩ := h
  exact ⟨hProjection, hSources, hPredicate, hOrderings, hOffset, hLimit⟩

theorem sound_empty : Sound .empty := ⟨rfl, rfl, rfl, rfl, rfl, rfl⟩

/-- A sound part is added to the others, or comes in place of others. -/
theorem Sound.apply (h : s.Sound) {step : BuildStep} (hPart : step.part.Sound) :
    (step.apply s).Sound := by
  -- the expression of a bare value is all there is to its projection
  have hValue {e : Expression} (hSound : (Select.empty.projectValue e).Sound) : e.steps = [] :=
    (List.append_eq_nil_iff.mp hSound.projection).1
  cases step with
  | distinct => exact ⟨h.projection, h.sources, h.predicate, h.orderings, h.offset, h.limit⟩
  | project p =>
    refine { h with projection := ?_ }
    rw [BuildStep.apply, project, stepsOfProjections_append, h.projection]
    exact hPart.projection
  | projectValue e => exact { h with projection := hPart.projection }
  | fromSource source =>
    refine { h with sources := ?_ }
    rw [BuildStep.apply, fromSource, stepsOfSources_append, h.sources]
    exact hPart.sources
  | filter e => exact { h with predicate := hValue hPart }
  | orderBy key =>
    refine { h with orderings := ?_ }
    rw [BuildStep.apply, orderBy, stepsOfSortKeys_append, h.orderings]
    exact hPart.orderings
  | skip e => exact { h with offset := hValue hPart }
  | take e => exact { h with limit := hValue hPart }

theorem sound_built {steps : List BuildStep} (h : ∀ step ∈ steps, step.part.Sound) :
    (built steps).Sound := by
  have hFold : ∀ s : Select, s.Sound → (steps.foldl BuildStep.apply s).Sound := by
    induction steps with
    | nil => exact fun _ hs => hs
    | cons step steps ih =>
      obtain ⟨hFirst, hRest⟩ := List.forall_mem_cons.mp h
      exact fun s hs => ih hRest (step.apply s) (hs.apply hFirst)
  exact hFold .empty sound_empty

/-- With sound parts it is their number that can be wrong; too many projections are found first,
too many sources next. -/
theorem Sound.run_steps (h : s.Sound) (ctx : Context) (b : Bindings) :
    runSteps ctx b s.steps =
      if s.singleValue = true ∧ 1 < s.projection.length then
        .error (.internal (.singleValueArity s.projection.length))
      else if 1 < s.sources.length then .error (.internal .joinsNotSupported)
      else if s.offset.isSome = true ∧ s.limit.isSome = false then
        .error (.user .offsetRequiresLimit)
      else .ok b := by
  obtain ⟨isDistinct, projection, singleValue, sources, predicate, orderings, offset, limit⟩ := s
  have hRequire {p : Prop} [Decidable p] {condition : Bool} (hFault : condition = false ↔ p)
      (e : QueryError) (steps : List Step) :
      runSteps ctx b (Step.require condition e ++ steps) =
        if p then .error e else runSteps ctx b steps := by
    cases condition with
    | true => rw [if_neg (fun h => absurd (hFault.mpr h) (by decide))]; rfl
    | false => rw [if_pos (hFault.mp rfl)]; rfl
  obtain ⟨hProjection, hSources, hPredicate, hOrderings, hOffset, hLimit⟩ := h
  simp only at hProjection hSources hPredicate hOrderings hOffset hLimit
  -- only the conditions on the numbers of parts are left among the steps
  have hSteps : Select.steps ⟨isDistinct, projection, singleValue, sources, predicate, orderings,
      offset, limit⟩ =
      Step.require (!(singleValue && decide (1 < projection.length)))
          (.internal (.singleValueArity projection.length)) ++
        (Step.require (decide (sources.length ≤ 1)) (.internal .joinsNotSupported) ++
          (Step.require (offset.isNone || limit.isSome) (.user .offsetRequiresLimit) ++ [])) := by
    rw [Select.steps, hProjection, hSources, hPredicate, hOrderings, hOffset, hLimit]
    simp
  rw [hSteps, hRequire (p := singleValue = true ∧ 1 < projection.length) (by simp),
    hRequire (p := 1 < sources.length) (by simp),
    hRequire (p := offset.isSome = true ∧ limit.isSome = false) (by cases offset <;> simp),
    runSteps_nil]

end Select

/-! ## How many parts there are -/

namespace BuildStep

/-- How many parts some steps have put into a select. -/
structure Shape (steps : List BuildStep) (s : Select) : Prop where
  singleValue : s.singleValue = steps.any isValue
  projection : s.singleValue = true → s.projection.length = 1 + surplus steps
  sources : s.sources.length = steps.countP isSource
  offset : s.offset.isSome = steps.any isSkip
  limit : s.limit.isSome = steps.any isTake

/-! ### One more part -/

theorem singleValue_apply (s : Select) (step : BuildStep) :
    (step.apply s).singleValue = (step.isValue || s.singleValue) := by
  cases step <;> rfl

/-- A bare value comes in place of all projections so far. -/
theorem length_projection_apply (s : Select) (step : BuildStep) :
    (step.apply s).projection.length =
      if step.isValue then 1 else s.projection.length + if step.isProject then 1 else 0 := by
  cases step with
  | project p => exact List.length_append
  | _ => rfl

theorem length_sources_apply (s : Select) (step : BuildStep) :
    (step.apply s).sources.length = s.sources.length + if step.isSource then 1 else 0 := by
  cases step with
  | fromSource source => exact List.length_append
  | _ => rfl

theorem isSome_offset_apply (s : Select) (step : BuildStep) :
    (step.apply s).offset.isSome = (step.isSkip || s.offset.isSome) := by
  cases step <;> rfl

theorem isSome_limit_apply (s : Select) (step : BuildStep) :
    (step.apply s).limit.isSome = (step.isTake || s.limit.isSome) := by
  cases step <;> rfl

/-- Behind a bare value the counting begins anew. -/
theorem surplus_concat (steps : List BuildStep) (step : BuildStep) :
    surplus (steps ++ [step]) =
      if step.isValue = true ∨ steps.any isValue = false then 0
      else surplus steps + if step.isProject then 1 else 0 := by
  cases hValue : step.isValue <;> cases hAny : steps.any isValue <;>
    simp [surplus, hValue, hAny, List.countP_append, List.countP_cons]

theorem Shape.apply {steps : List BuildStep} {s : Select} (h : Shape steps s) (step : BuildStep) :
    Shape (steps ++ [step]) (step.apply s) where
  singleValue := by
    rw [singleValue_apply, h.singleValue, Bool.or_comm]
    simp
  projection hSingle := by
    rw [length_projection_apply, surplus_concat]
    cases hValue : step.isValue with
    | true => simp
    | false =>
      rw [singleValue_apply, hValue, Bool.false_or] at hSingle
      -- a bare value has been projected before, and stands beside the others
      have hAny : steps.any isValue = true := h.singleValue ▸ hSingle
      simp [hAny, h.projection hSingle, Nat.add_assoc]
  sources := by
    rw [length_sources_apply, h.sources]
    simp [List.countP_append, List.countP_cons]
  offset := by
    rw [isSome_offset_apply, h.offset, Bool.or_comm]
    simp
  limit := by
    rw [isSome_limit_apply, h.limit, Bool.or_comm]
    simp

theorem shape_built (steps : List BuildStep) : Shape steps (Select.built steps) := by
  induction steps using List.reverseRecOn with
  | nil => exact ⟨rfl, nofun, rfl, rfl, rfl⟩
  | append_singleton steps step ih =>
    rw [Select.built, List.foldl_append]
    exact ih.apply step

end BuildStep

/-! ## Queries -/

/-- The faults of a select that is built from sound parts. -/
theorem run_built {steps : List BuildStep} (h : ∀ step ∈ steps, step.part.Sound) (ctx : Context)
    (b : Bindings) :
    runSteps ctx b (Select.built steps).steps =
      if surplus steps ≠ 0 then .error (.internal (.singleValueArity (1 + surplus steps)))
      else if 1 < steps.countP isSource then .error (.internal .joinsNotSupported)
      else if steps.any isSkip = true ∧ steps.any isTake = false then
        .error (.user .offsetRequiresLimit)
      else .ok b := by
  have hShape := shape_built steps
  rw [(Select.sound_built h).run_steps, hShape.sources, hShape.offset, hShape.limit]
  by_cases hSingle : (Select.built steps).singleValue = true
  · have hArity : (Select.built steps).singleValue = true ∧ 1 < 1 + surplus steps ↔
        surplus steps ≠ 0 := (and_iff_right hSingle).trans (by omega)
    simp only [hShape.projection hSingle, hArity]
  · -- without a bare value no attribute comes after one
    have hNone : surplus steps = 0 := by
      rw [surplus, ← hShape.singleValue, if_neg hSingle]
    rw [if_neg (fun h => hSingle h.1), if_neg (not_not.mpr hNone)]

/-- **Builder runs fail for the number of their parts only.** Where parts refer to no parameters,
hold no raw fragments and are generated by themselves, a select that is built from them is
generated if and only if no attribute is projected after the last bare value, there is at most one
source, and rows are left out only where their number is limited. Otherwise the first of these
that does not hold is reported. -/
theorem generate_built {steps : List BuildStep} (hClosed : ∀ step ∈ steps, step.part.Closed)
    (hAlone : ∀ step ∈ steps, ∃ registry values options q,
      step.part.generate registry values options = .ok q)
    (registry : Registry) (values : ParameterValues) (options : GeneratorOptions) :
    ((∃ q, (Select.built steps).generate registry values options = .ok q) ↔
      surplus steps = 0 ∧ steps.countP isSource ≤ 1 ∧
        (steps.any isSkip = true → steps.any isTake = true)) ∧
    (surplus steps ≠ 0 → (Select.built steps).generate registry values options =
      .error (.internal (.singleValueArity (1 + surplus steps)))) ∧
    (surplus steps = 0 → 1 < steps.countP isSource →
      (Select.built steps).generate registry values options =
        .error (.internal .joinsNotSupported)) ∧
    (surplus steps = 0 → steps.countP isSource ≤ 1 →
      steps.any isSkip = true → steps.any isTake = false →
        (Select.built steps).generate registry values options =
          .error (.user .offsetRequiresLimit)) := by
  have hSound : ∀ step ∈ steps, step.part.Sound := by
    intro step hStep
    obtain ⟨registry, values, options, q, hQuery⟩ := hAlone step hStep
    exact .of_steps ((hClosed step hStep).steps_eq_nil hQuery)
  have hRun := run_built hSound ⟨registry, values⟩ {}
  have hFails (e : QueryError) (h : runSteps ⟨registry, values⟩ {} (Select.built steps).steps =
      .error e) : (Select.built steps).generate registry values options = .error e :=
    Select.generate_error.mpr h
  refine ⟨⟨?_, ?_⟩, ?_, ?_, ?_⟩
  · rintro ⟨q, hQuery⟩
    obtain ⟨b, hOk, -⟩ := Select.generate_ok hQuery
    -- a run that succeeds has come to the last case
    rw [hRun] at hOk
    split at hOk
    · cases hOk
    · rename_i hSurplus
      split at hOk
      · cases hOk
      · rename_i hSources
        split at hOk
        · cases hOk
        · rename_i hPaging
          refine ⟨not_not.mp hSurplus, Nat.le_of_not_lt hSources, fun hSkip => ?_⟩
          rw [not_and, Bool.not_eq_false] at hPaging
          exact hPaging hSkip
  · rintro ⟨hSurplus, hSources, hPaging⟩
    rw [if_neg (not_not.mpr hSurplus), if_neg (Nat.not_lt.mpr hSources),
      if_neg (fun h => absurd (hPaging h.1) (by simp [h.2]))] at hRun
    obtain ⟨q, hQuery, -⟩ := Select.exists_query options hRun
    exact ⟨q, hQuery⟩
  · intro hSurplus
    exact hFails _ (hRun.trans (if_pos hSurplus))
  · intro hSurplus hSources
    refine hFails _ (hRun.trans ?_)
    rw [if_neg (not_not.mpr hSurplus), if_pos hSources]
  · intro hSurplus hSources hSkip hTake
    refine hFails _ (hRun.trans ?_)
    rw [if_neg (not_not.mpr hSurplus), if_neg (Nat.not_lt.mpr hSources), if_pos ⟨hSkip, hTake⟩]

/-- The steps of a select with an attribute, two bare values, and attributes after each. -/
def BuildStep.besideValue : List BuildStep :=
  [.project (.of (.keyAccess (.objectReference "c") "a" .string none) "x"),
    .projectValue (.constant (.int 1) .int64 (some (.json .int64))),
    .project (.of (.objectReference "c") ""), .skip (.arrayConstant []), .distinct,
    .projectValue (.exists (Select.empty.fromSource (.each "t" (.objectReference "c")))),
    .fromSource (.named (.select .empty) (some "c")),
    .project (.of (.unary .not (.isIn (.objectReference "c") (some []) none) .bool none) "y"),
    .project (.of (.objectReference "c") "z")]

/-- The attributes after the second bare value are too many, whatever else is wrong. -/
theorem besideValue_arity :
    (Select.built besideValue).generate .builtin [] =
      .error (.internal (.singleValueArity 3)) := by
  refine (generate_built ?_ ?_ .builtin [] {}).2.1 (by decide)
  · simp only [besideValue, List.forall_mem_cons]
    refine ⟨?_, ?_, ?_, ?_, ?_, ?_, ?_, ?_, ?_, List.forall_mem_nil _⟩ <;> exact List.forall_mem_nil _
  · simp only [besideValue, List.forall_mem_cons]
    refine ⟨?_, ?_, ?_, ?_, ?_, ?_, ?_, ?_, ?_, List.forall_mem_nil _⟩ <;>
      exact ⟨.builtin, [], {}, _, rfl⟩

end DocumentQuery
