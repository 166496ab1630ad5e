import DocumentQuery.Proofs.Query.InternalErrors
import DocumentQuery.Proofs.Text.Places

/-!
# The trees that queries are generated from

A query is generated exactly from the trees that are well formed, given the registry
and the supplied values. What a node has to satisfy can be said of the node alone, but
for references to parameters: only the first reference to a name is bound, so only its
mapping counts.

The exact condition needs one assumption. A raw fragment may give one of its arguments
the name of a parameter of the tree, which then needs no value; no parameter of the tree
may have such a name.

Main definitions and results:

* `Select.WellFormed` — what every node of a tree has to satisfy.
* `Select.ReferencesRender` — what the first references have to satisfy.
* `generate_ok_iff` — a query is generated exactly if both hold.
-/

namespace DocumentQuery

/-! ## Well-formed trees -/

/-- A value can be written under a mapping, which has to be there. -/
def Value.Renders (mapping : Option TypeMapping) (value : Value) : Prop :=
  ∃ m literal, mapping = some m ∧ m.literal value = .ok literal

/-- A raw fragment can be filled with its arguments: they are an array, constants among
them can be written, and there is one for every place. -/
def RawArguments.Fill (ctx : Context) (sql : String) : RawArguments → Prop
  | .parameter name => ∃ items, ctx.values.lookup name = some (.array items) ∧
    ∀ index ∈ Template.places sql, index < items.length
  | .constant value => ∃ items, value = .array items ∧
    (∀ item ∈ items, item.Renders (ctx.registry.find? item.dataType)) ∧
    ∀ index ∈ Template.places sql, index < items.length

mutual

/-- Every node of an expression can be written, references to parameters apart. -/
def Expression.WellFormed (ctx : Context) : Expression → Prop
  | .select select => select.WellFormed ctx
  | .objectReference _ => True
  | .scalarReference _ _ => True
  | .keyAccess object _ _ _ => object.WellFormed ctx
  | .objectAccess object _ => object.WellFormed ctx
  | .entityProjection access => access.WellFormed ctx
  | .objectArrayProjection access => access.WellFormed ctx
  | .binary operator left right _ _ =>
    operator ≠ .power ∧ left.WellFormed ctx ∧ right.WellFormed ctx
  | .unary operator operand _ _ => operator ≠ .convert ∧ operand.WellFormed ctx
  | .conditional test ifTrue ifFalse _ _ =>
    test.WellFormed ctx ∧ ifTrue.WellFormed ctx ∧ ifFalse.WellFormed ctx
  | .function _ arguments _ _ => AllWellFormed ctx arguments
  | .constant value _ mapping => value.Renders mapping
  | .parameter _ _ _ => True
  | .isIn _ none _ => False
  | .isIn item (some values) valuesParameter =>
    valuesParameter = none ∧ item.WellFormed ctx ∧ AllWellFormed ctx values
  | .arrayConstant items => AllWellFormed ctx items
  | .exists subquery => subquery.WellFormed ctx
  | .array subquery => subquery.WellFormed ctx
  | .scalarSubquery subquery => subquery.WellFormed ctx
  | .fromSql sql arguments => arguments.Fill ctx sql
termination_by structural e => e

def AllWellFormed (ctx : Context) : List Expression → Prop
  | [] => True
  | e :: es => e.WellFormed ctx ∧ AllWellFormed ctx es
termination_by structural es => es

def OptionalWellFormed (ctx : Context) : Option Expression → Prop
  | none => True
  | some e => e.WellFormed ctx
termination_by structural e => e

/-- So can every node of a select: it has at most one source and, as a bare value, at
most one projection, and rows are left out only where the number of rows is limited. -/
def Select.WellFormed (ctx : Context) : Select → Prop
  | ⟨_, projection, singleValue, sources, predicate, orderings, offset, limit⟩ =>
    (singleValue = true → projection.length ≤ 1) ∧ ProjectionsWellFormed ctx projection ∧
      sources.length ≤ 1 ∧ SourcesWellFormed ctx sources ∧ OptionalWellFormed ctx predicate ∧
      SortKeysWellFormed ctx orderings ∧ OptionalWellFormed ctx offset ∧
      OptionalWellFormed ctx limit ∧ (offset.isSome = true → limit.isSome = true)
termination_by structural s => s

def ProjectionsWellFormed (ctx : Context) : List Projection → Prop
  | [] => True
  | ⟨expression, _, _⟩ :: ps => expression.WellFormed ctx ∧ ProjectionsWellFormed ctx ps
termination_by structural ps => ps

/-- The items of a container need a name. -/
def SourcesWellFormed (ctx : Context) : List Source → Prop
  | [] => True
  | ⟨container, aliasName, eachItem⟩ :: ss =>
    (eachItem = true → aliasName.isSome = true) ∧ container.WellFormed ctx ∧
      SourcesWellFormed ctx ss
termination_by structural ss => ss

def SortKeysWellFormed (ctx : Context) : List SortKey → Prop
  | [] => True
  | ⟨expression, _⟩ :: ks => expression.WellFormed ctx ∧ SortKeysWellFormed ctx ks
termination_by structural ks => ks

end

/-- The first reference to each name has a mapping, and the mapping can send the value
that is supplied under the name. -/
def Select.ReferencesRender (s : Select) (values : ParameterValues) : Prop :=
  ∀ name ∈ s.references.map Prod.fst, ∃ mapping value payload,
    s.references.lookup name = some (some mapping) ∧ values.lookup name = some value ∧
      mapping.payload value = .ok payload

/-! ## Steps that can succeed -/

/-- The step is no fault, and a raw fragment can be filled. -/
def Step.Possible (ctx : Context) : Step → Prop
  | .fail _ => False
  | .parameter _ _ => True
  | .raw sql arguments => arguments.Fill ctx sql

/-- Every step is possible. -/
abbrev AllPossible (ctx : Context) (steps : List Step) : Prop := ∀ step ∈ steps, step.Possible ctx

namespace Step

variable {ctx : Context}

@[simp] theorem allPossible_nil : AllPossible ctx [] ↔ True := by simp [AllPossible]

@[simp] theorem allPossible_append {steps steps' : List Step} :
    AllPossible ctx (steps ++ steps') ↔ AllPossible ctx steps ∧ AllPossible ctx steps' :=
  List.forall_mem_append

@[simp] theorem allPossible_require {condition : Bool} {e : QueryError} :
    AllPossible ctx (require condition e) ↔ condition = true := by
  cases condition <;> simp [AllPossible, require, Possible]

@[simp] theorem allPossible_ofBinary {operator : BinaryOperator} {left : DataType} :
    AllPossible ctx (ofBinary operator left) ↔ operator ≠ .power := by
  rw [ofBinary, allPossible_require]
  cases operator <;> simp [BinaryOperator.tokenFor?, BinaryOperator.token?]
  -- an addition has a token for either kind of operand
  split <;> rfl

@[simp] theorem allPossible_ofUnary {operator : UnaryOperator} {operand : DataType} :
    AllPossible ctx (ofUnary operator operand) ↔ operator ≠ .convert := by
  rw [ofUnary, allPossible_require]
  cases operator <;> simp [UnaryOperator.token?]

@[simp] theorem allPossible_ofConstant {value : Value} {mapping : Option TypeMapping} :
    AllPossible ctx (ofConstant value mapping) ↔ value.Renders mapping := by
  cases mapping with
  | none => simp [AllPossible, ofConstant, Possible, Value.Renders]
  | some mapping =>
    cases hLiteral : mapping.literal value <;>
      simp [AllPossible, ofConstant, Possible, Value.Renders, hLiteral]

@[simp] theorem allPossible_ofMembership {hasValues : Bool} {valuesParameter : Option String} :
    AllPossible ctx (ofMembership hasValues valuesParameter) ↔
      valuesParameter = none ∧ hasValues = true := by
  cases valuesParameter with
  | none => simp [ofMembership]
  | some name => simp [AllPossible, ofMembership, Possible]

end Step

section Trees

variable {ctx : Context}

mutual

theorem Expression.wellFormed_iff :
    ∀ e : Expression, e.WellFormed ctx ↔ AllPossible ctx e.steps
  | .select select => Select.wellFormed_iff select
  | .objectReference _ => Step.allPossible_nil.symm
  | .scalarReference _ _ => Step.allPossible_nil.symm
  | .keyAccess object _ _ _ => Expression.wellFormed_iff object
  | .objectAccess object _ => Expression.wellFormed_iff object
  | .entityProjection access => Expression.wellFormed_iff access
  | .objectArrayProjection access => Expression.wellFormed_iff access
  | .binary operator left right _ _ => by
    simp [Expression.WellFormed, Expression.steps, Expression.wellFormed_iff left,
      Expression.wellFormed_iff right]
  | .unary operator operand _ _ => by
    simp [Expression.WellFormed, Expression.steps, Expression.wellFormed_iff operand]
  | .conditional test ifTrue ifFalse _ _ => by
    simp [Expression.WellFormed, Expression.steps, Expression.wellFormed_iff test,
      Expression.wellFormed_iff ifTrue, Expression.wellFormed_iff ifFalse]
  | .function _ arguments _ _ => allWellFormed_iff arguments
  | .constant value _ mapping => Step.allPossible_ofConstant.symm
  | .parameter name _ mapping => by
    simp [Expression.WellFormed, Expression.steps, AllPossible, Step.Possible]
  | .isIn item none valuesParameter => by
    simp [Expression.WellFormed, Expression.steps]
  | .isIn item (some values) valuesParameter => by
    simp [Expression.WellFormed, Expression.steps, Expression.wellFormed_iff item,
      allWellFormed_iff values]
  | .arrayConstant items => allWellFormed_iff items
  | .exists subquery => Select.wellFormed_iff subquery
  | .array subquery => Select.wellFormed_iff subquery
  | .scalarSubquery subquery => Select.wellFormed_iff subquery
  | .fromSql sql arguments => by
    simp [Expression.WellFormed, Expression.steps, AllPossible, Step.Possible]
termination_by structural e => e

theorem allWellFormed_iff :
    ∀ es : List Expression, AllWellFormed ctx es ↔ AllPossible ctx (stepsOfAll es)
  | [] => Step.allPossible_nil.symm
  | e :: es => by
    simp [AllWellFormed, stepsOfAll, Expression.wellFormed_iff e, allWellFormed_iff es]
termination_by structural es => es

theorem optionalWellFormed_iff :
    ∀ e : Option Expression, OptionalWellFormed ctx e ↔ AllPossible ctx (stepsOfOptional e)
  | none => Step.allPossible_nil.symm
  | some e => Expression.wellFormed_iff e
termination_by structural e => e

/-- A tree is well formed exactly if each of its steps is possible. -/
theorem Select.wellFormed_iff : ∀ s : Select, s.WellFormed ctx ↔ AllPossible ctx s.steps
  | ⟨_, projection, singleValue, sources, predicate, orderings, offset, limit⟩ => by
    have hArity : (singleValue = true → projection.length ≤ 1) ↔
        (!(singleValue && decide (projection.length > 1))) = true := by
      cases singleValue <;> simp
    have hPaging : (offset.isSome = true → limit.isSome = true) ↔
        (offset.isNone || limit.isSome) = true := by
      cases offset <;> simp
    rw [Select.WellFormed, Select.steps, hArity, hPaging]
    simp only [Step.allPossible_append, Step.allPossible_require, decide_eq_true_eq,
      projectionsWellFormed_iff projection, sourcesWellFormed_iff sources,
      optionalWellFormed_iff predicate, sortKeysWellFormed_iff orderings,
      optionalWellFormed_iff offset, optionalWellFormed_iff limit, and_assoc]
termination_by structural s => s

theorem projectionsWellFormed_iff :
    ∀ ps : List Projection,
      ProjectionsWellFormed ctx ps ↔ AllPossible ctx (stepsOfProjections ps)
  | [] => Step.allPossible_nil.symm
  | ⟨expression, _, _⟩ :: ps => by
    simp [ProjectionsWellFormed, stepsOfProjections, Expression.wellFormed_iff expression,
      projectionsWellFormed_iff ps]
termination_by structural ps => ps

theorem sourcesWellFormed_iff :
    ∀ ss : List Source, SourcesWellFormed ctx ss ↔ AllPossible ctx (stepsOfSources ss)
  | [] => Step.allPossible_nil.symm
  | ⟨container, aliasName, eachItem⟩ :: ss => by
    cases eachItem <;>
      simp [SourcesWellFormed, stepsOfSources, Expression.wellFormed_iff container,
        sourcesWellFormed_iff ss]
termination_by structural ss => ss

theorem sortKeysWellFormed_iff :
    ∀ ks : List SortKey, SortKeysWellFormed ctx ks ↔ AllPossible ctx (stepsOfSortKeys ks)
  | [] => Step.allPossible_nil.symm
  | ⟨expression, _⟩ :: ks => by
    simp [SortKeysWellFormed, stepsOfSortKeys, Expression.wellFormed_iff expression,
      sortKeysWellFormed_iff ks]
termination_by structural ks => ks

end

end Trees

/-! ## Raw fragments -/

namespace Lowering

/-- Constants can be written exactly if each of them can under the mapping of its own
type. -/
theorem rawLiterals_ok_iff {registry : Registry} {items : List Value} :
    (∃ literals, rawLiterals registry items = .ok literals) ↔
      ∀ item ∈ items, item.Renders (registry.find? item.dataType) := by
  induction items with
  | nil => simp [rawLiterals]
  | cons item items ih =>
    rw [List.forall_mem_cons, ← ih, rawLiterals]
    constructor
    · rintro ⟨literals, h⟩
      obtain ⟨mapping, hMapping, h⟩ := bind_eq_ok.mp h
      obtain ⟨literal, hLiteral, h⟩ := bind_eq_ok.mp h
      obtain ⟨rest, hRest, -⟩ := bind_eq_ok.mp h
      rw [mapError_eq_ok, Registry.require] at hMapping
      rw [mapError_eq_ok] at hLiteral
      refine ⟨⟨mapping, literal, ?_, hLiteral⟩, rest, hRest⟩
      cases hFind : registry.find? item.dataType with
      | none =>
        rw [hFind] at hMapping
        cases hMapping
      | some m =>
        rw [hFind] at hMapping
        rw [Except.ok.inj hMapping]
    · rintro ⟨⟨mapping, literal, hFind, hLiteral⟩, rest, hRest⟩
      refine ⟨literal :: rest, ?_⟩
      simp only [Registry.require, hFind, hLiteral, hRest, Except.mapError, ok_bind]
      rfl

theorem length_rawLiterals {registry : Registry} {items : List Value} {literals : List String}
    (h : rawLiterals registry items = .ok literals) : literals.length = items.length := by
  induction items generalizing literals with
  | nil =>
    obtain rfl := Except.ok.inj h
    rfl
  | cons item items ih =>
    rw [rawLiterals] at h
    obtain ⟨mapping, -, h⟩ := bind_eq_ok.mp h
    obtain ⟨literal, -, h⟩ := bind_eq_ok.mp h
    obtain ⟨rest, hRest, h⟩ := bind_eq_ok.mp h
    obtain rfl := Except.ok.inj h
    rw [List.length_cons, List.length_cons, ih hRest]

end Lowering

theorem Bindings.length_bindArguments (b : Bindings) (values : ParameterValues)
    (items : List Value) : (b.bindArguments values items).1.length = items.length := by
  induction items generalizing b with
  | nil => rfl
  | cons value rest ih => exact congrArg Nat.succ (ih _)

/-- A step that has succeeded was possible. -/
theorem Step.Succeeds.possible {ctx : Context} {b b' : Bindings} {step : Step}
    (h : step.Succeeds ctx b b') : step.Possible ctx := by
  cases h with
  | bound => trivial
  | named => trivial
  | @arguments sql name text items hItems hText =>
    refine ⟨items, hItems, ?_⟩
    rw [← b.length_bindArguments ctx.values items, ← Template.fill_ok_iff]
    exact ⟨text, hText⟩
  | @constants sql text items literals hLiterals hText =>
    refine ⟨items, rfl, Lowering.rawLiterals_ok_iff.mp ⟨literals, hLiterals⟩, ?_⟩
    rw [← Lowering.length_rawLiterals hLiterals, ← Template.fill_ok_iff]
    exact ⟨text, hText⟩

/-- A raw fragment that can be filled succeeds whatever is bound. -/
theorem Step.exists_run_raw {ctx : Context} {sql : String} {arguments : RawArguments}
    (h : arguments.Fill ctx sql) (b : Bindings) :
    ∃ b', Step.run ctx b (.raw sql arguments) = .ok b' := by
  cases arguments with
  | parameter name =>
    obtain ⟨items, hItems, hPlaces⟩ := h
    rw [← b.length_bindArguments ctx.values items, ← Template.fill_ok_iff] at hPlaces
    obtain ⟨text, hText⟩ := hPlaces
    refine ⟨(b.bindArguments ctx.values items).2, ?_⟩
    rw [Step.run, Lowering.run_fromSql, Lowering.run_substitutions_parameter hItems, ok_bind,
      Lowering.filled, hText]
    rfl
  | constant value =>
    obtain ⟨items, rfl, hItems, hPlaces⟩ := h
    obtain ⟨literals, hLiterals⟩ := Lowering.rawLiterals_ok_iff.mpr hItems
    rw [← Lowering.length_rawLiterals hLiterals, ← Template.fill_ok_iff] at hPlaces
    obtain ⟨text, hText⟩ := hPlaces
    exact ⟨b, Step.run_raw_constants hLiterals hText⟩

/-! ## References -/

/-- The first reference to a name is bound unless an argument has taken the name; so it
has to have a mapping and a value that the mapping can send. -/
theorem referencesRender_of_run {s : Select} {registry : Registry} {values : ParameterValues}
    {b : Bindings} (h : runSteps ⟨registry, values⟩ {} s.steps = .ok b)
    (hFree : ∀ name ∈ s.references.map Prod.fst, ¬ s.TakenByArgument values name) :
    s.ReferencesRender values := by
  intro name hName
  -- the run is cut before the first reference, whose step has then succeeded
  obtain ⟨mapping, rest, hSplit, hLookup⟩ := exists_first_reference hName
  change s.steps = s.stepsBefore name ++ .parameter name mapping :: rest at hSplit
  rw [hSplit] at h
  obtain ⟨b₁, hBefore, hRest⟩ := runSteps_append_ok h
  obtain ⟨b₂, hFirst, -⟩ := runSteps_cons_ok hRest
  rcases Bindings.bindNamed_eq_ok hFirst with ⟨hBound, -⟩ |
    ⟨m, value, payload, -, rfl, hValue, hPayload, -⟩
  · exact absurd ((isBound_iff_takenByArgument hBefore).mp hBound) (hFree name hName)
  · exact ⟨m, value, payload, hLookup, hValue, hPayload⟩

/-- A run of possible steps with such references cannot fail: a later reference finds
its name bound, and the first one has all it needs. -/
theorem exists_run_of_possible {s : Select} {registry : Registry} {values : ParameterValues}
    (hSteps : AllPossible ⟨registry, values⟩ s.steps) (hReferences : s.ReferencesRender values) :
    ∃ b, runSteps ⟨registry, values⟩ {} s.steps = .ok b := by
  cases hRun : runSteps ⟨registry, values⟩ {} s.steps with
  | ok b => exact ⟨b, rfl⟩
  | error e =>
    exfalso
    obtain ⟨before, step, after, b, hSplit, hBefore, hFails⟩ := runSteps_error_iff.mp hRun
    have hPossible := hSteps step (by rw [hSplit]; simp)
    cases step with
    | fail e => exact hPossible
    | raw sql arguments =>
      obtain ⟨b', hRaw⟩ := Step.exists_run_raw hPossible b
      rw [hRaw] at hFails
      cases hFails
    | parameter name mapping =>
      simp only [Step.run, Bindings.bindNamed] at hFails
      cases hBound : b.isBound (referenceTo name) with
      | true =>
        rw [hBound, if_pos rfl] at hFails
        cases hFails
      | false =>
        -- an unbound name is referred to for the first time
        obtain ⟨-, hLookup⟩ := stepsBefore_of_unbound hSplit hBefore hBound
        have hName : name ∈ s.references.map Prod.fst := by
          have hMem : Step.parameter name mapping ∈ s.steps := by rw [hSplit]; simp
          exact List.mem_map.mpr ⟨(name, mapping), List.mem_filterMap.mpr ⟨_, hMem, rfl⟩, rfl⟩
        obtain ⟨m, value, payload, hFirst, hValue, hPayload⟩ := hReferences name hName
        obtain rfl : mapping = some m := Option.some.inj (hLookup.symm.trans hFirst)
        simp [hBound, hValue, hPayload] at hFails

/-! ## Queries -/

/-- A name that no argument can have is not taken by one. -/
theorem Select.not_takenByArgument {s : Select} {values : ParameterValues} {name : String}
    (h : ∀ n, name ≠ Bindings.argumentName n) : ¬ s.TakenByArgument values name := by
  rintro ⟨n, hName, -⟩
  exact h n hName

/-- **A query is generated exactly from the well-formed trees.** Where no parameter of
the tree has the name of an argument, `p` and the digits of a number, a query is
generated if and only if every node can be written and every first reference can be
sent what is supplied for it. -/
theorem generate_ok_iff {s : Select}
    (hNames : ∀ name ∈ s.references.map Prod.fst, ∀ n, name ≠ Bindings.argumentName n)
    (registry : Registry) (values : ParameterValues) (options : GeneratorOptions) :
    (∃ q, s.generate registry values options = .ok q) ↔
      s.WellFormed ⟨registry, values⟩ ∧ s.ReferencesRender values := by
  rw [Select.wellFormed_iff]
  constructor
  · rintro ⟨q, hQuery⟩
    obtain ⟨b, hRun, -⟩ := Select.generate_ok hQuery
    refine ⟨fun step hStep => ?_, ?_⟩
    · obtain ⟨c, c', hSucceeds⟩ := succeeds_of_mem hRun hStep
      exact hSucceeds.possible
    · exact referencesRender_of_run hRun fun name hName =>
        Select.not_takenByArgument (hNames name hName)
  · rintro ⟨hSteps, hReferences⟩
    obtain ⟨b, hRun⟩ := exists_run_of_possible hSteps hReferences
    obtain ⟨q, hQuery, -⟩ := Select.exists_query options hRun
    exact ⟨q, hQuery⟩

/-- A raw fragment with constants between two references to the same name, the second
of them without a mapping. -/
def Select.fragmentBetweenReferences : Select :=
  { Select.empty with
    projection := [⟨.parameter "a" .int64 (some (.json .int64)), "", ""⟩,
      ⟨.fromSql "{1} {{2}}" (.constant (.array [.int 7, .string "b"])), "", ""⟩,
      ⟨.parameter "a" .int64 none, "", ""⟩] }

/-- With a value for the name there is a query, without one there is none. -/
theorem fragmentBetweenReferences_ok :
    (∃ q, Select.fragmentBetweenReferences.generate .builtin [("a", .int 3)] = .ok q) ∧
      ¬ ∃ q, Select.fragmentBetweenReferences.generate .builtin [] = .ok q := by
  have hHeads : ∀ name ∈ Select.fragmentBetweenReferences.references.map Prod.fst,
      name.toList.head? ≠ some 'p' := by decide
  have hNames : ∀ name ∈ Select.fragmentBetweenReferences.references.map Prod.fst,
      ∀ n, name ≠ Bindings.argumentName n := by
    rintro name hName n rfl
    refine hHeads _ hName ?_
    rw [Bindings.argumentName, String.toList_append]
    rfl
  constructor
  · refine (generate_ok_iff hNames .builtin _ {}).mpr ⟨?_, ?_⟩
    · have hItems : ∀ item ∈ [Value.int 7, .string "b"],
          item.Renders (Registry.builtin.find? item.dataType) := by
        simp only [List.forall_mem_cons, List.not_mem_nil, false_implies, implies_true, and_true]
        exact ⟨⟨.json .int64, "7", rfl, rfl⟩, .json .string, "\"b\"", rfl, rfl⟩
      have hFill : (RawArguments.constant (.array [.int 7, .string "b"])).Fill
          ⟨.builtin, [("a", .int 3)]⟩ "{1} {{2}}" := ⟨_, rfl, hItems, by decide⟩
      simp [Select.fragmentBetweenReferences, Select.empty, Select.WellFormed,
        ProjectionsWellFormed, Expression.WellFormed, SourcesWellFormed, OptionalWellFormed,
        SortKeysWellFormed, hFill]
    · intro name hName
      obtain rfl : name = "a" := by
        revert name
        decide
      exact ⟨.json .int64, .int 3, .int 3, rfl, rfl, rfl⟩
  · intro h
    obtain ⟨-, hReferences⟩ := (generate_ok_iff hNames .builtin [] {}).mp h
    obtain ⟨-, value, -, -, hValue, -⟩ := hReferences "a" (by decide)
    cases hValue

end DocumentQuery
