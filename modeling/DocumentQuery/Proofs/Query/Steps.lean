import DocumentQuery.Proofs.Outcome
import DocumentQuery.Query.Lowering

/-!
# Queries step by step

Lowering a tree changes the bindings at two kinds of nodes only: references to
parameters and raw fragments. `Select.steps` lists these nodes in the order in
which they are visited (projections, source, predicate, orderings, offset, limit;
children from left to right), together with the faults that make lowering stop.

Every node of the tree is listed, also behind a fault: a fault ends the run
whatever stands behind it.

Main results:

* `Select.lower_stepwise` — a relation between computations that is kept by
  sequencing, and holds at the listed nodes, holds of lowering: the one induction
  over trees.
* `Select.lower_bindings` — lowering a tree and running its steps bind the same
  parameters and fail with the same error.
* `Select.generate_bindings` — hence a query is generated exactly when the steps
  run (`Select.generate_ok`, `Select.exists_query`), and carries the parameters
  that they bind.
-/

namespace DocumentQuery

/-! ## Steps -/

/-- What lowering does to the bindings at one node. -/
inductive Step where
  /-- A node that nothing can be written for. -/
  | fail (e : QueryError)
  | parameter (name : String) (mapping : Option TypeMapping)
  | raw (sql : String) (arguments : RawArguments)

namespace Step

/-- Carries out one step. -/
def run (ctx : Context) (b : Bindings) : Step → Except QueryError Bindings
  | .fail e => .error e
  | .parameter name mapping => b.bindNamed ctx.values name mapping
  | .raw sql arguments => ((Lowering.fromSql ctx sql arguments).run b).map Prod.snd

/-- A fault unless a condition holds. -/
def require (condition : Bool) (e : QueryError) : List Step :=
  if condition then [] else [.fail e]

def ofBinary (operator : BinaryOperator) (left : DataType) : List Step :=
  require (operator = .arrayIndex || (operator.tokenFor? left).isSome)
    (.internal (.unsupportedBinaryOperator operator))

def ofUnary (operator : UnaryOperator) (operand : DataType) : List Step :=
  require (operator.token? operand).isSome (.internal (.unsupportedUnaryOperator operator))

def ofConstant (value : Value) : Option TypeMapping → List Step
  | none => [.fail (.internal (.missingTypeMapping .constant))]
  | some mapping =>
    match mapping.literal value with
    | .ok _ => []
    | .error e => [.fail (.ofMapping e)]

def ofMembership (hasValues : Bool) : Option String → List Step
  | some name => [.fail (.internal (.unexpandedInValues name))]
  | none => require hasValues (.internal .missingInValues)

end Step

/-- Carries out steps in their order, up to the first that fails. -/
def runSteps (ctx : Context) (b : Bindings) (steps : List Step) : Except QueryError Bindings :=
  steps.foldlM (Step.run ctx) b

mutual

/-- The steps of an expression. -/
def Expression.steps : Expression → List Step
  | .select select => select.steps
  | .objectReference _ => []
  | .scalarReference _ _ => []
  | .keyAccess object _ _ _ => object.steps
  | .objectAccess object _ => object.steps
  | .entityProjection access => access.steps
  | .objectArrayProjection access => access.steps
  | .binary operator left right _ _ =>
    Step.ofBinary operator left.dataType ++ (left.steps ++ right.steps)
  | .unary operator operand _ _ => Step.ofUnary operator operand.dataType ++ operand.steps
  | .conditional test ifTrue ifFalse _ _ => test.steps ++ (ifTrue.steps ++ ifFalse.steps)
  | .function _ arguments _ _ => stepsOfAll arguments
  | .constant value _ mapping => Step.ofConstant value mapping
  | .parameter name _ mapping => [.parameter name mapping]
  | .isIn item none valuesParameter => Step.ofMembership false valuesParameter ++ item.steps
  | .isIn item (some values) valuesParameter =>
    Step.ofMembership true valuesParameter ++ (item.steps ++ stepsOfAll values)
  | .arrayConstant items => stepsOfAll items
  | .exists subquery => subquery.steps
  | .array subquery => subquery.steps
  | .scalarSubquery subquery => subquery.steps
  | .fromSql sql arguments => [.raw sql arguments]
termination_by structural e => e

def stepsOfAll : List Expression → List Step
  | [] => []
  | e :: es => e.steps ++ stepsOfAll es
termination_by structural es => es

def stepsOfOptional : Option Expression → List Step
  | none => []
  | some e => e.steps
termination_by structural e => e

/-- The steps of a select. -/
def Select.steps : Select → List Step
  | ⟨_, projection, singleValue, sources, predicate, orderings, offset, limit⟩ =>
    Step.require (!(singleValue && projection.length > 1))
        (.internal (.singleValueArity projection.length)) ++
      (stepsOfProjections projection ++
      (Step.require (sources.length ≤ 1) (.internal .joinsNotSupported) ++
        stepsOfSources sources ++
      (stepsOfOptional predicate ++
      (stepsOfSortKeys orderings ++
      (stepsOfOptional offset ++ (stepsOfOptional limit ++
        Step.require (offset.isNone || limit.isSome) (.user .offsetRequiresLimit)))))))
termination_by structural s => s

def stepsOfProjections : List Projection → List Step
  | [] => []
  | ⟨expression, _, _⟩ :: ps => expression.steps ++ stepsOfProjections ps
termination_by structural ps => ps

def stepsOfSources : List Source → List Step
  | [] => []
  | ⟨container, aliasName, eachItem⟩ :: ss =>
    Step.require (!eachItem || aliasName.isSome) (.internal .eachItemRequiresAlias) ++
      container.steps ++ stepsOfSources ss
termination_by structural ss => ss

def stepsOfSortKeys : List SortKey → List Step
  | [] => []
  | ⟨expression, _⟩ :: ks => expression.steps ++ stepsOfSortKeys ks
termination_by structural ks => ks

end

/-! ## Relations kept by lowering -/

/-- A relation between computations in two contexts that write the same text, and
the steps they take: it is kept by sequencing, and holds at every kind of node. -/
structure StepRelation (ctx ctx' : Context)
    (R : ∀ α : Type, List Step → Lowering α → Lowering α → Prop) : Prop where
  pure : ∀ {α : Type} (a : α), R α [] (Pure.pure a) (Pure.pure a)
  fail : ∀ {α : Type} (e : QueryError) (steps : List Step),
    R α (.fail e :: steps) (throw e) (throw e)
  bind : ∀ {α β : Type} {steps steps' : List Step} {m m' : Lowering α} {f f' : α → Lowering β},
    R α steps m m' → (∀ a, R β steps' (f a) (f' a)) →
      R β (steps ++ steps') (m >>= f) (m' >>= f')
  parameter : ∀ (name : String) (mapping : Option TypeMapping),
    R Layout [.parameter name mapping] (Lowering.parameter ctx.values name mapping)
      (Lowering.parameter ctx'.values name mapping)
  raw : ∀ (sql : String) (arguments : RawArguments),
    R Layout [.raw sql arguments] (Lowering.fromSql ctx sql arguments)
      (Lowering.fromSql ctx' sql arguments)

namespace StepRelation

variable {ctx ctx' : Context} {R : ∀ α : Type, List Step → Lowering α → Lowering α → Prop}

/-- A computation followed by one without steps. -/
theorem bind_pure (hR : StepRelation ctx ctx' R) {α β : Type} {steps : List Step}
    {m m' : Lowering α} {f f' : α → Lowering β} (hm : R α steps m m')
    (hf : ∀ a, R β [] (f a) (f' a)) : R β steps (m >>= f) (m' >>= f') := by
  have h := hR.bind hm hf
  rwa [List.append_nil] at h

theorem constant (hR : StepRelation ctx ctx' R) (value : Value) (mapping : Option TypeMapping) :
    R Layout (Step.ofConstant value mapping) (Lowering.constant value mapping)
      (Lowering.constant value mapping) := by
  cases mapping with
  | none => exact hR.fail _ []
  | some mapping =>
    cases h : mapping.literal value with
    | ok literal =>
      simp only [Step.ofConstant, Lowering.constant, h]
      exact hR.pure _
    | error e =>
      simp only [Step.ofConstant, Lowering.constant, h]
      exact hR.fail _ []

theorem binary (hR : StepRelation ctx ctx' R) (operator : BinaryOperator) (leftType : DataType)
    {left left' right right' : Lowering Layout} {ls rs : List Step}
    (hl : R Layout ls left left') (hr : R Layout rs right right') :
    R Layout (Step.ofBinary operator leftType ++ (ls ++ rs))
      (Lowering.binary operator leftType left right)
      (Lowering.binary operator leftType left' right') := by
  unfold Lowering.binary Step.ofBinary Step.require
  by_cases hIndex : operator = .arrayIndex
  · simp only [hIndex, if_true, decide_true, Bool.true_or, List.nil_append]
    exact hR.bind hl fun _ => hR.bind_pure hr fun _ => hR.pure _
  · cases hToken : operator.tokenFor? leftType with
    | none =>
      simp only [hIndex, if_false, decide_false, Option.isSome_none, Bool.or_self,
        Bool.false_eq_true]
      exact hR.fail _ _
    | some token =>
      simp only [hIndex, if_false, decide_false, Option.isSome_some, Bool.or_true, if_true,
        List.nil_append]
      exact hR.bind hl fun _ => hR.bind_pure hr fun _ => hR.pure _

theorem unary (hR : StepRelation ctx ctx' R) (operator : UnaryOperator) (operandType : DataType)
    {operand operand' : Lowering Layout} {steps : List Step} (h : R Layout steps operand operand') :
    R Layout (Step.ofUnary operator operandType ++ steps)
      (Lowering.unary operator operandType operand)
      (Lowering.unary operator operandType operand') := by
  unfold Lowering.unary Step.ofUnary Step.require
  cases operator.token? operandType with
  | none => exact hR.fail _ _
  | some token =>
    simp only [Option.isSome_some, if_true, List.nil_append]
    exact hR.bind_pure h fun _ => hR.pure _

theorem membership_none (hR : StepRelation ctx ctx' R) (negated : Bool)
    (valuesParameter : Option String) (item item' : Lowering Layout) (steps : List Step) :
    R Layout (Step.ofMembership false valuesParameter ++ steps)
      (Lowering.membership negated valuesParameter item none)
      (Lowering.membership negated valuesParameter item' none) := by
  cases valuesParameter with
  | none => exact hR.fail _ _
  | some name => exact hR.fail _ _

theorem membership_some (hR : StepRelation ctx ctx' R) (negated : Bool)
    (valuesParameter : Option String) {item item' : Lowering Layout}
    {values values' : Lowering (List Layout)} {is vs : List Step}
    (hi : R Layout is item item') (hv : R (List Layout) vs values values') :
    R Layout (Step.ofMembership true valuesParameter ++ (is ++ vs))
      (Lowering.membership negated valuesParameter item (some values))
      (Lowering.membership negated valuesParameter item' (some values')) := by
  cases valuesParameter with
  | none =>
    show R Layout (is ++ vs) _ _
    exact hR.bind hi fun _ => hR.bind_pure hv fun _ => hR.pure _
  | some name => exact hR.fail _ _

theorem subquery (hR : StepRelation ctx ctx' R) (opening : String)
    {select select' : Lowering Layout} {steps : List Step} (h : R Layout steps select select') :
    R Layout steps (Lowering.subquery opening select) (Lowering.subquery opening select') :=
  hR.bind_pure h fun _ => hR.pure _

theorem derivedSource (hR : StepRelation ctx ctx' R) (isSimple : Bool)
    {select select' : Lowering Layout} {steps : List Step} (h : R Layout steps select select') :
    R Layout steps (Lowering.derivedSource isSimple select)
      (Lowering.derivedSource isSimple select') := by
  cases isSimple with
  | false => exact hR.subquery _ h
  | true => exact hR.bind_pure h fun _ => hR.pure _

theorem source (hR : StepRelation ctx ctx' R) (aliasName : Option String) (eachItem : Bool)
    {container container' : Lowering Layout} {steps : List Step}
    (h : R Layout steps container container') :
    R Layout (Step.require (!eachItem || aliasName.isSome) (.internal .eachItemRequiresAlias) ++
        steps)
      (Lowering.source aliasName eachItem container)
      (Lowering.source aliasName eachItem container') := by
  cases eachItem with
  | false =>
    cases aliasName with
    | none => exact h
    | some aliasName => exact hR.bind_pure h fun _ => hR.pure _
  | true =>
    cases aliasName with
    | none => exact hR.fail _ _
    | some aliasName => exact hR.bind_pure h fun _ => hR.pure _

theorem optional (hR : StepRelation ctx ctx' R) {e : Option Expression}
    (h : ∀ x ∈ e, R Layout x.steps (x.lower ctx) (x.lower ctx')) :
    R (Option Layout) (stepsOfOptional e) (lowerOptional ctx e) (lowerOptional ctx' e) := by
  cases e with
  | none => exact hR.pure _
  | some e => exact hR.bind_pure (h e rfl) fun _ => hR.pure _

/-- Whether there is an offset or a limit is known before anything is lowered. -/
theorem paging (hR : StepRelation ctx ctx' R) {offset limit : Option Expression}
    (ho : ∀ e ∈ offset, R Layout e.steps (e.lower ctx) (e.lower ctx'))
    (hl : ∀ e ∈ limit, R Layout e.steps (e.lower ctx) (e.lower ctx')) :
    R Layout (stepsOfOptional offset ++ (stepsOfOptional limit ++
        Step.require (offset.isNone || limit.isSome) (.user .offsetRequiresLimit)))
      (Lowering.paging (lowerOptional ctx offset) (lowerOptional ctx limit))
      (Lowering.paging (lowerOptional ctx' offset) (lowerOptional ctx' limit)) := by
  unfold Lowering.paging
  cases offset with
  | none =>
    cases limit with
    | none => exact hR.pure []
    | some limit =>
      simp only [lowerOptional, pure_bind, bind_assoc]
      show R Layout (limit.steps ++ []) _ _
      exact hR.bind (hl limit rfl) fun _ => hR.pure _
  | some offset =>
    cases limit with
    | none =>
      simp only [lowerOptional, pure_bind, bind_assoc]
      exact hR.bind (ho offset rfl) fun _ => hR.fail _ []
    | some limit =>
      simp only [lowerOptional, pure_bind, bind_assoc]
      exact hR.bind (ho offset rfl) fun _ => hR.bind (hl limit rfl) fun _ => hR.pure _

end StepRelation

section Stepwise

variable {ctx ctx' : Context} {R : ∀ α : Type, List Step → Lowering α → Lowering α → Prop}

mutual

theorem Expression.lower_stepwise (hR : StepRelation ctx ctx' R) :
    ∀ e : Expression, R Layout e.steps (e.lower ctx) (e.lower ctx')
  | .select select => Select.lower_stepwise hR select
  | .objectReference _ => hR.pure _
  | .scalarReference _ _ => hR.pure _
  | .keyAccess object _ _ _ =>
    hR.bind_pure (Expression.lower_stepwise hR object) fun _ => hR.pure _
  | .objectAccess object _ =>
    hR.bind_pure (Expression.lower_stepwise hR object) fun _ => hR.pure _
  | .entityProjection access => Expression.lower_stepwise hR access
  | .objectArrayProjection access => Expression.lower_stepwise hR access
  | .binary operator left right _ _ =>
    hR.binary operator _ (Expression.lower_stepwise hR left) (Expression.lower_stepwise hR right)
  | .unary operator operand _ _ => by
    -- a negated membership is written `NOT IN`, past the node of the membership itself; the
    -- steps are the same, as `ofUnary` requires nothing there
    have h := hR.unary operator operand.dataType (Expression.lower_stepwise hR operand)
    cases operator with
    | not =>
      cases operand with
      | isIn item values valuesParameter =>
        cases values with
        | none => exact hR.membership_none true valuesParameter _ _ _
        | some values =>
          exact hR.membership_some true valuesParameter (Expression.lower_stepwise hR item)
            (lowerAll_stepwise hR values)
      | _ => exact h
    | _ => exact h
  | .conditional test ifTrue ifFalse _ _ =>
    hR.bind (Expression.lower_stepwise hR test) fun _ =>
      hR.bind (Expression.lower_stepwise hR ifTrue) fun _ =>
        hR.bind_pure (Expression.lower_stepwise hR ifFalse) fun _ => hR.pure _
  | .function _ arguments _ _ =>
    hR.bind_pure (lowerAll_stepwise hR arguments) fun _ => hR.pure _
  | .constant value _ mapping => hR.constant value mapping
  | .parameter name _ mapping => hR.parameter name mapping
  | .isIn item none valuesParameter => hR.membership_none false valuesParameter _ _ _
  | .isIn item (some values) valuesParameter =>
    hR.membership_some false valuesParameter (Expression.lower_stepwise hR item)
      (lowerAll_stepwise hR values)
  | .arrayConstant items => hR.bind_pure (lowerAll_stepwise hR items) fun _ => hR.pure _
  | .exists subquery => hR.subquery _ (Select.lower_stepwise hR subquery)
  | .array subquery => hR.subquery _ (Select.lower_stepwise hR subquery)
  | .scalarSubquery subquery => hR.subquery _ (Select.lower_stepwise hR subquery)
  | .fromSql sql arguments => hR.raw sql arguments
termination_by structural e => e

theorem lowerAll_stepwise (hR : StepRelation ctx ctx' R) :
    ∀ es : List Expression, R (List Layout) (stepsOfAll es) (lowerAll ctx es) (lowerAll ctx' es)
  | [] => hR.pure _
  | e :: es =>
    hR.bind (Expression.lower_stepwise hR e) fun _ =>
      hR.bind_pure (lowerAll_stepwise hR es) fun _ => hR.pure _
termination_by structural es => es

theorem lowerOptional_stepwise (hR : StepRelation ctx ctx' R) :
    ∀ e : Option Expression, ∀ x ∈ e, R Layout x.steps (x.lower ctx) (x.lower ctx')
  | none => nofun
  | some e => by
    rintro x ⟨⟩
    exact Expression.lower_stepwise hR e
termination_by structural e => e

theorem Select.lower_stepwise (hR : StepRelation ctx ctx' R) :
    ∀ s : Select, R Layout s.steps (s.lower ctx) (s.lower ctx')
  | ⟨isDistinct, projection, singleValue, sources, predicate, orderings, offset, limit⟩ => by
    have hSources := lowerSources_stepwise hR sources
    have hPredicate := hR.optional (lowerOptional_stepwise hR predicate)
    have hOrderings := lowerSortKeys_stepwise hR orderings
    have hPaging := hR.paging (lowerOptional_stepwise hR offset) (lowerOptional_stepwise hR limit)
    have hProjections := lowerProjections_stepwise hR (.of singleValue projection) projection
    rw [Select.lower, Select.lower, Select.steps]
    cases hArity : singleValue && decide (projection.length > 1) with
    -- the arity is checked before anything is lowered
    | true => exact hR.fail _ _
    | false =>
      simp only [Bool.false_eq_true, if_false, Bool.not_false, Step.require, if_true,
        List.nil_append]
      cases hEmpty : projection.isEmpty with
      | true =>
        rw [List.isEmpty_iff] at hEmpty
        -- nothing is projected: lowering writes the constant `1` in place of the list, which
        -- has no steps either
        subst hEmpty
        exact hR.bind (hR.pure _) fun _ => hR.bind hSources fun _ => hR.bind hPredicate fun _ =>
          hR.bind hOrderings fun _ => hR.bind_pure hPaging fun _ => hR.pure _
      | false =>
        simp only [Bool.false_eq_true, if_false, pure_bind]
        exact hR.bind hProjections fun _ => hR.bind hSources fun _ => hR.bind hPredicate fun _ =>
          hR.bind hOrderings fun _ => hR.bind_pure hPaging fun _ => hR.pure _
termination_by structural s => s

theorem lowerProjections_stepwise (hR : StepRelation ctx ctx' R) (style : ProjectionStyle) :
    ∀ ps : List Projection, R (List Layout) (stepsOfProjections ps)
      (lowerProjections ctx style ps) (lowerProjections ctx' style ps)
  | [] => hR.pure _
  | ⟨expression, _, _⟩ :: ps =>
    hR.bind (Expression.lower_stepwise hR expression) fun _ =>
      hR.bind_pure (lowerProjections_stepwise hR style ps) fun _ => hR.pure _
termination_by structural ps => ps

theorem lowerSources_stepwise (hR : StepRelation ctx ctx' R) :
    ∀ ss : List Source,
      R Layout (Step.require (ss.length ≤ 1) (.internal .joinsNotSupported) ++ stepsOfSources ss)
        (lowerSources ctx ss) (lowerSources ctx' ss)
  | [] => hR.pure _
  | [⟨container, aliasName, eachItem⟩] => by
    have ih := Expression.lower_stepwise hR container
    show R Layout ((Step.require _ _ ++ _) ++ []) _ _
    rw [List.append_nil]
    cases container with
    | select select =>
      exact hR.bind_pure (hR.source _ _ (hR.derivedSource _ ih)) fun _ => hR.pure _
    | _ => exact hR.bind_pure (hR.source _ _ ih) fun _ => hR.pure _
  | s :: s' :: ss => by
    -- two sources and more are refused before the first of them is lowered
    have h : decide ((s :: s' :: ss).length ≤ 1) = false := by simp
    rw [h, lowerSources, lowerSources]
    exact hR.fail _ _
termination_by structural ss => ss

theorem lowerSortKeys_stepwise (hR : StepRelation ctx ctx' R) :
    ∀ ks : List SortKey,
      R (List Layout) (stepsOfSortKeys ks) (lowerSortKeys ctx ks) (lowerSortKeys ctx' ks)
  | [] => hR.pure _
  | ⟨expression, _⟩ :: ks =>
    hR.bind (Expression.lower_stepwise hR expression) fun _ =>
      hR.bind_pure (lowerSortKeys_stepwise hR ks) fun _ => hR.pure _
termination_by structural ks => ks

end

end Stepwise

/-! ## Lowering and its steps -/

@[simp] theorem runSteps_nil (ctx : Context) (b : Bindings) : runSteps ctx b [] = .ok b := rfl

theorem runSteps_cons (ctx : Context) (b : Bindings) (step : Step) (steps : List Step) :
    runSteps ctx b (step :: steps) = step.run ctx b >>= fun b' => runSteps ctx b' steps :=
  List.foldlM_cons

theorem runSteps_append (ctx : Context) (b : Bindings) (steps steps' : List Step) :
    runSteps ctx b (steps ++ steps') =
      runSteps ctx b steps >>= fun b' => runSteps ctx b' steps' :=
  List.foldlM_append

theorem Lowering.run_parameter (values : ParameterValues) (name : String)
    (mapping : Option TypeMapping) (b : Bindings) :
    (Lowering.parameter values name mapping).run b =
      (b.bindNamed values name mapping).map fun b' => ([.text (referenceTo name)], b') := by
  unfold Lowering.parameter
  simp only [StateT.run_bind, StateT.run_get, pure_bind, StateT.run_monadLift, bind_assoc]
  cases b.bindNamed values name mapping <;> rfl

/-- The bindings that a computation ends with are those of its steps. -/
theorem stepRelation_bindings (ctx : Context) :
    StepRelation ctx ctx fun _ steps m _ =>
      ∀ b : Bindings, (m.run b).map Prod.snd = runSteps ctx b steps where
  pure _ _ := rfl
  fail _ _ _ := rfl
  bind {_ _ steps steps' m _ f _} hm hf b := by
    -- by `hm`, the first steps fail where `m` does, and else leave the bindings `r.2` that `f`
    -- starts from
    rw [runSteps_append, ← hm b, StateT.run_bind]
    cases m.run b with
    | error e => rfl
    | ok r => exact hf r.1 r.2
  parameter name mapping b := by
    rw [runSteps_cons, Lowering.run_parameter]
    simp only [Step.run]
    cases b.bindNamed ctx.values name mapping <;> rfl
  raw sql arguments b := by
    rw [runSteps_cons]
    simp only [Step.run]
    cases (Lowering.fromSql ctx sql arguments).run b <;> rfl

theorem Select.lower_bindings (ctx : Context) (s : Select) (b : Bindings) :
    ((s.lower ctx).run b).map Prod.snd = runSteps ctx b s.steps :=
  Select.lower_stepwise (stepRelation_bindings ctx) s b

theorem Select.generate_eq (s : Select) (registry : Registry) (values : ParameterValues)
    (options : GeneratorOptions) :
    s.generate registry values options = ((s.lower ⟨registry, values⟩).run {}).map fun r =>
      { text := r.1.render options.indentSize, parameters := r.2.parameters } := by
  unfold generate
  cases (s.lower ⟨registry, values⟩).run {} <;> rfl

/-- The parameters of a query, or why there is none, are read off the steps. -/
theorem Select.generate_bindings (s : Select) (registry : Registry) (values : ParameterValues)
    (options : GeneratorOptions) :
    (s.generate registry values options).map Query.parameters =
      (runSteps ⟨registry, values⟩ {} s.steps).map Bindings.parameters := by
  rw [← Select.lower_bindings, generate_eq]
  cases (s.lower ⟨registry, values⟩).run {} <;> rfl

theorem Select.generate_ok {s : Select} {registry : Registry} {values : ParameterValues}
    {options : GeneratorOptions} {q : Query} (h : s.generate registry values options = .ok q) :
    ∃ b, runSteps ⟨registry, values⟩ {} s.steps = .ok b ∧ q.parameters = b.parameters := by
  rw [generate_eq, map_eq_ok] at h
  obtain ⟨r, hLower, rfl⟩ := h
  refine ⟨r.2, ?_, rfl⟩
  rw [← lower_bindings, hLower]
  rfl

theorem Select.exists_query {s : Select} {registry : Registry} {values : ParameterValues}
    (options : GeneratorOptions) {b : Bindings}
    (h : runSteps ⟨registry, values⟩ {} s.steps = .ok b) :
    ∃ q, s.generate registry values options = .ok q ∧ q.parameters = b.parameters := by
  rw [← lower_bindings, map_eq_ok] at h
  obtain ⟨r, hLower, rfl⟩ := h
  refine ⟨⟨r.1.render options.indentSize, r.2.parameters⟩, ?_, rfl⟩
  rw [generate_eq, hLower]
  rfl

theorem Select.generate_error {s : Select} {registry : Registry} {values : ParameterValues}
    {options : GeneratorOptions} {e : QueryError} :
    s.generate registry values options = .error e ↔
      runSteps ⟨registry, values⟩ {} s.steps = .error e := by
  have hSteps := s.generate_bindings registry values options
  cases hQuery : s.generate registry values options <;>
    cases hRun : runSteps ⟨registry, values⟩ {} s.steps <;>
    rw [hQuery, hRun] at hSteps <;> simp_all [Except.map]

end DocumentQuery
