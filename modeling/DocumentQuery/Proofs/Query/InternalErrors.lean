import DocumentQuery.Proofs.Query.Parameters

/-!
# Which internal errors a valid tree can still meet

A tree that a query has been generated from breaks no rule that can be told from
the tree. With other values one internal error is left: at the first reference to
a name the supplied value cannot be rendered, or there is no mapping to render it
with and no argument has taken the name.

Main results:

* `runSteps_error_iff` — a run fails at its first failing step.
* `Step.Succeeds.internal_iff` — the internal errors of a step that has succeeded
  on other values.
* `generate_internal_iff` — the internal errors of a valid tree.
-/

namespace DocumentQuery

/-! ## The first failing step -/

theorem runSteps_error_iff {ctx : Context} {b : Bindings} {steps : List Step} {e : QueryError} :
    runSteps ctx b steps = .error e ↔
      ∃ before step after b', steps = before ++ step :: after ∧
        runSteps ctx b before = .ok b' ∧ step.run ctx b' = .error e := by
  constructor
  · intro h
    -- induction on the steps: the first of them fails, or the rest of the run does
    induction steps generalizing b with
    | nil => cases h
    | cons step steps ih =>
      cases hStep : step.run ctx b with
      | error e' =>
        rw [runSteps_cons, hStep] at h
        obtain rfl : e' = e := Except.error.inj h
        exact ⟨[], step, steps, b, rfl, rfl, hStep⟩
      | ok b₁ =>
        rw [runSteps_cons, hStep] at h
        obtain ⟨before, step', after, b', hSplit, hBefore, hFails⟩ := ih h
        refine ⟨step :: before, step', after, b', by rw [hSplit]; rfl, ?_, hFails⟩
        rw [runSteps_cons, hStep]
        exact hBefore
  · rintro ⟨before, step, after, b', rfl, hBefore, hFails⟩
    rw [runSteps_append, hBefore]
    show runSteps ctx b' (step :: after) = .error e
    rw [runSteps_cons, hFails]
    rfl

/-- Every step of a run that succeeds has succeeded on some bindings. -/
theorem succeeds_of_mem {ctx : Context} {b b' : Bindings} {steps : List Step} {step : Step}
    (h : runSteps ctx b steps = .ok b') (hMem : step ∈ steps) :
    ∃ c c', step.Succeeds ctx c c' := by
  obtain ⟨before, after, rfl⟩ := List.append_of_mem hMem
  obtain ⟨c, -, hRest⟩ := runSteps_append_ok h
  obtain ⟨c', hStep, -⟩ := runSteps_cons_ok hRest
  exact ⟨c, c', Step.succeeds_of_run hStep⟩

/-! ## Internal errors of one step -/

/-- No payload can be made for a reference: it has no mapping, or its mapping
cannot render the value supplied. -/
def Unrenderable (values : ParameterValues) (name : String) : Option TypeMapping → Prop
  | none => True
  | some mapping => ∃ value e, values.lookup name = some value ∧ mapping.payload value = .error e

theorem Bindings.bindNamed_internal_iff {b : Bindings} {values : ParameterValues} {name : String}
    {mapping : Option TypeMapping} :
    (∃ e, b.bindNamed values name mapping = .error (.internal e)) ↔
      b.isBound (referenceTo name) = false ∧ Unrenderable values name mapping := by
  unfold Bindings.bindNamed
  cases hBound : b.isBound (referenceTo name) with
  | true => simp
  | false =>
    cases mapping with
    | none => simp [Unrenderable]
    | some mapping =>
      cases hValue : values.lookup name with
      | none => simp [Unrenderable, hValue]
      | some value => cases hPayload : mapping.payload value <;>
          simp [Unrenderable, hValue, hPayload, QueryError.ofMapping]

/-- Places are filled, or the error is the user's. -/
theorem Lowering.filled_user {sql : String} {substitutions : List String} {e : QueryError}
    (h : filled sql substitutions = .error e) : ∃ e', e = .user e' := by
  unfold filled at h
  cases hText : Template.fill sql substitutions with
  | ok text =>
    rw [hText] at h
    cases h
  | error outOfRange =>
    rw [hText] at h
    exact ⟨_, (Except.error.inj h).symm⟩

/-- Raw fragments with arguments from outside fail for the user only. -/
theorem Step.run_raw_parameter_user {ctx : Context} {b : Bindings} {sql name : String}
    {e : QueryError} (h : Step.run ctx b (.raw sql (.parameter name)) = .error e) :
    ∃ e', e = .user e' := by
  rw [Step.run, Lowering.run_fromSql] at h
  by_cases hItems : ∃ items, ctx.values.lookup name = some (.array items)
  · obtain ⟨items, hItems⟩ := hItems
    rw [Lowering.run_substitutions_parameter hItems] at h
    cases hFilled : Lowering.filled sql (b.bindArguments ctx.values items).1 with
    | ok text =>
      simp only [bind, Except.bind, hFilled, Except.map] at h
      cases h
    | error e' =>
      simp only [bind, Except.bind, hFilled, Except.map] at h
      obtain rfl : e' = e := Except.error.inj h
      exact Lowering.filled_user hFilled
  · rw [Lowering.run_substitutions_refused fun items hi => hItems ⟨items, hi⟩] at h
    exact ⟨_, (Except.error.inj h).symm⟩

/-- Constants are filled in whatever the values are. -/
theorem Step.run_raw_constants {ctx : Context} {b : Bindings} {sql text : String}
    {items : List Value} {literals : List String}
    (hLiterals : Lowering.rawLiterals ctx.registry items = .ok literals)
    (hText : Template.fill sql literals = .ok text) :
    Step.run ctx b (.raw sql (.constant (.array items))) = .ok b := by
  rw [Step.run, Lowering.run_fromSql, Lowering.run_substitutions_constant]
  simp only [Lowering.constantLiterals, hLiterals, Except.map, bind, Except.bind, Lowering.filled,
    hText]

/-- A step that has succeeded fails internally on other values only as a reference
that is unbound and cannot be rendered. -/
theorem Step.Succeeds.internal_iff {registry : Registry} {values values' : ParameterValues}
    {c c' b : Bindings} {step : Step} (h : step.Succeeds ⟨registry, values⟩ c c') :
    (∃ e, step.run ⟨registry, values'⟩ b = .error (.internal e)) ↔
      ∃ name mapping, step = .parameter name mapping ∧
        b.isBound (referenceTo name) = false ∧ Unrenderable values' name mapping := by
  constructor
  · rintro ⟨e, hFails⟩
    cases h with
    | bound => exact ⟨_, _, rfl, Bindings.bindNamed_internal_iff.mp ⟨e, hFails⟩⟩
    | named => exact ⟨_, _, rfl, Bindings.bindNamed_internal_iff.mp ⟨e, hFails⟩⟩
    | arguments =>
      -- arguments from outside may be refused, but never as an internal error
      obtain ⟨e', hUser⟩ := Step.run_raw_parameter_user hFails
      cases hUser
    | @constants sql text items literals hLiterals hText =>
      -- constants do not depend on the values: what has succeeded succeeds again
      have hRun : Step.run ⟨registry, values'⟩ b (.raw sql (.constant (.array items))) = .ok b :=
        Step.run_raw_constants hLiterals hText
      rw [hRun] at hFails
      cases hFails
  · rintro ⟨name, mapping, rfl, hReference⟩
    exact Bindings.bindNamed_internal_iff.mpr hReference

/-! ## Internal errors of a tree -/

/-- A run up to an unbound reference has met no reference to the name before. -/
theorem refersTo_false_of_unbound {ctx : Context} {b : Bindings} {steps : List Step}
    {name : String} (h : runSteps ctx {} steps = .ok b)
    (hUnbound : b.isBound (referenceTo name) = false) :
    ∀ step ∈ steps, step.refersTo name = false := by
  -- a reference that has succeeded leaves its name bound, and later steps keep it bound
  have hBound : ∀ step ∈ steps, step.refersTo name = true → b.isBound (referenceTo name) = true :=
    runSteps_induction
      (P := fun done b => ∀ step ∈ done, step.refersTo name = true →
        b.isBound (referenceTo name) = true)
      (by simp)
      (by
        intro done b step b' ih hStep step' hMem hRefers
        rcases List.mem_append.mp hMem with hOld | hNew
        · exact hStep.extends.isBound (ih step' hOld hRefers)
        · obtain rfl := List.mem_singleton.mp hNew
          cases hStep with
          | bound hBound => exact beq_iff_eq.mp hRefers ▸ hBound
          | named hFree hValue hPayload =>
            rw [← beq_iff_eq.mp hRefers, Bindings.isBound_iff]
            exact ⟨_, List.mem_append_right _ (List.mem_singleton_self _), rfl⟩
          | arguments => cases hRefers
          | constants => cases hRefers)
      h
  intro step hMem
  by_contra hRefers
  rw [hBound step hMem (by simpa using hRefers)] at hUnbound
  cases hUnbound

/-- Only the steps before the first reference stand before an unbound one. -/
theorem stepsBefore_of_unbound {s : Select} {ctx : Context} {b : Bindings}
    {before after : List Step} {name : String} {mapping : Option TypeMapping}
    (hSplit : s.steps = before ++ .parameter name mapping :: after)
    (h : runSteps ctx {} before = .ok b) (hUnbound : b.isBound (referenceTo name) = false) :
    s.stepsBefore name = before ∧ s.references.lookup name = some mapping := by
  have hSkip := refersTo_false_of_unbound h hUnbound
  have hBefore : s.stepsBefore name = before := by
    unfold Select.stepsBefore
    rw [hSplit, List.takeWhile_append_of_pos fun step hMem => by rw [hSkip step hMem]; rfl]
    simp [Step.refersTo]
  refine ⟨hBefore, ?_⟩
  have hName : name ∈ s.references.map Prod.fst := by
    unfold Select.references
    rw [hSplit, List.filterMap_append, filterMap_reference_cons, List.map_append]
    exact List.mem_append_right _ List.mem_cons_self
  -- both splits of the steps are at the same place, hence at the same reference
  obtain ⟨mapping', rest, hFirst, hLookup⟩ := exists_first_reference hName
  change s.steps = s.stepsBefore name ++ _ at hFirst
  rw [hSplit, hBefore, List.append_cancel_left_eq, List.cons.injEq, Step.parameter.injEq] at hFirst
  obtain ⟨⟨-, rfl⟩, -⟩ := hFirst
  exact hLookup

/-- **Internal errors of a valid tree.** A tree that a query has been generated from
meets an internal error with other values exactly when the run comes to the first
reference to some name, no argument has taken the name, and the reference cannot
be rendered. -/
theorem generate_internal_iff {s : Select} {registry : Registry} {values : ParameterValues}
    {options : GeneratorOptions} {q : Query} (hValid : s.generate registry values options = .ok q)
    (values' : ParameterValues) (options' : GeneratorOptions) :
    (∃ e, s.generate registry values' options' = .error (.internal e)) ↔
      ∃ name mapping b, s.references.lookup name = some mapping ∧
        runSteps ⟨registry, values'⟩ {} (s.stepsBefore name) = .ok b ∧
        ¬ s.TakenByArgument values' name ∧ Unrenderable values' name mapping := by
  -- all steps of a valid tree have succeeded once, so only a reference is left to fail
  obtain ⟨b₀, hRun, -⟩ := Select.generate_ok hValid
  constructor
  · rintro ⟨e, hFails⟩
    rw [Select.generate_error, runSteps_error_iff] at hFails
    obtain ⟨before, step, after, b, hSplit, hBefore, hStep⟩ := hFails
    have hMem : step ∈ s.steps := by
      rw [hSplit]
      exact List.mem_append_right _ List.mem_cons_self
    obtain ⟨c, c', hSucceeds⟩ := succeeds_of_mem hRun hMem
    obtain ⟨name, mapping, rfl, hUnbound, hUnrenderable⟩ :=
      (Step.Succeeds.internal_iff hSucceeds).mp ⟨e, hStep⟩
    obtain ⟨rfl, hLookup⟩ := stepsBefore_of_unbound hSplit hBefore hUnbound
    refine ⟨name, mapping, b, hLookup, hBefore, ?_, hUnrenderable⟩
    rw [← isBound_iff_takenByArgument hBefore, hUnbound]
    exact Bool.false_ne_true
  · rintro ⟨name, mapping, b, hLookup, hBefore, hFree, hUnrenderable⟩
    rw [← isBound_iff_takenByArgument hBefore, Bool.not_eq_true] at hFree
    obtain ⟨e, hStep⟩ := Bindings.bindNamed_internal_iff.mpr ⟨hFree, hUnrenderable⟩
    have hName : name ∈ s.references.map Prod.fst := by
      obtain ⟨l₁, l₂, hReferences, -⟩ := List.lookup_eq_some_iff.mp hLookup
      rw [hReferences, List.map_append]
      exact List.mem_append_right _ List.mem_cons_self
    obtain ⟨mapping', rest, hSplit, hFirst⟩ := exists_first_reference hName
    obtain rfl : mapping' = mapping := Option.some.inj (hFirst.symm.trans hLookup)
    refine ⟨e, Select.generate_error.mpr (runSteps_error_iff.mpr ?_)⟩
    exact ⟨s.stepsBefore name, _, rest, b, hSplit, hBefore, hStep⟩

/-- A vector of numbers compared with a reference that is sent as a vector. -/
def Select.distanceToReference : Select :=
  { Select.empty with
    projection := [⟨.function "VectorDistance"
      [.keyAccess (.objectReference "c") "embedding" (.array .float32) none,
        .parameter "p" (.array .float32)
          (some (.vector (.array .float32) ⟨.cosine, 3, none⟩))] .float64 none, "", ""⟩] }

/-- An array is sent as a vector; anything else is an internal error. -/
theorem distanceToReference_internal :
    (∃ q, Select.distanceToReference.generate .builtin
        [("p", .array [.int 1, .int 2, .int 3])] = .ok q) ∧
      ∃ e, Select.distanceToReference.generate .builtin [("p", .int 5)] =
        .error (.internal e) := by
  have hRun : runSteps ⟨.builtin, [("p", .array [.int 1, .int 2, .int 3])]⟩ {}
      Select.distanceToReference.steps =
      .ok ⟨[⟨"@p", .arr [.int 1, .int 2, .int 3]⟩], 0⟩ := rfl
  obtain ⟨q, hQuery, -⟩ := Select.exists_query {} hRun
  refine ⟨⟨q, hQuery⟩, (generate_internal_iff hQuery [("p", .int 5)] {}).mpr ?_⟩
  refine ⟨"p", _, {}, rfl, rfl, ?_, .int 5, _, rfl, rfl⟩
  rintro ⟨n, hName, hOpen, -⟩
  cases hOpen

/-- Values alone can make a valid tree fail internally. -/
theorem not_generate_user_error :
    ¬ ∀ (s : Select) (registry : Registry) (options : GeneratorOptions)
        (values values' : ParameterValues) (q : Query),
      s.generate registry values options = .ok q →
      ∀ e, s.generate registry values' options ≠ .error (.internal e) := by
  intro h
  have hRun : runSteps ⟨.builtin, [("p", .array [.int 1, .int 2, .int 3])]⟩ {}
      Select.distanceToReference.steps =
      .ok ⟨[⟨"@p", .arr [.int 1, .int 2, .int 3]⟩], 0⟩ := rfl
  obtain ⟨q, hQuery, -⟩ := Select.exists_query {} hRun
  refine h _ _ _ _ [("p", .int 5)] q hQuery
    (.mapping ⟨.array .float32, .int64⟩) (Select.generate_error.mpr ?_)
  rfl

end DocumentQuery
