import DocumentQuery.Proofs.Query.Independence
import DocumentQuery.Proofs.Query.Parameters
import DocumentQuery.Proofs.Text.Places

/-!
# Values that a tree does not mention

A value can be supplied under a name that no node of the tree looks up. It is sent
nowhere; but an argument of a raw fragment passes over its name, if it is some `pN`, and
takes a later number. So it may change the names in a query, though never what is sent in
which order, nor whether there is a query.

Main definitions:

* `AddedName` — the names for which a further value is supplied.
* `Bindings.SamePayloads` — bindings that differ in the names of arguments at most; the
  invariant of the two runs.

Main results:

* `Select.generate_congr_values` — what a query depends on.
* `runSteps_matches` — the run lemma.
* `generate_irrelevant_values` — further values do not matter.
-/

namespace DocumentQuery

/-- A value is supplied under the name in `values'`, but not in `values`. -/
def AddedName (values values' : ParameterValues) (name : String) : Prop :=
  values.lookup name = none ∧ (values'.lookup name).isSome = true

/-- What is supplied in `values` is supplied in `values'`, too. -/
def Supplements (values values' : ParameterValues) : Prop :=
  ∀ name value, values.lookup name = some value → values'.lookup name = some value

variable {values values' : ParameterValues}

theorem Supplements.lookup_eq (h : Supplements values values') {name : String}
    (hNot : ¬ AddedName values values' name) : values.lookup name = values'.lookup name := by
  cases hValue : values.lookup name with
  | some value => exact (h name value hValue).symm
  | none =>
    cases hValue' : values'.lookup name with
    | none => rfl
    | some value' => exact absurd ⟨hValue, by rw [hValue']; rfl⟩ hNot

theorem Supplements.supplied (h : Supplements values values') {name : String}
    (hSupplied : (values.lookup name).isSome = true) :
    values.lookup name = values'.lookup name := by
  refine h.lookup_eq fun hAdded => ?_
  rw [hAdded.1] at hSupplied
  cases hSupplied

theorem supplements_append (values added : ParameterValues) :
    Supplements values (values ++ added) := by
  intro name value hValue
  rw [List.lookup_append, hValue]
  rfl

theorem AddedName.mem {added : ParameterValues} {name : String}
    (h : AddedName values (values ++ added) name) : name ∈ added.map Prod.fst := by
  have hSupplied := h.2
  rw [List.lookup_append, h.1, Option.none_or, List.lookup_isSome_iff] at hSupplied
  obtain ⟨entry, hEntry, hName⟩ := hSupplied
  exact List.mem_map.mpr ⟨entry, hEntry, (beq_iff_eq.mp hName).symm⟩

/-! ## What a query depends on -/

/-- Arguments are bound under the same names if values are supplied for the same ones among
these names. -/
theorem Bindings.bindArguments_congr
    (h : ∀ n, (values.lookup (argumentName n)).isSome = (values'.lookup (argumentName n)).isSome)
    (b : Bindings) (items : List Value) :
    b.bindArguments values items = b.bindArguments values' items := by
  induction items generalizing b with
  | nil => rfl
  | cons value rest ih =>
    have hIndex : b.freeIndex values = b.freeIndex values' := by
      refine freeIndex_congr rfl fun n => ?_
      rw [isTaken, isTaken, h]
    simp only [Bindings.bindArguments, Bindings.bindArgument, hIndex, ih]

/-- Computations are equal if the names that their steps look up have the same values. -/
theorem stepRelation_congr (registry : Registry)
    (hArguments : ∀ n, (values.lookup (Bindings.argumentName n)).isSome =
      (values'.lookup (Bindings.argumentName n)).isSome) :
    StepRelation ⟨registry, values⟩ ⟨registry, values'⟩ fun _ steps m m' =>
      (∀ name ∈ (steps.filterMap Step.reference?).map Prod.fst,
        values.lookup name = values'.lookup name) →
      (∀ name ∈ steps.filterMap Step.arrayName?, values.lookup name = values'.lookup name) →
      m = m' where
  pure _ _ _ := rfl
  fail _ _ _ _ := rfl
  bind hm hf hReferences hArrays := by
    -- the names of both parts are among the names of the whole
    rw [List.filterMap_append, List.map_append, List.forall_mem_append] at hReferences
    rw [List.filterMap_append, List.forall_mem_append] at hArrays
    rw [hm hReferences.1 hArrays.1]
    exact congrArg _ (funext fun a => hf a hReferences.2 hArrays.2)
  parameter name mapping hReferences _ := by
    have hValue := hReferences name (List.mem_singleton_self _)
    unfold Lowering.parameter Bindings.bindNamed
    rw [hValue]
  raw sql arguments _ hArrays := by
    have hSubstitutions : Lowering.substitutions ⟨registry, values⟩ arguments =
        Lowering.substitutions ⟨registry, values'⟩ arguments := by
      cases arguments with
      | constant value => cases value <;> rfl
      | parameter name =>
        have hValue := hArrays name (List.mem_singleton_self _)
        simp only [Lowering.substitutions, hValue, Bindings.bindArguments_congr hArguments]
    unfold Lowering.fromSql
    rw [hSubstitutions]

/-- A query depends on the values under the names that its tree looks up, and on which of
the names `pN` are supplied. -/
theorem Select.generate_congr_values {s : Select}
    (hReferences : ∀ name ∈ s.references.map Prod.fst, values.lookup name = values'.lookup name)
    (hArrays : ∀ name ∈ s.arrayNames, values.lookup name = values'.lookup name)
    (hArguments : ∀ n, (values.lookup (Bindings.argumentName n)).isSome =
      (values'.lookup (Bindings.argumentName n)).isSome)
    (registry : Registry) (options : GeneratorOptions) :
    s.generate registry values options = s.generate registry values' options := by
  rw [generate_eq, generate_eq,
    s.lower_stepwise (stepRelation_congr registry hArguments) hReferences hArrays]

/-! ## Bindings with the same payloads -/

namespace Bindings

theorem isBound_bind (b : Bindings) (reference reference' : String) (payload : Json) :
    (b.bind reference payload).isBound reference' =
      (b.isBound reference' || reference == reference') := by
  simp [bind, isBound]

/-- The same payloads are bound in the same order, and of the names for which `values`
supplies values the same ones are bound. -/
structure SamePayloads (values : ParameterValues) (b b' : Bindings) : Prop where
  payloads : b.parameters.map Parameter.value = b'.parameters.map Parameter.value
  bound : ∀ name, (values.lookup name).isSome = true →
    b.isBound (referenceTo name) = b'.isBound (referenceTo name)

variable {b b' : Bindings}

theorem SamePayloads.refl (values : ParameterValues) (b : Bindings) : SamePayloads values b b :=
  ⟨rfl, fun _ _ => rfl⟩

theorem payloads_bind (h : b.parameters.map Parameter.value = b'.parameters.map Parameter.value)
    (reference reference' : String) (payload : Json) :
    (b.bind reference payload).parameters.map Parameter.value =
      (b'.bind reference' payload).parameters.map Parameter.value := by
  simp [Bindings.bind, h]

/-- One name is bound in both. -/
theorem SamePayloads.bind (h : SamePayloads values b b') (reference : String) (payload : Json) :
    SamePayloads values (b.bind reference payload) (b'.bind reference payload) := by
  refine ⟨payloads_bind h.payloads reference reference payload, fun name hName => ?_⟩
  rw [isBound_bind, isBound_bind, h.bound name hName]

theorem lookup_freeIndex (b : Bindings) (values : ParameterValues) :
    values.lookup (argumentName (b.freeIndex values)) = none := by
  have hFree := b.freeIndex_free values
  rw [isTaken, Bool.or_eq_false_iff] at hFree
  simpa using hFree.2

/-- A name for which a value is supplied is not taken for an argument. -/
theorem isBound_bindArgument (b : Bindings) (value : Value) {name : String}
    (hName : (values.lookup name).isSome = true) :
    (b.bindArgument values value).2.isBound (referenceTo name) = b.isBound (referenceTo name) := by
  have hNe : argumentName (b.freeIndex values) ≠ name := by
    rintro rfl
    rw [lookup_freeIndex] at hName
    cases hName
  have hReference : (referenceTo (argumentName (b.freeIndex values)) == referenceTo name) =
      false := beq_false_of_ne fun hEq => hNe (referenceTo_injective hEq)
  show (b.bind _ _).isBound (referenceTo name) = _
  rw [isBound_bind, hReference, Bool.or_false]

/-- An argument may get another number in the second run; neither takes a name for which a
value is supplied in the first one. -/
theorem SamePayloads.bindArgument (hValues : Supplements values values')
    (h : SamePayloads values b b') (value : Value) :
    SamePayloads values (b.bindArgument values value).2 (b'.bindArgument values' value).2 := by
  refine ⟨payloads_bind h.payloads _ _ _, fun name hName => ?_⟩
  have hName' : (values'.lookup name).isSome = true := by rwa [← hValues.supplied hName]
  rw [b.isBound_bindArgument value hName, b'.isBound_bindArgument value hName', h.bound name hName]

theorem SamePayloads.bindArguments (hValues : Supplements values values')
    (h : SamePayloads values b b') (items : List Value) :
    (b.bindArguments values items).1.length = (b'.bindArguments values' items).1.length ∧
      SamePayloads values (b.bindArguments values items).2 (b'.bindArguments values' items).2 := by
  induction items generalizing b b' with
  | nil => exact ⟨rfl, h⟩
  | cons value rest ih =>
    obtain ⟨hLength, hRest⟩ := ih (h.bindArgument hValues value)
    exact ⟨congrArg Nat.succ hLength, hRest⟩

theorem SamePayloads.bindNamed (h : SamePayloads values b b') (hValues : Supplements values values')
    {name : String} (hName : (values.lookup name).isSome = true) (mapping : Option TypeMapping) :
    Matches (SamePayloads values) (b.bindNamed values name mapping)
      (b'.bindNamed values' name mapping) := by
  unfold Bindings.bindNamed
  -- the name is supplied, so that it is bound in both or in neither, and has one value
  rw [← h.bound name hName, ← hValues.supplied hName]
  split
  · exact .ok h
  · split
    · exact .error _
    · split
      · exact .error _
      · split
        · exact .error _
        · exact .ok (h.bind _ _)

end Bindings

open Bindings

/-! ## Two runs -/

namespace Lowering

theorem filled_matches {xs ys : List String} (hLength : xs.length = ys.length) (sql : String) :
    Matches (fun _ _ => True) (filled sql xs) (filled sql ys) := by
  unfold filled
  rcases (Template.fill_matches hLength sql).cases with ⟨e, hx, hy⟩ | ⟨text, text', hx, hy, -⟩
  · rw [hx, hy]
    exact .error _
  · rw [hx, hy]
    exact .ok trivial

/-- As many substitutions come out of both runs, or the same error. -/
theorem substitutions_matches (registry : Registry) (hValues : Supplements values values')
    {arguments : RawArguments} (hArray : ∀ name, arguments = .parameter name →
      values.lookup name = values'.lookup name) {b b' : Bindings} (h : SamePayloads values b b') :
    Matches (fun r r' => r.1.length = r'.1.length ∧ SamePayloads values r.2 r'.2)
      ((substitutions ⟨registry, values⟩ arguments).run b)
      ((substitutions ⟨registry, values'⟩ arguments).run b') := by
  cases arguments with
  | constant value =>
    rw [run_substitutions_constant, run_substitutions_constant]
    exact (Matches.refl (fun _ => rfl) _).map fun x y hxy => ⟨congrArg List.length hxy, h⟩
  | parameter name =>
    have hLookup : values.lookup name = values'.lookup name := hArray name rfl
    -- both runs find the same value, and refuse it with the same error if it is no array
    by_cases hItems : ∃ items, values.lookup name = some (.array items)
    · obtain ⟨items, hItems⟩ := hItems
      rw [run_substitutions_parameter hItems, run_substitutions_parameter (hLookup ▸ hItems)]
      exact .ok (h.bindArguments hValues items)
    · rw [run_substitutions_refused fun items hEq => hItems ⟨items, hEq⟩,
        run_substitutions_refused fun items hEq => hItems ⟨items, hLookup.trans hEq⟩, ← hLookup]
      exact .error _

end Lowering

/-- Both runs find the values that the step needs. -/
def Step.Served (values values' : ParameterValues) : Step → Prop
  | .parameter name _ => (values.lookup name).isSome = true
  | .raw _ (.parameter name) => values.lookup name = values'.lookup name
  | _ => True

/-- One step in both runs. -/
theorem Step.run_matches (registry : Registry) (hValues : Supplements values values')
    {step : Step} (hStep : step.Served values values') {b b' : Bindings}
    (h : SamePayloads values b b') :
    Matches (SamePayloads values) (step.run ⟨registry, values⟩ b)
      (step.run ⟨registry, values'⟩ b') := by
  cases step with
  | fail e => exact .error e
  | parameter name mapping => exact h.bindNamed hValues hStep mapping
  | raw sql arguments =>
    have hArray : ∀ name, arguments = .parameter name →
        values.lookup name = values'.lookup name := by
      rintro name rfl
      exact hStep
    -- the references differ, but they are as many, so that the template is filled in both runs
    -- or in neither
    rw [Step.run, Step.run, Lowering.run_fromSql, Lowering.run_fromSql]
    refine ((Lowering.substitutions_matches registry hValues hArray h).bind
      (S := fun r r' => SamePayloads values r.2 r'.2) fun r r' hr => ?_).map fun _ _ hr => hr
    exact (Lowering.filled_matches hr.1 sql).map fun _ _ _ => hr.2

/-- **The run lemma.** Runs over steps that are served alike fail with the same error, or
bind the same payloads. -/
theorem runSteps_matches (registry : Registry) (hValues : Supplements values values')
    {steps : List Step} (hSteps : ∀ step ∈ steps, step.Served values values') {b b' : Bindings}
    (h : SamePayloads values b b') :
    Matches (SamePayloads values) (runSteps ⟨registry, values⟩ b steps)
      (runSteps ⟨registry, values'⟩ b' steps) := by
  induction steps generalizing b b' with
  | nil => exact .ok h
  | cons step steps ih =>
    obtain ⟨hFirst, hRest⟩ := List.forall_mem_cons.mp hSteps
    rw [runSteps_cons, runSteps_cons]
    exact (Step.run_matches registry hValues hFirst h).bind fun _ _ hNext => ih hRest hNext

/-! ## Queries -/

/-- The steps of a tree that mentions no added name. -/
theorem Step.served_of_mentioned {steps : List Step} (hValues : Supplements values values')
    (hReferences : ∀ name ∈ (steps.filterMap Step.reference?).map Prod.fst,
      (values.lookup name).isSome = true)
    (hArrays : ∀ name ∈ steps.filterMap Step.arrayName?, ¬ AddedName values values' name) :
    ∀ step ∈ steps, step.Served values values' := by
  intro step hStep
  cases step with
  | fail e => exact trivial
  | parameter name mapping =>
    have hMem : (name, mapping) ∈ steps.filterMap Step.reference? :=
      List.mem_filterMap.mpr ⟨_, hStep, rfl⟩
    exact hReferences name (List.mem_map_of_mem hMem)
  | raw sql arguments =>
    cases arguments with
    | constant value => exact trivial
    | parameter name =>
      exact hValues.lookup_eq (hArrays name (List.mem_filterMap.mpr ⟨_, hStep, rfl⟩))

/-- **Further values do not matter.** Let a value be supplied for every reference of the
tree, and let further values be supplied under names that no reference and no raw fragment
looks up. Then both queries fail with the same error, or bind the same payloads in the same
order; and they are identical if no further name is one that an argument could have. -/
theorem generate_irrelevant_values {s : Select}
    (hSupplied : ∀ name ∈ s.references.map Prod.fst, (values.lookup name).isSome = true)
    (hValues : Supplements values values')
    (hAdded : ∀ name, AddedName values values' name →
      name ∉ s.references.map Prod.fst ∧ name ∉ s.arrayNames)
    (registry : Registry) (options : GeneratorOptions) :
    ((∃ e, s.generate registry values options = .error e ∧
        s.generate registry values' options = .error e) ∨
      ∃ q q', s.generate registry values options = .ok q ∧
        s.generate registry values' options = .ok q' ∧
        q.parameters.map Parameter.value = q'.parameters.map Parameter.value) ∧
    ((∀ name, AddedName values values' name → ∀ n, name ≠ argumentName n) →
      s.generate registry values options = s.generate registry values' options) := by
  have hArrays : ∀ name ∈ s.arrayNames, ¬ AddedName values values' name :=
    fun name hName hNew => (hAdded name hNew).2 hName
  refine ⟨?_, fun hNames => ?_⟩
  -- whether there is a query, and what it sends, can be told from the steps
  · have hSteps := Step.served_of_mentioned hValues hSupplied hArrays
    have hRuns := runSteps_matches registry hValues hSteps (.refl values {})
    rcases hRuns.cases with ⟨e, hRun, hRun'⟩ | ⟨b, b', hRun, hRun', hSame⟩
    · exact .inl ⟨e, Select.generate_error.mpr hRun, Select.generate_error.mpr hRun'⟩
    · obtain ⟨q, hQuery, hParameters⟩ := Select.exists_query options hRun
      obtain ⟨q', hQuery', hParameters'⟩ := Select.exists_query options hRun'
      refine .inr ⟨q, q', hQuery, hQuery', ?_⟩
      rw [hParameters, hParameters', hSame.payloads]
  -- without a new argument name nothing that the query depends on has changed
  · refine Select.generate_congr_values (fun name hName => ?_) (fun name hName => ?_) (fun n => ?_)
      registry options
    · exact hValues.supplied (hSupplied name hName)
    · exact hValues.lookup_eq (hArrays name hName)
    · rw [hValues.lookup_eq fun hNew => hNames _ hNew n rfl]

/-- A value for each name that `Select.referenceThenFragment` looks up. -/
def referenceAndArguments : ParameterValues :=
  [("p0", .string "x"), ("args", .array [.int 7, .null])]

/-- A further value under `p1` moves the arguments on by one number, and one under `p` leaves
no trace. -/
theorem referenceThenFragment_irrelevant :
    ∃ q q', Select.referenceThenFragment.generate .builtin referenceAndArguments = .ok q ∧
      Select.referenceThenFragment.generate .builtin
        (referenceAndArguments ++ [("p1", .bool true)]) = .ok q' ∧
      Select.referenceThenFragment.generate .builtin
        (referenceAndArguments ++ [("p", .bool true)]) = .ok q ∧
      q.parameters.map Parameter.value = q'.parameters.map Parameter.value ∧
      q.parameters.map Parameter.name = ["@p0", "@p1", "@p2"] ∧
      q'.parameters.map Parameter.name = ["@p0", "@p2", "@p3"] := by
  have hSupplied : ∀ name ∈ Select.referenceThenFragment.references.map Prod.fst,
      (referenceAndArguments.lookup name).isSome = true := by decide
  have hAdded (key : String) (hReferences : key ∉ ["p0"]) (hArrays : key ∉ ["args"]) :
      ∀ name, AddedName referenceAndArguments (referenceAndArguments ++ [(key, .bool true)]) name →
        name ∉ Select.referenceThenFragment.references.map Prod.fst ∧
          name ∉ Select.referenceThenFragment.arrayNames := by
    intro name hName
    obtain rfl := List.mem_singleton.mp hName.mem
    exact ⟨hReferences, hArrays⟩
  have hTaken := generate_irrelevant_values hSupplied (supplements_append referenceAndArguments _)
    (hAdded "p1" (by decide) (by decide)) .builtin {}
  have hOther := generate_irrelevant_values hSupplied (supplements_append referenceAndArguments _)
    (hAdded "p" (by decide) (by decide)) .builtin {}
  have hRun : runSteps ⟨.builtin, referenceAndArguments⟩ {} Select.referenceThenFragment.steps =
      .ok ⟨[⟨"@p0", .str "x"⟩, ⟨"@p1", .int 7⟩, ⟨"@p2", .null⟩], 3⟩ := rfl
  have hRun' : runSteps ⟨.builtin, referenceAndArguments ++ [("p1", .bool true)]⟩ {}
      Select.referenceThenFragment.steps =
      .ok ⟨[⟨"@p0", .str "x"⟩, ⟨"@p2", .int 7⟩, ⟨"@p3", .null⟩], 4⟩ := rfl
  obtain ⟨q, hQuery, hParameters⟩ := Select.exists_query {} hRun
  obtain ⟨q', hQuery', hParameters'⟩ := Select.exists_query {} hRun'
  refine ⟨q, q', hQuery, hQuery', ?_, ?_, ?_, ?_⟩
  · rw [← hOther.2 ?_, hQuery]
    intro name hName n hEq
    obtain rfl := List.mem_singleton.mp hName.mem
    -- behind the letter of an argument stands a numeral
    have hNumeral : "" = n.repr := String.append_right_inj "p" |>.mp hEq
    exact Digits.write_ne_nil n (congrArg String.toList hNumeral.symm)
  · obtain ⟨e, hError, -⟩ | ⟨q₁, q₂, hFirst, hSecond, hPayloads⟩ := hTaken.1
    · rw [hQuery] at hError
      cases hError
    · obtain rfl := Except.ok.inj (hQuery.symm.trans hFirst)
      obtain rfl := Except.ok.inj (hQuery'.symm.trans hSecond)
      exact hPayloads
  · rw [hParameters]
    rfl
  · rw [hParameters']
    rfl

end DocumentQuery
