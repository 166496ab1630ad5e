import DocumentQuery.Proofs.Query.Parameters

/-!
# Names are bound once

Two kinds of nodes bind names, each with a check of its own: a reference of the tree
looks whether its name is bound, an argument of a raw fragment passes over names that
are bound or supplied. Both lists of names are one list in the end.

Main definitions and results:

* `Select.rawArguments` — the parameters that the raw fragments of a tree bind.
* `runSteps_nodup` — a run binds no name twice.
* `runSteps_numbered` — the raw fragments of a run use ascending numbers.
* `generate_names_distinct` — both for the parameters of a query.
-/

namespace DocumentQuery

/-! ## What raw fragments bind -/

/-- What is bound in `b'` behind the parameters of `b`. -/
def Bindings.addedSince (b b' : Bindings) : List Parameter :=
  b'.parameters.drop b.parameters.length

def Step.isRaw : Step → Bool
  | .raw _ _ => true
  | _ => false

/-- The parameters that the raw fragments among steps bind, in the order of the run. -/
def rawArguments (ctx : Context) : Bindings → List Step → List Parameter
  | _, [] => []
  | b, step :: steps =>
    match step.run ctx b with
    | .error _ => []
    | .ok b' => (if step.isRaw then b.addedSince b' else []) ++ rawArguments ctx b' steps

/-- The parameters that the raw fragments of a tree bind, in visiting order. -/
def Select.rawArguments (s : Select) (registry : Registry) (values : ParameterValues) :
    List Parameter :=
  DocumentQuery.rawArguments ⟨registry, values⟩ {} s.steps

theorem rawArguments_cons {ctx : Context} {b b₁ : Bindings} {step : Step} (steps : List Step)
    (h : step.run ctx b = .ok b₁) :
    rawArguments ctx b (step :: steps) =
      (if step.isRaw then b.addedSince b₁ else []) ++ rawArguments ctx b₁ steps := by
  rw [rawArguments, h]

namespace Bindings

variable {b b' b'' : Bindings}

theorem Extends.parameters_eq (h : b.Extends b') :
    b'.parameters = b.parameters ++ b.addedSince b' := by
  obtain ⟨added, hAdded⟩ := h.kept
  rw [addedSince, ← hAdded, List.drop_left]

/-- What two stretches of a run add, one after the other. -/
theorem Extends.addedSince_trans (h : b.Extends b') (h' : b'.Extends b'') :
    b.addedSince b'' = b.addedSince b' ++ b'.addedSince b'' := by
  have hAll : b.parameters ++ b.addedSince b'' =
      b.parameters ++ (b.addedSince b' ++ b'.addedSince b'') := by
    rw [← (h.trans h').parameters_eq, ← List.append_assoc, ← h.parameters_eq, ← h'.parameters_eq]
  exact List.append_cancel_left hAll

/-! ## No name is bound twice -/

/-- The names that are bound are different. -/
def NamesDistinct (b : Bindings) : Prop := (b.parameters.map Parameter.name).Nodup

theorem namesDistinct_empty : NamesDistinct {} := List.nodup_nil

theorem NamesDistinct.bind (h : b.NamesDistinct) {reference : String} (value : Json)
    (hFree : b.isBound reference = false) : (b.bind reference value).NamesDistinct := by
  have hNew : reference ∉ b.parameters.map Parameter.name := by
    intro hMem
    obtain ⟨p, hp, hName⟩ := List.mem_map.mp hMem
    rw [isBound_iff.mpr ⟨p, hp, hName⟩] at hFree
    cases hFree
  rw [NamesDistinct, Bindings.bind, List.map_append]
  refine List.nodup_append.mpr ⟨h, List.nodup_singleton _, fun name hOld name' hAdded => ?_⟩
  rintro rfl
  obtain rfl : name = reference := List.mem_singleton.mp hAdded
  exact hNew hOld

theorem NamesDistinct.bindArguments (h : b.NamesDistinct) (values : ParameterValues)
    (items : List Value) : (b.bindArguments values items).2.NamesDistinct := by
  induction items generalizing b with
  | nil => exact h
  | cons value rest ih =>
    have hFirst : (b.bindArgument values value).2.NamesDistinct :=
      h.bind _ (b.isBound_freeIndex values)
    exact ih hFirst

end Bindings

theorem Step.Succeeds.namesDistinct {ctx : Context} {b b' : Bindings} {step : Step}
    (hStep : step.Succeeds ctx b b') (h : b.NamesDistinct) : b'.NamesDistinct := by
  cases hStep with
  | bound => exact h
  | named hFree => exact h.bind _ hFree
  | arguments => exact h.bindArguments _ _
  | constants => exact h

/-- A run binds no name twice. -/
theorem runSteps_nodup {ctx : Context} {b : Bindings} {steps : List Step}
    (h : runSteps ctx {} steps = .ok b) : (b.parameters.map Parameter.name).Nodup :=
  runSteps_induction (P := fun _ b => b.NamesDistinct) Bindings.namesDistinct_empty
    (fun _ _ _ _ hSoFar hStep => hStep.namesDistinct hSoFar) h

/-! ## Arguments are numbered in ascending order -/

/-- Parameters that go by argument names with these numbers: they ascend from `first`
and stay below `next`, and no value is supplied under any of the names. -/
structure Numbered (values : ParameterValues) (first next : Nat) (numbers : List Nat)
    (parameters : List Parameter) : Prop where
  names : parameters.map Parameter.name =
    numbers.map fun n => referenceTo (Bindings.argumentName n)
  ascending : numbers.Pairwise (· < ·)
  within : ∀ n ∈ numbers, first ≤ n ∧ n < next
  unsupplied : ∀ n ∈ numbers, values.lookup (Bindings.argumentName n) = none

namespace Numbered

variable {values : ParameterValues} {first middle next : Nat} {numbers numbers' : List Nat}
  {parameters parameters' : List Parameter}

theorem nil (values : ParameterValues) (first next : Nat) : Numbered values first next [] [] :=
  ⟨rfl, List.Pairwise.nil, nofun, nofun⟩

/-- The numbers of what comes later are larger. -/
theorem append (h : Numbered values first middle numbers parameters)
    (h' : Numbered values middle next numbers' parameters') (hFirst : first ≤ middle)
    (hNext : middle ≤ next) :
    Numbered values first next (numbers ++ numbers') (parameters ++ parameters') where
  names := by rw [List.map_append, List.map_append, h.names, h'.names]
  ascending := by
    refine List.pairwise_append.mpr ⟨h.ascending, h'.ascending, fun m hm n hn => ?_⟩
    have hBelow := (h.within m hm).2
    have hAbove := (h'.within n hn).1
    omega
  within n hn := by
    rcases List.mem_append.mp hn with hOld | hNew
    · have := h.within n hOld
      omega
    · have := h'.within n hNew
      omega
  unsupplied n hn := by
    rcases List.mem_append.mp hn with hOld | hNew
    · exact h.unsupplied n hOld
    · exact h'.unsupplied n hNew

end Numbered

namespace Bindings

theorem numbered_bindArgument (b : Bindings) (values : ParameterValues) (value : Value) :
    Numbered values b.next (b.bindArgument values value).2.next [b.freeIndex values]
      (b.addedSince (b.bindArgument values value).2) := by
  have hAdded : b.addedSince (b.bindArgument values value).2 =
      [⟨referenceTo (argumentName (b.freeIndex values)), value.toJson.sortKeys⟩] :=
    List.drop_left
  have hFree := b.freeIndex_free values
  rw [isTaken, Bool.or_eq_false_iff, Option.isSome_eq_false_iff, Option.isNone_iff_eq_none]
    at hFree
  refine ⟨by rw [hAdded]; rfl, List.pairwise_singleton _ _, ?_, ?_⟩
  · intro n hn
    rw [List.mem_singleton.mp hn]
    exact ⟨b.next_le_freeIndex values, Nat.lt_succ_self _⟩
  · intro n hn
    rw [List.mem_singleton.mp hn]
    exact hFree.2

theorem numbered_bindArguments (b : Bindings) (values : ParameterValues) (items : List Value) :
    ∃ numbers, numbers.length = items.length ∧
      Numbered values b.next (b.bindArguments values items).2.next numbers
        (b.addedSince (b.bindArguments values items).2) := by
  induction items generalizing b with
  | nil =>
    refine ⟨[], rfl, ?_⟩
    have hNone : b.addedSince (b.bindArguments values []).2 = [] := List.drop_length
    rw [hNone]
    exact .nil _ _ _
  | cons value rest ih =>
    have hFirst := b.extends_bindArgument values value
    have hRest := (b.bindArgument values value).2.extends_bindArguments values rest
    obtain ⟨numbers, hLength, hNumbers⟩ := ih (b.bindArgument values value).2
    -- the first argument takes the first free number, the others go on behind it
    refine ⟨b.freeIndex values :: numbers, by rw [List.length_cons, List.length_cons, hLength], ?_⟩
    show Numbered values b.next
      ((b.bindArgument values value).2.bindArguments values rest).2.next _
      (b.addedSince ((b.bindArgument values value).2.bindArguments values rest).2)
    rw [hFirst.addedSince_trans hRest]
    exact (b.numbered_bindArgument values value).append hNumbers hFirst.next_le hRest.next_le

end Bindings

/-- A raw fragment numbers its arguments; other steps bind none. -/
theorem Step.Succeeds.numbered {ctx : Context} {b b' : Bindings} {step : Step}
    (h : step.Succeeds ctx b b') :
    ∃ numbers, numbers.length = step.argumentCount ctx.values ∧
      Numbered ctx.values b.next b'.next numbers
        (if step.isRaw then b.addedSince b' else []) := by
  have hNone : b.addedSince b = [] := List.drop_length
  cases h with
  | bound => exact ⟨[], rfl, .nil _ _ _⟩
  | named => exact ⟨[], rfl, .nil _ _ _⟩
  | arguments hItems =>
    simp only [Step.argumentCount, hItems]
    exact b.numbered_bindArguments _ _
  | constants =>
    refine ⟨[], rfl, ?_⟩
    rw [hNone, ite_self]
    exact .nil _ _ _

theorem runSteps_numbered {ctx : Context} {b b' : Bindings} {steps : List Step}
    (h : runSteps ctx b steps = .ok b') :
    (rawArguments ctx b steps).Sublist (b.addedSince b') ∧
      ∃ numbers, numbers.length = countArguments ctx.values steps ∧
        Numbered ctx.values b.next b'.next numbers (rawArguments ctx b steps) := by
  -- induction on the steps: what the first one adds stands before what the others add, and
  -- its numbers are below theirs
  induction steps generalizing b with
  | nil => exact ⟨List.nil_sublist _, [], rfl, .nil _ _ _⟩
  | cons step steps ih =>
    obtain ⟨b₁, hFirst, hRest⟩ := runSteps_cons_ok h
    have hStep := Step.succeeds_of_run hFirst
    obtain ⟨hSublist, numbers', hLength', hNumbers'⟩ := ih hRest
    obtain ⟨numbers, hLength, hNumbers⟩ := hStep.numbered
    have hExtends := runSteps_extends hRest
    rw [rawArguments_cons steps hFirst, hStep.extends.addedSince_trans hExtends]
    refine ⟨List.Sublist.append ?_ hSublist, numbers ++ numbers',
      by rw [List.length_append, hLength, hLength', countArguments],
      hNumbers.append hNumbers' hStep.extends.next_le hExtends.next_le⟩
    split
    · exact List.Sublist.refl _
    · exact List.nil_sublist _

/-! ## Queries -/

/-- **Names are bound once.** No two parameters of a query have the same name. Among
them, in their order, stand the arguments of raw fragments, one for each item of the
arrays that fill them: they go by `@pN` with `N` ascending over the whole query, and no
value is supplied under any such `pN`. -/
theorem generate_names_distinct {s : Select} {registry : Registry} {values : ParameterValues}
    {options : GeneratorOptions} {q : Query}
    (hQuery : s.generate registry values options = .ok q) :
    (q.parameters.map Parameter.name).Nodup ∧
      (s.rawArguments registry values).Sublist q.parameters ∧
      ∃ numbers : List Nat, numbers.length = countArguments values s.steps ∧
        numbers.Pairwise (· < ·) ∧
        (s.rawArguments registry values).map Parameter.name =
          numbers.map (fun n => referenceTo (Bindings.argumentName n)) ∧
        ∀ n ∈ numbers, values.lookup (Bindings.argumentName n) = none := by
  obtain ⟨b, hRun, hParameters⟩ := Select.generate_ok hQuery
  obtain ⟨hSublist, numbers, hLength, hNumbers⟩ := runSteps_numbered hRun
  rw [hParameters]
  exact ⟨runSteps_nodup hRun, hSublist, numbers, hLength, hNumbers.ascending, hNumbers.names,
    hNumbers.unsupplied⟩

/-- Two raw fragments around a parameter, one of them in a subquery. -/
def Select.fragmentsAroundReference : Select :=
  { Select.empty with
    projection := [⟨.fromSql "{0} {1}" (.parameter "args"), "", ""⟩,
      ⟨.parameter "p3" .int64 (some (.json .int64)), "", ""⟩]
    predicate := some (.exists { Select.empty with
      predicate := some (.fromSql "{0}" (.parameter "more")) }) }

/-- The supplied `p0` and `p3` are passed over, also by the second fragment. -/
theorem fragmentsAroundReference_names :
    ∃ q, Select.fragmentsAroundReference.generate .builtin [("args", .array [.int 7, .int 8]),
        ("more", .array [.int 9]), ("p0", .null), ("p3", .int 3)] = .ok q ∧
      q.parameters.map Parameter.name = ["@p1", "@p2", "@p3", "@p4"] ∧
      (Select.fragmentsAroundReference.rawArguments .builtin [("args", .array [.int 7, .int 8]),
        ("more", .array [.int 9]), ("p0", .null), ("p3", .int 3)]).map Parameter.name =
        ["@p1", "@p2", "@p4"] ∧
      (q.parameters.map Parameter.name).Nodup := by
  have hRun : runSteps ⟨.builtin, [("args", .array [.int 7, .int 8]), ("more", .array [.int 9]),
      ("p0", .null), ("p3", .int 3)]⟩ {} Select.fragmentsAroundReference.steps =
      .ok ⟨[⟨"@p1", .int 7⟩, ⟨"@p2", .int 8⟩, ⟨"@p3", .int 3⟩, ⟨"@p4", .int 9⟩], 5⟩ := rfl
  obtain ⟨q, hQuery, hParameters⟩ := Select.exists_query {} hRun
  exact ⟨q, hQuery, by rw [hParameters]; rfl, rfl, (generate_names_distinct hQuery).1⟩

end DocumentQuery
