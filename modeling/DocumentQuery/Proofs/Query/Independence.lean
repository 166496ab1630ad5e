import DocumentQuery.Proofs.Query.Bindings

/-!
# The text of a query does not depend on values

Two runs over one tree, with values for the same names. Where both succeed they
write the same text and bind the same names in the same order: values reach the
payloads and the checks, and nothing else. Only how many items there are in the
arrays of raw fragments can be told from the text.

Main results:

* `Bindings.Alike` — bindings that differ in payloads at most; the invariant of the
  two runs.
* `stepRelation_agree` — steps that succeed in both runs keep it.
* `generate_text_independent` — the same text, the same names.
-/

namespace DocumentQuery

/-- Values are supplied for the same names. -/
def SameNames (values values' : ParameterValues) : Prop :=
  ∀ name, (values.lookup name).isSome = (values'.lookup name).isSome

/-- Arrays supplied under a name have the same length. -/
def SameLength (values values' : ParameterValues) (name : String) : Prop :=
  ∀ items items', values.lookup name = some (.array items) →
    values'.lookup name = some (.array items') → items.length = items'.length

/-- The name under which a raw fragment looks for its arguments. -/
def Step.arrayName? : Step → Option String
  | .raw _ (.parameter name) => some name
  | _ => none

/-- The names under which raw fragments look for their arguments. -/
def Select.arrayNames (s : Select) : List String := s.steps.filterMap Step.arrayName?

/-! ## Bindings that differ in payloads -/

namespace Bindings

/-- The same names are bound in the same order, and arguments go on from the same
number. -/
structure Alike (b b' : Bindings) : Prop where
  names : b.parameters.map Parameter.name = b'.parameters.map Parameter.name
  next : b.next = b'.next

theorem Alike.refl (b : Bindings) : b.Alike b := ⟨rfl, rfl⟩

variable {b b' : Bindings} {values values' : ParameterValues}

theorem isBound_eq_contains (b : Bindings) (reference : String) :
    b.isBound reference = (b.parameters.map Parameter.name).contains reference := by
  rw [Bool.eq_iff_iff, isBound_iff, List.contains_iff_mem, List.mem_map]

theorem Alike.isBound_eq (h : b.Alike b') (reference : String) :
    b.isBound reference = b'.isBound reference := by
  rw [isBound_eq_contains, isBound_eq_contains, h.names]

theorem Alike.bind (h : b.Alike b') (reference : String) (payload payload' : Json) :
    (b.bind reference payload).Alike (b'.bind reference payload') := by
  refine ⟨?_, h.next⟩
  simp only [Bindings.bind, List.map_append, h.names]
  rfl

/-- The first argument gets the same name in both runs. -/
theorem Alike.freeIndex_eq (h : b.Alike b') (hNames : SameNames values values') :
    b.freeIndex values = b'.freeIndex values' := by
  refine freeIndex_congr h.next fun n => ?_
  rw [isTaken, isTaken, h.isBound_eq, hNames]

theorem Alike.bindArguments (h : b.Alike b') (hNames : SameNames values values')
    {items items' : List Value} (hLength : items.length = items'.length) :
    (b.bindArguments values items).1 = (b'.bindArguments values' items').1 ∧
      (b.bindArguments values items).2.Alike (b'.bindArguments values' items').2 := by
  induction items generalizing b b' items' with
  | nil =>
    cases items' with
    | nil => exact ⟨rfl, h⟩
    | cons value' rest' => cases hLength
  | cons value rest ih =>
    cases items' with
    | nil => cases hLength
    | cons value' rest' =>
      -- the number of the argument depends on taken names only, not on what they carry
      have hIndex := h.freeIndex_eq hNames
      have hFirst : (b.bindArgument values value).2.Alike (b'.bindArgument values' value').2 := by
        refine ⟨?_, ?_⟩
        · simp only [Bindings.bindArgument, hIndex]
          exact (h.bind _ _ _).names
        · simp only [Bindings.bindArgument, hIndex]
      obtain ⟨hReferences, hRest⟩ := ih hFirst (Nat.succ.inj hLength)
      refine ⟨?_, hRest⟩
      simp only [Bindings.bindArguments]
      rw [hReferences, Bindings.bindArgument, Bindings.bindArgument, hIndex]

theorem Alike.bindNamed (h : b.Alike b') {name : String} {mapping : Option TypeMapping}
    {c c' : Bindings} (hc : b.bindNamed values name mapping = .ok c)
    (hc' : b'.bindNamed values' name mapping = .ok c') : c.Alike c' := by
  have hBound := h.isBound_eq (referenceTo name)
  rcases bindNamed_eq_ok hc with ⟨hIs, rfl⟩ | ⟨m, value, payload, hNot, -, -, -, rfl⟩ <;>
    rcases bindNamed_eq_ok hc' with ⟨hIs', rfl⟩ | ⟨m', value', payload', hNot', -, -, -, rfl⟩
  · exact h
  · rw [hIs, hNot'] at hBound
    cases hBound
  · rw [hNot, hIs'] at hBound
    cases hBound
  · exact h.bind _ _ _

end Bindings

/-! ## Two runs -/

/-- Where both computations succeed on bindings that are alike, they give the same
result and leave bindings that are alike. -/
def Lowering.Agree {α : Type} (m m' : Lowering α) : Prop :=
  ∀ b b' r r', b.Alike b' → m.run b = .ok r → m'.run b' = .ok r' → r.1 = r'.1 ∧ r.2.Alike r'.2

namespace Lowering

theorem agree_pure {α : Type} (a : α) : Agree (pure a) (pure a) := by
  intro b b' r r' h hr hr'
  cases hr
  cases hr'
  exact ⟨rfl, h⟩

theorem agree_bind {α β : Type} {m m' : Lowering α} {f f' : α → Lowering β} (hm : Agree m m')
    (hf : ∀ a, Agree (f a) (f' a)) : Agree (m >>= f) (m' >>= f') := by
  intro b b' r r' h hr hr'
  rw [StateT.run_bind, bind_eq_ok] at hr hr'
  obtain ⟨⟨a, c⟩, hFirst, hSecond⟩ := hr
  obtain ⟨⟨a', c'⟩, hFirst', hSecond'⟩ := hr'
  obtain ⟨hResult, hAlike⟩ := hm b b' _ _ h hFirst hFirst'
  obtain rfl : a = a' := hResult
  exact hf a c c' r r' hAlike hSecond hSecond'

theorem agree_parameter (values values' : ParameterValues) (name : String)
    (mapping : Option TypeMapping) :
    Agree (parameter values name mapping) (parameter values' name mapping) := by
  intro b b' r r' h hr hr'
  rw [run_parameter, map_eq_ok] at hr hr'
  obtain ⟨c, hc, rfl⟩ := hr
  obtain ⟨c', hc', rfl⟩ := hr'
  exact ⟨rfl, h.bindNamed hc hc'⟩

theorem agree_substitutions {registry : Registry} {values values' : ParameterValues}
    (hNames : SameNames values values') (arguments : RawArguments)
    (hLength : ∀ name, arguments = .parameter name → SameLength values values' name) :
    Agree (substitutions ⟨registry, values⟩ arguments)
      (substitutions ⟨registry, values'⟩ arguments) := by
  intro b b' r r' h hr hr'
  cases arguments with
  | parameter name =>
    -- both runs have found an array, since both have succeeded
    by_cases hItems : ∃ items, values.lookup name = some (.array items)
    · by_cases hItems' : ∃ items, values'.lookup name = some (.array items)
      · obtain ⟨items, hItems⟩ := hItems
        obtain ⟨items', hItems'⟩ := hItems'
        rw [run_substitutions_parameter hItems] at hr
        rw [run_substitutions_parameter hItems'] at hr'
        cases hr
        cases hr'
        exact h.bindArguments hNames (hLength name rfl items items' hItems hItems')
      · rw [run_substitutions_refused fun items hi => hItems' ⟨items, hi⟩] at hr'
        cases hr'
    · rw [run_substitutions_refused fun items hi => hItems ⟨items, hi⟩] at hr
      cases hr
  | constant value =>
    -- constants are rendered without looking at what is supplied
    rw [run_substitutions_constant, map_eq_ok] at hr hr'
    obtain ⟨literals, hLiterals, rfl⟩ := hr
    obtain ⟨literals', hLiterals', rfl⟩ := hr'
    obtain rfl := Except.ok.inj (hLiterals.symm.trans hLiterals')
    exact ⟨rfl, h⟩

theorem agree_fromSql {registry : Registry} {values values' : ParameterValues}
    (hNames : SameNames values values') (sql : String) (arguments : RawArguments)
    (hLength : ∀ name, arguments = .parameter name → SameLength values values' name) :
    Agree (fromSql ⟨registry, values⟩ sql arguments)
      (fromSql ⟨registry, values'⟩ sql arguments) := by
  refine agree_bind (agree_substitutions hNames arguments hLength) fun substitutions => ?_
  cases Template.fill sql substitutions with
  | ok text => exact agree_pure _
  | error e =>
    intro b b' r r' h hr
    cases hr

end Lowering

/-- Steps agree if raw fragments among them find arrays of the same length. -/
theorem stepRelation_agree (registry : Registry) {values values' : ParameterValues}
    (hNames : SameNames values values') :
    StepRelation ⟨registry, values⟩ ⟨registry, values'⟩ fun _ steps m m' =>
      (∀ name ∈ steps.filterMap Step.arrayName?, SameLength values values' name) →
        Lowering.Agree m m' where
  pure a _ := Lowering.agree_pure a
  fail e steps _ := by
    intro b b' r r' h hr
    cases hr
  bind hm hf hLength := by
    rw [List.filterMap_append] at hLength
    refine Lowering.agree_bind (hm fun name hName => ?_) fun a => hf a fun name hName => ?_
    · exact hLength name (List.mem_append_left _ hName)
    · exact hLength name (List.mem_append_right _ hName)
  parameter name mapping _ := Lowering.agree_parameter values values' name mapping
  raw sql arguments hLength := by
    refine Lowering.agree_fromSql hNames sql arguments ?_
    rintro name rfl
    exact hLength name (List.mem_singleton_self _)

/-- **Values cannot be told from the text.** Two queries of one tree, made with
values for the same names and with arrays of the same length for raw fragments,
have the same text and the same names of parameters. -/
theorem generate_text_independent {s : Select} {registry : Registry}
    {values values' : ParameterValues} {options : GeneratorOptions} {q q' : Query}
    (hNames : SameNames values values')
    (hLength : ∀ name ∈ s.arrayNames, SameLength values values' name)
    (hQuery : s.generate registry values options = .ok q)
    (hQuery' : s.generate registry values' options = .ok q') :
    q.text = q'.text ∧ q.parameters.map Parameter.name = q'.parameters.map Parameter.name := by
  -- the one induction over the tree
  have hAgree := s.lower_stepwise (stepRelation_agree registry hNames) hLength
  rw [Select.generate_eq, map_eq_ok] at hQuery hQuery'
  obtain ⟨r, hr, rfl⟩ := hQuery
  obtain ⟨r', hr', rfl⟩ := hQuery'
  obtain ⟨hLayout, hAlike⟩ := hAgree {} {} r r' (.refl _) hr hr'
  refine ⟨?_, hAlike.names⟩
  show r.1.render options.indentSize = r'.1.render options.indentSize
  rw [hLayout]

/-- A reference, and a raw fragment with two arguments visited after it. -/
def Select.referenceThenFragment : Select :=
  { Select.empty with
    projection := [⟨.parameter "p0" .string (some (.json .string)), "", ""⟩]
    sources := [⟨.fromSql "{1} {0}" (.parameter "args"), some "c", false⟩] }

/-- Values of other types leave no trace in the text. -/
theorem referenceThenFragment_text_independent :
    ∃ q q', Select.referenceThenFragment.generate .builtin
        [("p0", .string "secret"), ("args", .array [.int 7, .null])] = .ok q ∧
      Select.referenceThenFragment.generate .builtin
        [("args", .array [.string "@p0", .array []]), ("p0", .bool true)] = .ok q' ∧
      q.text = q'.text ∧
      q.parameters.map Parameter.name = q'.parameters.map Parameter.name := by
  have hRun : runSteps ⟨.builtin, [("p0", .string "secret"), ("args", .array [.int 7, .null])]⟩ {}
      Select.referenceThenFragment.steps =
      .ok ⟨[⟨"@p0", .str "secret"⟩, ⟨"@p1", .int 7⟩, ⟨"@p2", .null⟩], 3⟩ := rfl
  have hRun' : runSteps ⟨.builtin, [("args", .array [.string "@p0", .array []]),
      ("p0", .bool true)]⟩ {} Select.referenceThenFragment.steps =
      .ok ⟨[⟨"@p0", .bool true⟩, ⟨"@p1", .str "@p0"⟩, ⟨"@p2", .arr []⟩], 3⟩ := rfl
  obtain ⟨q, hQuery, -⟩ := Select.exists_query {} hRun
  obtain ⟨q', hQuery', -⟩ := Select.exists_query {} hRun'
  refine ⟨q, q', hQuery, hQuery', generate_text_independent ?_ ?_ hQuery hQuery'⟩
  · intro name
    by_cases hName : name = "p0"
    · rw [hName]
      rfl
    · by_cases hArgs : name = "args"
      · rw [hArgs]
        rfl
      · simp [List.lookup_cons, beq_false_of_ne hName, beq_false_of_ne hArgs]
  · intro name hName items items' hItems hItems'
    obtain rfl : name = "args" := List.mem_singleton.mp hName
    cases hItems
    cases hItems'
    rfl

end DocumentQuery
