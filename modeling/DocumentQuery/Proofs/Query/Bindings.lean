import DocumentQuery.Proofs.Query.ArgumentNames
import DocumentQuery.Proofs.Query.Steps

/-!
# What steps do to the bindings

Main definitions and results:

* `Step.Succeeds` — the ways in which a step can succeed; `Step.succeeds_of_run`
  says that there are no others.
* `Bindings.Extends` — nothing that is bound is lost or bound anew;
  `runSteps_extends` says that runs only extend the bindings.
* `runSteps_induction` — what every step keeps, every run keeps.
-/

namespace DocumentQuery

/-! ## The steps that succeed -/

/-- How a step that succeeds changes the bindings. -/
inductive Step.Succeeds (ctx : Context) (b : Bindings) : Step → Bindings → Prop where
  /-- A later reference to a parameter. -/
  | bound {name : String} {mapping : Option TypeMapping}
      (hBound : b.isBound (referenceTo name) = true) :
      Succeeds ctx b (.parameter name mapping) b
  /-- The first reference to a parameter. -/
  | named {name : String} {mapping : TypeMapping} {value : Value} {payload : Json}
      (hFree : b.isBound (referenceTo name) = false)
      (hValue : ctx.values.lookup name = some value)
      (hPayload : mapping.payload value = .ok payload) :
      Succeeds ctx b (.parameter name (some mapping)) (b.bind (referenceTo name) payload)
  | arguments {sql name text : String} {items : List Value}
      (hItems : ctx.values.lookup name = some (.array items))
      (hText : Template.fill sql (b.bindArguments ctx.values items).1 = .ok text) :
      Succeeds ctx b (.raw sql (.parameter name)) (b.bindArguments ctx.values items).2
  | constants {sql text : String} {items : List Value} {literals : List String}
      (hLiterals : Lowering.rawLiterals ctx.registry items = .ok literals)
      (hText : Template.fill sql literals = .ok text) :
      Succeeds ctx b (.raw sql (.constant (.array items))) b

theorem Bindings.bindNamed_eq_ok {b b' : Bindings} {values : ParameterValues} {name : String}
    {mapping : Option TypeMapping} (h : b.bindNamed values name mapping = .ok b') :
    (b.isBound (referenceTo name) = true ∧ b' = b) ∨
      ∃ m value payload, b.isBound (referenceTo name) = false ∧ mapping = some m ∧
        values.lookup name = some value ∧ m.payload value = .ok payload ∧
        b' = b.bind (referenceTo name) payload := by
  unfold Bindings.bindNamed at h
  cases hBound : b.isBound (referenceTo name) with
  | true =>
    rw [hBound, if_pos rfl] at h
    exact Or.inl ⟨rfl, (Except.ok.inj h).symm⟩
  | false =>
    rw [hBound, if_neg Bool.false_ne_true] at h
    cases mapping with
    | none => cases h
    | some m =>
      cases hValue : values.lookup name with
      | none => simp [hValue] at h
      | some value =>
        cases hPayload : m.payload value with
        | error e => simp [hValue, hPayload] at h
        | ok payload =>
          simp only [hValue, hPayload, Except.ok.injEq] at h
          exact Or.inr ⟨m, value, payload, rfl, rfl, rfl, hPayload, h.symm⟩

/-! ## Raw fragments -/

namespace Lowering

/-- What a raw fragment becomes once its substitutions are known. -/
def filled (sql : String) (substitutions : List String) : Except QueryError Layout :=
  match Template.fill sql substitutions with
  | .ok sql => .ok (Layout.block "(" (Layout.ofLines sql) ")")
  | .error e => .error (.user (.placeOutOfRange e.index e.count))

theorem filled_eq_ok {sql : String} {substitutions : List String} {l : Layout}
    (h : filled sql substitutions = .ok l) :
    ∃ text, Template.fill sql substitutions = .ok text ∧
      l = Layout.block "(" (Layout.ofLines text) ")" := by
  unfold filled at h
  split at h
  · rename_i text hText
    exact ⟨text, hText, (Except.ok.inj h).symm⟩
  · cases h

theorem run_fromSql (ctx : Context) (sql : String) (arguments : RawArguments) (b : Bindings) :
    (fromSql ctx sql arguments).run b =
      (substitutions ctx arguments).run b >>= fun r => (filled sql r.1).map fun l => (l, r.2) := by
  unfold fromSql
  rw [StateT.run_bind]
  congr 1
  funext r
  unfold filled
  cases Template.fill sql r.1 <;> rfl

/-- A raw fragment is written if there are substitutions and they fill its places. -/
theorem fromSql_eq_ok {ctx : Context} {sql : String} {arguments : RawArguments} {b : Bindings}
    {r : Layout × Bindings} (h : (fromSql ctx sql arguments).run b = .ok r) :
    ∃ xs text, (substitutions ctx arguments).run b = .ok (xs, r.2) ∧
      Template.fill sql xs = .ok text ∧ r.1 = Layout.block "(" (Layout.ofLines text) ")" := by
  rw [run_fromSql, bind_eq_ok] at h
  obtain ⟨⟨xs, c⟩, hSubstitutions, hFilled⟩ := h
  obtain ⟨l, hLayout, rfl⟩ := map_eq_ok.mp hFilled
  obtain ⟨text, hText, rfl⟩ := filled_eq_ok hLayout
  exact ⟨xs, text, hSubstitutions, hText, rfl⟩

theorem run_substitutions_parameter {ctx : Context} {name : String} {items : List Value}
    (h : ctx.values.lookup name = some (.array items)) (b : Bindings) :
    (substitutions ctx (.parameter name)).run b = .ok (b.bindArguments ctx.values items) := by
  simp only [substitutions, h]
  rfl

/-- Anything but an array under the name is refused. -/
theorem run_substitutions_refused {ctx : Context} {name : String}
    (h : ∀ items, ctx.values.lookup name ≠ some (.array items)) (b : Bindings) :
    (substitutions ctx (.parameter name)).run b =
      .error (.user (.invalidRawArguments .parameter
        ((ctx.values.lookup name).map Value.dataType))) := by
  cases hValue : ctx.values.lookup name with
  | none =>
    simp only [substitutions, hValue]
    rfl
  | some value =>
    cases value with
    | array items => exact absurd hValue (h items)
    | _ =>
      simp only [substitutions, hValue]
      rfl

/-- Constants are substituted without looking at the bindings. -/
def constantLiterals (registry : Registry) : Value → Except QueryError (List String)
  | .array items => rawLiterals registry items
  | .null => .error (.user (.invalidRawArguments .constant none))
  | value => .error (.user (.invalidRawArguments .constant (some value.dataType)))

theorem constantLiterals_eq_ok {registry : Registry} {v : Value} {xs : List String}
    (h : constantLiterals registry v = .ok xs) :
    ∃ items, v = .array items ∧ rawLiterals registry items = .ok xs := by
  cases v with
  | array items => exact ⟨items, rfl, h⟩
  | _ => cases h

theorem run_substitutions_constant (ctx : Context) (value : Value) (b : Bindings) :
    (substitutions ctx (.constant value)).run b =
      (constantLiterals ctx.registry value).map fun literals => (literals, b) := by
  cases value with
  | array items =>
    simp only [substitutions, constantLiterals]
    cases rawLiterals ctx.registry items <;> rfl
  | _ => rfl

/-- Constants have to be an array, each item of which has a literal. -/
theorem substitutions_constant_eq_ok {ctx : Context} {value : Value} {b c : Bindings}
    {xs : List String} (h : (substitutions ctx (.constant value)).run b = .ok (xs, c)) :
    ∃ items, value = .array items ∧ rawLiterals ctx.registry items = .ok xs ∧ c = b := by
  rw [run_substitutions_constant, map_eq_ok] at h
  obtain ⟨literals, hLiterals, hEq⟩ := h
  obtain ⟨rfl, rfl⟩ := Prod.mk.inj hEq
  obtain ⟨items, rfl, hItems⟩ := constantLiterals_eq_ok hLiterals
  exact ⟨items, rfl, hItems, rfl⟩

end Lowering

/-- A step succeeds in one of four ways. -/
theorem Step.succeeds_of_run {ctx : Context} {b b' : Bindings} {step : Step}
    (h : step.run ctx b = .ok b') : step.Succeeds ctx b b' := by
  cases step with
  | fail e => cases h
  | parameter name mapping =>
    rcases Bindings.bindNamed_eq_ok h with ⟨hBound, rfl⟩ |
      ⟨m, value, payload, hFree, rfl, hValue, hPayload, rfl⟩
    · exact .bound hBound
    · exact .named hFree hValue hPayload
  | raw sql arguments =>
    -- the substitutions are computed first, then put into the text; both have to succeed
    rw [Step.run, map_eq_ok] at h
    obtain ⟨⟨l, c⟩, hRun, rfl⟩ := h
    obtain ⟨xs, text, hSubstitutions, hText, -⟩ := Lowering.fromSql_eq_ok hRun
    cases arguments with
    | parameter name =>
      -- anything but an array is refused, and the run would have failed
      by_cases hItems : ∃ items, ctx.values.lookup name = some (.array items)
      · obtain ⟨items, hItems⟩ := hItems
        rw [Lowering.run_substitutions_parameter hItems] at hSubstitutions
        obtain ⟨rfl, rfl⟩ := Prod.mk.inj (Except.ok.inj hSubstitutions)
        exact .arguments hItems hText
      · rw [Lowering.run_substitutions_refused fun items h => hItems ⟨items, h⟩] at hSubstitutions
        cases hSubstitutions
    | constant value =>
      obtain ⟨items, rfl, hItems, rfl⟩ := Lowering.substitutions_constant_eq_ok hSubstitutions
      exact .constants hItems hText

/-! ## Runs -/

theorem runSteps_cons_ok {ctx : Context} {b b' : Bindings} {step : Step} {steps : List Step}
    (h : runSteps ctx b (step :: steps) = .ok b') :
    ∃ b₁, step.run ctx b = .ok b₁ ∧ runSteps ctx b₁ steps = .ok b' := by
  rwa [runSteps_cons, bind_eq_ok] at h

theorem runSteps_append_ok {ctx : Context} {b b' : Bindings} {steps steps' : List Step}
    (h : runSteps ctx b (steps ++ steps') = .ok b') :
    ∃ b₁, runSteps ctx b steps = .ok b₁ ∧ runSteps ctx b₁ steps' = .ok b' := by
  rwa [runSteps_append, bind_eq_ok] at h

/-- What holds at the start and is kept by every step that succeeds holds after a
run. The property may speak of the steps done so far. -/
theorem runSteps_induction {ctx : Context} {P : List Step → Bindings → Prop} {b b' : Bindings}
    {steps : List Step} (hStart : P [] b)
    (hStep : ∀ done b step b', P done b → Step.Succeeds ctx b step b' → P (done ++ [step]) b')
    (hRun : runSteps ctx b steps = .ok b') : P steps b' := by
  -- induction on the steps to come, with those done so far as an accumulator
  suffices h : ∀ done b, P done b → runSteps ctx b steps = .ok b' → P (done ++ steps) b' from
    h [] b hStart hRun
  clear hStart hRun b
  induction steps with
  | nil =>
    intro done b hP hRun
    rw [List.append_nil, ← Except.ok.inj hRun]
    exact hP
  | cons step steps ih =>
    intro done b hP hRun
    obtain ⟨b₁, hFirst, hRest⟩ := runSteps_cons_ok hRun
    have h := ih _ _ (hStep done b step b₁ hP (Step.succeeds_of_run hFirst)) hRest
    rwa [List.append_assoc] at h

/-! ## Nothing is lost or bound anew -/

namespace Bindings

/-- `b'` goes on from `b`: what is bound stays, and what is added has other
names. -/
structure Extends (b b' : Bindings) : Prop where
  kept : b.parameters <+: b'.parameters
  fresh : ∀ p ∈ b'.parameters, p ∈ b.parameters ∨ b.isBound p.name = false
  next_le : b.next ≤ b'.next

theorem Extends.refl (b : Bindings) : b.Extends b :=
  ⟨List.prefix_refl _, fun _ hp => Or.inl hp, Nat.le_refl _⟩

theorem Extends.isBound {b b' : Bindings} (h : b.Extends b') {reference : String}
    (hBound : b.isBound reference = true) : b'.isBound reference = true := by
  rw [isBound_iff] at hBound ⊢
  obtain ⟨p, hp, hName⟩ := hBound
  exact ⟨p, h.kept.subset hp, hName⟩

theorem Extends.trans {b b' b'' : Bindings} (h : b.Extends b') (h' : b'.Extends b'') :
    b.Extends b'' := by
  refine ⟨h.kept.trans h'.kept, ?_, Nat.le_trans h.next_le h'.next_le⟩
  intro p hp
  rcases h'.fresh p hp with hOld | hNew
  · exact h.fresh p hOld
  -- what `b'` does not bind, the smaller `b` does not bind either
  · refine Or.inr ?_
    cases hBound : b.isBound p.name with
    | false => rfl
    | true => rw [h.isBound hBound] at hNew; exact hNew

theorem extends_bind {b : Bindings} {reference : String} (value : Json)
    (hFree : b.isBound reference = false) : b.Extends (b.bind reference value) := by
  refine ⟨List.prefix_append _ _, ?_, Nat.le_refl _⟩
  intro p hp
  rcases List.mem_append.mp hp with hOld | hNew
  · exact Or.inl hOld
  · rw [List.mem_singleton] at hNew
    exact Or.inr (hNew ▸ hFree)

/-- A name that was free keeps what it is bound to. -/
theorem Extends.mem_bind_iff {b b' : Bindings} {reference : String} {value : Json}
    (hFree : b.isBound reference = false) (h : (b.bind reference value).Extends b') (sent : Json) :
    ⟨reference, sent⟩ ∈ b'.parameters ↔ sent = value := by
  have hMem : ⟨reference, value⟩ ∈ (b.bind reference value).parameters :=
    List.mem_append_right _ (List.mem_singleton_self _)
  constructor
  · intro hSent
    rcases h.fresh _ hSent with hBind | hUnbound
    -- it cannot be an older binding of the name, which was free
    · rcases List.mem_append.mp hBind with hOld | hNew
      · have hBound : b.isBound reference = true := isBound_iff.mpr ⟨_, hOld, rfl⟩
        rw [hFree] at hBound
        cases hBound
      · exact congrArg Parameter.value (List.mem_singleton.mp hNew)
    -- nor can it be newer, as the name is bound from here on
    · have hBound : (b.bind reference value).isBound reference = true :=
        isBound_iff.mpr ⟨_, hMem, rfl⟩
      rw [hUnbound] at hBound
      cases hBound
  · rintro rfl
    exact h.kept.subset hMem

/-- The number of an argument is free, so its name is not bound. -/
theorem isBound_freeIndex (b : Bindings) (values : ParameterValues) :
    b.isBound (referenceTo (argumentName (b.freeIndex values))) = false := by
  have hFree := b.freeIndex_free values
  rw [isTaken, Bool.or_eq_false_iff] at hFree
  exact hFree.1

theorem extends_bindArgument (b : Bindings) (values : ParameterValues) (value : Value) :
    b.Extends (b.bindArgument values value).2 := by
  obtain ⟨hKept, hFresh, -⟩ := extends_bind value.toJson.sortKeys (b.isBound_freeIndex values)
  refine ⟨hKept, hFresh, ?_⟩
  have := b.next_le_freeIndex values
  show b.next ≤ b.freeIndex values + 1
  omega

theorem extends_bindArguments (b : Bindings) (values : ParameterValues) (items : List Value) :
    b.Extends (b.bindArguments values items).2 := by
  induction items generalizing b with
  | nil => exact .refl b
  | cons value rest ih => exact (b.extends_bindArgument values value).trans (ih _)

end Bindings

theorem Step.Succeeds.extends {ctx : Context} {b b' : Bindings} {step : Step}
    (h : step.Succeeds ctx b b') : b.Extends b' := by
  cases h with
  | bound => exact .refl b
  | named hFree => exact Bindings.extends_bind _ hFree
  | arguments => exact Bindings.extends_bindArguments ..
  | constants => exact .refl b

theorem runSteps_extends {ctx : Context} {b b' : Bindings} {steps : List Step}
    (h : runSteps ctx b steps = .ok b') : b.Extends b' :=
  runSteps_induction (P := fun _ => b.Extends) (.refl b)
    (fun _ _ _ _ hSoFar hStep => hSoFar.trans hStep.extends) h

end DocumentQuery
