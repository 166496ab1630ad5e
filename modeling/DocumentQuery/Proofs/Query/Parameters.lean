import DocumentQuery.Proofs.Query.Bindings
import Mathlib.Data.Nat.Init
import Mathlib.Order.Monotone.Basic

/-!
# Parameters of the tree and arguments of raw fragments

Parameters of the tree and arguments of raw fragments share one list of bound
names. A reference of the tree is bound to the value supplied under its name,
unless a raw fragment visited before has taken the name for one of its
arguments. That happens only to a name `pN` that no value is supplied for:
`Select.TakenByArgument` says exactly when, by counting.

Main results:

* `Bindings.Accounted`, `runSteps_accounted` — where the bound names of a run come
  from, and how many numbers its arguments have used up.
* `generate_sends_supplied_iff` — a reference is sent the value supplied under its
  name exactly when no argument has taken the name; without a value and without
  such an argument no query is generated.
-/

namespace DocumentQuery

/-! ## References and arguments among the steps -/

namespace Step

/-- The reference to a parameter, with its mapping. -/
def reference? : Step → Option (String × Option TypeMapping)
  | .parameter name mapping => some (name, mapping)
  | _ => none

def refersTo (name : String) : Step → Bool
  | .parameter name' _ => name' == name
  | _ => false

/-- How many arguments a raw fragment has bound. -/
def argumentCount (values : ParameterValues) : Step → Nat
  | .raw _ (.parameter name) =>
    match values.lookup name with
    | some (.array items) => items.length
    | _ => 0
  | _ => 0

end Step

/-- How many arguments are bound by the raw fragments among steps. -/
def countArguments (values : ParameterValues) : List Step → Nat
  | [] => 0
  | step :: steps => step.argumentCount values + countArguments values steps

theorem countArguments_concat (values : ParameterValues) (steps : List Step) (step : Step) :
    countArguments values (steps ++ [step]) =
      countArguments values steps + step.argumentCount values := by
  induction steps with
  | nil => simp [countArguments]
  | cons first steps ih =>
    rw [List.cons_append, countArguments, ih, countArguments, Nat.add_assoc]

namespace Select

/-- The references to parameters in the order in which they are visited. -/
def references (s : Select) : List (String × Option TypeMapping) :=
  s.steps.filterMap Step.reference?

/-- The steps before the first reference to a name. -/
def stepsBefore (s : Select) (name : String) : List Step :=
  s.steps.takeWhile fun step => !step.refersTo name

/-- How many arguments of raw fragments are bound before the first reference to a
name. -/
def argumentsBefore (s : Select) (values : ParameterValues) (name : String) : Nat :=
  countArguments values (s.stepsBefore name)

end Select

/-- How many of the numbers below `n` make a name that no value is supplied
for. -/
def openNumbers (values : ParameterValues) (n : Nat) : Nat :=
  ((List.range n).filter fun k => (values.lookup (Bindings.argumentName k)).isNone).length

/-- A raw fragment visited before the first reference takes the name: it is some
`pN` without a value, and there are more arguments than open numbers below `N`. -/
def Select.TakenByArgument (s : Select) (values : ParameterValues) (name : String) : Prop :=
  ∃ n, name = Bindings.argumentName n ∧ values.lookup name = none ∧
    openNumbers values n < s.argumentsBefore values name

/-- The entry of a name carries the value supplied under it, as the first reference
to the name renders it. -/
def Select.SentAsSupplied (s : Select) (values : ParameterValues) (q : Query) (name : String) :
    Prop :=
  ∃ value mapping payload, values.lookup name = some value ∧
    s.references.lookup name = some (some mapping) ∧ mapping.payload value = .ok payload ∧
    ∀ sent, ⟨referenceTo name, sent⟩ ∈ q.parameters ↔ sent = payload

theorem filterMap_reference_cons (name : String) (mapping : Option TypeMapping)
    (steps : List Step) :
    (Step.parameter name mapping :: steps).filterMap Step.reference? =
      (name, mapping) :: steps.filterMap Step.reference? := rfl

/-- The steps up to the first reference to a name. -/
theorem exists_first_reference {name : String} {steps : List Step}
    (h : name ∈ (steps.filterMap Step.reference?).map Prod.fst) :
    ∃ mapping rest,
      steps = (steps.takeWhile fun step => !step.refersTo name) ++
        .parameter name mapping :: rest ∧
      (steps.filterMap Step.reference?).lookup name = some mapping := by
  induction steps with
  | nil => simp at h
  | cons step steps ih =>
    by_cases hStep : step.refersTo name = true
    -- a step that refers to the name is its first reference
    · cases step with
      | parameter name' mapping =>
        obtain rfl : name' = name := beq_iff_eq.mp hStep
        have hTake : (Step.parameter name' mapping :: steps).takeWhile
            (fun step => !step.refersTo name') = [] :=
          List.takeWhile_cons_of_neg (by simp [hStep])
        rw [hTake, filterMap_reference_cons, List.lookup_cons_self]
        exact ⟨mapping, steps, rfl, rfl⟩
      | _ => cases hStep
    -- any other step is passed over, by the lookup of the name as well
    · have hTake : (step :: steps).takeWhile (fun step => !step.refersTo name) =
          step :: steps.takeWhile fun step => !step.refersTo name :=
        List.takeWhile_cons_of_pos (by simpa using hStep)
      have hSkip : (List.filterMap Step.reference? (step :: steps)).lookup name =
            (steps.filterMap Step.reference?).lookup name ∧
          name ∈ (steps.filterMap Step.reference?).map Prod.fst := by
        cases step with
        | parameter name' mapping =>
          have hNe : name ≠ name' := fun hEq => hStep (beq_iff_eq.mpr hEq.symm)
          rw [filterMap_reference_cons, List.map_cons, List.mem_cons] at h
          rw [filterMap_reference_cons, List.lookup_cons, beq_false_of_ne hNe]
          exact ⟨rfl, h.resolve_left hNe⟩
        | _ => exact ⟨rfl, h⟩
      obtain ⟨mapping, rest, hSplit, hLookup⟩ := ih hSkip.2
      refine ⟨mapping, rest, ?_, hSkip.1.trans hLookup⟩
      rw [hTake, List.cons_append, ← hSplit]

/-- No step before the first reference refers to the name. -/
theorem ne_of_parameter_mem_takeWhile {name name' : String} {mapping : Option TypeMapping}
    {steps : List Step}
    (h : .parameter name' mapping ∈ steps.takeWhile fun step => !step.refersTo name) :
    name' ≠ name := by
  rintro rfl
  have hNot := List.all_takeWhile (p := fun step => !Step.refersTo name' step) (l := steps)
  rw [List.all_eq_true] at hNot
  have := hNot _ h
  simp [Step.refersTo] at this

/-! ## Open numbers -/

section OpenNumbers

variable {values : ParameterValues}

theorem openNumbers_succ_of_open {n : Nat}
    (h : values.lookup (Bindings.argumentName n) = none) :
    openNumbers values (n + 1) = openNumbers values n + 1 := by
  simp [openNumbers, List.range_succ, h]

theorem openNumbers_succ_of_supplied {n : Nat}
    (h : (values.lookup (Bindings.argumentName n)).isSome = true) :
    openNumbers values (n + 1) = openNumbers values n := by
  have hClosed : (values.lookup (Bindings.argumentName n)).isNone = false := by
    rw [← Option.not_isSome, h]
    rfl
  simp [openNumbers, List.range_succ, hClosed]

theorem openNumbers_le_succ (values : ParameterValues) (n : Nat) :
    openNumbers values n ≤ openNumbers values (n + 1) := by
  cases h : values.lookup (Bindings.argumentName n) with
  | none =>
    have := openNumbers_succ_of_open h
    omega
  | some value =>
    have hEq := openNumbers_succ_of_supplied (by rw [h]; rfl)
    omega

theorem openNumbers_mono {m n : Nat} (h : m ≤ n) : openNumbers values m ≤ openNumbers values n :=
  monotone_nat_of_le_succ (openNumbers_le_succ values) h

/-- Supplied numbers are not counted. -/
theorem openNumbers_eq_of_supplied {m n : Nat} (h : m ≤ n)
    (hSupplied : ∀ k, m ≤ k → k < n → (values.lookup (Bindings.argumentName k)).isSome = true) :
    openNumbers values n = openNumbers values m := by
  induction n, h using Nat.le_induction with
  | base => rfl
  | succ n hmn ih =>
    rw [openNumbers_succ_of_supplied (hSupplied n hmn (by omega))]
    exact ih fun k hk hkn => hSupplied k hk (by omega)

/-- Below which of two numbers there are more open ones is told by their order,
if the smaller one is open. -/
theorem openNumbers_lt_iff {m n : Nat} (h : values.lookup (Bindings.argumentName m) = none) :
    openNumbers values m < openNumbers values n ↔ m < n := by
  constructor
  · intro hlt
    by_contra hle
    have hMono : openNumbers values n ≤ openNumbers values m := openNumbers_mono (by omega)
    omega
  · intro hmn
    -- the open number `m` itself is counted below `n`
    have hMono : openNumbers values (m + 1) ≤ openNumbers values n := openNumbers_mono (by omega)
    rw [openNumbers_succ_of_open h] at hMono
    omega

end OpenNumbers

/-! ## Where bound names come from -/

namespace Bindings

/-- The names that a run has bound: those of references, which are supplied, and
those of `count` arguments, whose numbers are the open ones below `next`. -/
structure Accounted (values : ParameterValues) (done : List Step) (count : Nat) (b : Bindings) :
    Prop where
  origin : ∀ p ∈ b.parameters,
    (∃ name mapping, .parameter name mapping ∈ done ∧ (values.lookup name).isSome = true ∧
      p.name = referenceTo name) ∨
    ∃ n < b.next, values.lookup (argumentName n) = none ∧ p.name = referenceTo (argumentName n)
  passed : ∀ n < b.next, values.lookup (argumentName n) = none →
    b.isBound (referenceTo (argumentName n)) = true
  counted : openNumbers values b.next = count

theorem accounted_empty (values : ParameterValues) : Accounted values [] 0 {} :=
  ⟨nofun, nofun, rfl⟩

variable {values : ParameterValues} {done : List Step} {count : Nat} {b : Bindings}

theorem Accounted.done_append (h : Accounted values done count b) (step : Step) :
    Accounted values (done ++ [step]) count b := by
  refine ⟨?_, h.passed, h.counted⟩
  intro p hp
  rcases h.origin p hp with ⟨name, mapping, hMem, hRest⟩ | hArgument
  · exact Or.inl ⟨name, mapping, List.mem_append_left _ hMem, hRest⟩
  · exact Or.inr hArgument

/-- A taken number that no argument has got is supplied. -/
theorem Accounted.supplied_of_taken (h : Accounted values done count b) {n : Nat}
    (hn : b.next ≤ n) (hTaken : b.isTaken values n = true) :
    (values.lookup (argumentName n)).isSome = true := by
  rcases isTaken_iff.mp hTaken with hBound | hSupplied
  · obtain ⟨p, hp, hName⟩ := isBound_iff.mp hBound
    -- a bound name that no argument has got is that of a reference, hence supplied; the
    -- arguments have got numbers below `next` only
    rcases h.origin p hp with ⟨name, mapping, -, hSupplied, hOrigin⟩ | ⟨k, hk, -, hOrigin⟩
    · rw [hName, referenceTo_inj] at hOrigin
      rw [hOrigin]
      exact hSupplied
    · rw [hName, referenceTo_inj] at hOrigin
      have := argumentName_injective hOrigin
      omega
  · exact hSupplied

theorem Accounted.bind (h : Accounted values done count b) {name : String} {mapping : TypeMapping}
    (hSupplied : (values.lookup name).isSome = true) (payload : Json) :
    Accounted values (done ++ [.parameter name (some mapping)]) count
      (b.bind (referenceTo name) payload) := by
  obtain ⟨hOrigin, hPassed, hCounted⟩ := h.done_append (.parameter name (some mapping))
  refine ⟨?_, ?_, hCounted⟩
  · intro p hp
    rcases List.mem_append.mp hp with hOld | hNew
    · exact hOrigin p hOld
    · rw [List.mem_singleton] at hNew
      exact Or.inl ⟨name, some mapping, by simp, hSupplied, by rw [hNew]⟩
  · intro n hn hOpen
    have hOld := hPassed n hn hOpen
    simp only [isBound, Bindings.bind, List.any_append, Bool.or_eq_true]
    exact Or.inl hOld

theorem Accounted.bindArgument (h : Accounted values done count b) (value : Value) :
    Accounted values done (count + 1) (b.bindArgument values value).2 := by
  have hNext := b.next_le_freeIndex values
  have hFree := b.freeIndex_free values
  -- the number that the argument gets is the only open one between the two values of `next`
  have hOpen : values.lookup (argumentName (b.freeIndex values)) = none := by
    rw [isTaken, Bool.or_eq_false_iff, Option.isSome_eq_false_iff, Option.isNone_iff_eq_none]
      at hFree
    exact hFree.2
  have hBetween : ∀ k, b.next ≤ k → k < b.freeIndex values →
      (values.lookup (argumentName k)).isSome = true := fun k hk hlt =>
    h.supplied_of_taken hk (taken_of_lt_freeIndex hk hlt)
  refine ⟨?_, ?_, ?_⟩
  · intro p hp
    rcases List.mem_append.mp hp with hOld | hNew
    · rcases h.origin p hOld with hReference | ⟨n, hn, hArgument⟩
      · exact Or.inl hReference
      · exact Or.inr ⟨n, by show n < b.freeIndex values + 1; omega, hArgument⟩
    · rw [List.mem_singleton] at hNew
      exact Or.inr ⟨b.freeIndex values, Nat.lt_succ_self _, hOpen, by rw [hNew]⟩
  -- below the old `next` nothing changes; above it the number of the argument is the only
  -- open one
  · intro n hn hOpen'
    have hn' : n < b.freeIndex values + 1 := hn
    by_cases hOld : n < b.next
    · exact (b.extends_bindArgument values value).isBound (h.passed n hOld hOpen')
    · have hEq : n = b.freeIndex values := by
        by_contra hNe
        have hSupplied := hBetween n (by omega) (by omega)
        rw [hOpen'] at hSupplied
        cases hSupplied
      rw [isBound_iff, hEq]
      exact ⟨_, List.mem_append_right _ (List.mem_singleton_self _), rfl⟩
  -- the numbers passed over are supplied and do not count
  · show openNumbers values (b.freeIndex values + 1) = count + 1
    rw [openNumbers_succ_of_open hOpen, openNumbers_eq_of_supplied hNext hBetween, h.counted]

theorem Accounted.bindArguments (h : Accounted values done count b) (items : List Value) :
    Accounted values done (count + items.length) (b.bindArguments values items).2 := by
  induction items generalizing b count with
  | nil => exact h
  | cons value rest ih =>
    have hRest := ih (h.bindArgument value)
    rw [List.length_cons, Nat.add_comm rest.length, ← Nat.add_assoc]
    exact hRest

end Bindings

theorem Step.Succeeds.accounted {ctx : Context} {done : List Step} {b b' : Bindings} {step : Step}
    (h : b.Accounted ctx.values done (countArguments ctx.values done))
    (hStep : step.Succeeds ctx b b') :
    b'.Accounted ctx.values (done ++ [step]) (countArguments ctx.values (done ++ [step])) := by
  rw [countArguments_concat]
  cases hStep with
  | bound => exact h.done_append _
  | named _ hValue => exact h.bind (by rw [hValue]; rfl) _
  | arguments hItems =>
    simp only [Step.argumentCount, hItems]
    exact (h.done_append _).bindArguments _
  | constants => exact h.done_append _

/-- After a run all bound names are accounted for. -/
theorem runSteps_accounted {ctx : Context} {b : Bindings} {steps : List Step}
    (h : runSteps ctx {} steps = .ok b) :
    b.Accounted ctx.values steps (countArguments ctx.values steps) :=
  runSteps_induction
    (P := fun done b => b.Accounted ctx.values done (countArguments ctx.values done))
    (Bindings.accounted_empty _) (fun _ _ _ _ h hStep => hStep.accounted h) h

/-! ## What references are sent -/

/-- When the first reference to a name is visited, the name is bound only if an
argument has taken it. -/
theorem isBound_iff_takenByArgument {s : Select} {registry : Registry} {values : ParameterValues}
    {name : String} {b : Bindings}
    (h : runSteps ⟨registry, values⟩ {} (s.stepsBefore name) = .ok b) :
    b.isBound (referenceTo name) = true ↔ s.TakenByArgument values name := by
  have hAccounted := runSteps_accounted h
  unfold Select.TakenByArgument Select.argumentsBefore
  constructor
  · intro hBound
    obtain ⟨p, hp, hName⟩ := Bindings.isBound_iff.mp hBound
    -- the name cannot come from an earlier reference, as the steps end before the first one
    rcases hAccounted.origin p hp with ⟨name', mapping, hMem, -, hOrigin⟩ | ⟨n, hn, hOpen, hOrigin⟩
    · rw [hName, referenceTo_inj] at hOrigin
      exact absurd hOrigin.symm (ne_of_parameter_mem_takeWhile hMem)
    · rw [hName, referenceTo_inj] at hOrigin
      refine ⟨n, hOrigin, hOrigin ▸ hOpen, ?_⟩
      rw [← hAccounted.counted]
      exact (openNumbers_lt_iff hOpen).mpr hn
  · rintro ⟨n, rfl, hOpen, hCount⟩
    rw [← hAccounted.counted, openNumbers_lt_iff hOpen] at hCount
    exact hAccounted.passed n hCount hOpen

/-- **What a reference is sent.** A query carries the value supplied under the name
of a reference exactly when no argument of a raw fragment has taken the name
before. Without a value and without such an argument there is no query. -/
theorem generate_sends_supplied_iff (s : Select) (registry : Registry) (values : ParameterValues)
    (options : GeneratorOptions) {name : String} (hName : name ∈ s.references.map Prod.fst) :
    (∀ q, s.generate registry values options = .ok q →
      (s.SentAsSupplied values q name ↔ ¬ s.TakenByArgument values name)) ∧
    (values.lookup name = none → ¬ s.TakenByArgument values name →
      ∃ e, s.generate registry values options = .error e) := by
  have hSends : ∀ q, s.generate registry values options = .ok q →
      (s.SentAsSupplied values q name ↔ ¬ s.TakenByArgument values name) := by
    intro q hQuery
    obtain ⟨b, hRun, hParameters⟩ := Select.generate_ok hQuery
    obtain ⟨mapping, rest, hSplit, hLookup⟩ := exists_first_reference hName
    rw [hSplit] at hRun
    obtain ⟨before, hBefore, hRest⟩ := runSteps_append_ok hRun
    obtain ⟨after, hFirst, hAfter⟩ := runSteps_cons_ok hRest
    rw [← isBound_iff_takenByArgument hBefore]
    cases Step.succeeds_of_run hFirst with
    -- bound already at the first reference: an argument has taken the name, which is not
    -- supplied, so nothing can be sent as supplied
    | bound hBound =>
      have hTaken := (isBound_iff_takenByArgument hBefore).mp hBound
      obtain ⟨-, -, hOpen, -⟩ := hTaken
      refine iff_of_false ?_ (not_not_intro hBound)
      rintro ⟨value, -, -, hValue, -⟩
      rw [hOpen] at hValue
      cases hValue
    -- bound by the first reference: what follows cannot bind the name anew
    | @named _ mapping value payload hFree hValue hPayload =>
      refine iff_of_true ?_ (by rw [hFree]; exact Bool.false_ne_true)
      refine ⟨value, mapping, payload, hValue, hLookup, hPayload, ?_⟩
      rw [hParameters]
      exact Bindings.Extends.mem_bind_iff hFree (runSteps_extends hAfter)
  refine ⟨hSends, ?_⟩
  intro hOpen hFree
  cases hQuery : s.generate registry values options with
  | error e => exact ⟨e, rfl⟩
  | ok q =>
    -- if there were a query, it would carry a value that is not supplied
    obtain ⟨value, -, -, hValue, -⟩ := (hSends q hQuery).mpr hFree
    rw [hOpen] at hValue
    cases hValue

/-- A raw fragment with its arguments, and a reference to `p0` visited after it. -/
def Select.fragmentThenReference : Select :=
  { Select.empty with
    projection := [⟨.scalarReference "c" .object, "", "c"⟩]
    sources := [⟨.fromSql "{0}" (.parameter "args"), some "c", false⟩]
    predicate := some (.parameter "p0" .int64 (some (.json .int64))) }

/-- With a value for `p0` the argument of the fragment passes over the name. -/
theorem supplied_sent_after_fragment :
    ∃ q, Select.fragmentThenReference.generate .builtin
        [("args", .array [.int 7]), ("p0", .int 3)] = .ok q ∧
      q.parameters = [⟨"@p1", .int 7⟩, ⟨"@p0", .int 3⟩] ∧
      Select.fragmentThenReference.SentAsSupplied
        [("args", .array [.int 7]), ("p0", .int 3)] q "p0" := by
  have hRun : runSteps ⟨.builtin, [("args", .array [.int 7]), ("p0", .int 3)]⟩ {}
      Select.fragmentThenReference.steps =
      .ok ⟨[⟨"@p1", .int 7⟩, ⟨"@p0", .int 3⟩], 2⟩ := rfl
  obtain ⟨q, hQuery, hParameters⟩ := Select.exists_query {} hRun
  refine ⟨q, hQuery, hParameters, ?_⟩
  refine ((generate_sends_supplied_iff _ .builtin _ {} (by decide)).1 q hQuery).mpr ?_
  rintro ⟨-, -, hOpen, -⟩
  cases hOpen

/-- Without a value for `p0` the argument takes the name, and the reference is
sent the argument. -/
theorem not_generate_sends_supplied :
    ¬ ∀ (s : Select) (registry : Registry) (values : ParameterValues)
        (options : GeneratorOptions) (q : Query), s.generate registry values options = .ok q →
      ∀ name ∈ s.references.map Prod.fst, s.SentAsSupplied values q name := by
  intro h
  have hRun : runSteps ⟨.builtin, [("args", .array [.int 7])]⟩ {}
      Select.fragmentThenReference.steps = .ok ⟨[⟨"@p0", .int 7⟩], 1⟩ := rfl
  obtain ⟨q, hQuery, -⟩ := Select.exists_query {} hRun
  obtain ⟨value, -, -, hValue, -⟩ := h _ _ _ _ q hQuery "p0" (by decide)
  cases hValue

end DocumentQuery
