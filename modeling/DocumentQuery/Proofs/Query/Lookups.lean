import DocumentQuery.Proofs.Query.Steps

/-!
# What a query looks up in the registry

Constants and parameters of a tree carry their mappings with them. The constants that fill a
raw fragment carry none: each of them is written under the mapping that the registry finds
for its own type. So registries that find the same for these types give the same query,
whatever else has been registered.

Main definitions:

* `Select.inlined` — the constants that fill the raw fragments of a tree.

Main results:

* `Lowering.rawLiterals_congr` — the literals of such constants.
* `stepRelation_registry` — no other node looks at the registry.
* `generate_congr_registry` — two registries.
-/

namespace DocumentQuery

/-- The constants that a raw fragment is filled with. -/
def RawArguments.inlined : RawArguments → List Value
  | .constant (.array items) => items
  | _ => []

def Step.inlined : Step → List Value
  | .raw _ arguments => arguments.inlined
  | _ => []

/-- The constants that the raw fragments of a tree are filled with. -/
def Select.inlined (s : Select) : List Value := s.steps.flatMap Step.inlined

/-- For the type of each of these values both registries find the same mapping, or none. -/
def Registry.Agree (registry registry' : Registry) (values : List Value) : Prop :=
  ∀ value ∈ values, registry.find? value.dataType = registry'.find? value.dataType

variable {registry registry' : Registry}

theorem Registry.require_congr {type : DataType} (h : registry.find? type = registry'.find? type) :
    registry.require type = registry'.require type := by
  rw [require, require, h]

namespace Lowering

theorem rawLiterals_congr {items : List Value} (h : registry.Agree registry' items) :
    rawLiterals registry items = rawLiterals registry' items := by
  induction items with
  | nil => rfl
  | cons item items ih =>
    obtain ⟨hFirst, hRest⟩ := List.forall_mem_cons.mp h
    rw [rawLiterals, rawLiterals, Registry.require_congr hFirst, ih hRest]

theorem substitutions_congr {arguments : RawArguments}
    (h : registry.Agree registry' arguments.inlined) (values : ParameterValues) :
    substitutions ⟨registry, values⟩ arguments = substitutions ⟨registry', values⟩ arguments := by
  cases arguments with
  -- what is supplied under a name is bound, not written
  | parameter name => rfl
  | constant value =>
    cases value with
    | array items =>
      have hLiterals : rawLiterals registry items = rawLiterals registry' items :=
        rawLiterals_congr h
      rw [substitutions, substitutions, hLiterals]
    | _ => rfl

end Lowering

/-- Computations are equal if the registries agree on the constants that their raw fragments
are filled with. -/
theorem stepRelation_registry (registry registry' : Registry) (values : ParameterValues) :
    StepRelation ⟨registry, values⟩ ⟨registry', values⟩ fun _ steps m m' =>
      registry.Agree registry' (steps.flatMap Step.inlined) → m = m' where
  pure _ _ := rfl
  fail _ _ _ := rfl
  bind hm hf h := by
    rw [List.flatMap_append] at h
    obtain ⟨hFirst, hRest⟩ := List.forall_mem_append.mp h
    rw [hm hFirst]
    exact congrArg _ (funext fun a => hf a hRest)
  parameter _ _ _ := rfl
  raw sql arguments h := by
    rw [List.flatMap_singleton] at h
    unfold Lowering.fromSql
    rw [Lowering.substitutions_congr h]

/-- **The registry is asked about inlined constants only.** Two registries that find the same
mappings for the types of the constants in raw fragments give the same query, or the same
error. A tree without such constants gives the same with every registry. -/
theorem generate_congr_registry (s : Select) :
    (∀ registry registry' : Registry,
      (∀ value ∈ s.inlined, registry.find? value.dataType = registry'.find? value.dataType) →
      ∀ (values : ParameterValues) (options : GeneratorOptions),
        s.generate registry values options = s.generate registry' values options) ∧
    (s.inlined = [] → ∀ (registry registry' : Registry) (values : ParameterValues)
      (options : GeneratorOptions),
        s.generate registry values options = s.generate registry' values options) := by
  have hSame (registry registry' : Registry) (h : registry.Agree registry' s.inlined)
      (values : ParameterValues) (options : GeneratorOptions) :
      s.generate registry values options = s.generate registry' values options := by
    rw [Select.generate_eq, Select.generate_eq,
      s.lower_stepwise (stepRelation_registry registry registry' values) h]
  refine ⟨hSame, fun hNone registry registry' => hSame registry registry' ?_⟩
  rw [hNone]
  exact nofun

/-- A list and a number written into a raw fragment, beside a string and a parameter. -/
def Select.inlinedList : Select :=
  { Select.empty with
    projection := [⟨.constant (.string "a") .string (some (.json .string)), "", ""⟩,
      ⟨.parameter "p" .guid (some (.json .guid)), "", ""⟩]
    sources := [⟨.fromSql "{0} {1}" (.constant (.array [.array [.int 7], .int 8])), none, false⟩] }

/-- A registry that takes strings and unique identifiers for members of enumerations. -/
def Registry.ofNames : Registry :=
  (Registry.builtin.register ⟨.string, .enumMember⟩).register ⟨.guid, .enumMember⟩

/-- Strings and unique identifiers may be registered otherwise, lists go by their elements. -/
theorem inlinedList_registry :
    Registry.ofNames.find? .string ≠ Registry.builtin.find? .string ∧
      (∀ value ∈ Select.inlinedList.inlined,
        Registry.ofNames.find? value.dataType = Registry.builtin.find? value.dataType) ∧
      Select.inlinedList.generate .ofNames [("p", .int 1)] =
        .ok ⟨"SELECT \"a\", @p\nFROM (\n  [7] 8\n)", [⟨"@p", .int 1⟩]⟩ := by
  have hAgree : ∀ value ∈ Select.inlinedList.inlined,
      Registry.ofNames.find? value.dataType = Registry.builtin.find? value.dataType := by
    have hItems : Select.inlinedList.inlined = [.array [.int 7], .int 8] := rfl
    rw [hItems, List.forall_mem_cons, List.forall_mem_singleton]
    exact ⟨rfl, rfl⟩
  refine ⟨by decide, hAgree, ?_⟩
  rw [(generate_congr_registry .inlinedList).1 .ofNames .builtin hAgree]
  rfl

end DocumentQuery
