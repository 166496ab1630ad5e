import DocumentQuery.Method.VectorDistance
import DocumentQuery.Proofs.Outcome

/-!
# What a distance of vectors is translated to

Three arguments of a call may describe the vectors: the operands by their mappings, and two
constants that are given or not. A wrong choice among them changes the distance that is computed,
and nothing fails. `Translation.Of` says argument by argument where each part of the answer comes
from; it does not go through the functions of the translator. The answer carries nothing else, and
a call is answered exactly if every part has a source.

Main definitions:

* `Expression.Retagged` — a node and the same node under another mapping.
* `Translation`, `Translation.Of` — the parts of an answer and their sources.
* `Answerable` — the calls that are answered with an expression.

Main results:

* `build_eq_ok_iff` — the parts of what is built.
* `translator_answers_iff` — which calls are answered, with what, and what plays no part.
-/

namespace DocumentQuery

/-! ## The same node under another mapping -/

namespace Expression

/-- Nodes with a place for a mapping. -/
def hasSlot : Expression → Bool
  | .keyAccess _ _ _ _ => true
  | .binary _ _ _ _ _ => true
  | .unary _ _ _ _ => true
  | .conditional _ _ _ _ _ => true
  | .function _ _ _ _ => true
  | .constant _ _ _ => true
  | .parameter _ _ _ => true
  | _ => false

/-- A node with nothing in the place for its mapping. -/
def withoutMapping : Expression → Expression
  | .keyAccess object property type _ => .keyAccess object property type none
  | .binary operator left right type _ => .binary operator left right type none
  | .unary operator operand type _ => .unary operator operand type none
  | .conditional test ifTrue ifFalse type _ => .conditional test ifTrue ifFalse type none
  | .function name arguments type _ => .function name arguments type none
  | .constant value type _ => .constant value type none
  | .parameter name type _ => .parameter name type none
  | e => e

/-- `e'` is the node `e` but for the mapping, which is `m` if there is a place for it. -/
structure Retagged (m : TypeMapping) (e e' : Expression) : Prop where
  mapping : e'.mapping? = if e.hasSlot then some m else none
  rest : e'.withoutMapping = e.withoutMapping

variable {m : TypeMapping} {e e' : Expression}

theorem hasSlot_withoutMapping (e : Expression) : e.withoutMapping.hasSlot = e.hasSlot := by
  cases e <;> rfl

theorem withMapping_withoutMapping (m : TypeMapping) (e : Expression) :
    e.withoutMapping.withMapping m = e.withMapping m := by
  cases e <;> rfl

/-- A mapping that is there already is put where it is. -/
theorem withMapping_eq_self (h : e.mapping? = if e.hasSlot then some m else none) :
    e.withMapping m = e := by
  cases e <;> first | rfl | (cases h; rfl)

theorem retagged_withMapping (m : TypeMapping) (e : Expression) :
    Retagged m e (e.withMapping m) := by
  cases e <;> exact ⟨rfl, rfl⟩

theorem retagged_iff : Retagged m e e' ↔ e' = e.withMapping m := by
  constructor
  · rintro ⟨hMapping, hRest⟩
    have hSlot : e'.hasSlot = e.hasSlot := by
      rw [← e'.hasSlot_withoutMapping, hRest, hasSlot_withoutMapping]
    calc e' = e'.withMapping m := (withMapping_eq_self (hSlot ▸ hMapping)).symm
      _ = e'.withoutMapping.withMapping m := (withMapping_withoutMapping m e').symm
      _ = e.withMapping m := by rw [hRest, withMapping_withoutMapping]
  · rintro rfl
    exact retagged_withMapping m e

end Expression

namespace VectorDistance

/-! ## Sources of an answer -/

/-- A node whose mapping is for vectors, and the description in it. -/
def Describes (e : Expression) (mapping : TypeMapping) (found : VectorType) : Prop :=
  e.mapping? = some mapping ∧ mapping.rendering = .vector found

/-- The mapping for vectors of the first operand, or that of the second one if the first has
none. -/
inductive Located (first second : Expression) (mapping : TypeMapping) (found : VectorType) :
    Prop where
  | first (h : Describes first mapping found)
  | second (hFirst : ∀ mapping found, ¬ Describes first mapping found)
      (h : Describes second mapping found)

/-- A constant truth value. -/
def IsFlag (e : Expression) : Prop := ∃ b type mapping, e = .constant (.bool b) type mapping

def IsDistanceFunction (e : Expression) (f : DistanceFunction) : Prop :=
  ∃ type mapping, e = .constant (.enum (.distanceFunction f)) type mapping

def IsElementType (e : Expression) (t : ElementType) : Prop :=
  ∃ type mapping, e = .constant (.enum (.vectorDataType t)) type mapping

/-- The flag of an answer is the argument of the call, a constant truth value, or false if there
is none. -/
def FlagFrom (registry : Registry) (argument : Option Expression) (flag : Expression) : Prop :=
  match argument with
  | some e => flag = e ∧ IsFlag e
  | none => ∃ mapping, registry.find? .bool = some mapping ∧
      flag = .constant (.bool false) .bool (some mapping)

/-- The distance function comes from the argument, or from the mapping if there is none. -/
def DistanceFunctionFrom (found : VectorType) (argument : Option Expression)
    (f : DistanceFunction) : Prop :=
  match argument with
  | some e => IsDistanceFunction e f
  | none => f = found.distanceFunction

/-- The element type comes from the argument; if there is none, from the mapping; and if that
leaves it open, from the type of the mapping. -/
def ElementTypeFrom (mapping : TypeMapping) (found : VectorType) (argument : Option Expression)
    (t : ElementType) : Prop :=
  match argument with
  | some e => IsElementType e t
  | none => t = found.elementType.getD (ElementType.defaultFor mapping.type)

/-- The parts of an answer, and the mapping that the vectors are described by. -/
structure Translation where
  mapping : TypeMapping
  /-- The description in the mapping. -/
  found : VectorType
  first : Expression
  second : Expression
  flag : Expression
  distanceFunction : DistanceFunction
  elementType : ElementType
  /-- The mapping of the description that is handed to the store. -/
  descriptor : TypeMapping

namespace Translation

/-- The description that is handed to the store. -/
def described (t : Translation) : VectorType :=
  ⟨t.distanceFunction, t.found.dimensions, some t.elementType⟩

/-- The call of the store function. -/
def expression (t : Translation) : Expression :=
  .function "VectorDistance"
    [t.first, t.second, t.flag, .constant (.vectorType t.described) .vectorType (some t.descriptor)]
    .float64 none

/-- Where the parts of an answer come from. The arguments behind the operands need not be
there. -/
structure Of (registry : Registry) (first second : Expression)
    (flag function element : Option Expression) (t : Translation) : Prop where
  located : Located first second t.mapping t.found
  first : first.Retagged t.mapping t.first
  second : second.Retagged t.mapping t.second
  flag : FlagFrom registry flag t.flag
  distanceFunction : DistanceFunctionFrom t.found function t.distanceFunction
  elementType : ElementTypeFrom t.mapping t.found element t.elementType
  descriptor : registry.find? .vectorType = some t.descriptor

end Translation

/-! ## The translator step by step -/

section Steps

variable {registry : Registry} {first second e : Expression} {mapping : TypeMapping}
  {found v : VectorType}

theorem vectorType?_eq_some_iff : mapping.vectorType? = some found ↔
    mapping.rendering = .vector found := by
  obtain ⟨type, rendering⟩ := mapping
  cases rendering <;> simp [TypeMapping.vectorType?]

theorem vectorMapping?_eq_some_iff :
    vectorMapping? e = some (mapping, found) ↔ Describes e mapping found := by
  rw [Describes, ← vectorType?_eq_some_iff]
  simp [vectorMapping?, Option.bind_eq_some_iff]

theorem locate_eq_ok_iff :
    locate first second = .ok (mapping, found) ↔ Located first second mapping found := by
  unfold locate
  constructor
  · intro h
    cases hFirst : vectorMapping? first with
    | some located =>
      rw [hFirst, Option.some_or] at h
      obtain rfl := Except.ok.inj h
      exact .first (vectorMapping?_eq_some_iff.mp hFirst)
    | none =>
      -- only now the second operand plays a part
      rw [hFirst, Option.none_or] at h
      cases hSecond : vectorMapping? second with
      | none =>
        rw [hSecond] at h
        cases h
      | some located =>
        rw [hSecond] at h
        obtain rfl := Except.ok.inj h
        refine .second (fun m v hDescribes => ?_) (vectorMapping?_eq_some_iff.mp hSecond)
        rw [vectorMapping?_eq_some_iff.mpr hDescribes] at hFirst
        cases hFirst
  · rintro (h | ⟨hFirst, h⟩)
    · rw [vectorMapping?_eq_some_iff.mpr h, Option.some_or]
    · have hNone : vectorMapping? first = none :=
        Option.eq_none_iff_forall_ne_some.mpr fun ⟨m, v⟩ hSome =>
          hFirst m v (vectorMapping?_eq_some_iff.mp hSome)
      rw [hNone, Option.none_or, vectorMapping?_eq_some_iff.mpr h]

theorem require_eq_ok_iff {type : DataType} :
    registry.require type = .ok mapping ↔ registry.find? type = some mapping := by
  unfold Registry.require
  cases registry.find? type <;> simp

theorem bruteForce_eq_ok_iff {flag : Option Expression} {answer : Expression} :
    bruteForce registry flag = .ok answer ↔ FlagFrom registry flag answer := by
  cases flag with
  | none =>
    simp only [bruteForce, bind_eq_ok, mapError_eq_ok, require_eq_ok_iff]
    exact exists_congr fun mapping => and_congr_right fun _ =>
      ⟨fun h => (Except.ok.inj h).symm, fun h => h ▸ rfl⟩
  | some e =>
    constructor
    · intro h
      unfold bruteForce at h
      split at h
      · next b type m hFlag =>
        cases hFlag
        exact ⟨(Except.ok.inj h).symm, b, type, m, rfl⟩
      · cases h
      · next hNone => cases hNone
    · rintro ⟨rfl, b, type, m, rfl⟩
      rfl

theorem distanceFunction_eq_ok_iff {f : DistanceFunction} :
    distanceFunction e = .ok f ↔ IsDistanceFunction e f := by
  constructor
  · intro h
    unfold distanceFunction at h
    split at h
    · cases h
      exact ⟨_, _, rfl⟩
    · cases h
  · rintro ⟨type, m, rfl⟩
    rfl

theorem elementType_eq_ok_iff {t : ElementType} :
    elementType e = .ok t ↔ IsElementType e t := by
  constructor
  · intro h
    unfold elementType at h
    split at h
    · cases h
      exact ⟨_, _, rfl⟩
    · cases h
  · rintro ⟨type, m, rfl⟩
    rfl

theorem override_eq_ok_iff {function element : Expression} :
    override found (some (function, element)) = .ok v ↔
      ∃ f t, IsDistanceFunction function f ∧ IsElementType element t ∧
        v = ⟨f, found.dimensions, some t⟩ := by
  simp only [override, bind_eq_ok, distanceFunction_eq_ok_iff, elementType_eq_ok_iff]
  constructor
  · rintro ⟨f, hFunction, t, hElement, h⟩
    exact ⟨f, t, hFunction, hElement, (Except.ok.inj h).symm⟩
  · rintro ⟨f, t, hFunction, hElement, rfl⟩
    exact ⟨f, hFunction, t, hElement, rfl⟩

theorem describe_eq (mapping : TypeMapping) (v : VectorType) :
    describe mapping v = ⟨v.distanceFunction, v.dimensions,
      some (v.elementType.getD (ElementType.defaultFor mapping.type))⟩ := by
  obtain ⟨f, dimensions, elementType⟩ := v
  cases elementType <;> rfl

/-- The description that is handed to the store, after both of its steps. -/
theorem exists_describe_iff {overrides : Option (Expression × Expression)}
    {described : VectorType} :
    (∃ v, override found overrides = .ok v ∧ describe mapping v = described) ↔
      ∃ f t, DistanceFunctionFrom found (overrides.map Prod.fst) f ∧
        ElementTypeFrom mapping found (overrides.map Prod.snd) t ∧
        described = ⟨f, found.dimensions, some t⟩ := by
  simp only [describe_eq]
  cases overrides with
  | none =>
    constructor
    · rintro ⟨v, h, rfl⟩
      obtain rfl := Except.ok.inj h
      exact ⟨_, _, rfl, rfl, rfl⟩
    · rintro ⟨f, t, rfl, rfl, rfl⟩
      exact ⟨found, rfl, rfl⟩
  | some constants =>
    obtain ⟨function, element⟩ := constants
    simp only [override_eq_ok_iff]
    constructor
    · rintro ⟨v, ⟨f, t, hFunction, hElement, rfl⟩, rfl⟩
      exact ⟨f, t, hFunction, hElement, rfl⟩
    · rintro ⟨f, t, hFunction, hElement, rfl⟩
      exact ⟨_, ⟨f, t, hFunction, hElement, rfl⟩, rfl⟩

/-- What is built consists of parts that each come from their source, and is built whenever there
are such parts. -/
theorem build_eq_ok_iff {flag : Option Expression} {overrides : Option (Expression × Expression)}
    {answer : Expression} :
    build registry first second flag overrides = .ok answer ↔
      ∃ t : Translation,
        t.Of registry first second flag (overrides.map Prod.fst) (overrides.map Prod.snd) ∧
          t.expression = answer := by
  simp only [build, bind_eq_ok, mapError_eq_ok, Prod.exists, locate_eq_ok_iff,
    bruteForce_eq_ok_iff, require_eq_ok_iff]
  constructor
  · rintro ⟨mapping, found, hLocated, flag', hFlag, v, hOverride, descriptor, hDescriptor, h⟩
    -- `v` is a description half-way: what is handed on has an element type in any case
    obtain ⟨f, t, hFunction, hElement, hDescribed⟩ :=
      exists_describe_iff.mp ⟨v, hOverride, rfl⟩
    refine ⟨⟨mapping, found, first.withMapping mapping, second.withMapping mapping, flag', f, t,
      descriptor⟩, ⟨hLocated, Expression.retagged_withMapping _ _,
      Expression.retagged_withMapping _ _, hFlag, hFunction, hElement, hDescriptor⟩, ?_⟩
    rw [← Except.ok.inj h, hDescribed]
    rfl
  · rintro ⟨t, ht, rfl⟩
    obtain ⟨v, hOverride, hDescribed⟩ :=
      exists_describe_iff.mpr ⟨_, _, ht.distanceFunction, ht.elementType, rfl⟩
    refine ⟨t.mapping, t.found, ht.located, t.flag, ht.flag, v, hOverride, t.descriptor,
      ht.descriptor, ?_⟩
    rw [hDescribed, ← Expression.retagged_iff.mp ht.first, ← Expression.retagged_iff.mp ht.second]
    rfl

end Steps

/-! ## Which calls are answered -/

section Calls

variable {registry : Registry} {arguments : List Expression} {first second : Expression}

/-- The parts of an answer come from the arguments of a call, except for the one in front. -/
def Translation.OfArguments (registry : Registry) (arguments : List Expression)
    (t : Translation) : Prop :=
  (arguments.length = 3 ∨ arguments.length = 4 ∨ arguments.length = 6) ∧
    ∃ first second, arguments[1]? = some first ∧ arguments[2]? = some second ∧
      t.Of registry first second arguments[3]? arguments[4]? arguments[5]?

theorem Translation.ofArguments_iff {t : Translation}
    (hArity : arguments.length = 3 ∨ arguments.length = 4 ∨ arguments.length = 6)
    (hFirst : arguments[1]? = some first) (hSecond : arguments[2]? = some second) :
    t.OfArguments registry arguments ↔
      t.Of registry first second arguments[3]? arguments[4]? arguments[5]? := by
  constructor
  · rintro ⟨-, first', second', hFirst', hSecond', h⟩
    obtain rfl := Option.some.inj (hFirst.symm.trans hFirst')
    obtain rfl := Option.some.inj (hSecond.symm.trans hSecond')
    exact h
  · exact fun h => ⟨hArity, first, second, hFirst, hSecond, h⟩

theorem translator_eq_ok_iff_of_build {instanceExpression : Option Expression}
    {answer : Expression} (flag : Option Expression) (overrides : Option (Expression × Expression))
    (hBuild : translator registry ⟨instanceExpression, method, arguments⟩ =
      (build registry first second flag overrides).map some)
    (hArity : arguments.length = 3 ∨ arguments.length = 4 ∨ arguments.length = 6)
    (hFirst : arguments[1]? = some first) (hSecond : arguments[2]? = some second)
    (hFlag : arguments[3]? = flag) (hFunction : arguments[4]? = overrides.map Prod.fst)
    (hElement : arguments[5]? = overrides.map Prod.snd) :
    translator registry ⟨instanceExpression, method, arguments⟩ = .ok (some answer) ↔
      ∃ t : Translation, t.OfArguments registry arguments ∧ t.expression = answer := by
  simp only [hBuild, map_eq_ok, Option.some_inj, exists_eq_right, build_eq_ok_iff]
  refine exists_congr fun t => and_congr_left' ?_
  rw [Translation.ofArguments_iff hArity hFirst hSecond, hFlag, hFunction, hElement]

/-- A call is answered with exactly the parts that have their sources in it. -/
theorem translator_eq_ok_iff (instanceExpression : Option Expression) {answer : Expression} :
    translator registry ⟨instanceExpression, method, arguments⟩ = .ok (some answer) ↔
      ∃ t : Translation, t.OfArguments registry arguments ∧ t.expression = answer := by
  match arguments with
  | [_, first, second] =>
    exact translator_eq_ok_iff_of_build none none rfl (.inl rfl) rfl rfl rfl rfl rfl
  | [_, first, second, flag] =>
    exact translator_eq_ok_iff_of_build (some flag) none rfl (.inr (.inl rfl)) rfl rfl rfl rfl rfl
  | [_, first, second, flag, function, element] =>
    exact translator_eq_ok_iff_of_build (some flag) (some (function, element)) rfl
      (.inr (.inr rfl)) rfl rfl rfl rfl rfl
  | [] | [_] | [_, _] | [_, _, _, _, _] | _ :: _ :: _ :: _ :: _ :: _ :: _ :: _ =>
    -- refused by their number alone
    refine iff_of_false nofun ?_
    rintro ⟨t, ⟨hArity, -⟩, -⟩
    simp at hArity

/-- What a call has to satisfy for an answer. -/
structure Answerable (registry : Registry) (arguments : List Expression) : Prop where
  arity : arguments.length = 3 ∨ arguments.length = 4 ∨ arguments.length = 6
  described : ∃ e mapping found, (arguments[1]? = some e ∨ arguments[2]? = some e) ∧
    Describes e mapping found
  flag : ∀ e ∈ arguments[3]?, IsFlag e
  distanceFunction : ∀ e ∈ arguments[4]?, ∃ f, IsDistanceFunction e f
  elementType : ∀ e ∈ arguments[5]?, ∃ t, IsElementType e t
  descriptor : (registry.find? .vectorType).isSome
  defaultFlag : arguments.length = 3 → (registry.find? .bool).isSome

/-- One of two operands that is described as a vector describes both. -/
theorem exists_located_iff : (∃ mapping found, Located first second mapping found) ↔
    ∃ e mapping found, (e = first ∨ e = second) ∧ Describes e mapping found := by
  constructor
  · rintro ⟨mapping, found, h | ⟨-, h⟩⟩
    · exact ⟨first, mapping, found, .inl rfl, h⟩
    · exact ⟨second, mapping, found, .inr rfl, h⟩
  · rintro ⟨e, mapping, found, he, h⟩
    by_cases hFirst : ∃ mapping found, Describes first mapping found
    · obtain ⟨mapping, found, hFirst⟩ := hFirst
      exact ⟨mapping, found, .first hFirst⟩
    · rcases he with rfl | rfl
      · exact absurd ⟨mapping, found, h⟩ hFirst
      · exact ⟨mapping, found, .second (fun m v hm => hFirst ⟨m, v, hm⟩) h⟩

theorem exists_flagFrom_iff {argument : Option Expression} :
    (∃ flag, FlagFrom registry argument flag) ↔
      (∀ e ∈ argument, IsFlag e) ∧ (argument = none → (registry.find? .bool).isSome) := by
  cases argument with
  | some e => simp [FlagFrom]
  | none => simp [FlagFrom, Option.isSome_iff_exists]

theorem exists_distanceFunctionFrom_iff {found : VectorType} {argument : Option Expression} :
    (∃ f, DistanceFunctionFrom found argument f) ↔
      ∀ e ∈ argument, ∃ f, IsDistanceFunction e f := by
  cases argument <;> simp [DistanceFunctionFrom]

theorem exists_elementTypeFrom_iff {mapping : TypeMapping} {found : VectorType}
    {argument : Option Expression} :
    (∃ t, ElementTypeFrom mapping found argument t) ↔ ∀ e ∈ argument, ∃ t, IsElementType e t := by
  cases argument <;> simp [ElementTypeFrom]

theorem Translation.OfArguments.answerable {t : Translation}
    (h : t.OfArguments registry arguments) : Answerable registry arguments := by
  obtain ⟨hArity, first, second, hFirst, hSecond, ht⟩ := h
  obtain ⟨hFlag, hDefault⟩ := exists_flagFrom_iff.mp ⟨_, ht.flag⟩
  obtain ⟨e, mapping, found, he, hDescribes⟩ := exists_located_iff.mp ⟨_, _, ht.located⟩
  refine ⟨hArity, ⟨e, mapping, found, ?_, hDescribes⟩, hFlag,
    exists_distanceFunctionFrom_iff.mp ⟨_, ht.distanceFunction⟩,
    exists_elementTypeFrom_iff.mp ⟨_, ht.elementType⟩,
    Option.isSome_iff_exists.mpr ⟨_, ht.descriptor⟩,
    fun hLength => hDefault (List.getElem?_eq_none (Nat.le_of_eq hLength))⟩
  rw [hFirst, hSecond, Option.some_inj, Option.some_inj]
  exact he.imp Eq.symm Eq.symm

theorem Answerable.exists_ofArguments (h : Answerable registry arguments) :
    ∃ t : Translation, t.OfArguments registry arguments := by
  have hLength : 3 ≤ arguments.length := by
    have hArity := h.arity
    omega
  obtain ⟨first, hFirst⟩ : ∃ e, arguments[1]? = some e := ⟨_, List.getElem?_eq_getElem (by omega)⟩
  obtain ⟨second, hSecond⟩ : ∃ e, arguments[2]? = some e :=
    ⟨_, List.getElem?_eq_getElem (by omega)⟩
  -- the mapping comes first, since both parts of the description fall back on it
  obtain ⟨mapping, found, hLocated⟩ : ∃ mapping found, Located first second mapping found := by
    obtain ⟨e, mapping, found, he, hDescribes⟩ := h.described
    rw [hFirst, hSecond, Option.some_inj, Option.some_inj] at he
    exact exists_located_iff.mpr ⟨e, mapping, found, he.imp Eq.symm Eq.symm, hDescribes⟩
  obtain ⟨flag, hFlag⟩ : ∃ flag, FlagFrom registry arguments[3]? flag := by
    refine exists_flagFrom_iff.mpr ⟨h.flag, fun hThird => h.defaultFlag ?_⟩
    exact Nat.le_antisymm (List.getElem?_eq_none_iff.mp hThird) hLength
  obtain ⟨f, hFunction⟩ : ∃ f, DistanceFunctionFrom found arguments[4]? f :=
    exists_distanceFunctionFrom_iff.mpr h.distanceFunction
  obtain ⟨u, hElement⟩ : ∃ u, ElementTypeFrom mapping found arguments[5]? u :=
    exists_elementTypeFrom_iff.mpr h.elementType
  obtain ⟨descriptor, hDescriptor⟩ := Option.isSome_iff_exists.mp h.descriptor
  exact ⟨⟨mapping, found, first.withMapping mapping, second.withMapping mapping, flag, f, u,
    descriptor⟩, h.arity, first, second, hFirst, hSecond, hLocated,
    Expression.retagged_withMapping _ _, Expression.retagged_withMapping _ _, hFlag, hFunction,
    hElement, hDescriptor⟩

/-- A call of the method is answered with an expression or refused, never passed on. -/
theorem translator_ne_ok_none (instanceExpression : Option Expression) :
    translator registry ⟨instanceExpression, method, arguments⟩ ≠ .ok none := by
  have hMap (x : Except QueryError Expression) : x.map some ≠ .ok none := by
    cases x <;> exact nofun
  match arguments with
  | [_, _, _] | [_, _, _, _] | [_, _, _, _, _, _] => exact hMap _
  | [] | [_] | [_, _] | [_, _, _, _, _] | _ :: _ :: _ :: _ :: _ :: _ :: _ :: _ => exact nofun

/-- Neither the instance nor the argument in front plays a part, not even in a refusal. -/
theorem translator_set_receiver (instanceExpression instanceExpression' : Option Expression)
    (receiver : Expression) :
    translator registry ⟨instanceExpression', method, arguments.set 0 receiver⟩ =
      translator registry ⟨instanceExpression, method, arguments⟩ := by
  match arguments with
  | [_, _, _] | [_, _, _, _] | [_, _, _, _, _, _] => rfl
  | [] | [_] | [_, _] | [_, _, _, _, _] | _ :: _ :: _ :: _ :: _ :: _ :: _ :: _ => rfl

/-- **The translation of a vector distance.** A call of the method is answered with an expression
exactly if it has three, four or six arguments, an operand is described as a vector, the arguments
behind the operands are constants of their kinds, and the registry has the mappings that are
needed. The answer consists of parts that each come from their source: the operands under the
mapping of the first that is described as a vector, the flag, and a description with the
dimensions of this mapping. The instance and the argument in front play no part. -/
theorem translator_answers_iff (registry : Registry) (instanceExpression : Option Expression)
    (arguments : List Expression) :
    ((∃ answer, translator registry ⟨instanceExpression, method, arguments⟩ = .ok (some answer)) ↔
      Answerable registry arguments) ∧
    (∀ answer, translator registry ⟨instanceExpression, method, arguments⟩ = .ok (some answer) ↔
      ∃ t : Translation, t.OfArguments registry arguments ∧ t.expression = answer) ∧
    translator registry ⟨instanceExpression, method, arguments⟩ ≠ .ok none ∧
    ∀ instanceExpression' receiver,
      translator registry ⟨instanceExpression', method, arguments.set 0 receiver⟩ =
        translator registry ⟨instanceExpression, method, arguments⟩ := by
  refine ⟨?_, fun answer => translator_eq_ok_iff instanceExpression,
    translator_ne_ok_none instanceExpression,
    fun instanceExpression' receiver => translator_set_receiver _ instanceExpression' receiver⟩
  constructor
  · rintro ⟨answer, h⟩
    obtain ⟨t, ht, -⟩ := (translator_eq_ok_iff instanceExpression).mp h
    exact ht.answerable
  · intro h
    obtain ⟨t, ht⟩ := h.exists_ofArguments
    exact ⟨t.expression, (translator_eq_ok_iff instanceExpression).mpr ⟨t, ht, rfl⟩⟩

end Calls

end VectorDistance

end DocumentQuery
