import DocumentQuery.Proofs.Method.VectorDistance
import DocumentQuery.Proofs.Query.Steps

/-!
# Translated distances in queries

What the translator answers with is handed to the generator, which makes demands of its own on
every node. Two of the arguments of the store function are constants. The description comes with
a mapping of the registry and is always written. So is the flag that the translator adds itself;
but a flag that the call gives is handed on with the mapping that it has, or without one, and a
query is generated from it only if that mapping is for JSON. Everything else that can fail are
the operands, which the call is about.

Main definitions:

* `Select.sortedBy` — the query that an answer is used in.
* `Renderable` — its constants are written, and only its operands can fail.

Main results:

* `answer_renderable_iff` — which answers are renderable.
* `not_answer_renderable` — a constant of the call that is not written.
-/

namespace DocumentQuery

/-! ## Queries sorted by a call -/

/-- The items of a collection, sorted by an expression. -/
def Select.sortedBy (e : Expression) : Select :=
  ((Select.empty.projectValue (.objectReference "c")).fromSource
    (.named (.objectReference "root") (some "c"))).orderBy (.ascending e)

theorem Select.lower_sortedBy (ctx : Context) (e : Expression) :
    (sortedBy e).lower ctx = do
      return [.text "SELECT ", .text "VALUE ", .text "c", .newline, .text "FROM ", .text "root",
        .text " ", .text "c", .newline, .text "ORDER BY "] ++ (← e.lower ctx) := by
  simp [sortedBy, projectValue, fromSource, orderBy, empty, Projection.of, Source.named,
    SortKey.ascending, Select.lower, lowerProjections, lowerSources, lowerOptional, lowerSortKeys,
    Lowering.paging, Lowering.source, Lowering.clause, ProjectionStyle.of, ProjectionStyle.clause,
    ProjectionStyle.item, Layout.separated, Expression.lower]

/-- A query sorted by a call fails as the arguments of the call do. -/
theorem Select.generate_sortedBy_error_iff {name : String} {arguments : List Expression}
    {type : DataType} {mapping : Option TypeMapping} {registry : Registry}
    {values : ParameterValues} {options : GeneratorOptions} {e : QueryError} :
    (sortedBy (.function name arguments type mapping)).generate registry values options =
        .error e ↔
      (lowerAll ⟨registry, values⟩ arguments).run {} = .error e := by
  rw [Select.generate_eq, map_eq_error, Select.lower_sortedBy, Expression.lower]
  simp only [StateT.run_bind]
  cases (lowerAll ⟨registry, values⟩ arguments).run {} with
  | error e' => simp
  | ok r => exact iff_of_false nofun nofun

theorem lowerAll_append (ctx : Context) (es es' : List Expression) :
    lowerAll ctx (es ++ es') = do
      let layouts ← lowerAll ctx es
      return layouts ++ (← lowerAll ctx es') := by
  induction es with
  | nil => simp [lowerAll]
  | cons e es ih => simp [lowerAll, ih]

/-! ## Constants that are always written -/

/-- In every query the expression is this text, and nothing is bound for it. -/
def WrittenAs (e : Expression) (text : String) : Prop :=
  ∀ ctx : Context, e.lower ctx = (pure [.text text] : Lowering Layout)

/-- A truth value as it is written in queries. -/
def flagText (b : Bool) : String := if b then "true" else "false"

/-- An object literal with a distance function and an element type. -/
def descriptorText (f : DistanceFunction) (t : ElementType) : String :=
  "\x7b'distanceFunction':'" ++ f.name ++ "', 'dataType':'" ++ t.name ++ "'\x7d"

theorem writtenAs_constant_iff {value : Value} {type : DataType} {mapping : Option TypeMapping}
    {text : String} : WrittenAs (.constant value type mapping) text ↔
      ∃ m, mapping = some m ∧ m.literal value = .ok text := by
  constructor
  · intro h
    -- one query tells: a constant reads nothing of the context
    have hRun : (Lowering.constant value mapping).run {} = .ok ([.text text], {}) := by
      rw [← Expression.lower, h ⟨.builtin, []⟩]
      rfl
    cases mapping with
    | none => cases hRun
    | some m =>
      refine ⟨m, rfl, ?_⟩
      cases hLiteral : m.literal value with
      | error e =>
        rw [Lowering.constant, hLiteral] at hRun
        cases hRun
      | ok literal =>
        rw [Lowering.constant, hLiteral] at hRun
        cases hRun
        rfl
  · rintro ⟨m, rfl, hLiteral⟩ ctx
    rw [Expression.lower, Lowering.constant, hLiteral]

theorem literal_bool_eq_ok_iff {m : TypeMapping} {b : Bool} {text : String} :
    m.literal (.bool b) = .ok text ↔ m.rendering = .json ∧ text = flagText b := by
  obtain ⟨type, rendering⟩ := m
  cases rendering with
  | json =>
    have hText : (Value.bool b).toJson.compact = flagText b := by cases b <;> rfl
    simp [TypeMapping.literal, hText, eq_comm]
  | _ => simp [TypeMapping.literal]

/-- A description with an element type has both entries. -/
theorem descriptorLiteral_of_elementType (f : DistanceFunction) (dimensions : UInt64)
    (t : ElementType) :
    TypeMapping.descriptorLiteral ⟨f, dimensions, some t⟩ = descriptorText f t := by
  cases f <;> cases t <;> rfl

namespace VectorDistance

/-! ## The parts of an answer in a query -/

/-- An answer whose constants are always written, so that a query sorted by it fails only where
the operands do. -/
def Renderable (answer : Expression) : Prop :=
  ∃ first second flag descriptor,
    answer = .function "VectorDistance" [first, second, flag, descriptor] .float64 none ∧
    (∀ values options e,
      (Select.sortedBy answer).generate .builtin values options = .error e →
        (lowerAll ⟨.builtin, values⟩ [first, second]).run {} = .error e) ∧
    (∃ b, WrittenAs flag (flagText b)) ∧ ∃ f t, WrittenAs descriptor (descriptorText f t)

section Parts

variable {instanceExpression : Option Expression} {arguments : List Expression}
  {answer : Expression} {t : Translation}

/-- The description is always written. -/
theorem Translation.OfArguments.writtenAs_descriptor (h : t.OfArguments .builtin arguments) :
    WrittenAs (.constant (.vectorType t.described) .vectorType (some t.descriptor))
      (descriptorText t.distanceFunction t.elementType) := by
  obtain ⟨-, first, second, -, -, ht⟩ := h
  have hDescriptor : t.descriptor = ⟨.vectorType, .descriptor⟩ :=
    (Option.some.inj ht.descriptor).symm
  refine writtenAs_constant_iff.mpr ⟨t.descriptor, rfl, ?_⟩
  rw [hDescriptor, ← descriptorLiteral_of_elementType _ t.found.dimensions]
  rfl

/-- The flag is written if the translator adds it, or if the call gives it with a mapping for
JSON. -/
theorem Translation.OfArguments.writtenAs_flag_iff (h : t.OfArguments .builtin arguments) :
    (∃ b, WrittenAs t.flag (flagText b)) ↔
      ∀ flag ∈ arguments[3]?, ∃ m, flag.mapping? = some m ∧ m.rendering = .json := by
  obtain ⟨-, first, second, -, -, ht⟩ := h
  have hFlag := ht.flag
  cases hThird : arguments[3]? with
  | none =>
    rw [hThird] at hFlag
    obtain ⟨m, hMapping, hEq⟩ := hFlag
    obtain rfl : TypeMapping.json .bool = m := Option.some.inj hMapping
    rw [hEq]
    exact iff_of_true ⟨false, writtenAs_constant_iff.mpr ⟨_, rfl, rfl⟩⟩ (by simp)
  | some e =>
    rw [hThird] at hFlag
    obtain ⟨hEq, b, type, mapping, rfl⟩ := hFlag
    rw [hEq]
    simp only [writtenAs_constant_iff, literal_bool_eq_ok_iff]
    constructor
    · rintro ⟨b', m, hMapping, hJson, -⟩ flag hMem
      cases hMem
      exact ⟨m, hMapping, hJson⟩
    · intro hJson
      obtain ⟨m, hMapping, hJson⟩ := hJson _ rfl
      exact ⟨b, m, hMapping, hJson, rfl⟩

/-- A query sorted by an answer fails where the operands do or, once these are lowered, where the
flag does. -/
theorem Translation.OfArguments.generate_error_iff (h : t.OfArguments .builtin arguments)
    {values : ParameterValues} {options : GeneratorOptions} {e : QueryError} :
    (Select.sortedBy t.expression).generate .builtin values options = .error e ↔
      (lowerAll ⟨.builtin, values⟩ [t.first, t.second]).run {} = .error e ∨
        ∃ r, (lowerAll ⟨.builtin, values⟩ [t.first, t.second]).run {} = .ok r ∧
          (t.flag.lower ⟨.builtin, values⟩).run r.2 = .error e := by
  have hDescriptor := h.writtenAs_descriptor ⟨.builtin, values⟩
  rw [Translation.expression, Select.generate_sortedBy_error_iff]
  change (lowerAll ⟨.builtin, values⟩ ([t.first, t.second] ++ [t.flag, _])).run {} = _ ↔ _
  rw [lowerAll_append, StateT.run_bind, bind_eq_error]
  -- behind the operands stand the flag and the description, and the latter cannot fail
  refine or_congr_right (exists_congr fun r => and_congr_right fun _ => ?_)
  rw [lowerAll, lowerAll, hDescriptor]
  simp only [StateT.run_bind]
  cases (t.flag.lower ⟨.builtin, values⟩).run r.2 with
  | error e' => simp
  | ok r' => exact iff_of_false nofun nofun

/-- **Translated distances in queries.** With the built-in mappings, the constants of an answer are
written in every query, and a query sorted by it fails only where the operands do, exactly if the
call gives no flag or one with a mapping for JSON. In any case the description is written, and
what fails besides the operands is the flag. -/
theorem answer_renderable_iff
    (h : translator .builtin ⟨instanceExpression, method, arguments⟩ = .ok (some answer)) :
    (Renderable answer ↔
      ∀ flag ∈ arguments[3]?, ∃ m, flag.mapping? = some m ∧ m.rendering = .json) ∧
    ∃ first second flag descriptor,
      answer = .function "VectorDistance" [first, second, flag, descriptor] .float64 none ∧
      (∃ f t, WrittenAs descriptor (descriptorText f t)) ∧
      ∀ values options e,
        (Select.sortedBy answer).generate .builtin values options = .error e ↔
          (lowerAll ⟨.builtin, values⟩ [first, second]).run {} = .error e ∨
            ∃ r, (lowerAll ⟨.builtin, values⟩ [first, second]).run {} = .ok r ∧
              (flag.lower ⟨.builtin, values⟩).run r.2 = .error e := by
  obtain ⟨t, ht, rfl⟩ := (translator_eq_ok_iff instanceExpression).mp h
  refine ⟨?_, t.first, t.second, t.flag, _, rfl, ⟨_, _, ht.writtenAs_descriptor⟩,
    fun values options e => ht.generate_error_iff⟩
  rw [← ht.writtenAs_flag_iff]
  constructor
  · rintro ⟨first, second, flag, descriptor, hAnswer, -, hFlag, -⟩
    -- the third argument of the answer can only be the flag
    have hSame : some t.flag = some flag :=
      congrArg (fun arguments => arguments[2]?) (Expression.function.inj hAnswer).2.1
    rwa [Option.some.inj hSame]
  · rintro ⟨b, hFlag⟩
    refine ⟨t.first, t.second, t.flag, _, rfl, fun values options e hError => ?_, ⟨b, hFlag⟩,
      _, _, ht.writtenAs_descriptor⟩
    refine (ht.generate_error_iff.mp hError).resolve_right ?_
    rintro ⟨r, -, hRefused⟩
    rw [hFlag ⟨.builtin, values⟩] at hRefused
    cases hRefused

end Parts

/-! ## Two calls -/

/-- A property that is searched as a vector. -/
def embedding : Expression :=
  .keyAccess (.objectReference "c") "Embedding" (.array .int8)
    (some (.vector (.array .int8) ⟨.cosine, 10, none⟩))

/-- A vector that is supplied, beside a stored one, a flag, and constants for the description that
have no mappings of their own. -/
def describedCall : List Expression :=
  [.constant .null .object none, .parameter "v" (.array .int8) none, embedding,
    .constant (.bool true) .bool (some (.json .bool)),
    .constant (.enum (.distanceFunction .euclidean)) .distanceFunction none,
    .constant (.enum (.vectorDataType .uint8)) .vectorDataType none]

/-- The constants for the description need no mappings. -/
theorem describedCall_renderable :
    ∃ answer, translator .builtin ⟨none, method, describedCall⟩ = .ok (some answer) ∧
      Renderable answer := by
  obtain ⟨answer, hAnswer⟩ : ∃ answer,
      translator .builtin ⟨none, method, describedCall⟩ = .ok (some answer) := ⟨_, rfl⟩
  refine ⟨answer, hAnswer, (answer_renderable_iff hAnswer).1.mpr ?_⟩
  rintro flag ⟨⟩
  exact ⟨_, rfl, rfl⟩

/-- The flag of a call may have no mapping, and is not written then. -/
theorem not_answer_renderable :
    ¬ ∀ (instanceExpression : Option Expression) (arguments : List Expression)
        (answer : Expression),
        translator .builtin ⟨instanceExpression, method, arguments⟩ = .ok (some answer) →
          Renderable answer := by
  intro hRenderable
  have hAnswer := hRenderable none
    [.constant .null .object none, embedding, .parameter "v" (.array .int8) none,
      .constant (.bool true) .bool none] _ rfl
  obtain ⟨first, second, flag, descriptor, hAnswer, -, ⟨b, hFlag⟩, -⟩ := hAnswer
  obtain rfl : Expression.constant (.bool true) .bool none = flag :=
    Option.some.inj (congrArg (fun arguments => arguments[2]?)
      (Expression.function.inj hAnswer).2.1)
  obtain ⟨m, hMapping, -⟩ := writtenAs_constant_iff.mp hFlag
  cases hMapping

end VectorDistance

end DocumentQuery
