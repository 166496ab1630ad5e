import DocumentQuery.Proofs.Query.Projections

/-!
# Mappings that nothing is written under

Seven kinds of nodes can carry a mapping, but only two of them have a value to write: constants
and parameters. On properties, operators and function calls a mapping is a note for whoever
builds the tree. Neither the layout of such a node depends on it, nor what is told from the node
where another one looks at it: its static type, whether it is a call, a membership or a select.

Main definitions:

* `Select.unmapped` — a select without such notes.

Main results:

* `Select.lower_unmapped` — it is lowered to the same layout.
* `generate_congr_unmapped` — trees that differ in such notes only.
-/

namespace DocumentQuery

/-! ## Trees without idle mappings -/

mutual

/-- An expression without mappings, except on constants and parameters. -/
def Expression.unmapped : Expression → Expression
  | .select select => .select select.unmapped
  | .objectReference name => .objectReference name
  | .scalarReference name type => .scalarReference name type
  | .keyAccess object property type _ => .keyAccess object.unmapped property type none
  | .objectAccess object property => .objectAccess object.unmapped property
  | .entityProjection access => .entityProjection access.unmapped
  | .objectArrayProjection access => .objectArrayProjection access.unmapped
  | .binary operator left right type _ => .binary operator left.unmapped right.unmapped type none
  | .unary operator operand type _ => .unary operator operand.unmapped type none
  | .conditional test ifTrue ifFalse type _ =>
    .conditional test.unmapped ifTrue.unmapped ifFalse.unmapped type none
  | .function name arguments type _ => .function name (unmappedAll arguments) type none
  | .constant value type mapping => .constant value type mapping
  | .parameter name type mapping => .parameter name type mapping
  | .isIn item none valuesParameter => .isIn item.unmapped none valuesParameter
  | .isIn item (some values) valuesParameter =>
    .isIn item.unmapped (some (unmappedAll values)) valuesParameter
  | .arrayConstant items => .arrayConstant (unmappedAll items)
  | .exists subquery => .exists subquery.unmapped
  | .array subquery => .array subquery.unmapped
  | .scalarSubquery subquery => .scalarSubquery subquery.unmapped
  | .fromSql sql arguments => .fromSql sql arguments
termination_by structural e => e

def unmappedAll : List Expression → List Expression
  | [] => []
  | e :: es => e.unmapped :: unmappedAll es
termination_by structural es => es

def unmappedOptional : Option Expression → Option Expression
  | none => none
  | some e => some e.unmapped
termination_by structural e => e

/-- A select without mappings, except on constants and parameters. -/
def Select.unmapped : Select → Select
  | ⟨isDistinct, projection, singleValue, sources, predicate, orderings, offset, limit⟩ =>
    ⟨isDistinct, unmappedProjections projection, singleValue, unmappedSources sources,
      unmappedOptional predicate, unmappedSortKeys orderings, unmappedOptional offset,
      unmappedOptional limit⟩
termination_by structural s => s

def Projection.unmapped : Projection → Projection
  | ⟨expression, aliasName, name⟩ => ⟨expression.unmapped, aliasName, name⟩
termination_by structural p => p

def unmappedProjections : List Projection → List Projection
  | [] => []
  | p :: ps => p.unmapped :: unmappedProjections ps
termination_by structural ps => ps

def Source.unmapped : Source → Source
  | ⟨container, aliasName, eachItem⟩ => ⟨container.unmapped, aliasName, eachItem⟩
termination_by structural s => s

def unmappedSources : List Source → List Source
  | [] => []
  | s :: ss => s.unmapped :: unmappedSources ss
termination_by structural ss => ss

def SortKey.unmapped : SortKey → SortKey
  | ⟨expression, isAscending⟩ => ⟨expression.unmapped, isAscending⟩
termination_by structural k => k

def unmappedSortKeys : List SortKey → List SortKey
  | [] => []
  | k :: ks => k.unmapped :: unmappedSortKeys ks
termination_by structural ks => ks

end

/-- Whether a node is written under the mapping that it carries. -/
def Expression.usesMapping : Expression → Bool
  | .constant _ _ _ => true
  | .parameter _ _ _ => true
  | _ => false

/-- A mapping is no part of a node that is not written under it. -/
theorem Expression.unmapped_withMapping {e : Expression} (h : e.usesMapping = false)
    (mapping : TypeMapping) : (e.withMapping mapping).unmapped = e.unmapped := by
  cases e with
  | constant value type mapping => cases h
  | parameter name type mapping => cases h
  | _ => rfl

/-! ## What is told from a node -/

mutual

/-- Static types do not depend on mappings. -/
theorem Expression.dataType_unmapped : ∀ e : Expression, e.unmapped.dataType = e.dataType
  | .array subquery => congrArg DataType.array (Select.valueType_unmapped subquery)
  | .scalarSubquery subquery => Select.valueType_unmapped subquery
  | .arrayConstant [] => rfl
  | .arrayConstant (item :: _) => congrArg DataType.array (Expression.dataType_unmapped item)
  | .isIn _ none _ => rfl
  | .isIn _ (some _) _ => rfl
  | .select _ => rfl
  | .objectReference _ => rfl
  | .scalarReference _ _ => rfl
  | .keyAccess _ _ _ _ => rfl
  | .objectAccess _ _ => rfl
  | .entityProjection _ => rfl
  | .objectArrayProjection _ => rfl
  | .binary _ _ _ _ _ => rfl
  | .unary _ _ _ _ => rfl
  | .conditional _ _ _ _ _ => rfl
  | .function _ _ _ _ => rfl
  | .constant _ _ _ => rfl
  | .parameter _ _ _ => rfl
  | .exists _ => rfl
  | .fromSql _ _ => rfl
termination_by structural e => e

theorem Select.valueType_unmapped : ∀ s : Select, s.unmapped.valueType = s.valueType
  | ⟨_, [], _, _, _, _, _, _⟩ => rfl
  | ⟨_, [⟨expression, _, _⟩], _, _, _, _, _, _⟩ => Expression.dataType_unmapped expression
  | ⟨_, ⟨_, _, _⟩ :: _ :: _, _, _, _, _, _, _⟩ => rfl
termination_by structural s => s

end

theorem unmappedProjections_eq (ps : List Projection) :
    unmappedProjections ps = ps.map Projection.unmapped := by
  induction ps with
  | nil => rfl
  | cons p ps ih => rw [unmappedProjections, ih, List.map_cons]

theorem unmappedSources_eq (ss : List Source) : unmappedSources ss = ss.map Source.unmapped := by
  induction ss with
  | nil => rfl
  | cons s ss ih => rw [unmappedSources, ih, List.map_cons]

theorem unmappedSortKeys_eq (ks : List SortKey) :
    unmappedSortKeys ks = ks.map SortKey.unmapped := by
  induction ks with
  | nil => rfl
  | cons k ks ih => rw [unmappedSortKeys, ih, List.map_cons]

theorem unmappedOptional_eq (e : Option Expression) :
    unmappedOptional e = e.map Expression.unmapped := by
  cases e <;> rfl

theorem ProjectionStyle.isFunction_unmapped (e : Expression) :
    isFunction e.unmapped = isFunction e := by
  cases e with
  | isIn item values valuesParameter => cases values <;> rfl
  | _ => rfl

/-- How projections are written does not depend on idle mappings. -/
theorem ProjectionStyle.of_unmapped (singleValue : Bool) (ps : List Projection) :
    of singleValue (unmappedProjections ps) = of singleValue ps := by
  have hObject : needsObject (ps.map Projection.unmapped) = needsObject ps := by
    refine needsObject_map_of (fun p => ?_) (fun p => ?_) (fun p => ?_) ps
    · cases p
      rfl
    · cases p
      rfl
    · cases p
      exact isFunction_unmapped _
  rw [of, of, unmappedProjections_eq, hObject]

theorem Select.isSimpleValue_unmapped (s : Select) :
    s.unmapped.isSimpleValue = s.isSimpleValue := by
  obtain ⟨isDistinct, projection, singleValue, sources, predicate, orderings, offset, limit⟩ := s
  simp only [unmapped, isSimpleValue, unmappedProjections_eq, unmappedSources_eq,
    unmappedSortKeys_eq, unmappedOptional_eq, List.isEmpty_map, List.length_map, Option.isNone_map]

/-- Only selects are selects without their idle mappings. -/
theorem Expression.unmapped_ne_select {e : Expression} (h : ∀ s, e ≠ .select s) (s : Select) :
    e.unmapped ≠ .select s := by
  intro hSelect
  cases e with
  | select s' => exact h s' rfl
  | isIn item values valuesParameter => cases values <;> exact nomatch hSelect
  | _ => exact nomatch hSelect

/-! ## Lowering -/

section Lowering

variable (ctx : Context)

mutual

theorem Expression.lower_unmapped : ∀ e : Expression, e.unmapped.lower ctx = e.lower ctx
  | .select selected => Select.lower_unmapped selected
  | .objectReference _ => rfl
  | .scalarReference _ _ => rfl
  | .keyAccess object _ _ _ => by
    rw [Expression.unmapped, Expression.lower, Expression.lower, Expression.lower_unmapped object]
  | .objectAccess object _ => by
    rw [Expression.unmapped, Expression.lower, Expression.lower, Expression.lower_unmapped object]
  | .entityProjection access => Expression.lower_unmapped access
  | .objectArrayProjection access => Expression.lower_unmapped access
  | .binary _ left right _ _ => by
    rw [Expression.unmapped, Expression.lower, Expression.lower, left.dataType_unmapped,
      Expression.lower_unmapped left, Expression.lower_unmapped right]
  | .unary operator operand _ _ => by
    have hOperand : Lowering.unary operator operand.unmapped.dataType (operand.unmapped.lower ctx) =
        Lowering.unary operator operand.dataType (operand.lower ctx) := by
      rw [operand.dataType_unmapped, Expression.lower_unmapped operand]
    cases operator with
    | not =>
      -- a negated membership is lowered past the node of the membership itself
      cases operand with
      | isIn item values valuesParameter =>
        cases values with
        | none =>
          rw [Expression.unmapped, Expression.unmapped, Expression.lower, Expression.lower,
            Expression.lower_unmapped item]
        | some values =>
          rw [Expression.unmapped, Expression.unmapped, Expression.lower, Expression.lower,
            Expression.lower_unmapped item, lowerAll_unmapped values]
      | _ => exact hOperand
    | _ => exact hOperand
  | .conditional test ifTrue ifFalse _ _ => by
    rw [Expression.unmapped, Expression.lower, Expression.lower, Expression.lower_unmapped test,
      Expression.lower_unmapped ifTrue, Expression.lower_unmapped ifFalse]
  | .function _ arguments _ _ => by
    rw [Expression.unmapped, Expression.lower, Expression.lower, lowerAll_unmapped arguments]
  | .constant _ _ _ => rfl
  | .parameter _ _ _ => rfl
  | .isIn item none _ => by
    rw [Expression.unmapped, Expression.lower, Expression.lower, Expression.lower_unmapped item]
  | .isIn item (some values) _ => by
    rw [Expression.unmapped, Expression.lower, Expression.lower, Expression.lower_unmapped item,
      lowerAll_unmapped values]
  | .arrayConstant items => by
    rw [Expression.unmapped, Expression.lower, Expression.lower, lowerAll_unmapped items]
  | .exists subquery => by
    rw [Expression.unmapped, Expression.lower, Expression.lower, Select.lower_unmapped subquery]
  | .array subquery => by
    rw [Expression.unmapped, Expression.lower, Expression.lower, Select.lower_unmapped subquery]
  | .scalarSubquery subquery => by
    rw [Expression.unmapped, Expression.lower, Expression.lower, Select.lower_unmapped subquery]
  | .fromSql _ _ => rfl
termination_by structural e => e

theorem lowerAll_unmapped : ∀ es : List Expression, lowerAll ctx (unmappedAll es) = lowerAll ctx es
  | [] => rfl
  | e :: es => by
    rw [unmappedAll, lowerAll, lowerAll, Expression.lower_unmapped e, lowerAll_unmapped es]
termination_by structural es => es

theorem lowerOptional_unmapped : ∀ e : Option Expression,
    lowerOptional ctx (unmappedOptional e) = lowerOptional ctx e
  | none => rfl
  | some e => by
    rw [unmappedOptional, lowerOptional, lowerOptional, Expression.lower_unmapped e]
termination_by structural e => e

/-- A select is lowered in the same way without its idle mappings. -/
theorem Select.lower_unmapped : ∀ s : Select, s.unmapped.lower ctx = s.lower ctx
  | ⟨_, projection, _, sources, predicate, orderings, offset, limit⟩ => by
    have hLength : (unmappedProjections projection).length = projection.length := by
      rw [unmappedProjections_eq, List.length_map]
    have hEmpty : (unmappedProjections projection).isEmpty = projection.isEmpty := by
      rw [unmappedProjections_eq, List.isEmpty_map]
    have hProjections := fun style => lowerProjections_unmapped style projection
    rw [Select.unmapped, Select.lower, Select.lower, hLength, hEmpty, ProjectionStyle.of_unmapped,
      lowerSources_unmapped sources, lowerOptional_unmapped predicate,
      lowerSortKeys_unmapped orderings, lowerOptional_unmapped offset,
      lowerOptional_unmapped limit]
    simp only [hProjections]
termination_by structural s => s

theorem lowerProjections_unmapped (style : ProjectionStyle) : ∀ ps : List Projection,
    lowerProjections ctx style (unmappedProjections ps) = lowerProjections ctx style ps
  | [] => rfl
  | ⟨expression, aliasName, name⟩ :: ps => by
    have hItem : style.item ⟨expression.unmapped, aliasName, name⟩ =
        style.item ⟨expression, aliasName, name⟩ := by
      cases style <;> rfl
    rw [unmappedProjections, Projection.unmapped, lowerProjections, lowerProjections, hItem,
      Expression.lower_unmapped expression, lowerProjections_unmapped style ps]
termination_by structural ps => ps

theorem lowerSources_unmapped : ∀ ss : List Source,
    lowerSources ctx (unmappedSources ss) = lowerSources ctx ss
  | [] => rfl
  | [⟨container, aliasName, eachItem⟩] => by
    have ih := Expression.lower_unmapped container
    rw [unmappedSources, unmappedSources, Source.unmapped]
    by_cases hSelect : ∃ s, container = .select s
    · obtain ⟨s, rfl⟩ := hSelect
      have hLower : s.unmapped.lower ctx = s.lower ctx := ih
      rw [Expression.unmapped, lowerSources, lowerSources, s.isSimpleValue_unmapped, hLower]
    · have hOther := not_exists.mp hSelect
      rw [lowerSources_other (Expression.unmapped_ne_select hOther), lowerSources_other hOther, ih]
  | _ :: _ :: _ => by
    rw [unmappedSources, unmappedSources, lowerSources, lowerSources]
termination_by structural ss => ss

theorem lowerSortKeys_unmapped : ∀ ks : List SortKey,
    lowerSortKeys ctx (unmappedSortKeys ks) = lowerSortKeys ctx ks
  | [] => rfl
  | ⟨expression, _⟩ :: ks => by
    rw [unmappedSortKeys, SortKey.unmapped, lowerSortKeys, lowerSortKeys,
      Expression.lower_unmapped expression, lowerSortKeys_unmapped ks]
termination_by structural ks => ks

end

end Lowering

theorem Select.generate_unmapped (s : Select) (registry : Registry) (values : ParameterValues)
    (options : GeneratorOptions) :
    s.unmapped.generate registry values options = s.generate registry values options := by
  rw [generate_eq, generate_eq, lower_unmapped]

/-- **Mappings matter on constants and parameters only.** Two selects that differ in nothing but
the mappings of other nodes give the same query, or the same error. So it is no difference if
such a node gets a mapping, or another one. -/
theorem generate_congr_unmapped :
    (∀ s t : Select, s.unmapped = t.unmapped →
      ∀ (registry : Registry) (values : ParameterValues) (options : GeneratorOptions),
        s.generate registry values options = t.generate registry values options) ∧
    ∀ (e : Expression) (mapping : TypeMapping), e.usesMapping = false →
      (e.withMapping mapping).unmapped = e.unmapped := by
  refine ⟨fun s t h registry values options => ?_, fun e mapping h => ?_⟩
  · rw [← s.generate_unmapped, h, t.generate_unmapped]
  · exact Expression.unmapped_withMapping h mapping

/-- A select with a mapping, or with none, on every node that is not written under it: a
concatenation in an object literal, a call in a derived source, and a negated membership. -/
def Select.noted (mapping : Option TypeMapping) : Select :=
  { Select.empty with
    projection := [⟨.binary .add (.keyAccess (.objectReference "c") "a" .string mapping)
      (.parameter "p" .string (some (.json .string))) .string mapping, "x", ""⟩,
      ⟨.objectReference "c", "y", "c"⟩]
    sources := [⟨.select { Select.empty with
      projection := [⟨.function "F" [.unary .negate
        (.constant (.int 1) .int64 (some (.json .int64))) .int64 mapping] .int64 mapping, "", ""⟩]
      singleValue := true }, some "c", false⟩]
    predicate := some (.unary .not (.isIn (.conditional (.objectReference "c")
      (.objectReference "c") (.keyAccess (.objectReference "c") "b" .bool mapping) .object mapping)
      (some []) none) .bool mapping) }

/-- The same query without mappings, with a mapping that renders no value of these types, and
with a property tagged anew. -/
theorem noted_query :
    (Select.noted none).unmapped = (Select.noted (some ⟨.int8, .descriptor⟩)).unmapped ∧
      ((Select.noted (some ⟨.int8, .descriptor⟩)).generate .builtin
        [("p", .string "x")]).toOption.map Query.text =
        some ("SELECT VALUE\n\x7b\n  \"x\" : (c[\"a\"] || @p),\n  \"y\" : c\n\x7d\n" ++
          "FROM (SELECT VALUE F(-(1))) c\nWHERE (c ? c : c[\"b\"]) NOT IN ()") ∧
      (Expression.withMapping (.json .int8) (rowProperty "a")).unmapped =
        (rowProperty "a").unmapped := by
  have hSame : (Select.noted none).unmapped =
      (Select.noted (some ⟨.int8, .descriptor⟩)).unmapped := rfl
  refine ⟨hSame, ?_, generate_congr_unmapped.2 _ _ rfl⟩
  rw [← generate_congr_unmapped.1 _ _ hSame]
  decide +kernel

end DocumentQuery
