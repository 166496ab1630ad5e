import DocumentQuery.Proofs.Document.LookAlikes
import DocumentQuery.Proofs.Expression.Values
import DocumentQuery.Proofs.Json.Printer

/-!
# Different trees have different documents

An expression is written as an object that begins with its form; the other members
are its fields in a fixed order. So everything about a tree can be read off its
document, its values as far as their own documents tell them apart.

Main results:

* `Expression.toJson_eq_tagged` — form and fields of an expression.
* `Select.mapValues_eq_of_toJson` — trees with the same document are the same up to
  values with the same document.
* `Select.toJson_mapValues` — and such values may be exchanged.
* `Select.toJson_closed` — what the document of a select is made of; hence it is sound,
  `Select.toJson_sound`.
-/

namespace DocumentQuery

/-! ## Members of documents -/

theorem optionalMember_injective {key : String} {j j' : Option Json}
    (h : optionalMember key j = optionalMember key j') : j = j' := by
  cases j <;> cases j' <;> simp_all [optionalMember]

/-- Two members that may be missing are told apart by their keys. -/
theorem optionalMember_append_injective {key key' : String} (hKey : key ≠ key')
    {j k j' k' : Option Json}
    (h : optionalMember key j ++ optionalMember key' k =
      optionalMember key j' ++ optionalMember key' k') : j = j' ∧ k = k' := by
  cases j <;> cases j' <;> cases k <;> cases k' <;> simp_all [optionalMember]

theorem typingMembers_injective {type type' : DataType} {mapping mapping' : Option TypeMapping}
    (h : typingMembers type mapping = typingMembers type' mapping') :
    type = type' ∧ mapping = mapping' := by
  simp only [typingMembers, List.cons.injEq, Prod.mk.injEq, true_and] at h
  refine ⟨DataType.toJson_injective h.1, ?_⟩
  exact Option.map_injective (fun _ _ => TypeMapping.toJson_injective)
    (optionalMember_injective h.2)

/-- A list as the member that it is written as. -/
def listValue? : List Json → Option Json
  | [] => none
  | js => some (.arr js)

theorem listValue?_injective {js js' : List Json} (h : listValue? js = listValue? js') :
    js = js' := by
  cases js <;> cases js' <;> simp_all [listValue?]

theorem lookup_listMember (key key' : String) (js : List Json) :
    (listMember key js).lookup key' = if key' == key then listValue? js else none := by
  cases js with
  | nil => simp [listMember, listValue?]
  | cons j js => cases hKey : key' == key <;> simp [listMember, listValue?, List.lookup_cons, hKey]

theorem lookup_optionalExpression (key key' : String) (e : Option Expression) :
    (optionalExpression key e).lookup key' =
      if key' == key then e.map Expression.toJson else none := by
  cases e with
  | none => simp [optionalExpression]
  | some e => cases hKey : key' == key <;> simp [optionalExpression, List.lookup_cons, hKey]

/-! ## Expressions by their forms -/

namespace Expression

def form : Expression → ExpressionForm
  | .select _ => .select
  | .objectReference _ => .objectReference
  | .scalarReference _ _ => .scalarReference
  | .keyAccess _ _ _ _ => .keyAccess
  | .objectAccess _ _ => .objectAccess
  | .entityProjection _ => .entityProjection
  | .objectArrayProjection _ => .objectArrayProjection
  | .binary _ _ _ _ _ => .binary
  | .unary _ _ _ _ => .unary
  | .conditional _ _ _ _ _ => .conditional
  | .function _ _ _ _ => .function
  | .constant _ _ _ => .constant
  | .parameter _ _ _ => .parameter
  | .isIn _ _ _ => .isIn
  | .arrayConstant _ => .arrayConstant
  | .exists _ => .exists
  | .array _ => .array
  | .scalarSubquery _ => .scalarSubquery
  | .fromSql _ _ => .fromSql

/-- What is written of an expression behind its form. -/
def fields : Expression → List (String × Json)
  | .select selected => selected.members
  | .objectReference name => [("name", .str name)]
  | .scalarReference name type => [("name", .str name), ("data_type", type.toJson)]
  | .keyAccess object property type mapping =>
    [("object", object.toJson), ("property_name", .str property)] ++ typingMembers type mapping
  | .objectAccess object property =>
    [("object", object.toJson), ("property_name", .str property)]
  | .entityProjection access => [("access", access.toJson)]
  | .objectArrayProjection access => [("access", access.toJson)]
  | .binary operator left right type mapping =>
    [("operator", .str operator.name), ("left", left.toJson), ("right", right.toJson)] ++
      typingMembers type mapping
  | .unary operator operand type mapping =>
    [("operator", .str operator.name), ("operand", operand.toJson)] ++ typingMembers type mapping
  | .conditional test ifTrue ifFalse type mapping =>
    [("test", test.toJson), ("if_true", ifTrue.toJson), ("if_false", ifFalse.toJson)] ++
      typingMembers type mapping
  | .function name arguments type mapping =>
    [("name", .str name), ("arguments", .arr (expressionsToJson arguments))] ++
      typingMembers type mapping
  | .constant value type mapping => ("value", value.toJson) :: typingMembers type mapping
  | .parameter name type mapping => ("name", .str name) :: typingMembers type mapping
  | .isIn item values valuesParameter =>
    ("item", item.toJson) ::
      optionalMember "values" (values.map fun values => .arr (expressionsToJson values)) ++
      optionalMember "values_parameter" (valuesParameter.map .str)
  | .arrayConstant items => [("items", .arr (expressionsToJson items))]
  | .exists subquery => [("subquery", .obj subquery.members)]
  | .array subquery => [("subquery", .obj subquery.members)]
  | .scalarSubquery subquery => [("subquery", .obj subquery.members)]
  | .fromSql sql arguments => [("sql", .str sql), ("arguments", arguments.toJson)]

theorem toJson_eq_tagged (e : Expression) : e.toJson = tagged e.form.name e.fields := by
  cases e with
  | isIn item values valuesParameter => cases values <;> rfl
  | _ => rfl

/-- Expressions with the same document have the same form and the same fields. -/
theorem fields_eq_of_toJson {e e' : Expression} (h : e.toJson = e'.toJson) :
    e.form = e'.form ∧ e.fields = e'.fields := by
  rw [toJson_eq_tagged, toJson_eq_tagged, tagged, tagged, Json.obj.injEq, List.cons.injEq,
    Prod.mk.injEq, Json.str.injEq] at h
  exact ⟨Enumerated.name_injective h.1.2, h.2⟩

end Expression

/-! ## Selects by their fields -/

/-- What is written under each key of a select. -/
theorem Select.lookup_members (s : Select) :
    s.members.lookup "is_distinct" = some (.bool s.isDistinct) ∧
    s.members.lookup "projection" = listValue? (projectionsToJson s.projection) ∧
    s.members.lookup "uses_single_value_projection" = some (.bool s.singleValue) ∧
    s.members.lookup "sources" = listValue? (sourcesToJson s.sources) ∧
    s.members.lookup "predicate" = s.predicate.map Expression.toJson ∧
    s.members.lookup "orderings" = listValue? (sortKeysToJson s.orderings) ∧
    s.members.lookup "offset" = s.offset.map Expression.toJson ∧
    s.members.lookup "limit" = s.limit.map Expression.toJson := by
  obtain ⟨isDistinct, projection, singleValue, sources, predicate, orderings, offset, limit⟩ := s
  refine ⟨?_, ?_, ?_, ?_, ?_, ?_, ?_, ?_⟩ <;>
    simp [Select.members, List.lookup_append, List.lookup_cons, lookup_listMember,
      lookup_optionalExpression]

/-- Selects with the same members have the same fields, up to the documents of their
parts. -/
theorem Select.fields_eq_of_members {s s' : Select} (h : s.members = s'.members) :
    s.isDistinct = s'.isDistinct ∧
    projectionsToJson s.projection = projectionsToJson s'.projection ∧
    s.singleValue = s'.singleValue ∧
    sourcesToJson s.sources = sourcesToJson s'.sources ∧
    s.predicate.map Expression.toJson = s'.predicate.map Expression.toJson ∧
    sortKeysToJson s.orderings = sortKeysToJson s'.orderings ∧
    s.offset.map Expression.toJson = s'.offset.map Expression.toJson ∧
    s.limit.map Expression.toJson = s'.limit.map Expression.toJson := by
  -- the keys of a select differ, so each field is found under its own
  have hLookup := s.lookup_members
  rw [h] at hLookup
  obtain ⟨hDistinct, hProjection, hSingle, hSources, hPredicate, hOrderings, hOffset, hLimit⟩ :=
    hLookup
  obtain ⟨hDistinct', hProjection', hSingle', hSources', hPredicate', hOrderings', hOffset',
    hLimit'⟩ := s'.lookup_members
  refine ⟨?_, ?_, ?_, ?_, ?_, ?_, ?_, ?_⟩
  · exact Json.bool.inj (Option.some.inj (hDistinct.symm.trans hDistinct'))
  · exact listValue?_injective (hProjection.symm.trans hProjection')
  · exact Json.bool.inj (Option.some.inj (hSingle.symm.trans hSingle'))
  · exact listValue?_injective (hSources.symm.trans hSources')
  · exact hPredicate.symm.trans hPredicate'
  · exact listValue?_injective (hOrderings.symm.trans hOrderings')
  · exact hOffset.symm.trans hOffset'
  · exact hLimit.symm.trans hLimit'

/-! ## Exchanging values -/

/-- Values are exchanged for values with the same document. -/
def KeepsDocuments (f : Value → Value) : Prop := ∀ v, (f v).toJson = v.toJson

section Exchange

variable {f : Value → Value}

theorem RawArguments.toJson_mapValues (hf : KeepsDocuments f) (arguments : RawArguments) :
    (arguments.mapValues f).toJson = arguments.toJson := by
  cases arguments with
  | parameter name => rfl
  | constant value => rw [mapValues, toJson, toJson, hf value]

mutual

theorem Expression.toJson_mapValues (hf : KeepsDocuments f) :
    ∀ e : Expression, (e.mapValues f).toJson = e.toJson
  | .select selected => by
    rw [Expression.mapValues, Expression.toJson, Expression.toJson,
      Select.members_mapValues hf selected]
  | .objectReference _ | .scalarReference _ _ | .parameter _ _ _ => rfl
  | .keyAccess object _ _ _ => by
    rw [Expression.mapValues, Expression.toJson, Expression.toJson,
      Expression.toJson_mapValues hf object]
  | .objectAccess object _ => by
    rw [Expression.mapValues, Expression.toJson, Expression.toJson,
      Expression.toJson_mapValues hf object]
  | .entityProjection access => by
    rw [Expression.mapValues, Expression.toJson, Expression.toJson,
      Expression.toJson_mapValues hf access]
  | .objectArrayProjection access => by
    rw [Expression.mapValues, Expression.toJson, Expression.toJson,
      Expression.toJson_mapValues hf access]
  | .binary _ left right _ _ => by
    rw [Expression.mapValues, Expression.toJson, Expression.toJson,
      Expression.toJson_mapValues hf left, Expression.toJson_mapValues hf right]
  | .unary _ operand _ _ => by
    rw [Expression.mapValues, Expression.toJson, Expression.toJson,
      Expression.toJson_mapValues hf operand]
  | .conditional test ifTrue ifFalse _ _ => by
    rw [Expression.mapValues, Expression.toJson, Expression.toJson,
      Expression.toJson_mapValues hf test, Expression.toJson_mapValues hf ifTrue,
      Expression.toJson_mapValues hf ifFalse]
  | .function _ arguments _ _ => by
    rw [Expression.mapValues, Expression.toJson, Expression.toJson,
      expressionsToJson_mapValues hf arguments]
  | .constant value _ _ => by
    rw [Expression.mapValues, Expression.toJson, Expression.toJson, hf value]
  | .isIn item none _ => by
    rw [Expression.mapValues, Expression.toJson, Expression.toJson,
      Expression.toJson_mapValues hf item]
  | .isIn item (some values) _ => by
    rw [Expression.mapValues, Expression.toJson, Expression.toJson,
      Expression.toJson_mapValues hf item, expressionsToJson_mapValues hf values]
  | .arrayConstant items => by
    rw [Expression.mapValues, Expression.toJson, Expression.toJson,
      expressionsToJson_mapValues hf items]
  | .exists subquery => by
    rw [Expression.mapValues, Expression.toJson, Expression.toJson,
      Select.members_mapValues hf subquery]
  | .array subquery => by
    rw [Expression.mapValues, Expression.toJson, Expression.toJson,
      Select.members_mapValues hf subquery]
  | .scalarSubquery subquery => by
    rw [Expression.mapValues, Expression.toJson, Expression.toJson,
      Select.members_mapValues hf subquery]
  | .fromSql _ arguments => by
    rw [Expression.mapValues, Expression.toJson, Expression.toJson,
      RawArguments.toJson_mapValues hf arguments]
termination_by structural e => e

theorem expressionsToJson_mapValues (hf : KeepsDocuments f) :
    ∀ es : List Expression, expressionsToJson (mapValuesOfAll f es) = expressionsToJson es
  | [] => rfl
  | e :: es => by
    rw [mapValuesOfAll, expressionsToJson, expressionsToJson, Expression.toJson_mapValues hf e,
      expressionsToJson_mapValues hf es]
termination_by structural es => es

theorem optionalExpression_mapValues (hf : KeepsDocuments f) (key : String) :
    ∀ e : Option Expression,
      optionalExpression key (mapValuesOfOptional f e) = optionalExpression key e
  | none => rfl
  | some e => by
    rw [mapValuesOfOptional, optionalExpression, optionalExpression,
      Expression.toJson_mapValues hf e]
termination_by structural e => e

theorem Select.members_mapValues (hf : KeepsDocuments f) :
    ∀ s : Select, (s.mapValues f).members = s.members
  | ⟨_, projection, _, sources, predicate, orderings, offset, limit⟩ => by
    rw [Select.mapValues, Select.members, Select.members,
      projectionsToJson_mapValues hf projection, sourcesToJson_mapValues hf sources,
      optionalExpression_mapValues hf "predicate" predicate, sortKeysToJson_mapValues hf orderings,
      optionalExpression_mapValues hf "offset" offset,
      optionalExpression_mapValues hf "limit" limit]
termination_by structural s => s

theorem Projection.toJson_mapValues (hf : KeepsDocuments f) :
    ∀ p : Projection, (p.mapValues f).toJson = p.toJson
  | ⟨expression, _, _⟩ => by
    rw [Projection.mapValues, Projection.toJson, Projection.toJson,
      Expression.toJson_mapValues hf expression]
termination_by structural p => p

theorem projectionsToJson_mapValues (hf : KeepsDocuments f) : ∀ ps : List Projection,
    projectionsToJson (mapValuesOfProjections f ps) = projectionsToJson ps
  | [] => rfl
  | p :: ps => by
    rw [mapValuesOfProjections, projectionsToJson, projectionsToJson,
      Projection.toJson_mapValues hf p, projectionsToJson_mapValues hf ps]
termination_by structural ps => ps

theorem Source.toJson_mapValues (hf : KeepsDocuments f) :
    ∀ s : Source, (s.mapValues f).toJson = s.toJson
  | ⟨container, _, _⟩ => by
    rw [Source.mapValues, Source.toJson, Source.toJson, Expression.toJson_mapValues hf container]
termination_by structural s => s

theorem sourcesToJson_mapValues (hf : KeepsDocuments f) :
    ∀ ss : List Source, sourcesToJson (mapValuesOfSources f ss) = sourcesToJson ss
  | [] => rfl
  | s :: ss => by
    rw [mapValuesOfSources, sourcesToJson, sourcesToJson, Source.toJson_mapValues hf s,
      sourcesToJson_mapValues hf ss]
termination_by structural ss => ss

theorem SortKey.toJson_mapValues (hf : KeepsDocuments f) :
    ∀ k : SortKey, (k.mapValues f).toJson = k.toJson
  | ⟨expression, _⟩ => by
    rw [SortKey.mapValues, SortKey.toJson, SortKey.toJson,
      Expression.toJson_mapValues hf expression]
termination_by structural k => k

theorem sortKeysToJson_mapValues (hf : KeepsDocuments f) :
    ∀ ks : List SortKey, sortKeysToJson (mapValuesOfSortKeys f ks) = sortKeysToJson ks
  | [] => rfl
  | k :: ks => by
    rw [mapValuesOfSortKeys, sortKeysToJson, sortKeysToJson, SortKey.toJson_mapValues hf k,
      sortKeysToJson_mapValues hf ks]
termination_by structural ks => ks

end

/-- Values may be exchanged for others with the same document. -/
theorem Select.toJson_mapValues (hf : KeepsDocuments f) (s : Select) :
    (s.mapValues f).toJson = s.toJson :=
  congrArg Json.obj (Select.members_mapValues hf s)

end Exchange

/-! ## The document determines the tree -/

/-- Values that satisfy `P` and have the same document are mapped to the same value. -/
def DeterminedByDocument (f : Value → Value) (P : Value → Prop) : Prop :=
  ∀ v w, P v → P w → v.toJson = w.toJson → f v = f w

section Injective

variable {f : Value → Value} {P : Value → Prop}

theorem RawArguments.mapValues_eq_of_toJson (hf : DeterminedByDocument f P)
    {arguments arguments' : RawArguments} (hP : ∀ v ∈ arguments.values, P v)
    (hP' : ∀ v ∈ arguments'.values, P v) (h : arguments.toJson = arguments'.toJson) :
    arguments.mapValues f = arguments'.mapValues f := by
  cases arguments <;> cases arguments' <;>
    simp only [toJson, Json.obj.injEq, List.cons.injEq, Prod.mk.injEq, Json.str.injEq, true_and,
      and_true] at h
  · rw [h]
  · exact absurd h.1 (by decide)
  · exact absurd h.1 (by decide)
  · rename_i v w
    rw [mapValues, mapValues, hf v w (hP v (List.mem_singleton_self v))
      (hP' w (List.mem_singleton_self w)) h]

mutual

theorem Expression.mapValues_eq_of_toJson (hf : DeterminedByDocument f P) :
    ∀ e e' : Expression, (∀ v ∈ e.values, P v) → (∀ v ∈ e'.values, P v) →
      e.toJson = e'.toJson → e.mapValues f = e'.mapValues f
  | .select selected, e', hP, hP', h => by
    obtain ⟨hForm, hFields⟩ := Expression.fields_eq_of_toJson h
    -- here and below: the same form, hence the same constructor
    cases e' <;> cases hForm
    rename_i selected'
    simp only [Expression.fields] at hFields
    rw [Expression.mapValues, Expression.mapValues,
      Select.mapValues_eq_of_members hf selected selected' hP hP' hFields]
  | .objectReference name, e', hP, hP', h => by
    obtain ⟨hForm, hFields⟩ := Expression.fields_eq_of_toJson h
    cases e' <;> cases hForm
    rename_i name'
    simp only [Expression.fields, List.cons.injEq, Prod.mk.injEq, Json.str.injEq,
      true_and, and_true] at hFields
    rw [Expression.mapValues, Expression.mapValues, hFields]
  | .scalarReference name type, e', hP, hP', h => by
    obtain ⟨hForm, hFields⟩ := Expression.fields_eq_of_toJson h
    cases e' <;> cases hForm
    rename_i name' type'
    simp only [Expression.fields, List.cons.injEq, Prod.mk.injEq, Json.str.injEq,
      true_and, and_true] at hFields
    obtain ⟨hName, hType⟩ := hFields
    rw [Expression.mapValues, Expression.mapValues,
      hName, DataType.toJson_injective hType]
  | .keyAccess object property type mapping, e', hP, hP', h => by
    obtain ⟨hForm, hFields⟩ := Expression.fields_eq_of_toJson h
    cases e' <;> cases hForm
    rename_i object' property' type' mapping'
    simp only [Expression.fields, List.cons_append, List.nil_append, List.cons.injEq,
      Prod.mk.injEq, Json.str.injEq, true_and] at hFields
    obtain ⟨hObject, hProperty, hTyping⟩ := hFields
    obtain ⟨hType, hMapping⟩ := typingMembers_injective hTyping
    rw [Expression.mapValues, Expression.mapValues,
      Expression.mapValues_eq_of_toJson hf object object' hP hP' hObject, hProperty, hType,
      hMapping]
  | .objectAccess object property, e', hP, hP', h => by
    obtain ⟨hForm, hFields⟩ := Expression.fields_eq_of_toJson h
    cases e' <;> cases hForm
    rename_i object' property'
    simp only [Expression.fields, List.cons.injEq, Prod.mk.injEq, Json.str.injEq,
      true_and, and_true] at hFields
    obtain ⟨hObject, hProperty⟩ := hFields
    rw [Expression.mapValues, Expression.mapValues,
      Expression.mapValues_eq_of_toJson hf object object' hP hP' hObject, hProperty]
  | .entityProjection access, e', hP, hP', h => by
    obtain ⟨hForm, hFields⟩ := Expression.fields_eq_of_toJson h
    cases e' <;> cases hForm
    rename_i access'
    simp only [Expression.fields, List.cons.injEq, Prod.mk.injEq, true_and, and_true] at hFields
    rw [Expression.mapValues, Expression.mapValues,
      Expression.mapValues_eq_of_toJson hf access access' hP hP' hFields]
  | .objectArrayProjection access, e', hP, hP', h => by
    obtain ⟨hForm, hFields⟩ := Expression.fields_eq_of_toJson h
    cases e' <;> cases hForm
    rename_i access'
    simp only [Expression.fields, List.cons.injEq, Prod.mk.injEq, true_and, and_true] at hFields
    rw [Expression.mapValues, Expression.mapValues,
      Expression.mapValues_eq_of_toJson hf access access' hP hP' hFields]
  | .binary operator left right type mapping, e', hP, hP', h => by
    obtain ⟨hForm, hFields⟩ := Expression.fields_eq_of_toJson h
    cases e' <;> cases hForm
    rename_i operator' left' right' type' mapping'
    simp only [Expression.fields, List.cons_append, List.nil_append, List.cons.injEq,
      Prod.mk.injEq, Json.str.injEq, true_and] at hFields
    -- `P` is known of the values of both operands
    rw [Expression.values, List.forall_mem_append] at hP hP'
    obtain ⟨hOperator, hLeft, hRight, hTyping⟩ := hFields
    have hOperator' : operator = operator' := Enumerated.name_injective hOperator
    obtain ⟨hType, hMapping⟩ := typingMembers_injective hTyping
    rw [Expression.mapValues, Expression.mapValues,
      hOperator', Expression.mapValues_eq_of_toJson hf left left' hP.1 hP'.1 hLeft,
      Expression.mapValues_eq_of_toJson hf right right' hP.2 hP'.2 hRight, hType, hMapping]
  | .unary operator operand type mapping, e', hP, hP', h => by
    obtain ⟨hForm, hFields⟩ := Expression.fields_eq_of_toJson h
    cases e' <;> cases hForm
    rename_i operator' operand' type' mapping'
    simp only [Expression.fields, List.cons_append, List.nil_append, List.cons.injEq,
      Prod.mk.injEq, Json.str.injEq, true_and] at hFields
    obtain ⟨hOperator, hOperand, hTyping⟩ := hFields
    have hOperator' : operator = operator' := Enumerated.name_injective hOperator
    obtain ⟨hType, hMapping⟩ := typingMembers_injective hTyping
    rw [Expression.mapValues, Expression.mapValues,
      hOperator', Expression.mapValues_eq_of_toJson hf operand operand' hP hP' hOperand, hType,
      hMapping]
  | .conditional test ifTrue ifFalse type mapping, e', hP, hP', h => by
    obtain ⟨hForm, hFields⟩ := Expression.fields_eq_of_toJson h
    cases e' <;> cases hForm
    rename_i test' ifTrue' ifFalse' type' mapping'
    simp only [Expression.fields, List.cons_append, List.nil_append, List.cons.injEq,
      Prod.mk.injEq, true_and] at hFields
    rw [Expression.values, List.forall_mem_append, List.forall_mem_append] at hP hP'
    obtain ⟨hTest, hTrue, hFalse, hTyping⟩ := hFields
    obtain ⟨hType, hMapping⟩ := typingMembers_injective hTyping
    rw [Expression.mapValues, Expression.mapValues,
      Expression.mapValues_eq_of_toJson hf test test' hP.1 hP'.1 hTest,
      Expression.mapValues_eq_of_toJson hf ifTrue ifTrue' hP.2.1 hP'.2.1 hTrue,
      Expression.mapValues_eq_of_toJson hf ifFalse ifFalse' hP.2.2 hP'.2.2 hFalse, hType, hMapping]
  | .function name arguments type mapping, e', hP, hP', h => by
    obtain ⟨hForm, hFields⟩ := Expression.fields_eq_of_toJson h
    cases e' <;> cases hForm
    rename_i name' arguments' type' mapping'
    simp only [Expression.fields, List.cons_append, List.nil_append, List.cons.injEq,
      Prod.mk.injEq, Json.str.injEq, Json.arr.injEq, true_and] at hFields
    obtain ⟨hName, hArguments, hTyping⟩ := hFields
    obtain ⟨hType, hMapping⟩ := typingMembers_injective hTyping
    rw [Expression.mapValues, Expression.mapValues,
      hName, mapValuesOfAll_eq_of_toJson hf arguments arguments' hP hP' hArguments, hType, hMapping]
  | .constant value type mapping, e', hP, hP', h => by
    obtain ⟨hForm, hFields⟩ := Expression.fields_eq_of_toJson h
    cases e' <;> cases hForm
    rename_i value' type' mapping'
    simp only [Expression.fields, List.cons.injEq, Prod.mk.injEq, true_and] at hFields
    obtain ⟨hValue, hTyping⟩ := hFields
    obtain ⟨hType, hMapping⟩ := typingMembers_injective hTyping
    rw [Expression.mapValues, Expression.mapValues,
      hf value value' (hP value (List.mem_singleton_self value))
        (hP' value' (List.mem_singleton_self value')) hValue, hType, hMapping]
  | .parameter name type mapping, e', hP, hP', h => by
    obtain ⟨hForm, hFields⟩ := Expression.fields_eq_of_toJson h
    cases e' <;> cases hForm
    rename_i name' type' mapping'
    simp only [Expression.fields, List.cons.injEq, Prod.mk.injEq, Json.str.injEq,
      true_and] at hFields
    obtain ⟨hName, hTyping⟩ := hFields
    obtain ⟨hType, hMapping⟩ := typingMembers_injective hTyping
    rw [Expression.mapValues, Expression.mapValues,
      hName, hType, hMapping]
  | .isIn item values valuesParameter, e', hP, hP', h => by
    obtain ⟨hForm, hFields⟩ := Expression.fields_eq_of_toJson h
    cases e' <;> cases hForm
    rename_i item' values' valuesParameter'
    rw [Expression.fields, Expression.fields, List.cons_append, List.cons_append, List.cons.injEq,
      Prod.mk.injEq] at hFields
    obtain ⟨⟨-, hItem⟩, hRest⟩ := hFields
    -- the list and the name of the parameter stand under keys of their own
    obtain ⟨hValues, hParameter⟩ := optionalMember_append_injective (by decide) hRest
    obtain rfl : valuesParameter = valuesParameter' :=
      Option.map_injective (fun _ _ => Json.str.inj) hParameter
    cases values <;> cases values'
    · rw [Expression.mapValues, Expression.mapValues,
        Expression.mapValues_eq_of_toJson hf item item' hP hP' hItem]
    · cases hValues
    · cases hValues
    · rename_i values values'
      rw [Expression.values, List.forall_mem_append] at hP hP'
      rw [Expression.mapValues, Expression.mapValues,
        Expression.mapValues_eq_of_toJson hf item item' hP.1 hP'.1 hItem,
        mapValuesOfAll_eq_of_toJson hf values values' hP.2 hP'.2
          (Json.arr.inj (Option.some.inj hValues))]
  | .arrayConstant items, e', hP, hP', h => by
    obtain ⟨hForm, hFields⟩ := Expression.fields_eq_of_toJson h
    cases e' <;> cases hForm
    rename_i items'
    simp only [Expression.fields, List.cons.injEq, Prod.mk.injEq, Json.arr.injEq,
      true_and, and_true] at hFields
    rw [Expression.mapValues, Expression.mapValues,
      mapValuesOfAll_eq_of_toJson hf items items' hP hP' hFields]
  | .exists subquery, e', hP, hP', h => by
    obtain ⟨hForm, hFields⟩ := Expression.fields_eq_of_toJson h
    cases e' <;> cases hForm
    rename_i subquery'
    simp only [Expression.fields, List.cons.injEq, Prod.mk.injEq, Json.obj.injEq,
      true_and, and_true] at hFields
    rw [Expression.mapValues, Expression.mapValues,
      Select.mapValues_eq_of_members hf subquery subquery' hP hP' hFields]
  | .array subquery, e', hP, hP', h => by
    obtain ⟨hForm, hFields⟩ := Expression.fields_eq_of_toJson h
    cases e' <;> cases hForm
    rename_i subquery'
    simp only [Expression.fields, List.cons.injEq, Prod.mk.injEq, Json.obj.injEq,
      true_and, and_true] at hFields
    rw [Expression.mapValues, Expression.mapValues,
      Select.mapValues_eq_of_members hf subquery subquery' hP hP' hFields]
  | .scalarSubquery subquery, e', hP, hP', h => by
    obtain ⟨hForm, hFields⟩ := Expression.fields_eq_of_toJson h
    cases e' <;> cases hForm
    rename_i subquery'
    simp only [Expression.fields, List.cons.injEq, Prod.mk.injEq, Json.obj.injEq,
      true_and, and_true] at hFields
    rw [Expression.mapValues, Expression.mapValues,
      Select.mapValues_eq_of_members hf subquery subquery' hP hP' hFields]
  | .fromSql sql arguments, e', hP, hP', h => by
    obtain ⟨hForm, hFields⟩ := Expression.fields_eq_of_toJson h
    cases e' <;> cases hForm
    rename_i sql' arguments'
    simp only [Expression.fields, List.cons.injEq, Prod.mk.injEq, Json.str.injEq,
      true_and, and_true] at hFields
    obtain ⟨hSql, hArguments⟩ := hFields
    rw [Expression.mapValues, Expression.mapValues,
      hSql, RawArguments.mapValues_eq_of_toJson hf hP hP' hArguments]
termination_by structural e => e

theorem mapValuesOfAll_eq_of_toJson (hf : DeterminedByDocument f P) :
    ∀ es es' : List Expression, (∀ v ∈ valuesOfAll es, P v) → (∀ v ∈ valuesOfAll es', P v) →
      expressionsToJson es = expressionsToJson es' → mapValuesOfAll f es = mapValuesOfAll f es'
  | [], [], _, _, _ => rfl
  | [], _ :: _, _, _, h => by cases h
  | _ :: _, [], _, _, h => by cases h
  | e :: es, e' :: es', hP, hP', h => by
    rw [valuesOfAll, List.forall_mem_append] at hP hP'
    rw [expressionsToJson, expressionsToJson, List.cons.injEq] at h
    rw [mapValuesOfAll, mapValuesOfAll,
      Expression.mapValues_eq_of_toJson hf e e' hP.1 hP'.1 h.1,
      mapValuesOfAll_eq_of_toJson hf es es' hP.2 hP'.2 h.2]
termination_by structural es => es

theorem mapValuesOfOptional_eq_of_toJson (hf : DeterminedByDocument f P) :
    ∀ e e' : Option Expression, (∀ v ∈ valuesOfOptional e, P v) →
      (∀ v ∈ valuesOfOptional e', P v) → e.map Expression.toJson = e'.map Expression.toJson →
      mapValuesOfOptional f e = mapValuesOfOptional f e'
  | none, none, _, _, _ => rfl
  | none, some _, _, _, h => by cases h
  | some _, none, _, _, h => by cases h
  | some e, some e', hP, hP', h => by
    rw [mapValuesOfOptional, mapValuesOfOptional,
      Expression.mapValues_eq_of_toJson hf e e' hP hP' (Option.some.inj h)]
termination_by structural e => e

theorem Select.mapValues_eq_of_members (hf : DeterminedByDocument f P) :
    ∀ s s' : Select, (∀ v ∈ s.values, P v) → (∀ v ∈ s'.values, P v) →
      s.members = s'.members → s.mapValues f = s'.mapValues f
  | ⟨isDistinct, projection, singleValue, sources, predicate, orderings, offset, limit⟩,
    ⟨isDistinct', projection', singleValue', sources', predicate', orderings', offset', limit'⟩,
    hP, hP', h => by
    obtain ⟨hDistinct, hProjection, hSingle, hSources, hPredicate, hOrderings, hOffset, hLimit⟩ :=
      Select.fields_eq_of_members h
    dsimp only at hDistinct hSingle
    simp only [Select.values, List.forall_mem_append] at hP hP'
    obtain ⟨hPProjection, hPSources, hPPredicate, hPOrderings, hPOffset, hPLimit⟩ := hP
    obtain ⟨hPProjection', hPSources', hPPredicate', hPOrderings', hPOffset', hPLimit'⟩ := hP'
    rw [Select.mapValues, Select.mapValues, hDistinct, hSingle,
      mapValuesOfProjections_eq_of_toJson hf projection projection' hPProjection hPProjection'
        hProjection,
      mapValuesOfSources_eq_of_toJson hf sources sources' hPSources hPSources' hSources,
      mapValuesOfOptional_eq_of_toJson hf predicate predicate' hPPredicate hPPredicate' hPredicate,
      mapValuesOfSortKeys_eq_of_toJson hf orderings orderings' hPOrderings hPOrderings' hOrderings,
      mapValuesOfOptional_eq_of_toJson hf offset offset' hPOffset hPOffset' hOffset,
      mapValuesOfOptional_eq_of_toJson hf limit limit' hPLimit hPLimit' hLimit]
termination_by structural s => s

theorem Projection.mapValues_eq_of_toJson (hf : DeterminedByDocument f P) :
    ∀ p p' : Projection, (∀ v ∈ p.values, P v) → (∀ v ∈ p'.values, P v) →
      p.toJson = p'.toJson → p.mapValues f = p'.mapValues f
  | ⟨expression, aliasName, name⟩, ⟨expression', aliasName', name'⟩, hP, hP', h => by
    simp only [Projection.toJson, Json.obj.injEq, List.cons.injEq, Prod.mk.injEq, Json.str.injEq,
      true_and, and_true] at h
    obtain ⟨hExpression, hAlias, hName⟩ := h
    rw [Projection.mapValues, Projection.mapValues,
      Expression.mapValues_eq_of_toJson hf expression expression' hP hP' hExpression, hAlias, hName]
termination_by structural p => p

theorem mapValuesOfProjections_eq_of_toJson (hf : DeterminedByDocument f P) :
    ∀ ps ps' : List Projection, (∀ v ∈ valuesOfProjections ps, P v) →
      (∀ v ∈ valuesOfProjections ps', P v) → projectionsToJson ps = projectionsToJson ps' →
      mapValuesOfProjections f ps = mapValuesOfProjections f ps'
  | [], [], _, _, _ => rfl
  | [], _ :: _, _, _, h => by cases h
  | _ :: _, [], _, _, h => by cases h
  | p :: ps, p' :: ps', hP, hP', h => by
    rw [valuesOfProjections, List.forall_mem_append] at hP hP'
    rw [projectionsToJson, projectionsToJson, List.cons.injEq] at h
    rw [mapValuesOfProjections, mapValuesOfProjections,
      Projection.mapValues_eq_of_toJson hf p p' hP.1 hP'.1 h.1,
      mapValuesOfProjections_eq_of_toJson hf ps ps' hP.2 hP'.2 h.2]
termination_by structural ps => ps

theorem Source.mapValues_eq_of_toJson (hf : DeterminedByDocument f P) :
    ∀ s s' : Source, (∀ v ∈ s.values, P v) → (∀ v ∈ s'.values, P v) →
      s.toJson = s'.toJson → s.mapValues f = s'.mapValues f
  | ⟨container, aliasName, eachItem⟩, ⟨container', aliasName', eachItem'⟩, hP, hP', h => by
    rw [Source.toJson, Source.toJson, Json.obj.injEq, List.cons_append, List.cons_append,
      List.cons.injEq, Prod.mk.injEq] at h
    obtain ⟨⟨-, hContainer⟩, hRest⟩ := h
    change optionalMember "alias" _ ++ optionalMember "with_in" (some (.bool eachItem)) =
      optionalMember "alias" _ ++ optionalMember "with_in" (some (.bool eachItem')) at hRest
    -- the alias may be missing, so the keys have to tell the two apart
    obtain ⟨hAlias, hEach⟩ := optionalMember_append_injective (by decide) hRest
    obtain rfl : aliasName = aliasName' := Option.map_injective (fun _ _ => Json.str.inj) hAlias
    rw [Source.mapValues, Source.mapValues,
      Expression.mapValues_eq_of_toJson hf container container' hP hP' hContainer,
      Json.bool.inj (Option.some.inj hEach)]
termination_by structural s => s

theorem mapValuesOfSources_eq_of_toJson (hf : DeterminedByDocument f P) :
    ∀ ss ss' : List Source, (∀ v ∈ valuesOfSources ss, P v) → (∀ v ∈ valuesOfSources ss', P v) →
      sourcesToJson ss = sourcesToJson ss' → mapValuesOfSources f ss = mapValuesOfSources f ss'
  | [], [], _, _, _ => rfl
  | [], _ :: _, _, _, h => by cases h
  | _ :: _, [], _, _, h => by cases h
  | s :: ss, s' :: ss', hP, hP', h => by
    rw [valuesOfSources, List.forall_mem_append] at hP hP'
    rw [sourcesToJson, sourcesToJson, List.cons.injEq] at h
    rw [mapValuesOfSources, mapValuesOfSources,
      Source.mapValues_eq_of_toJson hf s s' hP.1 hP'.1 h.1,
      mapValuesOfSources_eq_of_toJson hf ss ss' hP.2 hP'.2 h.2]
termination_by structural ss => ss

theorem SortKey.mapValues_eq_of_toJson (hf : DeterminedByDocument f P) :
    ∀ k k' : SortKey, (∀ v ∈ k.values, P v) → (∀ v ∈ k'.values, P v) →
      k.toJson = k'.toJson → k.mapValues f = k'.mapValues f
  | ⟨expression, isAscending⟩, ⟨expression', isAscending'⟩, hP, hP', h => by
    simp only [SortKey.toJson, Json.obj.injEq, List.cons.injEq, Prod.mk.injEq, Json.bool.injEq,
      true_and, and_true] at h
    rw [SortKey.mapValues, SortKey.mapValues,
      Expression.mapValues_eq_of_toJson hf expression expression' hP hP' h.1, h.2]
termination_by structural k => k

theorem mapValuesOfSortKeys_eq_of_toJson (hf : DeterminedByDocument f P) :
    ∀ ks ks' : List SortKey, (∀ v ∈ valuesOfSortKeys ks, P v) →
      (∀ v ∈ valuesOfSortKeys ks', P v) → sortKeysToJson ks = sortKeysToJson ks' →
      mapValuesOfSortKeys f ks = mapValuesOfSortKeys f ks'
  | [], [], _, _, _ => rfl
  | [], _ :: _, _, _, h => by cases h
  | _ :: _, [], _, _, h => by cases h
  | k :: ks, k' :: ks', hP, hP', h => by
    rw [valuesOfSortKeys, List.forall_mem_append] at hP hP'
    rw [sortKeysToJson, sortKeysToJson, List.cons.injEq] at h
    rw [mapValuesOfSortKeys, mapValuesOfSortKeys,
      SortKey.mapValues_eq_of_toJson hf k k' hP.1 hP'.1 h.1,
      mapValuesOfSortKeys_eq_of_toJson hf ks ks' hP.2 hP'.2 h.2]
termination_by structural ks => ks

end

/-- Selects with the same document are the same up to values with the same document. -/
theorem Select.mapValues_eq_of_toJson (hf : DeterminedByDocument f P) {s s' : Select}
    (hP : ∀ v ∈ s.values, P v) (hP' : ∀ v ∈ s'.values, P v) (h : s.toJson = s'.toJson) :
    s.mapValues f = s'.mapValues f :=
  Select.mapValues_eq_of_members hf s s' hP hP' (Json.obj.inj h)

end Injective

/-! ## What documents of trees are made of -/

/-- `Q` holds of whatever is written for names, flags and numbers of dimensions, and of
arrays and objects if it holds of what they hold. -/
structure Json.Closed (Q : Json → Prop) : Prop where
  str : ∀ s, Q (.str s)
  bool : ∀ b, Q (.bool b)
  natural : ∀ n : UInt64, Q (.int n.toNat)
  arr : ∀ {items}, (∀ j ∈ items, Q j) → Q (.arr items)
  obj : ∀ {members : List (String × Json)}, (∀ m ∈ members, Q m.2) → Q (.obj members)

namespace Json.Closed

variable {Q : Json → Prop}

theorem dataType (h : Closed Q) (type : DataType) : Q type.toJson := by
  induction type with
  | array element ih => exact h.obj (List.forall_mem_singleton.mpr ih)
  | _ => exact h.str _

theorem vectorType (h : Closed Q) (v : VectorType) : Q v.toJson := by
  obtain ⟨function, dimensions, elementType⟩ := v
  refine h.obj ?_
  cases elementType <;> simp [h.str, h.natural]

theorem mapping (h : Closed Q) (m : TypeMapping) : Q m.toJson := by
  refine h.obj (List.forall_mem_cons.mpr ⟨h.dataType m.type, ?_⟩)
  cases m.rendering <;> simp [Rendering.members, h.str, h.vectorType]

theorem typing (h : Closed Q) (type : DataType) (mapping : Option TypeMapping) :
    ∀ m ∈ typingMembers type mapping, Q m.2 := by
  refine List.forall_mem_cons.mpr ⟨h.dataType type, ?_⟩
  cases mapping with
  | none => exact List.forall_mem_nil _
  | some mapping => exact List.forall_mem_singleton.mpr (h.mapping mapping)

theorem optionalText (h : Closed Q) (key : String) (s : Option String) :
    ∀ m ∈ optionalMember key (s.map .str), Q m.2 := by
  cases s with
  | none => exact List.forall_mem_nil _
  | some s => exact List.forall_mem_singleton.mpr (h.str s)

theorem listMember (h : Closed Q) (key : String) {js : List Json} (hItems : ∀ j ∈ js, Q j) :
    ∀ m ∈ DocumentQuery.listMember key js, Q m.2 := by
  cases js with
  | nil => exact List.forall_mem_nil _
  | cons j js => exact List.forall_mem_singleton.mpr (h.arr hItems)

theorem tagged (h : Closed Q) (form : String) {members : List (String × Json)}
    (hMembers : ∀ m ∈ members, Q m.2) : Q (DocumentQuery.tagged form members) :=
  h.obj (List.forall_mem_cons.mpr ⟨h.str form, hMembers⟩)

end Json.Closed

section Closed

variable {Q : Json → Prop}

theorem RawArguments.toJson_closed (h : Json.Closed Q) (arguments : RawArguments)
    (hValues : ∀ v ∈ arguments.values, Q v.toJson) : Q arguments.toJson := by
  cases arguments with
  | parameter name => exact h.obj (by simp [h.str])
  | constant value =>
    have hValue : Q value.toJson := hValues value (List.mem_singleton_self value)
    exact h.obj (by simp [h.str, hValue])

mutual

theorem Expression.toJson_closed (h : Json.Closed Q) :
    ∀ e : Expression, (∀ v ∈ e.values, Q v.toJson) → Q e.toJson
  | .select selected, hValues => h.tagged _ (Select.members_closed h selected hValues)
  | .objectReference _, _ => h.tagged _ (by simp [h.str])
  | .scalarReference _ type, _ => h.tagged _ (by simp [h.str, h.dataType])
  | .keyAccess object _ type mapping, hValues => by
    have hObject := Expression.toJson_closed h object hValues
    exact h.tagged _ (List.forall_mem_append.mpr ⟨by simp [h.str, hObject], h.typing type mapping⟩)
  | .objectAccess object _, hValues => by
    have hObject := Expression.toJson_closed h object hValues
    exact h.tagged _ (by simp [h.str, hObject])
  | .entityProjection access, hValues =>
    h.tagged _ (List.forall_mem_singleton.mpr (Expression.toJson_closed h access hValues))
  | .objectArrayProjection access, hValues =>
    h.tagged _ (List.forall_mem_singleton.mpr (Expression.toJson_closed h access hValues))
  | .binary _ left right type mapping, hValues => by
    obtain ⟨hLeft, hRight⟩ := List.forall_mem_append.mp hValues
    have hLeft := Expression.toJson_closed h left hLeft
    have hRight := Expression.toJson_closed h right hRight
    exact h.tagged _ (List.forall_mem_append.mpr
      ⟨by simp [h.str, hLeft, hRight], h.typing type mapping⟩)
  | .unary _ operand type mapping, hValues => by
    have hOperand := Expression.toJson_closed h operand hValues
    exact h.tagged _ (List.forall_mem_append.mpr ⟨by simp [h.str, hOperand], h.typing type mapping⟩)
  | .conditional test ifTrue ifFalse type mapping, hValues => by
    obtain ⟨hTest, hBranches⟩ := List.forall_mem_append.mp hValues
    obtain ⟨hTrue, hFalse⟩ := List.forall_mem_append.mp hBranches
    have hTest := Expression.toJson_closed h test hTest
    have hTrue := Expression.toJson_closed h ifTrue hTrue
    have hFalse := Expression.toJson_closed h ifFalse hFalse
    exact h.tagged _ (List.forall_mem_append.mpr
      ⟨by simp [hTest, hTrue, hFalse], h.typing type mapping⟩)
  | .function _ arguments type mapping, hValues => by
    have hArguments := h.arr (expressionsToJson_closed h arguments hValues)
    exact h.tagged _ (List.forall_mem_append.mpr
      ⟨by simp [h.str, hArguments], h.typing type mapping⟩)
  | .constant value type mapping, hValues => by
    have hValue := hValues value (List.mem_singleton_self value)
    exact h.tagged _ (List.forall_mem_cons.mpr ⟨hValue, h.typing type mapping⟩)
  | .parameter _ type mapping, _ =>
    h.tagged _ (List.forall_mem_cons.mpr ⟨h.str _, h.typing type mapping⟩)
  | .isIn item none valuesParameter, hValues => by
    have hItem := Expression.toJson_closed h item hValues
    exact h.tagged _ (List.forall_mem_cons.mpr ⟨hItem, h.optionalText _ valuesParameter⟩)
  | .isIn item (some values) valuesParameter, hValues => by
    obtain ⟨hItem, hList⟩ := List.forall_mem_append.mp hValues
    have hItem := Expression.toJson_closed h item hItem
    have hList := h.arr (expressionsToJson_closed h values hList)
    exact h.tagged _ (List.forall_mem_append.mpr
      ⟨by simp [hItem, hList], h.optionalText _ valuesParameter⟩)
  | .arrayConstant items, hValues =>
    h.tagged _ (List.forall_mem_singleton.mpr (h.arr (expressionsToJson_closed h items hValues)))
  | .exists subquery, hValues =>
    h.tagged _ (List.forall_mem_singleton.mpr (h.obj (Select.members_closed h subquery hValues)))
  | .array subquery, hValues =>
    h.tagged _ (List.forall_mem_singleton.mpr (h.obj (Select.members_closed h subquery hValues)))
  | .scalarSubquery subquery, hValues =>
    h.tagged _ (List.forall_mem_singleton.mpr (h.obj (Select.members_closed h subquery hValues)))
  | .fromSql _ arguments, hValues => by
    have hArguments := arguments.toJson_closed h hValues
    exact h.tagged _ (by simp [h.str, hArguments])
termination_by structural e => e

theorem expressionsToJson_closed (h : Json.Closed Q) : ∀ es : List Expression,
    (∀ v ∈ valuesOfAll es, Q v.toJson) → ∀ j ∈ expressionsToJson es, Q j
  | [], _ => List.forall_mem_nil _
  | e :: es, hValues => by
    obtain ⟨hFirst, hRest⟩ := List.forall_mem_append.mp hValues
    exact List.forall_mem_cons.mpr
      ⟨Expression.toJson_closed h e hFirst, expressionsToJson_closed h es hRest⟩
termination_by structural es => es

theorem optionalExpression_closed (h : Json.Closed Q) (key : String) : ∀ e : Option Expression,
    (∀ v ∈ valuesOfOptional e, Q v.toJson) → ∀ m ∈ optionalExpression key e, Q m.2
  | none, _ => List.forall_mem_nil _
  | some e, hValues => List.forall_mem_singleton.mpr (Expression.toJson_closed h e hValues)
termination_by structural e => e

theorem Select.members_closed (h : Json.Closed Q) : ∀ s : Select,
    (∀ v ∈ s.values, Q v.toJson) → ∀ m ∈ s.members, Q m.2
  | ⟨_, projection, _, sources, predicate, orderings, offset, limit⟩, hValues => by
    rw [Select.values] at hValues
    obtain ⟨hProjection, hValues⟩ := List.forall_mem_append.mp hValues
    obtain ⟨hSources, hValues⟩ := List.forall_mem_append.mp hValues
    obtain ⟨hPredicate, hValues⟩ := List.forall_mem_append.mp hValues
    obtain ⟨hOrderings, hValues⟩ := List.forall_mem_append.mp hValues
    obtain ⟨hOffset, hLimit⟩ := List.forall_mem_append.mp hValues
    have hProjection :=
      h.listMember "projection" (projectionsToJson_closed h projection hProjection)
    have hSources := h.listMember "sources" (sourcesToJson_closed h sources hSources)
    have hPredicate := optionalExpression_closed h "predicate" predicate hPredicate
    have hOrderings := h.listMember "orderings" (sortKeysToJson_closed h orderings hOrderings)
    have hOffset := optionalExpression_closed h "offset" offset hOffset
    have hLimit := optionalExpression_closed h "limit" limit hLimit
    simp only [Select.members, List.cons_append, List.append_assoc, List.forall_mem_cons,
      List.forall_mem_append]
    exact ⟨h.bool _, hProjection, h.bool _, hSources, hPredicate, hOrderings, hOffset, hLimit⟩
termination_by structural s => s

theorem projectionsToJson_closed (h : Json.Closed Q) : ∀ ps : List Projection,
    (∀ v ∈ valuesOfProjections ps, Q v.toJson) → ∀ j ∈ projectionsToJson ps, Q j
  | [], _ => List.forall_mem_nil _
  | ⟨expression, _, _⟩ :: ps, hValues => by
    obtain ⟨hFirst, hRest⟩ := List.forall_mem_append.mp hValues
    have hExpression := Expression.toJson_closed h expression hFirst
    exact List.forall_mem_cons.mpr
      ⟨h.obj (by simp [h.str, hExpression]), projectionsToJson_closed h ps hRest⟩
termination_by structural ps => ps

theorem sourcesToJson_closed (h : Json.Closed Q) : ∀ ss : List Source,
    (∀ v ∈ valuesOfSources ss, Q v.toJson) → ∀ j ∈ sourcesToJson ss, Q j
  | [], _ => List.forall_mem_nil _
  | ⟨container, aliasName, eachItem⟩ :: ss, hValues => by
    obtain ⟨hFirst, hRest⟩ := List.forall_mem_append.mp hValues
    have hContainer := Expression.toJson_closed h container hFirst
    have hEach : ∀ m ∈ [("with_in", Json.bool eachItem)], Q m.2 :=
      List.forall_mem_singleton.mpr (h.bool eachItem)
    have hAlias := List.forall_mem_append.mpr ⟨h.optionalText "alias" aliasName, hEach⟩
    exact List.forall_mem_cons.mpr ⟨h.obj (List.forall_mem_cons.mpr ⟨hContainer, hAlias⟩),
      sourcesToJson_closed h ss hRest⟩
termination_by structural ss => ss

theorem sortKeysToJson_closed (h : Json.Closed Q) : ∀ ks : List SortKey,
    (∀ v ∈ valuesOfSortKeys ks, Q v.toJson) → ∀ j ∈ sortKeysToJson ks, Q j
  | [], _ => List.forall_mem_nil _
  | ⟨expression, _⟩ :: ks, hValues => by
    obtain ⟨hFirst, hRest⟩ := List.forall_mem_append.mp hValues
    have hExpression := Expression.toJson_closed h expression hFirst
    exact List.forall_mem_cons.mpr
      ⟨h.obj (by simp [h.bool, hExpression]), sortKeysToJson_closed h ks hRest⟩
termination_by structural ks => ks

end

theorem Select.toJson_closed (h : Json.Closed Q) (s : Select)
    (hValues : ∀ v ∈ s.values, Q v.toJson) : Q s.toJson :=
  h.obj (Select.members_closed h s hValues)

end Closed

/-! ## Documents of trees are sound -/

theorem Json.closed_sound : Json.Closed fun j => j.sound = true where
  str _ := rfl
  bool _ := rfl
  natural _ := rfl
  arr := Json.soundItems_iff.mpr
  obj := Json.soundMembers_iff.mpr

theorem RawArguments.toJson_sound (arguments : RawArguments) : arguments.toJson.sound = true :=
  arguments.toJson_closed Json.closed_sound fun v _ => v.toJson_sound

theorem Expression.toJson_sound (e : Expression) : e.toJson.sound = true :=
  e.toJson_closed Json.closed_sound fun v _ => v.toJson_sound

theorem expressionsToJson_sound (es : List Expression) :
    Json.soundItems (expressionsToJson es) = true :=
  Json.soundItems_iff.mpr (expressionsToJson_closed Json.closed_sound es fun v _ => v.toJson_sound)

theorem projectionsToJson_sound (ps : List Projection) :
    Json.soundItems (projectionsToJson ps) = true :=
  Json.soundItems_iff.mpr (projectionsToJson_closed Json.closed_sound ps fun v _ => v.toJson_sound)

theorem sourcesToJson_sound (ss : List Source) : Json.soundItems (sourcesToJson ss) = true :=
  Json.soundItems_iff.mpr (sourcesToJson_closed Json.closed_sound ss fun v _ => v.toJson_sound)

theorem sortKeysToJson_sound (ks : List SortKey) : Json.soundItems (sortKeysToJson ks) = true :=
  Json.soundItems_iff.mpr (sortKeysToJson_closed Json.closed_sound ks fun v _ => v.toJson_sound)

theorem Select.toJson_sound (s : Select) : s.toJson.sound = true :=
  s.toJson_closed Json.closed_sound fun v _ => v.toJson_sound

end DocumentQuery
