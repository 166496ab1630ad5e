import DocumentQuery.Expression.Basic

/-!
# The values in a tree

A tree holds values at two kinds of nodes: constants, and raw fragments with constant
arguments.

Main definitions:

* `Expression.values`, `Select.values` — all values, in the order of the tree.
* `Expression.mapValues`, `Select.mapValues` — a function applied to each of them.

Main results:

* `Select.mapValues_congr` — only what happens to the values of the tree matters.
* `Select.values_mapValues` — the values of a mapped tree are the mapped values.
-/

namespace DocumentQuery

/-! ## Listing values -/

def RawArguments.values : RawArguments → List Value
  | .parameter _ => []
  | .constant value => [value]

mutual

/-- The values in an expression. -/
def Expression.values : Expression → List Value
  | .select select => select.values
  | .objectReference _ => []
  | .scalarReference _ _ => []
  | .keyAccess object _ _ _ => object.values
  | .objectAccess object _ => object.values
  | .entityProjection access => access.values
  | .objectArrayProjection access => access.values
  | .binary _ left right _ _ => left.values ++ right.values
  | .unary _ operand _ _ => operand.values
  | .conditional test ifTrue ifFalse _ _ => test.values ++ (ifTrue.values ++ ifFalse.values)
  | .function _ arguments _ _ => valuesOfAll arguments
  | .constant value _ _ => [value]
  | .parameter _ _ _ => []
  | .isIn item none _ => item.values
  | .isIn item (some values) _ => item.values ++ valuesOfAll values
  | .arrayConstant items => valuesOfAll items
  | .exists subquery => subquery.values
  | .array subquery => subquery.values
  | .scalarSubquery subquery => subquery.values
  | .fromSql _ arguments => arguments.values
termination_by structural e => e

def valuesOfAll : List Expression → List Value
  | [] => []
  | e :: es => e.values ++ valuesOfAll es
termination_by structural es => es

def valuesOfOptional : Option Expression → List Value
  | none => []
  | some e => e.values
termination_by structural e => e

/-- The values in a select. -/
def Select.values : Select → List Value
  | ⟨_, projection, _, sources, predicate, orderings, offset, limit⟩ =>
    valuesOfProjections projection ++ (valuesOfSources sources ++
      (valuesOfOptional predicate ++ (valuesOfSortKeys orderings ++
        (valuesOfOptional offset ++ valuesOfOptional limit))))
termination_by structural s => s

def Projection.values : Projection → List Value
  | ⟨expression, _, _⟩ => expression.values
termination_by structural p => p

def valuesOfProjections : List Projection → List Value
  | [] => []
  | p :: ps => p.values ++ valuesOfProjections ps
termination_by structural ps => ps

def Source.values : Source → List Value
  | ⟨container, _, _⟩ => container.values
termination_by structural s => s

def valuesOfSources : List Source → List Value
  | [] => []
  | s :: ss => s.values ++ valuesOfSources ss
termination_by structural ss => ss

def SortKey.values : SortKey → List Value
  | ⟨expression, _⟩ => expression.values
termination_by structural k => k

def valuesOfSortKeys : List SortKey → List Value
  | [] => []
  | k :: ks => k.values ++ valuesOfSortKeys ks
termination_by structural ks => ks

end

/-! ## Mapping values -/

def RawArguments.mapValues (f : Value → Value) : RawArguments → RawArguments
  | .parameter name => .parameter name
  | .constant value => .constant (f value)

mutual

/-- An expression with a function applied to its values. -/
def Expression.mapValues (f : Value → Value) : Expression → Expression
  | .select select => .select (select.mapValues f)
  | .objectReference name => .objectReference name
  | .scalarReference name type => .scalarReference name type
  | .keyAccess object property type mapping =>
    .keyAccess (object.mapValues f) property type mapping
  | .objectAccess object property => .objectAccess (object.mapValues f) property
  | .entityProjection access => .entityProjection (access.mapValues f)
  | .objectArrayProjection access => .objectArrayProjection (access.mapValues f)
  | .binary operator left right type mapping =>
    .binary operator (left.mapValues f) (right.mapValues f) type mapping
  | .unary operator operand type mapping => .unary operator (operand.mapValues f) type mapping
  | .conditional test ifTrue ifFalse type mapping =>
    .conditional (test.mapValues f) (ifTrue.mapValues f) (ifFalse.mapValues f) type mapping
  | .function name arguments type mapping =>
    .function name (mapValuesOfAll f arguments) type mapping
  | .constant value type mapping => .constant (f value) type mapping
  | .parameter name type mapping => .parameter name type mapping
  | .isIn item none valuesParameter => .isIn (item.mapValues f) none valuesParameter
  | .isIn item (some values) valuesParameter =>
    .isIn (item.mapValues f) (some (mapValuesOfAll f values)) valuesParameter
  | .arrayConstant items => .arrayConstant (mapValuesOfAll f items)
  | .exists subquery => .exists (subquery.mapValues f)
  | .array subquery => .array (subquery.mapValues f)
  | .scalarSubquery subquery => .scalarSubquery (subquery.mapValues f)
  | .fromSql sql arguments => .fromSql sql (arguments.mapValues f)
termination_by structural e => e

def mapValuesOfAll (f : Value → Value) : List Expression → List Expression
  | [] => []
  | e :: es => e.mapValues f :: mapValuesOfAll f es
termination_by structural es => es

def mapValuesOfOptional (f : Value → Value) : Option Expression → Option Expression
  | none => none
  | some e => some (e.mapValues f)
termination_by structural e => e

/-- A select with a function applied to its values. -/
def Select.mapValues (f : Value → Value) : Select → Select
  | ⟨isDistinct, projection, singleValue, sources, predicate, orderings, offset, limit⟩ =>
    ⟨isDistinct, mapValuesOfProjections f projection, singleValue, mapValuesOfSources f sources,
      mapValuesOfOptional f predicate, mapValuesOfSortKeys f orderings,
      mapValuesOfOptional f offset, mapValuesOfOptional f limit⟩
termination_by structural s => s

def Projection.mapValues (f : Value → Value) : Projection → Projection
  | ⟨expression, aliasName, name⟩ => ⟨expression.mapValues f, aliasName, name⟩
termination_by structural p => p

def mapValuesOfProjections (f : Value → Value) : List Projection → List Projection
  | [] => []
  | p :: ps => p.mapValues f :: mapValuesOfProjections f ps
termination_by structural ps => ps

def Source.mapValues (f : Value → Value) : Source → Source
  | ⟨container, aliasName, eachItem⟩ => ⟨container.mapValues f, aliasName, eachItem⟩
termination_by structural s => s

def mapValuesOfSources (f : Value → Value) : List Source → List Source
  | [] => []
  | s :: ss => s.mapValues f :: mapValuesOfSources f ss
termination_by structural ss => ss

def SortKey.mapValues (f : Value → Value) : SortKey → SortKey
  | ⟨expression, isAscending⟩ => ⟨expression.mapValues f, isAscending⟩
termination_by structural k => k

def mapValuesOfSortKeys (f : Value → Value) : List SortKey → List SortKey
  | [] => []
  | k :: ks => k.mapValues f :: mapValuesOfSortKeys f ks
termination_by structural ks => ks

end

/-! ## Functions that agree on the values -/

section Congr

variable {f g : Value → Value}

theorem RawArguments.mapValues_congr (arguments : RawArguments)
    (h : ∀ v ∈ arguments.values, f v = g v) : arguments.mapValues f = arguments.mapValues g := by
  cases arguments with
  | parameter name => rfl
  | constant value => rw [mapValues, mapValues, h value (List.mem_singleton_self value)]

mutual

theorem Expression.mapValues_congr : ∀ e : Expression, (∀ v ∈ e.values, f v = g v) →
    e.mapValues f = e.mapValues g
  | .select selected, h => by
    rw [Expression.mapValues, Expression.mapValues, Select.mapValues_congr selected h]
  | .objectReference _, _ => rfl
  | .scalarReference _ _, _ => rfl
  | .keyAccess object _ _ _, h => by
    rw [Expression.mapValues, Expression.mapValues, Expression.mapValues_congr object h]
  | .objectAccess object _, h => by
    rw [Expression.mapValues, Expression.mapValues, Expression.mapValues_congr object h]
  | .entityProjection access, h => by
    rw [Expression.mapValues, Expression.mapValues, Expression.mapValues_congr access h]
  | .objectArrayProjection access, h => by
    rw [Expression.mapValues, Expression.mapValues, Expression.mapValues_congr access h]
  | .binary _ left right _ _, h => by
    obtain ⟨hLeft, hRight⟩ := List.forall_mem_append.mp h
    rw [Expression.mapValues, Expression.mapValues, Expression.mapValues_congr left hLeft,
      Expression.mapValues_congr right hRight]
  | .unary _ operand _ _, h => by
    rw [Expression.mapValues, Expression.mapValues, Expression.mapValues_congr operand h]
  | .conditional test ifTrue ifFalse _ _, h => by
    obtain ⟨hTest, hBranches⟩ := List.forall_mem_append.mp h
    obtain ⟨hTrue, hFalse⟩ := List.forall_mem_append.mp hBranches
    rw [Expression.mapValues, Expression.mapValues, Expression.mapValues_congr test hTest,
      Expression.mapValues_congr ifTrue hTrue, Expression.mapValues_congr ifFalse hFalse]
  | .function _ arguments _ _, h => by
    rw [Expression.mapValues, Expression.mapValues, mapValuesOfAll_congr arguments h]
  | .constant value _ _, h => by
    rw [Expression.mapValues, Expression.mapValues, h value (List.mem_singleton_self value)]
  | .parameter _ _ _, _ => rfl
  | .isIn item none _, h => by
    rw [Expression.mapValues, Expression.mapValues, Expression.mapValues_congr item h]
  | .isIn item (some values) _, h => by
    obtain ⟨hItem, hValues⟩ := List.forall_mem_append.mp h
    rw [Expression.mapValues, Expression.mapValues, Expression.mapValues_congr item hItem,
      mapValuesOfAll_congr values hValues]
  | .arrayConstant items, h => by
    rw [Expression.mapValues, Expression.mapValues, mapValuesOfAll_congr items h]
  | .exists subquery, h => by
    rw [Expression.mapValues, Expression.mapValues, Select.mapValues_congr subquery h]
  | .array subquery, h => by
    rw [Expression.mapValues, Expression.mapValues, Select.mapValues_congr subquery h]
  | .scalarSubquery subquery, h => by
    rw [Expression.mapValues, Expression.mapValues, Select.mapValues_congr subquery h]
  | .fromSql _ arguments, h => by
    rw [Expression.mapValues, Expression.mapValues, arguments.mapValues_congr h]
termination_by structural e => e

theorem mapValuesOfAll_congr : ∀ es : List Expression, (∀ v ∈ valuesOfAll es, f v = g v) →
    mapValuesOfAll f es = mapValuesOfAll g es
  | [], _ => rfl
  | e :: es, h => by
    obtain ⟨hFirst, hRest⟩ := List.forall_mem_append.mp h
    rw [mapValuesOfAll, mapValuesOfAll, Expression.mapValues_congr e hFirst,
      mapValuesOfAll_congr es hRest]
termination_by structural es => es

theorem mapValuesOfOptional_congr : ∀ e : Option Expression,
    (∀ v ∈ valuesOfOptional e, f v = g v) → mapValuesOfOptional f e = mapValuesOfOptional g e
  | none, _ => rfl
  | some e, h => by
    rw [mapValuesOfOptional, mapValuesOfOptional, Expression.mapValues_congr e h]
termination_by structural e => e

/-- Functions that agree on the values of a select map it to the same select. -/
theorem Select.mapValues_congr : ∀ s : Select, (∀ v ∈ s.values, f v = g v) →
    s.mapValues f = s.mapValues g
  | ⟨_, projection, _, sources, predicate, orderings, offset, limit⟩, h => by
    rw [Select.values] at h
    obtain ⟨hProjection, h⟩ := List.forall_mem_append.mp h
    obtain ⟨hSources, h⟩ := List.forall_mem_append.mp h
    obtain ⟨hPredicate, h⟩ := List.forall_mem_append.mp h
    obtain ⟨hOrderings, h⟩ := List.forall_mem_append.mp h
    obtain ⟨hOffset, hLimit⟩ := List.forall_mem_append.mp h
    rw [Select.mapValues, Select.mapValues, mapValuesOfProjections_congr projection hProjection,
      mapValuesOfSources_congr sources hSources, mapValuesOfOptional_congr predicate hPredicate,
      mapValuesOfSortKeys_congr orderings hOrderings, mapValuesOfOptional_congr offset hOffset,
      mapValuesOfOptional_congr limit hLimit]
termination_by structural s => s

theorem Projection.mapValues_congr : ∀ p : Projection, (∀ v ∈ p.values, f v = g v) →
    p.mapValues f = p.mapValues g
  | ⟨expression, _, _⟩, h => by
    rw [Projection.mapValues, Projection.mapValues, Expression.mapValues_congr expression h]
termination_by structural p => p

theorem mapValuesOfProjections_congr : ∀ ps : List Projection,
    (∀ v ∈ valuesOfProjections ps, f v = g v) →
    mapValuesOfProjections f ps = mapValuesOfProjections g ps
  | [], _ => rfl
  | p :: ps, h => by
    obtain ⟨hFirst, hRest⟩ := List.forall_mem_append.mp h
    rw [mapValuesOfProjections, mapValuesOfProjections, Projection.mapValues_congr p hFirst,
      mapValuesOfProjections_congr ps hRest]
termination_by structural ps => ps

theorem Source.mapValues_congr : ∀ s : Source, (∀ v ∈ s.values, f v = g v) →
    s.mapValues f = s.mapValues g
  | ⟨container, _, _⟩, h => by
    rw [Source.mapValues, Source.mapValues, Expression.mapValues_congr container h]
termination_by structural s => s

theorem mapValuesOfSources_congr : ∀ ss : List Source, (∀ v ∈ valuesOfSources ss, f v = g v) →
    mapValuesOfSources f ss = mapValuesOfSources g ss
  | [], _ => rfl
  | s :: ss, h => by
    obtain ⟨hFirst, hRest⟩ := List.forall_mem_append.mp h
    rw [mapValuesOfSources, mapValuesOfSources, Source.mapValues_congr s hFirst,
      mapValuesOfSources_congr ss hRest]
termination_by structural ss => ss

theorem SortKey.mapValues_congr : ∀ k : SortKey, (∀ v ∈ k.values, f v = g v) →
    k.mapValues f = k.mapValues g
  | ⟨expression, _⟩, h => by
    rw [SortKey.mapValues, SortKey.mapValues, Expression.mapValues_congr expression h]
termination_by structural k => k

theorem mapValuesOfSortKeys_congr : ∀ ks : List SortKey, (∀ v ∈ valuesOfSortKeys ks, f v = g v) →
    mapValuesOfSortKeys f ks = mapValuesOfSortKeys g ks
  | [], _ => rfl
  | k :: ks, h => by
    obtain ⟨hFirst, hRest⟩ := List.forall_mem_append.mp h
    rw [mapValuesOfSortKeys, mapValuesOfSortKeys, SortKey.mapValues_congr k hFirst,
      mapValuesOfSortKeys_congr ks hRest]
termination_by structural ks => ks

end

end Congr

/-! ## The function that changes nothing -/

theorem RawArguments.mapValues_id (arguments : RawArguments) :
    arguments.mapValues id = arguments := by
  cases arguments <;> rfl

mutual

theorem Expression.mapValues_id : ∀ e : Expression, e.mapValues id = e
  | .select selected => by
    rw [Expression.mapValues, Select.mapValues_id selected]
  | .objectReference _ => rfl
  | .scalarReference _ _ => rfl
  | .keyAccess object _ _ _ => by
    rw [Expression.mapValues, Expression.mapValues_id object]
  | .objectAccess object _ => by
    rw [Expression.mapValues, Expression.mapValues_id object]
  | .entityProjection access => by
    rw [Expression.mapValues, Expression.mapValues_id access]
  | .objectArrayProjection access => by
    rw [Expression.mapValues, Expression.mapValues_id access]
  | .binary _ left right _ _ => by
    rw [Expression.mapValues, Expression.mapValues_id left, Expression.mapValues_id right]
  | .unary _ operand _ _ => by
    rw [Expression.mapValues, Expression.mapValues_id operand]
  | .conditional test ifTrue ifFalse _ _ => by
    rw [Expression.mapValues, Expression.mapValues_id test, Expression.mapValues_id ifTrue,
      Expression.mapValues_id ifFalse]
  | .function _ arguments _ _ => by
    rw [Expression.mapValues, mapValuesOfAll_id arguments]
  | .constant value _ _ => rfl
  | .parameter _ _ _ => rfl
  | .isIn item none _ => by
    rw [Expression.mapValues, Expression.mapValues_id item]
  | .isIn item (some values) _ => by
    rw [Expression.mapValues, Expression.mapValues_id item, mapValuesOfAll_id values]
  | .arrayConstant items => by
    rw [Expression.mapValues, mapValuesOfAll_id items]
  | .exists subquery => by
    rw [Expression.mapValues, Select.mapValues_id subquery]
  | .array subquery => by
    rw [Expression.mapValues, Select.mapValues_id subquery]
  | .scalarSubquery subquery => by
    rw [Expression.mapValues, Select.mapValues_id subquery]
  | .fromSql _ arguments => by
    rw [Expression.mapValues, arguments.mapValues_id]
termination_by structural e => e

theorem mapValuesOfAll_id : ∀ es : List Expression, mapValuesOfAll id es = es
  | [] => rfl
  | e :: es => by rw [mapValuesOfAll, Expression.mapValues_id e, mapValuesOfAll_id es]
termination_by structural es => es

theorem mapValuesOfOptional_id : ∀ e : Option Expression, mapValuesOfOptional id e = e
  | none => rfl
  | some e => by rw [mapValuesOfOptional, Expression.mapValues_id e]
termination_by structural e => e

theorem Select.mapValues_id : ∀ s : Select, s.mapValues id = s
  | ⟨_, projection, _, sources, predicate, orderings, offset, limit⟩ => by
    rw [Select.mapValues, mapValuesOfProjections_id projection, mapValuesOfSources_id sources,
      mapValuesOfOptional_id predicate, mapValuesOfSortKeys_id orderings,
      mapValuesOfOptional_id offset, mapValuesOfOptional_id limit]
termination_by structural s => s

theorem Projection.mapValues_id : ∀ p : Projection, p.mapValues id = p
  | ⟨expression, _, _⟩ => by rw [Projection.mapValues, Expression.mapValues_id expression]
termination_by structural p => p

theorem mapValuesOfProjections_id : ∀ ps : List Projection, mapValuesOfProjections id ps = ps
  | [] => rfl
  | p :: ps => by rw [mapValuesOfProjections, Projection.mapValues_id p,
    mapValuesOfProjections_id ps]
termination_by structural ps => ps

theorem Source.mapValues_id : ∀ s : Source, s.mapValues id = s
  | ⟨container, _, _⟩ => by rw [Source.mapValues, Expression.mapValues_id container]
termination_by structural s => s

theorem mapValuesOfSources_id : ∀ ss : List Source, mapValuesOfSources id ss = ss
  | [] => rfl
  | s :: ss => by rw [mapValuesOfSources, Source.mapValues_id s, mapValuesOfSources_id ss]
termination_by structural ss => ss

theorem SortKey.mapValues_id : ∀ k : SortKey, k.mapValues id = k
  | ⟨expression, _⟩ => by rw [SortKey.mapValues, Expression.mapValues_id expression]
termination_by structural k => k

theorem mapValuesOfSortKeys_id : ∀ ks : List SortKey, mapValuesOfSortKeys id ks = ks
  | [] => rfl
  | k :: ks => by rw [mapValuesOfSortKeys, SortKey.mapValues_id k, mapValuesOfSortKeys_id ks]
termination_by structural ks => ks

end

/-- A function that keeps the values of a select keeps the select. -/
theorem Select.mapValues_eq_self {f : Value → Value} {s : Select} (h : ∀ v ∈ s.values, f v = v) :
    s.mapValues f = s :=
  (Select.mapValues_congr s h).trans s.mapValues_id

/-! ## The values of a mapped tree -/

section Mapped

variable (f : Value → Value)

theorem RawArguments.values_mapValues (arguments : RawArguments) :
    (arguments.mapValues f).values = arguments.values.map f := by
  cases arguments <;> rfl

mutual

theorem Expression.values_mapValues : ∀ e : Expression, (e.mapValues f).values = e.values.map f
  | .select selected => by
    rw [Expression.mapValues, Expression.values, Expression.values,
      Select.values_mapValues selected]
  | .objectReference _ => rfl
  | .scalarReference _ _ => rfl
  | .keyAccess object _ _ _ => by
    rw [Expression.mapValues, Expression.values, Expression.values,
      Expression.values_mapValues object]
  | .objectAccess object _ => by
    rw [Expression.mapValues, Expression.values, Expression.values,
      Expression.values_mapValues object]
  | .entityProjection access => by
    rw [Expression.mapValues, Expression.values, Expression.values,
      Expression.values_mapValues access]
  | .objectArrayProjection access => by
    rw [Expression.mapValues, Expression.values, Expression.values,
      Expression.values_mapValues access]
  | .binary _ left right _ _ => by
    rw [Expression.mapValues, Expression.values, Expression.values, List.map_append,
      Expression.values_mapValues left, Expression.values_mapValues right]
  | .unary _ operand _ _ => by
    rw [Expression.mapValues, Expression.values, Expression.values,
      Expression.values_mapValues operand]
  | .conditional test ifTrue ifFalse _ _ => by
    rw [Expression.mapValues, Expression.values, Expression.values, List.map_append,
      List.map_append, Expression.values_mapValues test, Expression.values_mapValues ifTrue,
      Expression.values_mapValues ifFalse]
  | .function _ arguments _ _ => by
    rw [Expression.mapValues, Expression.values, Expression.values, valuesOfAll_mapValues arguments]
  | .constant value _ _ => rfl
  | .parameter _ _ _ => rfl
  | .isIn item none _ => by
    rw [Expression.mapValues, Expression.values, Expression.values,
      Expression.values_mapValues item]
  | .isIn item (some values) _ => by
    rw [Expression.mapValues, Expression.values, Expression.values, List.map_append,
      Expression.values_mapValues item, valuesOfAll_mapValues values]
  | .arrayConstant items => by
    rw [Expression.mapValues, Expression.values, Expression.values, valuesOfAll_mapValues items]
  | .exists subquery => by
    rw [Expression.mapValues, Expression.values, Expression.values,
      Select.values_mapValues subquery]
  | .array subquery => by
    rw [Expression.mapValues, Expression.values, Expression.values,
      Select.values_mapValues subquery]
  | .scalarSubquery subquery => by
    rw [Expression.mapValues, Expression.values, Expression.values,
      Select.values_mapValues subquery]
  | .fromSql _ arguments => by
    rw [Expression.mapValues, Expression.values, Expression.values, arguments.values_mapValues]
termination_by structural e => e

theorem valuesOfAll_mapValues : ∀ es : List Expression,
    valuesOfAll (mapValuesOfAll f es) = (valuesOfAll es).map f
  | [] => rfl
  | e :: es => by
    rw [mapValuesOfAll, valuesOfAll, valuesOfAll, List.map_append,
      Expression.values_mapValues e, valuesOfAll_mapValues es]
termination_by structural es => es

theorem valuesOfOptional_mapValues : ∀ e : Option Expression,
    valuesOfOptional (mapValuesOfOptional f e) = (valuesOfOptional e).map f
  | none => rfl
  | some e => by
    rw [mapValuesOfOptional, valuesOfOptional, valuesOfOptional, Expression.values_mapValues e]
termination_by structural e => e

/-- The values of a mapped select are the mapped values. -/
theorem Select.values_mapValues : ∀ s : Select, (s.mapValues f).values = s.values.map f
  | ⟨_, projection, _, sources, predicate, orderings, offset, limit⟩ => by
    simp only [Select.mapValues, Select.values, List.map_append,
      valuesOfProjections_mapValues projection, valuesOfSources_mapValues sources,
      valuesOfOptional_mapValues predicate, valuesOfSortKeys_mapValues orderings,
      valuesOfOptional_mapValues offset, valuesOfOptional_mapValues limit]
termination_by structural s => s

theorem Projection.values_mapValues : ∀ p : Projection, (p.mapValues f).values = p.values.map f
  | ⟨expression, _, _⟩ => by
    rw [Projection.mapValues, Projection.values, Projection.values,
      Expression.values_mapValues expression]
termination_by structural p => p

theorem valuesOfProjections_mapValues : ∀ ps : List Projection,
    valuesOfProjections (mapValuesOfProjections f ps) = (valuesOfProjections ps).map f
  | [] => rfl
  | p :: ps => by
    rw [mapValuesOfProjections, valuesOfProjections, valuesOfProjections, List.map_append,
      Projection.values_mapValues p, valuesOfProjections_mapValues ps]
termination_by structural ps => ps

theorem Source.values_mapValues : ∀ s : Source, (s.mapValues f).values = s.values.map f
  | ⟨container, _, _⟩ => by
    rw [Source.mapValues, Source.values, Source.values, Expression.values_mapValues container]
termination_by structural s => s

theorem valuesOfSources_mapValues : ∀ ss : List Source,
    valuesOfSources (mapValuesOfSources f ss) = (valuesOfSources ss).map f
  | [] => rfl
  | s :: ss => by
    rw [mapValuesOfSources, valuesOfSources, valuesOfSources, List.map_append,
      Source.values_mapValues s, valuesOfSources_mapValues ss]
termination_by structural ss => ss

theorem SortKey.values_mapValues : ∀ k : SortKey, (k.mapValues f).values = k.values.map f
  | ⟨expression, _⟩ => by
    rw [SortKey.mapValues, SortKey.values, SortKey.values, Expression.values_mapValues expression]
termination_by structural k => k

theorem valuesOfSortKeys_mapValues : ∀ ks : List SortKey,
    valuesOfSortKeys (mapValuesOfSortKeys f ks) = (valuesOfSortKeys ks).map f
  | [] => rfl
  | k :: ks => by
    rw [mapValuesOfSortKeys, valuesOfSortKeys, valuesOfSortKeys, List.map_append,
      SortKey.values_mapValues k, valuesOfSortKeys_mapValues ks]
termination_by structural ks => ks

end

end Mapped

end DocumentQuery
