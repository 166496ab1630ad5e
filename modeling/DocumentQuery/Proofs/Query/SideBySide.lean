import DocumentQuery.Proofs.Document.Writer
import DocumentQuery.Proofs.Query.Fragments

/-!
# Selects that differ in look-alikes

Two selects that are the same once look-alikes are settled take the same way through
lowering: what decides about the way is not looked up in values.

Main results:

* `Select.lower_inStep` — the two selects are lowered in step.
* `Select.generate_eq_iff_fragments` — they give the same result exactly when their
  runs have the same fragments.
-/

namespace DocumentQuery

/-! ## What does not depend on values -/

section Shape

variable (f : Value → Value)

theorem Expression.mapValues_isIn (item : Expression) (values : Option (List Expression))
    (valuesParameter : Option String) :
    (Expression.isIn item values valuesParameter).mapValues f =
      .isIn (item.mapValues f) (values.map (mapValuesOfAll f)) valuesParameter := by
  cases values <;> rfl

/-- Mapping values keeps the forms of nodes. -/
theorem Expression.form_mapValues (e : Expression) : (e.mapValues f).form = e.form := by
  cases e with
  | isIn item values valuesParameter => cases values <;> rfl
  | _ => rfl

variable {f} in
theorem Expression.form_eq {e e' : Expression} (h : e.mapValues f = e'.mapValues f) :
    e.form = e'.form := by
  rw [← form_mapValues f e, h, form_mapValues]

mutual

/-- Static types do not depend on values. -/
theorem Expression.dataType_mapValues : ∀ e : Expression, (e.mapValues f).dataType = e.dataType
  | .array subquery => congrArg DataType.array (Select.valueType_mapValues subquery)
  | .scalarSubquery subquery => Select.valueType_mapValues subquery
  | .arrayConstant [] => rfl
  | .arrayConstant (item :: _) => congrArg DataType.array (Expression.dataType_mapValues item)
  | .isIn item values valuesParameter => by
    rw [Expression.mapValues_isIn]
    rfl
  | .select _ => rfl
  | .objectReference _ => rfl
  | .scalarReference _ _ => rfl
  | .keyAccess _ _ _ _ => rfl
  | .objectAccess _ _ => rfl
  | .entityProjection _ => rfl
  | .objectArrayProjection _ => rfl
  | .binary _ _ _ _ _ => rfl
  | .unary _ _ _ _ => rfl
  | .conditional _ _ _ _ _ => rfl
  | .function _ _ _ _ => rfl
  | .constant _ _ _ => rfl
  | .parameter _ _ _ => rfl
  | .exists _ => rfl
  | .fromSql _ _ => rfl
termination_by structural e => e

theorem Select.valueType_mapValues : ∀ s : Select, (s.mapValues f).valueType = s.valueType
  | ⟨_, [], _, _, _, _, _, _⟩ => rfl
  | ⟨_, [⟨expression, _, _⟩], _, _, _, _, _, _⟩ => Expression.dataType_mapValues expression
  | ⟨_, ⟨_, _, _⟩ :: _ :: _, _, _, _, _, _, _⟩ => rfl
termination_by structural s => s

end

theorem mapValuesOfProjections_eq (ps : List Projection) :
    mapValuesOfProjections f ps = ps.map (Projection.mapValues f) := by
  induction ps with
  | nil => rfl
  | cons p ps ih => rw [mapValuesOfProjections, ih, List.map_cons]

theorem mapValuesOfSources_eq (ss : List Source) :
    mapValuesOfSources f ss = ss.map (Source.mapValues f) := by
  induction ss with
  | nil => rfl
  | cons s ss ih => rw [mapValuesOfSources, ih, List.map_cons]

theorem mapValuesOfSortKeys_eq (ks : List SortKey) :
    mapValuesOfSortKeys f ks = ks.map (SortKey.mapValues f) := by
  induction ks with
  | nil => rfl
  | cons k ks ih => rw [mapValuesOfSortKeys, ih, List.map_cons]

theorem mapValuesOfOptional_eq (e : Option Expression) :
    mapValuesOfOptional f e = e.map (Expression.mapValues f) := by
  cases e <;> rfl

theorem Select.isSimpleValue_mapValues (s : Select) :
    (s.mapValues f).isSimpleValue = s.isSimpleValue := by
  obtain ⟨isDistinct, projection, singleValue, sources, predicate, orderings, offset, limit⟩ := s
  simp only [mapValues, isSimpleValue, mapValuesOfProjections_eq, mapValuesOfSources_eq,
    mapValuesOfSortKeys_eq, mapValuesOfOptional_eq, List.isEmpty_map, List.length_map,
    Option.isNone_map]

namespace ProjectionStyle

theorem isFunction_mapValues (e : Expression) :
    isFunction (e.mapValues f) = isFunction e := by
  cases e with
  | isIn item values valuesParameter => cases values <;> rfl
  | _ => rfl

/-- Whether an object is needed is told by the aliases and forms of the projections alone. -/
theorem needsObject_map_of {g : Projection → Projection}
    (hAlias : ∀ p, (g p).aliasName = p.aliasName)
    (hCustom : ∀ p, (g p).hasCustomAlias = p.hasCustomAlias)
    (hFunction : ∀ p, isFunction (g p).expression = isFunction p.expression)
    (ps : List Projection) : needsObject (ps.map g) = needsObject ps := by
  unfold needsObject
  rw [List.any_map, List.any_map]
  simp only [Function.comp_def, hCustom, hFunction]
  match ps with
  | [] => rfl
  | [p] => simp only [List.map_cons, List.map_nil, hAlias]
  | _ :: _ :: _ => rfl

theorem needsObject_map (ps : List Projection) :
    needsObject (ps.map (Projection.mapValues f)) = needsObject ps := by
  refine needsObject_map_of (fun p => ?_) (fun p => ?_) (fun p => ?_) ps
  · cases p
    rfl
  · cases p
    rfl
  · cases p
    exact isFunction_mapValues f _

/-- How projections are written does not depend on values. -/
theorem of_mapValues (singleValue : Bool) (ps : List Projection) :
    of singleValue (mapValuesOfProjections f ps) = of singleValue ps := by
  rw [of, of, mapValuesOfProjections_eq, needsObject_map]

end ProjectionStyle

end Shape

/-! ## Two trees in step -/

open Layout

theorem ProjectionStyle.tracks_item (style : ProjectionStyle) {expression expression' : Expression}
    (aliasName name : String) {fs fs' : List Layout} {l l' : Layout} (h : Tracks fs fs' l l') :
    Tracks fs fs' (style.item ⟨expression, aliasName, name⟩ l)
      (style.item ⟨expression', aliasName, name⟩ l') := by
  cases style with
  | value => exact h
  | object => exact h.prepend [_]
  | columns =>
    unfold item Projection.hasCustomAlias
    dsimp only
    split
    · exact h.postpend _
    · exact h

theorem ProjectionStyle.tracks_clause (style : ProjectionStyle) {fs fs' ls ls' : List Layout}
    (h : TracksAll fs fs' ls ls') : Tracks fs fs' (style.clause ls) (style.clause ls') := by
  cases style with
  | value => exact (h.separated _).prepend [_]
  | object =>
    exact (((((h.separated _).postpend [.newline]).prepend [.indent]).postpend [.dedent]).prepend
      _).postpend _
  | columns => exact h.separated _

def Layout.ofPredicate : Option Layout → Layout
  | some predicate => Lowering.clause "WHERE " predicate
  | none => []

def Layout.ofOrderings (orderings : List Layout) : Layout :=
  if orderings.isEmpty then []
  else Lowering.clause "ORDER BY " (Layout.separated [.text ", "] orderings)

/-- The layout of a select from the layouts of its clauses. -/
def Layout.ofClauses (isDistinct : Bool) (projections source : Layout) (predicate : Option Layout)
    (orderings : List Layout) (paging : Layout) : Layout :=
  .text "SELECT " :: (if isDistinct then [.text "DISTINCT "] else []) ++ projections ++ source ++
    ofPredicate predicate ++ ofOrderings orderings ++ paging

theorem Layout.tracks_ofClauses (isDistinct : Bool)
    {projections projections' source source' paging paging' : Layout}
    {predicate predicate' : Option Layout} {orderings orderings' : List Layout}
    {fs fs' gs gs' hs hs' is is' js js' : List Layout}
    (hProjections : Tracks fs fs' projections projections') (hSource : Tracks gs gs' source source')
    (hPredicate : TracksOptional hs hs' predicate predicate')
    (hOrderings : TracksAll is is' orderings orderings') (hPaging : Tracks js js' paging paging') :
    Tracks (fs ++ (gs ++ (hs ++ (is ++ js)))) (fs' ++ (gs' ++ (hs' ++ (is' ++ js'))))
      (ofClauses isDistinct projections source predicate orderings paging)
      (ofClauses isDistinct projections' source' predicate' orderings' paging') := by
  have hWhere : Tracks hs hs' (ofPredicate predicate) (ofPredicate predicate') := by
    match predicate, predicate', hPredicate with
    | some _, some _, hPredicate => exact Tracks.prepend hPredicate [_, _]
    | none, none, hPredicate =>
      obtain ⟨rfl, rfl⟩ := hPredicate
      exact .refl []
  have hOrder : Tracks is is' (ofOrderings orderings) (ofOrderings orderings') := by
    cases hOrderings with
    | nil => exact .refl []
    | cons hHead hTail => exact ((TracksAll.cons hHead hTail).separated _).prepend [_, _]
  have hClauses := (((hProjections.append hSource).append hWhere).append hOrder).append hPaging
  have hAll := hClauses.prepend
    (.text "SELECT " :: if isDistinct then [.text "DISTINCT "] else [])
  simp only [List.append_assoc] at hAll
  simp only [ofClauses, List.append_assoc]
  exact hAll

section InStep

variable {ctx : Context}

/-- Trees with the same settled form have the same static type. -/
theorem Expression.dataType_eq_of_settled {e e' : Expression}
    (h : e.mapValues Value.settled = e'.mapValues Value.settled) : e'.dataType = e.dataType := by
  rw [← dataType_mapValues Value.settled e', ← h, dataType_mapValues]

/-- Only the negation of a membership is written differently. -/
theorem Expression.lower_not {operand : Expression} {type : DataType} {mapping : Option TypeMapping}
    (h : ∀ item values valuesParameter, operand ≠ .isIn item values valuesParameter) :
    (Expression.unary .not operand type mapping).lower ctx =
      Lowering.unary .not operand.dataType (operand.lower ctx) := by
  cases operand with
  | isIn item values valuesParameter => exact absurd rfl (h item values valuesParameter)
  | _ => rfl

/-- Only selects are derived sources. -/
theorem lowerSources_other {container : Expression} {aliasName : Option String} {eachItem : Bool}
    (h : ∀ s, container ≠ .select s) : lowerSources ctx [⟨container, aliasName, eachItem⟩] = do
      return Lowering.clause "FROM "
        (← Lowering.source aliasName eachItem (container.lower ctx)) := by
  cases container with
  | select s => exact absurd rfl (h s)
  | _ => rfl

theorem Select.isSimpleValue_eq_of_settled {s s' : Select}
    (h : s.mapValues Value.settled = s'.mapValues Value.settled) :
    s'.isSimpleValue = s.isSimpleValue := by
  rw [← isSimpleValue_mapValues Value.settled s', ← h, isSimpleValue_mapValues]

mutual

theorem Expression.lower_inStep : ∀ e e' : Expression,
    e.mapValues Value.settled = e'.mapValues Value.settled →
      Lowering.InStep ctx Tracks e.steps e'.steps (e.lower ctx) (e'.lower ctx)
  | .select s, e', h => by
    cases e' with
    | select s' => exact Select.lower_inStep s s' (Expression.select.inj h)
    | _ => nomatch Expression.form_eq h
  | .objectReference name, e', h => by
    cases e' with
    | objectReference name' =>
      cases h
      exact .pure (.refl _)
    | _ => nomatch Expression.form_eq h
  | .scalarReference name type, e', h => by
    cases e' with
    | scalarReference name' type' =>
      cases h
      exact .pure (.refl _)
    | _ => nomatch Expression.form_eq h
  | .keyAccess object property type mapping, e', h => by
    cases e' with
    | keyAccess object' property' type' mapping' =>
      obtain ⟨hObject, rfl, -, -⟩ := Expression.keyAccess.inj h
      exact (Expression.lower_inStep object object' hObject).bind_pure fun _ _ _ _ ha =>
        ha.postpend _
    | _ => nomatch Expression.form_eq h
  | .objectAccess object property, e', h => by
    cases e' with
    | objectAccess object' property' =>
      obtain ⟨hObject, rfl⟩ := Expression.objectAccess.inj h
      exact (Expression.lower_inStep object object' hObject).bind_pure fun _ _ _ _ ha =>
        ha.postpend _
    | _ => nomatch Expression.form_eq h
  | .entityProjection access, e', h => by
    cases e' with
    | entityProjection access' =>
      exact Expression.lower_inStep access access' (Expression.entityProjection.inj h)
    | _ => nomatch Expression.form_eq h
  | .objectArrayProjection access, e', h => by
    cases e' with
    | objectArrayProjection access' =>
      exact Expression.lower_inStep access access' (Expression.objectArrayProjection.inj h)
    | _ => nomatch Expression.form_eq h
  | .binary operator left right type mapping, e', h => by
    cases e' with
    | binary operator' left' right' type' mapping' =>
      obtain ⟨rfl, hLeft, hRight, -, -⟩ := Expression.binary.inj h
      -- the operator is looked up for the type of its left operand, which is the same
      have hStep := Lowering.inStep_binary operator left.dataType
        (Expression.lower_inStep left left' hLeft) (Expression.lower_inStep right right' hRight)
      show Lowering.InStep ctx Tracks _ (Step.ofBinary operator left'.dataType ++ _) _
        (Lowering.binary operator left'.dataType _ _)
      rw [Expression.dataType_eq_of_settled hLeft]
      exact hStep
    | _ => nomatch Expression.form_eq h
  | .unary operator operand type mapping, e', h => by
    cases e' with
    | unary operator' operand' type' mapping' =>
      obtain ⟨rfl, hOperand, -, -⟩ := Expression.unary.inj h
      have hStep := Lowering.inStep_unary operator operand.dataType
        (Expression.lower_inStep operand operand' hOperand)
      -- negated memberships are lowered by their item and values, not as operands
      show Lowering.InStep ctx Tracks _ (Step.ofUnary operator operand'.dataType ++ _) _ _
      rw [Expression.dataType_eq_of_settled hOperand]
      cases operator with
      | not =>
        cases operand with
        | isIn item values valuesParameter =>
          cases operand' with
          | isIn item' values' valuesParameter' =>
            rw [Expression.mapValues_isIn, Expression.mapValues_isIn] at hOperand
            obtain ⟨hItem, hValues, rfl⟩ := Expression.isIn.inj hOperand
            match values, values', hValues with
            | none, none, _ => exact Lowering.inStep_membership_none true valuesParameter
            | some values, some values', hValues =>
              exact Lowering.inStep_membership_some true valuesParameter
                (Expression.lower_inStep item item' hItem)
                (lowerAll_inStep values values' (Option.some.inj hValues))
          | _ => nomatch Expression.form_eq hOperand
        | _ =>
          have hOther : ∀ item values valuesParameter,
              operand' ≠ .isIn item values valuesParameter := by
            rintro item values valuesParameter rfl
            exact nomatch Expression.form_eq hOperand
          rw [Expression.lower_not hOther, Expression.dataType_eq_of_settled hOperand]
          exact hStep
      | _ =>
        show Lowering.InStep ctx Tracks _ _ _ (Lowering.unary _ operand'.dataType _)
        rw [Expression.dataType_eq_of_settled hOperand]
        exact hStep
    | _ => nomatch Expression.form_eq h
  | .conditional test ifTrue ifFalse type mapping, e', h => by
    cases e' with
    | conditional test' ifTrue' ifFalse' type' mapping' =>
      obtain ⟨hTest, hTrue, hFalse, -, -⟩ := Expression.conditional.inj h
      refine (Expression.lower_inStep test test' hTest).bind fun _ _ _ _ ha =>
        (Expression.lower_inStep ifTrue ifTrue' hTrue).bind fun _ _ _ _ hb =>
          (Expression.lower_inStep ifFalse ifFalse' hFalse).bind_pure fun _ _ _ _ hc => ?_
      have hAll := (((ha.prepend [.text "("]).append (hb.prepend [.text " ? "])).append
        (hc.prepend [.text " : "])).postpend [.text ")"]
      rw [List.append_assoc, List.append_assoc] at hAll
      exact hAll
    | _ => nomatch Expression.form_eq h
  | .function name arguments type mapping, e', h => by
    cases e' with
    | function name' arguments' type' mapping' =>
      obtain ⟨rfl, hArguments, -, -⟩ := Expression.function.inj h
      exact (lowerAll_inStep arguments arguments' hArguments).bind_pure fun _ _ _ _ ha =>
        ((ha.separated _).prepend [_, _]).postpend [_]
    | _ => nomatch Expression.form_eq h
  | .constant value type mapping, e', h => by
    cases e' with
    | constant value' type' mapping' =>
      obtain ⟨hValue, -, rfl⟩ := Expression.constant.inj h
      exact Lowering.inStep_constant hValue mapping
    | _ => nomatch Expression.form_eq h
  | .parameter name type mapping, e', h => by
    cases e' with
    | parameter name' type' mapping' =>
      cases h
      exact Lowering.inStep_parameter name mapping
    | _ => nomatch Expression.form_eq h
  | .isIn item values valuesParameter, e', h => by
    cases e' with
    | isIn item' values' valuesParameter' =>
      rw [Expression.mapValues_isIn, Expression.mapValues_isIn] at h
      obtain ⟨hItem, hValues, rfl⟩ := Expression.isIn.inj h
      match values, values', hValues with
      | none, none, _ => exact Lowering.inStep_membership_none false valuesParameter
      | some values, some values', hValues =>
        exact Lowering.inStep_membership_some false valuesParameter
          (Expression.lower_inStep item item' hItem)
          (lowerAll_inStep values values' (Option.some.inj hValues))
    | _ => nomatch Expression.form_eq h
  | .arrayConstant items, e', h => by
    cases e' with
    | arrayConstant items' =>
      exact (lowerAll_inStep items items' (Expression.arrayConstant.inj h)).bind_pure
        fun _ _ _ _ ha => ((ha.separated _).prepend [_]).postpend [_]
    | _ => nomatch Expression.form_eq h
  | .exists subquery, e', h => by
    cases e' with
    | «exists» subquery' =>
      exact Lowering.inStep_subquery _
        (Select.lower_inStep subquery subquery' (Expression.exists.inj h))
    | _ => nomatch Expression.form_eq h
  | .array subquery, e', h => by
    cases e' with
    | array subquery' =>
      exact Lowering.inStep_subquery _
        (Select.lower_inStep subquery subquery' (Expression.array.inj h))
    | _ => nomatch Expression.form_eq h
  | .scalarSubquery subquery, e', h => by
    cases e' with
    | scalarSubquery subquery' =>
      exact Lowering.inStep_subquery _
        (Select.lower_inStep subquery subquery' (Expression.scalarSubquery.inj h))
    | _ => nomatch Expression.form_eq h
  | .fromSql sql arguments, e', h => by
    cases e' with
    | fromSql sql' arguments' =>
      obtain ⟨rfl, hArguments⟩ := Expression.fromSql.inj h
      exact Lowering.inStep_fromSql sql hArguments
    | _ => nomatch Expression.form_eq h
termination_by structural e => e

theorem lowerAll_inStep : ∀ es es' : List Expression,
    mapValuesOfAll Value.settled es = mapValuesOfAll Value.settled es' →
      Lowering.InStep ctx TracksAll (stepsOfAll es) (stepsOfAll es') (lowerAll ctx es)
        (lowerAll ctx es')
  | [], [], _ => .pure .nil
  | [], _ :: _, h => nomatch h
  | _ :: _, [], h => nomatch h
  | e :: es, e' :: es', h =>
    (Expression.lower_inStep e e' (List.cons.inj h).1).bind fun _ _ _ _ ha =>
      (lowerAll_inStep es es' (List.cons.inj h).2).bind_pure fun _ _ _ _ hb => .cons ha hb
termination_by structural es => es

theorem lowerOptional_inStep : ∀ e e' : Option Expression,
    mapValuesOfOptional Value.settled e = mapValuesOfOptional Value.settled e' →
      Lowering.OptionalInStep ctx e e'
  | none, none, _ => trivial
  | none, some _, h => nomatch h
  | some _, none, h => nomatch h
  | some e, some e', h => Expression.lower_inStep e e' (Option.some.inj h)
termination_by structural e => e

theorem lowerProjections_inStep (style : ProjectionStyle) : ∀ ps ps' : List Projection,
    mapValuesOfProjections Value.settled ps = mapValuesOfProjections Value.settled ps' →
      Lowering.InStep ctx TracksAll (stepsOfProjections ps) (stepsOfProjections ps')
        (lowerProjections ctx style ps) (lowerProjections ctx style ps')
  | [], [], _ => .pure .nil
  | [], _ :: _, h => nomatch h
  | _ :: _, [], h => nomatch h
  | ⟨expression, aliasName, name⟩ :: ps, ⟨expression', aliasName', name'⟩ :: ps', h => by
    obtain ⟨hHead, hTail⟩ := List.cons.inj h
    obtain ⟨hExpression, rfl, rfl⟩ := Projection.mk.inj hHead
    exact (Expression.lower_inStep expression expression' hExpression).bind fun _ _ _ _ ha =>
      (lowerProjections_inStep style ps ps' hTail).bind_pure fun _ _ _ _ hb =>
        .cons (style.tracks_item aliasName name ha) hb
termination_by structural ps => ps

theorem lowerSources_inStep : ∀ ss ss' : List Source,
    mapValuesOfSources Value.settled ss = mapValuesOfSources Value.settled ss' →
      Lowering.InStep ctx Tracks
        (Step.require (ss.length ≤ 1) (.internal .joinsNotSupported) ++ stepsOfSources ss)
        (Step.require (ss'.length ≤ 1) (.internal .joinsNotSupported) ++ stepsOfSources ss')
        (lowerSources ctx ss) (lowerSources ctx ss')
  | [], [], _ => .pure (.refl [])
  | [], _ :: _, h => nomatch h
  | _ :: _, [], h => nomatch h
  | [_], _ :: _ :: _, h => nomatch (List.cons.inj h).2
  | _ :: _ :: _, [_], h => nomatch (List.cons.inj h).2
  | s :: s' :: ss, _ :: _ :: _, _ => by
    rw [lowerSources]
    exact .fail_left _
  | [⟨container, aliasName, eachItem⟩], [⟨container', aliasName', eachItem'⟩], h => by
    obtain ⟨hHead, -⟩ := List.cons.inj h
    obtain ⟨hContainer, rfl, rfl⟩ := Source.mk.inj hHead
    have ih := Expression.lower_inStep container container' hContainer
    show Lowering.InStep ctx Tracks ((Step.require _ _ ++ _) ++ []) ((Step.require _ _ ++ _) ++ [])
      _ _
    rw [List.append_nil, List.append_nil]
    cases container with
    | select s =>
      cases container' with
      | select s' =>
        -- a select is a source of its own, in brackets or in a block
        have hSimple := Select.isSimpleValue_eq_of_settled (Expression.select.inj hContainer)
        show Lowering.InStep ctx Tracks _ _ _ (Lowering.source aliasName eachItem
          (Lowering.derivedSource s'.isSimpleValue (s'.lower ctx)) >>= _)
        rw [hSimple]
        exact (Lowering.inStep_source aliasName eachItem
          (Lowering.inStep_derivedSource s.isSimpleValue ih)).bind_pure fun _ _ _ _ ha =>
            ha.prepend [_, _]
      | _ => nomatch Expression.form_eq hContainer
    | _ =>
      have hOther : ∀ s, container' ≠ .select s := by
        rintro s rfl
        exact nomatch Expression.form_eq hContainer
      rw [lowerSources_other hOther]
      exact (Lowering.inStep_source aliasName eachItem ih).bind_pure fun _ _ _ _ ha =>
        ha.prepend [_, _]
termination_by structural ss => ss

theorem lowerSortKeys_inStep : ∀ ks ks' : List SortKey,
    mapValuesOfSortKeys Value.settled ks = mapValuesOfSortKeys Value.settled ks' →
      Lowering.InStep ctx TracksAll (stepsOfSortKeys ks) (stepsOfSortKeys ks')
        (lowerSortKeys ctx ks) (lowerSortKeys ctx ks')
  | [], [], _ => .pure .nil
  | [], _ :: _, h => nomatch h
  | _ :: _, [], h => nomatch h
  | ⟨expression, isAscending⟩ :: ks, ⟨expression', isAscending'⟩ :: ks', h => by
    obtain ⟨hHead, hTail⟩ := List.cons.inj h
    obtain ⟨hExpression, rfl⟩ := SortKey.mk.inj hHead
    refine (Expression.lower_inStep expression expression' hExpression).bind fun _ _ _ _ ha =>
      (lowerSortKeys_inStep ks ks' hTail).bind_pure fun _ _ _ _ hb => .cons ?_ hb
    cases isAscending with
    | true => exact ha
    | false => exact ha.postpend _
termination_by structural ks => ks

theorem Select.lower_inStep : ∀ s s' : Select,
    s.mapValues Value.settled = s'.mapValues Value.settled →
      Lowering.InStep ctx Tracks s.steps s'.steps (s.lower ctx) (s'.lower ctx)
  | ⟨isDistinct, projection, singleValue, sources, predicate, orderings, offset, limit⟩,
    ⟨isDistinct', projection', singleValue', sources', predicate', orderings', offset', limit'⟩,
    h => by
    obtain ⟨rfl, hProjection, rfl, hSources, hPredicate, hOrderings, hOffset, hLimit⟩ :=
      Select.mk.inj h
    have hLength : projection'.length = projection.length := by
      rw [mapValuesOfProjections_eq, mapValuesOfProjections_eq] at hProjection
      rw [← List.length_map (Projection.mapValues Value.settled), ← hProjection, List.length_map]
    -- both are written in the same style, so one text stands around the projections
    have hStyle : ProjectionStyle.of singleValue projection' =
        ProjectionStyle.of singleValue projection := by
      rw [← ProjectionStyle.of_mapValues Value.settled singleValue projection', ← hProjection,
        ProjectionStyle.of_mapValues]
    have sources_ih := lowerSources_inStep sources sources' hSources
    have predicate_ih :=
      Lowering.inStep_optional (lowerOptional_inStep predicate predicate' hPredicate)
    have orderings_ih := lowerSortKeys_inStep orderings orderings' hOrderings
    have paging_ih := Lowering.inStep_paging (lowerOptional_inStep offset offset' hOffset)
      (lowerOptional_inStep limit limit' hLimit)
    have projections_ih := lowerProjections_inStep (.of singleValue projection) projection
      projection' hProjection
    rw [Select.lower, Select.lower, Select.steps, Select.steps, hLength, hStyle]
    cases hArity : singleValue && decide (projection.length > 1) with
    | true => exact .fail_left _
    | false =>
      simp only [Bool.false_eq_true, if_false, Bool.not_false, Step.require, if_true,
        List.nil_append]
      -- an empty projection is the constant 1, which no step stands for
      cases hEmpty : projection.isEmpty with
      | true =>
        rw [List.isEmpty_iff] at hEmpty
        subst hEmpty
        cases projection' with
        | cons p ps => cases hLength
        | nil =>
          simp only [List.isEmpty_nil, if_true, pure_bind]
          exact sources_ih.bind fun _ _ _ _ hs => predicate_ih.bind fun _ _ _ _ hp =>
            orderings_ih.bind fun _ _ _ _ ho => paging_ih.bind_pure fun _ _ _ _ hl =>
              tracks_ofClauses isDistinct (.refl _) hs hp ho hl
      | false =>
        have hEmpty' : projection'.isEmpty = false := by
          rw [List.isEmpty_eq_false_iff, ← List.length_pos_iff] at hEmpty ⊢
          rwa [hLength]
        rw [hEmpty']
        simp only [Bool.false_eq_true, if_false, pure_bind]
        exact projections_ih.bind fun _ _ _ _ ha => sources_ih.bind fun _ _ _ _ hs =>
          predicate_ih.bind fun _ _ _ _ hp => orderings_ih.bind fun _ _ _ _ ho =>
            paging_ih.bind_pure fun _ _ _ _ hl =>
              tracks_ofClauses isDistinct (ProjectionStyle.tracks_clause _ ha) hs hp ho hl
termination_by structural s => s

end

end InStep

/-! ## Two queries -/

namespace Select

theorem map_fragments (s : Select) (ctx : Context) :
    (s.fragments ctx).map Prod.snd = ((s.lower ctx).run {}).map Prod.snd := by
  rw [fragments, map_fragmentsOf, lower_bindings]

theorem fragments_error_iff {s : Select} {ctx : Context} {e : QueryError} :
    s.fragments ctx = .error e ↔ (s.lower ctx).run {} = .error e := by
  have hMap := s.map_fragments ctx
  cases hFragments : s.fragments ctx <;> cases hLower : (s.lower ctx).run {} <;>
    rw [hFragments, hLower] at hMap <;> simp_all [Except.map]

/-- Selects that differ in look-alikes give the same result exactly when their runs have
the same fragments. -/
theorem generate_eq_iff_fragments {s t : Select}
    (h : s.mapValues Value.settled = t.mapValues Value.settled) (registry : Registry)
    (values : ParameterValues) (options : GeneratorOptions) :
    s.generate registry values options = t.generate registry values options ↔
      s.fragments ⟨registry, values⟩ = t.fragments ⟨registry, values⟩ := by
  rw [generate_eq, generate_eq]
  -- faults are compared as such; two layouts are followed to the first fragment that differs
  cases hs : (s.lower ⟨registry, values⟩).run {} with
  | error e =>
    rw [fragments_error_iff.mpr hs, eq_comm (b := t.fragments _), fragments_error_iff]
    cases (t.lower ⟨registry, values⟩).run {} <;> simp [Except.map, eq_comm]
  | ok r =>
    cases ht : (t.lower ⟨registry, values⟩).run {} with
    | error e =>
      rw [fragments_error_iff.mpr ht, fragments_error_iff, hs]
      simp [Except.map]
    | ok r' =>
      obtain ⟨fs, fs', hFirst, hSecond, hBindings, hTracks⟩ := lower_inStep s t h {} r r' hs ht
      rw [fragments, fragments, hFirst, hSecond]
      constructor
      · intro hQuery
        -- layouts with different fragments fork, so their texts would differ
        have hText := congrArg Query.text (Except.ok.inj hQuery)
        rw [hTracks.fragments_eq hText, hBindings]
      · intro hFragments
        have hEq := congrArg Prod.fst (Except.ok.inj hFragments)
        rw [Except.map, Except.map, hTracks.layout_eq hEq, hBindings]

end Select

end DocumentQuery
