import DocumentQuery.Proofs.Document.Ordered
import DocumentQuery.Proofs.Document.ReadValues
import DocumentQuery.Proofs.Document.Writer

/-!
# Trees that are read again

The document of a tree is read as the tree again, each of its values being read as what
it reads back as. If the values are plain, nothing is lost: reading undoes writing.

Main results:

* `Expression.read_of_readsAs` — an expression is read as what its fields are read as.
* `Expression.read_toJson`, `Select.readsAs` — the one induction over trees.
* `Select.ofJson_toJson_readBack` — what the document of any select is read as.
* `Select.ofJson_toJson` — reading undoes writing.
-/

namespace DocumentQuery

variable (a : Arrangement)

/-! ## Fields of trees -/

namespace ReadsAs

variable {a} {r : Reading} {fields fields' : List Field} {ms ms' : List (String × Json)}
  {slots slots' : Slots}

theorem append (h : ReadsAs a r fields ms slots) (h' : ReadsAs a r fields' ms' slots') :
    ReadsAs a r (fields ++ fields') (ms ++ ms') (slots ++ slots') := by
  induction h with
  | nil => exact h'
  | left _ ih => exact .left ih
  | cons hRead _ ih => exact .cons hRead ih

/-- One field with what stands in it. -/
theorem single {field : Field} {j : Json} {slot : Slot} (hSound : j.sound = true)
    (hNull : j.isNull = false) (h : (j.arranged a).read r field.kind = .ok slot) :
    ReadsAs a r [field] [(field.key, j)] [(field.key, slot)] :=
  .cons (Field.read_of_read a r hSound hNull h) .nil

theorem text (key s : String) (nullable defaulted : Bool) :
    ReadsAs a r [⟨key, .text, nullable, defaulted⟩] [(key, .str s)] [(key, .text s)] :=
  single rfl rfl rfl

theorem flag (key : String) (b nullable defaulted : Bool) :
    ReadsAs a r [⟨key, .flag, nullable, defaulted⟩] [(key, .bool b)] [(key, .flag b)] :=
  single rfl rfl rfl

end ReadsAs

/-- A value may be null where nothing else may. -/
theorem ReadsAs.value {r : Reading} (key : String) {v : Value} (h : v.Ordered) :
    ReadsAs a r [⟨key, .value, false, false⟩] [(key, v.toJson)] [(key, .value v.readBack)] :=
  .cons (v.read_toJson a h r) .nil

/-- What is read for a member that need not be there. -/
def optionalSlot (key : String) : Option Slot → Slots
  | none => []
  | some slot => [(key, slot)]

/-- What is read for a list that is there only if it has members. -/
def listSlot (key : String) : List Slot → Slots
  | [] => []
  | slots => [(key, .list slots)]

/-- What is read for the type and the mapping of an expression. -/
def typingSlots (type : DataType) (mapping : Option TypeMapping) : Slots :=
  ("data_type", .dataType type) :: optionalSlot "type_mapping" (mapping.map .mapping)

theorem lookup_optionalSlot (key key' : String) (slot : Option Slot) :
    (optionalSlot key slot).lookup key' = if key' == key then slot else none := by
  cases slot with
  | none => simp [optionalSlot]
  | some slot => cases hKey : key' == key <;> simp [optionalSlot, List.lookup_cons, hKey]

theorem lookup_listSlot (key key' : String) (slots : List Slot) :
    (listSlot key slots).lookup key' =
      if key' == key ∧ slots ≠ [] then some (.list slots) else none := by
  cases slots with
  | nil => simp [listSlot]
  | cons slot slots => cases hKey : key' == key <;> simp [listSlot, List.lookup_cons, hKey]

theorem readsAs_optionalText {r : Reading} (key : String) (s : Option String) :
    ReadsAs a r [⟨key, .text, true, false⟩] (optionalMember key (s.map .str))
      (optionalSlot key (s.map .text)) := by
  cases s with
  | none => exact .left .nil
  | some s => exact .text key s true false

theorem readsAs_type {r : Reading} (type : DataType) :
    ReadsAs a r [ExpressionForm.typeField] [("data_type", type.toJson)]
      [("data_type", .dataType type)] :=
  .single type.toJson_sound (by cases type <;> rfl) (type.read_toJson a r)

theorem readsAs_typing {r : Reading} (type : DataType) (mapping : Option TypeMapping) :
    ReadsAs a r [ExpressionForm.typeField, ExpressionForm.mappingField]
      (typingMembers type mapping) (typingSlots type mapping) := by
  have hMapping : ReadsAs a r [ExpressionForm.mappingField]
      (optionalMember "type_mapping" (mapping.map TypeMapping.toJson))
      (optionalSlot "type_mapping" (mapping.map .mapping)) := by
    cases mapping with
    | none => exact .left .nil
    | some mapping => exact .single mapping.toJson_sound rfl (mapping.read_toJson a r)
  exact (readsAs_type a type).append hMapping

/-! ## Lists -/

theorem Slot.list?_map {α : Type} (pick : Slot → Option α) (make : α → Slot)
    (h : ∀ x, pick (make x) = some x) (xs : List α) :
    Slot.list? pick (.list (xs.map make)) = some xs := by
  show (xs.map make).mapM pick = some xs
  induction xs with
  | nil => rfl
  | cons x xs ih => rw [List.map_cons, List.mapM_cons, h, ih]; rfl

theorem Slot.list?_expression (es : List Expression) :
    Slot.list? Slot.expression? (.list (es.map .expression)) = some es :=
  Slot.list?_map Slot.expression? Slot.expression (fun _ => rfl) es

/-- A list is read one by one. -/
theorem Json.read_list {js : List Json} {r : Reading} {kind : Kind} {slots : List Slot}
    (h : (childrenOf (arrangedItems a js)).mapM (fun child => child.read r kind) = .ok slots) :
    ((Json.arr js).arranged a).read r (.list kind) = .ok (.list slots) :=
  map_eq_ok.mpr ⟨slots, h, rfl⟩

theorem mapM_cons_ok {α β ε : Type} {f : α → Except ε β} {x : α} {xs : List α} {y : β} {ys : List β}
    (h : f x = .ok y) (hs : xs.mapM f = .ok ys) : (x :: xs).mapM f = .ok (y :: ys) := by
  rw [List.mapM_cons, h, ok_bind, hs]
  rfl

theorem readsAs_listMember {r : Reading} (key : String) {kind : Kind} {js : List Json}
    {slots : List Slot} (hSound : Json.soundItems js = true)
    (h : (Json.childrenOf (Json.arrangedItems a js)).mapM (fun child => child.read r kind) =
      .ok slots) :
    ReadsAs a r [⟨key, .list kind, false, true⟩] (listMember key js) (listSlot key slots) := by
  cases js with
  | nil =>
    obtain rfl : [] = slots := Except.ok.inj h
    exact .left .nil
  | cons j js =>
    -- the first item gives a slot, so the list is not left out
    have hSlots : listSlot key slots = [(key, .list slots)] := by
      obtain ⟨slot, -, hRest⟩ := bind_eq_ok.mp (List.mapM_cons.symm.trans h)
      obtain ⟨rest, -, hCons⟩ := bind_eq_ok.mp hRest
      obtain rfl := Except.ok.inj hCons
      rfl
    rw [hSlots]
    exact .single hSound rfl (Json.read_list a h)

/-! ## Expressions and raw arguments by their fields -/

theorem Select.ofSlots_congr {slots slots' : Slots} (h : slots.Agree slots') :
    Select.ofSlots slots = Select.ofSlots slots' := by
  simp only [ofSlots, Slots.listD, h.find?]

theorem ExpressionForm.build_congr (form : ExpressionForm) {slots slots' : Slots}
    (h : slots.Agree slots') : form.build slots = form.build slots' := by
  cases form <;>
    simp only [build, Slots.require, Slots.listD, mappingOf, Select.ofSlots_congr h, h.find?]

theorem ArgumentsForm.build_congr (form : ArgumentsForm) {slots slots' : Slots}
    (h : slots.Agree slots') : form.build slots = form.build slots' := by
  cases form <;> simp only [build, Slots.require, h.find?]

theorem ExpressionForm.keys_nodup (form : ExpressionForm) :
    ("type" :: form.record.fields.map Field.key).Nodup := by
  cases form <;> decide

/-- An expression is read as what its fields are read as. -/
theorem Expression.read_of_readsAs (e : Expression) {e' : Expression} {slots : Slots}
    (h : ReadsAs a .collected e.form.record.fields e.fields slots)
    (hBuild : e.form.build slots = .ok e') (r : Reading) :
    (e.toJson.arranged a).read r .expression = .ok (.expression e') := by
  -- what stands beside the tag is collected before the form is known
  have hTagged := e.toJson_sound
  rw [toJson_eq_tagged] at hTagged ⊢
  have hSound : Json.soundMembers e.fields = true := by
    rw [tagged, Json.sound, Json.soundMembers, Bool.and_eq_true] at hTagged
    exact hTagged.2
  obtain ⟨found, hTag, hRead, hAgree⟩ :=
    readTagged_of_readsAs a r "type" e.form e.form.keys_nodup hSound h
  refine map_eq_ok.mpr ⟨e', bind_eq_ok.mpr ⟨e.form, hTag, bind_eq_ok.mpr ⟨found, hRead, ?_⟩⟩, rfl⟩
  rw [e.form.build_congr hAgree, hBuild]

/-- So are the arguments of a raw fragment. -/
theorem RawArguments.read_of_readsAs {form : ArgumentsForm} {ms : List (String × Json)}
    {slots : Slots} {arguments : RawArguments} (hSound : Json.soundMembers ms = true)
    (h : ReadsAs a .collected form.record.fields ms slots)
    (hBuild : form.build slots = .ok arguments) (r : Reading) :
    ((Json.obj (("kind", .str form.name) :: ms)).arranged a).read r .rawArguments =
      .ok (.rawArguments arguments) := by
  have hKeys : ("kind" :: form.record.fields.map Field.key).Nodup := by cases form <;> decide
  obtain ⟨found, hTag, hRead, hAgree⟩ := readTagged_of_readsAs a r "kind" form hKeys hSound h
  refine map_eq_ok.mpr
    ⟨arguments, bind_eq_ok.mpr ⟨form, hTag, bind_eq_ok.mpr ⟨found, hRead, ?_⟩⟩, rfl⟩
  rw [form.build_congr hAgree, hBuild]

theorem RawArguments.read_toJson (arguments : RawArguments) (h : AllOrdered arguments.values)
    (r : Reading) : (arguments.toJson.arranged a).read r .rawArguments =
      .ok (.rawArguments (arguments.mapValues Value.readBack)) := by
  cases arguments with
  | parameter name =>
    have hReads : ReadsAs a .collected ArgumentsForm.parameter.record.fields
        [("name", .str name)] [("name", .text name)] := .text "name" name false false
    exact read_of_readsAs a rfl hReads rfl r
  | constant v =>
    have hOrdered : v.Ordered := h v (List.mem_singleton_self v)
    have hSound : Json.soundMembers [("value", v.toJson)] = true :=
      Json.soundMembers_iff.mpr (List.forall_mem_singleton.mpr v.toJson_sound)
    have hReads : ReadsAs a .collected ArgumentsForm.constant.record.fields
        [("value", v.toJson)] [("value", .value v.readBack)] := .value a "value" hOrdered
    exact read_of_readsAs a hSound hReads rfl r

/-! ## Parts of selects by their fields -/

/-- What is read of a select. -/
def Select.slots (s : Select) : Slots :=
  ("is_distinct", .flag s.isDistinct) :: (listSlot "projection" (s.projection.map .projection) ++
    ("uses_single_value_projection", .flag s.singleValue) ::
      (listSlot "sources" (s.sources.map .source) ++
        (optionalSlot "predicate" (s.predicate.map .expression) ++
          (listSlot "orderings" (s.orderings.map .sortKey) ++
            (optionalSlot "offset" (s.offset.map .expression) ++
              optionalSlot "limit" (s.limit.map .expression))))))

theorem Slots.listD_of_lookup {α : Type} (pick : Slot → Option α) (make : α → Slot)
    (hPick : ∀ x, pick (make x) = some x) {slots : Slots} {key : String} {xs : List α}
    (h : slots.lookup key = (listSlot key (xs.map make)).lookup key) :
    slots.listD key pick = xs := by
  rw [listD, find?, h, lookup_listSlot]
  cases xs with
  | nil => simp
  | cons x xs =>
    -- a list that is there is not empty
    rw [if_pos ⟨by simp, by simp⟩]
    show (Slot.list? pick (.list ((x :: xs).map make))).getD [] = _
    rw [Slot.list?_map pick make hPick]
    rfl

theorem Slots.find?_of_lookup {α : Type} (pick : Slot → Option α) (make : α → Slot)
    (hPick : ∀ x, pick (make x) = some x) {slots : Slots} {key : String} {x : Option α}
    (h : slots.lookup key = x.map make) : slots.find? key pick = x := by
  rw [find?, h]
  cases x with
  | none => rfl
  | some x => exact hPick x

/-- What was read for each field of a select. -/
theorem Select.lookup_slots (s : Select) :
    s.slots.lookup "is_distinct" = some (.flag s.isDistinct) ∧
    s.slots.lookup "projection" =
      (listSlot "projection" (s.projection.map .projection)).lookup "projection" ∧
    s.slots.lookup "uses_single_value_projection" = some (.flag s.singleValue) ∧
    s.slots.lookup "sources" = (listSlot "sources" (s.sources.map .source)).lookup "sources" ∧
    s.slots.lookup "predicate" = s.predicate.map .expression ∧
    s.slots.lookup "orderings" =
      (listSlot "orderings" (s.orderings.map .sortKey)).lookup "orderings" ∧
    s.slots.lookup "offset" = s.offset.map .expression ∧
    s.slots.lookup "limit" = s.limit.map .expression := by
  refine ⟨?_, ?_, ?_, ?_, ?_, ?_, ?_, ?_⟩ <;>
    simp [slots, List.lookup_cons, List.lookup_append, lookup_listSlot, lookup_optionalSlot]

theorem Select.ofSlots_slots (s : Select) : Select.ofSlots s.slots = s := by
  obtain ⟨hDistinct, hProjection, hSingle, hSources, hPredicate, hOrderings, hOffset, hLimit⟩ :=
    s.lookup_slots
  have hFlag : ∀ {key b}, s.slots.lookup key = some (.flag b) →
      s.slots.find? key Slot.flag? = some b := fun h => by rw [Slots.find?, h]; rfl
  have hExpression : ∀ {key e}, s.slots.lookup key = e.map .expression →
      s.slots.find? key Slot.expression? = e :=
    Slots.find?_of_lookup Slot.expression? Slot.expression (fun _ => rfl)
  rw [ofSlots, hFlag hDistinct, hFlag hSingle, hExpression hPredicate, hExpression hOffset,
    hExpression hLimit,
    Slots.listD_of_lookup Slot.projection? Slot.projection (fun _ => rfl) hProjection,
    Slots.listD_of_lookup Slot.source? Slot.source (fun _ => rfl) hSources,
    Slots.listD_of_lookup Slot.sortKey? Slot.sortKey (fun _ => rfl) hOrderings]
  cases s
  rfl

theorem Projection.ofSlots_congr {slots slots' : Slots} (h : slots.Agree slots') :
    Projection.ofSlots slots = Projection.ofSlots slots' := by
  simp only [ofSlots, Slots.require, h.find?]

theorem Source.ofSlots_congr {slots slots' : Slots} (h : slots.Agree slots') :
    Source.ofSlots slots = Source.ofSlots slots' := by
  simp only [ofSlots, Slots.require, h.find?]

theorem SortKey.ofSlots_congr {slots slots' : Slots} (h : slots.Agree slots') :
    SortKey.ofSlots slots = SortKey.ofSlots slots' := by
  simp only [ofSlots, Slots.require, h.find?]

section Parts

variable {a} {r : Reading} {ms : List (String × Json)} {slots : Slots}

theorem Select.read_of_readsAs (h : ReadsAs a r Record.ofSelect.fields ms slots) :
    ((Json.obj ms).arranged a).read r .select = .ok (.select (Select.ofSlots slots)) := by
  obtain ⟨found, hRead, hAgree⟩ := Record.read_of_readsAs (by decide) h
  exact map_eq_ok.mpr ⟨found, hRead, by rw [Select.ofSlots_congr hAgree]⟩

theorem Projection.read_of_readsAs {p : Projection}
    (h : ReadsAs a r Record.ofProjection.fields ms slots) (hSlots : ofSlots slots = .ok p) :
    ((Json.obj ms).arranged a).read r .projection = .ok (.projection p) := by
  obtain ⟨found, hRead, hAgree⟩ := Record.read_of_readsAs (by decide) h
  exact bind_eq_ok.mpr ⟨found, hRead,
    bind_eq_ok.mpr ⟨p, by rw [ofSlots_congr hAgree, hSlots], rfl⟩⟩

theorem Source.read_of_readsAs {s : Source} (h : ReadsAs a r Record.ofSource.fields ms slots)
    (hSlots : ofSlots slots = .ok s) :
    ((Json.obj ms).arranged a).read r .source = .ok (.source s) := by
  obtain ⟨found, hRead, hAgree⟩ := Record.read_of_readsAs (by decide) h
  exact bind_eq_ok.mpr ⟨found, hRead,
    bind_eq_ok.mpr ⟨s, by rw [ofSlots_congr hAgree, hSlots], rfl⟩⟩

theorem SortKey.read_of_readsAs {k : SortKey} (h : ReadsAs a r Record.ofSortKey.fields ms slots)
    (hSlots : ofSlots slots = .ok k) :
    ((Json.obj ms).arranged a).read r .sortKey = .ok (.sortKey k) := by
  obtain ⟨found, hRead, hAgree⟩ := Record.read_of_readsAs (by decide) h
  exact bind_eq_ok.mpr ⟨found, hRead,
    bind_eq_ok.mpr ⟨k, by rw [ofSlots_congr hAgree, hSlots], rfl⟩⟩

end Parts

/-! ## The trees -/

theorem Expression.isNull_toJson (e : Expression) : e.toJson.isNull = false := by
  rw [toJson_eq_tagged]
  rfl

theorem readsAs_expression {r : Reading} (key : String) (nullable : Bool) {e e' : Expression}
    (h : (e.toJson.arranged a).read r .expression = .ok (.expression e')) :
    ReadsAs a r [⟨key, .expression, nullable, false⟩] [(key, e.toJson)] [(key, .expression e')] :=
  .single e.toJson_sound e.isNull_toJson h

theorem readsAs_expressions {r : Reading} (key : String) (nullable defaulted : Bool)
    {es : List Expression} {slots : List Slot}
    (h : (Json.childrenOf (Json.arrangedItems a (expressionsToJson es))).mapM
      (fun child => child.read r .expression) = .ok slots) :
    ReadsAs a r [⟨key, .list .expression, nullable, defaulted⟩]
      [(key, .arr (expressionsToJson es))] [(key, .list slots)] :=
  .single (expressionsToJson_sound es) rfl (Json.read_list a h)

theorem readsAs_subquery {s : Select} {slots : Slots}
    (h : ReadsAs a .collected Record.ofSelect.fields s.members slots) :
    ReadsAs a .collected [⟨"subquery", .select, false, false⟩] [("subquery", .obj s.members)]
      [("subquery", .select (Select.ofSlots slots))] :=
  .single s.toJson_sound rfl (Select.read_of_readsAs h)

mutual

/-- The document of an expression is read as the expression again, its values being read
as what they read back as. -/
theorem Expression.read_toJson : ∀ e : Expression, AllOrdered e.values → ∀ r : Reading,
    (e.toJson.arranged a).read r .expression = .ok (.expression (e.mapValues Value.readBack))
  | .select selected, h, r => by
    refine Expression.read_of_readsAs a (.select selected)
      (Select.readsAs selected h .collected) ?_ r
    rw [Expression.form, ExpressionForm.build, Select.ofSlots_slots, Expression.mapValues]
  | .objectReference name, _, r =>
    Expression.read_of_readsAs a (.objectReference name)
      (ReadsAs.text "name" name false false) rfl r
  | .scalarReference name type, _, r =>
    Expression.read_of_readsAs a (.scalarReference name type)
      ((ReadsAs.text "name" name false false).append (readsAs_type a type)) rfl r
  | .keyAccess object property type mapping, h, r =>
    Expression.read_of_readsAs a (.keyAccess object property type mapping)
      ((readsAs_expression a "object" false (Expression.read_toJson object h .collected)).append
        ((ReadsAs.text "property_name" property false false).append
          (readsAs_typing a type mapping)))
      (by cases mapping <;> rfl) r
  | .objectAccess object property, h, r =>
    Expression.read_of_readsAs a (.objectAccess object property)
      ((readsAs_expression a "object" false (Expression.read_toJson object h .collected)).append
        (.text "property_name" property false false)) rfl r
  | .entityProjection access, h, r =>
    Expression.read_of_readsAs a (.entityProjection access)
      (readsAs_expression a "access" false (Expression.read_toJson access h .collected)) rfl r
  | .objectArrayProjection access, h, r =>
    Expression.read_of_readsAs a (.objectArrayProjection access)
      (readsAs_expression a "access" false (Expression.read_toJson access h .collected)) rfl r
  | .binary operator left right type mapping, h, r => by
    obtain ⟨hLeft, hRight⟩ := List.forall_mem_append.mp h
    have hOperator : ReadsAs a .collected [⟨"operator", .binaryOperator, false, false⟩]
        [("operator", .str operator.name)] [("operator", .binaryOperator operator)] :=
      .single rfl rfl (map_eq_ok.mpr ⟨_, Json.unitVariant_name _ operator, rfl⟩)
    have hLeft := readsAs_expression a "left" false (Expression.read_toJson left hLeft .collected)
    have hRight :=
      readsAs_expression a "right" false (Expression.read_toJson right hRight .collected)
    exact Expression.read_of_readsAs a (.binary operator left right type mapping)
      (hOperator.append (hLeft.append (hRight.append (readsAs_typing a type mapping))))
      (by cases mapping <;> rfl) r
  | .unary operator operand type mapping, h, r => by
    have hOperator : ReadsAs a .collected [⟨"operator", .unaryOperator, false, false⟩]
        [("operator", .str operator.name)] [("operator", .unaryOperator operator)] :=
      .single rfl rfl (map_eq_ok.mpr ⟨_, Json.unitVariant_name _ operator, rfl⟩)
    have hOperand :=
      readsAs_expression a "operand" false (Expression.read_toJson operand h .collected)
    exact Expression.read_of_readsAs a (.unary operator operand type mapping)
      (hOperator.append (hOperand.append (readsAs_typing a type mapping)))
      (by cases mapping <;> rfl) r
  | .conditional test ifTrue ifFalse type mapping, h, r => by
    obtain ⟨hTest, hBranches⟩ := List.forall_mem_append.mp h
    obtain ⟨hTrue, hFalse⟩ := List.forall_mem_append.mp hBranches
    have hTest := readsAs_expression a "test" false (Expression.read_toJson test hTest .collected)
    have hTrue :=
      readsAs_expression a "if_true" false (Expression.read_toJson ifTrue hTrue .collected)
    have hFalse :=
      readsAs_expression a "if_false" false (Expression.read_toJson ifFalse hFalse .collected)
    exact Expression.read_of_readsAs a (.conditional test ifTrue ifFalse type mapping)
      (hTest.append (hTrue.append (hFalse.append (readsAs_typing a type mapping))))
      (by cases mapping <;> rfl) r
  | .function name arguments type mapping, h, r => by
    have hArguments :=
      readsAs_expressions a "arguments" false true (readAll_toJson arguments h .collected)
    refine Expression.read_of_readsAs a (.function name arguments type mapping)
      ((ReadsAs.text "name" name false false).append
        (hArguments.append (readsAs_typing a type mapping))) ?_ r
    have hList := Slot.list?_expression (mapValuesOfAll Value.readBack arguments)
    cases mapping <;>
      simp [Expression.form, ExpressionForm.build, Slots.require, Slots.listD, Slots.find?,
        List.lookup_cons, typingSlots, optionalSlot, Slot.text?, Slot.dataType?, hList,
        ExpressionForm.mappingOf, Slot.mapping?, Expression.mapValues]
  | .constant value type mapping, h, r => by
    have hValue : ReadsAs a .collected _ _ _ :=
      .value a "value" (h value (List.mem_singleton_self value))
    exact Expression.read_of_readsAs a (.constant value type mapping)
      (hValue.append (readsAs_typing a type mapping)) (by cases mapping <;> rfl) r
  | .parameter name type mapping, _, r =>
    Expression.read_of_readsAs a (.parameter name type mapping)
      ((ReadsAs.text "name" name false false).append (readsAs_typing a type mapping))
      (by cases mapping <;> rfl) r
  | .isIn item none valuesParameter, h, r => by
    -- the field of the values is left out, and read as missing
    have hItem := readsAs_expression a "item" false (Expression.read_toJson item h .collected)
    have hRest : ReadsAs a .collected
        [⟨"values", .list .expression, true, false⟩, ⟨"values_parameter", .text, true, false⟩]
        (optionalMember "values_parameter" (valuesParameter.map .str))
        (optionalSlot "values_parameter" (valuesParameter.map .text)) :=
      .left (readsAs_optionalText a "values_parameter" valuesParameter)
    exact Expression.read_of_readsAs a (.isIn item none valuesParameter)
      (hItem.append hRest) (by cases valuesParameter <;> rfl) r
  | .isIn item (some values) valuesParameter, h, r => by
    obtain ⟨hItem, hValues⟩ := List.forall_mem_append.mp h
    have hItem := readsAs_expression a "item" false (Expression.read_toJson item hItem .collected)
    have hValues :=
      readsAs_expressions a "values" true false (readAll_toJson values hValues .collected)
    refine Expression.read_of_readsAs a (.isIn item (some values) valuesParameter)
      (hItem.append (hValues.append
        (readsAs_optionalText a "values_parameter" valuesParameter))) ?_ r
    have hList := Slot.list?_expression (mapValuesOfAll Value.readBack values)
    cases valuesParameter <;>
      simp [Expression.form, ExpressionForm.build, Slots.require, Slots.find?, List.lookup_cons,
        optionalSlot, Slot.text?, Slot.expression?, hList, Expression.mapValues]
  | .arrayConstant items, h, r => by
    have hItems :=
      readsAs_expressions a "items" false false (readAll_toJson items h .collected)
    refine Expression.read_of_readsAs a (.arrayConstant items) hItems ?_ r
    have hList := Slot.list?_expression (mapValuesOfAll Value.readBack items)
    simp [Expression.form, ExpressionForm.build, Slots.require, Slots.find?, hList,
      Expression.mapValues, Except.map]
  -- a subquery is a field of its own, though its members are those of a select
  | .exists subquery, h, r => by
    refine Expression.read_of_readsAs a (.exists subquery)
      (readsAs_subquery a (Select.readsAs subquery h .collected)) ?_ r
    rw [Select.ofSlots_slots]
    rfl
  | .array subquery, h, r => by
    refine Expression.read_of_readsAs a (.array subquery)
      (readsAs_subquery a (Select.readsAs subquery h .collected)) ?_ r
    rw [Select.ofSlots_slots]
    rfl
  | .scalarSubquery subquery, h, r => by
    refine Expression.read_of_readsAs a (.scalarSubquery subquery)
      (readsAs_subquery a (Select.readsAs subquery h .collected)) ?_ r
    rw [Select.ofSlots_slots]
    rfl
  | .fromSql sql arguments, h, r => by
    have hArguments : ReadsAs a .collected [⟨"arguments", .rawArguments, false, false⟩]
        [("arguments", arguments.toJson)]
        [("arguments", .rawArguments (arguments.mapValues Value.readBack))] :=
      .single arguments.toJson_sound (by cases arguments <;> rfl)
        (arguments.read_toJson a h .collected)
    exact Expression.read_of_readsAs a (.fromSql sql arguments)
      ((ReadsAs.text "sql" sql false false).append hArguments) rfl r
termination_by structural e => e

theorem readAll_toJson : ∀ es : List Expression, AllOrdered (valuesOfAll es) → ∀ r : Reading,
    (Json.childrenOf (Json.arrangedItems a (expressionsToJson es))).mapM
      (fun child => child.read r .expression) =
        .ok ((mapValuesOfAll Value.readBack es).map .expression)
  | [], _, _ => rfl
  | e :: es, h, r => by
    obtain ⟨hFirst, hRest⟩ := List.forall_mem_append.mp h
    exact mapM_cons_ok (Expression.read_toJson e hFirst r) (readAll_toJson es hRest r)
termination_by structural es => es

theorem readsAs_optional (key : String) : ∀ e : Option Expression,
    AllOrdered (valuesOfOptional e) → ∀ r : Reading,
    ReadsAs a r [⟨key, .expression, true, false⟩] (optionalExpression key e)
      (optionalSlot key ((mapValuesOfOptional Value.readBack e).map .expression))
  | none, _, _ => .left .nil
  | some e, h, r => readsAs_expression a key true (Expression.read_toJson e h r)
termination_by structural e => e

/-- The members of a select stand for its fields. -/
theorem Select.readsAs : ∀ s : Select, AllOrdered s.values → ∀ r : Reading,
    ReadsAs a r Record.ofSelect.fields s.members (s.mapValues Value.readBack).slots
  | ⟨isDistinct, projection, singleValue, sources, predicate, orderings, offset, limit⟩, h, r => by
    rw [Select.values] at h
    obtain ⟨hProjection, h⟩ := List.forall_mem_append.mp h
    obtain ⟨hSources, h⟩ := List.forall_mem_append.mp h
    obtain ⟨hPredicate, h⟩ := List.forall_mem_append.mp h
    obtain ⟨hOrderings, h⟩ := List.forall_mem_append.mp h
    obtain ⟨hOffset, hLimit⟩ := List.forall_mem_append.mp h
    -- the fields in the order in which they are declared and written
    have hAll := (ReadsAs.flag "is_distinct" isDistinct false true).append
      ((readsAs_listMember a "projection" (projectionsToJson_sound projection)
        (readProjections_toJson projection hProjection r)).append
      ((ReadsAs.flag "uses_single_value_projection" singleValue false true).append
      ((readsAs_listMember a "sources" (sourcesToJson_sound sources)
        (readSources_toJson sources hSources r)).append
      ((readsAs_optional "predicate" predicate hPredicate r).append
      ((readsAs_listMember a "orderings" (sortKeysToJson_sound orderings)
        (readSortKeys_toJson orderings hOrderings r)).append
      ((readsAs_optional "offset" offset hOffset r).append
        (readsAs_optional "limit" limit hLimit r)))))))
    rw [Select.members, Select.mapValues, Select.slots]
    simpa only [Record.ofSelect, List.append_assoc, List.cons_append, List.nil_append] using hAll
termination_by structural s => s

theorem readProjections_toJson : ∀ ps : List Projection, AllOrdered (valuesOfProjections ps) →
    ∀ r : Reading, (Json.childrenOf (Json.arrangedItems a (projectionsToJson ps))).mapM
      (fun child => child.read r .projection) =
        .ok ((mapValuesOfProjections Value.readBack ps).map .projection)
  | [], _, _ => rfl
  | ⟨expression, aliasName, name⟩ :: ps, h, r => by
    obtain ⟨hFirst, hRest⟩ := List.forall_mem_append.mp h
    have hExpression :=
      readsAs_expression a "expression" false (Expression.read_toJson expression hFirst r)
    have hProjection := Projection.read_of_readsAs (hExpression.append
      ((ReadsAs.text "alias" aliasName false true).append (.text "name" name false false))) rfl
    exact mapM_cons_ok hProjection (readProjections_toJson ps hRest r)
termination_by structural ps => ps

theorem readSources_toJson : ∀ ss : List Source, AllOrdered (valuesOfSources ss) →
    ∀ r : Reading, (Json.childrenOf (Json.arrangedItems a (sourcesToJson ss))).mapM
      (fun child => child.read r .source) =
        .ok ((mapValuesOfSources Value.readBack ss).map .source)
  | [], _, _ => rfl
  | ⟨container, aliasName, eachItem⟩ :: ss, h, r => by
    obtain ⟨hFirst, hRest⟩ := List.forall_mem_append.mp h
    have hContainer :=
      readsAs_expression a "container" false (Expression.read_toJson container hFirst r)
    have hFields := hContainer.append ((readsAs_optionalText a "alias" aliasName).append
      (.flag "with_in" eachItem false true))
    have hSource := Source.read_of_readsAs
      (s := ⟨container.mapValues Value.readBack, aliasName, eachItem⟩) hFields
      (by cases aliasName <;> rfl)
    exact mapM_cons_ok hSource (readSources_toJson ss hRest r)
termination_by structural ss => ss

theorem readSortKeys_toJson : ∀ ks : List SortKey, AllOrdered (valuesOfSortKeys ks) →
    ∀ r : Reading, (Json.childrenOf (Json.arrangedItems a (sortKeysToJson ks))).mapM
      (fun child => child.read r .sortKey) =
        .ok ((mapValuesOfSortKeys Value.readBack ks).map .sortKey)
  | [], _, _ => rfl
  | ⟨expression, isAscending⟩ :: ks, h, r => by
    obtain ⟨hFirst, hRest⟩ := List.forall_mem_append.mp h
    have hExpression :=
      readsAs_expression a "expression" false (Expression.read_toJson expression hFirst r)
    have hKey := SortKey.read_of_readsAs
      (hExpression.append (.flag "is_ascending" isAscending false true)) rfl
    exact mapM_cons_ok hKey (readSortKeys_toJson ks hRest r)
termination_by structural ks => ks

end

/-! ## Selects -/

/-- What the document of a select is read as, in whatever way it is read. -/
theorem Select.read_toJson (s : Select) (h : AllOrdered s.values) (r : Reading) :
    (s.toJson.arranged a).readAs r .select Slot.select? = .ok (s.mapValues Value.readBack) := by
  have hRead := Select.read_of_readsAs (Select.readsAs a s h r)
  rw [Select.ofSlots_slots] at hRead
  exact bind_eq_ok.mpr ⟨_, hRead, rfl⟩

/-- A document in memory keeps its members as they were written, or sorted by their keys. -/
theorem Select.ofJson_toJson_readBack (s : Select) (h : AllOrdered s.values) :
    Select.ofJson s.toJson = .ok (s.mapValues Value.readBack) ∧
      Select.ofJson s.toJson.sortKeys = .ok (s.mapValues Value.readBack) := by
  -- both are arrangements of one document
  have hWritten := s.read_toJson .written h .memory
  have hSorted := s.read_toJson .sorted h .memory
  rw [Json.arranged_written] at hWritten
  rw [Json.arranged_sorted] at hSorted
  exact ⟨hWritten, hSorted⟩

/-- Reading the document of a select whose values are plain gives the select back, whether
its members stand as they were written or sorted by their keys. -/
theorem Select.ofJson_toJson (s : Select) (hOrdered : AllOrdered s.values)
    (hPlain : ∀ v ∈ s.values, v.Plain) :
    Select.ofJson s.toJson = .ok s ∧ Select.ofJson s.toJson.sortKeys = .ok s := by
  -- plain values are read as themselves, so exchanging them changes nothing
  have hSelf : s.mapValues Value.readBack = s :=
    Select.mapValues_eq_self fun v hv => v.readBack_of_plain (hPlain v hv)
  have hRead := s.ofJson_toJson_readBack hOrdered
  rwa [hSelf] at hRead

/-- A subquery among the members of a list, and an object that lacks the distance function
to be taken for the description of a vector. -/
def Select.storedVectors : Select :=
  { Select.empty with
    projection := [⟨.constant (.object [("dataType", .string "Float32"), ("dimensions", .int 3)])
      .object (some (.json .object)), "shape", ""⟩]
    sources := [⟨.objectReference "root", some "c", false⟩]
    predicate := some (.isIn (.keyAccess (.objectReference "c") "kind" .string none)
      (some [.constant (.array [.enum (.distanceFunction .cosine), .null]) .unknown none,
        .scalarSubquery { Select.empty with limit := some (.parameter "n" .int64 none) }])
      none) }

/-- Its fields that are left out in the document come back as they were. -/
theorem storedVectors_ofJson :
    AllOrdered Select.storedVectors.values ∧ (∀ v ∈ Select.storedVectors.values, v.Plain) ∧
      Select.ofJson Select.storedVectors.toJson = .ok Select.storedVectors ∧
      Select.ofJson Select.storedVectors.toJson.sortKeys = .ok Select.storedVectors := by
  have hValues : Select.storedVectors.values =
      [.object [("dataType", .string "Float32"), ("dimensions", .int 3)],
        .array [.enum (.distanceFunction .cosine), .null]] := rfl
  have hOrdered : AllOrdered Select.storedVectors.values := by
    rw [hValues]
    exact List.forall_mem_cons.mpr
      ⟨⟨List.pairwise_pair.mpr (by decide), trivial, trivial, trivial⟩,
        List.forall_mem_singleton.mpr ⟨trivial, trivial, trivial⟩⟩
  have hPlain : ∀ v ∈ Select.storedVectors.values, v.Plain := by
    rw [hValues]
    exact List.forall_mem_cons.mpr ⟨⟨rfl, rfl, trivial, trivial, trivial⟩,
      List.forall_mem_singleton.mpr ⟨trivial, trivial, trivial⟩⟩
  exact ⟨hOrdered, hPlain, Select.ofJson_toJson _ hOrdered hPlain⟩

end DocumentQuery
