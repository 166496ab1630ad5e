import DocumentQuery.Proofs.Document.Ordered
import DocumentQuery.Proofs.Document.RearrangedRecords

/-!
# Parts whose members are rearranged

Every reader of a part makes the same of it in whatever order the members of its objects
stand, except for the values in it, as far as the readers of the parts below do.

Main definitions and results:

* `Json.Varies`, `Json.PartsVary` — the invariant of the reader.
* `Record.read_varies`, `Record.readBeside_varies` — records.
* `Json.readDataType_sortKeys`, `Node.readMapping_sortKeys` — types and mappings.
* `Node.read_varies` — parts of every kind, given how values are read.
-/

namespace DocumentQuery

variable {shows : Prop} {P : Value → Prop}

namespace Json

/-- A document with the readers of its parts. -/
def node : Json → Node
  | .arr items => { json := .arr items, items := childrenOf items }
  | .obj members => objectNode members
  | .torn members tail => { json := .torn members tail, members := keyedChildrenOf members }
  | j => { json := j }

theorem read_eq_node (j : Json) : j.read = j.node.read := by
  cases j <;> rfl

theorem json_node (j : Json) : j.node.json = j := by
  cases j <;> rfl

/-- The document is read as it is with all keys in order. -/
def Varies (shows : Prop) (P : Value → Prop) (j : Json) : Prop :=
  Child.Varies shows P j.sortKeys.child j.child

/-- The parts directly below a document are read as they are with all keys in order. -/
def PartsVary (shows : Prop) (P : Value → Prop) : Json → Prop
  | .arr items => ∀ j ∈ items, j.Varies shows P
  | .obj members => ∀ m ∈ members, m.2.Varies shows P
  | _ => True

theorem forall₂_childrenOf {items : List Json} (h : ∀ j ∈ items, j.Varies shows P) :
    List.Forall₂ (Child.Varies shows P) (childrenOf (sortItems items)) (childrenOf items) := by
  induction items with
  | nil => exact .nil
  | cons j js ih =>
    obtain ⟨hFirst, hRest⟩ := List.forall_mem_cons.mp h
    exact .cons hFirst (ih hRest)

theorem membersVary {members : List (String × Json)} (hKeyed : (obj members).WellKeyed)
    (h : ∀ m ∈ members, m.2.Varies shows P) :
    MembersVary shows P (keyedChildrenOf (Keys.ofList (sortMembers members)))
      (keyedChildrenOf members) := by
  obtain ⟨hKeys, -⟩ := wellKeyed_obj_iff.mp hKeyed
  have hKeys' : ((sortMembers members).map Prod.fst).Nodup := by rwa [keys_sortMembers]
  have hPerm := Keys.perm_ofList hKeys'
  have hNodup : ((Keys.ofList (sortMembers members)).map Prod.fst).Nodup :=
    (hPerm.map Prod.fst).nodup_iff.mpr hKeys'
  refine ⟨by rwa [keys_keyedChildrenOf], by rwa [keys_keyedChildrenOf], fun key => ?_⟩
  -- what stands under a key is the same document, with its keys in order
  have hLookup : (keyedChildrenOf (Keys.ofList (sortMembers members))).lookup key =
      (members.lookup key).map fun j => j.sortKeys.child := by
    rw [keyedChildrenOf_eq, lookup_map child, lookup_eq_of_perm hPerm hNodup, sortMembers_eq,
      lookup_map, Option.map_map]
    rfl
  rw [hLookup, keyedChildrenOf_eq, lookup_map child]
  cases hFound : members.lookup key with
  | none => exact .none
  | some j => exact .some (h _ (mem_of_lookup hFound))

theorem jsonOf_keyedChildrenOf (members : List (String × Json)) :
    jsonOf (keyedChildrenOf members) = members := by
  induction members with
  | nil => rfl
  | cons m members ih => exact congrArg (m :: ·) ih

/-! ## Scalars and names -/

section Parts

variable {j : Json} (hKeyed : j.WellKeyed) (r : Reading)

/-- Behind the first of several members nothing closes the variant. -/
theorem close_of_several {r : Reading} {m m' : String × Json} {ms : List (String × Json)}
    {v : Variant} (h : (obj (m :: m' :: ms)).variant r = .ok v) : ∃ e, v.close = .error e := by
  obtain ⟨name, payload⟩ := m
  cases hText : r.fromText with
  | false => simp [variant, variantOf, hText, Except.map] at h
  | true =>
    simp only [variant, variantOf, hText, if_true, Except.ok.injEq] at h
    subst h
    exact ⟨_, rfl⟩

/-- An object with several members is no member of an enumeration. -/
theorem unitVariant_of_several {α : Type} [Enumerated α] (m m' : String × Json)
    (ms : List (String × Json)) :
    ¬ ∃ x : α, (obj (m :: m' :: ms)).unitVariant r = .ok x := by
  rintro ⟨x, h⟩
  obtain ⟨v, hVariant, hRest⟩ := bind_eq_ok.mp h
  obtain ⟨e, hClose⟩ := close_of_several hVariant
  simp only [hClose, error_bind] at hRest
  split at hRest
  · cases hRest
  · split at hRest
    · obtain ⟨-, -, hRest⟩ := bind_eq_ok.mp hRest
      cases hRest
    · cases hRest

/-- Nor is it a type. -/
theorem readDataType_of_several (m m' : String × Json) (ms : List (String × Json)) :
    ¬ ∃ t, (objectNode (m :: m' :: ms)).readDataType r = .ok t := by
  rintro ⟨t, h⟩
  obtain ⟨v, hVariant, hRest⟩ := bind_eq_ok.mp h
  obtain ⟨e, hClose⟩ := close_of_several hVariant
  simp only [hClose, error_bind] at hRest
  split at hRest
  · cases hRest
  · obtain ⟨slot, -, hRest⟩ := bind_eq_ok.mp hRest
    split at hRest <;> cases hRest
  · split at hRest
    · obtain ⟨-, -, hRest⟩ := bind_eq_ok.mp hRest
      cases hRest
    · cases hRest

omit hKeyed in
theorem exists_sortKeys_cons {m : String × Json} {ms : List (String × Json)}
    (hKeyed : (obj (m :: ms)).WellKeyed) :
    ∃ m' ms', (obj (m :: ms)).sortKeys = obj (m' :: ms') ∧ ms'.length = ms.length := by
  have hKeys :
      (((m.1, m.2.arranged .sorted) :: arrangedMembers .sorted ms).map Prod.fst).Nodup := by
    rw [List.map_cons, keys_arrangedMembers]
    exact (wellKeyed_obj_iff.mp hKeyed).1
  obtain ⟨m', ms', hOrder, hLength⟩ := exists_order_cons .sorted hKeys
  refine ⟨m', ms', ?_, ?_⟩
  · rw [← arranged_sorted]
    exact congrArg obj hOrder
  · rw [hLength, arrangedMembers_eq, List.length_map]

include hKeyed

theorem unitPayload_sortKeys : j.sortKeys.unitPayload r = j.unitPayload r := by
  rw [← arranged_sorted, unitPayload_arranged _ r hKeyed.distinct]

/-- Members of enumerations are read the same. -/
theorem unitVariant_sortKeys {α : Type} [Enumerated α] :
    Concurs Eq (j.sortKeys.unitVariant r : Except DocumentError α) (j.unitVariant r) := by
  cases j with
  | obj members =>
    match members, hKeyed with
    | [], _ => exact .refl fun _ _ => rfl
    | [(key, payload)], hKeyed =>
      have hPayload := (wellKeyed_obj_iff.mp hKeyed).2 _ List.mem_cons_self
      show Concurs Eq ((obj [(key, payload.sortKeys)]).unitVariant r) _
      unfold unitVariant variant variantOf
      cases r.fromText <;>
        simp only [if_true, if_false, Bool.false_eq_true, Except.map, ok_bind,
          unitPayload_sortKeys hPayload] <;>
        exact .refl fun _ _ => rfl
    | m :: m' :: ms, hKeyed =>
      -- several members stay several
      obtain ⟨n, ns, hObject, hLength⟩ := exists_sortKeys_cons hKeyed
      obtain ⟨n', ns, rfl⟩ := List.exists_cons_of_length_eq_add_one hLength
      rw [hObject]
      exact .of_failures (unitVariant_of_several r _ _ _) (unitVariant_of_several r _ _ _)
  | arr items => exact .error _ _
  | _ => exact .refl fun _ _ => rfl

/-- Types are read the same. -/
theorem readDataType_sortKeys (h : j.PartsVary shows P) :
    Concurs Eq (j.sortKeys.node.readDataType r) (j.node.readDataType r) := by
  cases j with
  | obj members =>
    match members, hKeyed, h with
    | [], _, _ => exact .refl fun _ _ => rfl
    | [(key, payload)], hKeyed, h =>
      have hPayload := (wellKeyed_obj_iff.mp hKeyed).2 _ List.mem_cons_self
      have hRead := (h _ List.mem_cons_self).read r .dataType
      -- both variants have the name and the close of the other
      have hVariant (payload : Json) : (obj [(key, payload)]).variant r =
          .ok { name := key, payload := some payload } := by
        unfold variant variantOf
        cases r.fromText <;> rfl
      show Concurs Eq (Node.readDataType r (objectNode [(key, payload.sortKeys)]))
        (Node.readDataType r (objectNode [(key, payload)]))
      simp only [Node.readDataType, objectNode, hVariant, ok_bind,
        unitPayload_sortKeys hPayload r]
      split
      · exact .error _ _
      · refine hRead.bind fun slot₀ slot hSlot => ?_
        cases hSlot with
        | refl => exact .refl fun _ _ => rfl
        | _ => exact .error _ _
      · exact .refl fun _ _ => rfl
    | m :: m' :: ms, hKeyed, _ =>
      obtain ⟨n, ns, hObject, hLength⟩ := exists_sortKeys_cons hKeyed
      obtain ⟨n', ns, rfl⟩ := List.exists_cons_of_length_eq_add_one hLength
      rw [hObject]
      exact .of_failures (readDataType_of_several r _ _ _) (readDataType_of_several r _ _ _)
  | arr items => exact .error _ _
  | _ => exact .refl fun _ _ => rfl

theorem collect_sortKeys : Concurs Eq j.sortKeys.collect j.collect :=
  .of_iff fun _ => hKeyed.collect_sortKeys_iff

/-- Documents that are taken as they are have their keys in order anyway. -/
theorem readAny_sortKeys : Concurs Eq j.sortKeys.readAny j.readAny := by
  refine (collect_sortKeys hKeyed).bind fun _ _ _ => .ok ?_
  exact ((rearranged_sortKeys hKeyed).same hKeyed).2

theorem readTag_sortKeys {α : Type} [Enumerated α] (key : String) (h : j.PartsVary shows P) :
    Concurs Eq (readTag r key j.sortKeys : Except DocumentError α) (readTag r key j) := by
  cases j with
  | obj members =>
    have hMembers := (membersVary hKeyed h).readTag (α := α) r key
    rwa [jsonOf_keyedChildrenOf, jsonOf_keyedChildrenOf] at hMembers
  | arr items =>
    cases items with
    | nil => exact .error _ _
    | cons j js =>
      have hRest : (arr js).WellKeyed :=
        wellKeyed_arr_iff.mpr (List.forall_mem_cons.mp (wellKeyed_arr_iff.mp hKeyed)).2
      show Concurs Eq (tagOf r j.sortKeys >>= _) (tagOf r j >>= _)
      rw [tagOf_sortKeys]
      exact .bind_same fun a => (collect_sortKeys hRest).bind fun _ _ _ => .ok rfl
  | torn members tail => cases hKeyed.complete
  | _ => exact .error _ _

end Parts

end Json

/-! ## Records -/

section Records

variable {j : Json} (hKeyed : j.WellKeyed) (h : j.PartsVary shows P) (r : Reading)

include hKeyed h

theorem Record.read_varies (record : Record) :
    Concurs (Slots.Varies shows P) (record.read r j.sortKeys.node) (record.read r j.node) := by
  cases j with
  | arr items => exact readItems_varies r record.fields (Json.forall₂_childrenOf h) fun _ => .none
  | obj members => exact (Json.membersVary hKeyed h).readMembers record r none
  | torn members tail => cases hKeyed.complete
  | _ => exact .error _ _

theorem Record.readBeside_varies (record : Record) (tag : String) :
    Concurs (Slots.Varies shows P) (record.readBeside tag j.sortKeys.node)
      (record.readBeside tag j.node) := by
  cases j with
  | arr items =>
    exact readItems_varies .collected record.fields
      (List.forall₂_drop 1 (Json.forall₂_childrenOf h)) fun _ => .none
  | obj members => exact (Json.membersVary hKeyed h).readMembers record .collected (some tag)
  | _ => exact .error _ _

namespace Node

theorem readVectorType_sortKeys :
    Concurs Eq (j.sortKeys.node.readVectorType r) (j.node.readVectorType r) := by
  refine (Record.ofVectorType.read_varies hKeyed h r).bind fun slots₀ slots hSlots => ?_
  rw [VectorType.ofSlots_eq hSlots]
  exact .refl fun _ _ => rfl

theorem readExpression_varies :
    Concurs (SameIf shows P Expression.values) (j.sortKeys.node.readExpression r)
      (j.node.readExpression r) := by
  unfold readExpression
  rw [Json.json_node, Json.json_node]
  refine (Json.readTag_sortKeys hKeyed r "type" h).bind fun form _ hForm => hForm ▸ ?_
  exact (form.record.readBeside_varies hKeyed h "type").bind fun _ _ hSlots =>
    ExpressionForm.build_concurs hSlots form

theorem readRawArguments_varies :
    Concurs (SameIf shows P RawArguments.values) (j.sortKeys.node.readRawArguments r)
      (j.node.readRawArguments r) := by
  unfold readRawArguments
  rw [Json.json_node, Json.json_node]
  refine (Json.readTag_sortKeys hKeyed r "kind" h).bind fun form _ hForm => hForm ▸ ?_
  exact (form.record.readBeside_varies hKeyed h "kind").bind fun _ _ hSlots =>
    ArgumentsForm.build_concurs hSlots form

theorem readList_varies (kind : Kind) :
    Concurs (List.Forall₂ (Slot.Varies shows P)) (j.sortKeys.node.readList r kind)
      (j.node.readList r kind) := by
  cases j with
  | arr items => exact .mapM (Json.forall₂_childrenOf h) fun _ _ hChild => hChild.read r kind
  | _ => exact .error _ _

end Node

end Records

/-! ## Mappings -/

/-- What a child says as the type of a mapping. -/
def Child.readType (r : Reading) (child : Child) : Except DocumentError DataType := do
  match ← child.read r .dataType with
  | .dataType t => .ok t
  | _ => .error .invalid

namespace Node

theorem readMappingType_eq (r : Reading) (found : Option DataType)
    (members : List (String × Child)) :
    readMappingType r found members = soleMember "clr_type" (Child.readType r) found members := by
  induction members generalizing found with
  | nil => rfl
  | cons m members ih =>
    obtain ⟨key, child⟩ := m
    unfold readMappingType soleMember
    simp only [ih, Child.readType]
    by_cases hKey : key = "clr_type"
    · rw [if_pos hKey, if_pos hKey, hKey]
      cases found with
      | some t => rfl
      | none =>
        cases child.read r .dataType with
        | error e => rfl
        | ok slot => cases slot <;> rfl
    · rw [if_neg hKey, if_neg hKey]

theorem readMappingType_varies (r : Reading) {members₀ members : List (String × Child)}
    (h : MembersVary shows P members₀ members) :
    Concurs Eq (readMappingType r none members₀) (readMappingType r none members) := by
  rw [readMappingType_eq, readMappingType_eq]
  refine h.soleMember fun c₀ c hc => (hc.read r .dataType).bind fun slot₀ slot hSlot => ?_
  cases hSlot with
  | refl => exact .refl fun _ _ => rfl
  | _ => exact .error _ _

theorem readRendering_varies {members₀ members : List (String × Child)}
    (h : MembersVary shows P members₀ members) :
    Concurs Eq (readRendering members₀) (readRendering members) := by
  have hOthers := h.filter fun key => key != "clr_type"
  refine (hOthers.readTag .examined "kind").bind fun form _ hForm => ?_
  subst hForm
  cases form with
  | vector =>
    refine (hOthers.readMembers Record.ofVectorRendering .collected (some "kind")).bind
      fun slots₀ slots hSlots => ?_
    rw [hSlots.require_eq _ plain_vectorType]
    exact .refl fun _ _ => rfl
  | _ => exact .ok rfl

theorem readMapping_sortKeys {j : Json} (hKeyed : j.WellKeyed) (h : j.PartsVary shows P)
    (r : Reading) : Concurs Eq (j.sortKeys.node.readMapping r) (j.node.readMapping r) := by
  cases j with
  | obj members =>
    have hMembers := Json.membersVary hKeyed h
    refine (readMappingType_varies r hMembers).bind fun found _ hFound => ?_
    subst hFound
    cases found with
    | none => exact .error _ _
    | some type => exact (readRendering_varies hMembers).map fun _ _ hEq => hEq ▸ rfl
  | torn members tail => cases hKeyed.complete
  | _ => exact .error _ _

end Node

/-! ## Lists of values -/

/-- What a child says as a value. -/
def Child.readValue (child : Child) : Except DocumentError Value := do
  match ← child.read .examined .value with
  | .value v => .ok v
  | _ => .error .invalid

theorem Child.readValue_eq_ok {child : Child} {v : Value} :
    child.readValue = .ok v ↔ child.read .examined .value = .ok (.value v) := by
  unfold Child.readValue
  cases child.read .examined .value with
  | error e => simp
  | ok slot => cases slot <;> simp

theorem Child.Varies.readValue {c₀ c : Child} (h : Child.Varies shows P c₀ c) :
    Concurs (SameIf shows P fun v => [v]) c₀.readValue c.readValue := by
  refine (h.read .examined .value).bind fun slot₀ slot hSlot => ?_
  cases hSlot with
  | refl hHolds =>
    cases slot₀ with
    | value v => exact .ok (.refl hHolds)
    | _ => exact .error _ _
  | value hv => exact .ok hv
  | _ => exact .error _ _

namespace Node

theorem readValues_varies {items₀ items : List Child}
    (h : List.Forall₂ (Child.Varies shows P) items₀ items) :
    Concurs (SameIf shows P fun vs => vs) (readValues items₀) (readValues items) := by
  refine (Concurs.mapM h fun _ _ hChild => hChild.readValue).imp fun vs₀ vs hvs => ?_
  simpa using SameIf.list hvs

/-- The entries that are read for members, before they are put in order. -/
def entriesOf (members : List (String × Child)) : List (String × Value) :=
  members.filterMap fun m => m.2.readValue.toOption.map fun v => (m.1, v)

theorem readValues_of_all {members : List (String × Child)}
    (h : ∀ m ∈ members, ∃ v, m.2.readValue = .ok v) :
    readValues (members.map Prod.snd) = .ok ((entriesOf members).map Prod.snd) ∧
      (entriesOf members).map Prod.fst = members.map Prod.fst := by
  induction members with
  | nil => exact ⟨rfl, rfl⟩
  | cons m members ih =>
    obtain ⟨⟨v, hFirst⟩, hRest⟩ := List.forall_mem_cons.mp h
    obtain ⟨hValues, hKeys⟩ := ih hRest
    have hEntries : entriesOf (m :: members) = (m.1, v) :: entriesOf members := by
      rw [entriesOf, List.filterMap_cons, hFirst]
      rfl
    constructor
    · rw [hEntries]
      exact readValues_cons (Child.readValue_eq_ok.mp hFirst) hValues
    · rw [hEntries, List.map_cons, List.map_cons, hKeys]

/-- Entries are read one by one, and then put in order. -/
theorem readEntries_eq_ok_iff {members : List (String × Child)}
    {entries : List (String × Value)} :
    readEntries members = .ok entries ↔
      (∀ m ∈ members, ∃ v, m.2.readValue = .ok v) ∧ entries = Keys.ofList (entriesOf members) := by
  have hRead (h : ∀ m ∈ members, ∃ v, m.2.readValue = .ok v) :
      readEntries members = .ok (Keys.ofList (entriesOf members)) := by
    obtain ⟨hValues, hKeys⟩ := readValues_of_all h
    rw [readEntries, hValues, ok_bind, ← hKeys, List.zip_map', List.map_id']
  constructor
  · intro h
    have hAll : ∀ m ∈ members, ∃ v, m.2.readValue = .ok v := by
      intro m hm
      cases hFirst : m.2.readValue with
      | ok v => exact ⟨v, rfl⟩
      | error e =>
        obtain ⟨values, hValues, -⟩ := bind_eq_ok.mp h
        obtain ⟨e', hError⟩ := exists_mapM_error (List.mem_map_of_mem (f := Prod.snd) hm) hFirst
        exact absurd (hError.symm.trans hValues) nofun
    exact ⟨hAll, Except.ok.inj (h.symm.trans (hRead hAll))⟩
  · rintro ⟨hAll, rfl⟩
    exact hRead hAll

/-- An entry stands under the key of the member that it was read for. -/
theorem lookup_of_readEntries {members : List (String × Child)}
    (hNodup : (members.map Prod.fst).Nodup) {entries : List (String × Value)}
    (h : readEntries members = .ok entries) (key : String) :
    entries.lookup key = (members.lookup key).bind fun c => c.readValue.toOption := by
  obtain ⟨hAll, rfl⟩ := readEntries_eq_ok_iff.mp h
  have hKeys : ((entriesOf members).map Prod.fst).Nodup := by
    rwa [(readValues_of_all hAll).2]
  have hPerm := Keys.perm_ofList hKeys
  rw [lookup_eq_of_perm hPerm ((hPerm.map Prod.fst).nodup_iff.mpr hKeys)]
  exact lookup_filterMap (fun _ c => c.readValue.toOption) hNodup key

end Node

/-- Entries in key order are the same if they are under each key. -/
theorem Keys.Ascending.eq_of_lookup {α : Type} {entries entries' : List (String × α)}
    (h : Keys.Ascending entries) (h' : Keys.Ascending entries')
    (hLookup : ∀ key, entries.lookup key = entries'.lookup key) : entries = entries' := by
  refine h.eq_of_perm h' ((List.perm_ext_iff_of_nodup h.nodup.of_map h'.nodup.of_map).mpr ?_)
  rintro ⟨key, a⟩
  rw [mem_iff_lookup h.nodup, mem_iff_lookup h'.nodup, hLookup]

/-- Entries differ in their values at most if they do so under each key. -/
theorem SameIf.entries {entries₀ entries : List (String × Value)}
    (h₀ : Keys.Ascending entries₀) (h : Keys.Ascending entries)
    (hLookup : ∀ key, Option.Rel (SameIf shows P fun v => [v]) (entries₀.lookup key)
      (entries.lookup key)) : SameIf shows P (List.map Prod.snd) entries₀ entries where
  same hAll := by
    refine h.eq_of_lookup h₀ fun key => ?_
    have hRel := hLookup key
    cases hFound : entries₀.lookup key with
    | none =>
      rw [hFound] at hRel
      generalize entries.lookup key = y at hRel
      cases hRel
      rfl
    | some v₀ =>
      have hv₀ := hAll v₀ (List.mem_map_of_mem (mem_of_lookup hFound))
      rw [hFound] at hRel
      generalize entries.lookup key = y at hRel
      cases hRel with
      | some hv => rw [hv.same (List.forall_mem_singleton.mpr hv₀)]
  holds hShows hEq := by
    rintro v hv
    obtain ⟨⟨key, v⟩, hMem, rfl⟩ := List.mem_map.mp hv
    have hRel := hLookup key
    rw [hEq, (mem_iff_lookup h₀.nodup).mp hMem] at hRel
    cases hRel with
    | some hv => exact hv.holds hShows rfl v (List.mem_singleton_self v)

theorem MembersVary.readEntries {members₀ members : List (String × Child)}
    (h : MembersVary shows P members₀ members) :
    Concurs (SameIf shows P (List.map Prod.snd)) (Node.readEntries members₀)
      (Node.readEntries members) := by
  refine .of_results ?_ fun entries₀ entries h₀ h' => ?_
  · simp only [Node.readEntries_eq_ok_iff, exists_and_left, exists_eq, and_true]
    exact h.forall_iff (Q := fun _ c => ∃ v, c.readValue = .ok v)
      fun _ c₀ c hc => hc.readValue.exists_iff
  · refine .entries (Node.readEntries_ascending h₀) (Node.readEntries_ascending h') fun key => ?_
    rw [Node.lookup_of_readEntries h.nodup₀ h₀, Node.lookup_of_readEntries h.nodup h']
    refine rel_bind (h.lookup key) fun c₀ c hc => ?_
    have hValue := hc.readValue
    generalize c₀.readValue = x, c.readValue = y at hValue
    cases hValue with
    | error => exact .none
    | ok hv => exact .some hv

/-! ## Parts of every kind -/

theorem Concurs.plain {α : Type} {x y : Except DocumentError α} (h : Concurs Eq x y)
    {make : α → Slot} (hMake : ∀ a, (make a).held = []) :
    Concurs (Slot.Varies shows P) (x.map make) (y.map make) := by
  refine h.map fun a _ hEq => hEq ▸ .refl ?_
  rw [Slot.Holds, hMake]
  exact allHold_nil

namespace Node

section Read

variable {j : Json} (hKeyed : j.WellKeyed) (h : j.PartsVary shows P)

include hKeyed h

theorem readKeyedValues_varies :
    Concurs (SameIf shows P (List.map Prod.snd)) j.sortKeys.node.readKeyedValues
      j.node.readKeyedValues := by
  cases j with
  | obj members => exact (Json.membersVary hKeyed h).readEntries
  | torn members tail => cases hKeyed.complete
  | _ => exact .error _ _

/-- A part is read as it is with all keys in order if values are. -/
theorem read_varies
    (hValue : Concurs (SameIf shows P fun v => [v]) j.sortKeys.node.readValue j.node.readValue)
    (r : Reading) (kind : Kind) :
    Concurs (Slot.Varies shows P) (j.sortKeys.read r kind) (j.read r kind) := by
  rw [Json.read_eq_node, Json.read_eq_node]
  have hText : j.sortKeys.readText = j.readText := by cases j <;> rfl
  have hFlag : j.sortKeys.readFlag = j.readFlag := by cases j <;> rfl
  have hNatural : j.sortKeys.readNatural = j.readNatural := by cases j <;> rfl
  cases kind <;> simp only [read, Json.json_node, hText, hFlag, hNatural]
  case text => exact (Concurs.refl fun _ _ => rfl).plain fun _ => rfl
  case flag => exact (Concurs.refl fun _ _ => rfl).plain fun _ => rfl
  case natural => exact (Concurs.refl fun _ _ => rfl).plain fun _ => rfl
  case any => exact (Json.readAny_sortKeys hKeyed).plain fun _ => rfl
  case dataType => exact (Json.readDataType_sortKeys hKeyed r h).plain fun _ => rfl
  case distanceFunction => exact (Json.unitVariant_sortKeys hKeyed r).plain fun _ => rfl
  case elementType => exact (Json.unitVariant_sortKeys hKeyed r).plain fun _ => rfl
  case vectorType => exact (readVectorType_sortKeys hKeyed h r).plain fun _ => rfl
  case value => exact hValue.map fun _ _ => .value
  case mapping => exact (readMapping_sortKeys hKeyed h r).plain fun _ => rfl
  case binaryOperator => exact (Json.unitVariant_sortKeys hKeyed r).plain fun _ => rfl
  case unaryOperator => exact (Json.unitVariant_sortKeys hKeyed r).plain fun _ => rfl
  case rawArguments => exact (readRawArguments_varies hKeyed h r).map fun _ _ => .rawArguments
  case expression => exact (readExpression_varies hKeyed h r).map fun _ _ => .expression
  case select =>
    exact (Record.ofSelect.read_varies hKeyed h r).map fun _ _ hSlots =>
      .select (Select.ofSlots_sameIf hSlots)
  case projection =>
    exact (Record.ofProjection.read_varies hKeyed h r).bind fun _ _ hSlots =>
      (Projection.ofSlots_concurs hSlots).map fun _ _ => .projection
  case source =>
    exact (Record.ofSource.read_varies hKeyed h r).bind fun _ _ hSlots =>
      (Source.ofSlots_concurs hSlots).map fun _ _ => .source
  case sortKey =>
    exact (Record.ofSortKey.read_varies hKeyed h r).bind fun _ _ hSlots =>
      (SortKey.ofSlots_concurs hSlots).map fun _ _ => .sortKey
  case parameter =>
    refine (Record.ofParameter.read_varies hKeyed h r).bind fun _ _ hSlots => ?_
    rw [Parameter.ofSlots_eq hSlots]
    exact (Concurs.refl fun _ _ => rfl).plain fun _ => rfl
  case query =>
    refine (Record.ofQuery.read_varies hKeyed h r).bind fun _ _ hSlots => ?_
    rw [Query.ofSlots_eq hSlots]
    exact (Concurs.refl fun _ _ => rfl).plain fun _ => rfl
  case options =>
    refine (Record.ofOptions.read_varies hKeyed h r).map fun _ _ hSlots => ?_
    rw [GeneratorOptions.ofSlots_eq hSlots]
    exact .refl allHold_nil
  case list kind => exact (readList_varies hKeyed h r kind).map fun _ _ => .list
  case values => exact (readKeyedValues_varies hKeyed h).map fun _ _ => .values

end Read

end Node

end DocumentQuery
