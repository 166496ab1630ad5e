import DocumentQuery.Proofs.Document.LookAlikes
import DocumentQuery.Proofs.Document.ReadDescriptors

/-!
# Values that are read again

A value is read as what it was written for, except that a double that is no number is read
as null, and an object may be taken for the description of a vector or for a member of an
enumeration. `Value.readBack` says what a value is read as; in a plain value there is
nothing of the kind.

Main definitions and results:

* `Json.vectorType?`, `Json.enumMember?` — what an object is taken for.
* `Value.readBack`, `Value.Plain`
* `Value.read_toJson` — a value is read as `Value.readBack`.
* `Value.readBack_of_plain` — a plain value is read as itself.
-/

namespace DocumentQuery

/-! ## Objects that are taken for something else -/

namespace Json

/-- The description of a vector that an object is taken for. -/
def vectorType? (ms : List (String × Json)) : Option VectorType :=
  ((objectNode ms).readVectorType .examined).toOption

/-- The member of an enumeration that an object is taken for, unless it is taken for the
description of a vector. -/
def enumMember? (ms : List (String × Json)) : Option EnumMember :=
  (objectNode ms).readEnumMember.toOption

end Json

theorem toOption_eq_some {ε α : Type} {x : Except ε α} {a : α} :
    x.toOption = some a ↔ x = .ok a := by
  cases x <;> simp [Except.toOption]

namespace Value

mutual

/-- What a value is read as once it has been written. -/
def readBack : Value → Value
  | .float x => ofDouble x
  | .array items => .array (readBackItems items)
  | .object members =>
    match Json.vectorType? (membersToJson members) with
    | some v => .vectorType v
    | none =>
      match Json.enumMember? (membersToJson members) with
      | some m => .enum m
      | none => .object (readBackMembers members)
  | v => v
termination_by structural v => v

def readBackItems : List Value → List Value
  | [] => []
  | v :: vs => v.readBack :: readBackItems vs
termination_by structural vs => vs

def readBackMembers : List (String × Value) → List (String × Value)
  | [] => []
  | (key, v) :: ms => (key, v.readBack) :: readBackMembers ms
termination_by structural ms => ms

end

mutual

/-- There are no floats in the value, and no object that would be taken for the
description of a vector or for a member of an enumeration. -/
def Plain : Value → Prop
  | .float _ => False
  | .array items => PlainItems items
  | .object members =>
    Json.vectorType? (membersToJson members) = none ∧
      Json.enumMember? (membersToJson members) = none ∧ PlainMembers members
  | _ => True
termination_by structural v => v

def PlainItems : List Value → Prop
  | [] => True
  | v :: vs => v.Plain ∧ PlainItems vs
termination_by structural vs => vs

def PlainMembers : List (String × Value) → Prop
  | [] => True
  | (_, v) :: ms => v.Plain ∧ PlainMembers ms
termination_by structural ms => ms

end

mutual

/-- A plain value is read as itself. -/
theorem readBack_of_plain : ∀ v : Value, v.Plain → v.readBack = v
  | .array items, h => congrArg array (readBackItems_of_plain items h)
  | .object members, ⟨hVector, hEnum, hMembers⟩ => by
    rw [readBack, hVector, hEnum]
    exact congrArg object (readBackMembers_of_plain members hMembers)
  | .null, _ | .bool _, _ | .int _, _ | .string _, _ | .vectorType _, _ | .enum _, _ => rfl
termination_by structural v => v

theorem readBackItems_of_plain : ∀ vs : List Value, PlainItems vs → readBackItems vs = vs
  | [], _ => rfl
  | v :: vs, ⟨hFirst, hRest⟩ => by
    rw [readBackItems, readBack_of_plain v hFirst, readBackItems_of_plain vs hRest]
termination_by structural vs => vs

theorem readBackMembers_of_plain :
    ∀ ms : List (String × Value), PlainMembers ms → readBackMembers ms = ms
  | [], _ => rfl
  | (key, v) :: ms, ⟨hFirst, hRest⟩ => by
    rw [readBackMembers, readBack_of_plain v hFirst, readBackMembers_of_plain ms hRest]
termination_by structural ms => ms

end

/-! ## Keys of values -/

theorem itemsToJson_eq (vs : List Value) : itemsToJson vs = vs.map toJson := by
  induction vs with
  | nil => rfl
  | cons v vs ih => rw [itemsToJson, ih, List.map_cons]

theorem membersToJson_eq (ms : List (String × Value)) :
    membersToJson ms = ms.map fun m => (m.1, m.2.toJson) := by
  induction ms with
  | nil => rfl
  | cons m ms ih => rw [membersToJson, ih, List.map_cons]

theorem ascending_membersToJson {ms : List (String × Value)} (h : Keys.Ascending ms) :
    Keys.Ascending (membersToJson ms) := by
  rw [membersToJson_eq]
  exact List.pairwise_map.mpr h

mutual

/-- The document of a value in key order has no key twice. -/
theorem toJson_distinctKeys : ∀ v : Value, v.Ordered → v.toJson.DistinctKeys
  | .array items, h => itemsToJson_distinctKeys items h
  | .object members, h =>
    ⟨(ascending_membersToJson h.1).nodup, membersToJson_distinctKeys members h.2⟩
  | .vectorType ⟨_, _, none⟩, _ => ⟨by simp, trivial, trivial, trivial⟩
  | .vectorType ⟨_, _, some _⟩, _ => ⟨by simp, trivial, trivial, trivial, trivial⟩
  | .enum _, _ => ⟨by simp, trivial, trivial, trivial⟩
  | .float x, _ => by
    rcases float_cases x with ⟨d, -, hJson, -⟩ | ⟨hJson, -⟩ <;> rw [hJson] <;> trivial
  | .null, _ | .bool _, _ | .int _, _ | .string _, _ => trivial
termination_by structural v => v

theorem itemsToJson_distinctKeys :
    ∀ vs : List Value, OrderedItems vs → Json.DistinctKeysInItems (itemsToJson vs)
  | [], _ => trivial
  | v :: vs, ⟨hFirst, hRest⟩ => ⟨toJson_distinctKeys v hFirst, itemsToJson_distinctKeys vs hRest⟩
termination_by structural vs => vs

theorem membersToJson_distinctKeys : ∀ ms : List (String × Value), OrderedMembers ms →
    Json.DistinctKeysInMembers (membersToJson ms)
  | [], _ => trivial
  | (_, v) :: ms, ⟨hFirst, hRest⟩ =>
    ⟨toJson_distinctKeys v hFirst, membersToJson_distinctKeys ms hRest⟩
termination_by structural ms => ms

end

end Value

/-! ## The parts of a member of an enumeration -/

/-- The enumeration and the member among the members of an object, each once, and how
the member is read. -/
def enumParts? {α : Type} (ms : List (String × α)) : Option (α × α × Reading) :=
  match ms.filter fun (key, _) => key == "enum" || key == "value" with
  | [("enum", form), ("value", member)] => some (form, member, .examined)
  | [("value", member), ("enum", form)] => some (form, member, .collected)
  | _ => none

theorem enumParts?_map {α β : Type} (f : α → β) (ms : List (String × α)) :
    enumParts? (ms.map fun m => (m.1, f m.2)) =
      (enumParts? ms).map fun parts => (f parts.1, f parts.2.1, parts.2.2) := by
  unfold enumParts?
  rw [List.filter_map]
  -- the keys decide which members are parts, whatever stands under them
  generalize hParts : ms.filter (fun (key, _) => key == "enum" || key == "value") = parts
  have hParts' : ms.filter ((fun (key, _) => key == "enum" || key == "value") ∘
      fun m => (m.1, f m.2)) = parts := hParts
  rw [hParts']
  split
  · rename_i form member h
    simp only [List.map_eq_cons_iff, List.map_eq_nil_iff] at h
    obtain ⟨⟨_, form⟩, _, rfl, hForm, ⟨_, member⟩, _, rfl, hMember, rfl⟩ := h
    obtain ⟨rfl, rfl⟩ := Prod.mk.inj hForm
    obtain ⟨rfl, rfl⟩ := Prod.mk.inj hMember
    rfl
  · rename_i form member h
    simp only [List.map_eq_cons_iff, List.map_eq_nil_iff] at h
    obtain ⟨⟨_, form⟩, _, rfl, hForm, ⟨_, member⟩, _, rfl, hMember, rfl⟩ := h
    obtain ⟨rfl, rfl⟩ := Prod.mk.inj hForm
    obtain ⟨rfl, rfl⟩ := Prod.mk.inj hMember
    rfl
  · rename_i hFirst hSecond
    split
    · exact absurd rfl (hFirst _ _)
    · exact absurd rfl (hSecond _ _)
    · rfl

/-- The member that the parts are for. -/
def enumMemberOf (parts : Child × Child × Reading) : Except DocumentError EnumMember := do
  let form : EnumForm ← parts.1.json.unitVariant .examined
  form.member parts.2.2 parts.2.1.json

theorem Node.readEnumMember_eq (node : Node) :
    node.readEnumMember = (enumParts? node.members).elim (.error .invalid) enumMemberOf := by
  unfold readEnumMember enumParts?
  generalize node.members.filter _ = parts
  split
  · rfl
  · rfl
  · rename_i hFirst hSecond
    split
    · exact absurd rfl (hFirst _ _)
    · exact absurd rfl (hSecond _ _)
    · rfl

theorem enumParts?_eq_some {α : Type} {ms : List (String × α)} {form member : α} {r : Reading}
    (h : enumParts? ms = some (form, member, r)) :
    ("enum", form) ∈ ms ∧ ("value", member) ∈ ms ∧ r.fromText = false := by
  unfold enumParts? at h
  split at h
  · rename_i form' member' hParts
    obtain ⟨rfl, hRest⟩ := Prod.mk.inj (Option.some.inj h)
    obtain ⟨rfl, rfl⟩ := Prod.mk.inj hRest
    have hMem : ∀ m ∈ [("enum", form'), ("value", member')], m ∈ ms := fun m hm =>
      (List.mem_filter.mp (hParts ▸ hm)).1
    exact ⟨hMem _ (by simp), hMem _ (by simp), rfl⟩
  · rename_i member' form' hParts
    obtain ⟨rfl, hRest⟩ := Prod.mk.inj (Option.some.inj h)
    obtain ⟨rfl, rfl⟩ := Prod.mk.inj hRest
    have hMem : ∀ m ∈ [("value", member'), ("enum", form')], m ∈ ms := fun m hm =>
      (List.mem_filter.mp (hParts ▸ hm)).1
    exact ⟨hMem _ (by simp), hMem _ (by simp), rfl⟩
  · cases h

/-! ## What an object is taken for, however it is arranged -/

namespace Json

variable (a : Arrangement)

theorem exists_order_cons {m : String × Json} {ms : List (String × Json)}
    (h : ((m :: ms).map Prod.fst).Nodup) :
    ∃ m' ms', a.order (m :: ms) = m' :: ms' ∧ ms'.length = ms.length := by
  have hLength := (a.perm _ h).length_eq
  cases hOrder : a.order (m :: ms) with
  | nil => simp [hOrder] at hLength
  | cons m' ms' => exact ⟨m', ms', rfl, by simpa [hOrder] using hLength⟩

theorem unitPayload_arranged (r : Reading) {j : Json} (h : j.DistinctKeys) :
    (j.arranged a).unitPayload r = j.unitPayload r := by
  cases j with
  | obj members =>
    cases members with
    | nil =>
      show (Json.obj (a.order [])).unitPayload r = _
      rw [a.order_nil]
    | cons m ms =>
      -- an object with members is no payload, whichever of them comes first
      have hKeys : ((arrangedMembers a (m :: ms)).map Prod.fst).Nodup := by
        rw [keys_arrangedMembers]
        exact h.1
      obtain ⟨m', ms', hOrder, -⟩ := exists_order_cons a hKeys
      have hObject : (obj (m :: ms)).arranged a = obj (m' :: ms') := congrArg obj hOrder
      rw [hObject]
      rfl
  | _ => rfl

/-- An object with several members is no variant, except in a text. -/
theorem variant_of_several {r : Reading} (hr : r.fromText = false) (m m' : String × Json)
    (ms : List (String × Json)) : (Json.obj (m :: m' :: ms)).variant r = .error r.misshapen := by
  simp [variant, variantOf, hr, Except.map]

theorem unitVariant_arranged {α : Type} [Enumerated α] {r : Reading} (hr : r.fromText = false)
    {j : Json} (h : j.DistinctKeys) :
    ((j.arranged a).unitVariant r : Except DocumentError α) = j.unitVariant r := by
  cases j with
  | obj members =>
    -- an object with one member has one arrangement only
    match members, h with
    | [], _ =>
      show (Json.obj (a.order [])).unitVariant r = _
      rw [a.order_nil]
    | [(key, payload)], h =>
      show (Json.obj (a.order [(key, payload.arranged a)])).unitVariant r = _
      rw [a.order_singleton]
      simp only [unitVariant, variant, variantOf, hr, Bool.false_eq_true, if_false, Except.map,
        ok_bind, unitPayload_arranged a r h.2.1]
    -- one with several stays one with several, and is no variant
    | m :: m' :: ms, h =>
      have hKeys : ((arrangedMembers a (m :: m' :: ms)).map Prod.fst).Nodup := by
        rw [keys_arrangedMembers]
        exact h.1
      obtain ⟨n, ns, hOrder, hLength⟩ := exists_order_cons a hKeys
      cases ns with
      | nil => cases hLength
      | cons n' ns =>
        have hObject : (obj (m :: m' :: ms)).arranged a = obj (n :: n' :: ns) :=
          congrArg obj hOrder
        rw [hObject, unitVariant, unitVariant, variant_of_several hr, variant_of_several hr]
  | _ => rfl

theorem read_distanceFunction (r : Reading) (j : Json) :
    j.read r .distanceFunction = (j.unitVariant r).map Slot.distanceFunction := by
  cases j <;> rfl

theorem read_elementType (r : Reading) (j : Json) :
    j.read r .elementType = (j.unitVariant r).map Slot.elementType := by
  cases j <;> rfl

theorem read_natural (r : Reading) (j : Json) :
    j.read r .natural = j.readNatural.map Slot.natural := by
  cases j <;> rfl

/-- The fields of a description are read the same, however they are arranged. -/
theorem read_vectorField_arranged {field : Field} (hField : field ∈ Record.ofVectorType.fields)
    {j : Json} (h : j.DistinctKeys) :
    field.read .examined (j.arranged a).child = field.read .examined j.child := by
  have hFunction : (j.arranged a).read .examined .distanceFunction =
      j.read .examined .distanceFunction := by
    rw [read_distanceFunction, read_distanceFunction, unitVariant_arranged a rfl h]
  have hType : (j.arranged a).read .examined .elementType = j.read .examined .elementType := by
    rw [read_elementType, read_elementType, unitVariant_arranged a rfl h]
  have hDimensions : (j.arranged a).read .examined .natural = j.read .examined .natural := by
    cases j <;> rfl
  simp only [Record.ofVectorType, List.mem_cons, List.not_mem_nil, or_false] at hField
  rcases hField with rfl | rfl | rfl
  · exact hFunction
  · exact hDimensions
  · cases j <;> first | exact hType | rfl

theorem readVectorMembers_arranged {ms : List (String × Json)} (h : DistinctKeysInMembers ms)
    (seen : Slots) :
    Record.ofVectorType.readMembers .examined none seen (keyedChildrenOf (arrangedMembers a ms)) =
      Record.ofVectorType.readMembers .examined none seen (keyedChildrenOf ms) := by
  induction ms generalizing seen with
  | nil => rfl
  | cons m ms ih =>
    obtain ⟨key, j⟩ := m
    rw [arrangedMembers, keyedChildrenOf, keyedChildrenOf, Record.readMembers, Record.readMembers]
    cases hField : Record.ofVectorType.field? key with
    | none => rfl
    | some field =>
      -- what is read of the first field is the same, so that the rest sees the same slots
      have hRead := read_vectorField_arranged a (List.mem_of_find?_eq_some hField) h.1
      simp only [ih h.2]
      show (if _ then _ else if _ then _ else field.read .examined (j.arranged a).child >>= _) = _
      rw [hRead]
      rfl

/-- Whether an object is taken for the description of a vector does not depend on the
order within its members. -/
theorem vectorType?_arrangedMembers {ms : List (String × Json)} (h : DistinctKeysInMembers ms) :
    vectorType? (arrangedMembers a ms) = vectorType? ms := by
  have hRead : (objectNode (arrangedMembers a ms)).readVectorType .examined =
      (objectNode ms).readVectorType .examined :=
    congrArg (· >>= VectorType.ofSlots) (readVectorMembers_arranged a h [])
  rw [vectorType?, vectorType?, hRead]

theorem member_arranged (form : EnumForm) {r : Reading} (hr : r.fromText = false) {j : Json}
    (h : j.DistinctKeys) : form.member r (j.arranged a) = form.member r j := by
  cases form <;> simp only [EnumForm.member, unitVariant_arranged a hr h]

/-- Nor does it matter for whether it is taken for a member of an enumeration. -/
theorem enumMember?_arrangedMembers {ms : List (String × Json)} (h : DistinctKeysInMembers ms) :
    enumMember? (arrangedMembers a ms) = enumMember? ms := by
  unfold enumMember?
  rw [Node.readEnumMember_eq, Node.readEnumMember_eq]
  simp only [objectNode, keyedChildrenOf_eq, arrangedMembers_eq, enumParts?_map]
  cases hParts : enumParts? ms with
  | none => rfl
  | some parts =>
    obtain ⟨form, member, r⟩ := parts
    obtain ⟨hForm, hMember, hr⟩ := enumParts?_eq_some hParts
    have hDistinct := distinctKeysInMembers_iff.mp h
    have hExamined : (form.arranged a).unitVariant .examined =
        (form.unitVariant .examined : Except DocumentError EnumForm) :=
      unitVariant_arranged a rfl (hDistinct _ hForm)
    simp only [Option.map_some, Option.elim_some, enumMemberOf, child, hExamined,
      member_arranged a _ hr (hDistinct _ hMember)]

end Json

/-! ## Reading values -/

namespace Node

/-- An object is taken for the description of a vector, else for a member of an
enumeration, else it keeps its members. -/
theorem readValue_object {ms : List (String × Json)} (h : Json.soundMembers ms = true) :
    (Json.objectNode ms).readValue =
      match Json.vectorType? ms with
      | some v => .ok (.vectorType v)
      | none =>
        match Json.enumMember? ms with
        | some m => .ok (.enum m)
        | none => (readEntries (Json.keyedChildrenOf ms)).map .object := by
  have hCollect : (Json.obj ms).collect = .ok () := Json.collect_of_sound h
  unfold Json.vectorType? Json.enumMember?
  show ((Json.obj ms).collect >>= _) = _
  rw [hCollect, ok_bind]
  -- the three readings are tried in this order, and the first that succeeds counts
  cases (Json.objectNode ms).readVectorType .examined with
  | ok v => rfl
  | error e => cases (Json.objectNode ms).readEnumMember <;> rfl

theorem readValues_cons {child : Child} {children : List Child} {v : Value} {vs : List Value}
    (h : child.read .examined .value = .ok (.value v)) (hs : readValues children = .ok vs) :
    readValues (child :: children) = .ok (v :: vs) := by
  unfold readValues at hs ⊢
  rw [List.mapM_cons, h, ok_bind, hs]
  rfl

theorem readEntries_of_values {members : List (String × Child)} {entries : List (String × Value)}
    (hKeys : members.map Prod.fst = entries.map Prod.fst) (hAscending : Keys.Ascending entries)
    (hValues : readValues (members.map Prod.snd) = .ok (entries.map Prod.snd)) :
    readEntries members = .ok entries := by
  have hZip : (members.map Prod.fst).zip (entries.map Prod.snd) = entries := by
    rw [hKeys, List.zip_map', List.map_id']
  rw [readEntries, hValues, ok_bind, hZip, Keys.ofList_of_ascending hAscending]

end Node

namespace Value

theorem keys_readBackMembers (ms : List (String × Value)) :
    (readBackMembers ms).map Prod.fst = ms.map Prod.fst := by
  induction ms with
  | nil => rfl
  | cons m ms ih => rw [readBackMembers, List.map_cons, List.map_cons, ih]

theorem ascending_of_keys {α β : Type} {ms : List (String × α)} {ns : List (String × β)}
    (h : ms.map Prod.fst = ns.map Prod.fst) (hs : Keys.Ascending ns) : Keys.Ascending ms := by
  have hKeys : (ns.map Prod.fst).Pairwise (· < ·) := List.pairwise_map.mpr hs
  rw [← h] at hKeys
  exact List.pairwise_map.mp hKeys

theorem vectorType?_of_enum (m : EnumMember) :
    Json.vectorType? [("enum", .str m.dataType.name), ("value", .str m.name)] = none := rfl

theorem enumMember?_of_enum (m : EnumMember) :
    Json.enumMember? [("enum", .str m.dataType.name), ("value", .str m.name)] = some m := by
  cases m with
  | distanceFunction f => cases f <;> rfl
  | vectorDataType t => cases t <;> rfl

variable (a : Arrangement)

theorem order_membersToJson {ms : List (String × Value)} (h : Keys.Ascending ms) :
    a.order (Json.arrangedMembers a (membersToJson ms)) =
      Json.arrangedMembers a (membersToJson ms) := by
  refine a.ascending _ (ascending_of_keys ?_ h)
  rw [Json.keys_arrangedMembers, membersToJson_eq, List.map_map]
  rfl

mutual

/-- A value is read as what it reads back as, however its document is arranged. -/
theorem read_toJson : ∀ v : Value, v.Ordered → ∀ r : Reading,
    (v.toJson.arranged a).read r .value = .ok (.value v.readBack)
  | .null, _, _ | .bool _, _, _ | .string _, _, _ => rfl
  | .float x, _, _ => by
    rw [readBack]
    rcases float_cases x with ⟨d, rfl, hJson, hDouble⟩ | ⟨hJson, hDouble⟩ <;>
      rw [hJson, hDouble] <;> rfl
  | .int n, _, _ => by
    have hLess : n.toInt < (twoTo 63 : Nat) := n.toInt_lt
    have hRead : Node.readValue { json := .int n.toInt } = .ok (.int n) := by
      show (if n.toInt < (twoTo 63 : Nat) then _ else _) = _
      rw [if_pos hLess, Int64.ofInt_toInt]
    exact map_eq_ok.mpr ⟨_, hRead, rfl⟩
  | .array items, h, _ => by
    have hCollect : ((Value.array items).toJson.arranged a).collect = .ok () :=
      Json.collect_of_sound (Json.sound_arranged a _ (toJson_sound _))
    refine map_eq_ok.mpr ⟨.array (readBackItems items), ?_, rfl⟩
    show (((Value.array items).toJson.arranged a).collect >>= _) = _
    rw [hCollect, ok_bind]
    exact map_eq_ok.mpr ⟨_, read_itemsToJson items h, rfl⟩
  | .vectorType v, _, r => by
    have hSound : Json.soundMembers (a.order (Json.arrangedMembers a v.members)) = true :=
      Json.sound_arranged a _ v.toJson_sound
    have hVector : Json.vectorType? (a.order (Json.arrangedMembers a v.members)) = some v :=
      toOption_eq_some.mpr (v.readVectorType_members a .examined)
    refine map_eq_ok.mpr ⟨_, ?_, rfl⟩
    exact (Node.readValue_object hSound).trans (by rw [hVector]; rfl)
  | .enum m, _, r => by
    have hKeys : "enum" < "value" := by decide
    have hObject : (Value.enum m).toJson.arranged a = m.toJson :=
      congrArg Json.obj (a.ascending _ (List.pairwise_pair.mpr hKeys))
    rw [hObject]
    refine map_eq_ok.mpr ⟨.enum m, ?_, rfl⟩
    exact (Node.readValue_object m.toJson_sound).trans
      (by rw [vectorType?_of_enum, enumMember?_of_enum])
  | .object members, h, r => by
    have hSound := Json.soundMembers_arranged a _ (membersToJson_sound members)
    have hDistinct := membersToJson_distinctKeys members h.2
    refine map_eq_ok.mpr ⟨_, ?_, rfl⟩
    show (Json.objectNode (a.order _)).readValue = _
    rw [order_membersToJson a h.1, Node.readValue_object hSound,
      Json.vectorType?_arrangedMembers a hDistinct, Json.enumMember?_arrangedMembers a hDistinct,
      readBack]
    cases Json.vectorType? (membersToJson members) with
    | some v => rfl
    | none =>
      cases Json.enumMember? (membersToJson members) with
      | some m => rfl
      | none =>
        -- the members ascend by key already, so their values are all there is to read
        refine map_eq_ok.mpr ⟨_, Node.readEntries_of_values ?_ ?_ (read_membersToJson members h.2),
          rfl⟩
        · rw [Json.keys_keyedChildrenOf, Json.keys_arrangedMembers, membersToJson_eq,
            List.map_map, keys_readBackMembers]
          rfl
        · exact ascending_of_keys (keys_readBackMembers members) h.1
termination_by structural v => v

theorem read_itemsToJson : ∀ vs : List Value, OrderedItems vs →
    Node.readValues (Json.childrenOf (Json.arrangedItems a (itemsToJson vs))) =
      .ok (readBackItems vs)
  | [], _ => rfl
  | v :: vs, ⟨hFirst, hRest⟩ =>
    Node.readValues_cons (read_toJson v hFirst .examined) (read_itemsToJson vs hRest)
termination_by structural vs => vs

theorem read_membersToJson : ∀ ms : List (String × Value), OrderedMembers ms →
    Node.readValues ((Json.keyedChildrenOf (Json.arrangedMembers a (membersToJson ms))).map
      Prod.snd) = .ok ((readBackMembers ms).map Prod.snd)
  | [], _ => rfl
  | (_, v) :: ms, ⟨hFirst, hRest⟩ =>
    Node.readValues_cons (read_toJson v hFirst .examined) (read_membersToJson ms hRest)
termination_by structural ms => ms

end

end Value

end DocumentQuery
