import DocumentQuery.Proofs.Document.Held
import DocumentQuery.Proofs.Document.ReadValues
import DocumentQuery.Proofs.Json.Reader

/-!
# Payloads of values that are read

A value under a mapping for JSON is sent as it is written. If it was read from a document,
the document is sent, except for what is lost where an object is taken for the description
of a vector or for a member of an enumeration: a description has no null, a member holds
nothing beside the enumeration and its name, and neither spells a name as an object.

Main definitions and results:

* `Json.sent` — what a value that is read from the document is written as.
* `Json.read_sent` — every document without fractions is read, and what is sent for it.
* `Json.Faithful` — nothing is lost.
* `Json.sortKeys_sent_iff`, `Value.payload_iff` — hence when the payload is the document.
-/

namespace DocumentQuery

namespace Json

/-! ## Strings and integers -/

/-- A string or an integer. Descriptions and members of enumerations are written with
these alone. -/
def isAtom : Json → Bool
  | .int _ | .str _ => true
  | _ => false

/-- The members hold strings and integers only. -/
def Flat (ms : List (String × Json)) : Prop := ∀ m ∈ ms, m.2.isAtom = true

theorem isAtom_sortKeys (j : Json) : j.sortKeys.isAtom = j.isAtom := by
  cases j <;> rfl

theorem sortKeys_of_isAtom {j : Json} (h : j.isAtom = true) : j.sortKeys = j := by
  cases j <;> first | rfl | cases h

theorem flat_sortMembers_iff {ms : List (String × Json)} : Flat (sortMembers ms) ↔ Flat ms := by
  rw [sortMembers_eq, Flat, List.forall_mem_map]
  exact forall₂_congr fun m _ => by rw [isAtom_sortKeys]

theorem sortMembers_of_flat {ms : List (String × Json)} (h : Flat ms) : sortMembers ms = ms := by
  rw [sortMembers_eq]
  refine (List.map_congr_left fun m hm => ?_).trans (List.map_id ms)
  rw [sortKeys_of_isAtom (h m hm), id]

/-- An object of strings and integers has the members of another up to their order if both
are the same in key order. -/
theorem sortKeys_eq_iff_perm {ns ms : List (String × Json)} (hFlat : Flat ns)
    (hns : (ns.map Prod.fst).Nodup) (hms : (ms.map Prod.fst).Nodup) :
    (obj ns).sortKeys = (obj ms).sortKeys ↔ ns.Perm ms := by
  rw [sortKeys, sortKeys, obj.injEq, sortMembers_of_flat hFlat]
  constructor
  · intro h
    -- both lists are permutations of the same list in key order
    have hKeys : ((sortMembers ms).map Prod.fst).Nodup := by rwa [keys_sortMembers]
    have hPerm : ns.Perm (sortMembers ms) := by
      have hSorted := Keys.perm_ofList hKeys
      rw [← h] at hSorted
      exact (Keys.perm_ofList hns).symm.trans hSorted
    -- so there is nothing in the other object that sorting would change
    have hFlat' : Flat ms := flat_sortMembers_iff.mp fun m hm => hFlat m (hPerm.mem_iff.mpr hm)
    rwa [sortMembers_of_flat hFlat'] at hPerm
  · intro hPerm
    rw [sortMembers_of_flat fun m hm => hFlat m (hPerm.mem_iff.mpr hm)]
    exact Keys.ofList_eq_of_perm hPerm hns

end Json

/-! ## Descriptions of vectors -/

namespace Json

section Names

variable {α : Type} [Enumerated α] {j : Json} {r : Reading}

theorem eq_name_of_unitVariant {x : α} (hAtom : j.isAtom = true) (h : j.unitVariant r = .ok x) :
    j = .str (Enumerated.name x) := by
  cases j with
  | str name =>
    cases hNamed : (Enumerated.named? name : Option α) with
    | none =>
      simp [unitVariant, variant, hNamed] at h
    | some y =>
      simp [unitVariant, variant, hNamed] at h
      have hName := List.find?_some hNamed
      rw [beq_iff_eq] at hName
      rw [← h, hName]
  | int n => cases h
  | _ => cases hAtom

end Names

theorem eq_int_of_readNatural {j : Json} {n : Nat} (h : j.readNatural = .ok n) :
    j = .int n ∧ n < twoTo 64 := by
  cases j with
  | int k =>
    rw [readNatural] at h
    split at h
    · rename_i hBounds
      obtain rfl := Except.ok.inj h
      exact ⟨by rw [Int.toNat_of_nonneg hBounds.1], by omega⟩
    · cases h
  | _ => cases h

end Json

namespace VectorType

variable {slots : Slots} {v : VectorType}

theorem ofSlots_eq_ok (h : ofSlots slots = .ok v) :
    slots.lookup "distanceFunction" = some (.distanceFunction v.distanceFunction) ∧
      (∃ n, slots.lookup "dimensions" = some (.natural n) ∧ v.dimensions = UInt64.ofNat n) ∧
      v.elementType = slots.find? "dataType" Slot.elementType? := by
  obtain ⟨function, hFunction, hRest⟩ := bind_eq_ok.mp h
  obtain ⟨n, hDimensions, hVector⟩ := bind_eq_ok.mp hRest
  obtain rfl := Except.ok.inj hVector
  obtain ⟨slot, hSlot, hPick⟩ := Option.bind_eq_some_iff.mp (Slots.require_eq_ok.mp hFunction)
  obtain ⟨slot', hSlot', hPick'⟩ := Option.bind_eq_some_iff.mp (Slots.require_eq_ok.mp hDimensions)
  cases slot <;> cases hPick
  cases slot' <;> cases hPick'
  exact ⟨hSlot, ⟨n, hSlot', rfl⟩, rfl⟩

theorem keys_members (v : VectorType) : (v.members.map Prod.fst).Nodup := by
  obtain ⟨function, dimensions, elementType⟩ := v
  cases elementType <;> simp [members]

theorem flat_members (v : VectorType) : Json.Flat v.members := by
  obtain ⟨function, dimensions, elementType⟩ := v
  cases elementType <;> simp [members, Json.Flat, Json.isAtom]

/-- A string or an integer that is read for a field of a description is written with the
description. -/
theorem mem_members_of_read {r : Reading} {field : Field} {j : Json} {slot : Slot}
    (hField : field ∈ Record.ofVectorType.fields) (hAtom : j.isAtom = true)
    (hRead : field.read r j.child = .ok slot) (hSlot : slots.lookup field.key = some slot)
    (h : ofSlots slots = .ok v) : (field.key, j) ∈ v.members := by
  obtain ⟨hFunction, ⟨n, hDimensions, hNatural⟩, hType⟩ := ofSlots_eq_ok h
  have hJson : j.read r field.kind = .ok slot := by
    rw [← hRead, Field.read]
    cases field.nullable <;> cases j <;> first | rfl | cases hAtom
  simp only [Record.ofVectorType, List.mem_cons, List.not_mem_nil, or_false] at hField
  rcases hField with rfl | rfl | rfl
  · -- the distance function
    obtain rfl := Option.some.inj (hFunction.symm.trans hSlot)
    rw [Json.read_distanceFunction] at hJson
    obtain ⟨function, hName, hEq⟩ := map_eq_ok.mp hJson
    obtain rfl := Slot.distanceFunction.inj hEq
    rw [Json.eq_name_of_unitVariant hAtom hName]
    exact List.mem_cons_self
  · -- the number of dimensions, which 64 bits hold
    obtain rfl := Option.some.inj (hDimensions.symm.trans hSlot)
    rw [Json.read_natural] at hJson
    obtain ⟨k, hNumber, hEq⟩ := map_eq_ok.mp hJson
    obtain rfl := Slot.natural.inj hEq
    obtain ⟨rfl, hLess⟩ := Json.eq_int_of_readNatural hNumber
    have hToNat : v.dimensions.toNat = k := by
      rw [hNatural]
      exact UInt64.toNat_ofNat_of_lt' hLess
    rw [← hToNat]
    exact List.mem_cons_of_mem _ List.mem_cons_self
  · -- the element type, which is no null here and so is written
    rw [Json.read_elementType] at hJson
    obtain ⟨t, hName, rfl⟩ := map_eq_ok.mp hJson
    have hElement : v.elementType = some t := by
      rw [hType, Slots.find?, hSlot]
      rfl
    rw [Json.eq_name_of_unitVariant hAtom hName, members, hElement]
    exact List.mem_append_right _ List.mem_cons_self

/-- Something was read for whatever a description is written with. -/
theorem keys_subset (h : ofSlots slots = .ok v) :
    v.members.map Prod.fst ⊆ slots.map Prod.fst := by
  obtain ⟨hFunction, ⟨n, hDimensions, -⟩, hType⟩ := ofSlots_eq_ok h
  have hKey {key : String} {slot : Slot} (hLookup : slots.lookup key = some slot) :
      key ∈ slots.map Prod.fst := List.mem_map_of_mem (mem_of_lookup hLookup)
  rw [members, List.map_append]
  refine List.append_subset.mpr ⟨List.cons_subset.mpr ⟨hKey hFunction,
    List.cons_subset.mpr ⟨hKey hDimensions, List.nil_subset _⟩⟩, ?_⟩
  cases hElement : v.elementType with
  | none => exact List.nil_subset _
  | some t =>
    obtain ⟨slot, hSlot, -⟩ := Option.bind_eq_some_iff.mp (hType.symm.trans hElement)
    exact List.cons_subset.mpr ⟨hKey hSlot, List.nil_subset _⟩

/-- What is read of an object that is taken for a description: a slot for each member. -/
theorem exists_slots {ms : List (String × Json)} (hKeys : (ms.map Prod.fst).Nodup)
    (h : Json.vectorType? ms = some v) :
    ∃ slots, ofSlots slots = .ok v ∧ slots.map Prod.fst = ms.map Prod.fst ∧
      ∀ m ∈ ms, ∃ field ∈ Record.ofVectorType.fields, field.key = m.1 ∧
        ∃ slot, field.read .examined m.2.child = .ok slot ∧ slots.lookup m.1 = some slot := by
  obtain ⟨slots, hSlots, hVector⟩ := bind_eq_ok.mp (toOption_eq_some.mp h)
  have hRecord : Record.ofVectorType.readMembers .examined none [] (Json.keyedChildrenOf ms) =
      .ok slots := hSlots
  obtain ⟨_, rfl, hFound, hMembers⟩ := Record.exists_of_readMembers rfl hRecord
  rw [Json.keys_keyedChildrenOf] at hFound
  -- the slots have the keys of the members, so each is found under its own
  refine ⟨slots, hVector, hFound, fun m hm => ?_⟩
  have hChild : (m.1, m.2.child) ∈ Json.keyedChildrenOf ms := by
    rw [Json.keyedChildrenOf_eq]
    exact List.mem_map_of_mem (f := fun m : String × Json => (m.1, m.2.child)) hm
  obtain ⟨field, slot, hField, hRead, hSlot⟩ := hMembers _ hChild
  have hKey := List.find?_some hField
  rw [beq_iff_eq] at hKey
  exact ⟨field, List.mem_of_find?_eq_some hField, hKey, slot, hRead,
    lookup_of_mem (hFound ▸ hKeys) hSlot⟩

/-- An object that is taken for a description has just the members that the description is
written with if it holds strings and integers only. -/
theorem members_perm_iff {ms : List (String × Json)} (hKeys : (ms.map Prod.fst).Nodup)
    (h : Json.vectorType? ms = some v) : v.members.Perm ms ↔ Json.Flat ms := by
  constructor
  · exact fun hPerm m hm => v.flat_members m (hPerm.mem_iff.mpr hm)
  · intro hFlat
    obtain ⟨slots, hVector, hSlotKeys, hMembers⟩ := exists_slots hKeys h
    have hSubset : ms ⊆ v.members := by
      rintro ⟨key, j⟩ hm
      obtain ⟨field, hField, rfl, slot, hRead, hSlot⟩ := hMembers _ hm
      exact mem_members_of_read hField (hFlat _ hm) hRead hSlot hVector
    -- the members are among those of the description, and no fewer
    have hLength := (List.subperm_of_subset v.keys_members (keys_subset hVector)).length_le
    rw [hSlotKeys, List.length_map, List.length_map] at hLength
    exact ((List.subperm_of_subset (List.Nodup.of_map _ hKeys) hSubset).perm_of_length_le
      hLength).symm

end VectorType

/-! ## Members of enumerations -/

namespace EnumMember

/-- The members that a member of an enumeration is written with. -/
def members (m : EnumMember) : List (String × Json) :=
  [("enum", .str m.dataType.name), ("value", .str m.name)]

theorem flat_members (m : EnumMember) : Json.Flat m.members := by
  simp [members, Json.Flat, Json.isAtom]

theorem keys_members (m : EnumMember) : (m.members.map Prod.fst).Nodup := by
  simp [members]

theorem members_subset {ms : List (String × Json)} {m : EnumMember} (hFlat : Json.Flat ms)
    (h : Json.enumMember? ms = some m) : m.members ⊆ ms := by
  have hRead := toOption_eq_some.mp h
  rw [Node.readEnumMember_eq] at hRead
  simp only [Json.objectNode, Json.keyedChildrenOf_eq, enumParts?_map] at hRead
  cases hParts : enumParts? ms with
  | none =>
    rw [hParts] at hRead
    cases hRead
  | some parts =>
    obtain ⟨form, member, r⟩ := parts
    obtain ⟨hForm, hMember, -⟩ := enumParts?_eq_some hParts
    rw [hParts] at hRead
    obtain ⟨enumeration, hName, hRest⟩ := bind_eq_ok.mp hRead
    have hFormAtom : form.isAtom = true := hFlat _ hForm
    have hMemberAtom : member.isAtom = true := hFlat _ hMember
    rw [Json.eq_name_of_unitVariant hFormAtom hName] at hForm
    -- whichever enumeration it is, its member stands there by name
    cases enumeration with
    | distanceFunction =>
      obtain ⟨f, hValue, rfl⟩ := map_eq_ok.mp hRest
      rw [Json.eq_name_of_unitVariant hMemberAtom hValue] at hMember
      exact List.cons_subset.mpr ⟨hForm, List.cons_subset.mpr ⟨hMember, List.nil_subset _⟩⟩
    | vectorDataType =>
      obtain ⟨t, hValue, rfl⟩ := map_eq_ok.mp hRest
      rw [Json.eq_name_of_unitVariant hMemberAtom hValue] at hMember
      exact List.cons_subset.mpr ⟨hForm, List.cons_subset.mpr ⟨hMember, List.nil_subset _⟩⟩

/-- An object that is taken for a member of an enumeration has just the members that this
is written with if it holds two strings or integers. -/
theorem members_perm_iff {ms : List (String × Json)} {m : EnumMember}
    (h : Json.enumMember? ms = some m) :
    m.members.Perm ms ↔ Json.Flat ms ∧ ms.length = 2 := by
  constructor
  · exact fun hPerm => ⟨fun m' hm' => m.flat_members m' (hPerm.mem_iff.mpr hm'),
      hPerm.length_eq.symm⟩
  · rintro ⟨hFlat, hLength⟩
    exact (List.subperm_of_subset (List.Nodup.of_map _ m.keys_members)
      (members_subset hFlat h)).perm_of_length_le hLength.le

end EnumMember

/-! ## What is sent -/

namespace Json

mutual

/-- What a value that is read from the document is written as, up to the order of keys. -/
def sent : Json → Json
  | .arr items => .arr (sentItems items)
  | .obj members =>
    match vectorType? members with
    | some v => v.toJson
    | none =>
      match enumMember? members with
      | some m => m.toJson
      | none => .obj (sentMembers members)
  | j => j
termination_by structural j => j

def sentItems : List Json → List Json
  | [] => []
  | j :: js => j.sent :: sentItems js
termination_by structural js => js

def sentMembers : List (String × Json) → List (String × Json)
  | [] => []
  | (key, j) :: ms => (key, j.sent) :: sentMembers ms
termination_by structural ms => ms

end

mutual

/-- Nothing of the document is lost: an object that is taken for the description of a vector
holds neither null nor a name that is spelled as an object; nor does one that is taken for a
member of an enumeration, which holds nothing else either. -/
def Faithful : Json → Prop
  | .arr items => FaithfulItems items
  | .obj members =>
    match vectorType? members with
    | some _ => Flat members
    | none =>
      match enumMember? members with
      | some _ => Flat members ∧ members.length = 2
      | none => FaithfulMembers members
  | _ => True
termination_by structural j => j

def FaithfulItems : List Json → Prop
  | [] => True
  | j :: js => j.Faithful ∧ FaithfulItems js
termination_by structural js => js

def FaithfulMembers : List (String × Json) → Prop
  | [] => True
  | (_, j) :: ms => j.Faithful ∧ FaithfulMembers ms
termination_by structural ms => ms

end

theorem keys_sentMembers (ms : List (String × Json)) :
    (sentMembers ms).map Prod.fst = ms.map Prod.fst := by
  induction ms with
  | nil => rfl
  | cons m ms ih => rw [sentMembers, List.map_cons, List.map_cons, ih]

mutual

/-- The document is sent as it is, up to the order of keys, exactly when nothing is lost. -/
theorem sortKeys_sent_iff : ∀ j : Json, j.DistinctKeys →
    (j.sent.sortKeys = j.sortKeys ↔ j.Faithful)
  | .arr items, h => by
    rw [sent, sortKeys, sortKeys, arr.injEq]
    exact sortItems_sent_iff items h
  | .obj members, h => by
    rw [sent, Faithful]
    -- a description and a member are written flat, so they are compared member by member
    cases hVector : vectorType? members with
    | some v =>
      exact (sortKeys_eq_iff_perm v.flat_members v.keys_members h.1).trans
        (v.members_perm_iff h.1 hVector)
    | none =>
      cases hEnum : enumMember? members with
      | some m =>
        exact (sortKeys_eq_iff_perm m.flat_members m.keys_members h.1).trans
          (m.members_perm_iff hEnum)
      | none =>
        -- the object keeps its keys, so nothing else is to be compared
        show (obj (sentMembers members)).sortKeys = _ ↔ FaithfulMembers members
        rw [← sortMembers_sent_iff members h.2, sortKeys, sortKeys, obj.injEq]
        refine ⟨Keys.ofList_injective ?_ ?_, congrArg Keys.ofList⟩
        · rw [keys_sortMembers, keys_sortMembers, keys_sentMembers]
        · rw [keys_sortMembers, keys_sentMembers]
          exact h.1
  | .null, _ | .bool _, _ | .int _, _ | .real _, _ | .str _, _ | .torn _ _, _ | .broken _, _
  | .unfit, _ | .unkeyed _ _, _ => iff_of_true rfl trivial
termination_by structural j => j

theorem sortItems_sent_iff : ∀ js : List Json, DistinctKeysInItems js →
    (sortItems (sentItems js) = sortItems js ↔ FaithfulItems js)
  | [], _ => iff_of_true rfl trivial
  | j :: js, h => by
    rw [sentItems, sortItems, sortItems, List.cons.injEq, sortKeys_sent_iff j h.1,
      sortItems_sent_iff js h.2, FaithfulItems]
termination_by structural js => js

theorem sortMembers_sent_iff : ∀ ms : List (String × Json), DistinctKeysInMembers ms →
    (sortMembers (sentMembers ms) = sortMembers ms ↔ FaithfulMembers ms)
  | [], _ => iff_of_true rfl trivial
  | (key, j) :: ms, h => by
    rw [sentMembers, sortMembers, sortMembers, List.cons.injEq, Prod.mk.injEq,
      sortKeys_sent_iff j h.1, sortMembers_sent_iff ms h.2, FaithfulMembers]
    simp only [true_and]
termination_by structural ms => ms

end

/-! ## Reading values -/

theorem sortMembers_ofList (ms : List (String × Json)) :
    sortMembers (Keys.ofList ms) = Keys.ofList (sortMembers ms) := by
  rw [sortMembers_eq, sortMembers_eq, Keys.map_ofList]

/-- The document of an object does not show in which order its entries were. -/
theorem sortKeys_object_ofList (entries : List (String × Value)) :
    (Value.object (Keys.ofList entries)).toJson.sortKeys =
      obj (Keys.ofList (sortMembers (Value.membersToJson entries))) := by
  rw [Value.toJson, sortKeys, Value.membersToJson_eq, Keys.map_ofList, sortMembers_ofList,
    Keys.ofList_ofList, Value.membersToJson_eq]

mutual

/-- A sound document without fractions is read as a value that is written as what is sent. -/
theorem read_sent : ∀ j : Json, j.sound = true → j.Whole (twoTo 63) → ∀ r : Reading,
    ∃ v, j.read r .value = .ok (.value v) ∧ v.toJson.sortKeys = j.sent.sortKeys
  | .null, _, _, _ => ⟨.null, rfl, rfl⟩
  | .bool b, _, _, _ => ⟨.bool b, rfl, rfl⟩
  | .str s, _, _, _ => ⟨.string s, rfl, rfl⟩
  | .int n, _, h, _ => by
    have hRead : Node.readValue { json := .int n } = .ok (.int (Int64.ofInt n)) := by
      show (if n < (twoTo 63 : Nat) then _ else _) = _
      rw [if_pos h.2]
    have hInt : (Int64.ofInt n).toInt = n := Int64.toInt_ofInt_of_le h.1 h.2
    exact ⟨_, map_eq_ok.mpr ⟨_, hRead, rfl⟩, congrArg int hInt⟩
  | .arr items, hSound, hWhole, _ => by
    obtain ⟨vs, hRead, hSent⟩ := readValues_sentItems items hSound hWhole
    have hCollect : (Json.arr items).collect = .ok () := collect_of_sound hSound
    refine ⟨.array vs, map_eq_ok.mpr ⟨.array vs, ?_, rfl⟩, congrArg arr hSent⟩
    show ((Json.arr items).collect >>= _) = _
    rw [hCollect, ok_bind]
    exact map_eq_ok.mpr ⟨vs, hRead, rfl⟩
  | .obj members, hSound, hWhole, r => by
    have hObject := Node.readValue_object hSound
    rw [sent]
    cases hVector : vectorType? members with
    | some v =>
      rw [hVector] at hObject
      exact ⟨.vectorType v, map_eq_ok.mpr ⟨_, hObject, rfl⟩, rfl⟩
    | none =>
      cases hEnum : enumMember? members with
      | some m =>
        rw [hVector, hEnum] at hObject
        exact ⟨.enum m, map_eq_ok.mpr ⟨_, hObject, rfl⟩, rfl⟩
      | none =>
        -- the entries are put in key order after their values have been read
        rw [hVector, hEnum] at hObject
        obtain ⟨vs, hRead, hSent⟩ := readValues_sentMembers members hSound hWhole
        have hEntries : Node.readEntries (keyedChildrenOf members) =
            .ok (Keys.ofList ((members.map Prod.fst).zip vs)) := by
          rw [Node.readEntries, hRead, ok_bind, keys_keyedChildrenOf]
        refine ⟨_, map_eq_ok.mpr ⟨_, hObject.trans (map_eq_ok.mpr ⟨_, hEntries, rfl⟩), rfl⟩, ?_⟩
        exact (sortKeys_object_ofList _).trans (congrArg (fun ms => obj (Keys.ofList ms)) hSent)
termination_by structural j => j

theorem readValues_sentItems : ∀ js : List Json, soundItems js = true → WholeItems (twoTo 63) js →
    ∃ vs, Node.readValues (childrenOf js) = .ok vs ∧
      sortItems (Value.itemsToJson vs) = sortItems (sentItems js)
  | [], _, _ => ⟨[], rfl, rfl⟩
  | j :: js, hSound, hWhole => by
    rw [soundItems, Bool.and_eq_true] at hSound
    obtain ⟨v, hFirst, hSent⟩ := read_sent j hSound.1 hWhole.1 .examined
    obtain ⟨vs, hRest, hSents⟩ := readValues_sentItems js hSound.2 hWhole.2
    refine ⟨v :: vs, Node.readValues_cons hFirst hRest, ?_⟩
    rw [Value.itemsToJson, sortItems, sentItems, sortItems, hSent, hSents]
termination_by structural js => js

theorem readValues_sentMembers : ∀ ms : List (String × Json), soundMembers ms = true →
    WholeMembers (twoTo 63) ms → ∃ vs,
      Node.readValues ((keyedChildrenOf ms).map Prod.snd) = .ok vs ∧
        sortMembers (Value.membersToJson ((ms.map Prod.fst).zip vs)) = sortMembers (sentMembers ms)
  | [], _, _ => ⟨[], rfl, rfl⟩
  | (key, j) :: ms, hSound, hWhole => by
    rw [soundMembers, Bool.and_eq_true] at hSound
    obtain ⟨v, hFirst, hSent⟩ := read_sent j hSound.1 hWhole.1 .examined
    obtain ⟨vs, hRest, hSents⟩ := readValues_sentMembers ms hSound.2 hWhole.2
    refine ⟨v :: vs, Node.readValues_cons hFirst hRest, ?_⟩
    rw [List.map_cons, List.zip_cons_cons, Value.membersToJson, sortMembers, sentMembers,
      sortMembers, hSent, hSents]
termination_by structural ms => ms

end

end Json

/-! ## Payloads -/

/-- Under a mapping for JSON a value is sent as it is written. -/
theorem TypeMapping.payload_of_json {m : TypeMapping} (h : m.rendering = .json) (v : Value) :
    m.payload v = .ok v.toJson.sortKeys := by
  obtain ⟨type, rendering⟩ := m
  obtain rfl : rendering = .json := h
  cases v <;> rfl

/-- **When a value is sent as supplied.** A document without fractions and repeated keys is
read as a value, which every mapping for JSON sends as the document, up to the order of keys,
exactly when nothing of the document is lost. -/
theorem Value.payload_ofJson_iff {d : Json} (hSound : d.sound = true) (hKeys : d.DistinctKeys)
    (hWhole : d.Whole (twoTo 63)) :
    ∃ v, Value.ofJson d = .ok v ∧ ∀ m : TypeMapping, m.rendering = .json →
      (m.payload v = .ok d.sortKeys ↔ d.Faithful) := by
  obtain ⟨v, hRead, hSent⟩ := d.read_sent hSound hWhole .memory
  refine ⟨v, bind_eq_ok.mpr ⟨_, hRead, rfl⟩, fun m hJson => ?_⟩
  rw [m.payload_of_json hJson, Except.ok.injEq, hSent, d.sortKeys_sent_iff hKeys]

/-! ## Two documents -/

namespace Json

/-- The description of a vector, a member of an enumeration, and an object that has only
the keys of one. -/
def wellSpelled : Json :=
  .arr [.obj [("dimensions", .int 3), ("distanceFunction", .str "cosine")],
    .obj [("value", .str "int8"), ("enum", .str "VectorDataType")],
    .obj [("enum", .str "DistanceFunction"), ("value", .int (-1))]]

theorem wellSpelled_payload :
    wellSpelled.sound = true ∧ wellSpelled.DistinctKeys ∧ wellSpelled.Whole (twoTo 63) ∧
      ∃ v, Value.ofJson wellSpelled = .ok v ∧
        (TypeMapping.json .object).payload v = .ok wellSpelled.sortKeys := by
  have hKeys : wellSpelled.DistinctKeys :=
    ⟨⟨by decide, trivial, trivial, trivial⟩, ⟨by decide, trivial, trivial, trivial⟩,
      ⟨by decide, trivial, trivial, trivial⟩, trivial⟩
  have hWhole : wellSpelled.Whole (twoTo 63) :=
    ⟨⟨⟨by decide, by decide⟩, trivial, trivial⟩, ⟨trivial, trivial, trivial⟩,
      ⟨trivial, ⟨by decide, by decide⟩, trivial⟩, trivial⟩
  have hFaithful : wellSpelled.Faithful :=
    ⟨List.forall_mem_cons.mpr ⟨rfl, List.forall_mem_singleton.mpr rfl⟩,
      ⟨List.forall_mem_cons.mpr ⟨rfl, List.forall_mem_singleton.mpr rfl⟩, rfl⟩,
      ⟨trivial, trivial, trivial⟩, trivial⟩
  obtain ⟨v, hRead, hPayload⟩ := Value.payload_ofJson_iff (d := wellSpelled) rfl hKeys hWhole
  exact ⟨rfl, hKeys, hWhole, v, hRead, (hPayload (.json .object) rfl).mpr hFaithful⟩

/-- A member of an enumeration with something beside it. -/
def annotatedMember : Json :=
  .obj [("enum", .str "DistanceFunction"), ("value", .str "cosine"), ("x", .int 1)]

/-- What stands beside a member of an enumeration is lost. -/
theorem not_payload_ofJson :
    ¬ ∀ d : Json, d.sound = true → d.DistinctKeys → d.Whole (twoTo 63) →
      ∃ v, Value.ofJson d = .ok v ∧ ∀ m : TypeMapping, m.rendering = .json →
        m.payload v = .ok d.sortKeys := by
  intro h
  have hKeys : annotatedMember.DistinctKeys := ⟨by decide, trivial, trivial, trivial, trivial⟩
  have hWhole : annotatedMember.Whole (twoTo 63) :=
    ⟨trivial, trivial, ⟨by decide, by decide⟩, trivial⟩
  obtain ⟨v, hRead, hPayload⟩ := h annotatedMember rfl hKeys hWhole
  obtain rfl : Value.enum (.distanceFunction .cosine) = v := Except.ok.inj hRead
  have hSorted := hPayload (.json .object) rfl
  rw [TypeMapping.payload_of_json rfl, Except.ok.injEq] at hSorted
  have hFaithful : annotatedMember.Faithful := (sortKeys_sent_iff _ hKeys).mp hSorted
  cases hFaithful.2

end Json

end DocumentQuery
