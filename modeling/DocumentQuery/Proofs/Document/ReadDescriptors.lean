import DocumentQuery.Proofs.Document.Records

/-!
# Types, vectors and mappings that are read again

Types, descriptions of vectors and mappings are read as what they were written for, in
whatever order the members of their documents stand by then, and however they got to
their reader.

Main results:

* `DataType.read_toJson`, `VectorType.read_toJson`, `TypeMapping.read_toJson`
-/

namespace DocumentQuery

variable (a : Arrangement) (r : Reading)

/-! ## Names and types -/

section Names

variable {α : Type} [Enumerated α] [LawfulNames α]

theorem Json.unitVariant_name (x : α) : (Json.str (Enumerated.name x)).unitVariant r = .ok x := by
  simp [unitVariant, variant, LawfulNames.named?_name]

end Names

theorem DataType.read_of_plain {t : DataType} (h : t.element? = none) :
    (Json.str t.name).read r .dataType = .ok (.dataType t) := by
  have hRead : Node.readDataType r { json := .str t.name } = .ok t := by
    simp only [Node.readDataType, Json.variant, ok_bind, find?_name h]
    cases t <;> first | rfl | cases h
  exact map_eq_ok.mpr ⟨t, hRead, rfl⟩

/-- A type is read as itself. -/
theorem DataType.read_toJson (t : DataType) :
    (t.toJson.arranged a).read r .dataType = .ok (.dataType t) := by
  induction t with
  | array element ih =>
    -- a single member stays where it is
    have hOne : (DataType.array element).toJson.arranged a =
        .obj [("Array", element.toJson.arranged a)] :=
      congrArg Json.obj (a.order_singleton _)
    have hVariant : (Json.obj [("Array", element.toJson.arranged a)]).variant r =
        .ok { name := "Array", payload := some (element.toJson.arranged a) } := by
      simp only [Json.variant, Json.variantOf]
      cases r.fromText <;> rfl
    have hRead : Node.readDataType r (Json.objectNode [("Array", element.toJson.arranged a)]) =
        .ok (.array element) := by
      simp only [Node.readDataType, Json.objectNode, hVariant, ok_bind, Json.keyedChildrenOf, ih]
      rfl
    rw [hOne, Json.read_obj]
    exact map_eq_ok.mpr ⟨_, hRead, rfl⟩
  | _ => exact read_of_plain r rfl

/-! ## Fields -/

/-- What stands in a field is read as such, unless it is null. -/
theorem Field.read_of_read {field : Field} {j : Json} {slot : Slot} (hSound : j.sound = true)
    (hNull : j.isNull = false) (h : (j.arranged a).read r field.kind = .ok slot) :
    field.read r (j.arranged a).child = .ok slot := by
  have hRead : field.read r (j.arranged a).child = (j.arranged a).read r field.kind := by
    unfold Field.read
    cases field.nullable <;> cases j <;> 
      first | rfl | exact absurd hSound Bool.false_ne_true | exact nomatch hNull
  rw [hRead, h]

/-! ## Vectors -/

theorem VectorType.ofSlots_congr {slots slots' : Slots} (h : slots.Agree slots') :
    VectorType.ofSlots slots = VectorType.ofSlots slots' := by
  simp only [ofSlots, Slots.require, h.find?]

/-- The members that a description is written with. -/
def VectorType.members (v : VectorType) : List (String × Json) :=
  [("distanceFunction", .str v.distanceFunction.name), ("dimensions", .int v.dimensions.toNat)] ++
    match v.elementType with
    | some t => [("dataType", .str t.name)]
    | none => []

theorem VectorType.read_dimensions (v : VectorType) :
    (Json.int v.dimensions.toNat).read r .natural = .ok (.natural v.dimensions.toNat) := by
  have hLess : (v.dimensions.toNat : Int) < (twoTo 64 : Nat) := by
    rw [Int.ofNat_lt]
    exact v.dimensions.toNat_lt
  have hRead : Json.readNatural (.int v.dimensions.toNat) = .ok v.dimensions.toNat := by
    rw [Json.readNatural, if_pos ⟨Int.natCast_nonneg _, hLess⟩, Int.toNat_natCast]
  show ((Json.readNatural (.int v.dimensions.toNat)).map Slot.natural) = _
  rw [hRead]
  rfl

/-- What is read of a description. -/
def VectorType.slots (v : VectorType) : Slots :=
  [("distanceFunction", .distanceFunction v.distanceFunction),
   ("dimensions", .natural v.dimensions.toNat)] ++
    match v.elementType with
    | some t => [("dataType", .elementType t)]
    | none => []

theorem VectorType.ofSlots_slots (v : VectorType) : VectorType.ofSlots v.slots = .ok v := by
  obtain ⟨function, dimensions, elementType⟩ := v
  -- an element type that is not given has no slot
  cases elementType <;>
    simp [ofSlots, slots, Slots.require, Slots.find?, List.lookup_cons, Slot.distanceFunction?,
      Slot.natural?, Slot.elementType?]

theorem VectorType.readsAs (v : VectorType) :
    ReadsAs a r Record.ofVectorType.fields v.members v.slots := by
  have hFunction : (Json.str v.distanceFunction.name).read r .distanceFunction =
      .ok (.distanceFunction v.distanceFunction) :=
    map_eq_ok.mpr ⟨_, Json.unitVariant_name r v.distanceFunction, rfl⟩
  refine .cons (Field.read_of_read a r rfl rfl hFunction)
    (.cons (Field.read_of_read a r rfl rfl (v.read_dimensions r)) ?_)
  cases v.elementType with
  | none => exact .left .nil
  | some t =>
    have hType : (Json.str t.name).read r .elementType = .ok (.elementType t) :=
      map_eq_ok.mpr ⟨_, Json.unitVariant_name r t, rfl⟩
    exact .cons (Field.read_of_read a r rfl rfl hType) .nil

theorem VectorType.readVectorType_members (v : VectorType) :
    Node.readVectorType r (Json.objectNode (a.order (Json.arrangedMembers a v.members))) =
      .ok v := by
  obtain ⟨found, hRead, hAgree⟩ := Record.read_of_readsAs (by decide) (v.readsAs a r)
  exact bind_eq_ok.mpr ⟨found, hRead, by rw [ofSlots_congr hAgree, ofSlots_slots]⟩

/-- A description of a vector is read as itself. -/
theorem VectorType.read_toJson (v : VectorType) :
    (v.toJson.arranged a).read r .vectorType = .ok (.vectorType v) :=
  map_eq_ok.mpr ⟨v, v.readVectorType_members a r, rfl⟩

/-! ## Mappings -/

namespace Rendering

def form : Rendering → RenderingForm
  | .json => .json
  | .enumMember => .enumMember
  | .vector _ => .vector
  | .descriptor => .descriptor

/-- What is written of a rendering behind its form. -/
def fields : Rendering → List (String × Json)
  | .vector v => [("vector_type", v.toJson)]
  | _ => []

theorem members_eq (rendering : Rendering) :
    rendering.members = ("kind", .str rendering.form.name) :: rendering.fields := by
  cases rendering <;> rfl

theorem members_sound (rendering : Rendering) : Json.soundMembers rendering.members = true := by
  cases rendering with
  | vector v =>
    show (v.toJson.sound && true) = true
    rw [v.toJson_sound]
    rfl
  | _ => rfl

/-- A rendering is found among the members of its mapping. -/
theorem readRendering_of_perm (rendering : Rendering) {type : Child}
    {members : List (String × Child)}
    (hPerm : members.Perm (("clr_type", type) ::
      rendering.members.map fun m => (m.1, (m.2.arranged a).child)))
    (hNodup : (members.map Prod.fst).Nodup) :
    Node.readRendering members = .ok rendering := by
  obtain ⟨others, hDef⟩ :
      ∃ others, others = members.filter fun (m : String × Child) => m.1 != "clr_type" := ⟨_, rfl⟩
  -- without the type, only the members of the rendering are left
  have hOthers : others.Perm (rendering.members.map fun m => (m.1, (m.2.arranged a).child)) := by
    have hFilter := hPerm.filter fun (m : String × Child) => m.1 != "clr_type"
    rw [← hDef] at hFilter
    cases rendering <;> exact hFilter
  have hKeys : (others.map Prod.fst).Nodup := by
    rw [hDef]
    exact (List.filter_sublist.map Prod.fst).nodup hNodup
  have hTag : readTag .examined "kind" (.obj (others.map fun m => (m.1, m.2.json))) =
      .ok rendering.form := by
    refine readTag_of_mem (by rwa [List.map_map]) (Json.soundMembers_iff.mpr ?_) ?_
    · intro m hm
      obtain ⟨m', hm', rfl⟩ := List.mem_map.mp hm
      obtain ⟨m'', hm'', rfl⟩ := List.mem_map.mp (hOthers.mem_iff.mp hm')
      exact Json.sound_arranged a _ (Json.soundMembers_iff.mp rendering.members_sound m'' hm'')
    · rw [members_eq] at hOthers
      exact List.mem_map.mpr ⟨_, hOthers.mem_iff.mpr List.mem_cons_self, rfl⟩
  show (readTag .examined "kind" (.obj ((members.filter fun m => m.1 != "clr_type").map
    fun m => (m.1, m.2.json))) >>= _) = _
  rw [← hDef, hTag, ok_bind]
  -- only a vector has a field beside the tag
  cases rendering with
  | vector v =>
    have hReads : ReadsAs a .collected Record.ofVectorRendering.fields
        [("vector_type", v.toJson)] [("vector_type", .vectorType v)] :=
      .cons (Field.read_of_read a _ v.toJson_sound rfl (v.read_toJson a _)) .nil
    have hSplit : others.Perm ([("kind", (Json.str "Vector").child)] ++
        [("vector_type", v.toJson)].map fun m => (m.1, (m.2.arranged a).child)) := hOthers
    have hTagged : ∀ m ∈ [("kind", (Json.str "Vector").child)], some "kind" = some m.1 :=
      List.forall_mem_singleton.mpr rfl
    have hField : ∀ key ∈ [("vector_type", v.toJson)].map Prod.fst, some "kind" ≠ some key :=
      List.forall_mem_singleton.mpr (show some "kind" ≠ some "vector_type" by decide)
    obtain ⟨found, hRead, hAgree⟩ :=
      Record.readMembers_of_readsAs (by decide) hReads hSplit hKeys hTagged hField
    refine bind_eq_ok.mpr ⟨found, hRead, ?_⟩
    rw [Slots.require, hAgree.find?]
    rfl
  | _ => rfl

end Rendering

theorem Node.readMappingType_of_not_mem {found : Option DataType} {members : List (String × Child)}
    (hKey : "clr_type" ∉ members.map Prod.fst) (hSound : ∀ m ∈ members, m.2.json.sound = true) :
    readMappingType r found members = .ok found := by
  induction members with
  | nil => rfl
  | cons m ms ih =>
    obtain ⟨key, child⟩ := m
    rw [List.map_cons, List.mem_cons, not_or] at hKey
    obtain ⟨hFirst, hRest⟩ := List.forall_mem_cons.mp hSound
    unfold readMappingType
    rw [if_neg (Ne.symm hKey.1), Json.collect_of_sound hFirst, ok_bind]
    exact ih hKey.2 hRest

/-- The type of a mapping is found wherever it stands. -/
theorem Node.readMappingType_of_mem {t : DataType} {child : Child}
    {members : List (String × Child)} (hNodup : (members.map Prod.fst).Nodup)
    (hSound : ∀ m ∈ members, m.2.json.sound = true) (hMem : ("clr_type", child) ∈ members)
    (hChild : child.read r .dataType = .ok (.dataType t)) :
    readMappingType r none members = .ok (some t) := by
  induction members with
  | nil => cases hMem
  | cons m ms ih =>
    rw [List.map_cons, List.nodup_cons] at hNodup
    obtain ⟨hFirst, hRest⟩ := List.forall_mem_cons.mp hSound
    rcases List.mem_cons.mp hMem with rfl | hMem
    · rw [readMappingType, if_pos rfl, hChild]
      exact readMappingType_of_not_mem r hNodup.1 hRest
    · -- any other member is collected on the way
      have hNe : m.1 ≠ "clr_type" := fun hEq => hNodup.1 (hEq ▸ List.mem_map_of_mem hMem)
      rw [readMappingType, if_neg hNe, Json.collect_of_sound hFirst, ok_bind]
      exact ih hNodup.2 hRest hMem

theorem Node.readMapping_eq_ok {ms : List (String × Json)} {t : DataType} {rendering : Rendering}
    (hType : readMappingType r none (Json.keyedChildrenOf ms) = .ok (some t))
    (hRendering : readRendering (Json.keyedChildrenOf ms) = .ok rendering) :
    (Json.objectNode ms).readMapping r = .ok ⟨t, rendering⟩ := by
  show (readMappingType r none (Json.keyedChildrenOf ms) >>= _) = _
  rw [hType, ok_bind]
  show (readRendering (Json.keyedChildrenOf ms)).map _ = _
  rw [hRendering]
  rfl

/-- A mapping is read as itself. -/
theorem TypeMapping.read_toJson (m : TypeMapping) :
    (m.toJson.arranged a).read r .mapping = .ok (.mapping m) := by
  obtain ⟨type, rendering⟩ := m
  have hNodup : ((("clr_type", type.toJson) :: rendering.members).map Prod.fst).Nodup := by
    cases rendering <;> simp [Rendering.members]
  have hPerm := Json.perm_keyedChildren a hNodup
  have hKeys := Json.nodup_keyedChildren a hNodup
  refine map_eq_ok.mpr ⟨⟨type, rendering⟩, Node.readMapping_eq_ok r ?_ ?_, rfl⟩
  · refine Node.readMappingType_of_mem r hKeys ?_ (hPerm.mem_iff.mpr List.mem_cons_self)
      (type.read_toJson a r)
    intro m hm
    obtain ⟨m', hm', rfl⟩ := List.mem_map.mp (hPerm.mem_iff.mp hm)
    refine Json.sound_arranged a _ ?_
    rcases List.mem_cons.mp hm' with rfl | hRendering
    · exact type.toJson_sound
    · exact Json.soundMembers_iff.mp rendering.members_sound m' hRendering
  · exact rendering.readRendering_of_perm a hPerm hKeys

end DocumentQuery
