import DocumentQuery.Proofs.Document.Payload
import DocumentQuery.Proofs.Document.RearrangedParts

/-!
# Members of enumerations over empty objects

A member of an enumeration without payload is written by its name, or as an object with the
name as its only key and null under it. An empty object passes for null as well, but only where
the member has been collected before its enumeration was known, that is where it stands in
front of it. So whether an object with such a member is taken for a member of an enumeration
depends on the order of its keys.

Main definitions and results:

* `Value.Hollow`, `Value.Solid` — values that are such objects, and values without any.
* `Json.enumMember?_of_nodup` — what is taken for a member of an enumeration.
* `Json.readValue_varies` — values without such objects are read the same in whatever order
  the keys stand.
-/

namespace DocumentQuery

/-! ## Hollow objects -/

namespace Value

/-- The name by itself, or as the only key of an object, over null. -/
def Names (name : String) (v : Value) : Prop := v = .string name ∨ v = .object [(name, .null)]

/-- Under `enum` stands the name of an enumeration, and under `value` that of one of its
members, as the only key of an object and over an empty object. -/
def Hollow (entries : List (String × Value)) : Prop :=
  ∃ m : EnumMember, (∃ v, entries.lookup "enum" = some v ∧ Names m.dataType.name v) ∧
    entries.lookup "value" = some (.object [(m.name, .object [])])

mutual

/-- No object in the value is hollow. -/
def Solid : Value → Prop
  | .array items => SolidItems items
  | .object entries => ¬ Hollow entries ∧ SolidEntries entries
  | _ => True
termination_by structural v => v

def SolidItems : List Value → Prop
  | [] => True
  | v :: vs => v.Solid ∧ SolidItems vs
termination_by structural vs => vs

def SolidEntries : List (String × Value) → Prop
  | [] => True
  | (_, v) :: entries => v.Solid ∧ SolidEntries entries
termination_by structural entries => entries

end

theorem solidItems_iff {vs : List Value} : SolidItems vs ↔ AllHold Solid vs := by
  induction vs with
  | nil => simp [SolidItems, AllHold]
  | cons v vs ih =>
    rw [SolidItems, ih]
    exact List.forall_mem_cons.symm

theorem solidEntries_iff {entries : List (String × Value)} :
    SolidEntries entries ↔ AllHold Solid (entries.map Prod.snd) := by
  induction entries with
  | nil => simp [SolidEntries, AllHold]
  | cons e entries ih =>
    rw [SolidEntries, ih]
    exact List.forall_mem_cons.symm

end Value

namespace Json

/-- The name by itself, or as the only key of an object, over null. -/
def Names (name : String) (j : Json) : Prop := j = .str name ∨ j = .obj [(name, .null)]

/-- Under `enum` and `value` stand the names of an enumeration and of one of its members. -/
def Spells (m : EnumMember) (ms : List (String × Json)) : Prop :=
  (∃ j, ms.lookup "enum" = some j ∧ j.Names m.dataType.name) ∧
    ∃ j, ms.lookup "value" = some j ∧ j.Names m.name

/-- The name of the member stands over an empty object. -/
def HollowFor (m : EnumMember) (ms : List (String × Json)) : Prop :=
  (∃ j, ms.lookup "enum" = some j ∧ j.Names m.dataType.name) ∧
    ms.lookup "value" = some (.obj [(m.name, .obj [])])

/-- The members of an object that is read as a hollow one, unless it is taken for a member of
an enumeration. -/
def Hollow (ms : List (String × Json)) : Prop := ∃ m, HollowFor m ms

/-! ## Names -/

instance : LawfulNames EnumForm := ⟨by rintro ⟨⟩ <;> rfl⟩

theorem named?_eq_some_iff {α : Type} [Enumerated α] [LawfulNames α] {name : String} {x : α} :
    (Enumerated.named? name : Option α) = some x ↔ name = Enumerated.name x := by
  constructor
  · intro h
    have hFound := List.find?_some h
    exact (beq_iff_eq.mp hFound).symm
  · rintro rfl
    exact LawfulNames.named?_name x

theorem unitPayload_eq_ok_iff {r : Reading} {j : Json} :
    j.unitPayload r = .ok () ↔ j = .null ∨ (r.emptyIsUnit = true ∧ j = .obj []) := by
  cases j with
  | obj members => cases members <;> cases h : r.emptyIsUnit <;> simp [unitPayload, h]
  | _ => simp [unitPayload]

/-- A member is written by its name, over null if at all, or over an empty object where that
stands for null. -/
theorem unitVariant_eq_ok_iff {α : Type} [Enumerated α] [LawfulNames α] {r : Reading}
    (hr : r.fromText = false) {j : Json} {x : α} : j.unitVariant r = .ok x ↔
      j.Names (Enumerated.name x) ∨
        (r.emptyIsUnit = true ∧ j = .obj [(Enumerated.name x, .obj [])]) := by
  cases j with
  | str name =>
    have hRead : (Json.str name).unitVariant r = .ok x ↔ Enumerated.named? name = some x := by
      simp only [unitVariant, variant, ok_bind]
      cases (Enumerated.named? name : Option α) <;> simp
    simp [hRead, named?_eq_some_iff, Names]
  | obj members =>
    rcases members with _ | ⟨⟨key, payload⟩, _ | ⟨m, ms⟩⟩
    · simp [unitVariant, variant, Names]
    · have hRead : (obj [(key, payload)]).unitVariant r = .ok x ↔
          Enumerated.named? key = some x ∧ payload.unitPayload r = .ok () := by
        simp only [unitVariant, variant, variantOf, hr, Bool.false_eq_true, if_false, Except.map,
          ok_bind]
        cases (Enumerated.named? key : Option α) <;> cases payload.unitPayload r <;> simp
      rw [hRead, named?_eq_some_iff, unitPayload_eq_ok_iff]
      simp [Names, and_or_left, and_left_comm]
    · refine iff_of_false (fun h => unitVariant_of_several r _ m ms ⟨x, h⟩) ?_
      simp [Names]
  | torn members tail =>
    refine iff_of_false (fun h => ?_) (by simp [Names])
    obtain ⟨v, hVariant, -⟩ := bind_eq_ok.mp h
    rcases members with _ | ⟨_, _ | _⟩
    · cases tail <;> simp [variant] at hVariant
    · cases tail <;> simp [variant, variantOf, hr, Except.map] at hVariant
    · simp [variant, variantOf, hr, Except.map] at hVariant
  | _ => simp [unitVariant, variant, Names]

/-! ## What is taken for a member -/

theorem member_eq_ok_iff {form : EnumForm} {r : Reading} (hr : r.fromText = false) {j : Json}
    {m : EnumMember} : form.member r j = .ok m ↔ form.name = m.dataType.name ∧
      (j.Names m.name ∨ (r.emptyIsUnit = true ∧ j = .obj [(m.name, .obj [])])) := by
  cases form <;> cases m <;> simp only [EnumForm.member, map_eq_ok]
  case distanceFunction.distanceFunction f =>
    simp [unitVariant_eq_ok_iff hr, EnumForm.name, EnumMember.dataType, DataType.name,
      EnumMember.name, Enumerated.name]
  case vectorDataType.vectorDataType t =>
    simp [unitVariant_eq_ok_iff hr, EnumForm.name, EnumMember.dataType, DataType.name,
      EnumMember.name, Enumerated.name]
  -- the members of one enumeration are none of the other
  all_goals simp [EnumForm.name, EnumMember.dataType, DataType.name]

/-- What the parts of an object are taken for. -/
theorem enumMemberOf_eq_ok_iff {form j : Json} {r : Reading} (hr : r.fromText = false)
    {m : EnumMember} : enumMemberOf (form.child, j.child, r) = .ok m ↔
      form.Names m.dataType.name ∧
        (j.Names m.name ∨ (r.emptyIsUnit = true ∧ j = .obj [(m.name, .obj [])])) := by
  have hForm (e : EnumForm) : form.unitVariant .examined = .ok e ↔ form.Names e.name :=
    (unitVariant_eq_ok_iff rfl).trans (by simp [Reading.examined, Enumerated.name])
  simp only [enumMemberOf, bind_eq_ok, child, hForm, member_eq_ok_iff hr]
  constructor
  · rintro ⟨e, hNames, hName, hMember⟩
    exact ⟨hName ▸ hNames, hMember⟩
  · rintro ⟨hNames, hMember⟩
    cases m with
    | distanceFunction f => exact ⟨.distanceFunction, hNames, rfl, hMember⟩
    | vectorDataType t => exact ⟨.vectorDataType, hNames, rfl, hMember⟩

end Json

/-- The enumeration and the member are found under their keys; which comes first decides how
the member is read. -/
theorem enumParts?_of_nodup {α : Type} {ms : List (String × α)} (hNodup : (ms.map Prod.fst).Nodup) :
    (∃ form member r, enumParts? ms = some (form, member, r) ∧ ms.lookup "enum" = some form ∧
      ms.lookup "value" = some member ∧ (r = .examined ∨ r = .collected)) ∨
    enumParts? ms = none ∧ (ms.lookup "enum" = none ∨ ms.lookup "value" = none) := by
  have hLookup (key : String) (hKey : (key == "enum" || key == "value") = true) :
      ms.lookup key = (ms.filter fun m => m.1 == "enum" || m.1 == "value").lookup key :=
    ((lookup_filter (fun key => key == "enum" || key == "value") key).trans (if_pos hKey)).symm
  have hKeys : ((ms.filter fun m => m.1 == "enum" || m.1 == "value").map Prod.fst).Nodup :=
    (List.filter_sublist.map Prod.fst).nodup hNodup
  have hPart : ∀ m ∈ ms.filter fun m => m.1 == "enum" || m.1 == "value",
      m.1 = "enum" ∨ m.1 = "value" := fun m hm => by simpa using (List.mem_filter.mp hm).2
  unfold enumParts?
  rw [hLookup "enum" rfl, hLookup "value" rfl]
  clear hLookup
  generalize ms.filter (fun m => m.1 == "enum" || m.1 == "value") = parts at hKeys hPart ⊢
  rcases parts with _ | ⟨⟨key, a⟩, _ | ⟨⟨key', a'⟩, _ | ⟨⟨key'', a''⟩, rest⟩⟩⟩
  · exact .inr ⟨rfl, .inl rfl⟩
  · rcases hPart _ List.mem_cons_self with rfl | rfl
    · exact .inr ⟨rfl, .inr rfl⟩
    · exact .inr ⟨rfl, .inl rfl⟩
  · obtain ⟨hFirst, hSecond⟩ := List.forall_mem_cons.mp hPart
    rcases hFirst with rfl | rfl <;> rcases hSecond _ List.mem_cons_self with rfl | rfl
    · simp at hKeys
    · exact .inl ⟨a, a', .examined, rfl, rfl, rfl, .inl rfl⟩
    · exact .inl ⟨a', a, .collected, rfl, rfl, rfl, .inr rfl⟩
    · simp at hKeys
  · -- there are not three different keys among two
    obtain ⟨hFirst, hOthers⟩ := List.forall_mem_cons.mp hPart
    obtain ⟨hSecond, hOthers⟩ := List.forall_mem_cons.mp hOthers
    obtain ⟨hThird, -⟩ := List.forall_mem_cons.mp hOthers
    dsimp only at hFirst hSecond hThird
    rcases hFirst with rfl | rfl <;> rcases hSecond with rfl | rfl <;>
      rcases hThird with rfl | rfl <;> simp at hKeys

/-- In key order the enumeration comes before the member. -/
theorem enumParts?_of_ascending {α : Type} {ms : List (String × α)} (h : Keys.Ascending ms)
    {form member : α} {r : Reading} (hParts : enumParts? ms = some (form, member, r)) :
    r = .examined := by
  unfold enumParts? at hParts
  split at hParts
  · rw [Option.some.injEq, Prod.mk.injEq, Prod.mk.injEq] at hParts
    exact hParts.2.2.symm
  · rename_i hFilter
    have hAscends : Keys.Ascending [("value", _), ("enum", _)] := hFilter ▸ h.filter _
    have hLess : "value" < "enum" := (List.pairwise_cons.mp hAscends).1 _ List.mem_cons_self
    exact absurd hLess (by decide)
  · cases hParts

/-- Where `value` leads, the member comes before the enumeration. -/
theorem enumParts?_of_valueLeads {ms : List (String × Json)} (h : (Json.obj ms).ValueLeads)
    {form member : Json} {r : Reading} (hParts : enumParts? ms = some (form, member, r)) :
    r = .collected := by
  obtain ⟨⟨front, rest, rfl, hFront, hRest⟩, -⟩ := h
  unfold enumParts? at hParts
  split at hParts
  · rename_i form' member' hFilter
    rw [List.filter_append] at hFilter
    cases front with
    | nil =>
      rw [List.filter_nil, List.nil_append] at hFilter
      have hMem : ("value", member') ∈ [("enum", form'), ("value", member')] :=
        List.mem_cons_of_mem _ (List.mem_singleton_self _)
      rw [← hFilter] at hMem
      exact absurd rfl (hRest _ (List.mem_filter.mp hMem).1)
    | cons m front =>
      have hKey : m.1 = "value" := hFront m List.mem_cons_self
      rw [List.filter_cons_of_pos (by simp [hKey]), List.cons_append, List.cons.injEq] at hFilter
      rw [hFilter.1] at hKey
      exact absurd (show "enum" = "value" from hKey) (by decide)
  · rw [Option.some.injEq, Prod.mk.injEq, Prod.mk.injEq] at hParts
    exact hParts.2.2.symm
  · cases hParts

namespace Json

theorem enumMember?_eq_some_iff {ms : List (String × Json)} {m : EnumMember} :
    enumMember? ms = some m ↔ ∃ form member r, enumParts? ms = some (form, member, r) ∧
      form.Names m.dataType.name ∧
        (member.Names m.name ∨ (r.emptyIsUnit = true ∧ member = .obj [(m.name, .obj [])])) := by
  rw [enumMember?, toOption_eq_some, Node.readEnumMember_eq]
  simp only [objectNode, keyedChildrenOf_eq, enumParts?_map]
  cases hParts : enumParts? ms with
  | none => simp
  | some parts =>
    obtain ⟨form, member, r⟩ := parts
    simp only [Option.map_some, Option.elim_some,
      enumMemberOf_eq_ok_iff (enumParts?_eq_some hParts).2.2]
    constructor
    · rintro ⟨hForm, hMember⟩
      exact ⟨form, member, r, rfl, hForm, hMember⟩
    · rintro ⟨_, _, _, hEq, hForm, hMember⟩
      cases hEq
      exact ⟨hForm, hMember⟩

/-- The member is found before its enumeration. -/
def MemberFirst (ms : List (String × Json)) : Prop :=
  ∃ form member, enumParts? ms = some (form, member, .collected)

/-- A name over an empty object counts only where it is found first. -/
theorem enumMember?_of_nodup {ms : List (String × Json)} (hNodup : (ms.map Prod.fst).Nodup)
    {m : EnumMember} :
    enumMember? ms = some m ↔ Spells m ms ∨ (MemberFirst ms ∧ HollowFor m ms) := by
  rw [enumMember?_eq_some_iff]
  rcases enumParts?_of_nodup hNodup with ⟨form, member, r, hParts, hEnum, hValue, rfl | rfl⟩ |
    ⟨hNone, hMissing⟩
  · simp [Spells, MemberFirst, hParts, hEnum, hValue, Reading.examined, Reading.collected]
  · simp [Spells, MemberFirst, HollowFor, hParts, hEnum, hValue, Reading.collected,
      ← and_or_left]
  · rcases hMissing with hMissing | hMissing <;> simp [Spells, HollowFor, hNone, hMissing]

section SortKeys

variable {ms : List (String × Json)}

theorem memberFirst_of_valueLeads (hKeys : ((sortMembers ms).map Prod.fst).Nodup)
    (hLeads : (obj ms).ValueLeads) {m : EnumMember} (h : HollowFor m (sortMembers ms)) :
    MemberFirst (sortMembers ms) := by
  obtain ⟨⟨j, hEnum, -⟩, hValue⟩ := h
  rcases enumParts?_of_nodup hKeys with ⟨form, member, r, hParts, -⟩ | ⟨-, hMissing⟩
  · have hBefore := hParts
    rw [sortMembers_eq, enumParts?_map, Option.map_eq_some_iff] at hBefore
    obtain ⟨⟨form', member', r'⟩, hParts', hEq⟩ := hBefore
    rw [enumParts?_of_valueLeads hLeads hParts'] at hEq
    cases hEq
    exact ⟨_, _, hParts⟩
  · simp [hEnum, hValue] at hMissing

/-- Only a hollow object is taken for a member in one order and not in another: it never is
with its keys in order, and always where `value` leads. -/
theorem enumMember?_sortKeys (hKeyed : (obj ms).WellKeyed) :
    (enumMember? ms = enumMember? (Keys.ofList (sortMembers ms)) ∧
      ((obj ms).ValueLeads → ¬ Hollow (Keys.ofList (sortMembers ms)))) ∨
    (Hollow (Keys.ofList (sortMembers ms)) ∧
      enumMember? (Keys.ofList (sortMembers ms)) = none ∧ ∃ m, enumMember? ms = some m) := by
  have hKeys : ((sortMembers ms).map Prod.fst).Nodup := by
    rw [keys_sortMembers]
    exact (wellKeyed_obj_iff.mp hKeyed).1
  have hPerm := Keys.perm_ofList hKeys
  have hKeys₀ := (hPerm.map Prod.fst).nodup_iff.mpr hKeys
  have hLookup := lookup_eq_of_perm hPerm hKeys₀
  -- the lookups are the same in both orders, so that only what is found first may differ
  have hNotFirst : ¬ MemberFirst (Keys.ofList (sortMembers ms)) := by
    rintro ⟨form, member, hParts⟩
    cases enumParts?_of_ascending (Keys.ascending_ofList _) hParts
  have hSorted (m : EnumMember) : enumMember? (Keys.ofList (sortMembers ms)) = some m ↔
      Spells m (sortMembers ms) := by
    rw [enumMember?_of_nodup hKeys₀]
    simp only [Spells, hLookup, hNotFirst, false_and, or_false]
  have hHollow : Hollow (Keys.ofList (sortMembers ms)) ↔ Hollow (sortMembers ms) := by
    simp only [Hollow, HollowFor, hLookup]
  rw [hHollow, ← arrangedMembers_sorted,
    ← enumMember?_arrangedMembers .sorted hKeyed.distinct.2, arrangedMembers_sorted]
  by_cases h : MemberFirst (sortMembers ms) ∧ Hollow (sortMembers ms)
  · obtain ⟨hFirst, m, hm⟩ := h
    refine .inr ⟨⟨m, hm⟩, Option.eq_none_iff_forall_not_mem.mpr fun m' hm' => ?_, m,
      (enumMember?_of_nodup hKeys).mpr (.inr ⟨hFirst, hm⟩)⟩
    -- what stands over an empty object does not stand over null
    obtain ⟨-, j, hValue, hNames⟩ := (hSorted m').mp hm'
    obtain rfl := Option.some.inj (hm.2.symm.trans hValue)
    simp [Names] at hNames
  · refine .inl ⟨Option.ext fun m => ?_, fun hLeads hIs => ?_⟩
    · rw [enumMember?_of_nodup hKeys, hSorted]
      exact or_iff_left fun hm => h ⟨hm.1, m, hm.2⟩
    · obtain ⟨m, hm⟩ := hIs
      exact h ⟨memberFirst_of_valueLeads hKeys hLeads hm, m, hm⟩

end SortKeys

/-! ## What hollow objects are read of -/

section Values

theorem readValue_child (d : Json) : d.child.readValue = d.node.readValue := by
  have hRead : d.read .examined .value = d.node.readValue.map .value := by
    rw [read_eq_node]
    rfl
  show (d.read .examined .value >>= _) = _
  rw [hRead]
  cases d.node.readValue <;> rfl

/-- Whole numbers stay numbers. -/
theorem of_readValue_int {n : Int} {v : Value} (h : (int n).node.readValue = .ok v) :
    (∃ k, v = .int k) ∨ ∃ x, v = .float x := by
  unfold Node.readValue at h
  obtain ⟨-, -, h⟩ := bind_eq_ok.mp h
  dsimp only [node] at h
  split at h
  · exact .inl ⟨_, (Except.ok.inj h).symm⟩
  · exact .inr ⟨_, (Except.ok.inj h).symm⟩

/-- Nulls, strings and objects are read of such only. -/
theorem of_readValue {d : Json} (hSound : d.sound = true) {v : Value}
    (h : d.child.readValue = .ok v) :
    (v = .null → d = .null) ∧ (∀ s, v = .string s → d = .str s) ∧
      ∀ entries, v = .object entries →
        ∃ ms, d = .obj ms ∧ Node.readEntries (keyedChildrenOf ms) = .ok entries := by
  rw [readValue_child] at h
  cases d with
  | null | bool b | real x | str s =>
    obtain rfl := Except.ok.inj h
    simp
  | int n => rcases of_readValue_int h with ⟨k, rfl⟩ | ⟨x, rfl⟩ <;> simp
  | arr items =>
    obtain ⟨-, -, h⟩ := bind_eq_ok.mp h
    obtain ⟨vs, -, rfl⟩ := map_eq_ok.mp h
    simp
  | obj ms =>
    have hObject := (Node.readValue_object hSound).symm.trans h
    split at hObject
    · obtain rfl := Except.ok.inj hObject
      simp
    · split at hObject
      · obtain rfl := Except.ok.inj hObject
        simp
      · obtain ⟨entries, hEntries, rfl⟩ := map_eq_ok.mp hObject
        simpa using hEntries
  | _ => cases hSound

/-- A single member is not enough for the description of a vector. -/
theorem vectorType?_single (key : String) (j : Json) : vectorType? [(key, j)] = none := by
  cases hVector : vectorType? [(key, j)] with
  | none => rfl
  | some v =>
    have hNodup : ([(key, j)].map Prod.fst).Nodup := List.nodup_singleton key
    obtain ⟨slots, hSlots, hKeys, -⟩ := VectorType.exists_slots hNodup hVector
    have hSubset := VectorType.keys_subset hSlots
    rw [hKeys] at hSubset
    -- a description has at least two keys
    have hFunction : "distanceFunction" = key :=
      List.mem_singleton.mp (hSubset (by simp [VectorType.members]))
    have hDimensions : "dimensions" = key :=
      List.mem_singleton.mp (hSubset (by simp [VectorType.members]))
    exact absurd (hFunction.trans hDimensions.symm) (by decide)

/-- Nor for a member of an enumeration. -/
theorem enumMember?_single (key : String) (j : Json) : enumMember? [(key, j)] = none := by
  refine Option.eq_none_iff_forall_not_mem.mpr fun m hm => ?_
  obtain ⟨form, member, r, hParts, -⟩ := enumMember?_eq_some_iff.mp hm
  obtain ⟨hForm, hMember, -⟩ := enumParts?_eq_some hParts
  have hEnum := congrArg Prod.fst (List.mem_singleton.mp hForm)
  have hValue := congrArg Prod.fst (List.mem_singleton.mp hMember)
  exact absurd (show "enum" = "value" from hEnum.trans hValue.symm) (by decide)

theorem readEntries_single (key : String) (j : Json) :
    Node.readEntries (keyedChildrenOf [(key, j)]) =
      j.child.readValue.map fun v => [(key, v)] := by
  show (Node.readValues [j.child] >>= _) = _
  unfold Node.readValues
  rw [List.mapM_cons]
  show ((j.child.readValue >>= _) >>= _) = _
  cases j.child.readValue <;> rfl

/-- An object with a single member stays one. -/
theorem readValue_single {key : String} {j : Json} (hSound : j.sound = true) :
    (obj [(key, j)]).child.readValue = j.child.readValue.map fun v => .object [(key, v)] := by
  have hMembers : soundMembers [(key, j)] = true := by simp [soundMembers, hSound]
  rw [readValue_child]
  refine (Node.readValue_object hMembers).trans ?_
  rw [vectorType?_single, enumMember?_single]
  dsimp only
  rw [readEntries_single]
  cases j.child.readValue <;> rfl

theorem length_of_readEntries {ms : List (String × Json)} (hNodup : (ms.map Prod.fst).Nodup)
    {entries : List (String × Value)} (h : Node.readEntries (keyedChildrenOf ms) = .ok entries) :
    entries.length = ms.length := by
  obtain ⟨hAll, rfl⟩ := Node.readEntries_eq_ok_iff.mp h
  have hKeys := (Node.readValues_of_all hAll).2
  rw [keys_keyedChildrenOf] at hKeys
  have hLength := congrArg List.length hKeys
  rw [List.length_map, List.length_map] at hLength
  exact (Keys.perm_ofList (hKeys ▸ hNodup)).length_eq.trans hLength

theorem eq_single_of_readEntries {ms : List (String × Json)} (hNodup : (ms.map Prod.fst).Nodup)
    {key : String} {v : Value} (h : Node.readEntries (keyedChildrenOf ms) = .ok [(key, v)]) :
    ∃ j, ms = [(key, j)] ∧ j.child.readValue = .ok v := by
  obtain ⟨⟨k, j⟩, rfl⟩ := List.length_eq_one_iff.mp (length_of_readEntries hNodup h).symm
  rw [readEntries_single, map_eq_ok] at h
  obtain ⟨v', hValue, hEq⟩ := h
  cases hEq
  exact ⟨j, rfl, hValue⟩

section Names

variable {d : Json} (hKeyed : d.WellKeyed) (hSound : d.sound = true) {v : Value}
  (h : d.child.readValue = .ok v) (name : String)

include hKeyed hSound h

theorem names_iff : v.Names name ↔ d.Names name := by
  obtain ⟨-, hString, hObject⟩ := of_readValue hSound h
  constructor
  · rintro (rfl | rfl)
    · exact .inl (hString name rfl)
    · obtain ⟨ms, rfl, hEntries⟩ := hObject _ rfl
      obtain ⟨j, rfl, hNull⟩ := eq_single_of_readEntries (wellKeyed_obj_iff.mp hKeyed).1 hEntries
      have hj : j.sound = true := soundMembers_iff.mp hSound _ List.mem_cons_self
      rw [(of_readValue hj hNull).1 rfl]
      exact .inr rfl
  · rintro (rfl | rfl)
    · exact .inl (Except.ok.inj h).symm
    · rw [readValue_single rfl] at h
      exact .inr (Except.ok.inj h).symm

theorem eq_hollow_iff :
    v = .object [(name, .object [])] ↔ d = .obj [(name, .obj [])] := by
  obtain ⟨-, -, hObject⟩ := of_readValue hSound h
  constructor
  · rintro rfl
    obtain ⟨ms, rfl, hEntries⟩ := hObject _ rfl
    obtain ⟨hNodup, hParts⟩ := wellKeyed_obj_iff.mp hKeyed
    obtain ⟨j, rfl, hEmpty⟩ := eq_single_of_readEntries hNodup hEntries
    have hj : j.sound = true := soundMembers_iff.mp hSound _ List.mem_cons_self
    obtain ⟨ms, rfl, hNone⟩ := (of_readValue hj hEmpty).2.2 _ rfl
    have hms := (wellKeyed_obj_iff.mp (hParts _ List.mem_cons_self)).1
    rw [List.eq_nil_of_length_eq_zero (length_of_readEntries hms hNone).symm]
  · rintro rfl
    rw [readValue_single rfl] at h
    exact (Except.ok.inj h).symm

end Names

/-- The entries of an object are hollow if they are read of hollow members. -/
theorem hollow_iff {ms : List (String × Json)} (hKeyed : (obj ms).WellKeyed)
    (hSound : soundMembers ms = true) {entries : List (String × Value)}
    (h : Node.readEntries (keyedChildrenOf ms) = .ok entries) :
    Value.Hollow entries ↔ Hollow ms := by
  obtain ⟨hNodup, hParts⟩ := wellKeyed_obj_iff.mp hKeyed
  have hAll := (Node.readEntries_eq_ok_iff.mp h).1
  have hLookup (key : String) : entries.lookup key =
      (ms.lookup key).bind fun j => j.child.readValue.toOption := by
    rw [Node.lookup_of_readEntries (by rwa [keys_keyedChildrenOf]) h, keyedChildrenOf_eq,
      lookup_map child]
    cases ms.lookup key <;> rfl
  -- what stands under a key is read as the value under it
  have hRel (key : String) : Option.Rel
      (fun v j => j.WellKeyed ∧ j.sound = true ∧ j.child.readValue = .ok v)
      (entries.lookup key) (ms.lookup key) := by
    rw [hLookup]
    cases hj : ms.lookup key with
    | none => exact .none
    | some j =>
      have hMem := mem_of_lookup hj
      obtain ⟨v, hv⟩ := hAll (key, j.child) (by
        rw [keyedChildrenOf_eq]
        exact List.mem_map.mpr ⟨_, hMem, rfl⟩)
      rw [Option.bind_some, show j.child.readValue = .ok v from hv]
      exact .some ⟨hParts _ hMem, soundMembers_iff.mp hSound _ hMem, hv⟩
  refine exists_congr fun m => and_congr ?_ ?_
  · have hEnum := hRel "enum"
    generalize entries.lookup "enum" = x, ms.lookup "enum" = y at hEnum
    cases hEnum with
    | none => simp
    | some hv => simpa using names_iff hv.1 hv.2.1 hv.2.2 m.dataType.name
  · have hMember := hRel "value"
    generalize entries.lookup "value" = x, ms.lookup "value" = y at hMember
    cases hMember with
    | none => simp
    | some hv => simpa using eq_hollow_iff hv.1 hv.2.1 hv.2.2 m.name

end Values

/-! ## Every sound document is a value -/

theorem exists_readEntries {ms : List (String × Json)}
    (h : ∀ m ∈ ms, ∃ v, m.2.child.readValue = .ok v) :
    ∃ entries, Node.readEntries (keyedChildrenOf ms) = .ok entries := by
  refine ⟨_, Node.readEntries_eq_ok_iff.mpr ⟨?_, rfl⟩⟩
  rw [keyedChildrenOf_eq]
  exact List.forall_mem_map.mpr h

mutual

theorem exists_readValue : ∀ j : Json, j.sound = true → ∃ v, j.child.readValue = .ok v
  | .null, _ | .bool _, _ | .real _, _ | .str _, _ => ⟨_, rfl⟩
  | .int n, _ => by
    have hRead : (int n).node.readValue = if n < twoTo 63 then .ok (.int (Int64.ofInt n))
        else .ok (.float (UInt64.ofNat n.toNat).toFloat) := rfl
    rw [readValue_child, hRead]
    split <;> exact ⟨_, rfl⟩
  | .arr items, h => by
    obtain ⟨vs, hValues⟩ := exists_readValues items h
    have hCollect : (arr items).collect = .ok () := collect_of_sound h
    refine ⟨.array vs, ?_⟩
    rw [readValue_child]
    show ((arr items).collect >>= fun _ => (Node.readValues (childrenOf items)).map Value.array) = _
    rw [hCollect, hValues]
    rfl
  | .obj members, h => by
    obtain ⟨entries, hEntries⟩ := exists_readEntries (exists_readMember members h)
    rw [readValue_child]
    show ∃ v, (objectNode members).readValue = .ok v
    rw [Node.readValue_object h, hEntries]
    cases vectorType? members with
    | some v => exact ⟨_, rfl⟩
    | none => cases enumMember? members <;> exact ⟨_, rfl⟩
termination_by structural j => j

theorem exists_readValues : ∀ js : List Json, soundItems js = true →
    ∃ vs, Node.readValues (childrenOf js) = .ok vs
  | [], _ => ⟨[], rfl⟩
  | j :: js, h => by
    rw [soundItems, Bool.and_eq_true] at h
    obtain ⟨v, hFirst⟩ := exists_readValue j h.1
    obtain ⟨vs, hRest⟩ := exists_readValues js h.2
    exact ⟨v :: vs, Node.readValues_cons (Child.readValue_eq_ok.mp hFirst) hRest⟩
termination_by structural js => js

theorem exists_readMember : ∀ ms : List (String × Json), soundMembers ms = true →
    ∀ m ∈ ms, ∃ v, m.2.child.readValue = .ok v
  | [], _ => List.forall_mem_nil _
  | (_, j) :: ms, h => by
    rw [soundMembers, Bool.and_eq_true] at h
    exact List.forall_mem_cons.mpr ⟨exists_readValue j h.1, exists_readMember ms h.2⟩
termination_by structural ms => ms

end

/-! ## Values of rearranged documents -/

variable {shows : Prop}

theorem sound_of_readValue {j : Json} (h : j.complete = true) {v : Value}
    (hRead : j.node.readValue = .ok v) : j.sound = true := by
  obtain ⟨⟨⟩, hCollect, -⟩ := bind_eq_ok.mp hRead
  rw [json_node] at hCollect
  exact (collect_eq_ok_iff h).mp hCollect

theorem vectorType?_sortKeys {ms : List (String × Json)} (hKeyed : (obj ms).WellKeyed)
    {P : Value → Prop} (h : ∀ m ∈ ms, m.2.Varies shows P) :
    vectorType? (Keys.ofList (sortMembers ms)) = vectorType? ms := by
  have hRead := Node.readVectorType_sortKeys hKeyed (j := obj ms) h .examined
  refine Option.ext fun v => ?_
  rw [vectorType?, vectorType?, toOption_eq_some, toOption_eq_some]
  exact hRead.eq_ok_iff

/-- The members of a rearranged object that has a value. -/
theorem readObject_varies {ms : List (String × Json)} (hKeyed : (obj ms).WellKeyed)
    (hSound : soundMembers ms = true) (h : ∀ m ∈ ms, m.2.Varies shows Value.Solid)
    (hLeads : shows → (obj ms).ValueLeads) :
    Concurs (SameIf shows Value.Solid fun v => [v])
      (objectNode (Keys.ofList (sortMembers ms))).readValue (objectNode ms).readValue := by
  have hKeyed₀ : (obj (Keys.ofList (sortMembers ms))).WellKeyed := hKeyed.sortKeys
  have hSound₀ : soundMembers (Keys.ofList (sortMembers ms)) = true :=
    hKeyed.sound_sortKeys_iff.mpr hSound
  rw [Node.readValue_object hSound₀, Node.readValue_object hSound, vectorType?_sortKeys hKeyed h]
  cases vectorType? ms with
  | some v => exact .ok (.refl (List.forall_mem_singleton.mpr trivial))
  | none =>
    obtain ⟨entries₀, h₀⟩ := exists_readEntries (exists_readMember _ hSound₀)
    obtain ⟨entries, h', hEntries⟩ := (membersVary hKeyed h).readEntries.exists_right h₀
    have hHollow := hollow_iff hKeyed₀ hSound₀ h₀
    rcases enumMember?_sortKeys hKeyed with ⟨hSame, hNot⟩ | ⟨hIs, hNone, m, hm⟩
    · rw [hSame]
      cases enumMember? (Keys.ofList (sortMembers ms)) with
      | some m => exact .ok (.refl (List.forall_mem_singleton.mpr trivial))
      | none =>
        -- the object is kept in both orders, with entries that differ in their values at most
        dsimp only
        rw [h₀, h']
        refine .ok ⟨fun hAll => ?_, fun hShows hEq => ?_⟩
        · have hSolid := List.forall_mem_singleton.mp hAll
          rw [hEntries.same (Value.solidEntries_iff.mp hSolid.2)]
        · have hSolid := hEntries.holds hShows (Value.object.inj hEq)
          exact List.forall_mem_singleton.mpr ⟨fun hIs => hNot (hLeads hShows) (hHollow.mp hIs),
            Value.solidEntries_iff.mpr hSolid⟩
    · -- a hollow object is taken for a member once its keys are not in order
      rw [hNone, hm]
      dsimp only
      rw [h₀]
      refine .ok ⟨fun hAll => ?_, fun _ hEq => nomatch hEq⟩
      exact absurd (hHollow.mpr hIs) (List.forall_mem_singleton.mp hAll).1

/-- A value is read the same in whatever order the keys stand, if no object in it is hollow;
and only then, if `value` leads in one of the orders. -/
theorem readValue_varies {j : Json} (hKeyed : j.WellKeyed)
    (h : j.PartsVary shows Value.Solid) (hLeads : shows → j.ValueLeads) :
    Concurs (SameIf shows Value.Solid fun v => [v]) j.sortKeys.node.readValue
      j.node.readValue := by
  by_cases hSound : j.sound = true
  · cases j with
    | obj ms => exact readObject_varies hKeyed hSound h hLeads
    | arr items =>
      refine (collect_sortKeys hKeyed).bind fun _ _ _ => ?_
      refine (Node.readValues_varies (forall₂_childrenOf h)).map fun vs₀ vs hvs => ?_
      refine ⟨fun hAll => ?_, fun hShows hEq => ?_⟩
      · have hSolid := List.forall_mem_singleton.mp hAll
        rw [hvs.same (Value.solidItems_iff.mp hSolid)]
      · have hSolid := hvs.holds hShows (Value.array.inj hEq)
        exact List.forall_mem_singleton.mpr (Value.solidItems_iff.mpr hSolid)
    | int n =>
      refine .refl fun v hRead => .refl (List.forall_mem_singleton.mpr ?_)
      rcases of_readValue_int hRead with ⟨k, rfl⟩ | ⟨x, rfl⟩ <;> trivial
    | null | bool b | real x | str s =>
      refine .refl fun v hRead => .refl (List.forall_mem_singleton.mpr ?_)
      exact Except.ok.inj hRead ▸ trivial
    | _ => cases hSound
  · -- what has no value is read as none in any order
    have hFails {j : Json} (hComplete : j.complete = true) (hSound : ¬ j.sound = true) :
        ¬ ∃ v, j.node.readValue = .ok v := by
      rintro ⟨v, hRead⟩
      exact hSound (sound_of_readValue hComplete hRead)
    exact .of_failures (hFails hKeyed.sortKeys.complete (hKeyed.sound_sortKeys_iff.not.mpr hSound))
      (hFails hKeyed.complete hSound)

end Json

end DocumentQuery
