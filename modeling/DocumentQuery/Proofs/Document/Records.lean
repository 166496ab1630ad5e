import DocumentQuery.Proofs.Document.Descriptors
import DocumentQuery.Proofs.Json.Arrangement
import DocumentQuery.Proofs.Outcome

/-!
# Records that are read again

A record is written as an object with the fields in their order, some of which may be
left out. When such an object is read, in whatever order its members stand by then,
every field is found under its key, and nothing else is.

Main definitions and results:

* `ReadsAs` — members that stand for fields, and what is read for each of them.
* `Record.read_of_readsAs`, `Record.readBeside_of_readsAs` — the record is read as what
  its members are read as.
* `readTagged_of_readsAs` — so is a record with a tag.
* `Record.exists_of_readMembers` — what is read of a closed record.
-/

namespace DocumentQuery

namespace Json

/-! ## Nodes of documents -/

/-- A document with its reader. -/
def child (j : Json) : Child := ⟨j, j.read⟩

theorem keyedChildrenOf_eq (ms : List (String × Json)) :
    keyedChildrenOf ms = ms.map fun m => (m.1, m.2.child) := by
  induction ms with
  | nil => rfl
  | cons m ms ih => rw [keyedChildrenOf, ih, List.map_cons, child]

theorem keys_keyedChildrenOf (ms : List (String × Json)) :
    (keyedChildrenOf ms).map Prod.fst = ms.map Prod.fst := by
  rw [keyedChildrenOf_eq, List.map_map]
  rfl

/-- An object with the readers of its members. -/
def objectNode (ms : List (String × Json)) : Node :=
  { json := .obj ms, members := keyedChildrenOf ms }

theorem read_obj (ms : List (String × Json)) (r : Reading) (kind : Kind) :
    (Json.obj ms).read r kind = (objectNode ms).read r kind := rfl

section Arranged

variable (a : Arrangement) {ms : List (String × Json)} (hNodup : (ms.map Prod.fst).Nodup)

include hNodup

theorem perm_keyedChildren :
    (keyedChildrenOf (a.order (arrangedMembers a ms))).Perm
      (ms.map fun m => (m.1, (m.2.arranged a).child)) := by
  have hPerm := a.perm (arrangedMembers a ms) (by rwa [keys_arrangedMembers])
  rw [keyedChildrenOf_eq]
  rw [arrangedMembers_eq] at hPerm ⊢
  have hMap := hPerm.map fun m => (m.1, m.2.child)
  rwa [List.map_map] at hMap

theorem nodup_keyedChildren :
    ((keyedChildrenOf (a.order (arrangedMembers a ms))).map Prod.fst).Nodup := by
  refine ((perm_keyedChildren a hNodup).map Prod.fst).nodup_iff.mpr ?_
  rwa [List.map_map]

end Arranged

/-! ## Sound documents have no faults -/

mutual

theorem firstFault_of_sound (wanted : Bool) :
    ∀ j : Json, j.sound = true → j.firstFault wanted = none
  | .arr items, h => firstFaultOfItems_of_sound wanted items h
  | .obj members, h => firstFaultOfMembers_of_sound wanted members h
  | .null, _ | .bool _, _ | .int _, _ | .real _, _ | .str _, _ => rfl
termination_by structural j => j

theorem firstFaultOfItems_of_sound (wanted : Bool) :
    ∀ js : List Json, soundItems js = true → firstFaultOfItems wanted js = none
  | [], _ => rfl
  | j :: js, h => by
    rw [soundItems, Bool.and_eq_true] at h
    rw [firstFaultOfItems, firstFault_of_sound wanted j h.1,
      firstFaultOfItems_of_sound wanted js h.2]
    rfl
termination_by structural js => js

theorem firstFaultOfMembers_of_sound (wanted : Bool) :
    ∀ ms : List (String × Json), soundMembers ms = true → firstFaultOfMembers wanted ms = none
  | [], _ => rfl
  | (_, j) :: ms, h => by
    rw [soundMembers, Bool.and_eq_true] at h
    rw [firstFaultOfMembers, firstFault_of_sound wanted j h.1,
      firstFaultOfMembers_of_sound wanted ms h.2]
    rfl
termination_by structural ms => ms

end

theorem collect_of_sound {j : Json} (h : j.sound = true) : j.collect = .ok () := by
  rw [collect, firstFault_of_sound true j h]

end Json

/-! ## Members that stand for fields -/

/-- Members that stand for fields in their order, some fields being left out, and what
is read for them once they are arranged. -/
inductive ReadsAs (a : Arrangement) (r : Reading) :
    List Field → List (String × Json) → Slots → Prop where
  | nil : ReadsAs a r [] [] []
  | left {field : Field} {fields : List Field} {ms : List (String × Json)} {slots : Slots}
      (h : ReadsAs a r fields ms slots) : ReadsAs a r (field :: fields) ms slots
  | cons {field : Field} {fields : List Field} {j : Json} {slot : Slot}
      {ms : List (String × Json)} {slots : Slots}
      (hRead : field.read r (j.arranged a).child = .ok slot) (h : ReadsAs a r fields ms slots) :
      ReadsAs a r (field :: fields) ((field.key, j) :: ms) ((field.key, slot) :: slots)

namespace ReadsAs

variable {a : Arrangement} {r : Reading} {fields : List Field} {ms : List (String × Json)}
  {slots : Slots}

theorem keys_eq (h : ReadsAs a r fields ms slots) : ms.map Prod.fst = slots.map Prod.fst := by
  induction h with
  | nil => rfl
  | left _ ih => exact ih
  | cons _ _ ih => rw [List.map_cons, List.map_cons, ih]

theorem keys_sublist (h : ReadsAs a r fields ms slots) :
    List.Sublist (ms.map Prod.fst) (fields.map Field.key) := by
  induction h with
  | nil => exact List.Sublist.refl _
  | left _ ih => exact ih.cons _
  | cons _ _ ih => exact ih.cons_cons _

/-- Every member stands for the field of its key. -/
theorem exists_field (h : ReadsAs a r fields ms slots) (hNodup : (fields.map Field.key).Nodup) :
    ∀ m ∈ ms, ∃ field slot, (fields.find? fun field => field.key == m.1) = some field ∧
      field.read r (m.2.arranged a).child = .ok slot ∧ slots.lookup m.1 = some slot := by
  induction h with
  | nil => nofun
  | @left field fields ms slots h ih =>
    rw [List.map_cons, List.nodup_cons] at hNodup
    intro m hm
    obtain ⟨found, slot, hFound, hRest⟩ := ih hNodup.2 m hm
    -- the field that is left out has another key
    have hNe : (field.key == m.1) = false := by
      rw [beq_eq_false_iff_ne]
      intro hEq
      exact hNodup.1 (hEq ▸ h.keys_sublist.subset (List.mem_map_of_mem hm))
    exact ⟨found, slot, by rw [List.find?_cons, hNe]; exact hFound, hRest⟩
  | @cons field fields j slot ms slots hRead h ih =>
    rw [List.map_cons, List.nodup_cons] at hNodup
    intro m hm
    rcases List.mem_cons.mp hm with rfl | hMem
    · exact ⟨field, slot, by simp, hRead, by simp⟩
    · obtain ⟨found, slot', hFound, hRest, hLookup⟩ := ih hNodup.2 m hMem
      have hNe : field.key ≠ m.1 := fun hEq =>
        hNodup.1 (hEq ▸ h.keys_sublist.subset (List.mem_map_of_mem hMem))
      refine ⟨found, slot', ?_, hRest, ?_⟩
      · rw [List.find?_cons, beq_eq_false_iff_ne.mpr hNe]
        exact hFound
      · rw [List.lookup_cons, beq_eq_false_iff_ne.mpr (Ne.symm hNe)]
        exact hLookup

end ReadsAs

/-- What was read for each field is the same. -/
def Slots.Agree (slots slots' : Slots) : Prop := ∀ key, slots.lookup key = slots'.lookup key

theorem Slots.Agree.find? {slots slots' : Slots} (h : slots.Agree slots') {α : Type}
    (key : String) (pick : Slot → Option α) : slots.find? key pick = slots'.find? key pick := by
  rw [Slots.find?, Slots.find?, h key]

theorem lookup_eq_none_of_not_mem {α : Type} {entries : List (String × α)} {key : String}
    (h : key ∉ entries.map Prod.fst) : entries.lookup key = none := by
  rw [List.lookup_eq_none_iff]
  intro entry hEntry
  rw [bne_iff_ne]
  rintro rfl
  exact h (List.mem_map_of_mem hEntry)

theorem lookup_of_mem {α : Type} {entries : List (String × α)} {key : String} {a : α}
    (hNodup : (entries.map Prod.fst).Nodup) (h : (key, a) ∈ entries) :
    entries.lookup key = some a := by
  obtain ⟨before, after, rfl⟩ := List.append_of_mem h
  refine List.lookup_eq_some_iff.mpr ⟨before, after, rfl, fun entry hEntry => ?_⟩
  rw [List.map_append, List.nodup_append] at hNodup
  exact bne_iff_ne.mpr
    (hNodup.2.2 _ (List.mem_map_of_mem hEntry) _ (List.mem_map_of_mem List.mem_cons_self)).symm

theorem mem_of_lookup {α : Type} {entries : List (String × α)} {key : String} {a : α}
    (h : entries.lookup key = some a) : (key, a) ∈ entries := by
  obtain ⟨before, after, rfl, -⟩ := List.lookup_eq_some_iff.mp h
  exact List.mem_append_right _ List.mem_cons_self

/-! ## Reading members in any order -/

namespace Record

variable {record : Record} {r : Reading} {tag : Option String}

/-- Members with different keys are read one by one. -/
theorem readMembers_of_fields {slots : Slots} {members : List (String × Child)} {seen : Slots}
    (hNodup : (members.map Prod.fst).Nodup) (hSeen : ∀ m ∈ members, seen.lookup m.1 = none)
    (hMembers : ∀ m ∈ members, (tag = some m.1 ∧ slots.lookup m.1 = none) ∨
      (tag ≠ some m.1 ∧ ∃ field slot, record.field? m.1 = some field ∧
        field.read r m.2 = .ok slot ∧ slots.lookup m.1 = some slot)) :
    ∃ found, record.readMembers r tag seen members = .ok (seen ++ found) ∧
      (∀ m ∈ members, found.lookup m.1 = slots.lookup m.1) ∧
      ∀ key, key ∉ members.map Prod.fst → found.lookup key = none := by
  induction members generalizing seen with
  | nil => exact ⟨[], by rw [readMembers, List.append_nil], nofun, fun _ _ => rfl⟩
  | cons member rest ih =>
    obtain ⟨key, child⟩ := member
    rw [List.map_cons, List.nodup_cons] at hNodup
    obtain ⟨hFirst, hRest⟩ := List.forall_mem_cons.mp hMembers
    obtain ⟨hNew, hSeen⟩ := List.forall_mem_cons.mp hSeen
    dsimp only at hFirst hNew hNodup
    rw [readMembers]
    rcases hFirst with ⟨hTag, hNone⟩ | ⟨hTag, field, slot, hField, hSlot, hLookup⟩
    · -- the tag is passed over
      obtain ⟨found, hRead, hFound, hOther⟩ := ih hNodup.2 hSeen hRest
      rw [if_pos hTag]
      refine ⟨found, hRead, List.forall_mem_cons.mpr ⟨?_, hFound⟩, fun key' hKey => ?_⟩
      · exact (hOther key hNodup.1).trans hNone.symm
      · rw [List.map_cons, List.mem_cons, not_or] at hKey
        exact hOther key' hKey.2
    · have hNe : ∀ m ∈ rest, m.1 ≠ key := fun m hm hEq =>
        hNodup.1 (hEq ▸ List.mem_map_of_mem hm)
      have hSeen' : ∀ m ∈ rest, (seen ++ [(key, slot)]).lookup m.1 = none := by
        intro m hm
        rw [List.lookup_append, hSeen m hm, List.lookup_cons, beq_eq_false_iff_ne.mpr (hNe m hm)]
        rfl
      obtain ⟨found, hRead, hFound, hOther⟩ := ih hNodup.2 hSeen' hRest
      refine ⟨(key, slot) :: found, ?_, List.forall_mem_cons.mpr ⟨?_, fun m hm => ?_⟩,
        fun key' hKey => ?_⟩
      · rw [if_neg hTag, hField, hNew]
        refine bind_eq_ok.mpr ⟨slot, hSlot, ?_⟩
        rw [hRead, List.append_assoc]
        rfl
      · rw [List.lookup_cons_self, hLookup]
      · rw [List.lookup_cons, beq_eq_false_iff_ne.mpr (hNe m hm)]
        exact hFound m hm
      · rw [List.map_cons, List.mem_cons, not_or] at hKey
        rw [List.lookup_cons, beq_eq_false_iff_ne.mpr hKey.1]
        exact hOther key' hKey.2

/-- Of a closed record every member is read, each as the field of its key. -/
theorem exists_of_readMembers (hClosed : record.closed = true)
    {members : List (String × Child)} {seen slots : Slots}
    (h : record.readMembers r none seen members = .ok slots) :
    ∃ found, slots = seen ++ found ∧ found.map Prod.fst = members.map Prod.fst ∧
      ∀ m ∈ members, ∃ field slot, record.field? m.1 = some field ∧
        field.read r m.2 = .ok slot ∧ (m.1, slot) ∈ found := by
  induction members generalizing seen with
  | nil =>
    rw [readMembers, Except.ok.injEq] at h
    exact ⟨[], by rw [List.append_nil, h], rfl, nofun⟩
  | cons member rest ih =>
    obtain ⟨key, child⟩ := member
    rw [readMembers, if_neg (Option.some_ne_none key).symm] at h
    cases hField : record.field? key with
    | none =>
      -- a closed record tolerates no other key
      rw [hField, if_pos hClosed] at h
      cases h
    | some field =>
      rw [hField] at h
      dsimp only at h
      split at h
      · cases h
      · -- the field is new, and what is read of it comes first among what is found
        obtain ⟨slot, hSlot, hRest⟩ := bind_eq_ok.mp h
        obtain ⟨found, rfl, hKeys, hFound⟩ := ih hRest
        refine ⟨(key, slot) :: found, by rw [List.append_assoc]; rfl, ?_, ?_⟩
        · rw [List.map_cons, List.map_cons, hKeys]
        · refine List.forall_mem_cons.mpr ⟨⟨field, slot, hField, hSlot, List.mem_cons_self⟩, ?_⟩
          intro m hm
          obtain ⟨field', slot', hField', hSlot', hMem⟩ := hFound m hm
          exact ⟨field', slot', hField', hSlot', List.mem_cons_of_mem _ hMem⟩

variable {a : Arrangement} {ms : List (String × Json)} {slots : Slots}

/-- Members that stand for fields, with or without a tag among them, in any order. -/
theorem readMembers_of_readsAs (hFields : (record.fields.map Field.key).Nodup)
    (h : ReadsAs a r record.fields ms slots) {members others : List (String × Child)}
    (hPerm : members.Perm (others ++ ms.map fun m => (m.1, (m.2.arranged a).child)))
    (hNodup : (members.map Prod.fst).Nodup) (hOthers : ∀ m ∈ others, tag = some m.1)
    (hTag : ∀ key ∈ ms.map Prod.fst, tag ≠ some key) :
    ∃ found, record.readMembers r tag [] members = .ok found ∧ found.Agree slots := by
  have hMembers : ∀ m ∈ members, (tag = some m.1 ∧ slots.lookup m.1 = none) ∨
      (tag ≠ some m.1 ∧ ∃ field slot, record.field? m.1 = some field ∧
        field.read r m.2 = .ok slot ∧ slots.lookup m.1 = some slot) := by
    intro m hm
    rcases List.mem_append.mp (hPerm.mem_iff.mp hm) with hOther | hField
    · refine Or.inl ⟨hOthers m hOther, lookup_eq_none_of_not_mem ?_⟩
      rw [← h.keys_eq]
      exact fun hMem => hTag _ hMem (hOthers m hOther)
    · -- the members for the fields do not have the key of the tag
      obtain ⟨m', hm', rfl⟩ := List.mem_map.mp hField
      exact Or.inr ⟨hTag _ (List.mem_map_of_mem hm'), h.exists_field hFields m' hm'⟩
  have hSeen : ∀ m ∈ members, ([] : Slots).lookup m.1 = none := fun _ _ => rfl
  obtain ⟨found, hRead, hFound, hOther⟩ := readMembers_of_fields hNodup hSeen hMembers
  refine ⟨found, hRead, fun key => ?_⟩
  by_cases hKey : key ∈ members.map Prod.fst
  · obtain ⟨m, hm, rfl⟩ := List.mem_map.mp hKey
    exact hFound m hm
  · -- a key that no member has is not among those that were read either
    rw [hOther key hKey, lookup_eq_none_of_not_mem]
    rw [← h.keys_eq]
    intro hMem
    obtain ⟨m, hm, rfl⟩ := List.mem_map.mp hMem
    refine hKey ((hPerm.map Prod.fst).mem_iff.mpr ?_)
    rw [List.map_append, List.map_map]
    exact List.mem_append_right _ (List.mem_map_of_mem (f := Prod.fst) hm)

/-- A record is read as what its members are read as. -/
theorem read_of_readsAs (hFields : (record.fields.map Field.key).Nodup)
    (h : ReadsAs a r record.fields ms slots) :
    ∃ found, record.read r (Json.objectNode (a.order (Json.arrangedMembers a ms))) = .ok found ∧
      found.Agree slots := by
  have hNodup : (ms.map Prod.fst).Nodup := h.keys_sublist.nodup hFields
  have hPerm : List.Perm _ (([] : List (String × Child)) ++ _) := Json.perm_keyedChildren a hNodup
  exact readMembers_of_readsAs hFields h hPerm (Json.nodup_keyedChildren a hNodup) nofun
    fun _ _ => nofun

/-- So is what a tagged record holds beside its tag. -/
theorem readBeside_of_readsAs {tag : String} (hFields : (tag :: record.fields.map Field.key).Nodup)
    (h : ReadsAs a .collected record.fields ms slots) (j : Json) :
    ∃ found, record.readBeside tag
        (Json.objectNode (a.order (Json.arrangedMembers a ((tag, j) :: ms)))) = .ok found ∧
      found.Agree slots := by
  have hNodup : (((tag, j) :: ms).map Prod.fst).Nodup :=
    (h.keys_sublist.cons_cons tag).nodup hFields
  have hPerm : List.Perm _ ([(tag, (j.arranged a).child)] ++ _) :=
    Json.perm_keyedChildren a hNodup
  refine readMembers_of_readsAs (List.nodup_cons.mp hFields).2 h hPerm
    (Json.nodup_keyedChildren a hNodup) ?_ ?_
  · rintro m hm
    rw [List.mem_singleton.mp hm]
  · rintro key hKey hEq
    rw [List.map_cons, List.nodup_cons] at hNodup
    exact hNodup.1 (Option.some.inj hEq ▸ hKey)

end Record

/-! ## Tags -/

section Tags

variable {α : Type} [Enumerated α] {r : Reading} {key : String} {members : List (String × Json)}

theorem tagAmong_of_not_mem (found : Option α) (hKey : key ∉ members.map Prod.fst)
    (hSound : Json.soundMembers members = true) : tagAmong r key found members = .ok found := by
  induction members with
  | nil => rfl
  | cons m ms ih =>
    obtain ⟨k, j⟩ := m
    rw [List.map_cons, List.mem_cons, not_or] at hKey
    rw [Json.soundMembers, Bool.and_eq_true] at hSound
    unfold tagAmong
    rw [if_neg (Ne.symm hKey.1), Json.collect_of_sound hSound.1]
    exact ih hKey.2 hSound.2

variable [LawfulNames α]

theorem tagOf_name (r : Reading) (x : α) : tagOf r (.str (Enumerated.name x)) = .ok x := by
  rw [tagOf, LawfulNames.named?_name]

/-- The tag is found wherever it stands. -/
theorem readTag_of_mem {x : α} (hNodup : (members.map Prod.fst).Nodup)
    (hSound : Json.soundMembers members = true)
    (hMem : (key, .str (Enumerated.name x)) ∈ members) :
    readTag r key (.obj members) = .ok x := by
  have hAmong : tagAmong r key none members = .ok (some x) := by
    induction members with
    | nil => cases hMem
    | cons m ms ih =>
      rw [List.map_cons, List.nodup_cons] at hNodup
      rw [Json.soundMembers, Bool.and_eq_true] at hSound
      rcases List.mem_cons.mp hMem with rfl | hRest
      · -- behind the tag there is no second one
        rw [tagAmong, if_pos rfl, tagOf_name]
        exact tagAmong_of_not_mem (some x) hNodup.1 hSound.2
      · have hNe : m.1 ≠ key := fun hEq => hNodup.1 (hEq ▸ List.mem_map_of_mem hRest)
        rw [tagAmong, if_neg hNe, Json.collect_of_sound hSound.1]
        exact ih hNodup.2 hSound.2 hRest
  rw [readTag, hAmong]
  rfl

theorem readTag_arranged (a : Arrangement) {x : α}
    (hNodup : (members.map Prod.fst).Nodup) (hSound : Json.soundMembers members = true)
    (hMem : (key, .str (Enumerated.name x)) ∈ members) :
    readTag r key (.obj (a.order (Json.arrangedMembers a members))) = .ok x := by
  have hKeys : ((Json.arrangedMembers a members).map Prod.fst).Nodup := by
    rwa [Json.keys_arrangedMembers]
  have hPerm := a.perm _ hKeys
  refine readTag_of_mem ((hPerm.map Prod.fst).nodup_iff.mpr hKeys)
    (Json.sound_arranged a (.obj members) hSound) (hPerm.mem_iff.mpr ?_)
  rw [Json.arrangedMembers_eq]
  exact List.mem_map.mpr ⟨_, hMem, rfl⟩

/-- A tagged record is read as what its members are read as. -/
theorem readTagged_of_readsAs (a : Arrangement) (r : Reading) (tag : String) (x : α)
    {record : Record} {ms : List (String × Json)} {slots : Slots}
    (hKeys : (tag :: record.fields.map Field.key).Nodup) (hSound : Json.soundMembers ms = true)
    (h : ReadsAs a .collected record.fields ms slots) :
    ∃ found, readTag r tag (.obj (a.order (Json.arrangedMembers a
        ((tag, .str (Enumerated.name x)) :: ms)))) = .ok x ∧
      record.readBeside tag (Json.objectNode (a.order (Json.arrangedMembers a
        ((tag, .str (Enumerated.name x)) :: ms)))) = .ok found ∧ found.Agree slots := by
  obtain ⟨found, hRead, hAgree⟩ :=
    Record.readBeside_of_readsAs hKeys h (.str (Enumerated.name x))
  have hNodup := (h.keys_sublist.cons_cons tag).nodup hKeys
  exact ⟨found, readTag_arranged a hNodup hSound List.mem_cons_self, hRead, hAgree⟩

end Tags

end DocumentQuery
