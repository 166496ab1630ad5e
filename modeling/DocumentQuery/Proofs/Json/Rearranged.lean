import DocumentQuery.Document.Error
import DocumentQuery.Proofs.Json.Arrangement

/-!
# Documents that differ in the order of members

Two documents say the same if one comes from the other by rearranging the members of some of
its objects, at any depth. Where no object has a key twice they are the same document once
all objects are in key order, so that they can be compared by way of it.

Main definitions and results:

* `Json.WellKeyed` — a document that has been written to its end, without repeated keys.
* `Json.Rearranged` — another order of members, in any of the objects.
* `Json.Rearranged.same` — rearranged documents are the same in key order.
* `Json.ValueLeads` — the member `value` comes before the member `enum`.
-/

namespace DocumentQuery.Json

/-! ## Whole documents -/

mutual

/-- The text of the document does not break off. Parts of the document may lack a value. -/
def complete : Json → Bool
  | .arr items => completeItems items
  | .obj members => completeMembers members
  | .torn _ _ | .broken _ | .unkeyed _ _ => false
  | _ => true
termination_by structural j => j

def completeItems : List Json → Bool
  | [] => true
  | j :: js => j.complete && completeItems js
termination_by structural js => js

def completeMembers : List (String × Json) → Bool
  | [] => true
  | (_, j) :: ms => j.complete && completeMembers ms
termination_by structural ms => ms

end

/-- The document is complete, and no object in it has a key twice. -/
structure WellKeyed (j : Json) : Prop where
  complete : j.complete = true
  distinct : j.DistinctKeys

mutual

/-- Nothing breaks off in a sound document. -/
theorem complete_of_sound : ∀ j : Json, j.sound = true → j.complete = true
  | .arr items, h => completeItems_of_sound items h
  | .obj members, h => completeMembers_of_sound members h
  | .null, _ | .bool _, _ | .int _, _ | .real _, _ | .str _, _ => rfl
termination_by structural j => j

theorem completeItems_of_sound : ∀ js : List Json, soundItems js = true → completeItems js = true
  | [], _ => rfl
  | j :: js, h => by
    obtain ⟨hFirst, hRest⟩ := soundItems_cons h
    rw [completeItems, complete_of_sound j hFirst, completeItems_of_sound js hRest]
    rfl
termination_by structural js => js

theorem completeMembers_of_sound :
    ∀ ms : List (String × Json), soundMembers ms = true → completeMembers ms = true
  | [], _ => rfl
  | (key, j) :: ms, h => by
    obtain ⟨hFirst, hRest⟩ := soundMembers_cons h
    rw [completeMembers, complete_of_sound j hFirst, completeMembers_of_sound ms hRest]
    rfl
termination_by structural ms => ms

end

theorem completeItems_iff {js : List Json} :
    completeItems js = true ↔ ∀ j ∈ js, j.complete = true := by
  induction js with
  | nil => simp [completeItems]
  | cons j js ih => simp [completeItems, ih]

theorem completeMembers_iff {ms : List (String × Json)} :
    completeMembers ms = true ↔ ∀ m ∈ ms, m.2.complete = true := by
  induction ms with
  | nil => simp [completeMembers]
  | cons m ms ih => simp [completeMembers, ih]

theorem distinctKeysInItems_iff {js : List Json} :
    DistinctKeysInItems js ↔ ∀ j ∈ js, j.DistinctKeys := by
  induction js with
  | nil => simp [DistinctKeysInItems]
  | cons j js ih => simp [DistinctKeysInItems, ih]

theorem wellKeyed_arr_iff {items : List Json} :
    (arr items).WellKeyed ↔ ∀ j ∈ items, j.WellKeyed := by
  constructor
  · rintro ⟨hComplete, hDistinct⟩ j hj
    exact ⟨completeItems_iff.mp hComplete j hj, distinctKeysInItems_iff.mp hDistinct j hj⟩
  · intro h
    exact ⟨completeItems_iff.mpr fun j hj => (h j hj).complete,
      distinctKeysInItems_iff.mpr fun j hj => (h j hj).distinct⟩

theorem wellKeyed_obj_iff {members : List (String × Json)} :
    (obj members).WellKeyed ↔ (members.map Prod.fst).Nodup ∧ ∀ m ∈ members, m.2.WellKeyed := by
  constructor
  · rintro ⟨hComplete, hKeys, hDistinct⟩
    exact ⟨hKeys, fun m hm => ⟨completeMembers_iff.mp hComplete m hm,
      distinctKeysInMembers_iff.mp hDistinct m hm⟩⟩
  · rintro ⟨hKeys, h⟩
    exact ⟨completeMembers_iff.mpr fun m hm => (h m hm).complete, hKeys,
      distinctKeysInMembers_iff.mpr fun m hm => (h m hm).distinct⟩

/-! ## Passing over, and collecting -/

mutual

theorem firstFault_of_complete : ∀ j : Json, j.complete = true → j.firstFault false = none
  | .arr items, h => firstFaultOfItems_of_complete items h
  | .obj members, h => firstFaultOfMembers_of_complete members h
  | .null, _ | .bool _, _ | .int _, _ | .real _, _ | .str _, _ | .unfit, _ => rfl
termination_by structural j => j

theorem firstFaultOfItems_of_complete :
    ∀ js : List Json, completeItems js = true → firstFaultOfItems false js = none
  | [], _ => rfl
  | j :: js, h => by
    rw [completeItems, Bool.and_eq_true] at h
    rw [firstFaultOfItems, firstFault_of_complete j h.1, firstFaultOfItems_of_complete js h.2]
    rfl
termination_by structural js => js

theorem firstFaultOfMembers_of_complete :
    ∀ ms : List (String × Json), completeMembers ms = true → firstFaultOfMembers false ms = none
  | [], _ => rfl
  | (_, j) :: ms, h => by
    rw [completeMembers, Bool.and_eq_true] at h
    rw [firstFaultOfMembers, firstFault_of_complete j h.1, firstFaultOfMembers_of_complete ms h.2]
    rfl
termination_by structural ms => ms

end

/-- A complete document may always be passed over. -/
theorem pass_of_complete {j : Json} (h : j.complete = true) : j.pass = .ok () := by
  rw [pass, firstFault_of_complete j h]

mutual

theorem firstFault_eq_none_iff :
    ∀ j : Json, j.complete = true → (j.firstFault true = none ↔ j.sound = true)
  | .arr items, h => firstFaultOfItems_eq_none_iff items h
  | .obj members, h => firstFaultOfMembers_eq_none_iff members h
  | .unfit, _ => iff_of_false (fun h => nomatch h) Bool.false_ne_true
  | .null, _ | .bool _, _ | .int _, _ | .real _, _ | .str _, _ => iff_of_true rfl rfl
termination_by structural j => j

theorem firstFaultOfItems_eq_none_iff : ∀ js : List Json, completeItems js = true →
    (firstFaultOfItems true js = none ↔ soundItems js = true)
  | [], _ => iff_of_true rfl rfl
  | j :: js, h => by
    rw [completeItems, Bool.and_eq_true] at h
    rw [firstFaultOfItems, Option.or_eq_none_iff, firstFault_eq_none_iff j h.1,
      firstFaultOfItems_eq_none_iff js h.2, soundItems, Bool.and_eq_true]
termination_by structural js => js

theorem firstFaultOfMembers_eq_none_iff :
    ∀ ms : List (String × Json), completeMembers ms = true →
      (firstFaultOfMembers true ms = none ↔ soundMembers ms = true)
  | [], _ => iff_of_true rfl rfl
  | (_, j) :: ms, h => by
    rw [completeMembers, Bool.and_eq_true] at h
    rw [firstFaultOfMembers, Option.or_eq_none_iff, firstFault_eq_none_iff j h.1,
      firstFaultOfMembers_eq_none_iff ms h.2, soundMembers, Bool.and_eq_true]
termination_by structural ms => ms

end

/-- A complete document can be collected if every part of it has a value. -/
theorem collect_eq_ok_iff {j : Json} (h : j.complete = true) :
    j.collect = .ok () ↔ j.sound = true := by
  rw [← firstFault_eq_none_iff j h, collect]
  cases j.firstFault true <;> simp

/-! ## Rearranged documents -/

mutual

/-- The other document has the same members in each object, in any order. -/
def Rearranged : Json → Json → Prop
  | .arr items, j' => ∃ items', j' = .arr items' ∧ RearrangedItems items items'
  | .obj members, j' =>
    ∃ members' order, j' = .obj order ∧ order.Perm members' ∧ RearrangedMembers members members'
  | j, j' => j' = j
termination_by structural j => j

def RearrangedItems : List Json → List Json → Prop
  | [], js' => js' = []
  | j :: js, js' => ∃ first rest, js' = first :: rest ∧ j.Rearranged first ∧ RearrangedItems js rest
termination_by structural js => js

def RearrangedMembers : List (String × Json) → List (String × Json) → Prop
  | [], ms' => ms' = []
  | (key, j) :: ms, ms' =>
    ∃ first rest, ms' = (key, first) :: rest ∧ j.Rearranged first ∧ RearrangedMembers ms rest
termination_by structural ms => ms

end

mutual

theorem Rearranged.refl : ∀ j : Json, j.Rearranged j
  | .arr items => ⟨items, rfl, RearrangedItems.refl items⟩
  | .obj members => ⟨members, members, rfl, .refl _, RearrangedMembers.refl members⟩
  | .null | .bool _ | .int _ | .real _ | .str _ | .unfit | .torn _ _ | .broken _
  | .unkeyed _ _ => rfl
termination_by structural j => j

theorem RearrangedItems.refl : ∀ js : List Json, RearrangedItems js js
  | [] => rfl
  | j :: js => ⟨j, js, rfl, Rearranged.refl j, RearrangedItems.refl js⟩
termination_by structural js => js

theorem RearrangedMembers.refl : ∀ ms : List (String × Json), RearrangedMembers ms ms
  | [] => rfl
  | (_, j) :: ms => ⟨j, ms, rfl, Rearranged.refl j, RearrangedMembers.refl ms⟩
termination_by structural ms => ms

end

/-- The members of one object may be put in any order. -/
theorem Rearranged.of_perm {members order : List (String × Json)} (h : order.Perm members) :
    (obj members).Rearranged (obj order) :=
  ⟨members, order, rfl, h, RearrangedMembers.refl members⟩

mutual

/-- Rearranged documents are the same in key order, and both are free of repeated keys. -/
theorem Rearranged.same : ∀ {j j' : Json}, j.Rearranged j' → j.WellKeyed →
    j'.WellKeyed ∧ j'.sortKeys = j.sortKeys
  | .arr items, j', h, hj => by
    obtain ⟨items', rfl, hItems⟩ := h
    obtain ⟨hAll, hEq⟩ := hItems.same (wellKeyed_arr_iff.mp hj)
    exact ⟨wellKeyed_arr_iff.mpr hAll, congrArg arr hEq⟩
  | .obj members, j', h, hj => by
    obtain ⟨members', order, rfl, hPerm, hMembers⟩ := h
    obtain ⟨hKeys, hParts⟩ := wellKeyed_obj_iff.mp hj
    obtain ⟨hAll, hSame, hEq⟩ := hMembers.same hParts
    have hOrder : (order.map Prod.fst).Nodup := by
      rw [(hPerm.map Prod.fst).nodup_iff, hSame]
      exact hKeys
    refine ⟨wellKeyed_obj_iff.mpr ⟨hOrder, fun m hm => hAll m (hPerm.mem_iff.mp hm)⟩, ?_⟩
    -- in key order the members do not show how they were arranged
    have hSorted : (sortMembers order).Perm (sortMembers members) := by
      rw [← hEq, sortMembers_eq, sortMembers_eq]
      exact hPerm.map _
    rw [sortKeys, sortKeys, Keys.ofList_eq_of_perm hSorted (by rwa [keys_sortMembers])]
  | .null, _, h, hj | .bool _, _, h, hj | .int _, _, h, hj | .real _, _, h, hj
  | .str _, _, h, hj | .unfit, _, h, hj | .torn _ _, _, h, hj | .broken _, _, h, hj
  | .unkeyed _ _, _, h, hj => by
    obtain rfl := h
    exact ⟨hj, rfl⟩
termination_by structural j => j

theorem RearrangedItems.same : ∀ {js js' : List Json}, RearrangedItems js js' →
    (∀ j ∈ js, j.WellKeyed) → (∀ j ∈ js', j.WellKeyed) ∧ sortItems js' = sortItems js
  | [], _, h, _ => by
    obtain rfl := h
    exact ⟨List.forall_mem_nil _, rfl⟩
  | j :: js, _, h, hjs => by
    obtain ⟨first, rest, rfl, hFirst, hRest⟩ := h
    obtain ⟨hj, hjs⟩ := List.forall_mem_cons.mp hjs
    obtain ⟨hFirst, hEq⟩ := hFirst.same hj
    obtain ⟨hRest, hEqs⟩ := hRest.same hjs
    exact ⟨List.forall_mem_cons.mpr ⟨hFirst, hRest⟩, by rw [sortItems, sortItems, hEq, hEqs]⟩
termination_by structural js => js

theorem RearrangedMembers.same : ∀ {ms ms' : List (String × Json)}, RearrangedMembers ms ms' →
    (∀ m ∈ ms, m.2.WellKeyed) → (∀ m ∈ ms', m.2.WellKeyed) ∧
      ms'.map Prod.fst = ms.map Prod.fst ∧ sortMembers ms' = sortMembers ms
  | [], _, h, _ => by
    obtain rfl := h
    exact ⟨List.forall_mem_nil _, rfl, rfl⟩
  | (key, j) :: ms, _, h, hms => by
    obtain ⟨first, rest, rfl, hFirst, hRest⟩ := h
    obtain ⟨hj, hms⟩ := List.forall_mem_cons.mp hms
    obtain ⟨hFirst, hEq⟩ := hFirst.same hj
    obtain ⟨hRest, hKeys, hEqs⟩ := hRest.same hms
    refine ⟨List.forall_mem_cons.mpr ⟨hFirst, hRest⟩, ?_, ?_⟩
    · rw [List.map_cons, List.map_cons, hKeys]
    · rw [sortMembers, sortMembers, hEq, hEqs]
termination_by structural ms => ms

end

mutual

/-- A document in key order is a rearrangement of it. -/
theorem rearranged_sortKeys : ∀ {j : Json}, j.WellKeyed → j.Rearranged j.sortKeys
  | .arr items, hj => ⟨sortItems items, rfl, rearrangedItems_sortItems (wellKeyed_arr_iff.mp hj)⟩
  | .obj members, hj => by
    obtain ⟨hKeys, hParts⟩ := wellKeyed_obj_iff.mp hj
    refine ⟨sortMembers members, _, rfl, Keys.perm_ofList ?_, rearrangedMembers_sortMembers hParts⟩
    rwa [keys_sortMembers]
  | .null, _ | .bool _, _ | .int _, _ | .real _, _ | .str _, _ | .unfit, _ | .torn _ _, _
  | .broken _, _ | .unkeyed _ _, _ => rfl
termination_by structural j => j

theorem rearrangedItems_sortItems : ∀ {js : List Json}, (∀ j ∈ js, j.WellKeyed) →
    RearrangedItems js (sortItems js)
  | [], _ => rfl
  | _ :: _, h =>
    have hAll := List.forall_mem_cons.mp h
    ⟨_, _, rfl, rearranged_sortKeys hAll.1, rearrangedItems_sortItems hAll.2⟩
termination_by structural js => js

theorem rearrangedMembers_sortMembers : ∀ {ms : List (String × Json)},
    (∀ m ∈ ms, m.2.WellKeyed) → RearrangedMembers ms (sortMembers ms)
  | [], _ => rfl
  | (_, _) :: _, h =>
    have hAll := List.forall_mem_cons.mp h
    ⟨_, _, rfl, rearranged_sortKeys hAll.1, rearrangedMembers_sortMembers hAll.2⟩
termination_by structural ms => ms

end

theorem WellKeyed.sortKeys {j : Json} (h : j.WellKeyed) : j.sortKeys.WellKeyed :=
  ((rearranged_sortKeys h).same h).1

mutual

/-- Putting the keys in order does not supply what has no value. -/
theorem sound_of_sortKeys : ∀ {j : Json}, j.WellKeyed → j.sortKeys.sound = true → j.sound = true
  | .arr _, hj, h => soundItems_of_sortItems (wellKeyed_arr_iff.mp hj) h
  | .obj members, hj, h => by
    obtain ⟨hKeys, hParts⟩ := wellKeyed_obj_iff.mp hj
    have hPerm : (Keys.ofList (sortMembers members)).Perm (sortMembers members) :=
      Keys.perm_ofList (by rwa [keys_sortMembers])
    have hMembers : soundMembers (Keys.ofList (sortMembers members)) = true := h
    rw [soundMembers_iff] at hMembers
    exact soundMembers_of_sortMembers hParts
      (soundMembers_iff.mpr fun m hm => hMembers m (hPerm.mem_iff.mpr hm))
  | .null, _, h | .bool _, _, h | .int _, _, h | .real _, _, h | .str _, _, h | .unfit, _, h
  | .torn _ _, _, h | .broken _, _, h | .unkeyed _ _, _, h => h
termination_by structural j => j

theorem soundItems_of_sortItems : ∀ {js : List Json}, (∀ j ∈ js, j.WellKeyed) →
    soundItems (sortItems js) = true → soundItems js = true
  | [], _, _ => rfl
  | j :: js, hjs, h => by
    obtain ⟨hj, hjs⟩ := List.forall_mem_cons.mp hjs
    rw [sortItems, soundItems, Bool.and_eq_true] at h
    rw [soundItems, sound_of_sortKeys hj h.1, soundItems_of_sortItems hjs h.2]
    rfl
termination_by structural js => js

theorem soundMembers_of_sortMembers : ∀ {ms : List (String × Json)}, (∀ m ∈ ms, m.2.WellKeyed) →
    soundMembers (sortMembers ms) = true → soundMembers ms = true
  | [], _, _ => rfl
  | (_, j) :: ms, hms, h => by
    obtain ⟨hj, hms⟩ := List.forall_mem_cons.mp hms
    rw [sortMembers, soundMembers, Bool.and_eq_true] at h
    rw [soundMembers, sound_of_sortKeys hj h.1, soundMembers_of_sortMembers hms h.2]
    rfl
termination_by structural ms => ms

end

theorem WellKeyed.sound_sortKeys_iff {j : Json} (h : j.WellKeyed) :
    j.sortKeys.sound = true ↔ j.sound = true :=
  ⟨sound_of_sortKeys h, fun hSound => arranged_sorted j ▸ sound_arranged .sorted j hSound⟩

/-- Whether a document can be collected does not depend on the order of keys. -/
theorem WellKeyed.collect_sortKeys_iff {j : Json} (h : j.WellKeyed) :
    j.sortKeys.collect = .ok () ↔ j.collect = .ok () := by
  rw [collect_eq_ok_iff h.sortKeys.complete, collect_eq_ok_iff h.complete, h.sound_sortKeys_iff]

/-! ## The member in front of its enumeration -/

mutual

/-- In every object with both, the member `value` comes before the member `enum`. -/
def ValueLeads : Json → Prop
  | .arr items => ValueLeadsInItems items
  | .obj members =>
    (∃ front rest, members = front ++ rest ∧ (∀ m ∈ front, m.1 = "value") ∧
      ∀ m ∈ rest, m.1 ≠ "value") ∧ ValueLeadsInMembers members
  | _ => True
termination_by structural j => j

def ValueLeadsInItems : List Json → Prop
  | [] => True
  | j :: js => j.ValueLeads ∧ ValueLeadsInItems js
termination_by structural js => js

def ValueLeadsInMembers : List (String × Json) → Prop
  | [] => True
  | (_, j) :: ms => j.ValueLeads ∧ ValueLeadsInMembers ms
termination_by structural ms => ms

end

theorem valueLeadsInMembers_iff {ms : List (String × Json)} :
    ValueLeadsInMembers ms ↔ ∀ m ∈ ms, m.2.ValueLeads := by
  induction ms with
  | nil => simp [ValueLeadsInMembers]
  | cons m ms ih => simp [ValueLeadsInMembers, ih]

mutual

/-- Every document can be rearranged so that `value` leads everywhere. -/
theorem exists_valueLeads : ∀ j : Json, ∃ j', j.Rearranged j' ∧ j'.ValueLeads
  | .arr items => by
    obtain ⟨items', hItems, hLeads⟩ := exists_valueLeadsInItems items
    exact ⟨.arr items', ⟨items', rfl, hItems⟩, hLeads⟩
  | .obj members => by
    obtain ⟨members', hMembers, hLeads⟩ := exists_valueLeadsInMembers members
    have hPerm := List.filter_append_perm (fun m : String × Json => m.1 == "value") members'
    refine ⟨_, ⟨members', _, rfl, hPerm, hMembers⟩, ⟨_, _, rfl, ?_, ?_⟩, ?_⟩
    · intro m hm
      simpa using (List.mem_filter.mp hm).2
    · intro m hm
      simpa using (List.mem_filter.mp hm).2
    · rw [valueLeadsInMembers_iff] at hLeads ⊢
      exact fun m hm => hLeads m (hPerm.mem_iff.mp hm)
  | .null => ⟨_, rfl, trivial⟩
  | .bool _ => ⟨_, rfl, trivial⟩
  | .int _ => ⟨_, rfl, trivial⟩
  | .real _ => ⟨_, rfl, trivial⟩
  | .str _ => ⟨_, rfl, trivial⟩
  | .unfit => ⟨_, rfl, trivial⟩
  | .torn _ _ => ⟨_, rfl, trivial⟩
  | .broken _ => ⟨_, rfl, trivial⟩
  | .unkeyed _ _ => ⟨_, rfl, trivial⟩
termination_by structural j => j

theorem exists_valueLeadsInItems : ∀ js : List Json,
    ∃ js', RearrangedItems js js' ∧ ValueLeadsInItems js'
  | [] => ⟨[], rfl, trivial⟩
  | j :: js => by
    obtain ⟨j', hFirst, hLeads⟩ := exists_valueLeads j
    obtain ⟨js', hRest, hAll⟩ := exists_valueLeadsInItems js
    exact ⟨j' :: js', ⟨j', js', rfl, hFirst, hRest⟩, hLeads, hAll⟩
termination_by structural js => js

theorem exists_valueLeadsInMembers : ∀ ms : List (String × Json),
    ∃ ms', RearrangedMembers ms ms' ∧ ValueLeadsInMembers ms'
  | [] => ⟨[], rfl, trivial⟩
  | (key, j) :: ms => by
    obtain ⟨j', hFirst, hLeads⟩ := exists_valueLeads j
    obtain ⟨ms', hRest, hAll⟩ := exists_valueLeadsInMembers ms
    exact ⟨(key, j') :: ms', ⟨j', ms', rfl, hFirst, hRest⟩, hLeads, hAll⟩
termination_by structural ms => ms

end

end DocumentQuery.Json
