import DocumentQuery.Proofs.Document.ReadValues
import DocumentQuery.Proofs.Document.Varying
import DocumentQuery.Proofs.Json.Rearranged

/-!
# Records whose members are rearranged

The members of an object are read from the front, and every key is looked up as it comes. As
no key comes twice, it makes no difference for what is found under a key which members have
been read before.

Main definitions and results:

* `Child.Varies`, `MembersVary` — parts of a document that has been rearranged.
* `Record.readMembers_eq_ok_iff` — members with different keys are read independently.
* `MembersVary.readMembers`, `Record.readItems_varies` — records of rearranged parts.
* `soleMember_eq_ok_iff` — one member is looked for and all others are collected.
-/

namespace DocumentQuery

variable {shows : Prop} {P : Value → Prop}

/-! ## Parts -/

/-- A part of a document with all keys in order, and the same part as it was written. -/
structure Child.Varies (shows : Prop) (P : Value → Prop) (c₀ c : Child) : Prop where
  json : c₀.json = c.json.sortKeys
  wellKeyed : c.json.WellKeyed
  read : ∀ r kind, Concurs (Slot.Varies shows P) (c₀.read r kind) (c.read r kind)

/-- The members of an object with all keys in order, and as they were written. -/
structure MembersVary (shows : Prop) (P : Value → Prop) (members₀ members : List (String × Child)) :
    Prop where
  nodup₀ : (members₀.map Prod.fst).Nodup
  nodup : (members.map Prod.fst).Nodup
  lookup : ∀ key, Option.Rel (Child.Varies shows P) (members₀.lookup key) (members.lookup key)

theorem Slot.Varies.absent : Slot.Varies shows P .absent .absent := .refl allHold_nil

theorem Field.read_varies (field : Field) (r : Reading) {c₀ c : Child}
    (h : Child.Varies shows P c₀ c) :
    Concurs (Slot.Varies shows P) (field.read r c₀) (field.read r c) := by
  have hRead := h.read r field.kind
  obtain ⟨j₀, read₀⟩ := c₀
  obtain ⟨j, read⟩ := c
  obtain rfl : j₀ = j.sortKeys := h.json
  unfold Field.read
  cases field.nullable with
  | false => exact hRead
  | true =>
    cases j with
    | null => exact .ok .absent
    | broken flaw => cases h.wellKeyed.complete
    | _ => exact hRead

/-! ## Members with different keys -/

section Lookup

variable {α : Type} {entries : List (String × α)}

theorem mem_iff_lookup (hNodup : (entries.map Prod.fst).Nodup) {key : String} {a : α} :
    (key, a) ∈ entries ↔ entries.lookup key = some a :=
  ⟨lookup_of_mem hNodup, mem_of_lookup⟩

theorem lookup_eq_of_perm {entries' : List (String × α)} (hPerm : entries.Perm entries')
    (hNodup : (entries.map Prod.fst).Nodup) (key : String) :
    entries.lookup key = entries'.lookup key := by
  have hNodup' := (hPerm.map Prod.fst).nodup_iff.mp hNodup
  refine Option.ext fun a => ?_
  rw [← mem_iff_lookup hNodup, ← mem_iff_lookup hNodup', hPerm.mem_iff]

theorem lookup_map {β : Type} (f : α → β) (key : String) :
    (entries.map fun e => (e.1, f e.2)).lookup key = (entries.lookup key).map f := by
  induction entries with
  | nil => rfl
  | cons e entries ih =>
    rw [List.map_cons, List.lookup_cons, List.lookup_cons, ih]
    cases key == e.1 <;> rfl

theorem lookup_filter (p : String → Bool) (key : String) :
    (entries.filter fun e => p e.1).lookup key = if p key then entries.lookup key else none := by
  induction entries with
  | nil => simp
  | cons e entries ih =>
    rw [List.filter_cons, List.lookup_cons]
    split
    · rename_i hp
      rw [List.lookup_cons, ih]
      cases hKey : key == e.1 with
      | false => rfl
      | true =>
        obtain rfl := beq_iff_eq.mp hKey
        exact (if_pos hp).symm
    · rename_i hp
      rw [ih]
      cases hKey : key == e.1 with
      | false => rfl
      | true => rw [beq_iff_eq.mp hKey, if_neg hp, if_neg hp]

/-- Entries may be left out, or replaced, one by one. -/
theorem lookup_filterMap {β : Type} (f : String → α → Option β)
    (hNodup : (entries.map Prod.fst).Nodup) (key : String) :
    (entries.filterMap fun e => (f e.1 e.2).map fun b => (e.1, b)).lookup key =
      (entries.lookup key).bind (f key) := by
  induction entries with
  | nil => rfl
  | cons e entries ih =>
    obtain ⟨k, a⟩ := e
    rw [List.map_cons, List.nodup_cons] at hNodup
    rw [List.filterMap_cons, List.lookup_cons]
    cases hKey : key == k with
    | true =>
      obtain rfl := beq_iff_eq.mp hKey
      -- a key that is left out here does not come again
      cases hf : f key a with
      | some b => simp [hf]
      | none => simp [hf, ih hNodup.2, lookup_eq_none_of_not_mem hNodup.1]
    | false =>
      cases hf : f k a with
      | some b => simp [List.lookup_cons, hKey, ih hNodup.2]
      | none => simp [ih hNodup.2]

end Lookup

namespace MembersVary

variable {members₀ members : List (String × Child)} (h : MembersVary shows P members₀ members)

include h

/-- What holds of members under their keys does not depend on their order. -/
theorem forall_iff {Q : String → Child → Prop}
    (hQ : ∀ key c₀ c, Child.Varies shows P c₀ c → (Q key c₀ ↔ Q key c)) :
    (∀ m ∈ members₀, Q m.1 m.2) ↔ ∀ m ∈ members, Q m.1 m.2 := by
  constructor
  -- each member is compared with the one under its key
  · rintro hAll ⟨key, c⟩ hm
    have hRel := h.lookup key
    rw [(mem_iff_lookup h.nodup).mp hm] at hRel
    generalize hLookup : members₀.lookup key = x at hRel
    cases hRel with
    | some hc => exact (hQ key _ c hc).mp (hAll (key, _) (mem_of_lookup hLookup))
  · rintro hAll ⟨key, c₀⟩ hm
    have hRel := h.lookup key
    rw [(mem_iff_lookup h.nodup₀).mp hm] at hRel
    generalize hLookup : members.lookup key = x at hRel
    cases hRel with
    | some hc => exact (hQ key c₀ _ hc).mpr (hAll (key, _) (mem_of_lookup hLookup))

theorem filter (p : String → Bool) :
    MembersVary shows P (members₀.filter fun m => p m.1) (members.filter fun m => p m.1) where
  nodup₀ := (List.filter_sublist.map Prod.fst).nodup h.nodup₀
  nodup := (List.filter_sublist.map Prod.fst).nodup h.nodup
  lookup key := by
    rw [lookup_filter, lookup_filter]
    split
    · exact h.lookup key
    · exact .none

end MembersVary

/-! ## Reading members -/

namespace Record

variable {record : Record} {r : Reading} {tag : Option String}

/-- What is read for a member: nothing if it is the tag, or stands for no field. -/
def slotOf (record : Record) (r : Reading) (tag : Option String) (key : String) (child : Child) :
    Except DocumentError (Option Slot) :=
  if tag = some key then .ok none
  else
    match record.field? key with
    | some field => (field.read r child).map some
    | none =>
      if record.closed then .error (.unknownField key (record.fields.map Field.key))
      else child.json.pass.map fun _ => none

/-- What is read for members, one by one. -/
def slotsOf (record : Record) (r : Reading) (tag : Option String)
    (members : List (String × Child)) : Slots :=
  members.filterMap fun m =>
    (record.slotOf r tag m.1 m.2).toOption.join.map fun slot => (m.1, slot)

theorem readMembers_cons {key : String} {child : Child} {rest : List (String × Child)}
    {seen : Slots} (hNew : seen.lookup key = none) :
    record.readMembers r tag seen ((key, child) :: rest) =
      record.slotOf r tag key child >>= fun
        | some slot => record.readMembers r tag (seen ++ [(key, slot)]) rest
        | none => record.readMembers r tag seen rest := by
  rw [readMembers, slotOf]
  split
  · rfl
  · cases record.field? key with
    | some field =>
      dsimp only
      rw [hNew]
      cases field.read r child <;> rfl
    | none =>
      dsimp only
      split
      · rfl
      · cases child.json.pass <;> rfl

/-- Members with different keys are read independently of each other. -/
theorem readMembers_eq_ok_iff {members : List (String × Child)} {seen slots : Slots}
    (hNodup : (members.map Prod.fst).Nodup) (hSeen : ∀ m ∈ members, seen.lookup m.1 = none) :
    record.readMembers r tag seen members = .ok slots ↔
      (∀ m ∈ members, ∃ slot, record.slotOf r tag m.1 m.2 = .ok slot) ∧
        slots = seen ++ record.slotsOf r tag members := by
  induction members generalizing seen with
  | nil => simp [readMembers, slotsOf, eq_comm]
  | cons member rest ih =>
    obtain ⟨key, child⟩ := member
    rw [List.map_cons, List.nodup_cons] at hNodup
    obtain ⟨hNew, hSeen⟩ := List.forall_mem_cons.mp hSeen
    dsimp only at hNodup
    rw [List.forall_mem_cons, slotsOf, List.filterMap_cons, readMembers_cons hNew]
    cases hSlot : record.slotOf r tag key child with
    | error e => simp
    | ok found =>
      cases found with
      | none => simpa [slotsOf, Except.toOption] using ih hNodup.2 hSeen
      | some slot =>
        -- the key counts as seen from here on, but no other member has it
        have hSeen' : ∀ m ∈ rest, (seen ++ [(key, slot)]).lookup m.1 = none := by
          intro m hm
          have hNe : m.1 ≠ key := fun hEq => hNodup.1 (hEq ▸ List.mem_map_of_mem hm)
          rw [List.lookup_append, hSeen m hm, List.lookup_cons, beq_eq_false_iff_ne.mpr hNe]
          rfl
        simpa [slotsOf, Except.toOption] using ih hNodup.2 hSeen'

theorem lookup_slotsOf {members : List (String × Child)} (hNodup : (members.map Prod.fst).Nodup)
    (key : String) : (record.slotsOf r tag members).lookup key =
      (members.lookup key).bind fun child => (record.slotOf r tag key child).toOption.join :=
  lookup_filterMap (fun key child => (record.slotOf r tag key child).toOption.join) hNodup key

theorem slotOf_varies (record : Record) (r : Reading) (tag : Option String) (key : String)
    {c₀ c : Child} (h : Child.Varies shows P c₀ c) :
    Concurs (Option.Rel (Slot.Varies shows P)) (record.slotOf r tag key c₀)
      (record.slotOf r tag key c) := by
  unfold slotOf
  split
  · exact .ok .none
  · cases record.field? key with
    | some field => exact (field.read_varies r h).map fun _ _ hSlot => .some hSlot
    | none =>
      dsimp only
      split
      · exact .error _ _
      · -- a member that no field asks for is passed over, whatever it says
        rw [h.json, Json.pass_of_complete h.wellKeyed.sortKeys.complete,
          Json.pass_of_complete h.wellKeyed.complete]
        exact .ok .none

/-- Rearranged items are read like the items of which they are rearrangements. -/
theorem readItems_varies (r : Reading) (fields : List Field) {items₀ items : List Child}
    (hItems : List.Forall₂ (Child.Varies shows P) items₀ items) {seen₀ seen : Slots}
    (hSeen : Slots.Varies shows P seen₀ seen) :
    Concurs (Slots.Varies shows P) (readItems r seen₀ fields items₀)
      (readItems r seen fields items) := by
  induction fields generalizing items₀ items seen₀ seen with
  | nil =>
    -- surplus items are a fault in any case
    cases hItems with
    | nil => exact .ok hSeen
    | cons hFirst hRest =>
      cases hRest with
      | nil =>
        unfold readItems
        split <;> split <;> exact .error _ _
      | cons => exact .error _ _
  | cons field fields ih =>
    cases hItems with
    | nil =>
      unfold readItems
      split
      · exact ih .nil hSeen
      · exact .error _ _
    | cons hFirst hRest =>
      unfold readItems
      refine (field.read_varies r hFirst).bind fun slot₀ slot hSlot => ih hRest fun key => ?_
      rw [List.lookup_append, List.lookup_append]
      have hEntry : Option.Rel (Slot.Varies shows P) ([(field.key, slot₀)].lookup key)
          ([(field.key, slot)].lookup key) := by
        rw [List.lookup_cons, List.lookup_cons]
        cases key == field.key with
        | true => exact .some hSlot
        | false => exact .none
      have hBefore := hSeen key
      generalize seen₀.lookup key = x, seen.lookup key = y at hBefore
      cases hBefore with
      | none => exact hEntry
      | some hFound => exact .some hFound

end Record

theorem Concurs.join {α : Type} {R : α → α → Prop} {x y : Except DocumentError (Option α)}
    (h : Concurs (Option.Rel R) x y) : Option.Rel R x.toOption.join y.toOption.join := by
  cases h with
  | error => exact .none
  | ok h => exact h

/-- Rearranged members are read like the members of which they are rearrangements. -/
theorem MembersVary.readMembers {members₀ members : List (String × Child)}
    (h : MembersVary shows P members₀ members) (record : Record) (r : Reading)
    (tag : Option String) :
    Concurs (Slots.Varies shows P) (record.readMembers r tag [] members₀)
      (record.readMembers r tag [] members) := by
  have hRead {members : List (String × Child)} (hNodup : (members.map Prod.fst).Nodup)
      {slots : Slots} : record.readMembers r tag [] members = .ok slots ↔
        (∀ m ∈ members, ∃ slot, record.slotOf r tag m.1 m.2 = .ok slot) ∧
          slots = [] ++ record.slotsOf r tag members :=
    Record.readMembers_eq_ok_iff hNodup fun _ _ => rfl
  refine .of_results ?_ fun slots₀ slots h₀ h' key => ?_
  · simp only [hRead h.nodup₀, hRead h.nodup, exists_and_left, exists_eq, and_true]
    exact h.forall_iff fun key c₀ c hc => (record.slotOf_varies r tag key hc).exists_iff
  · obtain ⟨-, rfl⟩ := (hRead h.nodup₀).mp h₀
    obtain ⟨-, rfl⟩ := (hRead h.nodup).mp h'
    rw [List.nil_append, List.nil_append, Record.lookup_slotsOf h.nodup₀,
      Record.lookup_slotsOf h.nodup]
    exact rel_bind (h.lookup key) fun c₀ c hc => (record.slotOf_varies r tag key hc).join

/-! ## One member among others -/

section SoleMember

variable {α : Type} {key : String} {read : Child → Except DocumentError α}

/-- The member under `key`, all others being collected. -/
def soleMember (key : String) (read : Child → Except DocumentError α) :
    Option α → List (String × Child) → Except DocumentError (Option α)
  | found, [] => .ok found
  | found, (k, c) :: members =>
    if k = key then
      match found with
      | some _ => .error (.duplicateField key)
      | none => do
        let a ← read c
        soleMember key read (some a) members
    else do
      c.json.collect
      soleMember key read found members

theorem soleMember_of_absent {members : List (String × Child)} (hKey : key ∉ members.map Prod.fst)
    {found found' : Option α} : soleMember key read found members = .ok found' ↔
      found' = found ∧ ∀ m ∈ members, m.2.json.collect = .ok () := by
  induction members with
  | nil => simp [soleMember, eq_comm]
  | cons m members ih =>
    obtain ⟨k, c⟩ := m
    rw [List.map_cons, List.mem_cons, not_or] at hKey
    unfold soleMember
    rw [if_neg (Ne.symm hKey.1), List.forall_mem_cons, and_left_comm, ← ih hKey.2]
    cases c.json.collect <;> simp

/-- What is found is what stands under the key. -/
theorem soleMember_eq_ok_iff {members : List (String × Child)}
    (hNodup : (members.map Prod.fst).Nodup) {found : Option α} :
    soleMember key read none members = .ok found ↔
      (members.lookup key).mapM read = .ok found ∧
        ∀ m ∈ members, m.1 ≠ key → m.2.json.collect = .ok () := by
  induction members with
  | nil => simp [soleMember, pure, Except.pure]
  | cons m members ih =>
    obtain ⟨k, c⟩ := m
    rw [List.map_cons, List.nodup_cons] at hNodup
    dsimp only at hNodup
    unfold soleMember
    rw [List.lookup_cons, List.forall_mem_cons]
    by_cases hKey : k = key
    · -- the member is here, and its key does not come again
      subst hKey
      have hRest : (∀ m ∈ members, m.1 ≠ k → m.2.json.collect = .ok ()) ↔
          ∀ m ∈ members, m.2.json.collect = .ok () := by
        refine forall₂_congr fun m hm => ⟨fun h => h ?_, fun h _ => h⟩
        exact fun hEq => hNodup.1 (hEq ▸ List.mem_map_of_mem hm)
      rw [if_pos rfl, beq_self_eq_true, hRest]
      cases hFound : read c with
      | error e => simp [hFound, Functor.map, Except.map]
      | ok a =>
        rw [ok_bind, soleMember_of_absent hNodup.1]
        simp [hFound, Functor.map, Except.map, eq_comm]
    · rw [if_neg hKey, beq_eq_false_iff_ne.mpr (Ne.symm hKey)]
      cases hCollect : c.json.collect with
      | error e => simp [hKey]
      | ok => simpa [hKey] using ih hNodup.2

/-- What is found does not depend on where it stands. -/
theorem MembersVary.soleMember {members₀ members : List (String × Child)}
    (h : MembersVary shows P members₀ members)
    (hRead : ∀ c₀ c, Child.Varies shows P c₀ c → Concurs Eq (read c₀) (read c)) :
    Concurs Eq (soleMember key read none members₀) (soleMember key read none members) := by
  refine .of_iff fun found => ?_
  rw [soleMember_eq_ok_iff h.nodup₀, soleMember_eq_ok_iff h.nodup]
  refine and_congr ?_ ?_
  · have hRel := h.lookup key
    generalize members₀.lookup key = x, members.lookup key = y at hRel
    cases hRel with
    | none => exact Iff.rfl
    | some hc => exact ((hRead _ _ hc).map (S := Eq) fun _ _ hEq => congrArg some hEq).eq_ok_iff
  · refine h.forall_iff (Q := fun k c => k ≠ key → c.json.collect = .ok ()) fun k c₀ c hc => ?_
    rw [hc.json, hc.wellKeyed.collect_sortKeys_iff]

end SoleMember

/-! ## Tags -/

section Tags

variable {α : Type} [Enumerated α] (r : Reading) (key : String)

/-- The documents of members. -/
def jsonOf (members : List (String × Child)) : List (String × Json) :=
  members.map fun m => (m.1, m.2.json)

theorem tagAmong_jsonOf (found : Option α) (members : List (String × Child)) :
    tagAmong r key found (jsonOf members) =
      soleMember key (fun c => tagOf r c.json) found members := by
  induction members generalizing found with
  | nil => rfl
  | cons m members ih =>
    show tagAmong r key found ((m.1, m.2.json) :: jsonOf members) = _
    unfold tagAmong soleMember
    cases found <;> simp only [ih]

theorem tagOf_sortKeys (j : Json) : (tagOf r j.sortKeys : Except DocumentError α) = tagOf r j := by
  cases j <;> rfl

/-- The tag does not depend on where it stands. -/
theorem MembersVary.readTag {members₀ members : List (String × Child)}
    (h : MembersVary shows P members₀ members) :
    Concurs Eq (readTag r key (.obj (jsonOf members₀)) : Except DocumentError α)
      (readTag r key (.obj (jsonOf members))) := by
  show Concurs Eq (tagAmong r key none (jsonOf members₀) >>= _)
    (tagAmong r key none (jsonOf members) >>= _)
  rw [tagAmong_jsonOf, tagAmong_jsonOf]
  refine (h.soleMember fun c₀ c hc => ?_).bind fun found _ hEq => hEq ▸ .refl fun _ _ => rfl
  rw [hc.json, tagOf_sortKeys]
  exact .refl fun _ _ => rfl

end Tags

end DocumentQuery
