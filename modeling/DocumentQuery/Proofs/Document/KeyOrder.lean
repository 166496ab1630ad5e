import DocumentQuery.Proofs.Document.HollowMembers
import DocumentQuery.Proofs.Document.Normal

/-!
# The order of keys in a document

The tag of an expression, of an argument, of a mapping or of a member of an enumeration may
stand before what it is the tag of or behind it, and members of different records may stand
next to each other. A document with its keys in another order describes the same select all
the same, if no object in it is hollow: over an empty object the name of a member counts only
in front of its enumeration.

Main results:

* `Json.varies` — every part of a document is read as it is in key order, as far as its
  values are.
* `Select.readAs_rearranged_iff` — when a document describes one select in every order.
* `not_ofJson_rearranged` — a document that does not.
-/

namespace DocumentQuery

namespace Json

variable {shows : Prop}

/-- A document is read as it is in key order if the parts below it are. -/
theorem PartsVary.varies {j : Json} (h : j.PartsVary shows Value.Solid) (hKeyed : j.WellKeyed)
    (hLeads : shows → j.ValueLeads) : j.Varies shows Value.Solid where
  json := rfl
  wellKeyed := hKeyed
  read := Node.read_varies hKeyed h (readValue_varies hKeyed h hLeads)

mutual

/-- Every part of a document is read as it is in key order. -/
theorem varies :
    ∀ j : Json, j.WellKeyed → (shows → j.ValueLeads) → j.Varies shows Value.Solid
  -- the recursion hands on what holds of the parts; what is special to a kind of part is in
  -- `Node.read_varies`, and what is special to values in `readValue_varies`
  | .arr items, hKeyed, hLeads =>
    PartsVary.varies (itemsVary items (wellKeyed_arr_iff.mp hKeyed) hLeads) hKeyed hLeads
  | .obj members, hKeyed, hLeads =>
    PartsVary.varies (partsVary members (wellKeyed_obj_iff.mp hKeyed).2 fun h => (hLeads h).2)
      hKeyed hLeads
  | .null, hKeyed, hLeads | .bool _, hKeyed, hLeads | .int _, hKeyed, hLeads
  | .real _, hKeyed, hLeads | .str _, hKeyed, hLeads | .unfit, hKeyed, hLeads
  | .torn _ _, hKeyed, hLeads | .broken _, hKeyed, hLeads | .unkeyed _ _, hKeyed, hLeads =>
    PartsVary.varies trivial hKeyed hLeads
termination_by structural j => j

theorem itemsVary : ∀ js : List Json, (∀ j ∈ js, j.WellKeyed) →
    (shows → ValueLeadsInItems js) → ∀ j ∈ js, j.Varies shows Value.Solid
  | [], _, _ => List.forall_mem_nil _
  | j :: js, hKeyed, hLeads =>
    have hAll := List.forall_mem_cons.mp hKeyed
    List.forall_mem_cons.mpr ⟨varies j hAll.1 fun h => (hLeads h).1,
      itemsVary js hAll.2 fun h => (hLeads h).2⟩
termination_by structural js => js

theorem partsVary : ∀ ms : List (String × Json), (∀ m ∈ ms, m.2.WellKeyed) →
    (shows → ValueLeadsInMembers ms) → ∀ m ∈ ms, m.2.Varies shows Value.Solid
  | [], _, _ => List.forall_mem_nil _
  | (_, j) :: ms, hKeyed, hLeads =>
    have hAll := List.forall_mem_cons.mp hKeyed
    List.forall_mem_cons.mpr ⟨varies j hAll.1 fun h => (hLeads h).1,
      partsVary ms hAll.2 fun h => (hLeads h).2⟩
termination_by structural ms => ms

end

theorem readAs_varies {j : Json} (hKeyed : j.WellKeyed) (hLeads : shows → j.ValueLeads)
    (r : Reading) (kind : Kind) {α : Type} {pick : Slot → Option α} {valuesOf : α → List Value}
    (hPick : Respects shows Value.Solid pick valuesOf) :
    Concurs (SameIf shows Value.Solid valuesOf) (j.sortKeys.readAs r kind pick)
      (j.readAs r kind pick) := by
  refine ((varies j hKeyed hLeads).read r kind).bind fun slot₀ slot hSlot => ?_
  have hRel := hPick slot₀ slot hSlot
  generalize pick slot₀ = x, pick slot = y at hRel
  cases hRel with
  | none => exact .error _ _
  | some ha => exact .ok ha

end Json

/-- **The order of keys does not matter, but for hollow objects.** Let a document without
repeated keys describe a select, in memory or as a text. Then it does with its keys in any
other order. It describes the same select in all of them exactly when no object in the select
that it describes in key order is hollow. -/
theorem Select.readAs_rearranged_iff {j : Json} (hKeyed : j.WellKeyed) {r : Reading} {s : Select}
    (h : j.readAs r .select Slot.select? = .ok s) :
    ∃ s₀, j.sortKeys.readAs r .select Slot.select? = .ok s₀ ∧
      (∀ j', j.Rearranged j' → ∃ s', j'.readAs r .select Slot.select? = .ok s') ∧
      ((∀ j', j.Rearranged j' → j'.readAs r .select Slot.select? = .ok s) ↔
        AllHold Value.Solid s₀.values) := by
  -- all rearrangements are compared with the document in key order, which they have in common
  have hVaries {shows : Prop} {j' : Json} (hj' : j.Rearranged j')
      (hLeads : shows → j'.ValueLeads) :
      Concurs (SameIf shows Value.Solid Select.values)
        (j.sortKeys.readAs r .select Slot.select?) (j'.readAs r .select Slot.select?) := by
    obtain ⟨hKeyed', hSame⟩ := hj'.same hKeyed
    exact hSame ▸ Json.readAs_varies hKeyed' hLeads r .select respects_select
  obtain ⟨s₀, hs₀, hSame⟩ := (Json.readAs_varies hKeyed False.elim r .select
    respects_select).exists_left h
  refine ⟨s₀, hs₀, fun j' hj' => ?_, fun hAll => ?_, fun hSolid j' hj' => ?_⟩
  · obtain ⟨s', hs', -⟩ := (hVaries hj' False.elim).exists_right hs₀
    exact ⟨s', hs'⟩
  · -- in one of the orders the members lead everywhere, so that every hollow object shows
    obtain ⟨j', hj', hLeads⟩ := Json.exists_valueLeads j
    obtain ⟨s', hs', hDiffers⟩ := (hVaries hj' fun _ : True => hLeads).exists_right hs₀
    have hSorted := hAll _ (Json.rearranged_sortKeys hKeyed)
    obtain rfl : s₀ = s := Except.ok.inj (hs₀.symm.trans hSorted)
    exact hDiffers.holds trivial (Except.ok.inj (hs'.symm.trans (hAll j' hj')))
  · obtain ⟨s', hs', hDiffers⟩ := (hVaries hj' False.elim).exists_right hs₀
    rw [hs', hDiffers.same hSolid, hSame.same hSolid]

/-! ## Two documents -/

/-- A limit whose tag stands last, and a member in front of its enumeration. -/
def taggedLast : Json :=
  .obj [("limit", .obj [("value", .arr [.obj [("value", .str "cosine"),
    ("enum", .str "DistanceFunction")], .obj [("b", .null), ("a", .int (-2))]]),
    ("data_type", .str "Object"), ("type", .str "Constant")])]

theorem taggedLast_rearranged :
    taggedLast.WellKeyed ∧ ∃ s, Select.ofJson taggedLast = .ok s ∧
      ∀ j', taggedLast.Rearranged j' → Select.ofJson j' = .ok s := by
  have hKeyed : taggedLast.WellKeyed :=
    ⟨rfl, by decide, ⟨by decide, ⟨⟨by decide, trivial, trivial, trivial⟩,
      ⟨by decide, trivial, trivial, trivial⟩, trivial⟩, trivial, trivial, trivial⟩, trivial⟩
  have hRead : Select.ofJson taggedLast = .ok (Select.limitedTo (.array
      [.enum (.distanceFunction .cosine), .object [("a", .int (-2)), ("b", .null)]])) := rfl
  obtain ⟨s₀, hs₀, -, hIff⟩ := Select.readAs_rearranged_iff hKeyed hRead
  obtain rfl := Except.ok.inj (hRead.symm.trans hs₀)
  refine ⟨hKeyed, _, hRead, hIff.mpr (List.forall_mem_singleton.mpr ⟨trivial, ⟨?_, ?_⟩, trivial⟩)⟩
  · -- there is no enumeration under `enum`
    rintro ⟨m, ⟨v, hEnum, -⟩, -⟩
    cases hEnum
  · exact ⟨trivial, trivial, trivial⟩

/-- An enumeration, and the name of a member over an empty object. -/
def hollowMembers : List (String × Json) :=
  [("enum", .str "DistanceFunction"), ("value", .obj [("cosine", .obj [])])]

/-- A limit to the object with these members. -/
def objectLimit (members : List (String × Json)) : Json :=
  .obj [("limit", .obj [("type", .str "Constant"), ("data_type", .str "Object"),
    ("value", .obj members)])]

/-- With the member in front of its enumeration the object is taken for it. -/
theorem not_ofJson_rearranged :
    ¬ ∀ (j : Json) (s : Select), j.WellKeyed → Select.ofJson j = .ok s →
      ∀ j', j.Rearranged j' → Select.ofJson j' = .ok s := by
  intro h
  have hKeyed : (objectLimit hollowMembers).WellKeyed :=
    ⟨rfl, by decide, ⟨by decide, trivial, trivial, ⟨by decide, trivial, ⟨by decide,
      ⟨by decide, trivial⟩, trivial⟩, trivial⟩, trivial⟩, trivial⟩
  have hRead : Select.ofJson (objectLimit hollowMembers) = .ok (Select.limitedTo (.object
      [("enum", .string "DistanceFunction"), ("value", .object [("cosine", .object [])])])) := rfl
  have hReadTurned : Select.ofJson (objectLimit hollowMembers.reverse) =
      .ok (Select.limitedTo (.enum (.distanceFunction .cosine))) := rfl
  have hTurned : (objectLimit hollowMembers).Rearranged (objectLimit hollowMembers.reverse) :=
    ⟨_, _, rfl, .refl _, _, _, rfl, ⟨_, _, rfl, .refl _, _, _, rfl, rfl, _, _, rfl, rfl, _, _, rfl,
      .of_perm (List.reverse_perm _), rfl⟩, rfl⟩
  cases hReadTurned.symm.trans (h _ _ hKeyed hRead _ hTurned)

end DocumentQuery
