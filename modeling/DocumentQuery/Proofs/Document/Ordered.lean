import DocumentQuery.Proofs.Document.Held

/-!
# What is read is in key order

The objects among the values of a document that has been read are in key order,
whatever the order of the document was: only the reader of values makes objects.

Main results:

* `Node.readValue_ordered` — the reader of values keeps the order.
* `Select.ordered_of_ofText` — the values of a select that a text describes.
-/

namespace DocumentQuery

/-- All values are in key order. -/
def AllOrdered (values : List Value) : Prop := ∀ v ∈ values, v.Ordered

namespace Value

theorem orderedItems_iff {vs : List Value} : OrderedItems vs ↔ AllOrdered vs := by
  induction vs with
  | nil => simp [OrderedItems, AllOrdered]
  | cons v vs ih =>
    rw [OrderedItems, ih]
    exact List.forall_mem_cons.symm

theorem orderedMembers_iff {ms : List (String × Value)} :
    OrderedMembers ms ↔ AllOrdered (ms.map Prod.snd) := by
  induction ms with
  | nil => simp [OrderedMembers, AllOrdered]
  | cons m ms ih =>
    rw [OrderedMembers, ih]
    exact List.forall_mem_cons.symm

end Value

namespace Node

theorem readEntries_ascending {members : List (String × Child)} {entries : List (String × Value)}
    (h : readEntries members = .ok entries) : Keys.Ascending entries := by
  obtain ⟨values, -, hEntries⟩ := bind_eq_ok.mp h
  exact Except.ok.inj hEntries ▸ Keys.ascending_ofList _

theorem readValue_ordered {node : Node} (hNode : node.Holds Value.Ordered) {v : Value}
    (h : node.readValue = .ok v) : v.Ordered := by
  obtain ⟨-, -, hValue⟩ := bind_eq_ok.mp h
  split at hValue
  · exact Except.ok.inj hValue ▸ trivial
  · split at hValue
    · exact Except.ok.inj hValue ▸ trivial
    · exact Except.ok.inj hValue ▸ trivial
  · exact Except.ok.inj hValue ▸ trivial
  · exact Except.ok.inj hValue ▸ trivial
  · obtain ⟨items, hItems, rfl⟩ := map_eq_ok.mp hValue
    exact Value.orderedItems_iff.mpr (readValues_holds hNode.items hItems)
  · -- a description of a vector, a member of an enumeration, or neither
    split at hValue
    · exact Except.ok.inj hValue ▸ trivial
    · split at hValue
      · exact Except.ok.inj hValue ▸ trivial
      · obtain ⟨entries, hEntries, rfl⟩ := map_eq_ok.mp hValue
        exact ⟨readEntries_ascending hEntries,
          Value.orderedMembers_iff.mpr (readEntries_holds hNode.members hEntries)⟩
  · exact Except.ok.inj hValue ▸ trivial

end Node

theorem kept_ordered : Kept (fun _ => True) Value.Ordered where
  items _ _ _ _ := trivial
  members _ _ _ _ := trivial
  torn _ _ _ _ _ := trivial
  value _ _ hNode _ h := Node.readValue_ordered hNode h

/-- The values of a select that a text describes are in key order. -/
theorem Select.ordered_of_ofText {text : String} {s : Select} (h : Select.ofText text = .ok s) :
    AllOrdered s.values :=
  Select.holds_of_ofText kept_ordered trivial h

end DocumentQuery
