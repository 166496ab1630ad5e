import DocumentQuery.Proofs.Document.Payload
import DocumentQuery.Proofs.Query.WellFormed
import DocumentQuery.Proofs.Registry.NearestMapping

/-!
# Mappings of the types that values show

A constant of a raw fragment has no type but the one that it shows by itself, and an array shows
that of its first item. The registry finds a mapping of this type layer by layer, and a mapping
takes values of its own kind only. With the built-in mappings the three fit together: a mapping
that is found takes the value. None is found for an array that leads to a member of an enumeration
or to the description of a vector, for these have forms of their own that no array can hold.

Only first items are followed, though. An array with such a value further behind is rendered as
JSON, the value in it as documents hold it, so it depends on the order of the items whether a
mixed array is rendered at all.

Main definition:

* `Value.leadsToOwnForm` — a value with a form of its own is found by following first items.

Main results:

* `Value.inferred_mapping_renders` — a mapping that is found takes the value.
* `array_inlined_perm_iff` — when the order of items does not matter.
* `not_array_inlined_perm` — two items with which it does.
-/

namespace DocumentQuery

/-- Followed from first item to first item, the value ends at a member of an enumeration or at the
description of a vector. -/
def Value.leadsToOwnForm : Value → Bool
  | .vectorType _ => true
  | .enum _ => true
  | .array (v :: _) => v.leadsToOwnForm
  | _ => false
termination_by structural v => v

/-! ## What is found for the type of a value -/

theorem Value.dataType_ne_unknown (v : Value) : v.dataType ≠ .unknown := by
  cases v with
  | enum m => cases m <;> exact nofun
  | array items => cases items <;> exact nofun
  | _ => exact nofun

namespace Registry

/-- An array of something known is rendered as JSON exactly if its items are. -/
theorem find?_builtin_array {element : DataType} (h : element ≠ .unknown) :
    builtin.find? (.array element) = (builtin.find? element).bind fun m =>
      if m.rendering = .json then some (.json (.array element)) else none := by
  refine find?_array ?_
  rintro (hEntry | hUnknown)
  · cases hEntry
  · exact h (DataType.array.inj hUnknown)

/-- Where first items lead to no form of its own, JSON is found. -/
theorem find?_dataType_of_plain {v : Value} (h : v.leadsToOwnForm = false) :
    builtin.find? v.dataType = some (.json v.dataType) := by
  fun_induction Value.leadsToOwnForm v with
  | case1 v => cases h
  | case2 m => cases h
  | case3 v rest ih =>
    rw [Value.dataType, find?_builtin_array v.dataType_ne_unknown, ih h]
    rfl
  | case4 v hVector hEnum hArray =>
    -- scalars and objects, whose types have entries, and the empty array, which needs none
    cases v with
    | vectorType t => exact absurd rfl (hVector t)
    | enum m => exact absurd rfl (hEnum m)
    | array items =>
      cases items with
      | nil => rfl
      | cons v rest => exact absurd rfl (hArray v rest)
    | _ => rfl

/-- Where they do, nothing is found for an array around the value. -/
theorem find?_array_of_ownForm {v : Value} (h : v.leadsToOwnForm = true) :
    builtin.find? (.array v.dataType) = none := by
  fun_induction Value.leadsToOwnForm v with
  | case1 v => rfl
  | case2 m => cases m <;> rfl
  | case3 v rest ih =>
    have hKnown : DataType.array v.dataType ≠ .unknown := nofun
    rw [Value.dataType, find?_builtin_array hKnown, ih h]
    rfl
  | case4 v => cases h

/-- What is found for an array, by where its first items lead. -/
theorem find?_dataType_array (items : List Value) :
    builtin.find? (Value.array items).dataType =
      if (Value.array items).leadsToOwnForm then none
      else some (.json (Value.array items).dataType) := by
  split
  · next hOwn =>
    cases items with
    | nil => cases hOwn
    | cons v rest => exact find?_array_of_ownForm hOwn
  · next hPlain => exact find?_dataType_of_plain (Bool.eq_false_of_not_eq_true hPlain)

end Registry

/-! ## Values under their own types -/

/-- Under a mapping for JSON a value is written into the text as a document. -/
theorem TypeMapping.literal_of_json {m : TypeMapping} (h : m.rendering = .json) (v : Value) :
    m.literal v = .ok v.toJson.compact := by
  obtain ⟨type, rendering⟩ := m
  obtain rfl : rendering = .json := h
  cases v <;> rfl

/-- **Inferred types and built-in mappings fit together.** A mapping is found for the type that a
value shows, and renders the value in the text and beside it. Or none is found, which is all that
can go wrong: the value is an array then that leads to a member of an enumeration or to the
description of a vector. -/
theorem Value.inferred_mapping_renders (v : Value) :
    (∃ m literal sent, Registry.builtin.require v.dataType = .ok m ∧ m.literal v = .ok literal ∧
      m.payload v = .ok sent ∧ ¬ ∃ items, v = .array items ∧ v.leadsToOwnForm = true) ∨
    (Registry.builtin.require v.dataType = .error (.mappingNotFound v.dataType) ∧
      ∃ items, v = .array items ∧ v.leadsToOwnForm = true) := by
  cases h : v.leadsToOwnForm with
  | false =>
    refine .inl ⟨.json v.dataType, _, _, ?_, TypeMapping.literal_of_json rfl v,
      TypeMapping.payload_of_json rfl v, by simp⟩
    rw [Registry.require, Registry.find?_dataType_of_plain h]
  | true =>
    cases v with
    | vectorType t => exact .inl ⟨⟨.vectorType, .descriptor⟩, _, _, rfl, rfl, rfl, by simp⟩
    | enum m =>
      refine .inl ⟨⟨m.dataType, .enumMember⟩, _, _, ?_, rfl, rfl, by simp⟩
      cases m <;> rfl
    | array items =>
      refine .inr ⟨?_, items, rfl, rfl⟩
      rw [Registry.require, Registry.find?_dataType_array, if_pos h]
    | _ => cases h

/-! ## Arrays in another order -/

/-- Whether an array is rendered in a raw text is decided by its first item. -/
theorem array_inlined_iff (items : List Value) :
    (∃ literals, Lowering.rawLiterals .builtin [.array items] = .ok literals) ↔
      ∀ v ∈ items.head?, v.leadsToOwnForm = false := by
  have hFirst : (Value.array items).leadsToOwnForm = false ↔
      ∀ v ∈ items.head?, v.leadsToOwnForm = false := by
    cases items <;> simp [Value.leadsToOwnForm]
  rw [Lowering.rawLiterals_ok_iff, List.forall_mem_singleton, Registry.find?_dataType_array,
    ← hFirst]
  cases (Value.array items).leadsToOwnForm with
  | false =>
    have hLiteral := TypeMapping.literal_of_json (m := .json (Value.array items).dataType) rfl
      (.array items)
    exact iff_of_true ⟨_, _, rfl, hLiteral⟩ rfl
  | true => exact iff_of_false (by rintro ⟨m, literal, ⟨⟩, -⟩) nofun

/-- Each item can be made the first one. -/
theorem exists_perm_cons_of_mem {items : List Value} {v : Value} (h : v ∈ items) :
    ∃ rest, (v :: rest).Perm items := by
  obtain ⟨before, behind, rfl⟩ := List.append_of_mem h
  exact ⟨before ++ behind, List.perm_middle.symm⟩

theorem array_inlined_alike_iff (items : List Value) :
    (∀ items' : List Value, items'.Perm items →
      ((∃ literals, Lowering.rawLiterals .builtin [.array items'] = .ok literals) ↔
        ∃ literals, Lowering.rawLiterals .builtin [.array items] = .ok literals)) ↔
      (∀ v ∈ items, v.leadsToOwnForm = true) ∨ ∀ v ∈ items, v.leadsToOwnForm = false := by
  simp only [array_inlined_iff]
  constructor
  · intro hSame
    by_cases hAll : ∀ v ∈ items, v.leadsToOwnForm = true
    · exact .inl hAll
    obtain ⟨v, hv, hPlain⟩ : ∃ v ∈ items, v.leadsToOwnForm = false := by
      simpa using hAll
    -- with the plain item in front the array is rendered, so with every other one too
    obtain ⟨rest, hRest⟩ := exists_perm_cons_of_mem hv
    have hFirst : ∀ w ∈ items.head?, w.leadsToOwnForm = false :=
      (hSame _ hRest).mp fun w hw => Option.some.inj hw ▸ hPlain
    refine .inr fun w hw => ?_
    obtain ⟨rest', hRest'⟩ := exists_perm_cons_of_mem hw
    exact (hSame _ hRest').mpr hFirst w rfl
  · rintro (hAll | hNone) items' hPerm
    · cases items' with
      | nil => rw [hPerm.nil_eq]
      | cons w rest' =>
        cases items with
        | nil => cases hPerm.eq_nil
        | cons v rest =>
          have hv := hAll v List.mem_cons_self
          have hw := hAll w (hPerm.subset List.mem_cons_self)
          simp [hv, hw]
    · exact iff_of_true (fun v hv => hNone v (hPerm.subset (List.mem_of_head? hv)))
        fun v hv => hNone v (List.mem_of_head? hv)

theorem array_refused_iff (items : List Value) :
    (∀ items' : List Value, items'.Perm items →
      ¬ ∃ literals, Lowering.rawLiterals .builtin [.array items'] = .ok literals) ↔
      items ≠ [] ∧ ∀ v ∈ items, v.leadsToOwnForm = true := by
  simp only [array_inlined_iff]
  constructor
  · intro hRefused
    refine ⟨?_, fun v hv => ?_⟩
    · rintro rfl
      exact hRefused [] .nil nofun
    · obtain ⟨rest, hRest⟩ := exists_perm_cons_of_mem hv
      simpa using hRefused _ hRest
  · rintro ⟨hNe, hAll⟩ items' hPerm hPlain
    cases items' with
    | nil => exact hNe hPerm.nil_eq.symm
    | cons v rest =>
      have hv := hAll v (hPerm.subset List.mem_cons_self)
      rw [hPlain v rfl] at hv
      cases hv

/-- **When the order of items does not matter.** An array is rendered in a raw text in all orders
of its items or in none, exactly if all of them lead to members of enumerations or descriptions of
vectors, or none of them does. It is refused in every order exactly if there is an item and all of
them do. -/
theorem array_inlined_perm_iff (items : List Value) :
    ((∀ items' : List Value, items'.Perm items →
        ((∃ literals, Lowering.rawLiterals .builtin [.array items'] = .ok literals) ↔
          ∃ literals, Lowering.rawLiterals .builtin [.array items] = .ok literals)) ↔
      (∀ v ∈ items, v.leadsToOwnForm = true) ∨ ∀ v ∈ items, v.leadsToOwnForm = false) ∧
    ((∀ items' : List Value, items'.Perm items →
        ¬ ∃ literals, Lowering.rawLiterals .builtin [.array items'] = .ok literals) ↔
      items ≠ [] ∧ ∀ v ∈ items, v.leadsToOwnForm = true) :=
  ⟨array_inlined_alike_iff items, array_refused_iff items⟩

/-- An array of a number and a member of an enumeration is rendered, but not with the member in
front. -/
theorem not_array_inlined_perm :
    ¬ ∀ items items' : List Value, items'.Perm items →
        ((∃ literals, Lowering.rawLiterals .builtin [.array items'] = .ok literals) ↔
          ∃ literals, Lowering.rawLiterals .builtin [.array items] = .ok literals) := by
  intro hSame
  have hSwap := hSame [.int 1, .enum (.distanceFunction .cosine)]
    [.enum (.distanceFunction .cosine), .int 1] (.swap _ _ _)
  obtain ⟨literals, hRendered⟩ := hSwap.mpr ⟨_, rfl⟩
  cases hRendered

end DocumentQuery
