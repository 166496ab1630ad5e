import DocumentQuery.Proofs.Document.Records
import DocumentQuery.Proofs.Document.Writer
import DocumentQuery.Proofs.Json.Reader

/-!
# Trees that are nested too deep

A part of a text that is nested too deep has no value. Such a part of the document of a
select is inside some expression, and an expression is taken in as a whole before its form
is known. So a select whose document has lost a part cannot be read.

Main results:

* `Expression.bounded` — an expression that can be read has lost nothing.
* `Select.bounded` — nor has a select.
-/

namespace DocumentQuery

namespace Json

theorem cutItems_eq (levels : Nat) (js : List Json) : cutItems levels js = js.map (cut levels) := by
  induction js with
  | nil => rfl
  | cons j js ih => rw [cutItems, ih, List.map_cons]

theorem cutMembers_eq (levels : Nat) (ms : List (String × Json)) :
    cutMembers levels ms = ms.map fun m => (m.1, m.2.cut levels) := by
  induction ms with
  | nil => rfl
  | cons m ms ih => rw [cutMembers, ih, List.map_cons]

theorem depthOfItems_le_iff {js : List Json} {levels : Nat} :
    depthOfItems js ≤ levels ↔ ∀ j ∈ js, j.depth ≤ levels := by
  induction js with
  | nil => simp [depthOfItems]
  | cons j js ih => rw [depthOfItems, max_le_iff, ih, List.forall_mem_cons]

theorem depthOfMembers_le_iff {ms : List (String × Json)} {levels : Nat} :
    depthOfMembers ms ≤ levels ↔ ∀ m ∈ ms, m.2.depth ≤ levels := by
  induction ms with
  | nil => simp [depthOfMembers]
  | cons m ms ih => rw [depthOfMembers, max_le_iff, ih, List.forall_mem_cons]

/-- The document has lost nothing if it can be read once it has been cut. -/
def Bounded (kind : Kind) (j : Json) : Prop :=
  ∀ levels r slot, (j.cut levels).read r kind = .ok slot → j.depth ≤ levels

theorem bounded_flat {kind : Kind} {j : Json} (h : j.depth = 0) : Bounded kind j :=
  fun levels _ _ _ => h ▸ Nat.zero_le levels

theorem bounded_list {kind : Kind} {js : List Json} (h : ∀ j ∈ js, Bounded kind j) :
    Bounded (.list kind) (.arr js) := by
  intro levels r slot hRead
  cases levels with
  | zero => cases hRead
  | succ levels =>
    -- an item that had lost something would not have been read
    refine Nat.succ_le_succ (depthOfItems_le_iff.mpr fun j hj => ?_)
    obtain ⟨slots, hSlots, -⟩ := map_eq_ok.mp hRead
    have hItems : (childrenOf (cutItems levels js)).mapM (fun child => child.read r kind) =
      .ok slots := hSlots
    clear hRead hSlots
    rw [cutItems_eq] at hItems
    induction js generalizing slots with
    | nil => cases hj
    | cons j' js ih =>
      rw [List.map_cons, childrenOf, List.mapM_cons, bind_eq_ok] at hItems
      obtain ⟨slot, hFirst, hMore⟩ := hItems
      obtain ⟨rest, hRest, -⟩ := bind_eq_ok.mp hMore
      obtain ⟨hBounded, hOthers⟩ := List.forall_mem_cons.mp h
      rcases List.mem_cons.mp hj with rfl | hOther
      · exact hBounded levels r slot hFirst
      · exact ih hOthers hOther rest hRest

theorem Field.depth_le_of_read {field : Field} {r : Reading} {levels : Nat} {j : Json} {slot : Slot}
    (h : Bounded field.kind j) (hRead : field.read r (j.cut levels).child = .ok slot) :
    j.depth ≤ levels := by
  unfold Field.read at hRead
  split at hRead
  · -- only null itself is null once it has been cut
    rename_i hNull
    cases j with
    | null => exact Nat.zero_le levels
    | arr items => cases levels <;> cases hNull
    | obj members => cases levels <;> cases hNull
    | _ => cases hNull
  · cases hRead
  · exact h levels r slot hRead

/-- Each member is read as a field of the record, and has then lost nothing. -/
def FieldsOf (record : Record) (ms : List (String × Json)) : Prop :=
  ∀ m ∈ ms, ∃ field, record.field? m.1 = some field ∧ Bounded field.kind m.2

/-- Members that have been read as the fields of a record have lost nothing. -/
theorem depth_le_of_readMembers {record : Record} {r : Reading} {seen slots : Slots} {levels : Nat}
    {ms : List (String × Json)} (h : FieldsOf record ms)
    (hRead : record.readMembers r none seen (keyedChildrenOf (cutMembers levels ms)) = .ok slots) :
    depthOfMembers ms ≤ levels := by
  induction ms generalizing seen with
  | nil => exact Nat.zero_le levels
  | cons m ms ih =>
    obtain ⟨key, j⟩ := m
    obtain ⟨⟨field, hField, hBounded⟩, hOthers⟩ := List.forall_mem_cons.mp h
    rw [cutMembers, keyedChildrenOf, Record.readMembers, if_neg (Option.some_ne_none key).symm,
      hField] at hRead
    simp only at hRead
    split at hRead
    · cases hRead
    · obtain ⟨slot, hSlot, hGo⟩ := bind_eq_ok.mp hRead
      exact max_le (Field.depth_le_of_read hBounded hSlot) (ih hOthers hGo)

/-- An object that is read as a record has lost nothing. -/
theorem bounded_record {record : Record} {kind : Kind} {ms : List (String × Json)}
    (h : FieldsOf record ms)
    (hRecord : ∀ (node : Node) r slot, node.read r kind = .ok slot →
      ∃ slots, record.read r node = .ok slots) :
    Bounded kind (.obj ms) := by
  intro levels r slot hRead
  cases levels with
  | zero =>
    -- nothing is left of the object
    obtain ⟨slots, hSlots⟩ := hRecord _ r slot hRead
    cases hSlots
  | succ levels =>
    obtain ⟨slots, hSlots⟩ := hRecord (objectNode (cutMembers levels ms)) r slot hRead
    exact Nat.succ_le_succ (depth_le_of_readMembers h hSlots)

/-- Whatever stands beside a tag is taken in. -/
theorem collect_of_tagAmong {α : Type} [Enumerated α] {r : Reading} {key : String} {a : α}
    {found : Option α} {ms : List (String × Json)} (h : tagAmong r key (some a) ms = .ok found) :
    ∀ m ∈ ms, m.2.collect = .ok () := by
  induction ms with
  | nil => exact List.forall_mem_nil _
  | cons m ms ih =>
    obtain ⟨key', j⟩ := m
    unfold tagAmong at h
    split at h
    · cases h
    · obtain ⟨_, hCollect, hGo⟩ := bind_eq_ok.mp h
      exact List.forall_mem_cons.mpr ⟨hCollect, ih hGo⟩

end Json

open Json

/-- An expression is taken in before its form is known. -/
theorem Expression.bounded (e : Expression) : Bounded .expression e.toJson := by
  intro levels r slot h
  have hSound := e.toJson_sound
  rw [e.toJson_eq_tagged] at h hSound ⊢
  have hMembers : soundMembers (("type", .str e.form.name) :: e.fields) = true := hSound
  cases levels with
  | zero => cases h
  | succ levels =>
    obtain ⟨e', hRead, -⟩ := map_eq_ok.mp h
    obtain ⟨form, hTag, -⟩ := bind_eq_ok.mp hRead
    obtain ⟨found, hFound, -⟩ := bind_eq_ok.mp hTag
    -- the tag comes first, so all fields are collected behind it
    rw [cutMembers, tagAmong, if_pos rfl] at hFound
    obtain ⟨_, -, hBeside⟩ := bind_eq_ok.mp hFound
    have hCollect := collect_of_tagAmong hBeside
    refine Nat.succ_le_succ (max_le (Nat.zero_le levels) (depthOfMembers_le_iff.mpr fun m hm => ?_))
    have hCut : (m.1, m.2.cut levels) ∈ cutMembers levels e.fields := by
      rw [cutMembers_eq]
      exact List.mem_map_of_mem hm
    have hMember := soundMembers_iff.mp (soundMembers_cons hMembers).2 m hm
    exact (collect_cut_iff hMember).mp (hCollect _ hCut)

theorem Projection.bounded (p : Projection) : Bounded .projection p.toJson := by
  obtain ⟨expression, aliasName, name⟩ := p
  have hFields : FieldsOf Record.ofProjection
      [("expression", expression.toJson), ("alias", .str aliasName), ("name", .str name)] := by
    simp only [FieldsOf, List.forall_mem_cons]
    exact ⟨⟨_, rfl, expression.bounded⟩, ⟨_, rfl, bounded_flat rfl⟩, ⟨_, rfl, bounded_flat rfl⟩,
      List.forall_mem_nil _⟩
  refine bounded_record hFields fun node r slot hRead => ?_
  obtain ⟨slots, hSlots, -⟩ := bind_eq_ok.mp hRead
  exact ⟨slots, hSlots⟩

theorem Source.bounded (s : Source) : Bounded .source s.toJson := by
  obtain ⟨container, aliasName, eachItem⟩ := s
  have hFields : FieldsOf Record.ofSource (("container", container.toJson) ::
      optionalMember "alias" (aliasName.map .str) ++ [("with_in", .bool eachItem)]) := by
    -- the alias may be left out
    cases aliasName <;>
      simp only [FieldsOf, optionalMember, Option.map, List.cons_append, List.nil_append,
        List.forall_mem_cons]
    · exact ⟨⟨_, rfl, container.bounded⟩, ⟨_, rfl, bounded_flat rfl⟩, List.forall_mem_nil _⟩
    · exact ⟨⟨_, rfl, container.bounded⟩, ⟨_, rfl, bounded_flat rfl⟩, ⟨_, rfl, bounded_flat rfl⟩,
        List.forall_mem_nil _⟩
  refine bounded_record hFields fun node r slot hRead => ?_
  obtain ⟨slots, hSlots, -⟩ := bind_eq_ok.mp hRead
  exact ⟨slots, hSlots⟩

theorem SortKey.bounded (k : SortKey) : Bounded .sortKey k.toJson := by
  obtain ⟨expression, isAscending⟩ := k
  have hFields : FieldsOf Record.ofSortKey
      [("expression", expression.toJson), ("is_ascending", .bool isAscending)] := by
    simp only [FieldsOf, List.forall_mem_cons]
    exact ⟨⟨_, rfl, expression.bounded⟩, ⟨_, rfl, bounded_flat rfl⟩, List.forall_mem_nil _⟩
  refine bounded_record hFields fun node r slot hRead => ?_
  obtain ⟨slots, hSlots, -⟩ := bind_eq_ok.mp hRead
  exact ⟨slots, hSlots⟩

/-! ## Selects -/

theorem bounded_projections (ps : List Projection) :
    ∀ j ∈ projectionsToJson ps, Bounded .projection j := by
  induction ps with
  | nil => exact List.forall_mem_nil _
  | cons p ps ih => exact List.forall_mem_cons.mpr ⟨p.bounded, ih⟩

theorem bounded_sources (ss : List Source) : ∀ j ∈ sourcesToJson ss, Bounded .source j := by
  induction ss with
  | nil => exact List.forall_mem_nil _
  | cons s ss ih => exact List.forall_mem_cons.mpr ⟨s.bounded, ih⟩

theorem bounded_sortKeys (ks : List SortKey) : ∀ j ∈ sortKeysToJson ks, Bounded .sortKey j := by
  induction ks with
  | nil => exact List.forall_mem_nil _
  | cons k ks ih => exact List.forall_mem_cons.mpr ⟨k.bounded, ih⟩

theorem fieldsOf_listMember {record : Record} {key : String} {kind : Kind} {js : List Json}
    {field : Field} (hField : record.field? key = some field) (hKind : field.kind = .list kind)
    (h : ∀ j ∈ js, Bounded kind j) : FieldsOf record (listMember key js) := by
  cases js with
  | nil => exact List.forall_mem_nil _
  | cons j js =>
    exact List.forall_mem_singleton.mpr ⟨field, hField, hKind ▸ bounded_list h⟩

theorem fieldsOf_optionalExpression {record : Record} (key : String) {field : Field}
    (hField : record.field? key = some field) (hKind : field.kind = .expression)
    (e : Option Expression) : FieldsOf record (optionalExpression key e) := by
  cases e with
  | none => exact List.forall_mem_nil _
  | some e => exact List.forall_mem_singleton.mpr ⟨field, hField, hKind ▸ e.bounded⟩

theorem Select.fieldsOf_members (s : Select) : FieldsOf Record.ofSelect s.members := by
  obtain ⟨isDistinct, projection, singleValue, sources, predicate, orderings, offset, limit⟩ := s
  have hProjection : FieldsOf Record.ofSelect (listMember "projection" _) :=
    fieldsOf_listMember rfl rfl (bounded_projections projection)
  have hSources : FieldsOf Record.ofSelect (listMember "sources" _) :=
    fieldsOf_listMember rfl rfl (bounded_sources sources)
  have hPredicate : FieldsOf Record.ofSelect _ :=
    fieldsOf_optionalExpression "predicate" rfl rfl predicate
  have hOrderings : FieldsOf Record.ofSelect (listMember "orderings" _) :=
    fieldsOf_listMember rfl rfl (bounded_sortKeys orderings)
  have hOffset : FieldsOf Record.ofSelect _ :=
    fieldsOf_optionalExpression "offset" rfl rfl offset
  have hLimit : FieldsOf Record.ofSelect _ :=
    fieldsOf_optionalExpression "limit" rfl rfl limit
  simp only [FieldsOf, Select.members, List.cons_append, List.append_assoc, List.forall_mem_cons,
    List.forall_mem_append]
  exact ⟨⟨_, rfl, bounded_flat rfl⟩, hProjection, ⟨_, rfl, bounded_flat rfl⟩, hSources, hPredicate,
    hOrderings, hOffset, hLimit⟩

/-- The document of a select has lost nothing if it can be read once it has been cut. -/
theorem Select.bounded (s : Select) : Bounded .select s.toJson := by
  refine bounded_record s.fieldsOf_members fun node r slot hRead => ?_
  obtain ⟨slots, hSlots, -⟩ := map_eq_ok.mp hRead
  exact ⟨slots, hSlots⟩

end DocumentQuery
