import DocumentQuery.Document.Reader
import DocumentQuery.Proofs.Expression.Values
import DocumentQuery.Proofs.Json.Keys
import DocumentQuery.Proofs.Outcome

/-!
# What holds of every value that is read

Every reader hands on the values that the readers of the parts below have found, and only
the reader of values makes any. So what holds of every value that it makes holds of every
value in whatever is read.

Main definitions and results:

* `Slot.Holds`, `Node.Holds` — the invariant of the reader.
* `Kept` — what the reader of values has to keep.
* `Node.read_holds` — then one node keeps it.
* `Json.read_holds` — hence whole documents do.
* `Select.holds_of_ofText` — the values of a select that a text describes.
-/

namespace DocumentQuery

/-! ## The invariant -/

mutual

/-- The values in what was read for a part. -/
def Slot.held : Slot → List Value
  | .value v => [v]
  | .rawArguments a => a.values
  | .expression e => e.values
  | .select s => s.values
  | .projection p => p.values
  | .source s => s.values
  | .sortKey k => k.values
  | .list slots => heldBySlots slots
  | .values entries => entries.map Prod.snd
  | _ => []
termination_by structural slot => slot

def heldBySlots : List Slot → List Value
  | [] => []
  | slot :: slots => slot.held ++ heldBySlots slots
termination_by structural slots => slots

end

/-- `P` holds of all values. -/
def AllHold (P : Value → Prop) (values : List Value) : Prop := ∀ v ∈ values, P v

variable {P : Value → Prop}

theorem AllHold.append {values values' : List Value} (h : AllHold P values)
    (h' : AllHold P values') : AllHold P (values ++ values') :=
  List.forall_mem_append.mpr ⟨h, h'⟩

theorem allHold_nil : AllHold P [] := nofun

def Slot.Holds (P : Value → Prop) (slot : Slot) : Prop := AllHold P slot.held

def Slots.Holds (P : Value → Prop) (slots : Slots) : Prop := ∀ entry ∈ slots, Slot.Holds P entry.2

/-- `P` holds of whatever is read for a child. -/
def Child.Holds (P : Value → Prop) (child : Child) : Prop :=
  ∀ r kind slot, child.read r kind = .ok slot → slot.Holds P

/-- The readers of the parts below keep the invariant. -/
structure Node.Holds (P : Value → Prop) (node : Node) : Prop where
  items : ∀ child ∈ node.items, child.Holds P
  members : ∀ entry ∈ node.members, Child.Holds P entry.2

/-! ## Records -/

theorem Field.read_holds {field : Field} {r : Reading} {child : Child} {slot : Slot}
    (hChild : child.Holds P) (h : field.read r child = .ok slot) : slot.Holds P := by
  unfold Field.read at h
  split at h
  · -- null, where it may stand, holds nothing
    cases h
    exact allHold_nil
  · cases h
  · exact hChild _ _ _ h

theorem Slots.Holds.concat {slots : Slots} (h : slots.Holds P) {key : String} {slot : Slot}
    (hSlot : slot.Holds P) : Slots.Holds P (slots ++ [(key, slot)]) :=
  List.forall_mem_append.mpr ⟨h, List.forall_mem_singleton.mpr hSlot⟩

namespace Record

theorem readMembers_holds {record : Record} {r : Reading} {tag : Option String}
    {seen slots : Slots} {members : List (String × Child)}
    (hMembers : ∀ entry ∈ members, Child.Holds P entry.2)
    (hSeen : seen.Holds P) (h : record.readMembers r tag seen members = .ok slots) :
    slots.Holds P := by
  induction members generalizing seen with
  | nil => exact Except.ok.inj h ▸ hSeen
  | cons member rest ih =>
    obtain ⟨key, child⟩ := member
    obtain ⟨hChild, hRest⟩ := List.forall_mem_cons.mp hMembers
    unfold readMembers at h
    split at h
    · -- the tag, which is passed over
      exact ih hRest hSeen h
    · split at h
      · -- a field of the record, which must not have been seen
        split at h
        · cases h
        · obtain ⟨slot, hSlot, hGo⟩ := bind_eq_ok.mp h
          exact ih hRest (hSeen.concat (Field.read_holds hChild hSlot)) hGo
      · -- any other key
        split at h
        · cases h
        · obtain ⟨-, -, hGo⟩ := bind_eq_ok.mp h
          exact ih hRest hSeen hGo

theorem readItems_holds {r : Reading} {seen slots : Slots} {fields : List Field}
    {children : List Child} (hChildren : ∀ child ∈ children, child.Holds P)
    (hSeen : seen.Holds P) (h : readItems r seen fields children = .ok slots) :
    slots.Holds P := by
  induction fields generalizing seen children with
  | nil =>
    -- no field is left, so nothing may be left to read
    match children, h with
    | [], h => exact Except.ok.inj h ▸ hSeen
    | [child], h =>
      unfold readItems at h
      split at h <;> cases h
    | _ :: _ :: _, h => cases h
  | cons field fields ih =>
    cases children with
    | nil =>
      -- fields at the end may be missing
      unfold readItems at h
      split at h
      · exact ih hChildren hSeen h
      · cases h
    | cons child rest =>
      obtain ⟨hChild, hRest⟩ := List.forall_mem_cons.mp hChildren
      unfold readItems at h
      obtain ⟨slot, hSlot, hGo⟩ := bind_eq_ok.mp h
      exact ih hRest (hSeen.concat (Field.read_holds hChild hSlot)) hGo

theorem holds_nil : Slots.Holds P [] := nofun

theorem read_holds {record : Record} {r : Reading} {node : Node} {slots : Slots}
    (hNode : node.Holds P) (h : record.read r node = .ok slots) : slots.Holds P := by
  unfold Record.read at h
  split at h
  · exact readMembers_holds hNode.members holds_nil h
  · obtain ⟨-, -, hGo⟩ := bind_eq_ok.mp h
    cases hGo
  · exact readItems_holds hNode.items holds_nil h
  · cases h

theorem readBeside_holds {record : Record} {tag : String} {node : Node} {slots : Slots}
    (hNode : node.Holds P) (h : record.readBeside tag node = .ok slots) : slots.Holds P := by
  unfold readBeside at h
  split at h
  · exact readMembers_holds hNode.members holds_nil h
  · exact readItems_holds (fun child hMem => hNode.items child (List.mem_of_mem_drop hMem))
      holds_nil h
  · cases h

end Record

/-! ## What is found in a record -/

namespace Slots

variable {slots : Slots} {key : String}

theorem require_eq_ok {α : Type} {pick : Slot → Option α} {a : α} :
    slots.require key pick = .ok a ↔ slots.find? key pick = some a := by
  unfold require
  cases slots.find? key pick <;> simp

/-- `pick` finds things with the values of their slot. -/
def Picks {α : Type} (pick : Slot → Option α) (valuesOf : α → List Value) : Prop :=
  ∀ slot a, pick slot = some a → slot.held = valuesOf a

theorem picks_expression : Picks Slot.expression? Expression.values := by
  rintro slot e h
  cases slot <;> cases h
  rfl

theorem picks_value : Picks Slot.value? fun v => [v] := by
  rintro slot e h
  cases slot <;> cases h
  rfl

theorem picks_select : Picks Slot.select? Select.values := by
  rintro slot e h
  cases slot <;> cases h
  rfl

theorem picks_projection : Picks Slot.projection? Projection.values := by
  rintro slot e h
  cases slot <;> cases h
  rfl

theorem picks_source : Picks Slot.source? Source.values := by
  rintro slot e h
  cases slot <;> cases h
  rfl

theorem picks_sortKey : Picks Slot.sortKey? SortKey.values := by
  rintro slot e h
  cases slot <;> cases h
  rfl

theorem picks_rawArguments : Picks Slot.rawArguments? RawArguments.values := by
  rintro slot e h
  cases slot <;> cases h
  rfl

variable {α : Type} {pick : Slot → Option α} {valuesOf : α → List Value}

/-- Lists of things are picked one by one. -/
theorem picks_list (hPick : Picks pick valuesOf) :
    Picks (Slot.list? pick) fun as => as.flatMap valuesOf := by
  rintro slot as h
  cases slot <;> try cases h
  rename_i items
  show heldBySlots items = as.flatMap valuesOf
  have hItems : items.mapM pick = some as := h
  clear h
  induction items generalizing as with
  | nil =>
    cases hItems
    rfl
  | cons item items ih =>
    rw [List.mapM_cons] at hItems
    obtain ⟨a, hFirst, hRest⟩ := Option.bind_eq_some_iff.mp hItems
    obtain ⟨rest, hTail, hCons⟩ := Option.bind_eq_some_iff.mp hRest
    cases hCons
    rw [heldBySlots, hPick item a hFirst, ih rest hTail, List.flatMap_cons]

theorem find?_holds (hPick : Picks pick valuesOf) (hSlots : slots.Holds P) {a : α}
    (h : slots.find? key pick = some a) : AllHold P (valuesOf a) := by
  obtain ⟨slot, hSlot, hPicked⟩ := Option.bind_eq_some_iff.mp h
  obtain ⟨before, after, hSplit, -⟩ := List.lookup_eq_some_iff.mp hSlot
  have hHolds := hSlots (key, slot) (hSplit ▸ List.mem_append_right _ List.mem_cons_self)
  rw [← hPick slot a hPicked]
  exact hHolds

theorem listD_holds (hPick : Picks pick valuesOf) (hSlots : slots.Holds P) :
    AllHold P ((slots.listD key pick).flatMap valuesOf) := by
  unfold listD
  cases h : slots.find? key (Slot.list? pick) with
  | none => exact allHold_nil
  | some as => exact find?_holds (picks_list hPick) hSlots h

end Slots

/-! ## Lists of values -/

namespace Node

theorem readValues_holds {children : List Child} (hChildren : ∀ child ∈ children, child.Holds P)
    {values : List Value} (h : readValues children = .ok values) : AllHold P values := by
  induction children generalizing values with
  | nil => exact Except.ok.inj h ▸ allHold_nil
  | cons child rest ih =>
    obtain ⟨hChild, hRest⟩ := List.forall_mem_cons.mp hChildren
    unfold readValues at h
    rw [List.mapM_cons, bind_eq_ok] at h
    obtain ⟨v, hValue, hTail⟩ := h
    obtain ⟨vs, hValues, hCons⟩ := bind_eq_ok.mp hTail
    obtain rfl := Except.ok.inj hCons
    obtain ⟨slot, hSlot, hRead⟩ := bind_eq_ok.mp hValue
    have hHolds := hChild _ _ slot hSlot
    cases slot <;> cases hRead
    exact List.forall_mem_cons.mpr ⟨hHolds v (List.mem_singleton_self v), ih hRest hValues⟩

theorem readEntries_holds {members : List (String × Child)}
    (hMembers : ∀ entry ∈ members, Child.Holds P entry.2) {entries : List (String × Value)}
    (h : readEntries members = .ok entries) : AllHold P (entries.map Prod.snd) := by
  obtain ⟨values, hValues, hEntries⟩ := bind_eq_ok.mp h
  obtain rfl := Except.ok.inj hEntries
  have hHolds : AllHold P values := by
    refine readValues_holds ?_ hValues
    intro child hMem
    obtain ⟨entry, hEntry, rfl⟩ := List.mem_map.mp hMem
    exact hMembers entry hEntry
  intro v hMem
  obtain ⟨⟨key, v⟩, hEntry, rfl⟩ := List.mem_map.mp hMem
  -- an entry that is kept has one of the values that were read
  exact hHolds v (List.of_mem_zip (Keys.mem_of_mem_ofList hEntry)).2

end Node

/-! ## Trees -/

theorem valuesOfAll_eq (es : List Expression) : valuesOfAll es = es.flatMap Expression.values := by
  induction es with
  | nil => rfl
  | cons e es ih => rw [valuesOfAll, ih, List.flatMap_cons]

theorem valuesOfProjections_eq (ps : List Projection) :
    valuesOfProjections ps = ps.flatMap Projection.values := by
  induction ps with
  | nil => rfl
  | cons p ps ih => rw [valuesOfProjections, ih, List.flatMap_cons]

theorem valuesOfSources_eq (ss : List Source) :
    valuesOfSources ss = ss.flatMap Source.values := by
  induction ss with
  | nil => rfl
  | cons s ss ih => rw [valuesOfSources, ih, List.flatMap_cons]

theorem valuesOfSortKeys_eq (ks : List SortKey) :
    valuesOfSortKeys ks = ks.flatMap SortKey.values := by
  induction ks with
  | nil => rfl
  | cons k ks ih => rw [valuesOfSortKeys, ih, List.flatMap_cons]

section Trees

variable {slots : Slots} (hSlots : slots.Holds P)

include hSlots

theorem valuesOfOptional_holds (key : String) :
    AllHold P (valuesOfOptional (slots.find? key Slot.expression?)) := by
  cases h : slots.find? key Slot.expression? with
  | none => exact allHold_nil
  | some e => exact Slots.find?_holds Slots.picks_expression hSlots h

theorem Select.ofSlots_holds : AllHold P (Select.ofSlots slots).values := by
  show AllHold P (valuesOfProjections _ ++ (valuesOfSources _ ++ (valuesOfOptional _ ++
    (valuesOfSortKeys _ ++ (valuesOfOptional _ ++ valuesOfOptional _)))))
  rw [valuesOfProjections_eq, valuesOfSources_eq, valuesOfSortKeys_eq]
  exact (Slots.listD_holds Slots.picks_projection hSlots).append
    ((Slots.listD_holds Slots.picks_source hSlots).append
      ((valuesOfOptional_holds hSlots _).append
        ((Slots.listD_holds Slots.picks_sortKey hSlots).append
          ((valuesOfOptional_holds hSlots _).append (valuesOfOptional_holds hSlots _)))))

theorem Projection.ofSlots_holds {p : Projection} (h : Projection.ofSlots slots = .ok p) :
    AllHold P p.values := by
  simp only [Projection.ofSlots, bind_eq_ok, Slots.require_eq_ok, Except.ok.injEq] at h
  obtain ⟨e, hExpression, name, -, rfl⟩ := h
  exact Slots.find?_holds Slots.picks_expression hSlots hExpression

theorem Source.ofSlots_holds {s : Source} (h : Source.ofSlots slots = .ok s) :
    AllHold P s.values := by
  simp only [Source.ofSlots, bind_eq_ok, Slots.require_eq_ok, Except.ok.injEq] at h
  obtain ⟨e, hContainer, rfl⟩ := h
  exact Slots.find?_holds Slots.picks_expression hSlots hContainer

theorem SortKey.ofSlots_holds {k : SortKey} (h : SortKey.ofSlots slots = .ok k) :
    AllHold P k.values := by
  simp only [SortKey.ofSlots, bind_eq_ok, Slots.require_eq_ok, Except.ok.injEq] at h
  obtain ⟨e, hExpression, rfl⟩ := h
  exact Slots.find?_holds Slots.picks_expression hSlots hExpression

theorem ArgumentsForm.build_holds {form : ArgumentsForm} {arguments : RawArguments}
    (h : form.build slots = .ok arguments) : AllHold P arguments.values := by
  cases form with
  | parameter =>
    obtain ⟨name, -, rfl⟩ := map_eq_ok.mp h
    exact allHold_nil
  | constant =>
    obtain ⟨v, hValue, rfl⟩ := map_eq_ok.mp h
    exact Slots.find?_holds Slots.picks_value hSlots (Slots.require_eq_ok.mp hValue)

/-- The values of an expression are those of what was read for its fields. -/
theorem ExpressionForm.build_holds {form : ExpressionForm} {e : Expression}
    (h : form.build slots = .ok e) : AllHold P e.values := by
  have hOne : ∀ {key e}, slots.find? key Slot.expression? = some e → AllHold P e.values :=
    fun h => Slots.find?_holds Slots.picks_expression hSlots h
  have hSelect : ∀ {key s}, slots.find? key Slot.select? = some s → AllHold P s.values :=
    fun h => Slots.find?_holds Slots.picks_select hSlots h
  have hAll : ∀ {key es}, slots.find? key (Slot.list? Slot.expression?) = some es →
      AllHold P (valuesOfAll es) := fun h =>
    valuesOfAll_eq _ ▸ Slots.find?_holds (Slots.picks_list Slots.picks_expression) hSlots h
  cases form <;>
    simp only [ExpressionForm.build, bind_eq_ok, map_eq_ok, Slots.require_eq_ok,
      Except.ok.injEq] at h
  case select =>
    exact h ▸ Select.ofSlots_holds hSlots
  case objectReference =>
    obtain ⟨name, -, rfl⟩ := h
    exact allHold_nil
  case scalarReference =>
    obtain ⟨name, -, type, -, rfl⟩ := h
    exact allHold_nil
  case keyAccess =>
    obtain ⟨object, hObject, property, -, type, -, rfl⟩ := h
    show AllHold P object.values
    exact hOne hObject
  case objectAccess =>
    obtain ⟨object, hObject, property, -, rfl⟩ := h
    show AllHold P object.values
    exact hOne hObject
  case entityProjection =>
    obtain ⟨access, hAccess, rfl⟩ := h
    show AllHold P access.values
    exact hOne hAccess
  case objectArrayProjection =>
    obtain ⟨access, hAccess, rfl⟩ := h
    show AllHold P access.values
    exact hOne hAccess
  case binary =>
    obtain ⟨operator, -, left, hLeft, right, hRight, type, -, rfl⟩ := h
    exact (hOne hLeft).append (hOne hRight)
  case unary =>
    obtain ⟨operator, -, operand, hOperand, type, -, rfl⟩ := h
    show AllHold P operand.values
    exact hOne hOperand
  case conditional =>
    obtain ⟨test, hTest, ifTrue, hTrue, ifFalse, hFalse, type, -, rfl⟩ := h
    exact (hOne hTest).append ((hOne hTrue).append (hOne hFalse))
  case function =>
    obtain ⟨name, -, type, -, rfl⟩ := h
    show AllHold P (valuesOfAll _)
    rw [valuesOfAll_eq]
    exact Slots.listD_holds Slots.picks_expression hSlots
  case constant =>
    obtain ⟨value, hValue, type, -, rfl⟩ := h
    exact Slots.find?_holds Slots.picks_value hSlots hValue
  case parameter =>
    obtain ⟨name, -, type, -, rfl⟩ := h
    exact allHold_nil
  case isIn =>
    obtain ⟨item, hItem, rfl⟩ := h
    cases hValues : slots.find? "values" (Slot.list? Slot.expression?) with
    | none =>
      show AllHold P item.values
      exact hOne hItem
    | some values => exact (hOne hItem).append (hAll hValues)
  case arrayConstant =>
    obtain ⟨items, hItems, rfl⟩ := h
    exact hAll hItems
  case «exists» =>
    obtain ⟨subquery, hSubquery, rfl⟩ := h
    exact hSelect hSubquery
  case array =>
    obtain ⟨subquery, hSubquery, rfl⟩ := h
    exact hSelect hSubquery
  case scalarSubquery =>
    obtain ⟨subquery, hSubquery, rfl⟩ := h
    exact hSelect hSubquery
  case fromSql =>
    obtain ⟨sql, -, arguments, hArguments, rfl⟩ := h
    exact Slots.find?_holds Slots.picks_rawArguments hSlots hArguments

end Trees

/-! ## The reader -/

namespace Node

variable {node : Node} {r : Reading}

theorem readList_holds (hNode : node.Holds P) {kind : Kind} {slots : List Slot}
    (h : node.readList r kind = .ok slots) : AllHold P (heldBySlots slots) := by
  unfold readList at h
  split at h
  · -- the items are read one by one, each by its own reader
    have hItems := hNode.items
    generalize node.items = items at h hItems
    induction items generalizing slots with
    | nil => exact Except.ok.inj h ▸ allHold_nil
    | cons child rest ih =>
      obtain ⟨hChild, hRest⟩ := List.forall_mem_cons.mp hItems
      rw [List.mapM_cons, bind_eq_ok] at h
      obtain ⟨slot, hSlot, hTail⟩ := h
      obtain ⟨more, hMore, hCons⟩ := bind_eq_ok.mp hTail
      obtain rfl := Except.ok.inj hCons
      exact (hChild r kind slot hSlot).append (ih hMore hRest)
  · cases h

theorem readKeyedValues_holds (hNode : node.Holds P) {entries : List (String × Value)}
    (h : node.readKeyedValues = .ok entries) : AllHold P (entries.map Prod.snd) := by
  unfold readKeyedValues at h
  split at h
  · exact readEntries_holds hNode.members h
  · obtain ⟨-, -, hError⟩ := bind_eq_ok.mp h
    cases hError
  · cases h

theorem readExpression_holds (hNode : node.Holds P) {e : Expression}
    (h : node.readExpression r = .ok e) : AllHold P e.values := by
  obtain ⟨form, -, hForm⟩ := bind_eq_ok.mp h
  obtain ⟨slots, hSlots, hBuild⟩ := bind_eq_ok.mp hForm
  exact ExpressionForm.build_holds (Record.readBeside_holds hNode hSlots) hBuild

theorem readRawArguments_holds (hNode : node.Holds P) {arguments : RawArguments}
    (h : node.readRawArguments r = .ok arguments) : AllHold P arguments.values := by
  obtain ⟨form, -, hForm⟩ := bind_eq_ok.mp h
  obtain ⟨slots, hSlots, hBuild⟩ := bind_eq_ok.mp hForm
  exact ArgumentsForm.build_holds (Record.readBeside_holds hNode hSlots) hBuild

/-- Reading a node keeps what its items and members were read with. -/
theorem read_holds (hNode : node.Holds P) (hRead : ∀ v, node.readValue = .ok v → P v)
    {kind : Kind} {slot : Slot} (h : node.read r kind = .ok slot) : slot.Holds P := by
  cases kind <;> simp only [read, map_eq_ok] at h
  case value =>
    obtain ⟨v, hValue, rfl⟩ := h
    exact List.forall_mem_singleton.mpr (hRead v hValue)
  case rawArguments =>
    obtain ⟨arguments, hArguments, rfl⟩ := h
    exact readRawArguments_holds hNode hArguments
  case expression =>
    obtain ⟨e, hExpression, rfl⟩ := h
    exact readExpression_holds hNode hExpression
  case select =>
    obtain ⟨slots, hSlots, rfl⟩ := h
    exact Select.ofSlots_holds (Record.read_holds hNode hSlots)
  case projection =>
    obtain ⟨slots, hSlots, hRest⟩ := bind_eq_ok.mp h
    obtain ⟨p, hProjection, hPure⟩ := bind_eq_ok.mp hRest
    obtain rfl := Except.ok.inj hPure
    exact Projection.ofSlots_holds (Record.read_holds hNode hSlots) hProjection
  case source =>
    obtain ⟨slots, hSlots, hRest⟩ := bind_eq_ok.mp h
    obtain ⟨s, hSource, hPure⟩ := bind_eq_ok.mp hRest
    obtain rfl := Except.ok.inj hPure
    exact Source.ofSlots_holds (Record.read_holds hNode hSlots) hSource
  case sortKey =>
    obtain ⟨slots, hSlots, hRest⟩ := bind_eq_ok.mp h
    obtain ⟨k, hKey, hPure⟩ := bind_eq_ok.mp hRest
    obtain rfl := Except.ok.inj hPure
    exact SortKey.ofSlots_holds (Record.read_holds hNode hSlots) hKey
  case list =>
    obtain ⟨slots, hSlots, rfl⟩ := h
    exact readList_holds hNode hSlots
  case values =>
    obtain ⟨entries, hEntries, rfl⟩ := h
    exact readKeyedValues_holds hNode hEntries
  case parameter =>
    obtain ⟨slots, -, hRest⟩ := bind_eq_ok.mp h
    obtain ⟨p, -, hPure⟩ := bind_eq_ok.mp hRest
    exact Except.ok.inj hPure ▸ allHold_nil
  case query =>
    obtain ⟨slots, -, hRest⟩ := bind_eq_ok.mp h
    obtain ⟨q, -, hPure⟩ := bind_eq_ok.mp hRest
    exact Except.ok.inj hPure ▸ allHold_nil
  -- the parts of the other kinds hold no values
  all_goals
    obtain ⟨_, -, rfl⟩ := h
    exact allHold_nil

end Node

/-- Documents of which `D` holds have parts of which it holds, and a value that is read of
such a document has the property `P` if those in its parts have it. -/
structure Kept (D : Json → Prop) (P : Value → Prop) : Prop where
  items : ∀ items, D (.arr items) → ∀ j ∈ items, D j
  members : ∀ members, D (.obj members) → ∀ m ∈ members, D m.2
  torn : ∀ members tail, D (.torn members tail) → ∀ m ∈ members, D m.2
  value : ∀ node : Node, D node.json → node.Holds P → ∀ v, node.readValue = .ok v → P v

namespace Json

variable {D : Json → Prop}

/-- A node without parts. -/
theorem read_leaf_holds (h : Kept D P) {j : Json} (hj : D j) {r : Reading} {kind : Kind}
    {slot : Slot} (hRead : Node.read { json := j } r kind = .ok slot) : slot.Holds P :=
  have hNode : Node.Holds P { json := j } := ⟨List.forall_mem_nil _, List.forall_mem_nil _⟩
  Node.read_holds hNode (h.value { json := j } hj hNode) hRead

mutual

/-- A document keeps the invariant, as the documents within it do. -/
theorem read_holds (h : Kept D P) : ∀ j : Json, D j → Child.Holds P ⟨j, j.read⟩
  | .arr items, hj => fun _ _ _ hRead =>
    have hNode : Node.Holds P { json := .arr items, items := childrenOf items } :=
      ⟨childrenOf_holds h items (h.items items hj), List.forall_mem_nil _⟩
    Node.read_holds hNode (h.value _ hj hNode) hRead
  | .obj members, hj => fun _ _ _ hRead =>
    have hNode : Node.Holds P { json := .obj members, members := keyedChildrenOf members } :=
      ⟨List.forall_mem_nil _, keyedChildrenOf_holds h members (h.members members hj)⟩
    Node.read_holds hNode (h.value _ hj hNode) hRead
  | .torn members tail, hj => fun _ _ _ hRead =>
    have hNode : Node.Holds P
        { json := .torn members tail, members := keyedChildrenOf members } :=
      ⟨List.forall_mem_nil _, keyedChildrenOf_holds h members (h.torn members tail hj)⟩
    Node.read_holds hNode (h.value _ hj hNode) hRead
  | .null, hj => fun _ _ _ hRead => read_leaf_holds h hj hRead
  | .bool _, hj => fun _ _ _ hRead => read_leaf_holds h hj hRead
  | .int _, hj => fun _ _ _ hRead => read_leaf_holds h hj hRead
  | .real _, hj => fun _ _ _ hRead => read_leaf_holds h hj hRead
  | .str _, hj => fun _ _ _ hRead => read_leaf_holds h hj hRead
  | .broken _, hj => fun _ _ _ hRead => read_leaf_holds h hj hRead
  | .unfit, hj => fun _ _ _ hRead => read_leaf_holds h hj hRead
  | .unkeyed _ _, hj => fun _ _ _ hRead => read_leaf_holds h hj hRead
termination_by structural j => j

theorem childrenOf_holds (h : Kept D P) : ∀ items : List Json, (∀ j ∈ items, D j) →
    ∀ child ∈ childrenOf items, child.Holds P
  | [], _ => List.forall_mem_nil _
  | j :: js, hItems =>
    have hAll := List.forall_mem_cons.mp hItems
    List.forall_mem_cons.mpr ⟨read_holds h j hAll.1, childrenOf_holds h js hAll.2⟩
termination_by structural items => items

theorem keyedChildrenOf_holds (h : Kept D P) : ∀ members : List (String × Json),
    (∀ m ∈ members, D m.2) → ∀ entry ∈ keyedChildrenOf members, Child.Holds P entry.2
  | [], _ => List.forall_mem_nil _
  | (_, j) :: ms, hMembers =>
    have hAll := List.forall_mem_cons.mp hMembers
    List.forall_mem_cons.mpr ⟨read_holds h j hAll.1, keyedChildrenOf_holds h ms hAll.2⟩
termination_by structural members => members

end

end Json

/-- The values of a select that a text describes. -/
theorem Select.holds_of_ofText {D : Json → Prop} (h : Kept D P) {text : String} {s : Select}
    (hText : D (Json.Document.ofText text).root) (hRead : Select.ofText text = .ok s) :
    AllHold P s.values := by
  obtain ⟨s', hRoot, hEnd⟩ := bind_eq_ok.mp hRead
  obtain ⟨slot, hSlot, hPick⟩ := bind_eq_ok.mp hRoot
  have hHolds := Json.read_holds h _ hText _ _ slot hSlot
  -- what follows the document may be at fault, but says nothing about the select
  split at hEnd
  · cases hEnd
  · obtain rfl := Except.ok.inj hEnd
    split at hPick
    · obtain rfl := Except.ok.inj hPick
      rename_i hSelect
      rw [← Slots.picks_select slot _ hSelect]
      exact hHolds
    · cases hPick

end DocumentQuery
