import DocumentQuery.Proofs.Document.Descriptors

/-!
# Objects that look like members of an enumeration

A member of an enumeration is written as an object with the enumeration and the
member, both by name. An object value with just these two entries is written in the
same way, although mappings and the registry treat the two differently. A double that
is no number is written like null; a document holds none, so no value that is read does.
Nothing else about a value is lost when it is written: `Value.settled` puts the member in
place of every object that looks like it, and null in place of what is no number, and two
values have the same document exactly when they settle to the same value.

Main results:

* `Value.toJson_settled` — settling does not change the document.
* `Value.settled_eq_of_toJson` — the document determines the settled value.
-/

namespace DocumentQuery

/-! ## Settled values -/

/-- The members of all enumerations. -/
def EnumMember.all : List EnumMember :=
  (Enumerated.members : List DistanceFunction).map .distanceFunction ++
    (Enumerated.members : List ElementType).map .vectorDataType

namespace Value

/-- The member of an enumeration that the entries of an object describe. -/
def lookAlike? : List (String × Value) → Option EnumMember
  | [("enum", .string form), ("value", .string member)] =>
    EnumMember.all.find? fun m => m.dataType.name == form && m.name == member
  | _ => none

/-- What the document of a double tells: null if the double is no number. -/
def ofDouble (x : Float) : Value := if x.isFinite then .float x else .null

mutual

/-- The value with every object that looks like a member of an enumeration replaced
by the member, and every double that is no number by null. -/
def settled : Value → Value
  | .float x => ofDouble x
  | .array items => .array (settledItems items)
  | .object members =>
    match lookAlike? members with
    | some m => .enum m
    | none => .object (settledMembers members)
  | v => v
termination_by structural v => v

def settledItems : List Value → List Value
  | [] => []
  | v :: vs => v.settled :: settledItems vs
termination_by structural vs => vs

def settledMembers : List (String × Value) → List (String × Value)
  | [] => []
  | (key, v) :: ms => (key, v.settled) :: settledMembers ms
termination_by structural ms => ms

end

theorem settled_enum (m : EnumMember) : (Value.enum m).settled = .enum m := rfl

/-! ## Doubles -/

/-- A double is written as itself or, if it is no number, as null. -/
theorem float_cases (x : Float) :
    (∃ d : FiniteDouble, d.toFloat = x ∧ (Value.float x).toJson = .real d ∧
      ofDouble x = .float x) ∨
    (Value.float x).toJson = .null ∧ ofDouble x = .null := by
  rw [toJson, ofDouble]
  by_cases hFinite : x.isFinite = true
  · rw [FiniteDouble.ofFloat?, dif_pos hFinite, if_pos hFinite]
    exact .inl ⟨_, rfl, rfl, rfl⟩
  · rw [FiniteDouble.ofFloat?, dif_neg hFinite, if_neg hFinite]
    exact .inr ⟨rfl, rfl⟩

theorem toJson_ofDouble (x : Float) : (ofDouble x).toJson = (Value.float x).toJson := by
  rcases float_cases x with ⟨d, -, -, hDouble⟩ | ⟨hJson, hDouble⟩
  · rw [hDouble]
  · rw [hDouble, hJson]
    rfl

/-- A double is written as a number or as null, and as nothing else. -/
theorem toJson_float_ne (x : Float) {j : Json} (hReal : ∀ d, Json.real d ≠ j)
    (hNull : Json.null ≠ j) : (Value.float x).toJson ≠ j := by
  rcases float_cases x with ⟨d, -, hJson, -⟩ | ⟨hJson, -⟩ <;> rw [hJson]
  · exact hReal d
  · exact hNull

/-! ## Settling keeps the document -/

theorem lookAlike?_eq_some {members : List (String × Value)} {m : EnumMember}
    (h : lookAlike? members = some m) :
    members = [("enum", .string m.dataType.name), ("value", .string m.name)] := by
  unfold lookAlike? at h
  split at h
  · rename_i form member
    have hFound := List.find?_some h
    simp only [Bool.and_eq_true, beq_iff_eq] at hFound
    rw [hFound.1, hFound.2]
  · cases h

theorem lookAlike?_enum (m : EnumMember) :
    lookAlike? [("enum", .string m.dataType.name), ("value", .string m.name)] = some m := by
  cases m with
  | distanceFunction f => cases f <;> rfl
  | vectorDataType t => cases t <;> rfl

mutual

/-- Settling does not change the document. -/
theorem toJson_settled : ∀ v : Value, v.settled.toJson = v.toJson
  | .null | .bool _ | .int _ | .string _ | .vectorType _ | .enum _ => rfl
  | .float x => toJson_ofDouble x
  | .array items => by
    rw [settled, toJson, toJson, itemsToJson_settled items]
  | .object members => by
    unfold settled
    cases hLook : lookAlike? members with
    | some m =>
      rw [lookAlike?_eq_some hLook]
      rfl
    | none =>
      dsimp only
      rw [toJson, toJson, membersToJson_settled members]
termination_by structural v => v

theorem itemsToJson_settled : ∀ vs : List Value, itemsToJson (settledItems vs) = itemsToJson vs
  | [] => rfl
  | v :: vs => by
    rw [settledItems, itemsToJson, itemsToJson, toJson_settled v, itemsToJson_settled vs]
termination_by structural vs => vs

theorem membersToJson_settled :
    ∀ ms : List (String × Value), membersToJson (settledMembers ms) = membersToJson ms
  | [] => rfl
  | (key, v) :: ms => by
    rw [settledMembers, membersToJson, membersToJson, toJson_settled v, membersToJson_settled ms]
termination_by structural ms => ms

end

/-! ## The document determines the settled value -/

theorem eq_string_of_toJson {v : Value} {s : String} (h : v.toJson = .str s) : v = .string s := by
  cases v with
  | string s' => rw [Json.str.inj h]
  | float x => exact absurd h (toJson_float_ne x nofun nofun)
  | _ => cases h

theorem eq_float_of_toJson {v : Value} {d : FiniteDouble} (h : v.toJson = .real d) :
    v = .float d.toFloat := by
  cases v with
  | float x =>
    rcases float_cases x with ⟨d', rfl, hJson, -⟩ | ⟨hJson, -⟩
    · rw [hJson] at h
      rw [Json.real.inj h]
    · rw [hJson] at h
      cases h
  | _ => cases h

theorem settled_of_toJson_null {v : Value} (h : v.toJson = .null) : v.settled = .null := by
  cases v with
  | null => rfl
  | float x =>
    rcases float_cases x with ⟨d, -, hJson, -⟩ | ⟨-, hDouble⟩
    · rw [hJson] at h
      cases h
    · exact hDouble
  | _ => cases h

theorem entries_of_membersToJson {members : List (String × Value)} {form member : String}
    (h : membersToJson members = [("enum", .str form), ("value", .str member)]) :
    members = [("enum", .string form), ("value", .string member)] := by
  match members, h with
  | [(key, v), (key', v')], h =>
    simp only [membersToJson, List.cons.injEq, Prod.mk.injEq, and_true] at h
    obtain ⟨⟨rfl, hForm⟩, rfl, hMember⟩ := h
    rw [eq_string_of_toJson hForm, eq_string_of_toJson hMember]
  | [_], h => simp [membersToJson] at h
  | _ :: _ :: _ :: _, h => simp [membersToJson] at h

/-- Whether an object looks like a member can be told from its document. -/
theorem lookAlike?_congr {members members' : List (String × Value)}
    (h : membersToJson members = membersToJson members') :
    lookAlike? members = lookAlike? members' := by
  -- one direction is enough, as the hypothesis is symmetric
  have hOne : ∀ {members members' : List (String × Value)} {m : EnumMember},
      membersToJson members = membersToJson members' → lookAlike? members = some m →
      lookAlike? members' = some m := by
    intro members members' m h hLook
    rw [lookAlike?_eq_some hLook] at h
    rw [entries_of_membersToJson h.symm]
    exact lookAlike?_enum m
  cases hLook : lookAlike? members with
  | some m => exact (hOne h hLook).symm
  | none =>
    cases hLook' : lookAlike? members' with
    | some m =>
      rw [hOne h.symm hLook'] at hLook
      cases hLook
    | none => rfl

/-- An object in key order is not written like the description of a vector, in which
the distance function stands before the dimensions. -/
theorem object_ne_vectorType {members : List (String × Value)} (h : Keys.Ascending members)
    (v : VectorType) : (Value.object members).toJson ≠ v.toJson := by
  intro hJson
  rw [toJson, VectorType.toJson, Json.obj.injEq] at hJson
  -- only an object with two entries and more has the keys of a vector
  rcases members with _ | ⟨⟨key, a⟩, _ | ⟨⟨key', b⟩, rest⟩⟩
  · cases hJson
  · simp [membersToJson] at hJson
  · simp only [membersToJson, List.cons_append, List.cons.injEq, Prod.mk.injEq] at hJson
    obtain ⟨⟨rfl, -⟩, ⟨rfl, -⟩, -⟩ := hJson
    have hAscends := (List.pairwise_cons.mp h).1 _ List.mem_cons_self
    exact absurd hAscends (show ¬ "distanceFunction" < "dimensions" by decide)

/-- An object that is written like a member looks like it. -/
theorem lookAlike?_of_toJson {members : List (String × Value)} {m : EnumMember}
    (h : (Value.object members).toJson = m.toJson) : lookAlike? members = some m := by
  rw [toJson, EnumMember.toJson, Json.obj.injEq] at h
  rw [entries_of_membersToJson h]
  exact lookAlike?_enum m

theorem vectorType_ne_enum (v : VectorType) (m : EnumMember) : v.toJson ≠ m.toJson := by
  intro h
  simp [VectorType.toJson, EnumMember.toJson] at h

mutual

/-- Values with the same document settle to the same value. -/
theorem settled_eq_of_toJson : ∀ v w : Value, v.Ordered → w.Ordered → v.toJson = w.toJson →
    v.settled = w.settled
  | .null, w, _, _, h => (settled_of_toJson_null h.symm).symm
  | .bool b, w, _, _, h => by
    cases w with
    | bool b' => rw [Json.bool.inj h]
    | float x => exact absurd h.symm (toJson_float_ne x nofun nofun)
    | _ => cases h
  | .int n, w, _, _, h => by
    cases w with
    | int n' => rw [Int64.toInt_inj.mp (Json.int.inj h)]
    | float x => exact absurd h.symm (toJson_float_ne x nofun nofun)
    | _ => cases h
  | .float x, w, _, _, h => by
    rcases float_cases x with ⟨d, rfl, hJson, -⟩ | ⟨hJson, hDouble⟩
    · rw [eq_float_of_toJson (h.symm.trans hJson)]
    · rw [settled, hDouble, settled_of_toJson_null (h.symm.trans hJson)]
  | .string s, w, _, _, h => by
    rw [eq_string_of_toJson h.symm]
  | .array items, w, hv, hw, h => by
    cases w with
    | array items' => rw [settled, settled, settledItems_eq_of_toJson items _ hv hw (Json.arr.inj h)]
    | float x => exact absurd h.symm (toJson_float_ne x nofun nofun)
    | _ => cases h
  | .vectorType v, w, _, hw, h => by
    cases w with
    | vectorType v' => rw [VectorType.toJson_injective h]
    | enum m => exact absurd h (vectorType_ne_enum v m)
    | object members => exact absurd h.symm (object_ne_vectorType hw.1 v)
    | float x => exact absurd h.symm (toJson_float_ne x nofun nofun)
    | _ => cases h
  | .enum m, w, _, _, h => by
    cases w with
    | vectorType v => exact absurd h.symm (vectorType_ne_enum v m)
    | enum m' => rw [EnumMember.toJson_injective h]
    | object members =>
      -- the object is replaced by the member that it looks like
      rw [settled_enum, settled, lookAlike?_of_toJson h.symm]
    | float x => exact absurd h.symm (toJson_float_ne x nofun nofun)
    | _ => cases h
  | .object members, w, hv, hw, h => by
    cases w with
    | vectorType v => exact absurd h (object_ne_vectorType hv.1 v)
    | enum m => rw [settled_enum, settled, lookAlike?_of_toJson h]
    | object members' =>
      rw [toJson, toJson, Json.obj.injEq] at h
      -- both objects look like the same member, or neither looks like one
      rw [settled, settled, lookAlike?_congr h,
        settledMembers_eq_of_toJson members members' hv.2 hw.2 h]
    | float x => exact absurd h.symm (toJson_float_ne x nofun nofun)
    | _ => cases h
termination_by structural v => v

theorem settledItems_eq_of_toJson : ∀ vs ws : List Value, OrderedItems vs → OrderedItems ws →
    itemsToJson vs = itemsToJson ws → settledItems vs = settledItems ws
  | [], [], _, _, _ => rfl
  | [], _ :: _, _, _, h => by cases h
  | _ :: _, [], _, _, h => by cases h
  | v :: vs, w :: ws, hvs, hws, h => by
    rw [itemsToJson, itemsToJson, List.cons.injEq] at h
    rw [settledItems, settledItems, settled_eq_of_toJson v w hvs.1 hws.1 h.1,
      settledItems_eq_of_toJson vs ws hvs.2 hws.2 h.2]
termination_by structural vs => vs

theorem settledMembers_eq_of_toJson : ∀ ms ns : List (String × Value), OrderedMembers ms →
    OrderedMembers ns → membersToJson ms = membersToJson ns → settledMembers ms = settledMembers ns
  | [], [], _, _, _ => rfl
  | [], _ :: _, _, _, h => by cases h
  | _ :: _, [], _, _, h => by cases h
  | (key, v) :: ms, (key', w) :: ns, hms, hns, h => by
    rw [membersToJson, membersToJson, List.cons.injEq, Prod.mk.injEq] at h
    obtain ⟨⟨rfl, hValue⟩, hRest⟩ := h
    rw [settledMembers, settledMembers, settled_eq_of_toJson v w hms.1 hns.1 hValue,
      settledMembers_eq_of_toJson ms ns hms.2 hns.2 hRest]
termination_by structural ms => ms

end

/-! ## Documents of values are sound -/

mutual

theorem toJson_sound : ∀ v : Value, v.toJson.sound = true
  | .null | .bool _ | .int _ | .string _ | .enum _ => rfl
  | .float x => by
    rcases float_cases x with ⟨d, -, hJson, -⟩ | ⟨hJson, -⟩ <;> rw [hJson] <;> rfl
  | .vectorType v => v.toJson_sound
  | .array items => itemsToJson_sound items
  | .object members => membersToJson_sound members
termination_by structural v => v

theorem itemsToJson_sound : ∀ vs : List Value, Json.soundItems (itemsToJson vs) = true
  | [] => rfl
  | v :: vs => by
    rw [itemsToJson, Json.soundItems, toJson_sound v, itemsToJson_sound vs]
    rfl
termination_by structural vs => vs

theorem membersToJson_sound :
    ∀ ms : List (String × Value), Json.soundMembers (membersToJson ms) = true
  | [] => rfl
  | (_, v) :: ms => by
    rw [membersToJson, Json.soundMembers, toJson_sound v, membersToJson_sound ms]
    rfl
termination_by structural ms => ms

end

end Value

end DocumentQuery
