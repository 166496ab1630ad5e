import DocumentQuery.Proofs.Document.Nesting
import DocumentQuery.Proofs.Document.RoundTrip

/-!
# Canonical texts that are read again

The canonical text of a select that a text without fractions describes is the text of its
document. It is read again unless the document is nested too deep, and every value is then
read back. So the canonical text stays the same exactly when each value that is read back
is written as before: an object must not be taken for the description of a vector, which
is written in another order, and only the object that a member of an enumeration is written
as may be taken for the member. A text that repeats a key of a description, and so does not
describe a vector, gives an object that is taken for the description the next time.

Main definitions and results:

* `Value.Stable` — the value is written as before once it has been read back.
* `Select.ofText_canonicalText` — when the canonical text is read again, and as what.
* `Select.Normal`, `Select.normal_iff` — when it is then the same.
* `Select.normal_of_ofText_iff` — hence when normalizing is idempotent.
-/

namespace DocumentQuery

/-! ## Integers -/

namespace Json

theorem closed_whole : Closed (Whole (twoTo 64)) where
  str _ := trivial
  bool _ := trivial
  natural n := by
    have hLess : n.toNat < twoTo 64 := n.toNat_lt
    exact ⟨by omega, by exact_mod_cast hLess⟩
  arr := wholeItems_iff.mpr
  obj := wholeMembers_iff.mpr

end Json

namespace Value

theorem whole_int (n : Int64) : (Value.int n).toJson.Whole (twoTo 64) := by
  have hLow : -(twoTo 63 : Nat) ≤ n.toInt := n.le_toInt
  have hHigh : n.toInt < (twoTo 63 : Nat) := n.toInt_lt
  have hBound : (twoTo 63 : Int) ≤ (twoTo 64 : Nat) := by decide
  exact ⟨hLow, hHigh.trans_le hBound⟩

end Value

/-- A value is no fraction if there is none in its document. -/
theorem Node.readValue_whole {node : Node} (hNode : node.json.Whole (twoTo 63))
    (hHolds : node.Holds fun v => v.toJson.Whole (twoTo 64)) {v : Value}
    (h : node.readValue = .ok v) : v.toJson.Whole (twoTo 64) := by
  obtain ⟨-, -, hValue⟩ := bind_eq_ok.mp h
  split at hValue
  · exact Except.ok.inj hValue ▸ trivial
  · rename_i n hInt
    rw [hInt] at hNode
    -- an integer of this size is kept as one
    rw [if_pos hNode.2] at hValue
    obtain rfl := Except.ok.inj hValue
    exact Value.whole_int _
  · -- there are no other numbers in the document
    rename_i x hReal
    rw [hReal] at hNode
    cases hNode
  · exact Except.ok.inj hValue ▸ trivial
  · obtain ⟨items, hItems, rfl⟩ := map_eq_ok.mp hValue
    refine Json.wholeItems_iff.mpr ?_
    rw [Value.itemsToJson_eq]
    exact List.forall_mem_map.mpr (readValues_holds hHolds.items hItems)
  · -- a description of a vector, a member of an enumeration, or neither
    split at hValue
    · exact Except.ok.inj hValue ▸ Json.closed_whole.vectorType _
    · split at hValue
      · exact Except.ok.inj hValue ▸ ⟨trivial, trivial, trivial⟩
      · obtain ⟨entries, hEntries, rfl⟩ := map_eq_ok.mp hValue
        refine Json.wholeMembers_iff.mpr ?_
        rw [Value.membersToJson_eq]
        have hAll := readEntries_holds hHolds.members hEntries
        exact List.forall_mem_map.mpr fun m hm => hAll m.2 (List.mem_map_of_mem hm)
  · exact Except.ok.inj hValue ▸ trivial

namespace Json

/-- The numbers in a text are integers that 64 bits hold with a sign. -/
structure IntegersOnly (text : String) : Prop where
  whole : (Document.ofText text).root.Whole (twoTo 63)

theorem kept_whole : Kept (Whole (twoTo 63)) fun v => v.toJson.Whole (twoTo 64) where
  items _ h := wholeItems_iff.mp h
  members _ h := wholeMembers_iff.mp h
  torn _ _ h := wholeMembers_iff.mp h.1
  value _ hNode hHolds _ hRead := Node.readValue_whole hNode hHolds hRead

end Json

/-! ## Values that are written as before -/

namespace Value

mutual

/-- The value is written as before once it has been read back: none of its objects is taken
for the description of a vector, and none for a member of an enumeration unless the member
is written like it. -/
def Stable : Value → Prop
  | .array items => StableItems items
  | .object members =>
    Json.vectorType? (membersToJson members) = none ∧
      (∀ m, Json.enumMember? (membersToJson members) = some m → lookAlike? members = some m) ∧
      StableMembers members
  | _ => True
termination_by structural v => v

def StableItems : List Value → Prop
  | [] => True
  | v :: vs => v.Stable ∧ StableItems vs
termination_by structural vs => vs

def StableMembers : List (String × Value) → Prop
  | [] => True
  | (_, v) :: ms => v.Stable ∧ StableMembers ms
termination_by structural ms => ms

end

mutual

theorem toJson_readBack_iff : ∀ v : Value, v.Ordered → (v.readBack.toJson = v.toJson ↔ v.Stable)
  | .array items, h => by
    rw [readBack, toJson, toJson, Json.arr.injEq]
    exact itemsToJson_readBack_iff items h
  | .object members, h => by
    have hMembers := membersToJson_readBack_iff members h.2
    rw [readBack, Stable]
    cases hVector : Json.vectorType? (membersToJson members) with
    | some v =>
      -- in the description the distance function comes first
      exact iff_of_false (object_ne_vectorType h.1 v).symm fun hStable => nomatch hStable.1
    | none =>
      cases hEnum : Json.enumMember? (membersToJson members) with
      | some m =>
        constructor
        · -- an object that is written like the member is the one that it is written as
          intro hJson
          have hLook : lookAlike? members = some m := lookAlike?_of_toJson hJson.symm
          refine ⟨rfl, fun m' hm' => Option.some.inj hm' ▸ hLook, ?_⟩
          rw [lookAlike?_eq_some hLook]
          exact ⟨trivial, trivial, trivial⟩
        · rintro ⟨-, hLook, -⟩
          rw [lookAlike?_eq_some (hLook m rfl)]
          rfl
      | none =>
        show Json.obj _ = Json.obj _ ↔ _
        rw [Json.obj.injEq, hMembers]
        exact ⟨fun hStable => ⟨rfl, nofun, hStable⟩, fun hStable => hStable.2.2⟩
  | .float x, _ => iff_of_true (toJson_ofDouble x) trivial
  | .null, _ | .bool _, _ | .int _, _ | .string _, _ | .vectorType _, _
  | .enum _, _ => iff_of_true rfl trivial
termination_by structural v => v

theorem itemsToJson_readBack_iff : ∀ vs : List Value, OrderedItems vs →
    (itemsToJson (readBackItems vs) = itemsToJson vs ↔ StableItems vs)
  | [], _ => iff_of_true rfl trivial
  | v :: vs, h => by
    rw [readBackItems, itemsToJson, itemsToJson, List.cons.injEq, toJson_readBack_iff v h.1,
      itemsToJson_readBack_iff vs h.2, StableItems]
termination_by structural vs => vs

theorem membersToJson_readBack_iff : ∀ ms : List (String × Value), OrderedMembers ms →
    (membersToJson (readBackMembers ms) = membersToJson ms ↔ StableMembers ms)
  | [], _ => iff_of_true rfl trivial
  | (key, v) :: ms, h => by
    rw [readBackMembers, membersToJson, membersToJson, List.cons.injEq, Prod.mk.injEq,
      toJson_readBack_iff v h.1, membersToJson_readBack_iff ms h.2, StableMembers]
    simp
termination_by structural ms => ms

end

end Value

/-! ## Documents of mapped selects -/

open Classical in
/-- A select is written as before after its values have been exchanged exactly when each
of them is. -/
theorem Select.toJson_mapValues_iff (f : Value → Value) (s : Select) :
    (s.mapValues f).toJson = s.toJson ↔ ∀ v ∈ s.values, (f v).toJson = v.toJson := by
  constructor
  · intro h
    -- one value for each document
    let pick (v : Value) : Value := Classical.epsilon fun w => w.toJson = v.toJson
    have hPick (v : Value) : (pick v).toJson = v.toJson :=
      Classical.epsilon_spec (p := fun w => w.toJson = v.toJson) ⟨v, rfl⟩
    have hDetermined : DeterminedByDocument pick fun _ => True := by
      intro v w _ _ hJson
      show Classical.epsilon _ = Classical.epsilon _
      rw [hJson]
    have hTrees := congrArg Select.values <| Select.mapValues_eq_of_toJson hDetermined
      (fun _ _ => trivial) (fun _ _ => trivial) h
    rw [Select.values_mapValues, Select.values_mapValues, Select.values_mapValues,
      List.map_map] at hTrees
    intro v hv
    have hValue : pick (f v) = pick v := List.map_inj_left.mp hTrees v hv
    rw [← hPick (f v), hValue, hPick]
  · intro h
    -- values elsewhere do not matter
    let g (v : Value) : Value := if (f v).toJson = v.toJson then f v else v
    have hg : KeepsDocuments g := by
      intro v
      show (if (f v).toJson = v.toJson then f v else v).toJson = v.toJson
      split
      · assumption
      · rfl
    have hCongr : s.mapValues f = s.mapValues g :=
      Select.mapValues_congr s fun v hv => (if_pos (h v hv)).symm
    rw [hCongr, Select.toJson_mapValues hg]

/-! ## Canonical texts -/

namespace Select

/-- The text of a select without fractions is read as its document, cut where it is nested
too deep. -/
theorem ofText_canonicalText_eq {s : Select} (hWhole : ∀ v ∈ s.values, v.toJson.Whole (twoTo 64)) :
    ofText s.canonicalText =
      (s.toJson.cut Json.greatestDepth).readAs .text .select Slot.select? := by
  have hText := Json.ofText_compact s.toJson_sound (s.toJson_closed Json.closed_whole hWhole)
  rw [ofText, Json.decodeText, canonicalText, hText]
  -- nothing follows the document
  show (Json.readAs _ .text .select Slot.select? >>= Except.ok) = _
  cases (s.toJson.cut Json.greatestDepth).readAs .text .select Slot.select? <;> rfl

/-- The canonical text is read again unless the document is nested too deep; it then
describes the select with its values read back. -/
theorem ofText_canonicalText {s s' : Select} (hOrdered : AllOrdered s.values)
    (hWhole : ∀ v ∈ s.values, v.toJson.Whole (twoTo 64)) :
    ofText s.canonicalText = .ok s' ↔
      s.toJson.depth ≤ Json.greatestDepth ∧ s' = s.mapValues Value.readBack := by
  have hRead := s.read_toJson .written hOrdered .text
  rw [Json.arranged_written] at hRead
  rw [ofText_canonicalText_eq hWhole]
  constructor
  · intro h
    -- a select that has lost something cannot be read
    obtain ⟨slot, hSlot, -⟩ := bind_eq_ok.mp h
    have hDepth : s.toJson.depth ≤ Json.greatestDepth := s.bounded _ _ _ hSlot
    rw [Json.cut_of_depth_le _ hDepth, hRead] at h
    exact ⟨hDepth, (Except.ok.inj h).symm⟩
  · rintro ⟨hDepth, rfl⟩
    rw [Json.cut_of_depth_le _ hDepth, hRead]

/-- With its values read back, a select has the same canonical text exactly when they are
stable. -/
theorem canonicalText_readBack_iff {s : Select} (hOrdered : AllOrdered s.values) :
    (s.mapValues Value.readBack).canonicalText = s.canonicalText ↔ ∀ v ∈ s.values, v.Stable := by
  -- different documents are written differently
  have hJson : (s.mapValues Value.readBack).canonicalText = s.canonicalText ↔
      (s.mapValues Value.readBack).toJson = s.toJson :=
    ⟨Json.compact_injective (toJson_sound _) s.toJson_sound, congrArg Json.compact⟩
  rw [hJson, s.toJson_mapValues_iff]
  exact forall₂_congr fun v hv => v.toJson_readBack_iff (hOrdered v hv)

/-- The select is normal: its canonical text describes a select with the same canonical
text, and so with the same fingerprint. -/
def Normal (s : Select) : Prop :=
  ∃ s', ofText s.canonicalText = .ok s' ∧ s'.canonicalText = s.canonicalText ∧
    s'.fingerprint = s.fingerprint

theorem normal_iff {s : Select} (hOrdered : AllOrdered s.values)
    (hWhole : ∀ v ∈ s.values, v.toJson.Whole (twoTo 64)) :
    s.Normal ↔ s.toJson.depth ≤ Json.greatestDepth ∧ ∀ v ∈ s.values, v.Stable := by
  constructor
  · rintro ⟨s', hRead, hText, -⟩
    obtain ⟨hDepth, rfl⟩ := (ofText_canonicalText hOrdered hWhole).mp hRead
    exact ⟨hDepth, (canonicalText_readBack_iff hOrdered).mp hText⟩
  · rintro ⟨hDepth, hStable⟩
    have hText := (canonicalText_readBack_iff hOrdered).mpr hStable
    exact ⟨_, (ofText_canonicalText hOrdered hWhole).mpr ⟨hDepth, rfl⟩, hText,
      congrArg Sha256.hex hText⟩

/-- A text without fractions describes a select without fractions. -/
theorem whole_of_ofText {text : String} {s : Select} (hNumbers : Json.IntegersOnly text)
    (h : ofText text = .ok s) : ∀ v ∈ s.values, v.toJson.Whole (twoTo 64) :=
  holds_of_ofText Json.kept_whole hNumbers.whole h

/-- **When normalizing is idempotent.** A select that a text without fractions describes is
normal exactly when its document is not nested too deep and each of its values is stable. -/
theorem normal_of_ofText_iff {text : String} {s : Select} (hNumbers : Json.IntegersOnly text)
    (h : ofText text = .ok s) :
    s.Normal ↔ s.toJson.depth ≤ Json.greatestDepth ∧ ∀ v ∈ s.values, v.Stable :=
  normal_iff (ordered_of_ofText h) (whole_of_ofText hNumbers h)

/-! ## Two texts -/

/-- A select that is limited to a constant. -/
def limitedTo (v : Value) : Select :=
  { Select.empty with limit := some (.constant v .object none) }

theorem values_limitedTo (v : Value) : (limitedTo v).values = [v] := rfl

theorem depth_limitedTo (v : Value) : (limitedTo v).toJson.depth = v.toJson.depth + 2 := by
  have hJson : (limitedTo v).toJson = .obj [("is_distinct", .bool false),
      ("uses_single_value_projection", .bool false), ("limit", .obj [("type", .str "Constant"),
        ("value", v.toJson), ("data_type", .str "Object")])] := rfl
  rw [hJson]
  simp [Json.depth, Json.depthOfMembers]

/-- The tag stands last, and an object is not in key order. -/
def disorderedText : String :=
  "\x7b\"limit\":\x7b\"data_type\":\"Object\",\"value\":[1,\x7b\"b\":null,\"a\":-2\x7d]," ++
    "\"type\":\"Constant\"\x7d\x7d"

def disorderedDocument : Json :=
  .obj [("limit", .obj [("data_type", .str "Object"),
    ("value", .arr [.int 1, .obj [("b", .null), ("a", .int (-2))]]), ("type", .str "Constant")])]

theorem disorderedText_normal :
    Json.IntegersOnly disorderedText ∧ ∃ s, ofText disorderedText = .ok s ∧ s.Normal := by
  have hDocument : Json.Document.ofText disorderedText = ⟨disorderedDocument, none⟩ :=
    Json.Document.eq_of_isOf rfl (by decide +kernel)
  have hNumbers : Json.IntegersOnly disorderedText := by
    constructor
    rw [hDocument]
    exact ⟨⟨trivial, ⟨⟨by decide, by decide⟩, ⟨trivial, ⟨by decide, by decide⟩, trivial⟩, trivial⟩,
      trivial, trivial⟩, trivial⟩
  have hRead : ofText disorderedText =
      .ok (limitedTo (.array [.int 1, .object [("a", .int (-2)), ("b", .null)]])) := by
    rw [ofText, Json.decodeText, hDocument]
    rfl
  refine ⟨hNumbers, _, hRead, (normal_of_ofText_iff hNumbers hRead).mpr ⟨?_, ?_⟩⟩
  · rw [depth_limitedTo]
    decide
  · rw [values_limitedTo, List.forall_mem_singleton]
    exact ⟨trivial, ⟨rfl, nofun, trivial, trivial, trivial⟩, trivial⟩

/-- A key of the description of a vector is repeated. -/
def repeatedText : String :=
  "\x7b\"limit\":\x7b\"type\":\"Constant\",\"data_type\":\"Object\",\"value\":" ++
    "\x7b\"dimensions\":3,\"dimensions\":3,\"distanceFunction\":\"cosine\"\x7d\x7d\x7d"

def repeatedDocument : Json :=
  .obj [("limit", .obj [("type", .str "Constant"), ("data_type", .str "Object"),
    ("value", .obj [("dimensions", .int 3), ("dimensions", .int 3),
      ("distanceFunction", .str "cosine")])])]

/-- The repeated key is dropped, and the object is taken for the description next time. -/
theorem not_ofText_normal :
    ¬ ∀ (text : String) (s : Select), Json.IntegersOnly text → ofText text = .ok s → s.Normal := by
  intro h
  have hDocument : Json.Document.ofText repeatedText = ⟨repeatedDocument, none⟩ :=
    Json.Document.eq_of_isOf rfl (by decide +kernel)
  have hNumbers : Json.IntegersOnly repeatedText := by
    constructor
    rw [hDocument]
    exact ⟨⟨trivial, trivial, ⟨⟨by decide, by decide⟩, ⟨by decide, by decide⟩, trivial, trivial⟩,
      trivial⟩, trivial⟩
  -- the last of the two members with the same key is kept
  have hRead : ofText repeatedText = .ok (limitedTo
      (.object [("dimensions", .int 3), ("distanceFunction", .string "cosine")])) := by
    rw [ofText, Json.decodeText, hDocument]
    rfl
  have hNormal := normal_iff (ordered_of_ofText hRead) (whole_of_ofText hNumbers hRead)
  have hStable := (hNormal.mp (h _ _ hNumbers hRead)).2
  rw [values_limitedTo, List.forall_mem_singleton] at hStable
  cases hStable.1

end Select

end DocumentQuery
