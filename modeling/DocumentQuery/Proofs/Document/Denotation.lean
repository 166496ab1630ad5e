import DocumentQuery.Proofs.Document.Normal

/-!
# Texts of values without fractions

The reader of documents gives up where arrays and objects are nested too deep. What a text
denotes is a matter of its grammar alone: here it is read with as many levels as it takes, by
itself or at the head of a longer text.

Main definitions:

* `Json.Denotes` — the document that a text denotes.
* `Json.Heads` — the document at the head of a text, read up to its end.
* `Value.FloatFree` — values without fractions.

Main result:

* `Value.denotes_toJson` — the text of a value without fractions denotes its document.
-/

namespace DocumentQuery

namespace Json

/-- The text is the document `j`, with nothing behind it, whatever the number of levels once
there are enough of them. -/
def Denotes (text : String) (j : Json) : Prop :=
  ∃ depth, ∀ levels ≥ depth,
    readValue (4 * text.toList.length + 4) levels text.toList = (j, .ok [])

/-- A text denotes one document. -/
theorem Denotes.unique {text : String} {j j' : Json} (h : Denotes text j) (h' : Denotes text j') :
    j = j' := by
  obtain ⟨depth, h⟩ := h
  obtain ⟨depth', h'⟩ := h'
  -- both readings are the same where there are enough levels for both
  have hRead := h _ (Nat.le_max_left depth depth')
  have hRead' := h' _ (Nat.le_max_right depth depth')
  exact congrArg Prod.fst (hRead.symm.trans hRead')

/-- The text is read as the document `j` up to its end, whatever follows it; digits may not
follow a number. -/
def Heads (text : String) (j : Json) : Prop :=
  ∃ depth, ∀ levels ≥ depth, ∀ rest, (j.shape = .number → Closes rest) →
    readValue (4 * (text.toList ++ rest).length + 4) levels (text.toList ++ rest) = (j, .ok rest)

/-- A text with nothing behind it. -/
theorem Heads.denotes {text : String} {j : Json} (h : Heads text j) : Denotes text j := by
  obtain ⟨depth, hRead⟩ := h
  refine ⟨depth, fun levels hLevels => ?_⟩
  have hNothing := hRead levels hLevels [] fun _ => closes_nil
  rwa [List.append_nil] at hNothing

theorem heads_compact {j : Json} (hSound : j.sound = true) (hWhole : j.Whole (twoTo 64)) :
    Heads j.compact j := by
  refine ⟨j.depth, fun levels hLevels rest hRest => ?_⟩
  rw [compact, String.toList_ofList]
  -- what follows only adds to the steps
  have hSteps : 4 * j.write.length ≤ 4 * (j.write ++ rest).length + 4 := by
    rw [List.length_append]
    omega
  rw [readValue_write j _ levels rest hSound hWhole hRest hSteps, cut_of_depth_le j hLevels]

theorem denotes_compact {j : Json} (hSound : j.sound = true) (hWhole : j.Whole (twoTo 64)) :
    Denotes j.compact j :=
  (heads_compact hSound hWhole).denotes

end Json

namespace Value

mutual

/-- There is no fraction in the value. -/
def FloatFree : Value → Prop
  | .float _ => False
  | .array items => FloatFreeItems items
  | .object members => FloatFreeMembers members
  | _ => True
termination_by structural v => v

def FloatFreeItems : List Value → Prop
  | [] => True
  | v :: vs => v.FloatFree ∧ FloatFreeItems vs
termination_by structural vs => vs

def FloatFreeMembers : List (String × Value) → Prop
  | [] => True
  | (_, v) :: ms => v.FloatFree ∧ FloatFreeMembers ms
termination_by structural ms => ms

end

theorem floatFreeItems_iff {vs : List Value} : FloatFreeItems vs ↔ ∀ v ∈ vs, v.FloatFree := by
  induction vs with
  | nil => simp [FloatFreeItems]
  | cons v vs ih => rw [FloatFreeItems, ih, List.forall_mem_cons]

mutual

theorem whole_toJson : ∀ v : Value, v.FloatFree → v.toJson.Whole (twoTo 64)
  | .null, _ | .bool _, _ | .string _, _ => trivial
  | .int n, _ => whole_int n
  | .array items, h => wholeItems_toJson items h
  | .vectorType v, _ => Json.closed_whole.vectorType v
  | .enum _, _ => ⟨trivial, trivial, trivial⟩
  | .object members, h => wholeMembers_toJson members h
termination_by structural v => v

theorem wholeItems_toJson : ∀ vs : List Value, FloatFreeItems vs →
    Json.WholeItems (twoTo 64) (itemsToJson vs)
  | [], _ => trivial
  | v :: vs, h => ⟨v.whole_toJson h.1, wholeItems_toJson vs h.2⟩
termination_by structural vs => vs

theorem wholeMembers_toJson : ∀ ms : List (String × Value), FloatFreeMembers ms →
    Json.WholeMembers (twoTo 64) (membersToJson ms)
  | [], _ => trivial
  | (_, v) :: ms, h => ⟨v.whole_toJson h.1, wholeMembers_toJson ms h.2⟩
termination_by structural ms => ms

end

/-- The text of a value without fractions denotes its document. -/
theorem denotes_toJson {v : Value} (h : v.FloatFree) : Json.Denotes v.toJson.compact v.toJson :=
  Json.denotes_compact v.toJson_sound (v.whole_toJson h)

end Value

end DocumentQuery
