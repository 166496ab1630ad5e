import DocumentQuery.Proofs.Document.Denotation
import DocumentQuery.Proofs.Json.Rearranged

/-!
# Literals beside payloads

A mapping renders a value twice: inside the text of a query, and beside it. The two renderings
are chosen case by case, each for itself, yet they take the same values, refuse the others with
the same error, and say the same document; only the description of a vector has a spelling of
its own in the text. A reader that comes to a literal reads that document and stops where the
literal ends, whatever the text goes on with: no string in it can close it early.

Main results:

* `TypeMapping.rendered_matches` — what both renderings are made of.
* `TypeMapping.literal_matches_payload` — they agree.
-/

namespace DocumentQuery

/-- The name of a member has nothing to escape. -/
theorem EnumMember.compact_name (e : EnumMember) :
    (Json.str e.name).compact = "\"" ++ e.name ++ "\"" := by
  cases e with
  | distanceFunction f => cases f <;> rfl
  | vectorDataType t => cases t <;> rfl

theorem Value.wellKeyed_toJson {v : Value} (h : v.Ordered) : v.toJson.WellKeyed :=
  ⟨Json.complete_of_sound _ v.toJson_sound, v.toJson_distinctKeys h⟩

namespace TypeMapping

/-- A mapping renders one document in both ways: its text, and the document in key order. Or it
refuses the value in both ways; the description of a vector apart. -/
theorem rendered_matches (m : TypeMapping) {v : Value} (hOrdered : v.Ordered)
    (hFloat : v.FloatFree) :
    Matches (fun literal sent => m.rendering ≠ .descriptor →
      ∃ j : Json, j.sound = true ∧ j.WellKeyed ∧ j.Whole (twoTo 64) ∧ literal = j.compact ∧
        sent = j.sortKeys) (m.literal v) (m.payload v) := by
  have hDocument : ∃ j : Json, j.sound = true ∧ j.WellKeyed ∧ j.Whole (twoTo 64) ∧
      v.toJson.compact = j.compact ∧ v.toJson.sortKeys = j.sortKeys :=
    ⟨v.toJson, v.toJson_sound, v.wellKeyed_toJson hOrdered, v.whole_toJson hFloat, rfl, rfl⟩
  obtain ⟨type, rendering⟩ := m
  cases rendering with
  | json => cases v <;> exact .ok fun _ => hDocument
  | enumMember =>
    cases v with
    | null => exact .ok fun _ => hDocument
    | enum e =>
      -- the member is rendered as a string, and not as the object that documents hold
      exact .ok fun _ =>
        ⟨.str e.name, rfl, ⟨rfl, trivial⟩, trivial, e.compact_name.symm, rfl⟩
    | _ => exact .error _
  | vector _ =>
    cases v with
    | null => exact .ok fun _ => hDocument
    | array items => exact .ok fun _ => hDocument
    | _ => exact .error _
  | descriptor =>
    cases v with
    | null => exact .ok fun h => absurd rfl h
    | vectorType t => exact .ok fun h => absurd rfl h
    | _ => exact .error _

/-- **Literals and payloads agree.** A value without fractions has a literal exactly if it has a
payload, and is refused with the same error otherwise. Unless the mapping is that for
descriptions of vectors, the literal is the text of one document, which is the payload up to the
order of members; and it is read up to its own end whatever follows it. -/
theorem literal_matches_payload (m : TypeMapping) {v : Value} (hOrdered : v.Ordered)
    (hFloat : v.FloatFree) :
    Matches (fun literal sent => m.rendering ≠ .descriptor →
      ∃ j : Json, j.Rearranged sent ∧ Json.Denotes literal j ∧ Json.Heads literal j)
      (m.literal v) (m.payload v) := by
  rcases (m.rendered_matches hOrdered hFloat).cases with
    ⟨e, hLiteral, hPayload⟩ | ⟨literal, sent, hLiteral, hPayload, hDocument⟩
  · rw [hLiteral, hPayload]
    exact .error e
  · rw [hLiteral, hPayload]
    refine .ok fun hRendering => ?_
    obtain ⟨j, hSound, hKeyed, hWhole, rfl, rfl⟩ := hDocument hRendering
    have hHeads := Json.heads_compact hSound hWhole
    exact ⟨j, Json.rearranged_sortKeys hKeyed, hHeads.denotes, hHeads⟩

end TypeMapping

/-- Strings with quotes and braces in them, beside a description whose keys are not in order. -/
def bracedStrings : Value :=
  .object [("\"\x7d", .array [.string "\\\"],", .int (-3), .enum (.distanceFunction .cosine)]),
    ("v", .vectorType ⟨.euclidean, 2, some .int8⟩)]

/-- How the strings are rendered. -/
def bracedStringsLiteral : String :=
  "\x7b\"\\\"\x7d\":[\"\\\\\\\"],\",-3," ++
    "\x7b\"enum\":\"DistanceFunction\",\"value\":\"cosine\"\x7d],\"v\":" ++
    "\x7b\"distanceFunction\":\"euclidean\",\"dimensions\":2,\"dataType\":\"int8\"\x7d\x7d"

/-- The quotes and braces inside the strings end neither a string nor the object. -/
theorem bracedStrings_rendered :
    ∃ literal sent j, (TypeMapping.json .object).literal bracedStrings = .ok literal ∧
      (TypeMapping.json .object).payload bracedStrings = .ok sent ∧
      literal = bracedStringsLiteral ∧
      j.Rearranged sent ∧ Json.Denotes literal j ∧ Json.Heads literal j := by
  have hOrdered : bracedStrings.Ordered :=
    ⟨by unfold Keys.Ascending; decide, ⟨trivial, trivial, trivial, trivial⟩, trivial, trivial⟩
  have hFloat : bracedStrings.FloatFree := ⟨⟨trivial, trivial, trivial, trivial⟩, trivial, trivial⟩
  have hAgree := (TypeMapping.json .object).literal_matches_payload hOrdered hFloat
  rcases hAgree.cases with ⟨e, hLiteral, -⟩ | ⟨literal, sent, hLiteral, hPayload, hAgree⟩
  · cases hLiteral
  · obtain ⟨j, hRearranged, hDenotes, hHeads⟩ := hAgree nofun
    refine ⟨literal, sent, j, hLiteral, hPayload, ?_, hRearranged, hDenotes, hHeads⟩
    have hText : bracedStrings.toJson.compact = literal := Except.ok.inj hLiteral
    rw [← hText]
    decide +kernel

end DocumentQuery
