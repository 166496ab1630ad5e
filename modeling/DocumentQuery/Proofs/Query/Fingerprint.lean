import DocumentQuery.Proofs.Document.Ordered
import DocumentQuery.Proofs.Json.Printer
import DocumentQuery.Proofs.Query.SideBySide

/-!
# What a fingerprint tells apart

The fingerprint of a select is to be a key under which its query can be remembered.
Two selects have the same canonical text exactly when they are the same up to objects
that look like members of an enumeration; a text in which a key of the member is
repeated is read as such an object. The query of one is then the query of the other
unless a constant is refused, or a raw fragment filled, in one of them only.

Main results:

* `Select.canonicalText_eq_iff` — which selects have the same canonical text.
* `Select.canonicalText_sound_iff` — when one query may stand for the other.
-/

namespace DocumentQuery

namespace Select

/-- The select with its values settled: every look-alike is replaced by the member that it
looks like. -/
def settled (s : Select) : Select := s.mapValues Value.settled

theorem canonicalText_settled (s : Select) : s.settled.canonicalText = s.canonicalText :=
  congrArg Json.compact (toJson_mapValues Value.toJson_settled s)

/-- Selects whose values are in key order have the same canonical text exactly when
they settle to the same select. -/
theorem canonicalText_eq_iff {s t : Select} (hs : AllOrdered s.values) (ht : AllOrdered t.values) :
    s.canonicalText = t.canonicalText ↔ s.settled = t.settled := by
  constructor
  · intro h
    have hJson : s.toJson = t.toJson := Json.compact_injective s.toJson_sound t.toJson_sound h
    -- what is read is in key order, and such values settle to what their documents tell
    have hDetermined : DeterminedByDocument Value.settled Value.Ordered :=
      Value.settled_eq_of_toJson
    exact mapValues_eq_of_toJson hDetermined hs ht hJson
  · intro h
    rw [← s.canonicalText_settled, ← t.canonicalText_settled, h]

/-- **The canonical text as a key.** Two selects that texts describe have the same
canonical text exactly when they settle to the same select. A run then gives the same
result for both exactly when it fills their raw fragments alike and binds the same, or
stops for the same reason; if neither holds a look-alike, every run does. -/
theorem canonicalText_sound_iff {a b : String} {s t : Select} (hs : Select.ofText a = .ok s)
    (ht : Select.ofText b = .ok t) :
    (s.canonicalText = t.canonicalText ↔ s.settled = t.settled) ∧
      (s.canonicalText = t.canonicalText → ∀ registry values options,
        (s.generate registry values options = t.generate registry values options ↔
          s.fragments ⟨registry, values⟩ = t.fragments ⟨registry, values⟩)) ∧
      (s.canonicalText = t.canonicalText → s.settled = s → t.settled = t →
        ∀ registry values options,
          s.generate registry values options = t.generate registry values options) := by
  have hKey := canonicalText_eq_iff (ordered_of_ofText hs) (ordered_of_ofText ht)
  refine ⟨hKey, ?_, ?_⟩
  · intro hText registry values options
    exact generate_eq_iff_fragments (hKey.mp hText) registry values options
  · intro hText hSettled hSettled' registry values options
    -- without look-alikes the two selects are the same
    have hEq : s = t := by
      rw [← hSettled, hKey.mp hText, hSettled']
    rw [hEq]

/-! ## A member and its look-alike -/

/-- A raw fragment that stands for one constant. -/
def ofConstant (v : Value) : Select :=
  { Select.empty with limit := some (.fromSql "\x7b0\x7d" (.constant (.array [v]))) }

/-- The document of such a select, with the members of the constant. -/
def documentOf (members : List (String × Json)) : Json :=
  .obj [("limit", .obj [("type", .str "FromSql"), ("sql", .str "\x7b0\x7d"),
    ("arguments", .obj [("kind", .str "Constant"), ("value", .arr [.obj members])])])]

def memberText : String :=
  "\x7b\"limit\":\x7b\"type\":\"FromSql\",\"sql\":\"\x7b0\x7d\",\"arguments\":" ++
    "\x7b\"kind\":\"Constant\",\"value\":[\x7b\"enum\":\"DistanceFunction\"," ++
    "\"value\":\"cosine\"\x7d]\x7d\x7d\x7d"

/-- The key `enum` is repeated. -/
def lookAlikeText : String :=
  "\x7b\"limit\":\x7b\"type\":\"FromSql\",\"sql\":\"\x7b0\x7d\",\"arguments\":" ++
    "\x7b\"kind\":\"Constant\",\"value\":[\x7b\"enum\":\"DistanceFunction\"," ++
    "\"enum\":\"DistanceFunction\",\"value\":\"cosine\"\x7d]\x7d\x7d\x7d"

def member : Value := .enum (.distanceFunction .cosine)

def lookAlike : Value := .object [("enum", .string "DistanceFunction"), ("value", .string "cosine")]

theorem ofText_memberText : ofText memberText = .ok (ofConstant member) := by
  have hDocument : Json.Document.ofText memberText =
      ⟨documentOf [("enum", .str "DistanceFunction"), ("value", .str "cosine")], none⟩ :=
    Json.Document.eq_of_isOf rfl (by decide +kernel)
  rw [ofText, Json.decodeText, hDocument]
  rfl

theorem ofText_lookAlikeText : ofText lookAlikeText = .ok (ofConstant lookAlike) := by
  have hDocument : Json.Document.ofText lookAlikeText =
      ⟨documentOf [("enum", .str "DistanceFunction"), ("enum", .str "DistanceFunction"),
        ("value", .str "cosine")], none⟩ :=
    Json.Document.eq_of_isOf rfl (by decide +kernel)
  rw [ofText, Json.decodeText, hDocument]
  rfl

/-- A registry that renders the types of the member and of its look-alike as JSON. -/
def plainRegistry : Registry := Registry.builtin.register (.json .distanceFunction)

/-- Under mappings to JSON the query of the member is the query of its look-alike. -/
theorem member_sound_of_plainRegistry :
    ∃ s t, ofText memberText = .ok s ∧ ofText lookAlikeText = .ok t ∧
      s.canonicalText = t.canonicalText ∧ ∀ values options,
        s.generate plainRegistry values options = t.generate plainRegistry values options := by
  have hSound := canonicalText_sound_iff ofText_memberText ofText_lookAlikeText
  have hText := hSound.1.mpr rfl
  refine ⟨_, _, ofText_memberText, ofText_lookAlikeText, hText, fun values options => ?_⟩
  exact (hSound.2.1 hText plainRegistry values options).mpr rfl

/-- A query may be remembered under the canonical text of another. -/
theorem not_canonicalText_sound :
    ¬ ∀ (a b : String) (s t : Select), ofText a = .ok s → ofText b = .ok t →
      s.canonicalText = t.canonicalText → ∀ registry values options,
        s.generate registry values options = t.generate registry values options := by
  intro h
  have hSame := h _ _ _ _ ofText_memberText ofText_lookAlikeText rfl .builtin [] {}
  -- the builtin mapping of the member writes its name, that of objects a JSON object
  have hDiffer : ((ofConstant member).generate .builtin []).toOption.map Query.text ≠
      ((ofConstant lookAlike).generate .builtin []).toOption.map Query.text := by
    decide +kernel
  exact hDiffer (congrArg (fun r => r.toOption.map Query.text) hSame)

end Select

end DocumentQuery
