import DocumentQuery.Proofs.Document.LookAlikes
import DocumentQuery.Proofs.Text.Fork
import DocumentQuery.Query.Lowering

/-!
# Look-alikes as literals

A member of an enumeration and an object that looks like it are different types, so
one mapping may take the one and refuse the other. Where a mapping takes both, it
writes the same literal. In a raw fragment each constant has the mapping of its own
type, and the literals may differ; then they differ in their first character.

Main results:

* `Value.alike_of_settled` — how two values that settle to the same value can differ.
* `TypeMapping.literal_eq_of_settled` — under one mapping.
* `Lowering.rawLiterals_fork` — in a raw fragment.
-/

namespace DocumentQuery

/-! ## Values that settle to the same value -/

namespace Value

variable {v w : Value}

theorem toJson_eq_of_settled (h : v.settled = w.settled) : v.toJson = w.toJson := by
  rw [← toJson_settled v, h, toJson_settled w]

theorem settled_object (members : List (String × Value)) :
    (∃ m, (Value.object members).settled = .enum m) ∨
      (Value.object members).settled = .object (settledMembers members) := by
  unfold settled
  cases lookAlike? members with
  | some m => exact .inl ⟨m, rfl⟩
  | none => exact .inr rfl

/-- A double settles like itself, or like null if it is no number. -/
theorem float_of_settled {x : Float} (h : (Value.float x).settled = w.settled) :
    .float x = w ∨ (Value.float x).toJson = .null ∧ w.toJson = .null := by
  have hJson := toJson_eq_of_settled h
  rcases float_cases x with ⟨d, rfl, hReal, -⟩ | ⟨hNull, -⟩
  · exact .inl (eq_float_of_toJson (hJson.symm.trans hReal)).symm
  · exact .inr ⟨hNull, hJson.symm.trans hNull⟩

/-- Two values that are equal, or both written like null, or both arrays, or each of them a
member of an enumeration or an object. -/
inductive Alike : Value → Value → Prop where
  | same (v : Value) : Alike v v
  | null {v w : Value} (hv : v.toJson = .null) (hw : w.toJson = .null) : Alike v w
  | arrays (items items' : List Value) : Alike (.array items) (.array items')
  | objects (members members' : List (String × Value)) : Alike (.object members) (.object members')
  | memberObject (m : EnumMember) (members : List (String × Value)) :
      Alike (.enum m) (.object members)
  | objectMember (members : List (String × Value)) (m : EnumMember) :
      Alike (.object members) (.enum m)

theorem Alike.of_eq (h : v = w) : Alike v w := h ▸ .same v

/-- Values that settle to the same value are alike. -/
theorem alike_of_settled (h : v.settled = w.settled) : Alike v w := by
  -- what settles like a double is that double or written like null
  have hDouble : ∀ x, v = .float x ∨ w = .float x → Alike v w := by
    rintro x (rfl | rfl)
    · rcases float_of_settled h with hEq | ⟨hv, hw⟩
      · exact .of_eq hEq
      · exact .null hv hw
    · rcases float_of_settled h.symm with hEq | ⟨hw, hv⟩
      · exact .of_eq hEq.symm
      · exact .null hv hw
  cases v with
  | float x => exact hDouble x (.inl rfl)
  | array items =>
    cases w with
    | array items' => exact .arrays items items'
    | object members => rcases settled_object members with ⟨m, hm⟩ | hm <;> rw [hm] at h <;> cases h
    | float x => exact hDouble x (.inr rfl)
    | _ => cases h
  | object members =>
    cases w with
    | object members' => exact .objects members members'
    | enum m => exact .objectMember members m
    | float x => exact hDouble x (.inr rfl)
    | _ => rcases settled_object members with ⟨m, hm⟩ | hm <;> rw [hm] at h <;> cases h
  | enum m =>
    cases w with
    | object members => exact .memberObject m members
    | enum m' => exact .of_eq h
    | float x => exact hDouble x (.inr rfl)
    | _ => cases h
  | _ =>
    cases w with
    | object members => rcases settled_object members with ⟨m, hm⟩ | hm <;> rw [hm] at h <;> cases h
    | array items => cases h
    | float x => exact hDouble x (.inr rfl)
    | _ => exact .of_eq h

end Value

/-! ## Literals -/

namespace TypeMapping

variable {m m' : TypeMapping} {x y : String}

/-- What is written like null has no other literal. -/
theorem literal_of_toJson_null {v : Value} (hNull : v.toJson = .null) (h : m.literal v = .ok x) :
    x = "null" := by
  obtain ⟨type, rendering⟩ := m
  cases v with
  | null => cases rendering <;> exact (Except.ok.inj h).symm
  | float y =>
    cases rendering with
    | json =>
      obtain rfl := Except.ok.inj h
      rw [hNull]
      rfl
    | _ => cases h
  | _ => cases hNull

theorem literal_array {items : List Value} (h : m.literal (.array items) = .ok x) :
    x = (Value.array items).toJson.compact := by
  obtain ⟨type, rendering⟩ := m
  cases rendering <;> cases h <;> rfl

theorem literal_object {members : List (String × Value)} (h : m.literal (.object members) = .ok x) :
    m.rendering = .json ∧ x = (Value.object members).toJson.compact := by
  obtain ⟨type, rendering⟩ := m
  cases rendering <;> cases h
  exact ⟨rfl, rfl⟩

theorem literal_enum {member : EnumMember} (h : m.literal (.enum member) = .ok x) :
    x = (Value.enum member).toJson.compact ∨
      m.rendering = .enumMember ∧ x = "\"" ++ member.name ++ "\"" := by
  obtain ⟨type, rendering⟩ := m
  cases rendering <;> cases h
  · exact .inl rfl
  · exact .inr ⟨rfl, rfl⟩

/-- An object is written differently from the name of a member from the first
character on. -/
theorem fork_name_object (name : String) (members : List (String × Value)) :
    Text.Fork ("\"" ++ name ++ "\"").toList (Value.object members).toJson.compact.toList := by
  have hName : ("\"" ++ name ++ "\"").toList = [] ++ '"' :: (name.toList ++ ['"']) := by
    simp [String.toList_append]
  have hObject : (Value.object members).toJson.compact.toList =
      [] ++ '{' :: Json.writeMembers (Value.membersToJson members) := by
    rw [Json.compact, String.toList_ofList]
    rfl
  exact ⟨[], '"', '{', _, _, by decide, by decide, by decide, hName, hObject⟩

/-- Literals of values that settle to the same value are the same or fork. -/
theorem literal_fork {v w : Value} (h : v.settled = w.settled) (hMapping : v = w → m = m')
    (hx : m.literal v = .ok x) (hy : m'.literal w = .ok y) :
    Text.SameOrFork x.toList y.toList := by
  have hJson := Value.toJson_eq_of_settled h
  cases Value.alike_of_settled h with
  | same =>
    obtain rfl := hMapping rfl
    rw [Except.ok.inj (hx.symm.trans hy)]
    exact .refl _
  | null hv hw =>
    rw [literal_of_toJson_null hv hx, literal_of_toJson_null hw hy]
    exact .refl _
  | arrays items items' =>
    rw [literal_array hx, literal_array hy, hJson]
    exact .refl _
  | objects members members' =>
    rw [(literal_object hx).2, (literal_object hy).2, hJson]
    exact .refl _
  | memberObject member members =>
    -- the member is written by name under a mapping of its own only
    rw [(literal_object hy).2]
    rcases literal_enum hx with rfl | ⟨-, rfl⟩
    · rw [hJson]
      exact .refl _
    · exact .inr (fork_name_object _ _)
  | objectMember members member =>
    rw [(literal_object hx).2]
    rcases literal_enum hy with rfl | ⟨-, rfl⟩
    · rw [hJson]
      exact .refl _
    · exact .inr (fork_name_object _ _).symm

/-- One mapping writes the same literal for values that settle to the same value, or
refuses one of them. -/
theorem literal_eq_of_settled {v w : Value} (h : v.settled = w.settled)
    (hx : m.literal v = .ok x) (hy : m.literal w = .ok y) : x = y := by
  have hJson := Value.toJson_eq_of_settled h
  cases Value.alike_of_settled h with
  | same => exact Except.ok.inj (hx.symm.trans hy)
  | null hv hw => rw [literal_of_toJson_null hv hx, literal_of_toJson_null hw hy]
  | arrays items items' => rw [literal_array hx, literal_array hy, hJson]
  | objects members members' => rw [(literal_object hx).2, (literal_object hy).2, hJson]
  | memberObject member members =>
    -- a mapping that takes the object renders JSON, so it writes the member as JSON too
    obtain ⟨hRendering, rfl⟩ := literal_object hy
    rcases literal_enum hx with rfl | ⟨hRendering', -⟩
    · rw [hJson]
    · rw [hRendering] at hRendering'
      cases hRendering'
  | objectMember members member =>
    obtain ⟨hRendering, rfl⟩ := literal_object hx
    rcases literal_enum hy with rfl | ⟨hRendering', -⟩
    · rw [hJson]
    · rw [hRendering] at hRendering'
      cases hRendering'

end TypeMapping

/-! ## Constants of raw fragments -/

/-- The literals of constants that settle to the same values are the same or fork, one
by one. -/
theorem Lowering.rawLiterals_fork {registry : Registry} {vs ws : List Value} {xs ys : List String}
    (h : Value.settledItems vs = Value.settledItems ws)
    (hx : rawLiterals registry vs = .ok xs) (hy : rawLiterals registry ws = .ok ys) :
    Template.SubstitutionsFork xs ys := by
  induction vs generalizing ws xs ys with
  | nil =>
    cases ws with
    | nil =>
      cases hx
      cases hy
      exact .nil
    | cons w ws => cases h
  | cons v vs ih =>
    cases ws with
    | nil => cases h
    | cons w ws =>
      obtain ⟨hHead, hTail⟩ := List.cons.inj h
      simp only [rawLiterals, bind_eq_ok, mapError_eq_ok] at hx hy
      obtain ⟨m, hm, x, hLiteral, xs, hRest, hx⟩ := hx
      obtain ⟨m', hm', y, hLiteral', ys, hRest', hy⟩ := hy
      obtain rfl := Except.ok.inj hx
      obtain rfl := Except.ok.inj hy
      -- equal values have equal types, hence the same mapping
      refine .cons (TypeMapping.literal_fork hHead ?_ hLiteral hLiteral') (ih hTail hRest hRest')
      rintro rfl
      exact Except.ok.inj (hm.symm.trans hm')

end DocumentQuery
