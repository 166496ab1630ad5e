import DocumentQuery.Document.Reader
import DocumentQuery.Document.Writer
import Mathlib.Tactic.Basic

/-!
# Names, types and mappings as documents

What is written for a member of an enumeration, for a type, for the description of
a vector and for a mapping is sound, and different for different ones.

Main results:

* `LawfulNames` — the members of an enumeration are known by their names.
* `DataType.toJson_injective`, `VectorType.toJson_injective`,
  `EnumMember.toJson_injective`, `TypeMapping.toJson_injective`.
-/

namespace DocumentQuery

/-! ## Names -/

/-- Every member of an enumeration is found under its name. -/
class LawfulNames (α : Type) [Enumerated α] : Prop where
  named?_name : ∀ a : α, Enumerated.named? (Enumerated.name a) = some a

theorem Enumerated.name_injective {α : Type} [Enumerated α] [LawfulNames α] {a b : α}
    (h : Enumerated.name a = Enumerated.name b) : a = b := by
  have hName := LawfulNames.named?_name a
  rw [h, LawfulNames.named?_name b] at hName
  exact (Option.some.inj hName).symm

instance : LawfulNames DistanceFunction := ⟨by rintro ⟨⟩ <;> rfl⟩

instance : LawfulNames ElementType := ⟨by rintro ⟨⟩ <;> rfl⟩

instance : LawfulNames BinaryOperator := ⟨by rintro ⟨⟩ <;> rfl⟩

instance : LawfulNames UnaryOperator := ⟨by rintro ⟨⟩ <;> rfl⟩

instance : LawfulNames RenderingForm := ⟨by rintro ⟨⟩ <;> rfl⟩

instance : LawfulNames ArgumentsForm := ⟨by rintro ⟨⟩ <;> rfl⟩

instance : LawfulNames ExpressionForm := ⟨by rintro ⟨⟩ <;> rfl⟩

/-! ## Types -/

namespace DataType

theorem toJson_of_plain {t : DataType} (h : t.element? = none) : t.toJson = .str t.name := by
  cases t <;> first | rfl | cases h

/-- A type that is no array type is found under its name. -/
theorem find?_name {t : DataType} (h : t.element? = none) :
    representatives.find? (fun r => r.name == t.name) = some t := by
  cases t <;> first | rfl | cases h

theorem eq_of_toJson_of_plain {t t' : DataType} (ht : t.element? = none)
    (h : t.toJson = t'.toJson) : t = t' := by
  rw [toJson_of_plain ht] at h
  -- names tell the plain types apart, and only an array type is written as an object
  cases ht' : t'.element? with
  | none =>
    rw [toJson_of_plain ht', Json.str.injEq] at h
    have hFind := find?_name ht
    rw [h, find?_name ht'] at hFind
    exact (Option.some.inj hFind).symm
  | some element =>
    cases t' <;> cases ht'
    cases h

theorem toJson_injective {t t' : DataType} (h : t.toJson = t'.toJson) : t = t' := by
  induction t generalizing t' with
  | array element ih =>
    cases ht' : t'.element? with
    | none => exact (eq_of_toJson_of_plain ht' h.symm).symm
    | some element' =>
      cases t' <;> cases ht'
      simp only [toJson, Json.obj.injEq, List.cons.injEq, Prod.mk.injEq, and_true, true_and] at h
      rw [ih h]
  | _ => exact eq_of_toJson_of_plain rfl h

theorem toJson_sound (t : DataType) : t.toJson.sound = true := by
  induction t with
  | array element ih =>
    show (element.toJson.sound && true) = true
    rw [ih]
    rfl
  | _ => rfl

end DataType

/-! ## Vectors and members of enumerations -/

theorem VectorType.toJson_injective {v w : VectorType} (h : v.toJson = w.toJson) : v = w := by
  obtain ⟨function, dimensions, elementType⟩ := v
  obtain ⟨function', dimensions', elementType'⟩ := w
  simp only [VectorType.toJson, Json.obj.injEq, List.cons_append, List.nil_append, List.cons.injEq,
    Prod.mk.injEq, true_and, Json.str.injEq, Json.int.injEq] at h
  obtain ⟨hFunction, hDimensions, hElement⟩ := h
  have hFunction' : function = function' := Enumerated.name_injective hFunction
  have hDimensions' : dimensions = dimensions' := UInt64.toNat_inj.mp (Int.ofNat_inj.mp hDimensions)
  -- an element type that is missing has no member at all
  have hElement' : elementType = elementType' := by
    cases elementType <;> cases elementType' <;> simp only [List.cons.injEq, Prod.mk.injEq,
      Json.str.injEq, true_and, and_true, reduceCtorEq] at hElement ⊢
    exact congrArg some (Enumerated.name_injective hElement)
  rw [hFunction', hDimensions', hElement']

theorem VectorType.toJson_sound (v : VectorType) : v.toJson.sound = true := by
  obtain ⟨function, dimensions, elementType⟩ := v
  cases elementType <;> rfl

theorem EnumMember.toJson_injective {m m' : EnumMember} (h : m.toJson = m'.toJson) : m = m' := by
  simp only [EnumMember.toJson, Json.obj.injEq, List.cons.injEq, Prod.mk.injEq, true_and,
    Json.str.injEq, and_true] at h
  obtain ⟨hType, hName⟩ := h
  cases m <;> cases m'
  · exact congrArg distanceFunction (Enumerated.name_injective hName)
  · exact absurd hType (show "DistanceFunction" ≠ "VectorDataType" by decide)
  · exact absurd hType (show "VectorDataType" ≠ "DistanceFunction" by decide)
  · exact congrArg vectorDataType (Enumerated.name_injective hName)

theorem EnumMember.toJson_sound (m : EnumMember) : m.toJson.sound = true := rfl

/-! ## Mappings -/

theorem Rendering.members_injective {r r' : Rendering} (h : r.members = r'.members) : r = r' := by
  cases r <;> cases r' <;>
    simp only [members, List.cons.injEq, Prod.mk.injEq, Json.str.injEq, true_and, and_true,
      reduceCtorEq, and_false] at h ⊢
  all_goals first
    | exact congrArg vector (VectorType.toJson_injective h)
    | exact absurd h (by decide)

theorem TypeMapping.toJson_injective {m m' : TypeMapping} (h : m.toJson = m'.toJson) : m = m' := by
  obtain ⟨type, rendering⟩ := m
  obtain ⟨type', rendering'⟩ := m'
  simp only [TypeMapping.toJson, Json.obj.injEq, List.cons.injEq, Prod.mk.injEq, true_and] at h
  obtain ⟨hType, hRendering⟩ := h
  rw [DataType.toJson_injective hType, Rendering.members_injective hRendering]

theorem TypeMapping.toJson_sound (m : TypeMapping) : m.toJson.sound = true := by
  obtain ⟨type, rendering⟩ := m
  show (type.toJson.sound && Json.soundMembers rendering.members) = true
  rw [type.toJson_sound]
  cases rendering with
  | vector v =>
    show (true && (v.toJson.sound && true)) = true
    rw [v.toJson_sound]
    rfl
  | _ => rfl

end DocumentQuery
