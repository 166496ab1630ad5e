import DocumentQuery.Registry
import Mathlib.Data.List.Basic

/-!
# Which mapping a registry finds

A registry keeps the mapping registered last for each type. The mapping of an array type is
looked for layer by layer, so an entry for any of the types below it takes part: what counts is
the first of these types that has an entry, or the array of nothing known, which needs none. If
arrays lie between, that entry has to render JSON, and then they are rendered as JSON too.

Main definitions:

* `Registry.ofMappings` — the registry after some registrations.
* `Registry.lastFor` — the mapping registered last for a type.
* `Registry.Nearest` — the first type below array layers that a search stops at.

Main results:

* `Registry.find?_of_nearest_self`, `Registry.find?_of_nearest_below`,
  `Registry.find?_of_no_nearest` — what is found, by where the search stops.
* `Registry.lookup_nearest` — the same for every sequence of registrations, and what follows
  for the type of the mapping that is found, the order of registrations, and one more of them.
-/

namespace DocumentQuery

/-- A type below some layers of arrays. -/
def DataType.layered (t : DataType) : Nat → DataType
  | 0 => t
  | layers + 1 => .array (t.layered layers)

namespace Registry

/-! ## Registrations -/

/-- The registry after mappings have been registered one after the other. -/
def ofMappings (ms : List TypeMapping) : Registry := ms.foldl register builtin

/-- The last mapping for a type among those that have been registered, after the ones that are
built in. -/
def lastFor (ms : List TypeMapping) (type : DataType) : Option TypeMapping :=
  (builtinMappings ++ ms).reverse.find? fun m => m.type = type

theorem registered?_register (r : Registry) (m : TypeMapping) (type : DataType) :
    (r.register m).registered? type =
      if m.type = type then some m else r.registered? type := by
  rw [registered?, register, List.lookup_cons]
  by_cases h : m.type = type
  · rw [if_pos h, beq_iff_eq.mpr h.symm]
  · rw [if_neg h, beq_eq_false_iff_ne.mpr (Ne.symm h)]
    rfl

theorem registered?_foldl_register (ms : List TypeMapping) (r : Registry) (type : DataType) :
    (ms.foldl register r).registered? type =
      (ms.reverse.find? fun m => m.type = type).or (r.registered? type) := by
  induction ms generalizing r with
  | nil => rfl
  | cons m ms ih =>
    rw [List.foldl_cons, ih, List.reverse_cons, List.find?_append, Option.or_assoc,
      registered?_register]
    by_cases h : m.type = type <;> simp [h]

/-- What is registered for a type is what was registered last for it. -/
theorem registered?_ofMappings (ms : List TypeMapping) (type : DataType) :
    (ofMappings ms).registered? type = lastFor ms type := by
  rw [ofMappings, builtin, ← List.foldl_append, registered?_foldl_register]
  exact Option.or_none

theorem type_of_lastFor {ms : List TypeMapping} {type : DataType} {m : TypeMapping}
    (h : lastFor ms type = some m) : m.type = type := by
  have hType := List.find?_some h
  exact of_decide_eq_true hType

theorem lastFor_concat (ms : List TypeMapping) (m : TypeMapping) (type : DataType) :
    lastFor (ms ++ [m]) type = if m.type = type then some m else lastFor ms type := by
  rw [lastFor, ← List.append_assoc, List.reverse_concat, List.find?_cons, lastFor]
  by_cases h : m.type = type <;> simp [h]

/-- Only the registrations for a type itself count for it. -/
theorem lastFor_congr {ms ms' : List TypeMapping} {type : DataType}
    (h : (ms.filter fun m => m.type = type) = ms'.filter fun m => m.type = type) :
    lastFor ms type = lastFor ms' type := by
  have hFilter (ms : List TypeMapping) :
      lastFor ms type = ((builtinMappings ++ ms).filter fun m => m.type = type).reverse.head? := by
    rw [lastFor, ← List.filter_reverse, List.head?_filter]
  rw [hFilter, hFilter, List.filter_append, List.filter_append, h]

/-! ## Where a search stops -/

/-- A search stops at a type that has an entry, and at an array of nothing known. -/
def Stops (entry : DataType → Option TypeMapping) (type : DataType) : Prop :=
  (entry type).isSome ∨ type = .array .unknown

/-- `type` lies below `layers` layers of arrays in `whole`, and is the first type at which a
search stops when they are taken off one by one. -/
structure Nearest (entry : DataType → Option TypeMapping) (whole : DataType) (layers : Nat)
    (type : DataType) : Prop where
  peeled : whole = type.layered layers
  stops : Stops entry type
  first : ∀ fewer < layers, ∀ above : DataType, whole = above.layered fewer → ¬ Stops entry above

variable {entry : DataType → Option TypeMapping} {whole element type : DataType} {layers : Nat}

theorem nearest_zero_iff : Nearest entry whole 0 type ↔ type = whole ∧ Stops entry whole := by
  constructor
  · rintro ⟨rfl, hStops, -⟩
    exact ⟨rfl, hStops⟩
  · rintro ⟨rfl, hStops⟩
    exact ⟨rfl, hStops, nofun⟩

/-- One layer taken off. -/
theorem nearest_succ_iff : Nearest entry whole (layers + 1) type ↔
    ¬ Stops entry whole ∧
      ∃ element, whole = .array element ∧ Nearest entry element layers type := by
  constructor
  · rintro ⟨rfl, hStops, hFirst⟩
    refine ⟨hFirst 0 layers.succ_pos _ rfl, type.layered layers, rfl, rfl, hStops, ?_⟩
    intro fewer hFewer above hAbove
    exact hFirst (fewer + 1) (Nat.succ_lt_succ hFewer) above (congrArg DataType.array hAbove)
  · rintro ⟨hWhole, element, rfl, hPeeled, hStops, hFirst⟩
    refine ⟨congrArg DataType.array hPeeled, hStops, ?_⟩
    intro fewer hFewer above hAbove
    cases fewer with
    | zero =>
      obtain rfl : DataType.array element = above := hAbove
      exact hWhole
    | succ fewer =>
      exact hFirst fewer (Nat.lt_of_succ_lt_succ hFewer) above (DataType.array.inj hAbove)

/-! ## What a search finds -/

variable {r : Registry}

theorem find?_of_stops (h : Stops r.registered? type) :
    r.find? type = some ((r.registered? type).getD (.json type)) := by
  obtain hEntry | rfl := h
  · obtain ⟨m, hm⟩ := Option.isSome_iff_exists.mp hEntry
    rw [hm]
    unfold find?
    split <;> simp [hm]
  · rw [find?]
    cases r.registered? (.array .unknown) <;> rfl

/-- Where it does not stop, a search goes on below an array. -/
theorem find?_array (h : ¬ Stops r.registered? (.array element)) :
    r.find? (.array element) = (r.find? element).bind fun m =>
      if m.rendering = .json then some (.json (.array element)) else none := by
  obtain ⟨hEntry, hUnknown⟩ := not_or.mp h
  have hNone : r.registered? (.array element) = none := Option.not_isSome_iff_eq_none.mp hEntry
  rw [find?, hNone, Option.none_or]
  · exact fun hElement => hUnknown (congrArg DataType.array hElement)

theorem find?_of_nearest_self (h : Nearest r.registered? whole 0 type) :
    r.find? whole = some ((r.registered? whole).getD (.json whole)) :=
  find?_of_stops (nearest_zero_iff.mp h).2

/-- Below arrays, an entry counts only if it renders JSON, and all arrays above it do so then. -/
theorem find?_of_nearest_below (h : Nearest r.registered? whole (layers + 1) type) :
    r.find? whole =
      if ∀ m ∈ r.registered? type, m.rendering = .json then some (.json whole) else none := by
  induction layers generalizing whole with
  | zero =>
    obtain ⟨hWhole, element, rfl, hElement⟩ := nearest_succ_iff.mp h
    obtain ⟨rfl, hStops⟩ := nearest_zero_iff.mp hElement
    rw [find?_array hWhole, find?_of_stops hStops]
    cases r.registered? type with
    | none => simp [TypeMapping.json]
    | some m => simp
  | succ layers ih =>
    obtain ⟨hWhole, element, rfl, hElement⟩ := nearest_succ_iff.mp h
    rw [find?_array hWhole, ih hElement]
    split <;> simp [TypeMapping.json]

theorem find?_of_no_nearest (h : ∀ layers type, ¬ Nearest r.registered? whole layers type) :
    r.find? whole = none := by
  have hWhole : ¬ Stops r.registered? whole := fun hStops =>
    h 0 whole (nearest_zero_iff.mpr ⟨rfl, hStops⟩)
  induction whole with
  | array element ih =>
    have hElement : ∀ layers type, ¬ Nearest r.registered? element layers type :=
      fun layers type hNearest =>
        h (layers + 1) type (nearest_succ_iff.mpr ⟨hWhole, element, rfl, hNearest⟩)
    have hBelow : ¬ Stops r.registered? element := fun hStops =>
      hElement 0 element (nearest_zero_iff.mpr ⟨rfl, hStops⟩)
    rw [find?_array hWhole, ih hElement hBelow]
    rfl
  | _ => exact Option.not_isSome_iff_eq_none.mp (not_or.mp hWhole).1

/-- Only the entries of the types below the layers of an array take part in a search. -/
theorem find?_congr {r' : Registry}
    (h : ∀ layers type, whole = type.layered layers → r.registered? type = r'.registered? type) :
    r.find? whole = r'.find? whole := by
  have hWhole : r.registered? whole = r'.registered? whole := h 0 whole rfl
  induction whole with
  | array element ih =>
    have hElement : r.find? element = r'.find? element := by
      have hLayers := fun layers type hType =>
        h (layers + 1) type (congrArg DataType.array hType)
      exact ih hLayers (hLayers 0 element rfl)
    by_cases hUnknown : element = .unknown
    · subst hUnknown
      rw [find?, find?, hWhole]
    · rw [find?, find?, hWhole, hElement] <;> exact hUnknown
  | _ => exact hWhole

/-- What is found for a type is a mapping of the type, if the entries are. -/
theorem type_of_find? (hEntries : ∀ type m, r.registered? type = some m → m.type = type)
    {m : TypeMapping} (h : r.find? whole = some m) : m.type = whole := by
  by_cases hStops : Stops r.registered? whole
  · rw [find?_of_stops hStops, Option.some_inj] at h
    subst h
    cases hEntry : r.registered? whole with
    | none => rfl
    | some m => exact hEntries whole m hEntry
  · cases whole with
    | array element =>
      rw [find?_array hStops] at h
      obtain ⟨below, -, hJson⟩ := Option.bind_eq_some_iff.mp h
      split at hJson
      · cases hJson
        rfl
      · cases hJson
    | _ => exact hEntries _ m h

/-- **Registry lookup.** After any registrations, take array layers off a type until a search
stops. If it stops nowhere, no mapping is found. If it stops at the type itself, its entry is
found, and JSON for an array of nothing known without one; if it stops below some layers, JSON is
found unless the entry there renders in another way, and nothing otherwise. So a mapping that is
found is one for the type, only the order of registrations for one type counts, and one more
registration changes what is found for its type and for arrays over it only. -/
theorem lookup_nearest (ms : List TypeMapping) (whole : DataType) :
    ((∀ layers type, ¬ Nearest (lastFor ms) whole layers type) →
      (ofMappings ms).find? whole = none) ∧
    (∀ layers type, Nearest (lastFor ms) whole layers type →
      (ofMappings ms).find? whole =
        if layers = 0 then some ((lastFor ms whole).getD (.json whole))
        else if ∀ m ∈ lastFor ms type, m.rendering = .json then some (.json whole) else none) ∧
    (∀ m, (ofMappings ms).find? whole = some m → m.type = whole) ∧
    (∀ ms', (∀ type, (ms.filter fun m => m.type = type) = ms'.filter fun m => m.type = type) →
      (ofMappings ms).find? whole = (ofMappings ms').find? whole) ∧
    ∀ m : TypeMapping, (∀ layers, whole ≠ m.type.layered layers) →
      (ofMappings (ms ++ [m])).find? whole = (ofMappings ms).find? whole := by
  have hEntries : (ofMappings ms).registered? = lastFor ms := funext (registered?_ofMappings ms)
  refine ⟨?_, fun layers type h => ?_, fun m => type_of_find? fun type m h => ?_, ?_, ?_⟩
  · rw [← hEntries]
    exact find?_of_no_nearest
  · rw [← hEntries] at h ⊢
    cases layers with
    | zero => exact find?_of_nearest_self h
    | succ layers => exact find?_of_nearest_below h
  · rw [hEntries] at h
    exact type_of_lastFor h
  · intro ms' hSame
    refine find?_congr fun _ type _ => ?_
    rw [registered?_ofMappings, registered?_ofMappings, lastFor_congr (hSame type)]
  · intro m hOther
    refine find?_congr fun layers type hType => ?_
    rw [registered?_ofMappings, registered?_ofMappings, lastFor_concat, if_neg]
    rintro rfl
    exact hOther layers hType

/-- Arrays of bytes as vectors, in place of JSON. -/
def bytesAsVectors : List TypeMapping :=
  [.json (.array .int8), .vector (.array .int8) ⟨.cosine, 3, none⟩]

/-- The mapping for vectors is found for arrays of bytes. It bars the arrays over them, although
bytes are rendered as JSON; arrays of arrays of nothing known are rendered as JSON. -/
theorem bytesAsVectors_lookup :
    (ofMappings bytesAsVectors).find? (.array .int8) =
      some (.vector (.array .int8) ⟨.cosine, 3, none⟩) ∧
    (ofMappings bytesAsVectors).find? (.array (.array .int8)) = none ∧
    (ofMappings bytesAsVectors).find? (.array (.array .unknown)) =
      some (.json (.array (.array .unknown))) ∧
    (ofMappings bytesAsVectors).find? (.array .vectorType) = none := by
  have hBytes : Nearest (lastFor bytesAsVectors) (.array .int8) 0 (.array .int8) :=
    nearest_zero_iff.mpr ⟨rfl, .inl rfl⟩
  have hOver : ¬ Stops (lastFor bytesAsVectors) (.array (.array .int8)) := by
    rintro (h | h) <;> cases h
  have hUnknown : ¬ Stops (lastFor bytesAsVectors) (.array (.array .unknown)) := by
    rintro (h | h) <;> cases h
  have hDescriptors : ¬ Stops (lastFor bytesAsVectors) (.array .vectorType) := by
    rintro (h | h) <;> cases h
  refine ⟨(lookup_nearest bytesAsVectors _).2.1 0 _ hBytes, ?_, ?_, ?_⟩
  · exact (lookup_nearest bytesAsVectors _).2.1 1 _
      (nearest_succ_iff.mpr ⟨hOver, _, rfl, hBytes⟩)
  · exact (lookup_nearest bytesAsVectors _).2.1 1 _
      (nearest_succ_iff.mpr ⟨hUnknown, _, rfl, nearest_zero_iff.mpr ⟨rfl, .inr rfl⟩⟩)
  · exact (lookup_nearest bytesAsVectors _).2.1 1 _
      (nearest_succ_iff.mpr ⟨hDescriptors, _, rfl, nearest_zero_iff.mpr ⟨rfl, .inl rfl⟩⟩)

end Registry

end DocumentQuery
