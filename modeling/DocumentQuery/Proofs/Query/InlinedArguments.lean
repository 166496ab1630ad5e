import DocumentQuery.Proofs.Document.Denotation
import DocumentQuery.Proofs.Query.Bindings
import DocumentQuery.Proofs.Query.Literals

/-!
# Raw arguments, inlined and bound

The array for a raw fragment stands in the tree or is supplied under a name. In the tree,
each item is rendered under the mapping of its type and set into the text; under a name, it
is bound as its document, and no mapping is asked. For most items the two ways say the same.
A member of an enumeration is set in by its name alone, as everywhere else in a query, but
bound as the object that documents hold in its place.

Main definition:

* `SameArgument` — a literal denotes what is sent.

Main results:

* `rawArguments_agree_iff` — the two ways agree on all items but members of enumerations.
* `not_rawArguments_agree` — they do not agree on these.
-/

namespace DocumentQuery

/-- The literal, read as a document, is what is sent. -/
def SameArgument (literal : String) (sent : Json) : Prop :=
  ∃ j, Json.Denotes literal j ∧ j.sortKeys = sent

/-! ## Items in the text -/

namespace TypeMapping

/-- Whatever the mapping, values other than members and descriptions are written as their
documents. -/
theorem literal_eq_compact {m : TypeMapping} {v : Value} {x : String} (hEnum : ∀ e, v ≠ .enum e)
    (hVector : ∀ t, v ≠ .vectorType t) (h : m.literal v = .ok x) : x = v.toJson.compact := by
  unfold literal at h
  split at h
  · exact (Except.ok.inj h).symm
  · exact (Except.ok.inj h).symm
  · exact absurd rfl (hEnum _)
  · exact (Except.ok.inj h).symm
  · exact absurd rfl (hVector _)
  · cases h

/-- The registry renders members by name. -/
theorem literal_member {m : TypeMapping} {e : EnumMember} {x : String}
    (hMapping : Registry.builtin.require e.dataType = .ok m) (h : m.literal (.enum e) = .ok x) :
    x = (Json.str e.name).compact := by
  cases e with
  | distanceFunction f =>
    cases hMapping
    cases h
    cases f <;> rfl
  | vectorDataType t =>
    cases hMapping
    cases h
    cases t <;> rfl

end TypeMapping

/-- The literal of each item, under the mapping of its type. -/
theorem Lowering.forall₂_rawLiterals {registry : Registry} {items : List Value}
    {literals : List String} (h : rawLiterals registry items = .ok literals) :
    List.Forall₂ (fun v x => ∃ m, registry.require v.dataType = .ok m ∧ m.literal v = .ok x)
      items literals := by
  induction items generalizing literals with
  | nil =>
    cases h
    exact .nil
  | cons v vs ih =>
    simp only [rawLiterals, bind_eq_ok, mapError_eq_ok] at h
    obtain ⟨m, hm, x, hx, xs, hRest, h⟩ := h
    obtain rfl := Except.ok.inj h
    exact .cons ⟨m, hm, hx⟩ (ih hRest)

/-- What is set into the text denotes what is sent for the item, unless it is a member. -/
theorem sameArgument_iff {v : Value} {m : TypeMapping} {x : String} (hFloat : v.FloatFree)
    (hVector : ∀ t, v ≠ .vectorType t) (hMapping : Registry.builtin.require v.dataType = .ok m)
    (h : m.literal v = .ok x) : SameArgument x v.toJson.sortKeys ↔ ∀ e, v ≠ .enum e := by
  constructor
  · rintro ⟨j, hDenotes, hSent⟩ e rfl
    -- the name of a member is a string, and its document an object
    obtain rfl := TypeMapping.literal_member hMapping h
    have hName : Json.Denotes (Json.str e.name).compact (.str e.name) :=
      Json.denotes_compact rfl trivial
    obtain rfl := hDenotes.unique hName
    cases hSent
  · intro hEnum
    obtain rfl := TypeMapping.literal_eq_compact hEnum hVector h
    exact ⟨v.toJson, Value.denotes_toJson hFloat, rfl⟩

/-! ## Items that are bound -/

namespace Bindings

/-- What is bound for the items, and the references to it. -/
theorem bindArguments_sent (b : Bindings) (values : ParameterValues) (items : List Value) :
    ∃ sent, (b.bindArguments values items).2.parameters = b.parameters ++ sent ∧
      (b.bindArguments values items).1 = sent.map Parameter.name ∧
      sent.map Parameter.value = items.map fun v => v.toJson.sortKeys := by
  induction items generalizing b with
  | nil => exact ⟨[], (List.append_nil _).symm, rfl, rfl⟩
  | cons value rest ih =>
    obtain ⟨sent, hParameters, hNames, hSent⟩ := ih (b.bindArgument values value).2
    refine ⟨⟨(b.bindArgument values value).1, value.toJson.sortKeys⟩ :: sent, ?_, ?_, ?_⟩
    · exact hParameters.trans (List.append_assoc ..)
    · exact congrArg _ hNames
    · exact congrArg _ hSent

end Bindings

/-! ## Raw fragments -/

namespace Lowering

variable {ctx : Context} {sql : String} {b : Bindings} {r : Layout × Bindings}

/-- A raw fragment with its array in the tree. -/
theorem fromSql_constant_eq_ok {items : List Value}
    (h : (fromSql ctx sql (.constant (.array items))).run b = .ok r) :
    ∃ literals text, rawLiterals ctx.registry items = .ok literals ∧
      Template.fill sql literals = .ok text ∧
      r = (Layout.block "(" (Layout.ofLines text) ")", b) := by
  obtain ⟨literals, text, hSubstitutions, hText, hLayout⟩ := fromSql_eq_ok h
  obtain ⟨items', hEq, hLiterals, hBindings⟩ := substitutions_constant_eq_ok hSubstitutions
  obtain rfl := Value.array.inj hEq
  exact ⟨literals, text, hLiterals, hText, Prod.ext hLayout hBindings⟩

/-- A raw fragment with its array under a name. -/
theorem fromSql_parameter_eq_ok {name : String} {items : List Value}
    (hItems : ctx.values.lookup name = some (.array items))
    (h : (fromSql ctx sql (.parameter name)).run b = .ok r) :
    ∃ sent text, r.2.parameters = b.parameters ++ sent ∧
      sent.map Parameter.value = items.map (fun v => v.toJson.sortKeys) ∧
      Template.fill sql (sent.map Parameter.name) = .ok text ∧
      r.1 = Layout.block "(" (Layout.ofLines text) ")" := by
  obtain ⟨xs, text, hSubstitutions, hText, hLayout⟩ := fromSql_eq_ok h
  rw [run_substitutions_parameter hItems] at hSubstitutions
  obtain ⟨sent, hParameters, hNames, hSent⟩ := b.bindArguments_sent ctx.values items
  obtain ⟨hReferences, hBindings⟩ := Prod.mk.inj (Except.ok.inj hSubstitutions)
  rw [← hReferences, hNames] at hText
  rw [hBindings] at hParameters
  exact ⟨sent, text, hParameters, hSent, hText, hLayout⟩

end Lowering

/-- **Raw arguments, inlined and bound.** Let a raw fragment be written with an array that
stands in the tree, and with the same array under a name; let none of its items be the
description of a vector, and let there be no fractions in it. Then the literal that is set
into the text for an item denotes what is sent for it exactly if the item is no member of an
enumeration. -/
theorem rawArguments_agree_iff {items : List Value} (hVectors : ∀ t, .vectorType t ∉ items)
    (hFloat : (Value.array items).FloatFree) {sql name : String}
    {values values' : ParameterValues} (hItems : values'.lookup name = some (.array items))
    {b b' : Bindings} {r r' : Layout × Bindings}
    (hInlined : ((Expression.fromSql sql (.constant (.array items))).lower
      ⟨.builtin, values⟩).run b = .ok r)
    (hBound : ((Expression.fromSql sql (.parameter name)).lower
      ⟨.builtin, values'⟩).run b' = .ok r') :
    ∃ literals text sent text',
      Lowering.rawLiterals .builtin items = .ok literals ∧ Template.fill sql literals = .ok text ∧
      r = (Layout.block "(" (Layout.ofLines text) ")", b) ∧
      r'.2.parameters = b'.parameters ++ sent ∧
      Template.fill sql (sent.map Parameter.name) = .ok text' ∧
      r'.1 = Layout.block "(" (Layout.ofLines text') ")" ∧
      literals.length = items.length ∧ sent.length = items.length ∧
      ∀ (i : Nat) (v : Value) (literal : String) (p : Parameter), items[i]? = some v →
        literals[i]? = some literal → sent[i]? = some p →
        (SameArgument literal p.value ↔ ∀ e, v ≠ .enum e) := by
  obtain ⟨literals, text, hLiterals, hText, hLayout⟩ := Lowering.fromSql_constant_eq_ok hInlined
  obtain ⟨sent, text', hParameters, hSent, hText', hLayout'⟩ :=
    Lowering.fromSql_parameter_eq_ok hItems hBound
  have hEach := Lowering.forall₂_rawLiterals hLiterals
  have hLength : sent.length = items.length := by
    have hMap := congrArg List.length hSent
    rwa [List.length_map, List.length_map] at hMap
  refine ⟨literals, text, sent, text', hLiterals, hText, hLayout, hParameters, hText', hLayout',
    hEach.length_eq.symm, hLength, ?_⟩
  intro i v literal p hv hLiteral hp
  have hMem : v ∈ items := List.mem_of_getElem? hv
  have hPayload : p.value = v.toJson.sortKeys := by
    have hMap := congrArg (fun l => l[i]?) hSent
    simpa [List.getElem?_map, hv, hp] using hMap
  have hVector : ∀ t, v ≠ .vectorType t := by
    rintro t rfl
    exact hVectors t hMem
  -- the literal at this position is that of the item at this position
  obtain ⟨m, hMapping, hRendered⟩ :
      ∃ m, Registry.builtin.require v.dataType = .ok m ∧ m.literal v = .ok literal := by
    obtain ⟨hi, hv⟩ := List.getElem?_eq_some_iff.mp hv
    obtain ⟨hi', hLiteral⟩ := List.getElem?_eq_some_iff.mp hLiteral
    have hPair := hEach.get hi hi'
    simpa [hv, hLiteral] using hPair
  rw [hPayload]
  exact sameArgument_iff (Value.floatFreeItems_iff.mp hFloat v hMem) hVector hMapping hRendered

/-- A member of an enumeration inside of an array, and by itself. -/
def mixedArguments : List Value :=
  [.array [.string "\"", .enum (.distanceFunction .cosine)], .enum (.distanceFunction .cosine)]

/-- Inside of an array the member is written as it is bound, by itself it is not. -/
theorem mixedArguments_agree :
    ∃ r r' literal literal' p p',
      ((Expression.fromSql "{1} {0}" (.constant (.array mixedArguments))).lower
        ⟨.builtin, []⟩).run {} = .ok r ∧
      ((Expression.fromSql "{1} {0}" (.parameter "args")).lower
        ⟨.builtin, [("args", .array mixedArguments)]⟩).run {} = .ok r' ∧
      Lowering.rawLiterals .builtin mixedArguments = .ok [literal, literal'] ∧
      r'.2.parameters = [p, p'] ∧ SameArgument literal p.value ∧
      ¬ SameArgument literal' p'.value := by
  obtain ⟨r, hInlined⟩ : ∃ r, ((Expression.fromSql "{1} {0}"
      (.constant (.array mixedArguments))).lower ⟨.builtin, []⟩).run {} = .ok r := ⟨_, rfl⟩
  obtain ⟨r', hBound⟩ : ∃ r', ((Expression.fromSql "{1} {0}" (.parameter "args")).lower
      ⟨.builtin, [("args", .array mixedArguments)]⟩).run {} = .ok r' := ⟨_, rfl⟩
  have hVectors : ∀ t, .vectorType t ∉ mixedArguments := by
    intro t
    simp [mixedArguments]
  obtain ⟨literals, text, sent, text', hLiterals, -, -, hSent, -, -, hLength, hLength', hAgree⟩ :=
    rawArguments_agree_iff hVectors ⟨⟨trivial, trivial, trivial⟩, trivial, trivial⟩ rfl hInlined
      hBound
  obtain ⟨literal, literal', rfl⟩ := List.length_eq_two.mp hLength
  obtain ⟨p, p', rfl⟩ := List.length_eq_two.mp hLength'
  refine ⟨r, r', literal, literal', p, p', hInlined, hBound, hLiterals, hSent, ?_, ?_⟩
  · exact (hAgree 0 _ _ _ rfl rfl rfl).mpr nofun
  · exact fun h => (hAgree 1 _ _ _ rfl rfl rfl).mp h _ rfl

/-- A member of an enumeration. -/
def memberArgument : List Value := [.enum (.distanceFunction .cosine)]

/-- The two ways do not say the same of a member: its name is set into the text, and an
object is sent. -/
theorem not_rawArguments_agree :
    ¬ ∀ (items : List Value) (sql name : String) (values values' : ParameterValues)
        (b b' : Bindings) (r r' : Layout × Bindings), (∀ t, .vectorType t ∉ items) →
        (Value.array items).FloatFree → values'.lookup name = some (.array items) →
        ((Expression.fromSql sql (.constant (.array items))).lower
          ⟨.builtin, values⟩).run b = .ok r →
        ((Expression.fromSql sql (.parameter name)).lower ⟨.builtin, values'⟩).run b' = .ok r' →
        ∀ literals sent, Lowering.rawLiterals .builtin items = .ok literals →
          r'.2.parameters = b'.parameters ++ sent →
          ∀ (i : Nat) (literal : String) (p : Parameter), literals[i]? = some literal →
            sent[i]? = some p → SameArgument literal p.value := by
  intro hAgree
  have hInlined : ((Expression.fromSql "{0}" (.constant (.array memberArgument))).lower
      ⟨.builtin, []⟩).run {} = .ok (Layout.block "(" (Layout.ofLines "\"cosine\"") ")", {}) := rfl
  have hBound : ((Expression.fromSql "{0}" (.parameter "args")).lower
      ⟨.builtin, [("args", .array memberArgument)]⟩).run {} =
      .ok (Layout.block "(" (Layout.ofLines "@p0") ")",
        ⟨[⟨"@p0", (EnumMember.distanceFunction .cosine).toJson⟩], 1⟩) := rfl
  have hLiterals : Lowering.rawLiterals .builtin memberArgument = .ok ["\"cosine\""] := rfl
  have hVectors : ∀ t, .vectorType t ∉ memberArgument := by
    intro t
    simp [memberArgument]
  obtain ⟨j, hDenotes, hSent⟩ := hAgree memberArgument "{0}" "args" [] _ {} {} _ _ hVectors
    ⟨trivial, trivial⟩ rfl hInlined hBound _ _ hLiterals (List.nil_append _).symm 0 _ _ rfl rfl
  -- the literal denotes a string, and no other document
  have hName : Json.Denotes "\"cosine\"" (.str "cosine") :=
    Json.denotes_compact (j := .str "cosine") rfl trivial
  obtain rfl := hDenotes.unique hName
  cases hSent

end DocumentQuery
