import DocumentQuery.Proofs.Json.Balance
import DocumentQuery.Proofs.Query.Indentation
import DocumentQuery.Proofs.Query.RawFragments

/-!
# Brackets in queries

Every bracket that a query is written with is closed behind what it encloses. Strings may
hold any brackets and quotes: a scan that tells them apart passes over them. Names and raw
fragments are taken as they are, and have to be free of brackets and quotes themselves; what
is set into the places of a raw fragment is balanced and stands on one line, so that the
fragment is balanced even line by line.

Main definitions:

* `Template.Bare` — a raw text without brackets and quotes outside of its places.

Main results:

* `TypeMapping.balanced_literal` — literals.
* `Template.linesBalanced_fill` — raw texts with their places filled.
* `generate_wellBracketed` — queries.
-/

namespace DocumentQuery

open Lowering Layout Text

/-! ## Literals -/

theorem TypeMapping.balanced_descriptor (v : VectorType) :
    Text.Balanced (descriptorLiteral v).toList := by
  have hFunction : Undelimited v.distanceFunction.name.toList := by
    cases v.distanceFunction <;> decide
  have hOpening : Turns [] ['}'] "\x7b'distanceFunction':'".toList := by decide
  have hQuote : Text.Balanced "'".toList := by decide
  have hClosing : Turns ['}'] [] "\x7d".toList := by decide
  unfold descriptorLiteral
  simp only [String.toList_append]
  -- the brace stays owed up to the last text
  refine (((hOpening.append ((balanced_of_undelimited hFunction).turns _)).append
    (hQuote.turns _)).append (Text.Balanced.turns ?_ _)).append hClosing
  cases v.elementType with
  | none => exact balanced_nil
  | some t => cases t <;> exact balanced_of_undelimited (by decide)

/-- Literals are balanced, whatever their strings hold. -/
theorem TypeMapping.balanced_literal {mapping : TypeMapping} {value : Value} {literal : String}
    (h : mapping.literal value = .ok literal) : Text.Balanced literal.toList := by
  have hCompact (j : Json) : Text.Balanced j.compact.toList := by
    rw [Json.compact, String.toList_ofList]
    exact j.balanced_write
  have hMember (m : EnumMember) : Text.Balanced ("\"" ++ m.name ++ "\"").toList := by
    cases m with
    | distanceFunction f => cases f <;> decide
    | vectorDataType t => cases t <;> decide
  unfold TypeMapping.literal at h
  split at h <;> cases h
  · exact balanced_of_undelimited (by decide)
  · exact hCompact _
  · exact hMember _
  · exact hCompact _
  · exact balanced_descriptor _

/-- Line ends are control characters. -/
theorem Graphic.setsIn {text : List Char} (h : Graphic text) (hBalanced : Text.Balanced text) :
    SetsIn text := by
  refine .inr ⟨hBalanced, fun c hc => ?_⟩
  have hGraphic : 0x20 ≤ c.toNat := h c hc
  constructor
  · rintro rfl
    exact absurd hGraphic (by decide)
  · rintro rfl
    exact absurd hGraphic (by decide)

theorem TypeMapping.setsIn_literal {mapping : TypeMapping} {value : Value} {literal : String}
    (h : mapping.literal value = .ok literal) : SetsIn literal.toList :=
  (graphic_literal h).setsIn (balanced_literal h)

/-! ## Raw fragments -/

theorem undelimited_argumentName (n : Nat) :
    Undelimited (referenceTo (Bindings.argumentName n)).toList := by
  have hDigits : Undelimited n.repr.toList := (allDigits_write n).allNumeric.undelimited
  unfold referenceTo Bindings.argumentName
  simp only [String.toList_append]
  exact Undelimited.append (by decide) (Undelimited.append (by decide) hDigits)

theorem Lowering.setsIn_rawLiterals {registry : Registry} {items : List Value}
    {literals : List String} (h : rawLiterals registry items = .ok literals) :
    ∀ x ∈ literals, SetsIn x.toList := by
  have hEach := forall₂_rawLiterals h
  clear h
  induction hEach with
  | nil => exact nofun
  | cons hLiteral _ ih =>
    obtain ⟨m, -, hLiteral⟩ := hLiteral
    exact List.forall_mem_cons.mpr ⟨TypeMapping.setsIn_literal hLiteral, ih⟩

/-- What is set into the places of a raw fragment. -/
theorem Lowering.setsIn_substitutions {ctx : Context} {arguments : RawArguments} {b c : Bindings}
    {xs : List String} (h : (substitutions ctx arguments).run b = .ok (xs, c)) :
    ∀ x ∈ xs, SetsIn x.toList := by
  cases arguments with
  | parameter name =>
    by_cases hItems : ∃ items, ctx.values.lookup name = some (.array items)
    · obtain ⟨items, hItems⟩ := hItems
      rw [run_substitutions_parameter hItems] at h
      obtain ⟨rfl, -⟩ := Prod.mk.inj (Except.ok.inj h)
      -- references, one for each item
      obtain ⟨numbers, -, -, -, hReferences, -⟩ := b.bindArguments_positions ctx.values items
      intro x hx
      rw [hReferences] at hx
      obtain ⟨n, -, rfl⟩ := List.mem_map.mp hx
      exact .inl (undelimited_argumentName n)
    · rw [run_substitutions_refused fun items hx => hItems ⟨items, hx⟩] at h
      cases h
  | constant value =>
    obtain ⟨items, -, hLiterals, -⟩ := substitutions_constant_eq_ok h
    exact setsIn_rawLiterals hLiterals

namespace Template

/-- There are no brackets, quotes and backslashes in a raw text but the braces of its
places. -/
def Bare (sql : String) : Prop :=
  ∃ items, sql = spell items ∧ ∀ text, .literal text ∈ items → Undelimited text.toList

/-- A place whose number is no machine word stays in the text. -/
theorem setsIn_spelled (p : Place) : SetsIn p.spelled := by
  have hDigits : AllNumeric p.digits := AllDigits.allNumeric p.allDigits
  have hClosing : Turns ['}'] [] ['}'] := by decide
  have hGraphic : Graphic p.spelled := by
    have hBrace : Graphic ['}'] := by decide
    exact (hDigits.graphic.append hBrace).cons (by decide)
  refine hGraphic.setsIn (Turns.cons_opening rfl ?_)
  exact (balanced_of_undelimited hDigits.undelimited).append hClosing

/-- What becomes of an item can be set in front of others. -/
theorem setsIn_filled {substitutions : List String} {item : Item} {text : String}
    (hItem : ∀ s, item = .literal s → Undelimited s.toList)
    (hSubstitutions : ∀ x ∈ substitutions, SetsIn x.toList)
    (h : item.filled substitutions = .ok text) : SetsIn text.toList := by
  cases item with
  | literal s =>
    obtain rfl := Except.ok.inj h
    exact .inl (hItem s rfl)
  | place p =>
    rw [Item.filled] at h
    split at h
    · split at h
      · rename_i x hx
        obtain rfl := Except.ok.inj h
        exact hSubstitutions x (List.mem_of_getElem? hx)
      · cases h
    · obtain rfl := Except.ok.inj h
      rw [String.toList_ofList]
      exact setsIn_spelled p

/-- **A bare text with its places filled is balanced line by line.** -/
theorem linesBalanced_fill {sql text : String} {substitutions : List String} (hSql : Bare sql)
    (hSubstitutions : ∀ x ∈ substitutions, SetsIn x.toList)
    (h : fill sql substitutions = .ok text) : LinesBalanced text.toList := by
  obtain ⟨items, rfl, hItems⟩ := hSql
  rw [fill_spell, map_eq_ok] at h
  obtain ⟨texts, hTexts, rfl⟩ := h
  rw [String.toList_join]
  refine linesBalanced_flatMap fun text hText => ?_
  obtain ⟨item, hItem, hFilled⟩ := exists_of_mapM_ok hTexts text hText
  exact setsIn_filled (fun s hs => hItems s (hs ▸ hItem)) hSubstitutions hFilled

end Template

/-- A bare fragment is composed of balanced lines. -/
theorem Lowering.composed_fromSql (ctx : Context) {sql : String} (hSql : Template.Bare sql)
    (arguments : RawArguments) :
    Yields Paired (fromSql ctx sql arguments) := by
  refine composed_fragment (by decide) fun b c xs text hSubstitutions hText line hLine => ?_
  have hLines := Template.linesBalanced_fill hSql (setsIn_substitutions hSubstitutions) hText
  obtain ⟨cs, hcs, rfl⟩ := List.mem_map.mp hLine
  rw [String.toList_ofList]
  exact hLines cs hcs

/-! ## Queries -/

/-- With names without delimiters, trees are written with balanced texts. -/
theorem balanced_wording :
    Wording (fun name => Undelimited name.toList) (fun s => Text.Balanced s.toList)
      BracketPair where
  word := by
    have hWords : ∀ word ∈ words, Undelimited word.toList := by decide
    exact fun word hWord => balanced_of_undelimited (hWords word hWord)
  bracket := by decide
  literal _ _ _ := TypeMapping.balanced_literal
  name _ h := balanced_of_undelimited h
  property name h := by
    have hList : ("[\"" ++ name ++ "\"]").toList =
        '[' :: ('"' :: name.toList ++ ['"'] ++ [']']) := by
      simp [String.toList_append]
    have hClosing : Turns [']'] [] [']'] := by decide
    rw [hList]
    exact Turns.cons_opening rfl ((within_of_undelimited h).quoted.append hClosing)
  label name h := by
    have hList : ("\"" ++ name ++ "\" : ").toList =
        '"' :: name.toList ++ ['"'] ++ " : ".toList := by
      simp [String.toList_append]
    rw [hList]
    exact (within_of_undelimited h).quoted.append (balanced_of_undelimited (by decide))
  reference name h := by
    unfold referenceTo
    rw [String.toList_append]
    exact balanced_of_undelimited (Undelimited.append (by decide) h)

/-- The layout of a select is balanced. -/
theorem Select.lower_balanced {s : Select} (hNames : ∀ name ∈ s.names, Undelimited name.toList)
    (hRaw : ∀ sql arguments, .raw sql arguments ∈ s.steps → Template.Bare sql) (ctx : Context) :
    Yields Layout.Balanced (s.lower ctx) := by
  have hSteps : ∀ step ∈ s.steps, step.Sets ctx Paired := by
    intro step hStep
    cases step with
    | raw sql arguments => exact composed_fromSql ctx (hRaw sql arguments hStep) arguments
    | _ => exact trivial
  exact fun b r hr => (s.lower_composed balanced_wording ctx hNames hSteps b r hr).balanced

/-- **Queries are well bracketed.** Where no name has brackets, quotes and backslashes, and
no raw fragment has any outside of its places, the parentheses, brackets and braces of the
text outside its strings are balanced and properly nested, and the text ends outside any
string. -/
theorem generate_wellBracketed {s : Select} {registry : Registry} {values : ParameterValues}
    {options : GeneratorOptions} {q : Query}
    (hNames : ∀ name ∈ s.names, Undelimited name.toList)
    (hRaw : ∀ sql arguments, .raw sql arguments ∈ s.steps → Template.Bare sql)
    (h : s.generate registry values options = .ok q) : WellBracketed q.text := by
  rw [Select.generate_eq, map_eq_ok] at h
  obtain ⟨r, hLower, rfl⟩ := h
  exact (Select.lower_balanced hNames hRaw ⟨registry, values⟩ {} r hLower).render _

/-- A raw fragment on two lines, and a negated membership. The strings of both hold brackets,
quotes and backslashes, and the second number in the fragment is too large for a place. -/
def Select.bracketStrings : Select :=
  { Select.empty with
    projection := [⟨.objectReference "c", "x", ""⟩,
      ⟨.parameter "p" .int64 (some (.json .int64)), "y", ""⟩]
    sources := [⟨.fromSql "it's\r\n{0} {18446744073709551616}"
      (.constant (.array [.array [.string ")\"["]])), some "c", false⟩]
    predicate := some (.unary .not (.isIn (.objectAccess (.objectReference "c") "k")
      (some [.constant (.string "\\(") .string (some (.json .string))]) none) .bool none) }

theorem bracketStrings_wellBracketed :
    (∀ name ∈ Select.bracketStrings.names, Undelimited name.toList) ∧
      (∀ sql arguments, .raw sql arguments ∈ Select.bracketStrings.steps → Template.Bare sql) ∧
      ∃ q, Select.bracketStrings.generate .builtin [("p", .int 1)] = .ok q ∧
        WellBracketed q.text := by
  have hNames : ∀ name ∈ Select.bracketStrings.names, Undelimited name.toList := by decide
  have hSteps : Select.bracketStrings.steps = [.parameter "p" (some (.json .int64)),
      .raw "it's\r\n{0} {18446744073709551616}"
        (.constant (.array [.array [.string ")\"["]]))] := rfl
  have hBare : Template.Bare "it's\r\n{0} {18446744073709551616}" := by
    refine ⟨[.literal "it's\r\n", .place .zero, .literal " ",
      .place ⟨"18446744073709551616".toList, by decide, by decide⟩], by decide, ?_⟩
    simp only [List.mem_cons, List.not_mem_nil, or_false]
    rintro text (h | h | h | h) <;> cases h <;> decide
  have hRaw : ∀ sql arguments, .raw sql arguments ∈ Select.bracketStrings.steps →
      Template.Bare sql := by
    intro sql arguments h
    rw [hSteps] at h
    simp only [List.mem_cons, List.not_mem_nil, or_false, reduceCtorEq, false_or] at h
    obtain ⟨rfl, -⟩ := Step.raw.inj h
    exact hBare
  have hQuery : Select.bracketStrings.generate .builtin [("p", .int 1)] =
      .ok ⟨"SELECT VALUE\n\x7b\n  \"x\" : c,\n  \"y\" : @p\n\x7d\nFROM (\n  it's\n" ++
        "  [\")\\\"[\"] \x7b18446744073709551616\x7d\n) c\nWHERE c[\"k\"] NOT IN (\"\\\\(\")",
        [⟨"@p", .int 1⟩]⟩ := rfl
  exact ⟨hNames, hRaw, _, hQuery, generate_wellBracketed hNames hRaw hQuery⟩

end DocumentQuery
