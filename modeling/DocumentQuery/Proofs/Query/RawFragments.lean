import DocumentQuery.Proofs.Query.FreshNames
import DocumentQuery.Proofs.Query.InlinedArguments
import DocumentQuery.Proofs.Query.WellFormed
import DocumentQuery.Proofs.Text.Margins
import DocumentQuery.Proofs.Text.Spelling

/-!
# What becomes of raw fragments

Between the array under a name and the text of the query stand four steps: each item is given
a name that nothing else has, is bound under it, the names fill the places of the raw text,
and the lines of the result are set in. An item sits in the text where the place of its number
is, so the names have to come in the order of the items through all of them.

A place without a name or literal makes the fragment fail, and no query is generated. The
number of a place is a machine word, though: a place whose digits denote a larger number is
not found, and its digits and braces go into the query.

Main definitions:

* `Text.setIn` — the lines of a text behind spaces.

Main results:

* `fromSql_parameter_positions` — the four steps together.
* `fromSql_unfilled_iff` — when a fragment fails for its places.
* `not_fromSql_unfilled` — a place without a substitution that is not found.
-/

namespace DocumentQuery

open Bindings

/-! ## Arguments in their order -/

namespace Bindings

/-- No name that is given to an argument has been bound before. -/
theorem isBound_of_mem_bindArguments {b : Bindings} {values : ParameterValues}
    {items : List Value} {reference : String} (h : reference ∈ (b.bindArguments values items).1) :
    b.isBound reference = false := by
  induction items generalizing b with
  | nil => cases h
  | cons value rest ih =>
    rcases List.mem_cons.mp h with rfl | hRest
    · exact b.isBound_freeIndex values
    · -- what is free behind the first argument has been free before it
      have hLater : (b.bindArgument values value).2.isBound reference = false := ih hRest
      cases hBound : b.isBound reference with
      | false => rfl
      | true =>
        rw [(b.extends_bindArgument values value).isBound hBound] at hLater
        cases hLater

/-- The arguments are bound one by one under names of ascending numbers, none of which is
bound or supplied. -/
theorem bindArguments_positions (b : Bindings) (values : ParameterValues) (items : List Value) :
    ∃ numbers, numbers.length = items.length ∧ numbers.Pairwise (· < ·) ∧
      (∀ n ∈ numbers, b.isBound (referenceTo (argumentName n)) = false ∧
        values.lookup (argumentName n) = none) ∧
      (b.bindArguments values items).1 = numbers.map (fun n => referenceTo (argumentName n)) ∧
      (b.bindArguments values items).2.parameters = b.parameters ++
        List.zipWith (fun n v => ⟨referenceTo (argumentName n), v.toJson.sortKeys⟩)
          numbers items := by
  obtain ⟨sent, hParameters, hNames, hSent⟩ := b.bindArguments_sent values items
  obtain ⟨numbers, hLength, hNumbered⟩ := b.numbered_bindArguments values items
  -- what is sent is what the bindings have gained
  have hAdded : b.addedSince (b.bindArguments values items).2 = sent := by
    have hExtended := (b.extends_bindArguments values items).parameters_eq
    exact List.append_cancel_left (hExtended.symm.trans hParameters)
  have hReferences : sent.map Parameter.name =
      numbers.map fun n => referenceTo (argumentName n) := hAdded ▸ hNumbered.names
  have hEntries : sent =
      List.zipWith (fun n v => ⟨referenceTo (argumentName n), v.toJson.sortKeys⟩)
        numbers items := by
    have hZip : List.zipWith Parameter.mk (sent.map Parameter.name)
        (sent.map Parameter.value) = sent := by
      rw [List.zipWith_map, List.zipWith_self]
      exact List.map_id sent
    rw [hReferences, hSent, List.zipWith_map] at hZip
    exact hZip.symm
  refine ⟨numbers, hLength, hNumbered.ascending, fun n hn => ⟨?_, hNumbered.unsupplied n hn⟩,
    hNames.trans hReferences, hEntries ▸ hParameters⟩
  have hMem : referenceTo (argumentName n) ∈ (b.bindArguments values items).1 := by
    rw [hNames, hReferences]
    exact List.mem_map_of_mem hn
  exact isBound_of_mem_bindArguments hMem

end Bindings

/-! ## Lines set in -/

namespace Text

/-- A line behind spaces; an empty one stays empty. -/
def setInLine (count : Nat) (line : String) : String :=
  if line.isEmpty then "" else IndentedText.spaces count ++ line

/-- The lines of a text, each behind spaces, with line feeds between them. -/
def setIn (count : Nat) (text : String) : String :=
  "\n".intercalate ((linesOf text).map (setInLine count))

end Text

open Text

namespace Layout

/-- A line of its own, and its end. -/
theorem writeOn_line {t : IndentedText} (hFresh : t.fresh = true) (line : String) :
    writeOn [.text line, .newline] t =
      { t with text := t.text ++ setInLine (t.level * t.width) line ++ "\n" } := by
  by_cases hEmpty : line.isEmpty = true
  · simp [writeOn, Piece.write, IndentedText.append, IndentedText.newline, setInLine, hEmpty,
      hFresh]
  · simp [writeOn, Piece.write, IndentedText.append, IndentedText.newline, IndentedText.margin,
      setInLine, hEmpty, hFresh, String.append_assoc]

theorem writeOn_lines {t : IndentedText} (hFresh : t.fresh = true) (line : String)
    (rest : List String) :
    writeOn ((line :: rest).flatMap fun line => [.text line, .newline]) t =
      { t with text := t.text ++
          "\n".intercalate ((line :: rest).map (setInLine (t.level * t.width))) ++ "\n" } := by
  induction rest generalizing t line with
  | nil =>
    rw [List.map_singleton, String.intercalate_singleton]
    exact writeOn_line hFresh line
  | cons line' rest ih =>
    rw [List.flatMap_cons, writeOn_append, writeOn_line hFresh]
    -- behind the first line its line feed stands between it and the others
    have hRest := ih (t := { t with text := t.text ++ setInLine (t.level * t.width) line ++ "\n" })
      hFresh line'
    refine hRest.trans ?_
    simp only [List.map_cons, String.intercalate_cons_cons, String.append_assoc]

/-- The lines of a text, with a line feed behind the last one. A text without lines is an
empty line. -/
theorem writeOn_ofLines {t : IndentedText} (hFresh : t.fresh = true) (text : String) :
    writeOn (ofLines text) t =
      { t with text := t.text ++ setIn (t.level * t.width) text ++ "\n" } := by
  unfold ofLines setIn
  cases linesOf text with
  | nil =>
    have hNone : t.text ++ "" ++ "\n" = t.text ++ "\n" := by rw [String.append_empty]
    rw [List.map_nil, String.intercalate_nil, hNone]
    simp [writeOn, Piece.write, IndentedText.newline, hFresh]
  | cons line rest => exact writeOn_lines hFresh line rest

/-- A raw fragment in its parentheses. What comes after it stands on the level of what comes
before it. -/
theorem writeOn_fragment (text : String) (t : IndentedText) :
    writeOn (block "(" (ofLines text) ")") t =
      { t with
        text := t.text ++ t.margin ++ "(\n" ++ setIn ((t.level + 1) * t.width) text ++ "\n" ++
          IndentedText.spaces (t.level * t.width) ++ ")"
        fresh := false } := by
  have hParts : block "(" (ofLines text) ")" =
      [.text "(", .newline, .indent] ++ ofLines text ++ [.dedent, .text ")"] := by
    simp [block, nested]
  have hOpened : writeOn [.text "(", .newline, .indent] t =
      { t with text := t.text ++ t.margin ++ "(\n", level := t.level + 1, fresh := true } := by
    simp [writeOn, Piece.write, IndentedText.append, IndentedText.newline, IndentedText.indent,
      String.append_assoc]
  rw [hParts, writeOn_append, writeOn_append, hOpened, writeOn_ofLines rfl]
  simp [writeOn, Piece.write, IndentedText.append, IndentedText.dedent, IndentedText.margin,
    String.append_assoc]

end Layout

/-! ## An array under a name -/

/-- **Raw arguments are bound in position.** Where a raw fragment with the name of an array is
written, its items are bound in their order, each as its document, under the names of
ascending numbers that are neither bound nor supplied; and wherever the fragment is written,
it consists of a parenthesis, the lines of the raw text with these names in its places, set in
by one level, and the closing parenthesis on the level outside. -/
theorem fromSql_parameter_positions {ctx : Context} {sql name : String} {items : List Value}
    (hItems : ctx.values.lookup name = some (.array items)) {b b' : Bindings} {layout : Layout}
    (h : ((Expression.fromSql sql (.parameter name)).lower ctx).run b = .ok (layout, b')) :
    ∃ numbers text, numbers.length = items.length ∧ numbers.Pairwise (· < ·) ∧
      (∀ n ∈ numbers, b.isBound (referenceTo (argumentName n)) = false ∧
        ctx.values.lookup (argumentName n) = none) ∧
      b'.parameters = b.parameters ++
        List.zipWith (fun n v => ⟨referenceTo (argumentName n), v.toJson.sortKeys⟩)
          numbers items ∧
      Template.fill sql (numbers.map fun n => referenceTo (argumentName n)) = .ok text ∧
      ∀ t : IndentedText, layout.writeOn t =
        { t with
          text := t.text ++ t.margin ++ "(\n" ++ setIn ((t.level + 1) * t.width) text ++ "\n" ++
            IndentedText.spaces (t.level * t.width) ++ ")"
          fresh := false } := by
  obtain ⟨names, text, hSubstitutions, hText, rfl⟩ := Lowering.fromSql_eq_ok h
  rw [Lowering.run_substitutions_parameter hItems] at hSubstitutions
  obtain ⟨hNames, hBindings⟩ := Prod.mk.inj (Except.ok.inj hSubstitutions)
  obtain ⟨numbers, hLength, hAscending, hFree, hReferences, hParameters⟩ :=
    b.bindArguments_positions ctx.values items
  rw [← hNames, hReferences] at hText
  rw [hBindings] at hParameters
  exact ⟨numbers, text, hLength, hAscending, hFree, hParameters, hText,
    Layout.writeOn_fragment text⟩

/-- What is supplied besides the two items for a fragment: a value for the name of the first
argument. -/
def besidesArguments : ParameterValues :=
  [("p0", .null), ("args", .array [.string "x", .int 7])]

/-- The name `p0` is supplied and `p1` is bound, so the items are called `p2` and `p3`. -/
theorem besidesArguments_positions :
    ∃ layout b', ((Expression.fromSql "a {1}\n\n{0}" (.parameter "args")).lower
        ⟨.builtin, besidesArguments⟩).run ⟨[⟨"@p1", .null⟩], 0⟩ = .ok (layout, b') ∧
      b'.parameters = [⟨"@p1", .null⟩, ⟨"@p2", .str "x"⟩, ⟨"@p3", .int 7⟩] ∧
      (layout.writeOn { text := "SELECT ", width := 2, level := 1 }).text =
        "SELECT (\n    a @p3\n\n    @p2\n  )" := by
  obtain ⟨layout, b', hRun⟩ : ∃ layout b',
      ((Expression.fromSql "a {1}\n\n{0}" (.parameter "args")).lower
        ⟨.builtin, besidesArguments⟩).run ⟨[⟨"@p1", .null⟩], 0⟩ = .ok (layout, b') := ⟨_, _, rfl⟩
  have hParameters : b'.parameters = [⟨"@p1", .null⟩, ⟨"@p2", .str "x"⟩, ⟨"@p3", .int 7⟩] := by
    cases hRun
    rfl
  obtain ⟨numbers, text, hLength, -, -, hEntries, hText, hLayout⟩ :=
    fromSql_parameter_positions rfl hRun
  obtain ⟨m, n, rfl⟩ := List.length_eq_two.mp hLength
  -- the numbers are those in the names that have been bound
  rw [hParameters] at hEntries
  simp only [List.zipWith_cons_cons, List.zipWith_nil_left, List.cons_append, List.nil_append,
    List.cons.injEq, Parameter.mk.injEq, true_and, and_true] at hEntries
  obtain ⟨⟨hFirst, -⟩, hSecond, -⟩ := hEntries
  obtain rfl : 2 = m := argumentName_injective (referenceTo_injective hFirst)
  obtain rfl : 3 = n := argumentName_injective (referenceTo_injective hSecond)
  obtain rfl : "a @p3\n\n@p2" = text := Except.ok.inj hText
  refine ⟨layout, b', hRun, hParameters, ?_⟩
  rw [hLayout]
  rfl

/-! ## Places without a substitution -/

namespace Lowering

variable {ctx : Context} {sql : String} {arguments : RawArguments} {b b' : Bindings}
  {xs : List String}

/-- The places of a fragment that can be filled are filled by its substitutions. -/
theorem exists_fill (hFill : arguments.Fill ctx sql)
    (h : (substitutions ctx arguments).run b = .ok (xs, b')) :
    ∃ text, Template.fill sql xs = .ok text := by
  rw [Template.fill_ok_iff]
  cases arguments with
  | parameter name =>
    obtain ⟨items, hItems, hPlaces⟩ := hFill
    rw [run_substitutions_parameter hItems] at h
    obtain ⟨rfl, -⟩ := Prod.mk.inj (Except.ok.inj h)
    rw [b.length_bindArguments]
    exact hPlaces
  | constant value =>
    obtain ⟨items, rfl, -, hPlaces⟩ := hFill
    obtain ⟨items', hEq, hLiterals, -⟩ := substitutions_constant_eq_ok h
    obtain rfl := Value.array.inj hEq
    rw [length_rawLiterals hLiterals]
    exact hPlaces

/-- A fragment with substitutions fails exactly if they do not fill its places. -/
theorem fromSql_eq_outOfRange (h : (substitutions ctx arguments).run b = .ok (xs, b'))
    (index count : Nat) :
    (fromSql ctx sql arguments).run b = .error (.user (.placeOutOfRange index count)) ↔
      Template.fill sql xs = .error ⟨index, count⟩ := by
  rw [run_fromSql, h, ok_bind, filled]
  cases Template.fill sql xs with
  | ok text =>
    constructor
    · intro hEq
      cases hEq
    · intro hEq
      cases hEq
  | error e =>
    simp only [Except.map, Except.error.injEq, QueryError.user.injEq,
      UserError.placeOutOfRange.injEq]
    constructor
    · rintro ⟨rfl, rfl⟩
      rfl
    · rintro rfl
      exact ⟨rfl, rfl⟩

end Lowering

/-- A select with a fragment whose substitutions do not fill its places gives no query. -/
theorem generate_ne_ok_of_fill_error {ctx : Context} {sql : String} {arguments : RawArguments}
    {b b' : Bindings} {xs : List String} {e : Template.OutOfRange}
    (h : (Lowering.substitutions ctx arguments).run b = .ok (xs, b'))
    (hError : Template.fill sql xs = .error e) {s : Select} (hStep : .raw sql arguments ∈ s.steps)
    (options : GeneratorOptions) (q : Query) :
    s.generate ctx.registry ctx.values options ≠ .ok q := by
  intro hQuery
  obtain ⟨c, hRun, -⟩ := Select.generate_ok hQuery
  obtain ⟨d, d', hSucceeds⟩ := succeeds_of_mem hRun hStep
  obtain ⟨text, hText⟩ := Lowering.exists_fill hSucceeds.possible h
  rw [hError] at hText
  cases hText

open Template in
/-- **Places without a substitution are refused, but for those of large numbers.** A raw text
is refused exactly if the number of some place in it is not below the number of substitutions
and is a machine word. Then a fragment with the text is refused as well, whatever has been
bound before, and no select that contains it gives a query. Otherwise the text becomes what
its items stand for, and the places of larger numbers stay in it. -/
theorem fromSql_unfilled_iff (items : List Template.Item) (substitutions : List String) :
    (Unfilled substitutions.length items ↔
      ∃ index, substitutions.length ≤ index ∧
        fill (spell items) substitutions = .error ⟨index, substitutions.length⟩) ∧
    (¬ Unfilled substitutions.length items → substitutions.length ≤ twoTo 64 →
      fill (spell items) substitutions =
        .ok (String.join (items.map (Template.Item.meant substitutions)))) ∧
    ∀ (ctx : Context) (arguments : RawArguments) (b b' : Bindings),
      (Lowering.substitutions ctx arguments).run b = .ok (substitutions, b') →
        (Unfilled substitutions.length items ↔
          ∃ index, substitutions.length ≤ index ∧
            ((Expression.fromSql (spell items) arguments).lower ctx).run b =
              .error (.user (.placeOutOfRange index substitutions.length))) ∧
        (Unfilled substitutions.length items →
          ∀ (s : Select) (options : GeneratorOptions), .raw (spell items) arguments ∈ s.steps →
            ∀ q, s.generate ctx.registry ctx.values options ≠ .ok q) := by
  refine ⟨unfilled_iff, fun hFilled hWords => fill_of_not_unfilled hWords hFilled, ?_⟩
  intro ctx arguments b b' h
  constructor
  · rw [unfilled_iff]
    exact exists_congr fun index => and_congr_right fun _ =>
      (Lowering.fromSql_eq_outOfRange h index substitutions.length).symm
  · intro hUnfilled s options hStep q
    obtain ⟨index, -, hError⟩ := unfilled_iff.mp hUnfilled
    exact generate_ne_ok_of_fill_error h hError hStep options q

/-- A place, a closing brace, and a place beyond a single substitution. -/
def Template.placeBeyond : List Template.Item :=
  [.place .zero, .literal "\x7d", .place .paddedOne]

/-- A select from a fragment with this raw text and one constant. -/
def Select.fromPlaceBeyond : Select :=
  { Select.empty with
    sources := [⟨.fromSql "{0}\x7d\x7d{01}" (.constant (.array [.int 7])), some "c", false⟩] }

/-- One constant is not enough for the two places. -/
theorem placeBeyond_refused :
    Template.spell Template.placeBeyond = "{0}\x7d\x7d{01}" ∧
      (∃ index, 1 ≤ index ∧ Template.fill "{0}\x7d\x7d{01}" ["7"] = .error ⟨index, 1⟩) ∧
      ¬ ∃ q, Select.fromPlaceBeyond.generate .builtin [] = .ok q := by
  have hSpelled : Template.spell Template.placeBeyond = "{0}\x7d\x7d{01}" := by decide
  have hUnfilled : Template.Unfilled ["7"].length Template.placeBeyond :=
    ⟨.paddedOne, by simp [Template.placeBeyond], by decide, by decide⟩
  have hStep : .raw (Template.spell Template.placeBeyond) (.constant (.array [.int 7])) ∈
      Select.fromPlaceBeyond.steps := by
    rw [hSpelled]
    exact List.mem_singleton_self _
  obtain ⟨hFill, -, hFragments⟩ := fromSql_unfilled_iff Template.placeBeyond ["7"]
  obtain ⟨-, hQueries⟩ := hFragments ⟨.builtin, []⟩ (.constant (.array [.int 7])) {} {} rfl
  refine ⟨hSpelled, hSpelled ▸ hFill.mp hUnfilled, ?_⟩
  rintro ⟨q, hQuery⟩
  exact hQueries hUnfilled Select.fromPlaceBeyond {} hStep q hQuery

/-- A place whose digits denote 2^64. -/
def Template.largePlace : Template.Place :=
  ⟨"18446744073709551616".toList, by decide, by decide⟩

/-- A place without a substitution need not be refused: it stays in the text, where its number
is no machine word. -/
theorem not_fromSql_unfilled :
    ¬ ∀ (items : List Template.Item) (substitutions : List String),
        (∃ p, .place p ∈ items ∧ substitutions.length ≤ p.number) →
        ∃ index, Template.fill (Template.spell items) substitutions =
          .error ⟨index, substitutions.length⟩ := by
  intro hRefused
  have hText : Template.fill (Template.spell [.place Template.largePlace]) [] =
      .ok "{18446744073709551616}" := by
    have hLarge : ¬ Template.Unfilled ([] : List String).length [.place Template.largePlace] := by
      rintro ⟨p, hMem, -, hWord⟩
      obtain rfl := Template.Item.place.inj (List.mem_singleton.mp hMem)
      exact absurd hWord (by decide)
    exact (Template.fill_of_not_unfilled (by decide) hLarge).trans (by decide)
  obtain ⟨index, hError⟩ := hRefused [.place Template.largePlace] []
    ⟨_, List.mem_singleton_self _, Nat.zero_le _⟩
  rw [hText] at hError
  cases hError

end DocumentQuery
