import DocumentQuery.Proofs.Json.Graphic
import DocumentQuery.Proofs.Query.Composition
import DocumentQuery.Proofs.Query.Operators
import DocumentQuery.Proofs.Query.Projections

/-!
# What indentation does to a query

The width of a level is no part of a query but of how it looks: another width changes the
spaces in front of the lines and nothing else. And a subquery looks as the query would by
itself, one level deeper, so that queries can be read from the inside out. For this the
line ends of a text must be those of its layout; the lines of raw fragments are set in one
by one, literals escape their line feeds, and names are taken as they are.

Main definitions:

* `Subquery` — the places where a select stands in an expression.

Main results:

* `generate_indent_cosmetic` — two widths.
* `generate_subquery` — a query as a subquery.
-/

namespace DocumentQuery

open Lowering Layout Text

/-! ## Widths -/

/-- **Indentation is cosmetic.** Two widths give the same error, or the same parameters and
texts that differ in the spaces in front of their lines only. -/
theorem generate_indent_cosmetic (s : Select) (registry : Registry) (values : ParameterValues)
    (options options' : GeneratorOptions) :
    (∃ e, s.generate registry values options = .error e ∧
      s.generate registry values options' = .error e) ∨
    ∃ q q', s.generate registry values options = .ok q ∧
      s.generate registry values options' = .ok q' ∧ q.parameters = q'.parameters ∧
      unindented q.text = unindented q'.text := by
  rw [Select.generate_eq, Select.generate_eq]
  -- the layout is the same; only the rendering knows the width
  cases (s.lower ⟨registry, values⟩).run {} with
  | error e => exact .inl ⟨e, rfl, rfl⟩
  | ok r =>
    exact .inr ⟨_, _, rfl, rfl, rfl, r.1.unindented_render options.indentSize options'.indentSize⟩

/-! ## Texts on one line -/

theorem Graphic.oneLine {s : String} (h : Graphic s.toList) : OneLine s := h.newline_not_mem

theorem Text.OneLine.append {s s' : String} (h : OneLine s) (h' : OneLine s') :
    OneLine (s ++ s') := by
  rw [OneLine, String.toList_append, List.mem_append, not_or]
  exact ⟨h, h'⟩

theorem TypeMapping.graphic_descriptor (v : VectorType) : Graphic (descriptorLiteral v).toList := by
  have hFunction : Graphic v.distanceFunction.name.toList := by
    cases v.distanceFunction <;> decide
  have hOpening : Graphic "\x7b'distanceFunction':'".toList := by decide
  have hQuote : Graphic "'".toList := by decide
  have hClosing : Graphic "\x7d".toList := by decide
  unfold descriptorLiteral
  simp only [String.toList_append]
  refine (((hOpening.append hFunction).append hQuote).append ?_).append hClosing
  -- the type of the elements may be left out
  cases v.elementType with
  | none => decide
  | some t => cases t <;> decide

/-- Literals hold no control characters. -/
theorem TypeMapping.graphic_literal {mapping : TypeMapping} {value : Value} {literal : String}
    (h : mapping.literal value = .ok literal) : Graphic literal.toList := by
  have hCompact (j : Json) : Graphic j.compact.toList := by
    rw [Json.compact, String.toList_ofList]
    exact j.graphic_write
  have hMember (m : EnumMember) : Graphic ("\"" ++ m.name ++ "\"").toList := by
    cases m with
    | distanceFunction f => cases f <;> decide
    | vectorDataType t => cases t <;> decide
  unfold TypeMapping.literal at h
  split at h <;> cases h
  · decide
  · exact hCompact _
  · exact hMember _
  · exact hCompact _
  · exact graphic_descriptor _

/-- With names on one line, all that trees are written with is on one line. -/
theorem oneLine_wording :
    Wording OneLine OneLine fun opening closing => OneLine opening ∧ OneLine closing where
  word := by decide
  bracket := by decide
  literal _ _ _ h := (TypeMapping.graphic_literal h).oneLine
  name _ h := h
  property _ h := ((by decide : OneLine "[\"").append h).append (by decide)
  label _ h := ((by decide : OneLine "\"").append h).append (by decide)
  reference _ h := (by decide : OneLine "@").append h

/-! ## Selects -/

/-- Raw fragments are set in line by line. -/
theorem Lowering.lineated_fromSql (ctx : Context) (sql : String) (arguments : RawArguments) :
    Yields Lineated (fromSql ctx sql arguments) :=
  composed_fragment ⟨by decide, by decide⟩ fun _ _ _ _ _ _ _ => oneLine_of_mem_linesOf

/-- Where names are on one line, the layout of a select is steady. -/
theorem Select.lower_steady {s : Select} (hNames : ∀ n ∈ s.names, OneLine n) (ctx : Context) :
    Yields Steady (s.lower ctx) := by
  have hSteps : ∀ step ∈ s.steps, step.Sets ctx Lineated := by
    intro step _
    cases step with
    | raw sql arguments => exact lineated_fromSql ctx sql arguments
    | _ => exact trivial
  exact fun b r hr => (s.lower_composed oneLine_wording ctx hNames hSteps b r hr).steady

theorem Select.lower_head (s : Select) (ctx : Context) :
    Yields (fun l => ∃ rest, l = .text "SELECT " :: rest) (s.lower ctx) := by
  intro b r hr
  obtain ⟨parts, rest, -, hLayout⟩ := s.lower_projected ctx b r hr
  exact ⟨_, hLayout⟩

/-! ## Subqueries -/

/-- The places where a select stands in an expression. -/
inductive Subquery where
  | exists
  | array
  | scalar
deriving DecidableEq, Repr

namespace Subquery

def expression : Subquery → Select → Expression
  | .exists => .exists
  | .array => .array
  | .scalar => .scalarSubquery

/-- What stands in front of the select. -/
def opening : Subquery → String
  | .exists => "EXISTS ("
  | .array => "ARRAY("
  | .scalar => "("

theorem lower_expression (k : Subquery) (s : Select) (ctx : Context) :
    (k.expression s).lower ctx = subquery k.opening (s.lower ctx) := by
  cases k <;> rfl

end Subquery

/-- A select as the only value of another one is lowered as by itself, in a block. -/
theorem Select.run_lower_subquery (k : Subquery) (s : Select) (ctx : Context) (b : Bindings) :
    ((Select.empty.projectValue (k.expression s)).lower ctx).run b =
      ((s.lower ctx).run b).map fun r =>
        (.text "SELECT " :: .text "VALUE " :: block k.opening r.1 ")", r.2) := by
  rw [Select.lower_projectValue, k.lower_expression, subquery, StateT.run_bind, StateT.run_bind]
  cases (s.lower ctx).run b <;> rfl

/-- **Subqueries are formatted as queries.** Where names are on one line, a select as a
subquery fails as it does by itself, and otherwise is written as it is by itself, with the
spaces of one level in front of its lines. -/
theorem generate_subquery (k : Subquery) {s : Select} (hNames : ∀ n ∈ s.names, '\n' ∉ n.toList)
    (registry : Registry) (values : ParameterValues) (options : GeneratorOptions) :
    (Select.empty.projectValue (k.expression s)).generate registry values options =
      (s.generate registry values options).map fun q =>
        { q with text := "SELECT VALUE " ++ k.opening ++ "\n" ++
            indented options.indentSize q.text ++ ")" } := by
  rw [Select.generate_eq, Select.generate_eq, Select.run_lower_subquery]
  cases hLower : (s.lower ⟨registry, values⟩).run {} with
  | error e => rfl
  | ok r =>
    obtain ⟨rest, hHead⟩ := s.lower_head ⟨registry, values⟩ {} r hLower
    have hSteady : Steady r.1 := Select.lower_steady hNames ⟨registry, values⟩ {} r hLower
    rw [hHead] at hSteady
    -- the block stands behind two words, still on the outermost level
    have hBlock := hSteady.written_block (by decide : "SELECT ".isEmpty = false)
      (rfl : ({ text := "SELECT VALUE ", width := options.indentSize } : IndentedText).level = 0)
      k.opening ")"
    have hText : render options.indentSize
        (.text "SELECT " :: .text "VALUE " :: block k.opening r.1 ")") =
        "SELECT VALUE " ++ k.opening ++ "\n" ++
          indented options.indentSize (r.1.render options.indentSize) ++ ")" := by
      refine String.toList_inj.mp ?_
      simp only [String.toList_append, indented, String.toList_ofList, toList_render, hHead]
      show "SELECT VALUE ".toList ++ written _ ⟨"SELECT VALUE ", options.indentSize, 0, false⟩ = _
      rw [hBlock]
      simp
    simp only [Except.map, hText]

/-- An object that is projected from a raw fragment with an empty line. -/
def Select.emptyLine : Select :=
  { Select.empty with
    projection := [⟨.objectReference "c", "x", ""⟩,
      ⟨.parameter "p" .int64 (some (.json .int64)), "y", ""⟩]
    sources := [⟨.fromSql "a\n\n {0}" (.constant (.array [.string "\n"])), some "c", false⟩] }

/-- The empty line stays empty, and the line feed of the constant is no line end. -/
theorem emptyLine_subquery :
    (∀ n ∈ Select.emptyLine.names, '\n' ∉ n.toList) ∧
      (Select.empty.projectValue (.exists .emptyLine)).generate .builtin [("p", .int 1)] =
        .ok ⟨"SELECT VALUE EXISTS (\n  SELECT VALUE\n  \x7b\n    \"x\" : c,\n    \"y\" : @p\n" ++
          "  \x7d\n  FROM (\n    a\n\n     \"\\n\"\n  ) c)", [⟨"@p", .int 1⟩]⟩ := by
  have hNames : ∀ n ∈ Select.emptyLine.names, '\n' ∉ n.toList := by decide
  have hQuery : Select.emptyLine.generate .builtin [("p", .int 1)] =
      .ok ⟨"SELECT VALUE\n\x7b\n  \"x\" : c,\n  \"y\" : @p\n\x7d\nFROM (\n  a\n\n   \"\\n\"\n) c",
        [⟨"@p", .int 1⟩]⟩ := rfl
  have hText : "SELECT VALUE " ++ Subquery.exists.opening ++ "\n" ++ indented 2
      "SELECT VALUE\n\x7b\n  \"x\" : c,\n  \"y\" : @p\n\x7d\nFROM (\n  a\n\n   \"\\n\"\n) c" ++
        ")" = "SELECT VALUE EXISTS (\n  SELECT VALUE\n  \x7b\n    \"x\" : c,\n    \"y\" : @p\n" ++
          "  \x7d\n  FROM (\n    a\n\n     \"\\n\"\n  ) c)" := by decide
  refine ⟨hNames, ?_⟩
  rw [← hText]
  refine (generate_subquery .exists hNames .builtin [("p", .int 1)] {}).trans ?_
  rw [hQuery]
  rfl

end DocumentQuery
