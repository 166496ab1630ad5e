import DocumentQuery.Proofs.Query.Operators
import DocumentQuery.Proofs.Text.Bracketed
import DocumentQuery.Proofs.Text.Margins

/-!
# Access paths as text

A property is written behind its object in quotes and brackets, its name as it is: a quote or a
bracket in the name is not escaped, unlike in the literal of a string. So `["a"]["b"]` may be two
properties, or one with the name `a"]["b`. Among the paths with one text there is exactly one
whose names hold no seam of two brackets, and it is all that the text determines.

Main definitions:

* `PathStep`, `Expression.alongPath` — a property behind another one.
* `SeamlessPath` — the names of a path hold no seams.

Main results:

* `generate_alongPath` — the text of a path.
* `generate_alongPath_determines_iff` — which names can be told from those of seamless paths.
* `not_generate_alongPath_determines` — two paths with one text.
-/

namespace DocumentQuery

open Layout Text

/-- A property of what stands in front of it. -/
inductive PathStep where
  /-- A property without properties of its own. -/
  | key (property : String) (type : DataType) (mapping : Option TypeMapping)
  /-- A property that is an object. -/
  | object (property : String)

namespace PathStep

def property : PathStep → String
  | .key property _ _ => property
  | .object property => property

/-- The property of an object. -/
def accessOf (object : Expression) : PathStep → Expression
  | .key property type mapping => .keyAccess object property type mapping
  | .object property => .objectAccess object property

end PathStep

/-- Properties one behind the other, beginning at a reference. -/
def Expression.alongPath (root : String) (path : List PathStep) : Expression :=
  path.foldl PathStep.accessOf (.objectReference root)

/-- The names along a path. -/
def namesAlong (path : List PathStep) : List String := path.map PathStep.property

/-- The names hold no seams of two brackets, apart from their own. -/
def SeamlessPath (path : List PathStep) : Prop := Seamless ((namesAlong path).map String.toList)

theorem seamlessPath_of_no_quote {path : List PathStep}
    (h : ∀ name ∈ namesAlong path, '"' ∉ name.toList) : SeamlessPath path :=
  seamless_of_no_quote (List.forall_mem_map.mpr h)

/-! ## The text of a path -/

/-- A name in quotes and brackets. -/
def bracketedName (name : String) : String := "[\"" ++ name ++ "\"]"

theorem run_lower_foldl_accessOf (ctx : Context) (b : Bindings) (path : List PathStep)
    {e : Expression} {l : Layout} (h : (e.lower ctx).run b = .ok (l, b)) :
    ((path.foldl PathStep.accessOf e).lower ctx).run b =
      .ok (l ++ ((namesAlong path).map bracketedName).map .text, b) := by
  induction path generalizing e l with
  | nil =>
    rw [List.foldl_nil, h]
    simp [namesAlong]
  | cons step path ih =>
    -- both kinds of properties are written alike
    have hStep : ((step.accessOf e).lower ctx).run b =
        .ok (l ++ [.text (bracketedName step.property)], b) := by
      cases step <;>
      · rw [PathStep.accessOf, Expression.lower, StateT.run_bind, h]
        rfl
    rw [List.foldl_cons, ih hStep]
    simp [namesAlong]

/-- Texts on the outermost level are written as they are. -/
theorem Layout.written_texts (texts : List String) {t : IndentedText} (hLevel : t.level = 0) :
    written (texts.map .text) t = texts.flatMap String.toList := by
  induction texts generalizing t with
  | nil => rfl
  | cons s texts ih =>
    rw [List.map_cons, written_cons_outermost hLevel, List.flatMap_cons,
      ih ((Piece.level_text t s).trans hLevel)]

theorem flatMap_bracketedName (names : List String) :
    (names.map bracketedName).flatMap String.toList = bracketed (names.map String.toList) := by
  rw [bracketed, List.flatMap_map, List.flatMap_map]
  refine List.flatMap_congr fun name _ => ?_
  simp [bracketedName]

/-- A path is always written, and binds nothing. -/
theorem generate_alongPath (root : String) (path : List PathStep) (registry : Registry)
    (values : ParameterValues) (options : GeneratorOptions) :
    ∃ text, (Select.empty.projectValue (.alongPath root path)).generate registry values options =
        .ok ⟨text, []⟩ ∧
      text.toList = "SELECT VALUE ".toList ++ root.toList ++
        bracketed ((namesAlong path).map String.toList) := by
  have hRoot : ((Expression.objectReference root).lower ⟨registry, values⟩).run {} =
      .ok ([.text root], {}) := rfl
  have hPath := run_lower_foldl_accessOf ⟨registry, values⟩ {} path hRoot
  refine ⟨render options.indentSize ((["SELECT ", "VALUE ", root] ++
    (namesAlong path).map bracketedName).map .text), ?_, ?_⟩
  · rw [Select.generate_eq, Select.lower_projectValue, StateT.run_bind, Expression.alongPath, hPath,
      List.map_append]
    rfl
  · rw [toList_render, written_texts _ rfl, List.flatMap_append, flatMap_bracketedName]
    simp

/-! ## Paths with one text -/

/-- Two paths from one reference have one text if their names are the same once they are
joined. -/
theorem generate_alongPath_text_eq_iff {root : String} {path other : List PathStep}
    {registry : Registry} {values : ParameterValues} {options : GeneratorOptions} {q q' : Query}
    (h : (Select.empty.projectValue (.alongPath root path)).generate registry values options =
      .ok q)
    (h' : (Select.empty.projectValue (.alongPath root other)).generate registry values options =
      .ok q') :
    q'.text = q.text ↔ (other = [] ↔ path = []) ∧
      seam.intercalate ((namesAlong other).map String.toList) =
        seam.intercalate ((namesAlong path).map String.toList) := by
  obtain ⟨text, hText, hPath⟩ := generate_alongPath root path registry values options
  obtain ⟨text', hText', hOther⟩ := generate_alongPath root other registry values options
  obtain rfl := Except.ok.inj (h.symm.trans hText)
  obtain rfl := Except.ok.inj (h'.symm.trans hText')
  rw [← String.toList_inj, hPath, hOther, List.append_cancel_left_eq, bracketed_eq_iff]
  simp [namesAlong]

/-- The names of every path are joined like those of a seamless one. -/
theorem exists_seamlessPath (path : List PathStep) :
    ∃ other, SeamlessPath other ∧ other ≠ [] ∧
      seam.intercalate ((namesAlong other).map String.toList) =
        seam.intercalate ((namesAlong path).map String.toList) := by
  -- its names are those between all seams
  let parts := parted (seam.intercalate ((namesAlong path).map String.toList))
  let other : List PathStep := parts.map fun part => .object (String.ofList part)
  have hNames : (namesAlong other).map String.toList = parts := by
    simp [other, namesAlong, PathStep.property, Function.comp_def]
  refine ⟨other, ?_, ?_, ?_⟩
  · rw [SeamlessPath, hNames]
    exact seamless_parted _
  · exact fun hNil => parted_ne_nil _ (List.map_eq_nil_iff.mp hNil)
  · rw [hNames]
    exact intercalate_parted _

/-- **What the text of a path determines.** A path is always written. Its text is that of another
path exactly if both are empty, or neither is and their names are the same once they are joined
by seams. Hence it tells the names from those of every seamless path exactly if the path is seamless
itself. -/
theorem generate_alongPath_determines_iff (root : String) (path : List PathStep)
    (registry : Registry) (values : ParameterValues) (options : GeneratorOptions) :
    ∃ q, (Select.empty.projectValue (.alongPath root path)).generate registry values options =
        .ok q ∧
      (∀ other q',
        (Select.empty.projectValue (.alongPath root other)).generate registry values options =
          .ok q' →
        (q'.text = q.text ↔ (other = [] ↔ path = []) ∧
          seam.intercalate ((namesAlong other).map String.toList) =
            seam.intercalate ((namesAlong path).map String.toList))) ∧
      ((∀ other q', SeamlessPath other →
        (Select.empty.projectValue (.alongPath root other)).generate registry values options =
          .ok q' → q'.text = q.text → namesAlong other = namesAlong path) ↔ SeamlessPath path) := by
  obtain ⟨text, hText, -⟩ := generate_alongPath root path registry values options
  refine ⟨⟨text, []⟩, hText, fun other q' hText' => generate_alongPath_text_eq_iff hText hText',
    ?_, ?_⟩
  · intro hDetermined
    by_cases hNil : path = []
    · subst hNil
      exact trivial
    obtain ⟨other, hSeamless, hNe, hJoined⟩ := exists_seamlessPath path
    obtain ⟨text', hText', -⟩ := generate_alongPath root other registry values options
    have hSame : text' = text :=
      (generate_alongPath_text_eq_iff hText hText').mpr ⟨iff_of_false hNe hNil, hJoined⟩
    have hEq := hDetermined other _ hSeamless hText' hSame
    rwa [SeamlessPath, hEq] at hSeamless
  · intro hSeamless other q' hOther hText' hSame
    obtain ⟨hNil, hJoined⟩ := (generate_alongPath_text_eq_iff hText hText').mp hSame
    have hNames := Seamless.eq_of_intercalate hOther hSeamless
      (by simpa [namesAlong] using hNil) hJoined
    exact List.map_injective_iff.mpr (fun _ _ => String.toList_inj.mp) hNames

/-- Brackets in the names, but no quotes. -/
def bracketsInNames : List PathStep := [.object "a][", .key "]b\\" .string none]

/-- Without quotes in its names a path is seamless. -/
theorem bracketsInNames_determined :
    SeamlessPath bracketsInNames ∧
      (Select.empty.projectValue (.alongPath "c" bracketsInNames)).generate .builtin [] =
        .ok ⟨"SELECT VALUE c[\"a][\"][\"]b\\\"]", []⟩ ∧
      ∀ other q', SeamlessPath other →
        (Select.empty.projectValue (.alongPath "c" other)).generate .builtin [] = .ok q' →
        q'.text = "SELECT VALUE c[\"a][\"][\"]b\\\"]" → namesAlong other = ["a][", "]b\\"] := by
  have hSeamless : SeamlessPath bracketsInNames := seamlessPath_of_no_quote (by decide)
  have hText : (Select.empty.projectValue (.alongPath "c" bracketsInNames)).generate .builtin [] =
      .ok ⟨"SELECT VALUE c[\"a][\"][\"]b\\\"]", []⟩ := rfl
  obtain ⟨q, hQuery, -, hDetermined⟩ :=
    generate_alongPath_determines_iff "c" bracketsInNames .builtin [] {}
  obtain rfl := Except.ok.inj (hQuery.symm.trans hText)
  exact ⟨hSeamless, hText, hDetermined.mpr hSeamless⟩

/-- Two properties one behind the other have the text of one property whose name closes its
brackets and opens others. -/
theorem not_generate_alongPath_determines :
    ¬ ∀ (root : String) (path other : List PathStep) (q q' : Query), IsIdentifier root →
        (Select.empty.projectValue (.alongPath root path)).generate .builtin [] = .ok q →
        (Select.empty.projectValue (.alongPath root other)).generate .builtin [] = .ok q' →
        q.text = q'.text → namesAlong path = namesAlong other := by
  intro hDetermined
  have hPath : (Select.empty.projectValue (.alongPath "c" [.object "a", .object "b"])).generate
      .builtin [] = .ok ⟨"SELECT VALUE c[\"a\"][\"b\"]", []⟩ := rfl
  have hOther : (Select.empty.projectValue (.alongPath "c" [.object "a\"][\"b"])).generate
      .builtin [] = .ok ⟨"SELECT VALUE c[\"a\"][\"b\"]", []⟩ := rfl
  have hNames := hDetermined "c" _ _ _ _ (by decide) hPath hOther rfl
  exact absurd (congrArg List.length hNames) (by decide)

end DocumentQuery
