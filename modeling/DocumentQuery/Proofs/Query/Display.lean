import DocumentQuery.Proofs.Query.Indentation

/-!
# What a displayed query tells

A query is displayed as one text: a line for each parameter, an empty line if there are
parameters, and the query text. Nothing is escaped between these parts. They can still be
told apart: a payload is written on one line, names begin with `@` and query texts do not, and
no line of a parameter is empty. So nothing of a query is lost, as long as its names hold no
line ends and no `=`, which stands behind a name.

Main definitions:

* `Parameter.line` — the line that shows a parameter.

Main results:

* `Parameter.line_inj` — what is told by one line.
* `shown_eq_of_lines` — what is told by all of them.
* `display_injective` — what is told by the whole text.
-/

namespace DocumentQuery

/-! ## Cutting at a character -/

/-- Behind the first occurrence of a character begins the same rest. -/
theorem Text.cut_inj {c : Char} {front front' rest rest' : List Char} (hFront : c ∉ front)
    (hFront' : c ∉ front') (h : front ++ c :: rest = front' ++ c :: rest') :
    front = front' ∧ rest = rest' := by
  have hCut := congrArg (cut c) h
  rw [cut_append hFront, cut_append hFront'] at hCut
  exact Prod.mk.inj hCut

/-! ## Lines of parameters -/

namespace Parameter

/-- What a displayed query shows of a parameter. -/
def shown (p : Parameter) : String × String := (p.name, p.value.compact)

/-- The line that shows a parameter, without its end. -/
def line (p : Parameter) : List Char := p.name.toList ++ '=' :: '\'' :: (p.value.write ++ ['\''])

theorem toList_display (p : Parameter) : p.display.toList = p.line ++ ['\n'] := by
  simp [display, line, Json.compact]

/-- A payload is written without line ends. -/
theorem newline_not_mem_line {p : Parameter} (h : '\n' ∉ p.name.toList) : '\n' ∉ p.line := by
  have hPayload : '\n' ∉ p.value.write := p.value.graphic_write.newline_not_mem
  simp [line, h, hPayload]

/-- The first `=` of a line ends the name. -/
theorem line_inj {p p' : Parameter} (h : '=' ∉ p.name.toList) (h' : '=' ∉ p'.name.toList)
    (hLine : p.line = p'.line) : p.shown = p'.shown := by
  obtain ⟨hName, hRest⟩ := Text.cut_inj h h' hLine
  have hPayload : p.value.write = p'.value.write :=
    List.append_cancel_right (List.cons.inj hRest).2
  rw [shown, shown, String.toList_inj.mp hName, Json.compact, Json.compact, hPayload]

theorem line_append_ne (p : Parameter) (h : '\n' ∉ p.name.toList) (more rest : List Char) :
    p.line ++ more ≠ '\n' :: rest := by
  unfold line
  cases hName : p.name.toList with
  | nil => simp
  | cons c name =>
    rw [hName, List.mem_cons, not_or] at h
    intro hEq
    exact h.1 (List.cons.inj hEq).1.symm

end Parameter

open Parameter

/-- The name of a parameter can be told from the payload behind it, and its line from the next
one. -/
def Parameter.Separable (p : Parameter) : Prop := '=' ∉ p.name.toList ∧ '\n' ∉ p.name.toList

/-- Lines of parameters up to an empty line tell what they show, and what follows. -/
theorem shown_eq_of_lines {ps ps' : List Parameter} (h : ∀ p ∈ ps, p.Separable)
    (h' : ∀ p ∈ ps', p.Separable) {rest rest' : List Char}
    (hLines : ps.flatMap (fun p => p.line ++ ['\n']) ++ '\n' :: rest =
      ps'.flatMap (fun p => p.line ++ ['\n']) ++ '\n' :: rest') :
    ps.map shown = ps'.map shown ∧ rest = rest' := by
  induction ps generalizing ps' with
  | nil =>
    cases ps' with
    | nil => exact ⟨rfl, (List.cons.inj hLines).2⟩
    | cons p' ps' =>
      rw [List.flatMap_cons, List.append_assoc, List.append_assoc] at hLines
      exact absurd hLines.symm (p'.line_append_ne (h' p' List.mem_cons_self).2 _ _)
  | cons p ps ih =>
    obtain ⟨⟨hName, hEnd⟩, hRest⟩ := List.forall_mem_cons.mp h
    cases ps' with
    | nil =>
      rw [List.flatMap_cons, List.append_assoc, List.append_assoc] at hLines
      exact absurd hLines (p.line_append_ne hEnd _ _)
    | cons p' ps' =>
      obtain ⟨⟨hName', hEnd'⟩, hRest'⟩ := List.forall_mem_cons.mp h'
      simp only [List.flatMap_cons, List.append_assoc, List.singleton_append] at hLines
      obtain ⟨hFirst, hLines⟩ :=
        Text.cut_inj (newline_not_mem_line hEnd) (newline_not_mem_line hEnd') hLines
      obtain ⟨hShown, hText⟩ := ih hRest hRest' hLines
      refine ⟨?_, hText⟩
      rw [List.map_cons, List.map_cons, line_inj hName hName' hFirst, hShown]

/-! ## Names and texts of queries -/

namespace Bindings

variable {b : Bindings}

/-- What is bound goes by references. -/
def ByReference (b : Bindings) : Prop := ∀ p ∈ b.parameters, ∃ name, p.name = referenceTo name

theorem byReference_empty : ByReference {} := fun _ hp => absurd hp List.not_mem_nil

theorem ByReference.bind (h : b.ByReference) (name : String) (value : Json) :
    (b.bind (referenceTo name) value).ByReference := by
  intro p hp
  rcases List.mem_append.mp hp with hOld | hNew
  · exact h p hOld
  · exact ⟨name, congrArg Parameter.name (List.mem_singleton.mp hNew)⟩

theorem ByReference.bindArguments (h : b.ByReference) (values : ParameterValues)
    (items : List Value) : (b.bindArguments values items).2.ByReference := by
  induction items generalizing b with
  | nil => exact h
  | cons value rest ih =>
    have hFirst : (b.bindArgument values value).2.ByReference := h.bind _ _
    exact ih hFirst

end Bindings

theorem Step.Succeeds.byReference {ctx : Context} {b b' : Bindings} {step : Step}
    (hStep : step.Succeeds ctx b b') (h : b.ByReference) : b'.ByReference := by
  cases hStep with
  | bound => exact h
  | named => exact h.bind _ _
  | arguments => exact h.bindArguments _ _
  | constants => exact h

/-- The parameters of a query go by references. -/
theorem generate_byReference {s : Select} {registry : Registry} {values : ParameterValues}
    {options : GeneratorOptions} {q : Query}
    (hQuery : s.generate registry values options = .ok q) :
    ∀ p ∈ q.parameters, ∃ name, p.name = referenceTo name := by
  obtain ⟨b, hRun, hParameters⟩ := Select.generate_ok hQuery
  rw [hParameters]
  exact runSteps_induction (P := fun _ b => b.ByReference) Bindings.byReference_empty
    (fun _ _ _ _ hSoFar hStep => hStep.byReference hSoFar) hRun

/-- The text of a query begins with its first word. -/
theorem generate_text_head {s : Select} {registry : Registry} {values : ParameterValues}
    {options : GeneratorOptions} {q : Query}
    (hQuery : s.generate registry values options = .ok q) :
    ∃ rest, q.text.toList = "SELECT ".toList ++ rest := by
  rw [Select.generate_eq, map_eq_ok] at hQuery
  obtain ⟨⟨layout, b⟩, hLower, rfl⟩ := hQuery
  obtain ⟨more, hHead⟩ := s.lower_head ⟨registry, values⟩ {} _ hLower
  obtain rfl : layout = .text "SELECT " :: more := hHead
  exact ⟨_, (Layout.toList_render _ _).trans (Layout.written_cons_outermost rfl _ _)⟩

/-! ## Displayed queries -/

theorem Query.toList_display (q : Query) :
    q.display.toList = q.parameters.flatMap (fun p => p.line ++ ['\n']) ++
      (if q.parameters.isEmpty then q.text.toList else '\n' :: q.text.toList) := by
  have hLines : (String.join (q.parameters.map Parameter.display)).toList =
      q.parameters.flatMap fun p => p.line ++ ['\n'] := by
    simp [String.toList_join, List.flatMap_map, Parameter.toList_display]
  rw [display, String.toList_append, String.toList_append, hLines, List.append_assoc]
  split <;> rfl

/-- A query with parameters is displayed in another way than one without. -/
theorem display_ne_of_parameters {s : Select} {registry : Registry} {values : ParameterValues}
    {options : GeneratorOptions} {q q' : Query}
    (hQuery : s.generate registry values options = .ok q)
    (hReference : ∀ p ∈ q'.parameters, ∃ name, p.name = referenceTo name)
    (hNone : q.parameters = []) (hSome : q'.parameters ≠ []) : q.display ≠ q'.display := by
  intro hDisplay
  obtain ⟨rest, hText⟩ := generate_text_head hQuery
  have hChars := congrArg String.toList hDisplay
  rw [q.toList_display, q'.toList_display, hNone, hText] at hChars
  cases hParameters : q'.parameters with
  | nil => exact hSome hParameters
  | cons p ps =>
    obtain ⟨name, hName⟩ := hReference p (by rw [hParameters]; exact List.mem_cons_self)
    rw [hParameters, List.flatMap_cons, line, hName, referenceTo, String.toList_append] at hChars
    -- the one begins with a letter, the other one with `@`
    exact absurd (List.cons.inj hChars).1 (by decide)

/-- **Nothing is lost in a displayed query.** Two queries whose names hold no `=` and no line
end are displayed in the same way only if they have the same names in the same order, with
payloads that are written in the same way, and the same text. -/
theorem display_injective {s s' : Select} {registry registry' : Registry}
    {values values' : ParameterValues} {options options' : GeneratorOptions} {q q' : Query}
    (hQuery : s.generate registry values options = .ok q)
    (hQuery' : s'.generate registry' values' options' = .ok q')
    (hNames : ∀ p ∈ q.parameters, '=' ∉ p.name.toList ∧ '\n' ∉ p.name.toList)
    (hNames' : ∀ p ∈ q'.parameters, '=' ∉ p.name.toList ∧ '\n' ∉ p.name.toList)
    (hDisplay : q.display = q'.display) :
    q.parameters.map Parameter.name = q'.parameters.map Parameter.name ∧
      q.parameters.map (fun p => p.value.compact) = q'.parameters.map (fun p => p.value.compact) ∧
      q.text = q'.text := by
  have hChars := congrArg String.toList hDisplay
  rw [q.toList_display, q'.toList_display] at hChars
  have hAll :
      q.parameters.map shown = q'.parameters.map shown ∧ q.text.toList = q'.text.toList := by
    by_cases hNone : q.parameters = []
    · by_cases hNone' : q'.parameters = []
      · rw [hNone, hNone'] at hChars ⊢
        exact ⟨rfl, hChars⟩
      · exact absurd hDisplay
          (display_ne_of_parameters hQuery (generate_byReference hQuery') hNone hNone')
    · by_cases hNone' : q'.parameters = []
      · exact absurd hDisplay.symm
          (display_ne_of_parameters hQuery' (generate_byReference hQuery) hNone' hNone)
      · rw [if_neg (by simpa using hNone), if_neg (by simpa using hNone')] at hChars
        exact shown_eq_of_lines hNames hNames' hChars
  refine ⟨?_, ?_, String.toList_inj.mp hAll.2⟩
  · have hFirst := congrArg (List.map Prod.fst) hAll.1
    rwa [List.map_map, List.map_map] at hFirst
  · have hSecond := congrArg (List.map Prod.snd) hAll.1
    rwa [List.map_map, List.map_map] at hSecond

/-- A string, and a measure of distance under the mapping of its type. -/
def Select.ofMeasure (mapping : TypeMapping) : Select :=
  { Select.empty with
    projection := [⟨.parameter "a" .string (some (.json .string)), "", ""⟩,
      ⟨.parameter "b" mapping.type (some mapping), "", ""⟩] }

/-- The string looks like the end of its line and the one behind it. The measure is sent like a
string of its name, whatever is registered for strings. -/
theorem ofMeasure_display :
    ∃ q q', (Select.ofMeasure ⟨.distanceFunction, .enumMember⟩).generate .builtin
        [("a", .string "'\n@b='1'\n\n"), ("b", .enum (.distanceFunction .cosine))] = .ok q ∧
      (Select.ofMeasure (.json .string)).generate
        (.register .builtin ⟨.string, .enumMember⟩)
        [("b", .string "cosine"), ("a", .string "'\n@b='1'\n\n")] ⟨4⟩ = .ok q' ∧
      q.display = "@a='\"'\\n@b='1'\\n\\n\"'\n@b='\"cosine\"'\n\nSELECT @a, @b" ∧
      q.display = q'.display ∧ q.text = q'.text := by
  have hQuery : (Select.ofMeasure ⟨.distanceFunction, .enumMember⟩).generate .builtin
      [("a", .string "'\n@b='1'\n\n"), ("b", .enum (.distanceFunction .cosine))] =
      .ok ⟨"SELECT @a, @b", [⟨"@a", .str "'\n@b='1'\n\n"⟩, ⟨"@b", .str "cosine"⟩]⟩ := rfl
  have hQuery' : (Select.ofMeasure (.json .string)).generate
      (.register .builtin ⟨.string, .enumMember⟩)
      [("b", .string "cosine"), ("a", .string "'\n@b='1'\n\n")] ⟨4⟩ =
      .ok ⟨"SELECT @a, @b", [⟨"@a", .str "'\n@b='1'\n\n"⟩, ⟨"@b", .str "cosine"⟩]⟩ := rfl
  have hNames : ∀ p ∈ [Parameter.mk "@a" (.str "'\n@b='1'\n\n"), ⟨"@b", .str "cosine"⟩],
      '=' ∉ p.name.toList ∧ '\n' ∉ p.name.toList := by
    simp only [List.forall_mem_cons, List.not_mem_nil, false_implies, implies_true, and_true]
    decide
  exact ⟨_, _, hQuery, hQuery', by decide +kernel, rfl,
    (display_injective hQuery hQuery' hNames hNames rfl).2.2⟩

end DocumentQuery
