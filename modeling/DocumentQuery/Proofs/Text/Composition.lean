import DocumentQuery.Proofs.Text.Margins

/-!
# What layouts are put together from

A layout that stands for a tree is no arbitrary list of pieces: every level that is opened
is closed again, and every opening text has its closing text. The grammar here says so for
any choice of the texts, so that a property of layouts need only be shown for its rules.

Main definitions:

* `Layout.Composed` — layouts that are put together from texts of one kind and enclosed in
  texts of another.
* `Layout.Leveled` — the same for any texts.

Main results:

* `Layout.Composed.separated`, `Layout.Composed.block` — lists and blocks.
* `Layout.composed_ofLines` — the lines of a text.
* `Layout.Leveled.level_writeOn`, `Layout.Leveled.level_closed` — levels are closed by the
  layout that has opened them, one after the other.
* `Layout.Composed.steady` — without line feeds in its texts, a layout is steady.
-/

namespace DocumentQuery

/-! ## Lines -/

namespace Text

theorem newline_not_mem_extendFirst {c : Char} (hc : c ≠ '\n') {lines : List (List Char)}
    (h : ∀ line ∈ lines, '\n' ∉ line) : ∀ line ∈ extendFirst c lines, '\n' ∉ line := by
  cases lines with
  | nil =>
    intro line hLine
    obtain rfl := List.mem_singleton.mp hLine
    simpa using Ne.symm hc
  | cons first rest =>
    rw [List.forall_mem_cons] at h
    rw [extendFirst, List.forall_mem_cons, List.mem_cons, not_or]
    exact ⟨⟨Ne.symm hc, h.1⟩, h.2⟩

/-- A line holds no line feeds. -/
theorem newline_not_mem_lines (cs : List Char) : ∀ line ∈ lines cs, '\n' ∉ line := by
  fun_induction lines cs with
  | case1 => exact List.forall_mem_nil _
  | case2 cs ih => exact List.forall_mem_cons.mpr ⟨List.not_mem_nil, ih⟩
  | case3 cs ih => exact List.forall_mem_cons.mpr ⟨List.not_mem_nil, ih⟩
  | case4 c cs hFeed hReturn ih => exact newline_not_mem_extendFirst hFeed ih

theorem oneLine_of_mem_linesOf {s line : String} (h : line ∈ linesOf s) : OneLine line := by
  obtain ⟨cs, hcs, rfl⟩ := List.mem_map.mp h
  rw [OneLine, String.toList_ofList]
  exact newline_not_mem_lines _ cs hcs

end Text

open Text

namespace Layout

/-- Layouts that are put together from plain texts, line ends and levels, and in which what
stands between an opening and a closing text is put together in the same way. -/
inductive Composed (Plain : String → Prop) (Pair : String → String → Prop) : Layout → Prop where
  | nil : Composed Plain Pair []
  | text {s : String} : Plain s → Composed Plain Pair [.text s]
  | newline : Composed Plain Pair [.newline]
  | nested {body : Layout} : Composed Plain Pair body → Composed Plain Pair (Layout.nested body)
  | enclosed {opening closing : String} {body : Layout} : Pair opening closing →
      Composed Plain Pair body → Composed Plain Pair (.text opening :: body ++ [.text closing])
  | append {l l' : Layout} : Composed Plain Pair l → Composed Plain Pair l' →
      Composed Plain Pair (l ++ l')

namespace Composed

variable {Plain : String → Prop} {Pair : String → String → Prop} {l l' : Layout} {s : String}

theorem text_cons (hs : Plain s) (h : Composed Plain Pair l) : Composed Plain Pair (.text s :: l) :=
  (Composed.text hs).append h

theorem newline_cons (h : Composed Plain Pair l) : Composed Plain Pair (.newline :: l) :=
  Composed.newline.append h

theorem separated {separator : Layout} (hSeparator : Composed Plain Pair separator) :
    ∀ {items : List Layout}, (∀ item ∈ items, Composed Plain Pair item) →
      Composed Plain Pair (Layout.separated separator items)
  | [], _ => .nil
  | [item], h => h item (List.mem_singleton_self _)
  | item :: next :: rest, h => by
    obtain ⟨hItem, hRest⟩ := List.forall_mem_cons.mp h
    exact (hItem.append hSeparator).append (separated hSeparator hRest)

/-- Lines of their own between an opening and a closing text. -/
theorem block {opening closing : String} (hPair : Pair opening closing)
    (h : Composed Plain Pair l) : Composed Plain Pair (Layout.block opening l closing) :=
  .enclosed hPair h.nested.newline_cons

end Composed

/-- The lines of a text, each of which is plain. -/
theorem composed_ofLines {Plain : String → Prop} {Pair : String → String → Prop} {s : String}
    (h : ∀ line ∈ linesOf s, Plain line) : Composed Plain Pair (ofLines s) := by
  -- a text without lines is one empty line; otherwise each line is written by itself
  have hLines : ∀ lines : List String, (∀ line ∈ lines, Plain line) →
      Composed Plain Pair (lines.flatMap fun line => [.text line, .newline]) := by
    intro lines hPlain
    induction lines with
    | nil => exact .nil
    | cons line lines ih =>
      obtain ⟨hLine, hRest⟩ := List.forall_mem_cons.mp hPlain
      exact ((Composed.text hLine).append .newline).append (ih hRest)
  unfold ofLines
  split
  · exact .newline
  · exact hLines _ h

/-! ## Levels -/

/-- Every level that is opened is closed again; the texts are any. -/
abbrev Leveled : Layout → Prop := Composed (fun _ => True) fun _ _ => True

variable {l l' : Layout}

/-- A layout ends on the level that it begins with. -/
theorem Leveled.level_writeOn (h : Leveled l) (t : IndentedText) :
    (writeOn l t).level = t.level := by
  induction h generalizing t with
  | nil | newline => rfl
  | text => exact Piece.level_text t _
  | nested _ ih =>
    rw [writeOn_nested]
    show (writeOn _ t.indent).level - 1 = t.level
    rw [ih]
    rfl
  | enclosed _ _ ih =>
    rw [writeOn_append]
    refine (Piece.level_text _ _).trans ((ih _).trans (Piece.level_text t _))
  | append _ _ ih ih' => rw [writeOn_append, ih', ih]

/-- Each level that a layout closes it has opened before, and has closed what was opened in
between. -/
def ClosesOwn (l : Layout) : Prop :=
  ∀ done rest, l = done ++ .dedent :: rest →
    ∃ before body, done = before ++ .indent :: body ∧ Leveled body

theorem closesOwn_of_not_mem (h : .dedent ∉ l) : ClosesOwn l := by
  rintro done rest rfl
  exact absurd (List.mem_append_right done List.mem_cons_self) h

theorem closesOwn_text (s : String) : ClosesOwn [.text s] := closesOwn_of_not_mem (by simp)

theorem ClosesOwn.append (h : ClosesOwn l) (h' : ClosesOwn l') : ClosesOwn (l ++ l') := by
  intro done rest hEq
  rcases List.append_eq_append_iff.mp hEq with ⟨more, rfl, hRest⟩ | ⟨more, hFirst, hRest⟩
  · -- the level is closed in the second layout
    obtain ⟨before, body, rfl, hBody⟩ := h' more rest hRest
    exact ⟨l ++ before, body, (List.append_assoc ..).symm, hBody⟩
  · cases more with
    | nil =>
      -- the second layout cannot begin with the end of a level
      obtain ⟨before, body, hNone, -⟩ := h' [] rest hRest.symm
      exact absurd hNone.symm (List.append_ne_nil_of_right_ne_nil _ (List.cons_ne_nil _ _))
    | cons p more =>
      obtain ⟨rfl, -⟩ := List.cons.inj hRest
      exact h done more hFirst

theorem ClosesOwn.nested (h : ClosesOwn l) (hl : Leveled l) : ClosesOwn (Layout.nested l) := by
  intro done rest hEq
  cases done with
  | nil => cases hEq
  | cons p done =>
    -- the first piece opens the outermost level
    obtain ⟨rfl, hInner⟩ := List.cons.inj hEq
    replace hInner : l ++ [.dedent] = done ++ .dedent :: rest := hInner
    rcases List.eq_nil_or_concat' rest with rfl | ⟨rest, last, rfl⟩
    · obtain rfl := List.append_cancel_right hInner
      exact ⟨[], l, rfl, hl⟩
    · -- what is closed is not the last piece, so it is a level inside
      rw [← List.cons_append, ← List.append_assoc] at hInner
      obtain ⟨before, body, rfl, hBody⟩ := h done rest (List.append_inj_left' hInner rfl)
      exact ⟨.indent :: before, body, rfl, hBody⟩

theorem Leveled.closesOwn (h : Leveled l) : ClosesOwn l := by
  -- induction on how the layout is put together; only the rule for nested levels closes one
  induction h with
  | nil => exact closesOwn_of_not_mem (by simp)
  | text => exact closesOwn_text _
  | newline => exact closesOwn_of_not_mem (by simp)
  | nested hBody ih => exact ih.nested hBody
  | enclosed _ _ ih => exact ((closesOwn_text _).append ih).append (closesOwn_text _)
  | append _ _ ih ih' => exact ih.append ih'

/-- Where a layout closes a level, it stands one level deeper than where it has opened that
level. -/
theorem Leveled.level_closed (h : Leveled l) {done rest : Layout}
    (hl : l = done ++ .dedent :: rest) (t : IndentedText) :
    ∃ before body, done = before ++ .indent :: body ∧ Leveled body ∧
      (writeOn done t).level = (writeOn before t).level + 1 := by
  obtain ⟨before, body, rfl, hBody⟩ := h.closesOwn done rest hl
  refine ⟨before, body, rfl, hBody, ?_⟩
  rw [writeOn_append]
  exact hBody.level_writeOn (writeOn before t).indent

/-! ## Line ends -/

/-- The texts of a layout hold no line feeds. -/
abbrev Lineated : Layout → Prop :=
  Composed OneLine fun opening closing => OneLine opening ∧ OneLine closing

/-- A layout with line ends of its own only is steady. -/
theorem Composed.steady {l : Layout} (h : Lineated l) : Steady l := by
  -- induction on how the layout is put together; steadiness is kept by every rule
  induction h with
  | nil => exact steady_nil
  | text hs => exact steady_text hs
  | newline => exact steady_newline
  | nested _ ih => exact ih.nested
  | enclosed hPair _ ih => exact ((steady_text hPair.1).append ih).append (steady_text hPair.2)
  | append _ _ ih ih' => exact ih.append ih'

end Layout

end DocumentQuery
