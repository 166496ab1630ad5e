import DocumentQuery.Proofs.Text.Fork

/-!
# Placeholders in a text

A placeholder is an `@` with the longest run of letters, digits and underscores
behind it. `Text.placeholders` finds the placeholders of a text again; it knows
nothing of how the text was made.

What is found in the text of a layout can be told from its pieces as long as
nothing that a placeholder could go on with follows one: pieces without `@` show
nothing, whatever stands around them, and a placeholder shows itself if what
follows stops it. Margins and line ends always do.

Main results:

* `Layout.Shows`, `Layout.Stops` — what a layout shows, and that it stops the
  placeholder before it.
* `Layout.Shows.append`, `Layout.ShowsAll.separated`, `Layout.Shows.block` — layouts
  that are put together show what their parts show, in this order.
* `Layout.Shows.render` — the placeholders of the text of a layout.
-/

namespace DocumentQuery

namespace Text

/-! ## Finding placeholders -/

/-- What a placeholder goes on with. -/
def isWord (c : Char) : Bool := c.isAlphanum || c == '_'

/-- The placeholders of a text from left to right. -/
def placeholders : List Char → List String
  | [] => []
  | '@' :: cs => String.ofList ('@' :: cs.takeWhile isWord) :: placeholders cs
  | _ :: cs => placeholders cs

/-- A name that a placeholder can have. -/
def IsName (name : String) : Prop := name ≠ "" ∧ ∀ c ∈ name.toList, isWord c = true

instance (name : String) : Decidable (IsName name) :=
  decidable_of_iff (name ≠ "" ∧ name.toList.all isWord = true) <|
    and_congr_right fun _ => List.all_eq_true

/-- The text does not go on with what a placeholder could go on with. -/
def Stops (rest : List Char) : Prop := ∀ c ∈ rest.head?, isWord c = false

theorem stops_nil : Stops [] := nofun

theorem stops_cons {c : Char} (h : isWord c = false) (rest : List Char) : Stops (c :: rest) := by
  rintro d ⟨⟩
  exact h

/-- There is no `@` in the text. -/
abbrev Quiet (s : String) : Prop := '@' ∉ s.toList

/-- A text without `@` shows nothing, whatever follows. -/
theorem placeholders_append {quiet : List Char} (h : '@' ∉ quiet) (rest : List Char) :
    placeholders (quiet ++ rest) = placeholders rest := by
  induction quiet with
  | nil => rfl
  | cons c quiet ih =>
    rw [List.mem_cons, not_or] at h
    rw [List.cons_append, placeholders, ih h.2]
    intro hMark
    exact h.1 hMark.symm

theorem takeWhile_isWord {name rest : List Char} (hName : ∀ c ∈ name, isWord c = true)
    (hRest : Stops rest) : (name ++ rest).takeWhile isWord = name := by
  rw [List.takeWhile_append_of_pos hName]
  cases rest with
  | nil => simp
  | cons c rest =>
    have hStop : isWord c = false := hRest c rfl
    rw [List.takeWhile_cons_of_neg (by simp [hStop]), List.append_nil]

/-- A placeholder that is stopped shows itself. -/
theorem placeholders_mark {name rest : List Char} (hName : ∀ c ∈ name, isWord c = true)
    (hRest : Stops rest) :
    placeholders ('@' :: (name ++ rest)) = String.ofList ('@' :: name) :: placeholders rest := by
  -- the name holds no placeholder of its own
  have hQuiet : '@' ∉ name := by
    intro hMem
    exact absurd (hName '@' hMem) (by decide)
  rw [placeholders, takeWhile_isWord hName hRest, placeholders_append hQuiet]

/-- The lines of a text consist of its characters. -/
theorem mem_of_mem_lines {cs line : List Char} {c : Char} (hLine : line ∈ lines cs)
    (hc : c ∈ line) : c ∈ cs := by
  fun_induction lines cs generalizing line with
  | case1 => cases hLine
  | case2 cs ih =>
    rcases List.mem_cons.mp hLine with rfl | hRest
    · cases hc
    · exact List.mem_cons_of_mem _ (ih hRest hc)
  | case3 cs ih =>
    rcases List.mem_cons.mp hLine with rfl | hRest
    · cases hc
    · exact List.mem_cons_of_mem _ (List.mem_cons_of_mem _ (ih hRest hc))
  | case4 first cs _ _ ih =>
    -- the first character is put in front of the first line
    cases hLines : lines cs with
    | nil =>
      rw [hLines, extendFirst, List.mem_singleton] at hLine
      rw [hLine, List.mem_singleton] at hc
      exact hc ▸ List.mem_cons_self
    | cons line' rest =>
      rw [hLines] at hLine ih
      rcases List.mem_cons.mp hLine with rfl | hRest
      · rcases List.mem_cons.mp hc with rfl | hOld
        · exact List.mem_cons_self
        · exact List.mem_cons_of_mem _ (ih List.mem_cons_self hOld)
      · exact List.mem_cons_of_mem _ (ih (List.mem_cons_of_mem _ hRest) hc)

end Text

open Text

/-! ## Templates -/

namespace Template

/-- A character that is taken as it is stands for itself. -/
theorem eq_of_markAt_literal {c c' : Char} {cs : List Char} {extra : Nat}
    (h : markAt c cs = .literal c' extra) : c' = c := by
  unfold markAt at h
  split at h
  · exact (Mark.literal.inj h).1.symm
  · split at h
    · split at h
      · cases h
      · exact (Mark.literal.inj h).1.symm
    · exact (Mark.literal.inj h).1.symm

/-- What is filled in and what stood there before are all there is in a filled template. -/
theorem not_mem_fillFrom {substitutions : List String} {mark : Char}
    (hSubstitutions : ∀ s ∈ substitutions, mark ∉ s.toList) {skip : Nat} {cs r : List Char}
    (hText : mark ∉ cs) (h : fillFrom substitutions skip cs = .ok r) : mark ∉ r := by
  induction cs generalizing skip r with
  | nil =>
    cases skip <;> cases h <;> exact List.not_mem_nil
  | cons c cs ih =>
    rw [List.mem_cons, not_or] at hText
    cases skip with
    | succ skip => exact ih hText.2 h
    | zero =>
      unfold fillFrom at h
      split at h
      · -- a character of the template itself
        rename_i c' extra hMark
        obtain ⟨rest, hRest, rfl⟩ := map_eq_ok.mp h
        rw [List.mem_cons, not_or, eq_of_markAt_literal hMark]
        exact ⟨hText.1, ih hText.2 hRest⟩
      · -- a place that is filled in, unless there is nothing to fill in
        rename_i index extra hMark
        split at h
        · rename_i s hs
          obtain ⟨rest, hRest, rfl⟩ := map_eq_ok.mp h
          rw [List.mem_append, not_or]
          exact ⟨hSubstitutions s (List.mem_of_getElem? hs), ih hText.2 hRest⟩
        · cases h

/-- A template without `@`, filled with texts without `@`. -/
theorem quiet_fill {sql text : String} {substitutions : List String} (hSql : Quiet sql)
    (hSubstitutions : ∀ s ∈ substitutions, Quiet s) (h : fill sql substitutions = .ok text) :
    Quiet text := by
  obtain ⟨cs, hFill, rfl⟩ := map_eq_ok.mp h
  unfold Quiet
  rw [String.toList_ofList]
  exact not_mem_fillFrom hSubstitutions hSql hFill

end Template

/-! ## What is written for a layout -/

theorem not_mem_spaces {c : Char} (h : c ≠ ' ') (count : Nat) :
    c ∉ (IndentedText.spaces count).toList := by
  intro hMem
  rw [IndentedText.spaces, String.toList_ofList] at hMem
  exact h (List.eq_of_mem_replicate hMem)

namespace IndentedText

theorem not_mem_margin {c : Char} (h : c ≠ ' ') (t : IndentedText) : c ∉ t.margin.toList := by
  unfold margin
  split
  · exact not_mem_spaces h _
  · simp

theorem mark_not_mem_margin (t : IndentedText) : '@' ∉ t.margin.toList :=
  t.not_mem_margin (by decide)

theorem stops_margin (t : IndentedText) {rest : List Char} (h : Stops rest) :
    Stops (t.margin.toList ++ rest) := by
  unfold margin
  split
  · -- at the beginning of a line stands the margin, which may be empty
    rw [spaces, String.toList_ofList]
    cases t.level * t.width with
    | zero => exact h
    | succ count => exact stops_cons rfl _
  · exact h

end IndentedText

namespace Piece

/-- What a piece adds to a text under construction. -/
def written (t : IndentedText) : Piece → List Char
  | .text s => if s.isEmpty then [] else t.margin.toList ++ s.toList
  | .newline => ['\n']
  | .indent | .dedent => []

theorem text_write (t : IndentedText) (p : Piece) :
    (p.write t).text.toList = t.text.toList ++ p.written t := by
  cases p with
  | text s =>
    by_cases hEmpty : s.isEmpty = true
    · simp [write, written, IndentedText.append, hEmpty]
    · simp [write, written, IndentedText.append, hEmpty, String.toList_append]
  | newline => simp [write, written, IndentedText.newline, String.toList_append]
  | indent => simp [write, written, IndentedText.indent]
  | dedent => simp [write, written, IndentedText.dedent]

end Piece

namespace Layout

/-- What a layout adds to a text under construction. -/
def written : Layout → IndentedText → List Char
  | [], _ => []
  | p :: l, t => p.written t ++ written l (p.write t)

theorem written_append (l l' : Layout) (t : IndentedText) :
    written (l ++ l') t = written l t ++ written l' (writeOn l t) := by
  induction l generalizing t with
  | nil => rfl
  | cons p l ih =>
    rw [List.cons_append, written, written, ih (p.write t), List.append_assoc]
    rfl

theorem text_writeOn (l : Layout) (t : IndentedText) :
    (writeOn l t).text.toList = t.text.toList ++ written l t := by
  induction l generalizing t with
  | nil => exact (List.append_nil _).symm
  | cons p l ih =>
    -- the rest is written on the text with the first piece
    have hRest := ih (p.write t)
    rw [Piece.text_write, List.append_assoc] at hRest
    exact hRest

theorem toList_render (width : Nat) (l : Layout) :
    (render width l).toList = written l (.ofWidth width) := by
  rw [render, text_writeOn]
  rfl

/-! ## What a layout shows -/

/-- Whatever the text so far, the layout adds these placeholders to it, provided that
what follows stops the last one. -/
def Shows (l : Layout) (shown : List String) : Prop :=
  ∀ t rest, Text.Stops rest → placeholders (written l t ++ rest) = shown ++ placeholders rest

/-- The layout stops a placeholder before it, or leaves that to what follows. -/
def Stops (l : Layout) : Prop := ∀ t rest, Text.Stops rest → Text.Stops (written l t ++ rest)

variable {l l' : Layout} {shown shown' : List String}

/-! ### Stopping -/

theorem stops_nil : Stops [] := fun _ _ h => h

theorem stops_newline (l : Layout) : Stops (.newline :: l) :=
  fun _ _ _ => stops_cons rfl _

theorem stops_dedent (h : Stops l) : Stops (.dedent :: l) := fun _ => h _

/-- A text that begins with any other character than those of a placeholder. -/
theorem stops_text {s : String} {c : Char} (hHead : s.toList.head? = some c)
    (hc : isWord c = false) (l : Layout) : Stops (.text s :: l) := by
  intro t rest _
  obtain ⟨cs, hText⟩ : ∃ cs, s.toList = c :: cs := by
    cases hList : s.toList with
    | nil => simp [hList] at hHead
    | cons d cs =>
      rw [hList, List.head?_cons, Option.some.injEq] at hHead
      exact ⟨cs, by rw [hHead]⟩
  -- an empty text would not even write the margin
  have hEmpty : s.isEmpty = false := by
    rw [String.isEmpty_eq_false_iff]
    rintro rfl
    simp at hText
  rw [written, Piece.written, hEmpty, hText]
  simp only [Bool.false_eq_true, if_false, List.append_assoc, List.cons_append]
  exact t.stops_margin (stops_cons hc _)

/-! ### Showing -/

theorem shows_nil : Shows [] [] := fun _ _ _ => rfl

/-- The second layout has to stop the last placeholder of the first one. -/
theorem Shows.append (h : Shows l shown) (h' : Shows l' shown') (hStops : Stops l') :
    Shows (l ++ l') (shown ++ shown') := by
  intro t rest hRest
  rw [written_append, List.append_assoc, h t _ (hStops _ rest hRest), h' _ rest hRest,
    List.append_assoc]

/-- A layout that writes no `@` shows nothing, whatever follows. -/
def Silent (l : Layout) : Prop := ∀ t, '@' ∉ written l t

theorem silent_nil : Silent [] := fun _ => List.not_mem_nil

theorem Silent.text_cons {s : String} (hs : Quiet s) (h : Silent l) : Silent (.text s :: l) := by
  intro t
  -- neither the margin nor the text brings a mark
  have hText : '@' ∉ Piece.written t (.text s) := by
    by_cases hEmpty : s.isEmpty = true
    · simp [Piece.written, hEmpty]
    · simp [Piece.written, hEmpty, t.mark_not_mem_margin, hs]
  rw [written, List.mem_append, not_or]
  exact ⟨hText, h _⟩

theorem Silent.newline_cons (h : Silent l) : Silent (.newline :: l) := by
  intro t
  rw [written, List.mem_append, not_or]
  exact ⟨by simp [Piece.written], h _⟩

theorem Silent.indent_cons (h : Silent l) : Silent (.indent :: l) := fun _ => h _

/-- A silent layout before another one. -/
theorem Shows.prepend (hl : Silent l) (h : Shows l' shown) : Shows (l ++ l') shown := by
  intro t rest hRest
  rw [written_append, List.append_assoc, placeholders_append (hl t)]
  exact h _ rest hRest

theorem Silent.shows (h : Silent l) : Shows l [] := fun t _ _ => placeholders_append (h t) _

theorem Shows.text_cons {s : String} (hs : Quiet s) (h : Shows l shown) :
    Shows (.text s :: l) shown :=
  h.prepend (silent_nil.text_cons hs)

theorem Shows.newline_cons (h : Shows l shown) : Shows (.newline :: l) shown :=
  h.prepend silent_nil.newline_cons

/-- A silent layout after another one, whose last placeholder it stops. -/
theorem Shows.postpend (h : Shows l shown) (hl : Silent l') (hStops : Stops l') :
    Shows (l ++ l') shown := by
  have hAppend := h.append hl.shows hStops
  rwa [List.append_nil] at hAppend

/-- A text without `@` after a layout. -/
theorem Shows.concat_text (h : Shows l shown) {s : String} (hs : Quiet s) {c : Char}
    (hHead : s.toList.head? = some c) (hc : isWord c = false) :
    Shows (l ++ [.text s]) shown :=
  h.postpend (silent_nil.text_cons hs) (stops_text hHead hc [])

theorem shows_mark {name : String} (h : IsName name) :
    Shows [.text ("@" ++ name)] ["@" ++ name] := by
  intro t rest hRest
  have hList : ("@" ++ name).toList = '@' :: name.toList := by
    rw [String.toList_append]
    rfl
  have hEmpty : ("@" ++ name).isEmpty = false := by
    rw [String.isEmpty_eq_false_iff]
    intro hNil
    rw [hNil] at hList
    cases hList
  rw [written, written, Piece.written, hEmpty]
  simp only [Bool.false_eq_true, if_false, List.append_nil, List.append_assoc]
  -- the placeholder may be the first thing on its line, behind the margin
  rw [placeholders_append t.mark_not_mem_margin, hList, List.cons_append,
    placeholders_mark h.2 hRest, ← hList, String.ofList_toList]
  rfl

/-! ### Lists and blocks -/

/-- What layouts show one after the other. -/
inductive ShowsAll : List Layout → List String → Prop where
  | nil : ShowsAll [] []
  | cons {l : Layout} {ls : List Layout} {shown shown' : List String} (h : Shows l shown)
      (hRest : ShowsAll ls shown') : ShowsAll (l :: ls) (shown ++ shown')

/-- The items of a list between separators that stop placeholders. -/
theorem ShowsAll.separated {items : List Layout} (h : ShowsAll items shown) {separator : Layout}
    (hSeparator : Silent separator) (hStops : ∀ l, Stops (separator ++ l)) :
    Shows (Layout.separated separator items) shown := by
  induction h with
  | nil => exact shows_nil
  | @cons item items names shown hItem hItems ih =>
    cases items with
    | nil =>
      cases hItems
      rwa [Layout.separated, List.append_nil]
    | cons item' items =>
      -- the separator before the other items stops the last placeholder of the first one
      have hRest := hItem.append (ih.prepend hSeparator) (hStops _)
      rwa [← List.append_assoc] at hRest

theorem Shows.nested (h : Shows l shown) : Shows (Layout.nested l) shown := by
  have hDedent : Silent [.dedent] := fun _ => List.not_mem_nil
  exact (h.prepend silent_nil.indent_cons).postpend hDedent (stops_dedent stops_nil)

theorem Shows.block {opening closing : String} (hOpening : Quiet opening) (h : Shows l shown)
    (hClosing : Quiet closing) {c : Char} (hHead : closing.toList.head? = some c)
    (hc : isWord c = false) : Shows (Layout.block opening l closing) shown :=
  (h.nested.concat_text hClosing hHead hc).newline_cons.text_cons hOpening

/-- The placeholders of a whole text. -/
theorem Shows.render (h : Shows l shown) (width : Nat) :
    placeholders (Layout.render width l).toList = shown := by
  have hText := h (.ofWidth width) [] Text.stops_nil
  rw [List.append_nil] at hText
  rw [toList_render, hText]
  exact List.append_nil _

/-- The lines of a text without `@`. -/
theorem silent_ofLines {s : String} (hs : Quiet s) : Silent (ofLines s) := by
  have hLines : ∀ line ∈ linesOf s, Quiet line := by
    intro line hLine
    obtain ⟨cs, hMem, rfl⟩ := List.mem_map.mp hLine
    intro hMark
    rw [String.toList_ofList] at hMark
    exact hs (mem_of_mem_lines hMem hMark)
  -- the breaks between the lines are silent as well
  have hAll : ∀ lines : List String, (∀ line ∈ lines, Quiet line) →
      Silent (lines.flatMap fun line => [.text line, .newline]) := by
    intro lines hQuiet
    induction lines with
    | nil => exact silent_nil
    | cons line lines ih =>
      obtain ⟨hLine, hRest⟩ := List.forall_mem_cons.mp hQuiet
      exact ((ih hRest).newline_cons).text_cons hLine
  unfold ofLines
  split
  · exact silent_nil.newline_cons
  · exact hAll _ hLines

end Layout

end DocumentQuery
