import DocumentQuery.Proofs.Text.Composition
import Mathlib.Algebra.GroupWithZero.Nat

/-!
# The lines that are written

A text under construction is a sequence of edits. The same text can be told line by line,
without any text under construction: cut the sequence at the line ends, put the texts of
each part one behind the other, and put a margin in front of every line but the first that
is not empty.

The margin is that of the level at the first text on the line that is not empty. The level
may change between the line end and that text, and texts that are empty may come between.

Main definitions:

* `IndentedText.Edit` — what can be done to a text under construction.
* `Layout.lineModel` — the lines of a layout, from its pieces.
* `Text.endedLines` — the lines of a text, from what stands between its line feeds.

Main results:

* `Text.lines_eq_endedLines` — the two ways to find the lines of a text agree.
* `Layout.splitOn_written` — the lines that are written for a layout.
* `IndentedText.edited_lines` — the lines after any edits.
-/

namespace DocumentQuery

/-! ## Lines of a text, from its line feeds -/

namespace Text

/-- A line without the carriage return that belongs to its end. -/
def withoutReturn (line : List Char) : List Char :=
  if line.getLast? = some '\r' then line.dropLast else line

/-- Every part in front of a line feed is a line; what stands behind the last line feed is
one unless it is empty, and has no line end that a carriage return could belong to. -/
def endedLines : List (List Char) → List (List Char)
  | [] => []
  | [rest] => if rest = [] then [] else [rest]
  | line :: next :: rest => withoutReturn line :: endedLines (next :: rest)

theorem endedLines_cons (line : List Char) {rest : List (List Char)} (h : rest ≠ []) :
    endedLines (line :: rest) = withoutReturn line :: endedLines rest := by
  cases rest with
  | nil => exact absurd rfl h
  | cons next rest => rfl

/-- A character that is no carriage return at the end of the line. -/
theorem withoutReturn_cons {c : Char} {line : List Char} (h : line = [] → c ≠ '\r') :
    withoutReturn (c :: line) = c :: withoutReturn line := by
  cases line with
  | nil => simp [withoutReturn, h rfl]
  | cons d line =>
    simp only [withoutReturn, List.getLast?_cons_cons, List.dropLast_cons_cons]
    split <;> rfl

/-- An empty part in front of others is one in front of a line feed. -/
theorem eq_cons_of_splitOn {cs : List Char} {rest : List (List Char)} (hRest : rest ≠ [])
    (h : cs.splitOn '\n' = [] :: rest) : ∃ more, cs = '\n' :: more := by
  cases cs with
  | nil =>
    rw [List.splitOn_nil] at h
    exact absurd (List.cons.inj h).2.symm hRest
  | cons c cs =>
    rw [List.splitOn_cons_eq_if_modifyHead] at h
    split at h
    · rename_i hFeed
      exact ⟨cs, by rw [beq_iff_eq.mp hFeed]⟩
    · -- any other character would stand in the first part
      cases hParts : cs.splitOn '\n' with
      | nil => exact absurd hParts (List.splitOn_ne_nil _ _)
      | cons part parts =>
        rw [hParts] at h
        cases h

/-- **The lines of a text end at its line feeds**, with the carriage return in front of
them; any other carriage return stays. -/
theorem lines_eq_endedLines (cs : List Char) : lines cs = endedLines (cs.splitOn '\n') := by
  fun_induction lines cs with
  | case1 => rfl
  | case2 cs ih =>
    have hParts : ('\n' :: cs).splitOn '\n' = [] :: cs.splitOn '\n' :=
      List.splitOn_append_cons_self_of_not_mem List.not_mem_nil cs
    rw [hParts, ih, endedLines_cons _ (List.splitOn_ne_nil _ _)]
    rfl
  | case3 cs ih =>
    have hParts : ('\r' :: '\n' :: cs).splitOn '\n' = ['\r'] :: cs.splitOn '\n' :=
      List.splitOn_append_cons_self_of_not_mem (by decide : '\n' ∉ ['\r']) cs
    rw [hParts, ih, endedLines_cons _ (List.splitOn_ne_nil _ _)]
    rfl
  | case4 c cs hFeed hReturn ih =>
    rw [List.splitOn_cons_eq_if_modifyHead, if_neg (by simpa using hFeed), ih]
    cases hParts : cs.splitOn '\n' with
    | nil => exact absurd hParts (List.splitOn_ne_nil _ _)
    | cons part parts =>
      by_cases hLast : parts = []
      · -- the character stands in what is behind the last line feed
        subst hLast
        by_cases hPart : part = [] <;> simp [endedLines, extendFirst, hPart]
      · have hChar : part = [] → c ≠ '\r' := by
          rintro rfl hc
          obtain ⟨more, rfl⟩ := eq_cons_of_splitOn hLast hParts
          exact hReturn more hc rfl
        rw [List.modifyHead_cons, endedLines_cons _ hLast, endedLines_cons _ hLast,
          withoutReturn_cons hChar]
        rfl

/-- A text that is not empty has lines. -/
theorem lines_ne_nil {cs : List Char} (h : cs ≠ []) : lines cs ≠ [] := by
  fun_cases lines cs with
  | case1 => exact absurd rfl h
  | case2 cs => exact List.cons_ne_nil _ _
  | case3 cs => exact List.cons_ne_nil _ _
  | case4 c cs => cases hLines : lines cs <;> exact List.cons_ne_nil _ _

end Text

open Text

/-! ## The line model -/

namespace Piece

/-- The piece writes nothing: it is an empty text or changes the level. -/
def isBlank : Piece → Bool
  | .text s => s.isEmpty
  | .newline | .indent | .dedent => true

/-- The level behind a piece. -/
def levelAfter (level : Nat) : Piece → Nat
  | .indent => level + 1
  | .dedent => level - 1
  | .text _ | .newline => level

/-- The characters of a text piece. -/
def content : Piece → List Char
  | .text s => s.toList
  | .newline | .indent | .dedent => []

end Piece

namespace Layout

/-- The level behind the pieces. -/
def levelAfter (level : Nat) (l : Layout) : Nat := l.foldl Piece.levelAfter level

/-- The texts one behind the other. -/
def content (l : Layout) : List Char := l.flatMap Piece.content

/-- The level at the first text that is not empty. -/
def levelAtContent (level : Nat) (l : Layout) : Nat := levelAfter level (l.takeWhile Piece.isBlank)

/-- A line behind a line end, which begins on this level. -/
def laterLine (width level : Nat) (line : Layout) : List Char :=
  if line.content = [] then []
  else List.replicate (levelAtContent level line * width) ' ' ++ line.content

/-- The lines of pieces that are cut at the line ends. `later` tells whether a line end
stands in front of the first of them. -/
def linesFrom (width : Nat) : Bool → Nat → List Layout → List (List Char)
  | _, _, [] => []
  | later, level, line :: rest =>
    (if later then laterLine width level line else line.content) ::
      linesFrom width true (levelAfter level line) rest

/-- The lines of a layout. -/
def lineModel (width : Nat) (l : Layout) : List (List Char) :=
  linesFrom width false 0 (l.splitOn .newline)

/-- The texts of a layout hold no line feeds. -/
def Unbroken (l : Layout) : Prop := ∀ s, .text s ∈ l → OneLine s

theorem unbroken_append {l l' : Layout} : Unbroken (l ++ l') ↔ Unbroken l ∧ Unbroken l' := by
  simp only [Unbroken, List.mem_append, or_imp, forall_and]

theorem unbroken_cons {p : Piece} {l : Layout} :
    Unbroken (p :: l) ↔ Unbroken [p] ∧ Unbroken l :=
  unbroken_append (l := [p])

end Layout

/-! ## What is written on one line -/

namespace Piece

theorem level_write (p : Piece) (t : IndentedText) : (p.write t).level = p.levelAfter t.level := by
  cases p with
  | text s => exact level_text t s
  | newline | indent | dedent => rfl

/-- Only a line end brings a line feed. -/
theorem count_written {p : Piece} (h : Layout.Unbroken [p]) (t : IndentedText) :
    (p.written t).count '\n' = [p].count .newline := by
  cases p with
  | text s =>
    have hs : '\n' ∉ s.toList := h s (List.mem_singleton_self _)
    have hMargin : '\n' ∉ t.margin.toList := t.not_mem_margin (by decide)
    have hWritten : '\n' ∉ written t (.text s) := by
      by_cases hEmpty : s.isEmpty = true
      · simp [written, hEmpty]
      · simp [written, hEmpty, hMargin, hs]
    rw [List.count_eq_zero.mpr hWritten]
    rfl
  | newline | indent | dedent => rfl

end Piece

namespace Layout

theorem level_writeOn (l : Layout) (t : IndentedText) :
    (writeOn l t).level = levelAfter t.level l := by
  induction l generalizing t with
  | nil => rfl
  | cons p l ih =>
    have hRest := ih (p.write t)
    rw [p.level_write] at hRest
    exact hRest

/-- As many line feeds are written as the layout has line ends. -/
theorem count_written {l : Layout} (h : Unbroken l) (t : IndentedText) :
    (written l t).count '\n' = l.count .newline := by
  induction l generalizing t with
  | nil => rfl
  | cons p l ih =>
    obtain ⟨hPiece, hRest⟩ := unbroken_cons.mp h
    rw [written, List.count_append, Piece.count_written hPiece, ih hRest, ← List.count_append]
    rfl

/-- The first text that is not empty decides on the margin of its line. -/
theorem laterLine_cons_text {s : String} (h : ¬s.isEmpty = true) (width level : Nat)
    (line : Layout) : laterLine width level (.text s :: line) =
      List.replicate (level * width) ' ' ++ (s.toList ++ line.content) := by
  have hNe : s.toList ++ line.content ≠ [] := by
    intro hNil
    rw [List.append_eq_nil_iff, String.toList_eq_nil_iff] at hNil
    exact h (String.isEmpty_iff.mpr hNil.1)
  have hBlank : ¬Piece.isBlank (.text s) = true := h
  have hContent : content (.text s :: line) = s.toList ++ line.content := rfl
  rw [laterLine, hContent, if_neg hNe, levelAtContent, List.takeWhile_cons_of_neg hBlank]
  rfl

/-- A line without its line end: the margin is owed until the first text that is not
empty, which pays it at the level of that moment. -/
theorem written_line {line : Layout} (h : .newline ∉ line) (t : IndentedText) :
    written line t = if t.fresh then laterLine t.width t.level line else line.content := by
  induction line generalizing t with
  | nil => cases hFresh : t.fresh <;> rfl
  | cons p line ih =>
    rw [List.mem_cons, not_or] at h
    have hRest := ih h.2 (p.write t)
    cases p with
    | newline => exact absurd rfl h.1
    | indent | dedent => exact hRest
    | text s =>
      by_cases hEmpty : s.isEmpty = true
      · -- the empty text is passed over on both sides
        obtain rfl := String.isEmpty_iff.mp hEmpty
        exact hRest
      · -- no margin is owed behind the text
        have hWrite : (Piece.write t (.text s)).fresh = false := by
          simp [Piece.write, IndentedText.append, hEmpty]
        have hContent : content (.text s :: line) = s.toList ++ content line := rfl
        rw [hWrite, if_neg Bool.false_ne_true] at hRest
        rw [written, Piece.written, if_neg hEmpty, hRest, laterLine_cons_text hEmpty, hContent]
        cases hFresh : t.fresh with
        | false => simp [IndentedText.margin, hFresh]
        | true => simp [IndentedText.margin, IndentedText.spaces, hFresh]

/-- **The lines that are written for a layout** are those of the line model. -/
theorem splitOn_written {l : Layout} (h : Unbroken l) (t : IndentedText) :
    (written l t).splitOn '\n' = linesFrom t.width t.fresh t.level (l.splitOn .newline) := by
  -- induction on the number of pieces, line by line: cut off the first line with its line
  -- end, behind which the rest is written at the level the line has left
  induction hLength : l.length using Nat.strongRecOn generalizing l t with
  | _ n ih =>
    by_cases hLine : .newline ∈ l
    · obtain ⟨line, rest, rfl, hFirst⟩ := List.eq_append_cons_of_mem hLine
      obtain ⟨hText, hRest⟩ := unbroken_append.mp h
      let t' := (writeOn line t).newline
      have hFeed : '\n' ∉ written line t := by
        rw [← List.count_eq_zero, count_written hText, List.count_eq_zero]
        exact hFirst
      have hWritten : written (line ++ .newline :: rest) t =
          written line t ++ '\n' :: written rest t' := written_append line (.newline :: rest) t
      have hLevel : t'.level = levelAfter t.level line := level_writeOn line t
      have hWidth : t'.width = t.width := width_writeOn line t
      have hLater := ih rest.length (by simp [← hLength]; omega) (unbroken_cons.mp hRest).2 t' rfl
      rw [hWritten, List.splitOn_append_cons_self_of_not_mem hFeed,
        List.splitOn_append_cons_self_of_not_mem hFirst, linesFrom, written_line hFirst, hLater,
        hLevel, hWidth]
      rfl
    · have hFeed : '\n' ∉ written l t := by
        rw [← List.count_eq_zero, count_written h, List.count_eq_zero]
        exact hLine
      rw [List.splitOn_eq_singleton hFeed, List.splitOn_eq_singleton hLine, linesFrom,
        written_line hLine]
      rfl

end Layout

/-! ## Edits -/

namespace IndentedText

/-- What can be done to a text under construction. -/
inductive Edit where
  | append (s : String)
  | appendLine (s : String)
  | appendLines (s : String)
  | indent
  | dedent
deriving DecidableEq, Repr

/-- The lines that a text with several lines is written on: the empty text takes one. -/
def linesIn (s : String) : List String :=
  if s.isEmpty then [""] else (endedLines (s.toList.splitOn '\n')).map String.ofList

namespace Edit

/-- Carries out an edit. -/
def apply (t : IndentedText) : Edit → IndentedText
  | .append s => t.append s
  | .appendLine s => t.appendLine s
  | .appendLines s => t.appendLines s
  | .indent => t.indent
  | .dedent => t.dedent

/-- A text that is written on one line holds no line feeds. -/
def Unbroken : Edit → Prop
  | .append s | .appendLine s => OneLine s
  | .appendLines _ | .indent | .dedent => True

instance : ∀ edit : Edit, Decidable edit.Unbroken
  | .append s | .appendLine s => inferInstanceAs (Decidable (OneLine s))
  | .appendLines _ | .indent | .dedent => isTrue trivial

/-- The lines that an edit ends. -/
def lineEnds : Edit → Nat
  | .appendLine _ => 1
  | .appendLines s => (linesIn s).length
  | .append _ | .indent | .dedent => 0

/-- The pieces that an edit writes. -/
def pieces : Edit → Layout
  | .append s => [.text s]
  | .appendLine s => [.text s, .newline]
  | .appendLines s => (linesIn s).flatMap fun line => [.text line, .newline]
  | .indent => [.indent]
  | .dedent => [.dedent]

end Edit

/-- A text after edits from left to right, at `width` spaces per level. -/
def edited (width : Nat) (edits : List Edit) : IndentedText :=
  edits.foldl Edit.apply (.ofWidth width)

/-! ### What an edit does -/

theorem linesIn_of_not_isEmpty {s : String} (h : ¬s.isEmpty = true) : linesIn s = linesOf s := by
  rw [linesIn, if_neg h, linesOf, lines_eq_endedLines]

theorem oneLine_of_mem_linesIn {s line : String} (h : line ∈ linesIn s) : OneLine line := by
  by_cases hEmpty : s.isEmpty = true
  · rw [linesIn, if_pos hEmpty, List.mem_singleton] at h
    rw [h]
    decide
  · rw [linesIn_of_not_isEmpty hEmpty] at h
    exact oneLine_of_mem_linesOf h

theorem appendLines_eq_foldl (t : IndentedText) (s : String) :
    t.appendLines s = (linesIn s).foldl appendLine t := by
  by_cases hEmpty : s.isEmpty = true
  · rw [String.isEmpty_iff.mp hEmpty]
    rfl
  · have hText : s.toList ≠ [] := by simpa [String.isEmpty_iff] using hEmpty
    have hNe : linesOf s ≠ [] := by simpa [linesOf] using lines_ne_nil hText
    rw [appendLines, linesIn_of_not_isEmpty hEmpty]
    split
    · rename_i hNil
      exact absurd hNil hNe
    · rfl

theorem foldl_appendLine (lines : List String) (t : IndentedText) :
    lines.foldl appendLine t =
      Layout.writeOn (lines.flatMap fun line => [.text line, .newline]) t := by
  rw [Layout.writeOn, List.foldl_flatMap]
  rfl

namespace Edit

theorem apply_eq_writeOn (edit : Edit) (t : IndentedText) :
    edit.apply t = edit.pieces.writeOn t := by
  cases edit with
  | appendLines s => exact (t.appendLines_eq_foldl s).trans (foldl_appendLine _ t)
  | append s | appendLine s | indent | dedent => rfl

theorem count_pieces (edit : Edit) : edit.pieces.count .newline = edit.lineEnds := by
  cases edit with
  | appendLines s =>
    simp only [pieces, lineEnds]
    induction linesIn s with
    | nil => rfl
    | cons line lines ih =>
      rw [List.flatMap_cons, List.count_append, ih, List.length_cons, Nat.add_comm]
      rfl
  | append s | appendLine s | indent | dedent => rfl

theorem Unbroken.pieces {edit : Edit} (h : edit.Unbroken) : Layout.Unbroken edit.pieces := by
  intro s hs
  cases edit with
  | append s' =>
    obtain rfl := Piece.text.inj (List.mem_singleton.mp hs)
    exact h
  | appendLine s' =>
    have hText : s = s' := by simpa [Edit.pieces] using hs
    rw [hText]
    exact h
  | appendLines s' =>
    obtain ⟨line, hLine, hText⟩ := List.mem_flatMap.mp hs
    obtain rfl : s = line := by simpa using hText
    exact oneLine_of_mem_linesIn hLine
  | indent | dedent => simp [Edit.pieces] at hs

end Edit

theorem edited_eq_writeOn (width : Nat) (edits : List Edit) :
    edited width edits = Layout.writeOn (edits.flatMap Edit.pieces) (.ofWidth width) := by
  have hApply : Edit.apply = fun t edit => edit.pieces.writeOn t := by
    funext t edit
    exact edit.apply_eq_writeOn t
  rw [edited, hApply]
  exact List.foldl_flatMap.symm

/-- **The text after any edits is that of the line model.** It has one line feed for every
line that is ended. Each of its lines holds the texts that are appended on it, and every line
but the first that is not empty begins with the margin of the level at its first text that is
not empty. -/
theorem edited_lines (width : Nat) {edits : List Edit} (h : ∀ edit ∈ edits, edit.Unbroken) :
    (edited width edits).text.toList.count '\n' = (edits.map Edit.lineEnds).sum ∧
      (edited width edits).text.toList.splitOn '\n' =
        Layout.lineModel width (edits.flatMap Edit.pieces) := by
  have hPieces : Layout.Unbroken (edits.flatMap Edit.pieces) := by
    intro s hs
    obtain ⟨edit, hEdit, hText⟩ := List.mem_flatMap.mp hs
    exact (h edit hEdit).pieces s hText
  have hText : (edited width edits).text.toList =
      Layout.written (edits.flatMap Edit.pieces) (.ofWidth width) := by
    rw [edited_eq_writeOn]
    exact Layout.toList_render width _
  rw [hText]
  refine ⟨?_, Layout.splitOn_written hPieces _⟩
  rw [Layout.count_written hPieces, List.count_flatMap]
  exact congrArg List.sum (List.map_congr_left fun edit _ => edit.count_pieces)

/-- Levels that change between a line end and the first text behind it, empty texts, more
levels closed than opened, and a text with both kinds of line ends. -/
def movedLevels : List Edit :=
  [.dedent, .append "a", .indent, .appendLine "", .indent, .append "", .dedent, .append "b",
    .indent, .append "c", .appendLines "d\r\n\n\re\n", .appendLines "", .dedent, .dedent,
    .dedent, .append "f", .appendLine "", .indent, .append "g"]

theorem movedLevels_lines :
    (∀ edit ∈ movedLevels, edit.Unbroken) ∧
      (edited 2 movedLevels).text.toList.count '\n' = 6 ∧
      (edited 2 movedLevels).text.toList.splitOn '\n' =
        Layout.lineModel 2 (movedLevels.flatMap Edit.pieces) ∧
      (Layout.lineModel 2 (movedLevels.flatMap Edit.pieces)).map String.ofList =
        ["a", "  bcd", "", "    \re", "", "f", "  g"] := by
  have hUnbroken : ∀ edit ∈ movedLevels, edit.Unbroken := by decide
  exact ⟨hUnbroken, (edited_lines 2 hUnbroken).1, (edited_lines 2 hUnbroken).2, by decide⟩

end IndentedText

end DocumentQuery
