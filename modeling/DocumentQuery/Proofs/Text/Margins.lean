import DocumentQuery.Proofs.Text.Placeholders

/-!
# Margins of a text

The spaces in front of the lines are all that the width and the level of a layout decide.
A text of one width is turned into that of another by taking these spaces away on both
sides, and a part that stands one level deeper has the spaces of one more level in front of
each of its lines, as long as its pieces hold no line feeds of their own.

Main definitions:

* `Text.unindented` — a text without the spaces at the beginning of its lines.
* `Text.indented` — a text with spaces in front of every line that is not empty.
* `Layout.Steady` — a layout that ends on the level it begins with, and one level deeper
  differs in the margins alone.

Main results:

* `Layout.unindented_render` — widths differ in margins only.
* `Layout.Steady.append`, `Layout.Steady.nested` — steady layouts that are put together.
* `Layout.Steady.written_block` — what is written for a steady layout in a block.
-/

namespace DocumentQuery

namespace Text

/-! ## Texts without margins -/

/-- A text without the spaces at the beginning of each line. `start` says whether a line
begins in front of the text. -/
def dropMargins : Bool → List Char → List Char
  | _, [] => []
  | start, c :: cs =>
    if start && c == ' ' then dropMargins true cs else c :: dropMargins (c == '\n') cs

/-- A text without the spaces at the beginning of its lines. -/
def unindented (text : String) : String := String.ofList (dropMargins true text.toList)

/-- Whether the line is still blank behind a text, if it is so in front of it. -/
def staysBlank (start : Bool) (cs : List Char) : Bool :=
  cs.foldl (fun blank c => c == '\n' || (blank && c == ' ')) start

theorem dropMargins_append (start : Bool) (cs cs' : List Char) :
    dropMargins start (cs ++ cs') =
      dropMargins start cs ++ dropMargins (staysBlank start cs) cs' := by
  induction cs generalizing start with
  | nil => rfl
  | cons c cs ih =>
    rw [List.cons_append, dropMargins, dropMargins, ih, ih]
    by_cases hSpace : (start && c == ' ') = true
    · have hBlank : staysBlank start (c :: cs) = staysBlank true cs := by
        simp [staysBlank, hSpace]
      rw [if_pos hSpace, if_pos hSpace, hBlank]
    · have hBlank : staysBlank start (c :: cs) = staysBlank (c == '\n') cs := by
        simp [staysBlank, hSpace]
      rw [if_neg hSpace, if_neg hSpace, hBlank]
      rfl

theorem staysBlank_append (start : Bool) (cs cs' : List Char) :
    staysBlank start (cs ++ cs') = staysBlank (staysBlank start cs) cs' := List.foldl_append

theorem staysBlank_spaces (count : Nat) :
    staysBlank true (IndentedText.spaces count).toList = true := by
  rw [IndentedText.spaces, String.toList_ofList]
  induction count with
  | zero => rfl
  | succ count ih => exact ih

theorem dropMargins_spaces (count : Nat) :
    dropMargins true (IndentedText.spaces count).toList = [] := by
  rw [IndentedText.spaces, String.toList_ofList]
  induction count with
  | zero => rfl
  | succ count ih => exact ih

/-! ## Texts with margins -/

/-- A text with `count` spaces at the beginning of each line that is not empty. `start` says
whether a line begins in front of the text. -/
def addMargins (count : Nat) : Bool → List Char → List Char
  | _, [] => []
  | start, c :: cs =>
    (if start && c != '\n' then (IndentedText.spaces count).toList else []) ++
      c :: addMargins count (c == '\n') cs

/-- A text with `count` spaces in front of every line that is not empty. -/
def indented (count : Nat) (text : String) : String :=
  String.ofList (addMargins count true text.toList)

example : indented 2 "a\n\n b" = "  a\n\n   b" ∧ unindented "  a\n\n   b" = "a\n\nb" := by
  decide

/-- A text without line feeds. -/
def OneLine (s : String) : Prop := '\n' ∉ s.toList

instance (s : String) : Decidable (OneLine s) := inferInstanceAs (Decidable ('\n' ∉ s.toList))

/-- Whether a line begins behind a text. -/
def opensLine (start : Bool) (cs : List Char) : Bool := cs.foldl (fun _ c => c == '\n') start

theorem addMargins_append (count : Nat) (start : Bool) (cs cs' : List Char) :
    addMargins count start (cs ++ cs') =
      addMargins count start cs ++ addMargins count (opensLine start cs) cs' := by
  induction cs generalizing start with
  | nil => rfl
  | cons c cs ih =>
    rw [List.cons_append, addMargins, addMargins, ih, List.append_assoc]
    rfl

/-- A text on one line. -/
theorem addMargins_line {cs : List Char} (h : '\n' ∉ cs) (count : Nat) :
    addMargins count false cs = cs := by
  induction cs with
  | nil => rfl
  | cons c cs ih =>
    rw [List.mem_cons, not_or] at h
    have hFeed : (c == '\n') = false := beq_false_of_ne (Ne.symm h.1)
    rw [addMargins, hFeed, ih h.2]
    rfl

/-- A text at the beginning of a line. -/
theorem addMargins_start {cs : List Char} (hNe : cs ≠ []) (h : '\n' ∉ cs) (count : Nat) :
    addMargins count true cs = (IndentedText.spaces count).toList ++ cs := by
  cases cs with
  | nil => exact absurd rfl hNe
  | cons c cs =>
    rw [List.mem_cons, not_or] at h
    have hFeed : (c == '\n') = false := beq_false_of_ne (Ne.symm h.1)
    rw [addMargins, hFeed, addMargins_line h.2, bne, hFeed]
    rfl

/-- No line begins behind a text on one line. -/
theorem opensLine_of_line {cs : List Char} (hNe : cs ≠ []) (h : '\n' ∉ cs) (start : Bool) :
    opensLine start cs = false := by
  induction cs generalizing start with
  | nil => exact absurd rfl hNe
  | cons c cs ih =>
    rw [List.mem_cons, not_or] at h
    have hFeed : (c == '\n') = false := beq_false_of_ne (Ne.symm h.1)
    cases cs with
    | nil => exact hFeed
    | cons d ds => exact ih (List.cons_ne_nil d ds) h.2 (c == '\n')

end Text

open Text

/-! ## Widths -/

namespace IndentedText

theorem toList_spaces_add (count count' : Nat) :
    (spaces (count + count')).toList = (spaces count).toList ++ (spaces count').toList := by
  rw [spaces, spaces, spaces, String.toList_ofList, String.toList_ofList, String.toList_ofList,
    List.replicate_add]

/-- The margin of a line leaves no trace. -/
theorem dropMargins_margin {t : IndentedText} {start : Bool} (h : t.fresh = true → start = true)
    (cs : List Char) : dropMargins start (t.margin.toList ++ cs) = dropMargins start cs := by
  unfold margin
  by_cases hFresh : t.fresh = true
  · rw [if_pos hFresh, h hFresh, dropMargins_append, dropMargins_spaces, staysBlank_spaces,
      List.nil_append]
  · rw [if_neg hFresh]
    rfl

theorem staysBlank_margin {t : IndentedText} {start : Bool} (h : t.fresh = true → start = true)
    (cs : List Char) : staysBlank start (t.margin.toList ++ cs) = staysBlank start cs := by
  unfold margin
  by_cases hFresh : t.fresh = true
  · rw [if_pos hFresh, h hFresh, staysBlank_append, staysBlank_spaces]
  · rw [if_neg hFresh]
    rfl

end IndentedText

namespace Piece

/-- Whether a line has been opened and holds nothing does not depend on levels. -/
theorem fresh_write {t t' : IndentedText} (h : t.fresh = t'.fresh) (p : Piece) :
    (p.write t).fresh = (p.write t').fresh := by
  cases p with
  | text s =>
    simp only [write, IndentedText.append]
    split
    · exact h
    · rfl
  | newline => rfl
  | indent => exact h
  | dedent => exact h

theorem dropMargins_written {t t' : IndentedText} {start : Bool} (hFresh : t.fresh = t'.fresh)
    (hStart : t.fresh = true → start = true) (p : Piece) :
    dropMargins start (p.written t) = dropMargins start (p.written t') ∧
      staysBlank start (p.written t) = staysBlank start (p.written t') := by
  have hStart' : t'.fresh = true → start = true := by rwa [← hFresh]
  cases p with
  | text s =>
    by_cases hEmpty : s.isEmpty = true
    · simp [written, hEmpty]
    · rw [written, written, if_neg hEmpty, if_neg hEmpty]
      refine ⟨?_, ?_⟩
      · rw [IndentedText.dropMargins_margin hStart, IndentedText.dropMargins_margin hStart']
      · rw [IndentedText.staysBlank_margin hStart, IndentedText.staysBlank_margin hStart']
  | newline => exact ⟨rfl, rfl⟩
  | indent => exact ⟨rfl, rfl⟩
  | dedent => exact ⟨rfl, rfl⟩

/-- A line that has been opened and holds nothing is blank. -/
theorem staysBlank_written {t : IndentedText} {start : Bool}
    (hStart : t.fresh = true → start = true) (p : Piece) (hFresh : (p.write t).fresh = true) :
    staysBlank start (p.written t) = true := by
  cases p with
  | text s =>
    by_cases hEmpty : s.isEmpty = true
    · simp only [write, IndentedText.append, if_pos hEmpty] at hFresh
      simp only [written, if_pos hEmpty]
      exact hStart hFresh
    · simp only [write, IndentedText.append, if_neg hEmpty] at hFresh
      cases hFresh
  | newline => rfl
  | indent => exact hStart hFresh
  | dedent => exact hStart hFresh

end Piece

namespace Layout

/-- Levels and widths leave no trace behind the margins. -/
theorem dropMargins_written (l : Layout) {t t' : IndentedText} {start : Bool}
    (hFresh : t.fresh = t'.fresh) (hStart : t.fresh = true → start = true) :
    dropMargins start (written l t) = dropMargins start (written l t') := by
  -- induction on the pieces; what is carried on is whether the line is still blank, which a
  -- line that has just been opened is in both texts
  induction l generalizing t t' start with
  | nil => rfl
  | cons p l ih =>
    obtain ⟨hPiece, hBlank⟩ := p.dropMargins_written hFresh hStart
    have hRest := ih (p.fresh_write hFresh) (p.staysBlank_written hStart)
    rw [written, written, dropMargins_append, dropMargins_append, hPiece, hRest, hBlank]

/-- **Widths differ in margins only.** -/
theorem unindented_render (l : Layout) (width width' : Nat) :
    unindented (render width l) = unindented (render width' l) := by
  unfold unindented
  rw [toList_render, toList_render]
  exact congrArg String.ofList (l.dropMargins_written rfl nofun)

/-! ## Levels -/

theorem writeOn_append (l l' : Layout) (t : IndentedText) :
    writeOn (l ++ l') t = writeOn l' (writeOn l t) := List.foldl_append

theorem width_writeOn (l : Layout) (t : IndentedText) : (writeOn l t).width = t.width := by
  induction l generalizing t with
  | nil => rfl
  | cons p l ih =>
    have hPiece : (p.write t).width = t.width := by
      cases p with
      | text s =>
        simp only [Piece.write, IndentedText.append]
        split <;> rfl
      | newline | indent | dedent => rfl
    exact (ih (p.write t)).trans hPiece

theorem fresh_writeOn (l : Layout) {t t' : IndentedText} (h : t.fresh = t'.fresh) :
    (writeOn l t).fresh = (writeOn l t').fresh := by
  induction l generalizing t t' with
  | nil => exact h
  | cons p l ih => exact ih (p.fresh_write h)

end Layout

/-- `t'` stands one level deeper than `t`, at the same place of a line. -/
structure IndentedText.Deeper (t t' : IndentedText) : Prop where
  width : t'.width = t.width
  level : t'.level = t.level + 1
  fresh : t'.fresh = t.fresh

namespace Layout

/-- The layout ends on the level that it begins with. One level deeper, the same is written
with the spaces of one level more in front of its lines; and a line is open behind it exactly
if a line begins behind what is written. -/
structure Steady (l : Layout) : Prop where
  level : ∀ t, (writeOn l t).level = t.level
  opens : ∀ t, opensLine t.fresh (written l t) = (writeOn l t).fresh
  deeper : ∀ {t t'}, t.Deeper t' →
    written l t' = addMargins t.width t.fresh (written l t)

variable {l l' : Layout}

theorem Steady.writeOn_deeper (h : Steady l) {t t' : IndentedText} (hDeeper : t.Deeper t') :
    (writeOn l t).Deeper (writeOn l t') := by
  refine ⟨?_, ?_, l.fresh_writeOn hDeeper.fresh⟩
  · rw [width_writeOn, width_writeOn, hDeeper.width]
  · rw [h.level, h.level, hDeeper.level]

theorem steady_nil : Steady [] := ⟨fun _ => rfl, fun _ => rfl, fun _ => rfl⟩

theorem Steady.append (h : Steady l) (h' : Steady l') : Steady (l ++ l') := by
  refine ⟨fun t => ?_, fun t => ?_, fun {t t'} hDeeper => ?_⟩
  · rw [writeOn_append, h'.level, h.level]
  · have hFirst : opensLine t.fresh (written l t ++ written l' (writeOn l t)) =
        opensLine (opensLine t.fresh (written l t)) (written l' (writeOn l t)) :=
      List.foldl_append
    rw [written_append, writeOn_append, hFirst, h.opens, h'.opens]
  · -- the second layout goes on where the first one has ended, in both texts
    rw [written_append, written_append, h.deeper hDeeper, h'.deeper (h.writeOn_deeper hDeeper),
      addMargins_append, h.opens, width_writeOn]

theorem steady_newline : Steady [.newline] := by
  refine ⟨fun _ => rfl, fun _ => rfl, fun {t t'} _ => ?_⟩
  show ['\n'] = addMargins t.width t.fresh ['\n']
  simp [addMargins]

theorem steady_text {s : String} (hs : OneLine s) : Steady [.text s] := by
  by_cases hEmpty : s.isEmpty = true
  · -- the empty text leaves no trace
    have hWrite (t : IndentedText) : writeOn [.text s] t = t := by
      show t.append s = t
      rw [IndentedText.append, if_pos hEmpty]
    have hWritten (t : IndentedText) : written [.text s] t = [] := by
      simp [written, Piece.written, hEmpty]
    refine ⟨fun t => by rw [hWrite], fun t => by rw [hWrite, hWritten]; rfl, fun _ => ?_⟩
    rw [hWritten, hWritten]
    rfl
  · have hNe : s.toList ≠ [] := by
      intro hNil
      exact hEmpty (String.isEmpty_iff.mpr (String.toList_eq_nil_iff.mp hNil))
    have hWrite (t : IndentedText) :
        writeOn [.text s] t = { t with text := t.text ++ t.margin ++ s, fresh := false } := by
      show t.append s = _
      rw [IndentedText.append, if_neg hEmpty]
    have hWritten (t : IndentedText) : written [.text s] t = t.margin.toList ++ s.toList := by
      simp [written, Piece.written, hEmpty]
    -- neither the margin nor the text holds a line feed
    have hLine (t : IndentedText) : '\n' ∉ t.margin.toList ++ s.toList := by
      rw [List.mem_append, not_or]
      exact ⟨t.not_mem_margin (by decide), hs⟩
    refine ⟨fun t => by rw [hWrite], fun t => ?_, fun {t t'} hDeeper => ?_⟩
    · rw [hWrite, hWritten]
      exact opensLine_of_line (by simp [hNe]) (hLine t) t.fresh
    · rw [hWritten, hWritten]
      cases hFresh : t.fresh with
      | false =>
        -- in the middle of a line there is no margin on either level
        have hFresh' : t'.fresh = false := hDeeper.fresh.trans hFresh
        rw [addMargins_line (hLine t)]
        simp [IndentedText.margin, hFresh, hFresh']
      | true =>
        have hFresh' : t'.fresh = true := hDeeper.fresh.trans hFresh
        have hCount : t'.level * t'.width = t.width + t.level * t.width := by
          rw [hDeeper.level, hDeeper.width, Nat.succ_mul, Nat.add_comm]
        have hNe' : t.margin.toList ++ s.toList ≠ [] := by simp [hNe]
        rw [addMargins_start hNe' (hLine t), IndentedText.margin, IndentedText.margin,
          if_pos hFresh, if_pos hFresh', hCount, IndentedText.toList_spaces_add, List.append_assoc]

theorem written_nested (l : Layout) (t : IndentedText) :
    written (Layout.nested l) t = written l t.indent := by
  show [] ++ written (l ++ [.dedent]) t.indent = _
  rw [written_append]
  exact List.append_nil _

theorem writeOn_nested (l : Layout) (t : IndentedText) :
    writeOn (Layout.nested l) t = (writeOn l t.indent).dedent :=
  writeOn_append l [.dedent] t.indent

theorem Steady.nested (h : Steady l) : Steady (Layout.nested l) := by
  refine ⟨fun t => ?_, fun t => ?_, fun {t t'} hDeeper => ?_⟩
  · rw [writeOn_nested]
    show (writeOn l t.indent).level - 1 = t.level
    rw [h.level]
    rfl
  · rw [writeOn_nested, written_nested]
    exact h.opens t.indent
  · rw [written_nested, written_nested]
    have hInner : t.indent.Deeper t'.indent :=
      ⟨hDeeper.width, congrArg Nat.succ hDeeper.level, hDeeper.fresh⟩
    exact h.deeper hInner

end Layout

/-! ## Blocks on the outermost level -/

namespace Piece

/-- The outermost level has no margin. -/
theorem written_outermost {t : IndentedText} (hLevel : t.level = 0) (s : String) :
    (Piece.text s).written t = s.toList := by
  have hMargin : t.margin.toList = [] := by simp [IndentedText.margin, IndentedText.spaces, hLevel]
  by_cases hEmpty : s.isEmpty = true
  · simp [written, String.isEmpty_iff.mp hEmpty]
  · simp [written, hEmpty, hMargin]

theorem level_text (t : IndentedText) (s : String) :
    ((Piece.text s).write t).level = t.level := by
  simp only [write, IndentedText.append]
  split <;> rfl

/-- What has been written so far does not matter. -/
theorem written_of_text (t : IndentedText) (x : String) (p : Piece) :
    p.written { t with text := x } = p.written t := by
  cases p <;> rfl

theorem write_of_text (t : IndentedText) (x : String) (p : Piece) :
    ∃ y, p.write { t with text := x } = { p.write t with text := y } := by
  cases p with
  | text s =>
    simp only [write, IndentedText.append]
    split <;> exact ⟨_, rfl⟩
  | newline | indent | dedent => exact ⟨_, rfl⟩

end Piece

namespace Layout

theorem written_of_text (l : Layout) (t : IndentedText) (x : String) :
    written l { t with text := x } = written l t := by
  induction l generalizing t x with
  | nil => rfl
  | cons p l ih =>
    obtain ⟨y, hy⟩ := p.write_of_text t x
    rw [written, written, p.written_of_text, hy, ih]

theorem written_cons_outermost {t : IndentedText} (hLevel : t.level = 0) (s : String) (l : Layout) :
    written (.text s :: l) t = s.toList ++ written l ((Piece.text s).write t) := by
  rw [written, Piece.written_outermost hLevel]

/-- A layout that begins with a text is written in the same way at the beginning of a line
and behind another text, on the outermost level. -/
theorem written_outermost {s : String} (hs : s.isEmpty = false) (l : Layout) {t : IndentedText}
    (hLevel : t.level = 0) :
    written (.text s :: l) t = written (.text s :: l) (.ofWidth t.width) := by
  have hText : (Piece.text s).write t =
      { (Piece.text s).write (.ofWidth t.width) with text := t.text ++ t.margin ++ s } := by
    simp [Piece.write, IndentedText.append, hs, hLevel, IndentedText.ofWidth]
  rw [written_cons_outermost hLevel, written_cons_outermost rfl, hText, written_of_text]

/-- **A layout in a block.** On the outermost level it is written as it is by itself, with
the spaces of one level in front of its lines. -/
theorem Steady.written_block {s : String} {l : Layout} (h : Steady (.text s :: l))
    (hs : s.isEmpty = false) {t : IndentedText} (hLevel : t.level = 0) (opening closing : String) :
    written (block opening (.text s :: l) closing) t = opening.toList ++
      '\n' :: (addMargins t.width true (written (.text s :: l) (.ofWidth t.width)) ++
        closing.toList) := by
  -- the opening text and the line end leave the outermost level
  let t' := ((Piece.text opening).write t).newline
  have hLevel' : t'.level = 0 := (Piece.level_text t opening).trans hLevel
  have hWidth : t'.width = t.width := width_writeOn [.text opening, .newline] t
  have hEnd : (writeOn (Layout.nested (.text s :: l)) t').level = 0 :=
    (h.nested.level t').trans hLevel'
  have hBody : written (Layout.nested (.text s :: l)) t' =
      addMargins t.width true (written (.text s :: l) (.ofWidth t.width)) := by
    have hDeeper : t'.Deeper t'.indent := ⟨rfl, rfl, rfl⟩
    rw [written_nested, h.deeper hDeeper, written_outermost hs l hLevel', hWidth]
    rfl
  have hClosing : written [.text closing] (writeOn (Layout.nested (.text s :: l)) t') =
      closing.toList := by
    rw [written_cons_outermost hEnd, written, List.append_nil]
  show written (.text opening :: .newline ::
    (Layout.nested (.text s :: l) ++ [.text closing])) t = _
  rw [written_cons_outermost hLevel, written]
  show _ ++ '\n' :: written (Layout.nested (.text s :: l) ++ [.text closing]) t' = _
  rw [written_append, hBody, hClosing]

end Layout

end DocumentQuery
