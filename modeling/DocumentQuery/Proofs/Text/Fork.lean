import DocumentQuery.Proofs.Outcome
import DocumentQuery.Text.Indented
import DocumentQuery.Text.Template
import Mathlib.Data.List.Forall2

/-!
# Texts that fork

Two texts fork if they agree up to a place inside a line and go on with different
characters there. Whatever stands around such texts, and however wide their lines are
indented, they stay different. Being equal is not enough for that: of two different
texts one may be the beginning of the other, and what stands behind them may make up
for it.

Main results:

* `Template.fill_sameOrFork` — a template filled with substitutions that fork.
* `Layout.ofLines_sameOrFork` — the lines of texts that fork.
* `Layout.Fork.render_ne` — layouts that fork have different texts.
-/

namespace DocumentQuery

namespace Text

/-! ## Characters -/

/-- The character neither ends a line nor can belong to the end of one. -/
abbrev InLine (c : Char) : Prop := c ≠ '\n' ∧ c ≠ '\r'

/-- Two texts agree up to a place inside a line and go on with different characters. -/
def Fork (x y : List Char) : Prop :=
  ∃ before c d after after', c ≠ d ∧ InLine c ∧ InLine d ∧
    x = before ++ c :: after ∧ y = before ++ d :: after'

def SameOrFork (x y : List Char) : Prop := x = y ∨ Fork x y

theorem SameOrFork.refl (x : List Char) : SameOrFork x x := .inl rfl

theorem Fork.symm {x y : List Char} (h : Fork x y) : Fork y x := by
  obtain ⟨before, c, d, after, after', hNe, hc, hd, hx, hy⟩ := h
  exact ⟨before, d, c, after', after, hNe.symm, hd, hc, hy, hx⟩

theorem Fork.append {x y : List Char} (h : Fork x y) (z w : List Char) :
    Fork (x ++ z) (y ++ w) := by
  obtain ⟨before, c, d, after, after', hNe, hc, hd, rfl, rfl⟩ := h
  refine ⟨before, c, d, after ++ z, after' ++ w, hNe, hc, hd, ?_, ?_⟩
  · rw [List.append_assoc, List.cons_append]
  · rw [List.append_assoc, List.cons_append]

theorem Fork.prepend {x y : List Char} (h : Fork x y) (z : List Char) : Fork (z ++ x) (z ++ y) := by
  obtain ⟨before, c, d, after, after', hNe, hc, hd, rfl, rfl⟩ := h
  refine ⟨z ++ before, c, d, after, after', hNe, hc, hd, ?_, ?_⟩
  · rw [List.append_assoc]
  · rw [List.append_assoc]

theorem SameOrFork.append {x y z w : List Char} (h : SameOrFork x y) (h' : SameOrFork z w) :
    SameOrFork (x ++ z) (y ++ w) := by
  -- once the first parts fork, the second ones do not matter
  rcases h with rfl | hFork
  · rcases h' with rfl | hFork'
    · exact .refl _
    · exact .inr (hFork'.prepend x)
  · exact .inr (hFork.append z w)

/-! ## Lines -/

/-- A character that ends no line opens the first one. -/
theorem lines_cons {c : Char} {cs : List Char} (hLine : c ≠ '\n')
    (hReturn : c = '\r' → cs.head? ≠ some '\n') : lines (c :: cs) = extendFirst c (lines cs) := by
  rw [lines]
  · exact hLine
  · rintro rest hc rfl
    exact hReturn hc rfl

/-- The lines up to a character inside a line depend on what stands before it only. -/
theorem exists_lines_append (before : List Char) : ∃ full last, ∀ c, InLine c → ∀ after,
    ∃ after' more, lines (before ++ c :: after) = full ++ (last ++ c :: after') :: more := by
  -- `full` are the lines that have ended, `last` is the one that has not
  fun_induction lines before with
  | case1 =>
    refine ⟨[], [], fun c hc after => ?_⟩
    -- nothing stands before the character, so it opens the first line
    have hLines : lines (c :: after) = extendFirst c (lines after) :=
      lines_cons hc.1 fun h => absurd h hc.2
    rw [List.nil_append, hLines]
    cases lines after with
    | nil => exact ⟨[], [], rfl⟩
    | cons line more => exact ⟨line, more, rfl⟩
  | case2 cs ih =>
    obtain ⟨full, last, ih⟩ := ih
    refine ⟨[] :: full, last, fun c hc after => ?_⟩
    obtain ⟨after', more, hLines⟩ := ih c hc after
    refine ⟨after', more, ?_⟩
    show [] :: lines (cs ++ c :: after) = _
    rw [hLines]
    rfl
  | case3 cs ih =>
    obtain ⟨full, last, ih⟩ := ih
    refine ⟨[] :: full, last, fun c hc after => ?_⟩
    obtain ⟨after', more, hLines⟩ := ih c hc after
    refine ⟨after', more, ?_⟩
    show [] :: lines (cs ++ c :: after) = _
    rw [hLines]
    rfl
  | case4 first cs hLine hReturn ih =>
    obtain ⟨full, last, ih⟩ := ih
    -- if `cs` is empty, `first` may be a carriage return, but no line feed follows it
    have hLines : ∀ c, InLine c → ∀ after, lines (first :: (cs ++ c :: after)) =
        extendFirst first (lines (cs ++ c :: after)) := by
      intro c hc after
      refine lines_cons hLine fun hFirst hHead => ?_
      cases cs with
      | nil => exact hc.1 (Option.some.inj hHead)
      | cons second rest => exact hReturn rest hFirst (by rw [Option.some.inj hHead])
    cases full with
    | nil =>
      refine ⟨[], first :: last, fun c hc after => ?_⟩
      obtain ⟨after', more, hRest⟩ := ih c hc after
      refine ⟨after', more, ?_⟩
      rw [List.cons_append, hLines c hc after, hRest]
      rfl
    | cons line full =>
      refine ⟨(first :: line) :: full, last, fun c hc after => ?_⟩
      obtain ⟨after', more, hRest⟩ := ih c hc after
      refine ⟨after', more, ?_⟩
      rw [List.cons_append, hLines c hc after, hRest]
      rfl

end Text

/-! ## Templates -/

namespace Template

/-- The substitutions are the same or fork, one by one. -/
abbrev SubstitutionsFork (xs ys : List String) : Prop :=
  List.Forall₂ (fun x y => Text.SameOrFork x.toList y.toList) xs ys

theorem SubstitutionsFork.getElem? {xs ys : List String} (h : SubstitutionsFork xs ys)
    {index : Nat} {x y : String} (hx : xs[index]? = some x) (hy : ys[index]? = some y) :
    Text.SameOrFork x.toList y.toList := by
  induction h generalizing index with
  | nil => cases hx
  | cons hHead _ ih =>
    cases index with
    | zero =>
      obtain rfl := Option.some.inj hx
      obtain rfl := Option.some.inj hy
      exact hHead
    | succ index => exact ih hx hy

theorem fillFrom_sameOrFork {xs ys : List String} (h : SubstitutionsFork xs ys) {skip : Nat}
    {cs r r' : List Char} (hr : fillFrom xs skip cs = .ok r) (hr' : fillFrom ys skip cs = .ok r') :
    Text.SameOrFork r r' := by
  induction cs generalizing skip r r' with
  | nil =>
    cases skip <;> cases hr <;> cases hr' <;> exact .refl _
  | cons c cs ih =>
    cases skip with
    | succ skip => exact ih hr hr'
    | zero =>
      unfold fillFrom at hr hr'
      split at hr
      · rename_i c' extra hMark
        rw [hMark] at hr'
        obtain ⟨rest, hRest, rfl⟩ := map_eq_ok.mp hr
        obtain ⟨rest', hRest', rfl⟩ := map_eq_ok.mp hr'
        exact (Text.SameOrFork.refl [c']).append (ih hRest hRest')
      · -- both runs look up the same place
        rename_i index extra hMark
        rw [hMark] at hr'
        dsimp only at hr'
        split at hr
        · rename_i x hx
          split at hr'
          · rename_i y hy
            obtain ⟨rest, hRest, rfl⟩ := map_eq_ok.mp hr
            obtain ⟨rest', hRest', rfl⟩ := map_eq_ok.mp hr'
            exact (h.getElem? hx hy).append (ih hRest hRest')
          · cases hr'
        · cases hr

/-- A template keeps the forks of its substitutions. -/
theorem fill_sameOrFork {template : String} {xs ys : List String} (h : SubstitutionsFork xs ys)
    {r r' : String} (hr : fill template xs = .ok r) (hr' : fill template ys = .ok r') :
    Text.SameOrFork r.toList r'.toList := by
  obtain ⟨cs, hFill, rfl⟩ := map_eq_ok.mp hr
  obtain ⟨cs', hFill', rfl⟩ := map_eq_ok.mp hr'
  rw [String.toList_ofList, String.toList_ofList]
  exact fillFrom_sameOrFork h hFill hFill'

end Template

/-! ## Layouts -/

namespace Layout

/-- Two layouts agree up to a piece with texts that fork. -/
def Fork (l l' : Layout) : Prop :=
  ∃ before x y after after', Text.Fork x y ∧
    l = before ++ .text (String.ofList x) :: after ∧
    l' = before ++ .text (String.ofList y) :: after'

theorem Fork.append {l l' : Layout} (h : Fork l l') (m m' : Layout) : Fork (l ++ m) (l' ++ m') := by
  obtain ⟨before, x, y, after, after', hText, rfl, rfl⟩ := h
  refine ⟨before, x, y, after ++ m, after' ++ m', hText, ?_, ?_⟩
  · rw [List.append_assoc, List.cons_append]
  · rw [List.append_assoc, List.cons_append]

theorem Fork.prepend {l l' : Layout} (h : Fork l l') (m : Layout) : Fork (m ++ l) (m ++ l') := by
  obtain ⟨before, x, y, after, after', hText, rfl, rfl⟩ := h
  refine ⟨m ++ before, x, y, after, after', hText, ?_, ?_⟩
  · rw [List.append_assoc]
  · rw [List.append_assoc]

theorem ofLines_of_ne_nil {s : String} (h : Text.linesOf s ≠ []) :
    ofLines s = (Text.linesOf s).flatMap fun line => [.text line, .newline] := by
  unfold ofLines
  split
  · rename_i hNil
    exact absurd hNil h
  · rfl

/-- Texts that fork do so in one of their lines. -/
theorem ofLines_fork {s s' : String} (h : Text.Fork s.toList s'.toList) :
    Fork (ofLines s) (ofLines s') := by
  obtain ⟨before, c, d, after, after', hNe, hc, hd, hs, hs'⟩ := h
  obtain ⟨full, last, hLines⟩ := Text.exists_lines_append before
  obtain ⟨rest, more, hFirst⟩ := hLines c hc after
  obtain ⟨rest', more', hSecond⟩ := hLines d hd after'
  have hLinesOf : Text.linesOf s =
      (full ++ (last ++ c :: rest) :: more).map String.ofList := by
    rw [Text.linesOf, hs, hFirst]
  have hLinesOf' : Text.linesOf s' =
      (full ++ (last ++ d :: rest') :: more').map String.ofList := by
    rw [Text.linesOf, hs', hSecond]
  rw [ofLines_of_ne_nil (by simp [hLinesOf]), ofLines_of_ne_nil (by simp [hLinesOf']), hLinesOf,
    hLinesOf']
  -- the lines before are the same, and so is the beginning of the next one
  rw [List.map_append, List.map_append, List.map_cons, List.map_cons, List.flatMap_append,
    List.flatMap_append, List.flatMap_cons, List.flatMap_cons]
  have hText : Text.Fork (last ++ c :: rest) (last ++ d :: rest') :=
    ⟨last, c, d, rest, rest', hNe, hc, hd, rfl, rfl⟩
  exact ⟨_, _, _, _, _, hText, rfl, rfl⟩

/-! ### What is written -/

theorem exists_text_write (t : IndentedText) (p : Piece) :
    ∃ more, (p.write t).text.toList = t.text.toList ++ more := by
  cases p with
  | text s =>
    by_cases hEmpty : s.isEmpty
    · exact ⟨[], by simp [Piece.write, IndentedText.append, hEmpty]⟩
    · exact ⟨t.margin.toList ++ s.toList,
        by simp [Piece.write, IndentedText.append, hEmpty, String.toList_append]⟩
  | newline => exact ⟨['\n'], by simp [Piece.write, IndentedText.newline, String.toList_append]⟩
  | indent => exact ⟨[], (List.append_nil _).symm⟩
  | dedent => exact ⟨[], (List.append_nil _).symm⟩

/-- Writing adds to a text and takes nothing away. -/
theorem exists_text_writeOn (l : Layout) (t : IndentedText) :
    ∃ more, (writeOn l t).text.toList = t.text.toList ++ more := by
  induction l generalizing t with
  | nil => exact ⟨[], (List.append_nil _).symm⟩
  | cons p l ih =>
    obtain ⟨first, hFirst⟩ := exists_text_write t p
    obtain ⟨rest, hRest⟩ := ih (p.write t)
    refine ⟨first ++ rest, ?_⟩
    show (writeOn l (p.write t)).text.toList = _
    rw [hRest, hFirst, List.append_assoc]

/-- The text of a layout up to a place inside a line depends on what stands before it
only. -/
theorem exists_render_append (width : Nat) (before : Layout) (line : List Char) : ∃ start,
    ∀ c after rest, ∃ more,
      (render width (before ++ .text (String.ofList (line ++ c :: rest)) :: after)).toList =
        start ++ c :: more := by
  -- the piece is not empty, so the margin of its line is written in any case
  let t := writeOn before (IndentedText.ofWidth width)
  refine ⟨t.text.toList ++ t.margin.toList ++ line, fun c after rest => ?_⟩
  have hNonempty : (String.ofList (line ++ c :: rest)).isEmpty = false := by
    simp [String.isEmpty_eq_false_iff]
  obtain ⟨more, hMore⟩ := exists_text_writeOn after (t.append (String.ofList (line ++ c :: rest)))
  refine ⟨rest ++ more, ?_⟩
  have hWrite : writeOn (before ++ .text (String.ofList (line ++ c :: rest)) :: after)
      (IndentedText.ofWidth width) =
      writeOn after (t.append (String.ofList (line ++ c :: rest))) := by
    simp only [writeOn, List.foldl_append, List.foldl_cons]
    rfl
  rw [render, hWrite, hMore, IndentedText.append, hNonempty]
  simp [String.toList_append, List.append_assoc]

/-- Layouts that fork have different texts. -/
theorem Fork.render_ne {l l' : Layout} (h : Fork l l') (width : Nat) :
    render width l ≠ render width l' := by
  obtain ⟨before, _, _, after, after', hText, rfl, rfl⟩ := h
  obtain ⟨line, c, d, rest, rest', hNe, -, -, rfl, rfl⟩ := hText
  -- both texts begin alike up to the characters that differ
  obtain ⟨start, hRender⟩ := exists_render_append width before line
  obtain ⟨more, hFirst⟩ := hRender c after rest
  obtain ⟨more', hSecond⟩ := hRender d after' rest'
  intro hEq
  rw [hEq, hSecond, List.append_cancel_left_eq, List.cons.injEq] at hFirst
  exact hNe hFirst.1.symm

end Layout

end DocumentQuery
