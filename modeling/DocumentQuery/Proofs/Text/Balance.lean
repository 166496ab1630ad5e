import DocumentQuery.Proofs.Text.Composition
import DocumentQuery.Proofs.Text.Fork

/-!
# Brackets in a text

A scan of a text from left to right tells strings in double quotes from what stands outside
them, and outside keeps the closing brackets that are owed, the innermost one first. A text
is well bracketed if the scan owes nothing behind it and has left all strings; a closing
bracket that is not the one owed stops the scan.

A text turns what is owed in front of it into what is owed behind it, and what is owed
beneath is not looked at. So texts that turn nothing into nothing are balanced: they can
stand anywhere outside a string.

Main definitions:

* `Text.Scan`, `Text.WellBracketed` — the scan of a text.
* `Text.Turns`, `Text.Balanced` — what a text does to a scan outside of strings.
* `Text.LinesBalanced` — texts that are balanced line by line.

Main results:

* `Text.scan_raise` — what is owed beneath.
* `Text.balanced_of_undelimited`, `Text.Within.quoted` — texts without delimiters and
  strings.
* `Text.linesBalanced_append` — a text behind another one.
* `Layout.Composed.balanced` — layouts put together from balanced texts.
-/

namespace DocumentQuery

namespace Text

/-! ## Scanning -/

/-- The characters that brackets and strings are made of. -/
def delimiters : List Char := ['(', ')', '[', ']', '{', '}', '"', '\\']

/-- A text without brackets, braces, parentheses, double quotes and backslashes. -/
def Undelimited (text : List Char) : Prop := ∀ c ∈ text, c ∉ delimiters

instance (text : List Char) : Decidable (Undelimited text) := List.decidableBAll _ text

/-- Where a scan stands. -/
inductive Mode where
  | outside
  /-- In a string in double quotes. -/
  | inside
  /-- In such a string, behind a backslash. -/
  | escaped
deriving DecidableEq, Repr

/-- A scan of a text. -/
structure Scan where
  mode : Mode := .outside
  /-- The closing brackets that are owed, the next one first. -/
  owed : List Char := []
deriving DecidableEq, Repr

/-- The bracket that closes an opening one. -/
def closing? : Char → Option Char
  | '(' => some ')'
  | '[' => some ']'
  | '{' => some '}'
  | _ => none

/-- One character. A closing bracket has to be the one that is owed. -/
def Scan.step : Scan → Char → Option Scan
  | ⟨.escaped, owed⟩, _ => some ⟨.inside, owed⟩
  | ⟨.inside, owed⟩, c =>
    some ⟨if c = '\\' then .escaped else if c = '"' then .outside else .inside, owed⟩
  | ⟨.outside, owed⟩, c =>
    match closing? c with
    | some d => some ⟨.outside, d :: owed⟩
    | none =>
      if c = '"' then some ⟨.inside, owed⟩
      else if c = ')' ∨ c = ']' ∨ c = '}' then
        if owed.head? = some c then some ⟨.outside, owed.tail⟩ else none
      else some ⟨.outside, owed⟩

/-- The scan behind a text, unless a bracket has stopped it. -/
def scan (s : Scan) (text : List Char) : Option Scan := text.foldlM Scan.step s

/-- The brackets of the text outside strings in double quotes are balanced and properly
nested, and the text ends outside any string. -/
def WellBracketed (text : String) : Prop := scan {} text.toList = some {}

instance (text : String) : Decidable (WellBracketed text) :=
  inferInstanceAs (Decidable (scan {} text.toList = some {}))

theorem scan_append (s : Scan) (text text' : List Char) :
    scan s (text ++ text') = scan s text >>= fun s' => scan s' text' :=
  List.foldlM_append

theorem scan_cons (s : Scan) (c : Char) (text : List Char) :
    scan s (c :: text) = s.step c >>= fun s' => scan s' text :=
  List.foldlM_cons

/-! ### What is owed beneath -/

/-- The scan with other brackets owed beneath its own. -/
def Scan.raise (s : Scan) (beneath : List Char) : Scan := { s with owed := s.owed ++ beneath }

theorem Scan.step_raise {s s' : Scan} {c : Char} (h : s.step c = some s') (beneath : List Char) :
    (s.raise beneath).step c = some (s'.raise beneath) := by
  obtain ⟨mode, owed⟩ := s
  cases mode with
  | escaped | inside =>
    obtain rfl := Option.some.inj h
    rfl
  | outside =>
    simp only [raise, step] at h ⊢
    cases hOpening : closing? c with
    | some d =>
      simp only [hOpening] at h ⊢
      obtain rfl := Option.some.inj h
      rfl
    | none =>
      simp only [hOpening] at h ⊢
      by_cases hQuote : c = '"'
      · rw [if_pos hQuote] at h ⊢
        obtain rfl := Option.some.inj h
        rfl
      · rw [if_neg hQuote] at h ⊢
        by_cases hClosing : c = ')' ∨ c = ']' ∨ c = '}'
        · rw [if_pos hClosing] at h ⊢
          -- the bracket that is owed stands in front of those beneath
          cases owed with
          | nil => simp at h
          | cons d owed =>
            obtain ⟨hOwed, rfl⟩ : d = c ∧ ⟨.outside, owed⟩ = s' := by simpa using h
            simp [hOwed]
        · rw [if_neg hClosing] at h ⊢
          obtain rfl := Option.some.inj h
          rfl

/-- A scan does not look at what is owed beneath. -/
theorem scan_raise {s s' : Scan} {text : List Char} (h : scan s text = some s')
    (beneath : List Char) : scan (s.raise beneath) text = some (s'.raise beneath) := by
  induction text generalizing s with
  | nil =>
    obtain rfl := Option.some.inj h
    rfl
  | cons c text ih =>
    rw [scan_cons, Option.bind_eq_bind, Option.bind_eq_some_iff] at h
    obtain ⟨next, hStep, hRest⟩ := h
    rw [scan_cons, Scan.step_raise hStep]
    exact ih hRest

/-! ## What a text owes -/

/-- Outside of strings, the text turns the closing brackets `owed` into `owed'`. -/
def Turns (owed owed' : List Char) (text : List Char) : Prop :=
  scan ⟨.outside, owed⟩ text = some ⟨.outside, owed'⟩

instance (owed owed' text : List Char) : Decidable (Turns owed owed' text) :=
  inferInstanceAs (Decidable (scan ⟨.outside, owed⟩ text = some ⟨.outside, owed'⟩))

/-- The text can stand anywhere outside of strings. -/
abbrev Balanced (text : List Char) : Prop := Turns [] [] text

variable {owed owed' owed'' text text' : List Char}

theorem balanced_nil : Balanced [] := rfl

theorem Turns.append (h : Turns owed owed' text) (h' : Turns owed' owed'' text') :
    Turns owed owed'' (text ++ text') := by
  rw [Turns, scan_append, h]
  exact h'

/-- A balanced text leaves what is owed as it is. -/
theorem Balanced.turns (h : Balanced text) (owed : List Char) : Turns owed owed text :=
  scan_raise h owed

theorem Balanced.append (h : Balanced text) (h' : Turns owed owed' text') :
    Turns owed owed' (text ++ text') :=
  (h.turns owed).append h'

/-- A bracket in front of a text that closes it. -/
theorem Turns.cons_opening {c d : Char} (hc : closing? c = some d) (h : Turns [d] [] text) :
    Balanced (c :: text) := by
  have hStep : Scan.step {} c = some ⟨.outside, [d]⟩ := by simp only [Scan.step, hc]
  rw [Balanced, Turns, scan_cons, hStep]
  exact h

theorem Undelimited.append (h : Undelimited text) (h' : Undelimited text') :
    Undelimited (text ++ text') :=
  List.forall_mem_append.mpr ⟨h, h'⟩

/-- A character without a role leaves the scan outside as it is. -/
theorem step_outside {c : Char} (hc : c ∉ delimiters) (owed : List Char) :
    Scan.step ⟨.outside, owed⟩ c = some ⟨.outside, owed⟩ := by
  simp only [delimiters, List.mem_cons, List.not_mem_nil, or_false, not_or] at hc
  have hOpening : closing? c = none := by
    unfold closing?
    split <;> simp_all
  simp [Scan.step, hOpening, hc]

theorem Turns.cons_plain {c : Char} (hc : c ∉ delimiters) (h : Turns owed owed' text) :
    Turns owed owed' (c :: text) := by
  rw [Turns, scan_cons, step_outside hc]
  exact h

/-- A text without delimiters owes nothing. -/
theorem balanced_of_undelimited (h : Undelimited text) : Balanced text := by
  induction text with
  | nil => exact balanced_nil
  | cons c text ih =>
    obtain ⟨hc, hText⟩ := List.forall_mem_cons.mp h
    exact (ih hText).cons_plain hc

/-! ### Strings -/

/-- Inside a string, the text stays there. -/
def Within (text : List Char) : Prop := scan ⟨.inside, []⟩ text = some ⟨.inside, []⟩

theorem within_nil : Within [] := rfl

theorem Within.append (h : Within text) (h' : Within text') : Within (text ++ text') := by
  rw [Within, scan_append, h]
  exact h'

theorem Within.cons {c : Char} (hQuote : c ≠ '"') (hEscape : c ≠ '\\') (h : Within text) :
    Within (c :: text) := by
  have hStep : Scan.step ⟨.inside, []⟩ c = some ⟨.inside, []⟩ := by
    simp [Scan.step, hQuote, hEscape]
  rw [Within, scan_cons, hStep]
  exact h

/-- A character behind a backslash, whatever it is. -/
theorem Within.cons_escaped (h : Within text) (c : Char) : Within ('\\' :: c :: text) := h

theorem within_of_undelimited (h : Undelimited text) : Within text := by
  induction text with
  | nil => exact within_nil
  | cons c text ih =>
    obtain ⟨hc, hText⟩ := List.forall_mem_cons.mp h
    refine (ih hText).cons ?_ ?_
    · rintro rfl
      exact hc (by decide)
    · rintro rfl
      exact hc (by decide)

/-- A string between its quotes is balanced. -/
theorem Within.quoted (h : Within text) : Balanced ('"' :: text ++ ['"']) := by
  show scan ⟨.inside, []⟩ (text ++ ['"']) = some {}
  rw [scan_append, h]
  rfl

/-! ## Texts line by line -/

/-- Every line of the text is balanced. -/
def LinesBalanced (text : List Char) : Prop := ∀ line ∈ lines text, Balanced line

theorem linesBalanced_nil : LinesBalanced [] := nofun

/-- A text on one line comes in front of the first line of the text behind it. -/
theorem lines_append (hLine : ∀ c ∈ text, InLine c) (text' : List Char) :
    lines (text ++ text') = text.foldr extendFirst (lines text') := by
  induction text with
  | nil => rfl
  | cons c text ih =>
    obtain ⟨hc, hText⟩ := List.forall_mem_cons.mp hLine
    rw [List.cons_append, lines_cons hc.1 fun hReturn => absurd hReturn hc.2, ih hText]
    rfl

theorem foldr_extendFirst (hNe : text ≠ []) (ls : List (List Char)) :
    text.foldr extendFirst ls = (text ++ ls.headD []) :: ls.tail := by
  induction text with
  | nil => exact absurd rfl hNe
  | cons c text ih =>
    by_cases hText : text = []
    · subst hText
      cases ls <;> rfl
    · rw [List.foldr_cons, ih hText]
      rfl

/-- A balanced text on one line in front of a text that is balanced line by line. -/
theorem LinesBalanced.append_line (h : Balanced text) (hLine : ∀ c ∈ text, InLine c)
    (h' : LinesBalanced text') : LinesBalanced (text ++ text') := by
  by_cases hNe : text = []
  · rw [hNe]
    exact h'
  · unfold LinesBalanced at h' ⊢
    rw [lines_append hLine, foldr_extendFirst hNe]
    cases hLines : lines text' with
    | nil =>
      rw [List.headD_nil, List.append_nil]
      exact List.forall_mem_singleton.mpr h
    | cons line rest =>
      rw [hLines, List.forall_mem_cons] at h'
      exact List.forall_mem_cons.mpr ⟨h.append h'.1, h'.2⟩

/-- A character without a role, in front of a text that is balanced line by line. It may
end a line, or be a carriage return that goes with the line feed behind it. -/
theorem LinesBalanced.cons {c : Char} (hc : c ∉ delimiters) (h : LinesBalanced text) :
    LinesBalanced (c :: text) := by
  unfold LinesBalanced at h ⊢
  by_cases hFeed : c = '\n'
  · rw [hFeed, lines]
    exact List.forall_mem_cons.mpr ⟨balanced_nil, h⟩
  · by_cases hReturn : c = '\r' ∧ text.head? = some '\n'
    · -- the line feed has ended an empty line already
      obtain ⟨rfl, hHead⟩ := hReturn
      obtain ⟨rest, rfl⟩ := List.head?_eq_some_iff.mp hHead
      have hLines : lines ('\r' :: '\n' :: rest) = lines ('\n' :: rest) := by rw [lines, lines]
      rwa [hLines]
    · rw [lines_cons hFeed fun hr hHead => hReturn ⟨hr, hHead⟩]
      cases hLines : lines text with
      | nil =>
        exact List.forall_mem_singleton.mpr (balanced_nil.cons_plain hc)
      | cons line rest =>
        rw [hLines, List.forall_mem_cons] at h
        exact List.forall_mem_cons.mpr ⟨h.1.cons_plain hc, h.2⟩

/-- A text that can be set in front of others: without delimiters it may have any number of
lines, with delimiters it stands on one line and is balanced. -/
def SetsIn (text : List Char) : Prop :=
  Undelimited text ∨ (Balanced text ∧ ∀ c ∈ text, InLine c)

theorem linesBalanced_append (h : SetsIn text) (h' : LinesBalanced text') :
    LinesBalanced (text ++ text') := by
  rcases h with hPlain | ⟨hBalanced, hLine⟩
  · induction text with
    | nil => exact h'
    | cons c text ih =>
      obtain ⟨hc, hText⟩ := List.forall_mem_cons.mp hPlain
      exact (ih hText).cons hc
  · exact h'.append_line hBalanced hLine

theorem linesBalanced_flatMap {texts : List String} (h : ∀ text ∈ texts, SetsIn text.toList) :
    LinesBalanced (texts.flatMap String.toList) := by
  induction texts with
  | nil => exact linesBalanced_nil
  | cons text texts ih =>
    obtain ⟨hText, hRest⟩ := List.forall_mem_cons.mp h
    rw [List.flatMap_cons]
    exact linesBalanced_append hText (ih hRest)

end Text

open Text

/-! ## Layouts -/

namespace Layout

theorem balanced_margin (t : IndentedText) : Text.Balanced t.margin.toList := by
  refine balanced_of_undelimited fun c hc hDelimiter => ?_
  have hNe : c ≠ ' ' := by
    rintro rfl
    exact absurd hDelimiter (by decide)
  exact t.not_mem_margin hNe hc

/-- A text owes the same wherever it is written. -/
theorem turns_text {owed owed' : List Char} {s : String} (h : Turns owed owed' s.toList)
    (t : IndentedText) : Turns owed owed' (Piece.written t (.text s)) := by
  by_cases hEmpty : s.isEmpty = true
  · rw [Piece.written, if_pos hEmpty]
    rwa [String.isEmpty_iff.mp hEmpty] at h
  · rw [Piece.written, if_neg hEmpty]
    exact (balanced_margin t).append h

/-- Wherever the layout is written, what is written is balanced. -/
def Balanced (l : Layout) : Prop := ∀ t, Text.Balanced (written l t)

theorem Balanced.append {l l' : Layout} (h : Balanced l) (h' : Balanced l') :
    Balanced (l ++ l') := by
  intro t
  rw [written_append]
  exact Turns.append (h t) (h' _)

/-- Two texts of which the second closes the bracket that the first opens. -/
def BracketPair (opening closing : String) : Prop :=
  ∃ d ∈ delimiters, Turns [] [d] opening.toList ∧ Turns [d] [] closing.toList

instance (opening closing : String) : Decidable (BracketPair opening closing) :=
  List.decidableBEx _ delimiters

/-- The texts of a layout are balanced, but for pairs of brackets around parts of it. -/
abbrev Paired : Layout → Prop := Composed (fun s => Text.Balanced s.toList) BracketPair

/-- A layout of balanced texts, enclosed in pairs of brackets, is balanced. -/
theorem Composed.balanced {l : Layout} (h : Paired l) : Balanced l := by
  -- induction on how the layout is put together; only an enclosing pair owes anything, and
  -- what it encloses leaves that as it is
  induction h with
  | nil => exact fun _ => balanced_nil
  | text hs =>
    intro t
    rw [written, written, List.append_nil]
    exact turns_text hs t
  | newline =>
    have hFeed : Text.Balanced ['\n'] := balanced_of_undelimited (by decide)
    exact fun _ => hFeed
  | nested _ ih =>
    intro t
    rw [written_nested]
    exact ih t.indent
  | @enclosed opening closing body hPair _ ih =>
    obtain ⟨d, -, hOpening, hClosing⟩ := hPair
    intro t
    rw [List.cons_append, written, written_append, written, written, List.append_nil]
    exact (turns_text hOpening t).append ((ih _).append (turns_text hClosing _))
  | append _ _ ih ih' => exact ih.append ih'

/-- The text of a balanced layout is well bracketed. -/
theorem Balanced.render {l : Layout} (h : Balanced l) (width : Nat) :
    WellBracketed (l.render width) := by
  rw [WellBracketed, toList_render]
  exact h _

/-- Brackets in a string do not count; those outside have to match, and strings have to end. -/
example : WellBracketed "a[\"(\\\"]\"]" ∧ ¬WellBracketed "([)]" ∧ ¬WellBracketed "f(\")" := by
  decide

end Layout

end DocumentQuery
