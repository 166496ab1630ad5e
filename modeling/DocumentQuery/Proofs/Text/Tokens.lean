import DocumentQuery.Proofs.Number.Digits
import DocumentQuery.Proofs.Text.Placeholders

/-!
# Tokens of a text

A reader that knows nothing of trees cuts a text into brackets, commas, quoted names,
words and line ends; blanks and margins are left out. Operators are words of their own
kind of characters, and a minus sign belongs to the digits behind it.

The tokens of the text of a layout can be told from its pieces as long as no word is
continued by the piece behind it, which is what `Layout.Stops` says.

Main results:

* `Text.tokens` — the tokens of a text.
* `Layout.Takes` — from which state to which other one a layout takes a reader that
  goes over the tokens one by one.
* `Layout.Takes.append`, `Layout.Takes.block` — layouts that are put together.
* `Layout.Takes.render` — where the whole text takes the reader.
-/

namespace DocumentQuery

namespace Text

inductive Token where
  | opening (square : Bool)
  | closing (square : Bool)
  | comma
  | lineEnd
  /-- A name, a keyword, an integer or an operator. -/
  | word (s : String)
  /-- What stands between quotation marks. -/
  | quoted (s : String)
deriving DecidableEq, Repr

/-- What operators consist of. -/
def isOperator (c : Char) : Bool :=
  !(isWord c || ['(', ')', '[', ']', ',', '"', ' ', '\n'].contains c)

/-- What a word goes on with, told by its first character. -/
def continues (c : Char) : Char → Bool := if isWord c || c == '-' then isWord else isOperator

/-- The token that begins with a character, and how many of the characters behind it
belong to the token. -/
def tokenAt (c : Char) (cs : List Char) : Option Token × Nat :=
  match c with
  | ' ' => (none, 0)
  | '\n' => (some .lineEnd, 0)
  | '(' => (some (.opening false), 0)
  | '[' => (some (.opening true), 0)
  | ')' => (some (.closing false), 0)
  | ']' => (some (.closing true), 0)
  | ',' => (some .comma, 0)
  | '"' =>
    let s := cs.takeWhile (· != '"')
    (some (.quoted (String.ofList s)), s.length + 1)
  | c =>
    let s := cs.takeWhile (continues c)
    (some (.word (String.ofList (c :: s))), s.length)

/-- The tokens after `skip` characters that an earlier token accounts for. -/
def tokensFrom : Nat → List Char → List Token
  | _, [] => []
  | skip + 1, _ :: cs => tokensFrom skip cs
  | 0, c :: cs => (tokenAt c cs).1.toList ++ tokensFrom (tokenAt c cs).2 cs

/-- The tokens of a text from left to right. -/
def tokens (cs : List Char) : List Token := tokensFrom 0 cs

theorem tokensFrom_append (skipped rest : List Char) :
    tokensFrom skipped.length (skipped ++ rest) = tokens rest := by
  induction skipped with
  | nil => rfl
  | cons c skipped ih => exact ih

theorem tokens_spaces (count : Nat) (rest : List Char) :
    tokens ((IndentedText.spaces count).toList ++ rest) = tokens rest := by
  rw [IndentedText.spaces, String.toList_ofList]
  induction count with
  | zero => rfl
  | succ count ih => exact ih

/-! ## Words -/

/-- Letters, digits and underscores, which a minus sign may stand before. -/
structure IsToken (s : String) : Prop where
  first : ∃ c ∈ s.toList.head?, isWord c = true ∨ c = '-'
  others : ∀ c ∈ s.toList.tail, isWord c = true

theorem tokenAt_word {c : Char} (h : isWord c = true ∨ c = '-') (cs : List Char) :
    tokenAt c cs =
      (some (.word (String.ofList (c :: cs.takeWhile isWord))), (cs.takeWhile isWord).length) := by
  have hContinues : continues c = isWord := by
    unfold continues
    rcases h with h | rfl
    · simp [h]
    · rfl
  unfold tokenAt
  split <;> first
    | rw [hContinues]
    | exact absurd h (by decide)

/-- A word that is stopped. -/
theorem tokens_word {s : String} (h : IsToken s) {rest : List Char} (hRest : Stops rest) :
    tokens (s.toList ++ rest) = .word s :: tokens rest := by
  obtain ⟨⟨c, hc, hFirst⟩, hOthers⟩ := h
  obtain ⟨cs, hs⟩ := List.head?_eq_some_iff.mp hc
  rw [hs] at hOthers
  -- what follows stops the run where the word ends
  have hRun : (cs ++ rest).takeWhile isWord = cs := takeWhile_isWord hOthers hRest
  have hText : String.ofList (c :: cs) = s := by rw [← hs, String.ofList_toList]
  rw [hs, List.cons_append, tokens, tokensFrom, tokenAt_word hFirst, hRun, hText,
    tokensFrom_append]
  rfl

/-- A text in quotation marks, which holds none itself. -/
theorem tokens_quoted {s : List Char} (h : '"' ∉ s) (rest : List Char) :
    tokens ('"' :: (s ++ '"' :: rest)) = .quoted (String.ofList s) :: tokens rest := by
  have hPass : ∀ c ∈ s, (c != '"') = true := by
    intro c hc
    rw [bne_iff_ne]
    rintro rfl
    exact h hc
  have hRun : (s ++ '"' :: rest).takeWhile (· != '"') = s := by
    rw [List.takeWhile_append_of_pos hPass, List.takeWhile_cons_of_neg (by simp),
      List.append_nil]
  have hAt : tokenAt '"' (s ++ '"' :: rest) =
      (some (.quoted (String.ofList s)), (s ++ ['"']).length) := by
    simp only [tokenAt, hRun, List.length_append, List.length_singleton]
  rw [tokens, tokensFrom, hAt, List.append_cons s '"' rest]
  exact congrArg _ (tokensFrom_append _ rest)

/-! ### Names and integers -/

/-- A name of letters, digits and underscores that does not begin with a digit. -/
structure IsIdentifier (name : String) : Prop where
  isName : IsName name
  first : ∀ c ∈ name.toList.head?, c.isDigit = false

theorem isIdentifier_iff {name : String} :
    IsIdentifier name ↔ IsName name ∧ name.toList.head?.all (fun c => !c.isDigit) = true := by
  simp only [Option.all_eq_true, Bool.not_eq_true']
  exact ⟨fun h => ⟨h.isName, h.first⟩, fun h => ⟨h.1, h.2⟩⟩

instance (name : String) : Decidable (IsIdentifier name) := decidable_of_iff' _ isIdentifier_iff

theorem IsName.isToken {name : String} (h : IsName name) : IsToken name := by
  obtain ⟨hNonempty, hAll⟩ := h
  cases hName : name.toList with
  | nil => exact absurd (String.toList_eq_nil_iff.mp hName) hNonempty
  | cons c cs =>
    rw [hName] at hAll
    obtain ⟨hFirst, hOthers⟩ := List.forall_mem_cons.mp hAll
    exact ⟨⟨c, by rw [hName]; rfl, .inl hFirst⟩, by rwa [hName]⟩

theorem isToken_writeInt (n : Int) : IsToken (String.ofList (Digits.writeInt n)) := by
  have hWord : ∀ c ∈ Digits.write n.natAbs, isWord c = true := by
    intro c hc
    simp [isWord, Char.isAlphanum, Digits.isDigit_of_mem_write hc]
  unfold Digits.writeInt
  split
  · refine ⟨⟨'-', ?_, .inr rfl⟩, ?_⟩
    · rw [String.toList_ofList]
      rfl
    · rw [String.toList_ofList]
      exact hWord
  · refine IsName.isToken ⟨?_, ?_⟩
    · intro hEmpty
      exact Digits.write_ne_nil n.natAbs (String.ofList_eq_empty_iff.mp hEmpty)
    · rwa [String.toList_ofList]

/-- The integer that a word denotes. -/
def integer? (s : String) : Option Int :=
  match s.toList with
  | '-' :: digits => (Digits.word? digits).map fun n => -Int.ofNat n
  | digits => (Digits.word? digits).map Int.ofNat

theorem word?_write {n : Nat} (h : n < twoTo 64) : Digits.word? (Digits.write n) = some n :=
  Digits.word?_eq_some_iff.mpr
    ⟨Digits.write_ne_nil n, fun _ => Digits.isDigit_of_mem_write, Digits.value_write n, h⟩

/-- No minus sign stands before the digits of a natural number. -/
theorem integer?_digits {s : String} {c : Char} {cs : List Char} (hs : s.toList = c :: cs)
    (hc : isWord c = true) :
    integer? s = (Digits.word? s.toList).map Int.ofNat := by
  unfold integer?
  split
  · rename_i digits hMinus
    rw [hs] at hMinus
    obtain ⟨rfl, -⟩ := List.cons.inj hMinus
    exact absurd hc (by decide)
  · rfl

theorem integer?_writeInt (n : Int64) :
    integer? (String.ofList (Digits.writeInt n.toInt)) = some n.toInt := by
  -- the digits of a 64-bit integer denote a number that is read back whole
  have hLower := n.le_toInt
  have hUpper := n.toInt_lt
  have hBound : n.toInt.natAbs < twoTo 64 := by
    show n.toInt.natAbs < 2 ^ 64
    omega
  have hWord := word?_write hBound
  unfold Digits.writeInt
  split
  · simp only [integer?, String.toList_ofList, hWord, Option.map_some, Option.some.injEq,
      Int.ofNat_eq_natCast]
    omega
  · cases hDigits : Digits.write n.toInt.natAbs with
    | nil => exact absurd hDigits (Digits.write_ne_nil _)
    | cons c cs =>
      have hDigit : c.isDigit = true :=
        Digits.isDigit_of_mem_write (by rw [hDigits]; exact List.mem_cons_self)
      rw [integer?_digits (String.toList_ofList) (by simp [isWord, Char.isAlphanum, hDigit]),
        String.toList_ofList, ← hDigits, hWord, Option.map_some, Option.some.injEq,
        Int.ofNat_eq_natCast]
      omega

/-- A name does not denote an integer. -/
theorem IsIdentifier.integer?_eq_none {name : String} (h : IsIdentifier name) :
    integer? name = none := by
  obtain ⟨⟨hNonempty, hAll⟩, hFirst⟩ := h
  cases hName : name.toList with
  | nil => exact absurd (String.toList_eq_nil_iff.mp hName) hNonempty
  | cons c cs =>
    rw [hName] at hAll hFirst
    have hDigit : c.isDigit = false := hFirst c rfl
    rw [integer?_digits hName (hAll c List.mem_cons_self), hName, Digits.word?,
      if_neg (by simp [hDigit])]
    rfl

end Text

open Text

/-! ## Layouts before a reader -/

/-- The text is read as these tokens, whatever follows. -/
def Spells (s : String) (ts : List Token) : Prop :=
  ∀ rest, tokens (s.toList ++ rest) = ts ++ tokens rest

/-- The text is read as these tokens, provided that what follows stops the last word. -/
def SpellsIfStopped (s : String) (ts : List Token) : Prop :=
  ∀ rest, Stops rest → tokens (s.toList ++ rest) = ts ++ tokens rest

theorem Text.IsToken.spells {s : String} (h : IsToken s) : SpellsIfStopped s [.word s] :=
  fun _ hRest => tokens_word h hRest

theorem spells_comma : Spells ", " [.comma] := fun _ => rfl

theorem spells_opening : Spells "(" [.opening false] := fun _ => rfl

theorem spells_closing : Spells ")" [.closing false] := fun _ => rfl

namespace Layout

variable {σ : Type} {step : σ → Token → σ} {a b c : σ} {l l' : Layout}

/-- Whatever the text so far, a reader that goes over the tokens one by one comes with
the layout from one state to another, provided that what follows stops the last
word. -/
def Takes (step : σ → Token → σ) (a b : σ) (l : Layout) : Prop :=
  ∀ t rest, Text.Stops rest →
    (tokens (written l t ++ rest)).foldl step a = (tokens rest).foldl step b

theorem takes_nil : Takes step a a [] := fun _ _ _ => rfl

theorem Takes.append (h : Takes step a b l) (h' : Takes step b c l') (hStops : Stops l') :
    Takes step a c (l ++ l') := by
  intro t rest hRest
  rw [written_append, List.append_assoc, h t _ (hStops _ rest hRest), h' _ rest hRest]

theorem tokens_margin (t : IndentedText) (rest : List Char) :
    tokens (t.margin.toList ++ rest) = tokens rest := by
  unfold IndentedText.margin
  split
  · exact tokens_spaces _ rest
  · rfl

/-- Margins go unnoticed. -/
theorem tokens_text (t : IndentedText) (s : String) (rest : List Char) :
    tokens (Piece.written t (.text s) ++ rest) = tokens (s.toList ++ rest) := by
  by_cases hEmpty : s.isEmpty = true
  · rw [String.isEmpty_iff.mp hEmpty]
    rfl
  · rw [Piece.written, if_neg hEmpty, List.append_assoc, tokens_margin]

theorem Takes.text_cons {s : String} {ts : List Token} (hs : Spells s ts)
    (hStep : ts.foldl step a = b) (h : Takes step b c l) : Takes step a c (.text s :: l) := by
  intro t rest hRest
  rw [written, List.append_assoc, tokens_text, hs, List.foldl_append, hStep]
  exact h _ rest hRest

theorem Takes.word_cons {s : String} {ts : List Token} (hs : SpellsIfStopped s ts)
    (hStep : ts.foldl step a = b) (h : Takes step b c l) (hStops : Stops l) :
    Takes step a c (.text s :: l) := by
  intro t rest hRest
  rw [written, List.append_assoc, tokens_text, hs _ (hStops _ rest hRest), List.foldl_append,
    hStep]
  exact h _ rest hRest

/-- Two texts on one line, without anything between them. -/
theorem Takes.texts_cons {s s' : String} {ts : List Token} (hFirst : s ≠ "")
    (hs : Spells (s ++ s') ts) (hStep : ts.foldl step a = b) (h : Takes step b c l) :
    Takes step a c (.text s :: .text s' :: l) := by
  intro t rest hRest
  -- the first text has begun the line, so that the second one gets no margin
  have hLine : (t.append s).margin = "" := by
    unfold IndentedText.append
    rw [if_neg (by rwa [String.isEmpty_iff])]
    rfl
  have hWritten : written (.text s :: .text s' :: l) t ++ rest =
      Piece.written t (.text s) ++ (s'.toList ++
        (written l (Piece.write (Piece.write t (.text s)) (.text s')) ++ rest)) := by
    have hSecond : Piece.written (Piece.write t (.text s)) (.text s') = s'.toList := by
      by_cases hEmpty : s'.isEmpty = true
      · rw [String.isEmpty_iff.mp hEmpty]
        rfl
      · rw [Piece.written, if_neg hEmpty, Piece.write, hLine]
        rfl
    rw [written, written, hSecond, List.append_assoc, List.append_assoc]
  rw [hWritten, tokens_text, ← List.append_assoc, ← String.toList_append, hs, List.foldl_append,
    hStep]
  exact h _ rest hRest

theorem Takes.concat_text (h : Takes step a b l) {s : String} {ts : List Token}
    (hs : Spells s ts) (hStep : ts.foldl step b = c) {d : Char}
    (hHead : s.toList.head? = some d) (hd : isWord d = false) :
    Takes step a c (l ++ [.text s]) :=
  h.append (takes_nil.text_cons hs hStep) (stops_text hHead hd [])

theorem Takes.newline_cons (hStep : step a .lineEnd = b) (h : Takes step b c l) :
    Takes step a c (.newline :: l) := by
  intro t rest hRest
  have hRest := h t.newline rest hRest
  rw [← hStep] at hRest
  rw [written, List.append_assoc]
  exact hRest

/-- The levels of a block are not seen. -/
theorem Takes.block {opening closing : String} {ts ts' : List Token} {a' b' : σ}
    (hOpening : Spells opening ts) (hOpen : (ts ++ [Token.lineEnd]).foldl step a = a')
    (h : Takes step a' b' l) (hClosing : Spells closing ts') (hClose : ts'.foldl step b' = b)
    {d : Char} (hHead : closing.toList.head? = some d) (hd : isWord d = false) :
    Takes step a b (Layout.block opening l closing) := by
  -- a change of levels writes nothing by itself
  have hIndent : Takes step a' b' (.indent :: l) := fun _ => h _
  have hDedent : Takes step b' b' [.dedent] := fun _ _ _ => rfl
  have hNested := hIndent.append hDedent (stops_dedent stops_nil)
  rw [List.foldl_append] at hOpen
  exact ((hNested.newline_cons hOpen).text_cons hOpening rfl).concat_text hClosing hClose hHead hd

theorem separated_cons (separator l l' : Layout) (ls : List Layout) :
    separated separator (l :: l' :: ls) = l ++ separator ++ separated separator (l' :: ls) := rfl

theorem Takes.render (h : Takes step a b l) (width : Nat) :
    (tokens (Layout.render width l).toList).foldl step a = b := by
  have hText := h (.ofWidth width) [] Text.stops_nil
  rwa [List.append_nil, ← toList_render] at hText

end Layout

end DocumentQuery
