import DocumentQuery.Json.Quoted
import Mathlib.Tactic.Basic

/-!
# Strings are read back as written

Main results:

* `Quoted.readFrom_escape` — one character and its escape.
* `Quoted.read_write` — a whole string, whatever follows its closing quote.
* `Quoted.write_append_inj` — hence a string and what follows it can be told from
  the text.
-/

namespace DocumentQuery.Quoted

theorem hexValue?_hexDigit : ∀ n < 16, Digits.hexValue? (Digits.hexDigit n) = some n := by
  decide

/-- The escape of a character below U+0020 that has no short one. -/
theorem escapeAt_control {c : Char} (h : c.toNat < 0x20) (rest : List Char) :
    escapeAt ('u' :: '0' :: '0' :: Digits.hexDigit (c.toNat / 16) ::
      Digits.hexDigit (c.toNat % 16) :: rest) = .char c 5 := by
  have hHigh := hexValue?_hexDigit (c.toNat / 16) (by omega)
  have hLow := hexValue?_hexDigit (c.toNat % 16) (by omega)
  have hZero : Digits.hexValue? '0' = some 0 := by decide
  have hNumber : ((0 * 16 + 0) * 16 + c.toNat / 16) * 16 + c.toNat % 16 = c.toNat := by omega
  have hTrailing : isTrailing c.toNat = false := by
    simp only [isTrailing, Bool.and_eq_false_iff, decide_eq_false_iff_not]
    omega
  have hLeading : isLeading c.toNat = false := by
    simp only [isLeading, Bool.and_eq_false_iff, decide_eq_false_iff_not]
    omega
  -- neither half of a surrogate pair
  simp only [escapeAt, fourHex, hZero, hHigh, hLow, hNumber, hTrailing, hLeading,
    Bool.false_eq_true, if_false, Char.ofNat_toNat]

theorem readFrom_escape (c : Char) (done rest : List Char) :
    readFrom 0 (some done) (escape c ++ rest) = readFrom 0 (some (c :: done)) rest := by
  unfold escape
  split
  -- characters without a short escape: control characters, and all others as they are
  case h_8 hQuote hSolidus _ _ _ _ _ =>
    split
    · rename_i hControl
      simp only [List.cons_append, List.nil_append]
      rw [readFrom, if_neg (by decide), if_pos rfl, escapeAt_control hControl]
      rfl
    · rename_i hPlain
      rw [List.singleton_append, readFrom, if_neg hQuote, if_neg hSolidus, if_neg hPlain]
      rfl
  all_goals rfl

theorem readFrom_flatMap (cs done rest : List Char) :
    readFrom 0 (some done) (cs.flatMap escape ++ '"' :: rest) =
      .ok (some (String.ofList (done.reverse ++ cs)), rest) := by
  induction cs generalizing done with
  | nil => simp [readFrom]
  | cons c cs ih =>
    rw [List.flatMap_cons, List.append_assoc, readFrom_escape, ih, List.reverse_cons,
      List.append_assoc]
    rfl

theorem write_append (s : String) (rest : List Char) :
    write s ++ rest = '"' :: (s.toList.flatMap escape ++ '"' :: rest) := by
  simp [write]

/-- A string is read back as it was written. -/
theorem read_write (s : String) (rest : List Char) :
    read (s.toList.flatMap escape ++ '"' :: rest) = .ok (some s, rest) := by
  unfold read
  rw [readFrom_flatMap, List.reverse_nil, List.nil_append, String.ofList_toList]

theorem write_append_inj {s s' : String} {rest rest' : List Char}
    (h : write s ++ rest = write s' ++ rest') : s = s' ∧ rest = rest' := by
  rw [write_append, write_append] at h
  have hRead := read_write s rest
  rw [(List.cons.inj h).2, read_write] at hRead
  cases hRead
  exact ⟨rfl, rfl⟩

end DocumentQuery.Quoted
