import DocumentQuery.Proofs.Json.Graphic
import DocumentQuery.Proofs.Text.Balance

/-!
# Brackets in documents

Brackets and quotes that are characters of a string are told apart from those of the
document around it, so a document that is written without blanks is balanced whatever its
strings hold.

Main results:

* `Quoted.balanced_write` — strings.
* `Json.balanced_write` — documents.
-/

namespace DocumentQuery

open Text

theorem AllNumeric.undelimited {text : List Char} (h : AllNumeric text) : Undelimited text := by
  have hNone : delimiters.all (fun c => !isNumeric c) = true := by decide
  intro c hc hDelimiter
  have hPlain := List.all_eq_true.mp hNone c hDelimiter
  rw [h c hc] at hPlain
  cases hPlain

namespace Quoted

theorem hexDigit_ne : ∀ n < 16, Digits.hexDigit n ≠ '"' ∧ Digits.hexDigit n ≠ '\\' := by decide

/-- What stands for a character of a string does not end the string. -/
theorem within_escape (c : Char) : Within (escape c) := by
  unfold escape
  split
  -- control characters without a short escape, and all other characters as they are
  case h_8 hQuote hSlash _ _ _ _ _ =>
    split
    · obtain ⟨hHigh, hHigh'⟩ := hexDigit_ne (c.toNat / 16) (by omega)
      obtain ⟨hLow, hLow'⟩ := hexDigit_ne (c.toNat % 16) (by omega)
      have hDigits := (within_nil.cons hLow hLow').cons hHigh hHigh'
      exact ((hDigits.cons (by decide) (by decide)).cons (by decide) (by decide)).cons_escaped 'u'
    · exact within_nil.cons hQuote hSlash
  all_goals exact within_nil.cons_escaped _

theorem balanced_write (s : String) : Balanced (write s) := by
  refine Within.quoted ?_
  induction s.toList with
  | nil => exact within_nil
  | cons c cs ih =>
    rw [List.flatMap_cons]
    exact (within_escape c).append ih

end Quoted

namespace Json

theorem balanced_writeLeaf (j : Json) : Balanced j.writeLeaf := by
  have hNull : Balanced writeNull := balanced_of_undelimited (by decide)
  cases j with
  | bool b => cases b <;> exact balanced_of_undelimited (by decide)
  | int n => exact balanced_of_undelimited (Digits.allNumeric_writeInt n).undelimited
  | real x => exact balanced_of_undelimited (NumberStyle.allNumeric_write x).undelimited
  | str s => exact Quoted.balanced_write s
  | _ => exact hNull

/-- A member of an object, in front of those behind it. -/
theorem turns_member {owed : List Char} {key : String} {value rest : List Char}
    (hValue : Balanced value) (hRest : Turns owed [] rest) :
    Turns owed [] (Quoted.write key ++ ':' :: value ++ rest) := by
  have hMember : Balanced (Quoted.write key ++ ':' :: value) :=
    (Quoted.balanced_write key).append (hValue.cons_plain (by decide))
  exact hMember.append hRest

mutual

/-- A document without blanks is balanced. -/
theorem balanced_write : ∀ j : Json, Balanced j.write
  | .arr items => (turns_writeItems items).cons_opening rfl
  | .obj members => (turns_writeMembers members).cons_opening rfl
  | .torn members _ => (turns_writeMembers members).cons_opening rfl
  | .null => balanced_writeLeaf .null
  | .bool b => balanced_writeLeaf (.bool b)
  | .int n => balanced_writeLeaf (.int n)
  | .real x => balanced_writeLeaf (.real x)
  | .str s => balanced_writeLeaf (.str s)
  | .broken f => balanced_writeLeaf (.broken f)
  | .unfit => balanced_writeLeaf .unfit
  | .unkeyed members f => balanced_writeLeaf (.unkeyed members f)
termination_by structural j => j

/-- Items close the bracket of their array. -/
theorem turns_writeItems : ∀ js : List Json, Turns [']'] [] (writeItems js)
  | [] => rfl
  | j :: js => j.balanced_write.append (turns_writeItemsTail js)
termination_by structural js => js

theorem turns_writeItemsTail : ∀ js : List Json, Turns [']'] [] (writeItemsTail js)
  | [] => rfl
  | j :: js => (j.balanced_write.append (turns_writeItemsTail js)).cons_plain (by decide)
termination_by structural js => js

/-- Members close the brace of their object. -/
theorem turns_writeMembers : ∀ ms : List (String × Json), Turns ['}'] [] (writeMembers ms)
  | [] => rfl
  | (_, j) :: ms => turns_member j.balanced_write (turns_writeMembersTail ms)
termination_by structural ms => ms

theorem turns_writeMembersTail : ∀ ms : List (String × Json), Turns ['}'] [] (writeMembersTail ms)
  | [] => rfl
  | (_, j) :: ms =>
    (turns_member j.balanced_write (turns_writeMembersTail ms)).cons_plain (by decide)
termination_by structural ms => ms

end

end Json

end DocumentQuery
