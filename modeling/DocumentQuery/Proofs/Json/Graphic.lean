import DocumentQuery.Proofs.Json.Printer

/-!
# Documents on one line

A document that is written without blanks holds no control characters: those of its
strings are escaped. So it stands on one line wherever it is put.

Main results:

* `Quoted.graphic_write` — strings.
* `Json.graphic_write` — documents.
-/

namespace DocumentQuery

/-- A text without control characters. -/
def Graphic (text : List Char) : Prop := ∀ c ∈ text, 0x20 ≤ c.toNat

instance (text : List Char) : Decidable (Graphic text) := List.decidableBAll _ text

theorem graphic_nil : Graphic [] := nofun

theorem Graphic.cons {c : Char} {text : List Char} (hc : 0x20 ≤ c.toNat) (h : Graphic text) :
    Graphic (c :: text) :=
  List.forall_mem_cons.mpr ⟨hc, h⟩

theorem Graphic.append {text text' : List Char} (h : Graphic text) (h' : Graphic text') :
    Graphic (text ++ text') :=
  List.forall_mem_append.mpr ⟨h, h'⟩

theorem Graphic.newline_not_mem {text : List Char} (h : Graphic text) : '\n' ∉ text := by
  intro hMem
  exact absurd (h '\n' hMem) (by decide)

theorem AllNumeric.graphic {text : List Char} (h : AllNumeric text) : Graphic text := by
  intro c hc
  have hNumeric := h c hc
  simp only [isNumeric, Bool.or_eq_true, beq_iff_eq] at hNumeric
  obtain (((hDigit | rfl) | rfl) | rfl) | rfl := hNumeric
  · -- digits begin at U+0030
    simp only [Char.isDigit, Bool.and_eq_true, decide_eq_true_eq] at hDigit
    have hZero : 48 ≤ c.toNat := hDigit.1
    omega
  all_goals decide

namespace Quoted

theorem graphic_hexDigit : ∀ n < 16, 0x20 ≤ (Digits.hexDigit n).toNat := by decide

theorem graphic_escape (c : Char) : Graphic (escape c) := by
  unfold escape
  split
  -- control characters without a short escape, and all other characters as they are
  case h_8 =>
    split
    · rename_i hControl
      have hHigh := graphic_hexDigit (c.toNat / 16) (by omega)
      have hLow := graphic_hexDigit (c.toNat % 16) (by omega)
      have hDigits : Graphic [Digits.hexDigit (c.toNat / 16), Digits.hexDigit (c.toNat % 16)] :=
        (graphic_nil.cons hLow).cons hHigh
      exact (((hDigits.cons (by decide)).cons (by decide)).cons (by decide)).cons (by decide)
    · rename_i hPlain
      exact graphic_nil.cons (Nat.le_of_not_lt hPlain)
  all_goals decide

theorem graphic_write (s : String) : Graphic (write s) := by
  have hEscaped : Graphic (s.toList.flatMap escape) := by
    intro c hc
    obtain ⟨d, -, hMem⟩ := List.mem_flatMap.mp hc
    exact graphic_escape d c hMem
  exact (hEscaped.cons (by decide)).append (graphic_nil.cons (by decide))

end Quoted

namespace Json

theorem graphic_writeLeaf (j : Json) : Graphic j.writeLeaf := by
  have hNull : Graphic writeNull := by decide
  cases j with
  | bool b => cases b <;> decide
  | int n => exact (Digits.allNumeric_writeInt n).graphic
  | real x => exact (NumberStyle.allNumeric_write x).graphic
  | str s => exact Quoted.graphic_write s
  | _ => exact hNull

mutual

/-- A document without blanks holds no control characters. -/
theorem graphic_write : ∀ j : Json, Graphic j.write
  | .arr items => (graphic_writeItems items).cons (by decide)
  | .obj members => (graphic_writeMembers members).cons (by decide)
  | .torn members _ => (graphic_writeMembers members).cons (by decide)
  | .null => graphic_writeLeaf .null
  | .bool b => graphic_writeLeaf (.bool b)
  | .int n => graphic_writeLeaf (.int n)
  | .real x => graphic_writeLeaf (.real x)
  | .str s => graphic_writeLeaf (.str s)
  | .broken f => graphic_writeLeaf (.broken f)
  | .unfit => graphic_writeLeaf .unfit
  | .unkeyed members f => graphic_writeLeaf (.unkeyed members f)
termination_by structural j => j

theorem graphic_writeItems : ∀ js : List Json, Graphic (writeItems js)
  | [] => graphic_nil.cons (by decide)
  | j :: js => j.graphic_write.append (graphic_writeItemsTail js)
termination_by structural js => js

theorem graphic_writeItemsTail : ∀ js : List Json, Graphic (writeItemsTail js)
  | [] => graphic_nil.cons (by decide)
  | j :: js => (j.graphic_write.cons (by decide)).append (graphic_writeItemsTail js)
termination_by structural js => js

theorem graphic_writeMembers : ∀ ms : List (String × Json), Graphic (writeMembers ms)
  | [] => graphic_nil.cons (by decide)
  | (key, j) :: ms =>
    ((Quoted.graphic_write key).append (j.graphic_write.cons (by decide))).append
      (graphic_writeMembersTail ms)
termination_by structural ms => ms

theorem graphic_writeMembersTail : ∀ ms : List (String × Json), Graphic (writeMembersTail ms)
  | [] => graphic_nil.cons (by decide)
  | (key, j) :: ms =>
    (((Quoted.graphic_write key).cons (by decide)).append
      (j.graphic_write.cons (by decide))).append (graphic_writeMembersTail ms)
termination_by structural ms => ms

end

end Json

end DocumentQuery
