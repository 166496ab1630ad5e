import DocumentQuery.Number.Style
import DocumentQuery.Proofs.Number.Shortest
import Mathlib.Data.List.TakeWhile

/-!
# Written numbers tell numbers apart

`ratOfText` reads a written number back as a rational: its digits without the
point, scaled by the number of digits behind the point and by the exponent. What
is written for a decimal denotes the decimal in positional and in scientific form.
Together with `Shortest.decimal_contains` this makes the text of a double its own.

Main results:

* `NumberStyle.ratOfText_writeDecimal` — the text of a decimal denotes it.
* `NumberStyle.write_injective` — different finite doubles have different texts, the two
  zeros included.
* `Digits.writeInt_injective`, `NumberStyle.write_ne_writeInt` — nor is the text of
  a double that of an integer.
-/

namespace DocumentQuery

/-! ## Reading a written number -/

/-- What stands before the first `c` of a text, and what stands behind it. -/
def cut (c : Char) (text : List Char) : List Char × List Char :=
  (text.takeWhile (· != c), (text.dropWhile (· != c)).drop 1)

theorem cut_append {c : Char} {before : List Char} (h : c ∉ before) (after : List Char) :
    cut c (before ++ c :: after) = (before, after) := by
  have hBefore : ∀ d ∈ before, (d != c) = true := by
    intro d hd
    rw [bne_iff_ne]
    rintro rfl
    exact h hd
  unfold cut
  rw [List.takeWhile_append_of_pos hBefore, List.dropWhile_append_of_pos hBefore]
  simp

theorem cut_of_not_mem {c : Char} {text : List Char} (h : c ∉ text) : cut c text = (text, []) := by
  have hText : ∀ d ∈ text, (d != c) = true := by
    intro d hd
    rw [bne_iff_ne]
    rintro rfl
    exact h hd
  unfold cut
  rw [List.takeWhile_eq_self_iff.mpr hText, List.dropWhile_eq_nil_iff.mpr hText, List.drop_nil]

/-- The number that the sign and the digits of an exponent denote. -/
def exponentOf : List Char → ℤ
  | '-' :: digits => -(Digits.value digits : ℤ)
  | '+' :: digits => Digits.value digits
  | _ => 0

/-- The rational that a number without a sign denotes. -/
def ratOfText (text : List Char) : ℚ :=
  let parts := cut 'e' text
  let digits := cut '.' parts.1
  (Digits.value (digits.1 ++ digits.2) : ℚ) * 10 ^ (exponentOf parts.2 - digits.2.length)

/-- Nothing but digits. -/
def AllDigits (text : List Char) : Prop := ∀ c ∈ text, c.isDigit = true

instance (text : List Char) : Decidable (AllDigits text) :=
  List.decidableBAll (fun c : Char => c.isDigit = true) text

theorem AllDigits.not_mem {text : List Char} (h : AllDigits text) {c : Char}
    (hc : c.isDigit = false) : c ∉ text := by
  intro hMem
  rw [h c hMem] at hc
  cases hc

theorem AllDigits.append {text text' : List Char} (h : AllDigits text) (h' : AllDigits text') :
    AllDigits (text ++ text') := by
  intro c hc
  rcases List.mem_append.mp hc with hOld | hNew
  · exact h c hOld
  · exact h' c hNew

theorem allDigits_write (n : Nat) : AllDigits (Digits.write n) :=
  fun _ => Digits.isDigit_of_mem_write

theorem allDigits_zeros (count : Nat) : AllDigits (NumberStyle.zeros count) := by
  intro c hc
  rw [List.eq_of_mem_replicate hc]
  rfl

theorem ratOfText_digits {text : List Char} (h : AllDigits text) :
    ratOfText text = Digits.value text := by
  unfold ratOfText
  rw [cut_of_not_mem (h.not_mem rfl)]
  dsimp only
  rw [cut_of_not_mem (h.not_mem rfl)]
  simp [exponentOf]

theorem ratOfText_pointed {whole fraction : List Char} (hWhole : AllDigits whole)
    (hFraction : AllDigits fraction) :
    ratOfText (whole ++ '.' :: fraction) =
      Digits.value (whole ++ fraction) * 10 ^ (-(fraction.length : ℤ)) := by
  have hMark : 'e' ∉ whole ++ '.' :: fraction := by
    rw [List.mem_append, List.mem_cons]
    rintro (h | h | h)
    · exact hWhole.not_mem rfl h
    · cases h
    · exact hFraction.not_mem rfl h
  unfold ratOfText
  -- digits and a point leave no exponent to cut off
  rw [cut_of_not_mem hMark]
  dsimp only
  rw [cut_append (hWhole.not_mem rfl)]
  simp [exponentOf]

theorem ratOfText_exponent {mantissa : List Char} (h : 'e' ∉ mantissa) (exponent : List Char) :
    ratOfText (mantissa ++ 'e' :: exponent) = ratOfText mantissa * 10 ^ exponentOf exponent := by
  unfold ratOfText
  -- both sides cut the mantissa at the same point
  rw [cut_append h, cut_of_not_mem h]
  dsimp only
  rw [mul_assoc, ← zpow_add₀ (by norm_num)]
  congr 2
  simp only [exponentOf]
  ring

/-! ## Decimals -/

namespace NumberStyle

theorem value_zeros_append (count : Nat) (digits : List Char) :
    Digits.value (zeros count ++ digits) = Digits.value digits := by
  unfold zeros
  rw [Digits.value_append, Digits.value_replicate_zero, Nat.zero_mul, Nat.zero_add]

/-- In positional form the point stands after `exponent + 1` digits. -/
theorem ratOfText_positional {digits : List Char} (hDigits : AllDigits digits) (exponent : ℤ) :
    ratOfText (json.positional digits exponent) =
      Digits.value digits * 10 ^ (exponent + 1 - digits.length) := by
  have hZero : AllDigits ['0'] := allDigits_zeros 1
  unfold positional
  split
  · -- zeros between the point and the digits
    have hText := ratOfText_pointed hZero
      ((allDigits_zeros (-exponent - 1).toNat).append hDigits)
    have hValue : Digits.value (['0'] ++ (zeros (-exponent - 1).toNat ++ digits)) =
        Digits.value digits :=
      (value_zeros_append 1 _).trans (value_zeros_append _ _)
    have hLength : -((zeros (-exponent - 1).toNat ++ digits).length : ℤ) =
        exponent + 1 - digits.length := by
      simp only [zeros, List.length_append, List.length_replicate]
      omega
    rw [hValue, hLength] at hText
    exact hText
  · dsimp only
    generalize hWhole : exponent.toNat + 1 = whole
    by_cases hShort : digits.length ≤ whole
    · -- zeros between the digits and the point
      rw [List.take_of_length_le hShort, List.drop_of_length_le hShort, List.isEmpty_nil,
        if_pos rfl]
      have hText := ratOfText_pointed (hDigits.append (allDigits_zeros (whole - digits.length)))
        hZero
      have hValue : Digits.value (digits ++ zeros (whole - digits.length) ++ ['0']) =
          Digits.value digits * tenTo (whole - digits.length) * 10 := by
        rw [Digits.value_append, Digits.value_append]
        unfold zeros
        rw [Digits.value_replicate_zero, List.length_replicate, Nat.add_zero]
        rfl
      have hExponent : exponent + 1 - digits.length = (whole - digits.length : Nat) := by omega
      have hOne : -((['0'] : List Char).length : ℤ) = -1 := rfl
      rw [hValue, hOne] at hText
      refine hText.trans ?_
      rw [hExponent, zpow_natCast, zpow_neg, zpow_one]
      push_cast
      rw [tenTo_cast]
      ring
    · -- the point among the digits
      have hTail : (digits.drop whole).isEmpty = false := by
        rw [List.isEmpty_eq_false_iff, ← List.length_pos_iff, List.length_drop]
        omega
      have hTake : AllDigits (digits.take whole) := fun c hc => hDigits c (List.mem_of_mem_take hc)
      have hDrop : AllDigits (digits.drop whole) := fun c hc => hDigits c (List.mem_of_mem_drop hc)
      have hNone : zeros (whole - digits.length) = [] := by
        unfold zeros
        rw [List.replicate_eq_nil_iff]
        omega
      have hExponent : -((digits.drop whole).length : ℤ) = exponent + 1 - digits.length := by
        rw [List.length_drop]
        omega
      have hText := ratOfText_pointed hTake hDrop
      rw [List.take_append_drop, hExponent] at hText
      rw [hTail, if_neg Bool.false_ne_true, hNone, List.append_nil]
      exact hText

/-- In scientific form the point stands after the first digit. -/
theorem ratOfText_scientific {digits : List Char} (hDigits : AllDigits digits)
    (hLength : 0 < digits.length) (exponent : ℤ) :
    ratOfText (json.scientific digits exponent) =
      Digits.value digits * 10 ^ (exponent + 1 - digits.length) := by
  -- the written exponent reads back, whichever its sign
  have hExponent : exponentOf ((if exponent < 0 then json.negativeSign else json.positiveSign) ++
      Digits.write exponent.natAbs) = exponent := by
    split
    · show -(Digits.value (Digits.write exponent.natAbs) : ℤ) = exponent
      rw [Digits.value_write]
      omega
    · show (Digits.value (Digits.write exponent.natAbs) : ℤ) = exponent
      rw [Digits.value_write]
      omega
  have hTake : AllDigits (digits.take 1) := fun c hc => hDigits c (List.mem_of_mem_take hc)
  have hDrop : AllDigits (digits.drop 1) := fun c hc => hDigits c (List.mem_of_mem_drop hc)
  unfold scientific
  dsimp only
  rw [List.append_assoc, List.cons_append]
  -- only its value matters from here on
  generalize (if exponent < 0 then json.negativeSign else json.positiveSign) ++
    Digits.write exponent.natAbs = exponentText at hExponent ⊢
  by_cases hSingle : digits.length ≤ 1
  · rw [if_pos hSingle, List.take_of_length_le hSingle, List.drop_of_length_le hSingle,
      List.append_nil, List.append_nil]
    refine (ratOfText_exponent (hDigits.not_mem rfl) _).trans ?_
    rw [ratOfText_digits hDigits, hExponent]
    congr 2
    omega
  · have hMark : 'e' ∉ digits.take 1 ++ '.' :: digits.drop 1 := by
      rw [List.mem_append, List.mem_cons]
      rintro (h | h | h)
      · exact hTake.not_mem rfl h
      · cases h
      · exact hDrop.not_mem rfl h
    rw [if_neg hSingle, List.append_assoc (digits.take 1)]
    refine (ratOfText_exponent hMark _).trans ?_
    rw [ratOfText_pointed hTake hDrop, List.take_append_drop, hExponent, List.length_drop,
      mul_assoc, ← zpow_add₀ (by norm_num)]
    congr 2
    omega

/-- What is written for a decimal denotes it. -/
theorem ratOfText_writeDecimal (d : Decimal) : ratOfText (json.writeDecimal d) = d.toRat := by
  have hDigits := allDigits_write d.digits
  -- the exponent counts from the first digit, that of the decimal from the last
  have hExponent : d.exponent + (Digits.write d.digits).length - 1 + 1 -
      (Digits.write d.digits).length = d.exponent := by omega
  unfold writeDecimal
  dsimp only
  split
  · rw [ratOfText_positional hDigits, Digits.value_write, hExponent]
    rfl
  · rw [ratOfText_scientific hDigits (Digits.length_write_pos _), Digits.value_write, hExponent]
    rfl

/-! ## Doubles -/

/-- The text of a double without its sign. -/
def unsigned (size : Nat) : List Char :=
  if size = 0 then json.positional ['0'] 0 else json.writeDecimal (Shortest.decimal size)

theorem write_eq_unsigned (x : FiniteDouble) :
    json.write x = (if x.toFloat.toBits.toNat < twoTo 63 then [] else ['-']) ++
      unsigned (x.toFloat.toBits.toNat % twoTo 63) := rfl

/-- The text of a double denotes a rational that rounds to it, zero included. -/
theorem contains_unsigned {size : Nat} (h : size < twoTo 63) :
    (Binary.ofBits size).Contains (ratOfText (unsigned size)) := by
  unfold unsigned
  split
  · rename_i hZero
    subst hZero
    have hText : ratOfText (json.positional ['0'] 0) = 0 := by
      refine (ratOfText_positional (allDigits_zeros 1) 0).trans ?_
      rw [show Digits.value (zeros 1) = 0 from Digits.value_replicate_zero 1, Nat.cast_zero,
        zero_mul]
    rw [hText]
    exact Binary.contains_zero
  · rw [ratOfText_writeDecimal]
    exact Shortest.decimal_contains (by omega) h

theorem unsigned_injective {m n : Nat} (hm : m < twoTo 63) (hn : n < twoTo 63)
    (h : unsigned m = unsigned n) : m = n := by
  have hContains := contains_unsigned hm
  rw [h] at hContains
  exact Binary.eq_of_contains hm hn hContains (contains_unsigned hn)

end NumberStyle

/-! ## Characters of numbers -/

/-- The characters that numbers are written with. -/
def isNumeric (c : Char) : Bool := c.isDigit || c == '-' || c == '+' || c == '.' || c == 'e'

def AllNumeric (text : List Char) : Prop := ∀ c ∈ text, isNumeric c = true

theorem AllNumeric.cons {c : Char} {text : List Char} (hc : isNumeric c = true)
    (h : AllNumeric text) : AllNumeric (c :: text) :=
  List.forall_mem_cons.mpr ⟨hc, h⟩

theorem AllNumeric.append {text text' : List Char} (h : AllNumeric text) (h' : AllNumeric text') :
    AllNumeric (text ++ text') :=
  List.forall_mem_append.mpr ⟨h, h'⟩

theorem AllDigits.allNumeric {text : List Char} (h : AllDigits text) : AllNumeric text := by
  intro c hc
  unfold isNumeric
  rw [h c hc]
  rfl

/-- The text of a number that is no integer: it begins with a digit, and a point or
an exponent stands somewhere behind. -/
structure IsReal (text : List Char) : Prop where
  head : ∃ c rest, text = c :: rest ∧ c.isDigit = true
  numeric : AllNumeric text
  marked : '.' ∈ text ∨ 'e' ∈ text

theorem isReal_append {whole rest : List Char} (hWhole : AllDigits whole) (hNe : whole ≠ [])
    (hRest : AllNumeric rest) (hMark : '.' ∈ rest ∨ 'e' ∈ rest) : IsReal (whole ++ rest) := by
  refine ⟨?_, hWhole.allNumeric.append hRest, ?_⟩
  · cases whole with
    | nil => exact absurd rfl hNe
    | cons c cs => exact ⟨c, cs ++ rest, rfl, hWhole c List.mem_cons_self⟩
  · rcases hMark with hPoint | hExponent
    · exact Or.inl (List.mem_append_right _ hPoint)
    · exact Or.inr (List.mem_append_right _ hExponent)

namespace NumberStyle

theorem isReal_positional {digits : List Char} (hDigits : AllDigits digits) (hNe : digits ≠ [])
    (exponent : ℤ) : IsReal (json.positional digits exponent) := by
  unfold positional
  split
  -- every form splits into digits and a rest that begins with the point
  · show IsReal (['0'] ++ '.' :: (zeros (-exponent - 1).toNat ++ digits))
    exact isReal_append (allDigits_zeros 1) (by decide)
      (((allDigits_zeros _).append hDigits).allNumeric.cons rfl) (Or.inl List.mem_cons_self)
  · dsimp only
    have hTake : AllDigits (digits.take (exponent.toNat + 1)) :=
      fun c hc => hDigits c (List.mem_of_mem_take hc)
    have hDrop : AllDigits (digits.drop (exponent.toNat + 1)) :=
      fun c hc => hDigits c (List.mem_of_mem_drop hc)
    have hTakeNe : digits.take (exponent.toNat + 1) ≠ [] := by
      rw [Ne, List.take_eq_nil_iff]
      rintro (hZero | hNil)
      · cases hZero
      · exact hNe hNil
    refine isReal_append (hTake.append (allDigits_zeros _))
      (List.append_ne_nil_of_left_ne_nil hTakeNe _) (AllNumeric.cons rfl ?_)
      (Or.inl List.mem_cons_self)
    split
    · exact (allDigits_zeros 1).allNumeric
    · exact hDrop.allNumeric

theorem isReal_scientific {digits : List Char} (hDigits : AllDigits digits) (hNe : digits ≠ [])
    (exponent : ℤ) : IsReal (json.scientific digits exponent) := by
  have hTake : AllDigits (digits.take 1) := fun c hc => hDigits c (List.mem_of_mem_take hc)
  have hDrop : AllDigits (digits.drop 1) := fun c hc => hDigits c (List.mem_of_mem_drop hc)
  have hTakeNe : digits.take 1 ≠ [] := by
    rw [Ne, List.take_eq_nil_iff]
    rintro (hZero | hNil)
    · cases hZero
    · exact hNe hNil
  unfold scientific
  dsimp only
  rw [List.append_assoc, List.append_assoc, List.append_assoc]
  refine isReal_append hTake hTakeNe ?_ (Or.inr ?_)
  · refine AllNumeric.append ?_ (hDrop.allNumeric.append (AllNumeric.append (AllNumeric.cons rfl ?_)
      (allDigits_write _).allNumeric))
    · split
      · exact (allDigits_zeros 0).allNumeric
      · exact AllNumeric.cons rfl (allDigits_zeros 0).allNumeric
    · split
      · exact AllNumeric.cons rfl (allDigits_zeros 0).allNumeric
      · exact AllNumeric.cons rfl (allDigits_zeros 0).allNumeric
  · simp [json]

theorem isReal_unsigned (size : Nat) : IsReal (unsigned size) := by
  unfold unsigned
  split
  · exact isReal_positional (allDigits_zeros 1) (by decide) 0
  · unfold writeDecimal
    dsimp only
    split
    · exact isReal_positional (allDigits_write _) (Digits.write_ne_nil _) _
    · exact isReal_scientific (allDigits_write _) (Digits.write_ne_nil _) _

/-! ## Doubles and integers -/

theorem toBits_injective {x y : Float} (h : x.toBits = y.toBits) : x = y := by
  cases x with
  | ofModel x =>
    cases y with
    | ofModel y =>
      cases x
      cases y
      cases h
      rfl

theorem allNumeric_write (x : FiniteDouble) : AllNumeric (json.write x) := by
  rw [write_eq_unsigned]
  split
  · exact (isReal_unsigned _).numeric
  · exact AllNumeric.cons rfl (isReal_unsigned _).numeric

theorem write_ne_nil (x : FiniteDouble) : json.write x ≠ [] := by
  obtain ⟨c, rest, hHead, -⟩ := (isReal_unsigned (x.toFloat.toBits.toNat % twoTo 63)).head
  rw [write_eq_unsigned, hHead]
  exact List.append_ne_nil_of_right_ne_nil _ (List.cons_ne_nil c rest)

/-- **Different finite doubles have different texts.** -/
theorem write_injective {x y : FiniteDouble} (h : json.write x = json.write y) : x = y := by
  obtain ⟨x, _⟩ := x
  obtain ⟨y, _⟩ := y
  rw [FiniteDouble.mk.injEq]
  have hSize : ∀ z : Float, z.toBits.toNat % twoTo 63 < twoTo 63 :=
    fun z => Nat.mod_lt _ (by decide)
  have hLt : ∀ z : Float, z.toBits.toNat < twoTo 63 + twoTo 63 := fun z => z.toBits.toNat_lt
  -- no unsigned text begins with a minus
  have hMinus : ∀ size text, unsigned size ≠ '-' :: text := by
    intro size text hText
    obtain ⟨c, rest, hHead, hDigit⟩ := (isReal_unsigned size).head
    rw [hHead] at hText
    cases hText
    cases hDigit
  rw [write_eq_unsigned, write_eq_unsigned] at h
  -- the sign is the highest bit, and the size is what is left of the others
  apply toBits_injective
  apply UInt64.toNat_inj.mp
  have hx := hLt x
  have hy := hLt y
  by_cases hxSign : x.toBits.toNat < twoTo 63 <;> by_cases hySign : y.toBits.toNat < twoTo 63
  · rw [if_pos hxSign, if_pos hySign] at h
    have hEq := unsigned_injective (hSize x) (hSize y) h
    rwa [Nat.mod_eq_of_lt hxSign, Nat.mod_eq_of_lt hySign] at hEq
  · rw [if_pos hxSign, if_neg hySign] at h
    exact absurd h (hMinus _ _)
  · rw [if_neg hxSign, if_pos hySign] at h
    exact absurd h.symm (hMinus _ _)
  · rw [if_neg hxSign, if_neg hySign] at h
    have hEq := unsigned_injective (hSize x) (hSize y) (List.cons.inj h).2
    rw [Nat.mod_eq_sub_mod (by omega), Nat.mod_eq_sub_mod (Nat.le_of_not_lt hySign),
      Nat.mod_eq_of_lt (by omega), Nat.mod_eq_of_lt (by omega)] at hEq
    omega

/-- A double is written with a point or an exponent, an integer with neither. -/
theorem write_ne_writeInt (x : FiniteDouble) (n : ℤ) : json.write x ≠ Digits.writeInt n := by
  intro h
  -- the mark of a double would be a character of the integer
  have hMarked : '.' ∈ json.write x ∨ 'e' ∈ json.write x := by
    rw [write_eq_unsigned, List.mem_append, List.mem_append]
    rcases (isReal_unsigned (x.toFloat.toBits.toNat % twoTo 63)).marked with hPoint | hExponent
    · exact Or.inl (Or.inr hPoint)
    · exact Or.inr (Or.inr hExponent)
  have hDigits := allDigits_write n.natAbs
  rw [h] at hMarked
  unfold Digits.writeInt at hMarked
  split at hMarked
  · simp only [List.mem_cons] at hMarked
    rcases hMarked with (h | h) | (h | h)
    · cases h
    · exact hDigits.not_mem rfl h
    · cases h
    · exact hDigits.not_mem rfl h
  · rcases hMarked with h | h
    · exact hDigits.not_mem rfl h
    · exact hDigits.not_mem rfl h

end NumberStyle

namespace Digits

theorem allNumeric_writeInt (n : ℤ) : AllNumeric (writeInt n) := by
  unfold writeInt
  split
  · exact AllNumeric.cons rfl (allDigits_write _).allNumeric
  · exact (allDigits_write _).allNumeric

theorem writeInt_ne_nil (n : ℤ) : writeInt n ≠ [] := by
  unfold writeInt
  split
  · exact List.cons_ne_nil _ _
  · exact write_ne_nil _

theorem writeInt_injective {m n : ℤ} (h : writeInt m = writeInt n) : m = n := by
  have hMinus : ∀ k text, write k ≠ '-' :: text := by
    intro k text hText
    exact (allDigits_write k).not_mem rfl (hText ▸ List.mem_cons_self)
  unfold writeInt at h
  split at h <;> split at h
  · have hAbs := write_injective (List.cons.inj h).2
    omega
  · exact absurd h.symm (hMinus _ _)
  · exact absurd h (hMinus _ _)
  · have hAbs := write_injective h
    omega

end Digits

end DocumentQuery
