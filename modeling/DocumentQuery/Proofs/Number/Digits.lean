import DocumentQuery.Number.Digits
import Mathlib.Tactic.Basic

/-!
# Decimal digits and the numbers they denote

Main results:

* `Digits.value_write` — the written digits of a number denote it; hence
  `Digits.write_injective`.
* `Digits.isDigit_of_mem_write` — nothing but digits is written.
* `Digits.value_append` — the number that two runs of digits in a row denote.
* `Digits.tenTo_length_le` — how large a number of some length is at least.
* `Digits.word?_eq_some_iff` — the texts that are read as a number.
-/

namespace DocumentQuery.Digits

theorem write_eq_toDigits (n : Nat) : write n = Nat.toDigits 10 n :=
  Nat.toList_repr

@[simp] theorem value_write (n : Nat) : value (write n) = n := by
  rw [write_eq_toDigits]
  exact Nat.ofDigitChars_ten_toDigits

theorem write_injective {m n : Nat} (h : write m = write n) : m = n := by
  rw [← value_write m, h, value_write]

theorem isDigit_of_mem_write {n : Nat} {c : Char} (h : c ∈ write n) : c.isDigit = true := by
  rw [write_eq_toDigits] at h
  exact Nat.isDigit_of_mem_toDigits (by omega) (by omega) h

theorem write_ne_nil (n : Nat) : write n ≠ [] := by
  rw [write_eq_toDigits]
  exact Nat.toDigits_ne_nil

/-! ## Digits in a row -/

theorem valueFrom_eq (n : Nat) (digits : List Char) :
    valueFrom n digits = n * tenTo digits.length + value digits := by
  induction digits generalizing n with
  | nil => simp [value, valueFrom, tenTo]
  | cons c digits ih =>
    have hFirst := ih (10 * n + digit c)
    have hZero := ih (10 * 0 + digit c)
    have hTen : tenTo (c :: digits).length = tenTo digits.length * 10 := Nat.pow_succ ..
    unfold value
    show valueFrom (10 * n + digit c) digits =
      n * tenTo (c :: digits).length + valueFrom (10 * 0 + digit c) digits
    rw [hFirst, hZero, hTen, Nat.mul_zero, Nat.zero_add, Nat.add_mul, Nat.mul_comm 10 n,
      Nat.mul_assoc, Nat.mul_comm 10, Nat.add_assoc]

theorem value_append (digits digits' : List Char) :
    value (digits ++ digits') = value digits * tenTo digits'.length + value digits' := by
  unfold value
  unfold valueFrom
  rw [List.foldl_append]
  exact valueFrom_eq _ digits'

theorem value_replicate_zero (count : Nat) : value (List.replicate count '0') = 0 := by
  induction count with
  | zero => rfl
  | succ count ih =>
    rw [List.replicate_succ']
    rw [value_append, ih, Nat.zero_mul]
    rfl

/-! ## Lengths -/

theorem length_write_pos (n : Nat) : 0 < (write n).length :=
  List.length_pos_iff.mpr (write_ne_nil n)

/-- A number is at least the power of ten with as many zeros as digits follow its
first. -/
theorem tenTo_length_le {n : Nat} (h : 0 < n) : tenTo ((write n).length - 1) ≤ n := by
  by_cases hOne : (write n).length = 1
  · rw [hOne]
    exact h
  · have hPos := length_write_pos n
    refine Nat.le_of_not_lt fun hlt => ?_
    have hShort := (Nat.length_toDigits_le_iff (by omega) (by omega)).mpr hlt
    rw [← write_eq_toDigits] at hShort
    omega

/-! ## Reading -/

theorem word?_eq_some_iff {text : List Char} {n : Nat} :
    word? text = some n ↔
      text ≠ [] ∧ (∀ c ∈ text, c.isDigit = true) ∧ value text = n ∧ n < twoTo 64 := by
  rw [word?, Option.ite_none_right_eq_some, List.all_eq_true, Option.some.injEq]
  constructor
  · rintro ⟨⟨hNonempty, hAll, hWord⟩, rfl⟩
    exact ⟨hNonempty, hAll, rfl, hWord⟩
  · rintro ⟨hNonempty, hAll, rfl, hWord⟩
    exact ⟨⟨hNonempty, hAll, hWord⟩, rfl⟩

end DocumentQuery.Digits
