import DocumentQuery.Proofs.Number.Digits
import DocumentQuery.Proofs.Number.Intervals
import Mathlib.Data.Nat.Cast.Order.Field

/-!
# The shortest decimal reads back

Seventeen significant digits are enough for every double: their grid is finer than
the interval of reals that round to the double, so the search ends with a decimal
inside the interval. By `Binary.eq_of_contains` that decimal belongs to no other
double.

Main results:

* `Shortest.onGrid_isSome` — a fine grid has a point inside the interval.
* `Shortest.decimal_contains` — the decimal that is written lies inside.
-/

namespace DocumentQuery

/-! ## Decimals -/

namespace Decimal

/-- Moving zeros into the exponent does not change the value. -/
theorem toRat_trim (d : Decimal) (count : Nat) : (d.trim count).toRat = d.toRat := by
  induction count generalizing d with
  | zero => rfl
  | succ count ih =>
    unfold trim
    split
    · rename_i hZero
      rw [ih]
      unfold toRat
      have hDigits : d.digits = 10 * (d.digits / 10) := by omega
      have hCast : (d.digits : ℚ) = 10 * (d.digits / 10 : Nat) := by exact_mod_cast hDigits
      rw [hCast, zpow_add₀ (by norm_num), zpow_one]
      ring
    · rfl

end Decimal

/-! ## The magnitude of a double -/

theorem twoTo_le_tenTo {j k : Nat} (h : j ≤ 3 * k) : twoTo j ≤ tenTo k :=
  calc Nat.pow 2 j
      ≤ Nat.pow 2 (3 * k) := Nat.pow_le_pow_right (by omega) h
    _ = Nat.pow (Nat.pow 2 3) k := Nat.pow_mul 2 3 k
    _ ≤ Nat.pow 10 k := Nat.pow_le_pow_left (by decide) k

namespace Binary

/-- The power of ten that the search starts from does not exceed the double. -/
theorem tenTo_magnitude_le_center {b : Binary} (hUnit : 0 < b.unit)
    (hSmall : b.unit ≤ b.value * tenTo 400) : (10 : ℚ) ^ b.magnitude ≤ b.center := by
  have hUnit' : (0 : ℚ) < b.unit := by exact_mod_cast hUnit
  -- below one the magnitude is found by multiplying, above one by counting digits
  have hInverse : ∀ k : Nat, b.unit ≤ b.value * tenTo k → (10 : ℚ) ^ (-(k : ℤ)) ≤ b.center := by
    intro k hk
    have hk' : (b.unit : ℚ) ≤ b.value * 10 ^ k := by
      rw [← tenTo_cast]
      exact_mod_cast hk
    unfold center
    rw [zpow_neg, zpow_natCast, inv_eq_one_div, div_le_div_iff₀ (by positivity) hUnit', one_mul]
    exact hk'
  unfold magnitude
  split
  · rename_i hLarge
    have hWhole : 0 < b.value / b.unit := Nat.div_pos hLarge hUnit
    have hLength := Digits.length_write_pos (b.value / b.unit)
    have hExponent : ((Digits.write (b.value / b.unit)).length : ℤ) - 1 =
        (((Digits.write (b.value / b.unit)).length - 1 : Nat) : ℤ) := by omega
    rw [hExponent, zpow_natCast, ← tenTo_cast]
    calc ((tenTo ((Digits.write (b.value / b.unit)).length - 1) : Nat) : ℚ)
        ≤ ((b.value / b.unit : Nat) : ℚ) := by exact_mod_cast Digits.tenTo_length_le hWhole
      _ ≤ b.center := Nat.cast_div_le
  · split
    · rename_i k hFind
      have hk := List.find?_some hFind
      exact hInverse k (by simpa using hk)
    · exact hInverse 400 hSmall

/-- A double has 53 significant bits; the interval is narrower on one side only
above a power of two. -/
theorem exists_ofParts {n : Nat} (hPos : 0 < n) (h : n < twoTo 63) :
    ∃ mantissa exponent narrowBelow, ofBits n = ofParts mantissa exponent narrowBelow ∧
      0 < mantissa ∧ mantissa < twoTo 53 ∧ -1074 ≤ exponent ∧
      (narrowBelow = true → mantissa = twoTo 52) := by
  obtain ⟨field, fraction, hField, hFraction, rfl⟩ := exists_parts h
  have hTwo : twoTo 53 = twoTo 52 + twoTo 52 := rfl
  have hHidden : 0 < twoTo 52 := by decide
  cases field with
  | zero =>
    rw [Nat.mul_zero, Nat.zero_add] at hPos ⊢
    exact ⟨_, _, _, ofBits_subnormal hFraction, hPos, by omega, le_refl _, nofun⟩
  | succ k =>
    -- narrow only without a fraction, where the hidden bit is the whole mantissa
    refine ⟨_, _, _, ofBits_normal hField hFraction, by omega, by omega, by omega, ?_⟩
    intro hNarrow
    simp only [Bool.and_eq_true, beq_iff_eq] at hNarrow
    omega

/-- No double is smaller than `10 ^ -400`. -/
theorem unit_le_ofParts {mantissa : Nat} (hPos : 0 < mantissa) {exponent : ℤ}
    (hExponent : -1074 ≤ exponent) (narrowBelow : Bool) :
    (ofParts mantissa exponent narrowBelow).unit ≤
      (ofParts mantissa exponent narrowBelow).value * tenTo 400 := by
  show twoTo (2 - exponent).toNat ≤ 4 * mantissa * twoTo (exponent - 2).toNat * tenTo 400
  have hScale : 0 < twoTo (exponent - 2).toNat := Nat.pow_pos (by omega)
  calc twoTo (2 - exponent).toNat
      ≤ tenTo 400 := twoTo_le_tenTo (by omega)
    _ ≤ 4 * mantissa * twoTo (exponent - 2).toNat * tenTo 400 :=
        Nat.le_mul_of_pos_left _ (Nat.mul_pos (by omega) hScale)

end Binary

/-! ## Grids -/

namespace Shortest

theorem covers_of_onGrid {b : Binary} {exponent : ℤ} {d : Decimal}
    (h : onGrid b exponent = some d) : b.covers d = true := by
  unfold onGrid at h
  dsimp only at h
  split at h
  · split at h <;> cases h <;> assumption
  · cases h
    assumption
  · cases h
    assumption
  · cases h

/-- The two neighbours of a double on a grid. -/
theorem below_le_center_lt_above {b : Binary} (hUnit : 0 < b.unit) (exponent : ℤ) :
    ((b.value * tenTo (-exponent).toNat / (b.unit * tenTo exponent.toNat) : Nat) : ℚ) *
        10 ^ exponent ≤ b.center ∧
      b.center < (((b.value * tenTo (-exponent).toNat / (b.unit * tenTo exponent.toNat) : Nat) : ℚ)
        + 1) * 10 ^ exponent := by
  have hTen : ∀ k, 0 < tenTo k := fun k => Nat.pow_pos (by omega)
  have hDivisor : 0 < b.unit * tenTo exponent.toNat := Nat.mul_pos hUnit (hTen _)
  have hUnit' : (0 : ℚ) < b.unit := by exact_mod_cast hUnit
  have hScale : (0 : ℚ) < tenTo (-exponent).toNat := by exact_mod_cast hTen _
  -- the quotient rounded down and one more enclose the double
  generalize hIndex : b.value * tenTo (-exponent).toNat / (b.unit * tenTo exponent.toNat) = index
  have hBelow : index * (b.unit * tenTo exponent.toNat) ≤ b.value * tenTo (-exponent).toNat :=
    hIndex ▸ Nat.div_mul_le_self _ _
  have hAbove : b.value * tenTo (-exponent).toNat <
      (index + 1) * (b.unit * tenTo exponent.toNat) :=
    (Nat.div_lt_iff_lt_mul hDivisor).mp (by omega)
  unfold Binary.center
  rw [zpow_eq_div, ← tenTo_cast, ← tenTo_cast, ← mul_div_assoc, ← mul_div_assoc,
    div_le_div_iff₀ hScale hUnit', div_lt_div_iff₀ hUnit' hScale]
  constructor
  · calc (index : ℚ) * tenTo exponent.toNat * b.unit
        = index * (b.unit * tenTo exponent.toNat) := by ring
      _ ≤ b.value * tenTo (-exponent).toNat := by exact_mod_cast hBelow
  · calc (b.value : ℚ) * tenTo (-exponent).toNat
        < (index + 1) * (b.unit * tenTo exponent.toNat) := by exact_mod_cast hAbove
      _ = (index + 1) * tenTo exponent.toNat * b.unit := by ring

/-- A grid has a point inside the interval if its spacing is less than twice the
distance from the double to either end. -/
theorem onGrid_isSome {b : Binary} (hUnit : 0 < b.unit) {exponent : ℤ}
    (hLower : (10 : ℚ) ^ exponent < 2 * (b.center - b.lower))
    (hUpper : (10 : ℚ) ^ exponent < 2 * (b.upper - b.center)) :
    (onGrid b exponent).isSome = true := by
  obtain ⟨hBelow, hAbove⟩ := below_le_center_lt_above hUnit exponent
  have hSpacing : (0 : ℚ) < 10 ^ exponent := by positivity
  unfold onGrid
  dsimp only
  generalize b.value * tenTo (-exponent).toNat / (b.unit * tenTo exponent.toNat) = index at *
  -- the nearer of the two neighbours is at most half a spacing away
  by_cases hNear : b.center - index * 10 ^ exponent ≤ 10 ^ exponent / 2
  · have hCovers : b.covers ⟨index, exponent⟩ = true := by
      rw [Binary.covers_iff hUnit]
      apply Binary.contains_of_lt
      · show b.lower < index * 10 ^ exponent
        linarith
      · show index * 10 ^ exponent < b.upper
        linarith
    rw [hCovers]
    cases b.covers ⟨index + 1, exponent⟩
    · rfl
    · dsimp only
      split <;> rfl
  · have hCovers : b.covers ⟨index + 1, exponent⟩ = true := by
      rw [Binary.covers_iff hUnit]
      apply Binary.contains_of_lt
      · show b.lower < ((index + 1 : Nat) : ℚ) * 10 ^ exponent
        push_cast
        linarith
      · show ((index + 1 : Nat) : ℚ) * 10 ^ exponent < b.upper
        push_cast
        linarith
    rw [hCovers]
    cases b.covers ⟨index, exponent⟩
    · rfl
    · dsimp only
      split <;> rfl

/-- The search ends inside the interval if its last grid has a point there. -/
theorem covers_search {b : Binary} {more : Nat} {exponent : ℤ}
    (h : (onGrid b (exponent - more)).isSome = true) :
    b.covers (search b more exponent) = true := by
  induction more generalizing exponent with
  | zero =>
    obtain ⟨d, hd⟩ := Option.isSome_iff_exists.mp h
    rw [Nat.cast_zero, sub_zero] at hd
    rw [search, hd]
    exact covers_of_onGrid hd
  | succ more ih =>
    unfold search
    cases hd : onGrid b exponent with
    | some d => exact covers_of_onGrid hd
    | none =>
      refine ih ?_
      rwa [show exponent - 1 - (more : ℤ) = exponent - (more + 1 : Nat) by omega]

/-- Seventeen significant digits are enough. -/
theorem onGrid_isSome_ofBits {n : Nat} (hPos : 0 < n) (h : n < twoTo 63) :
    (onGrid (Binary.ofBits n) ((Binary.ofBits n).magnitude - 16)).isSome = true := by
  have hUnit := Binary.ofBits_unit_pos n
  obtain ⟨mantissa, exponent, narrowBelow, hBits, hMantissa, hBound, hExponent, hNarrow⟩ :=
    Binary.exists_ofParts hPos h
  have hMagnitude := Binary.tenTo_magnitude_le_center hUnit
    (by rw [hBits]; exact Binary.unit_le_ofParts hMantissa hExponent narrowBelow)
  have hSplit : (10 : ℚ) ^ (Binary.ofBits n).magnitude =
      10 ^ ((Binary.ofBits n).magnitude - 16) * 10 ^ 16 := by
    rw [zpow_sub₀ (by norm_num)]
    norm_num
  -- the double is at least `10 ^ 16` spacings and at most `2 ^ 55` quarters of a step, half as
  -- many where the lower end is one quarter away and not two
  have hQuarter : (0 : ℚ) < 2 ^ (exponent - 2) := by positivity
  have hTwo : (twoTo 52 : ℚ) = 4503599627370496 := by
    rw [twoTo_cast]
    norm_num
  have hBound' : (mantissa : ℚ) ≤ 9007199254740992 := by
    have hLe : mantissa ≤ 9007199254740992 := Nat.le_of_lt hBound
    exact_mod_cast hLe
  have hProduct := mul_le_mul_of_nonneg_right hBound' hQuarter.le
  rw [hSplit] at hMagnitude
  apply onGrid_isSome hUnit
  · generalize (10 : ℚ) ^ ((Binary.ofBits n).magnitude - 16) = spacing at hMagnitude ⊢
    rw [hBits, Binary.center_ofParts] at hMagnitude
    rw [hBits, Binary.center_ofParts, Binary.lower_ofParts hMantissa]
    cases narrowBelow
    · simp only [Bool.false_eq_true, if_false]
      linarith
    · rw [hNarrow rfl, hTwo] at hMagnitude ⊢
      simp only [if_true]
      linarith
  · generalize (10 : ℚ) ^ ((Binary.ofBits n).magnitude - 16) = spacing at hMagnitude ⊢
    rw [hBits, Binary.center_ofParts] at hMagnitude
    rw [hBits, Binary.center_ofParts, Binary.upper_ofParts]
    linarith

/-- The decimal that a double is written as lies inside its interval. -/
theorem decimal_contains {n : Nat} (hPos : 0 < n) (h : n < twoTo 63) :
    (Binary.ofBits n).Contains (decimal n).toRat := by
  unfold decimal
  rw [Decimal.toRat_trim, ← Binary.covers_iff (Binary.ofBits_unit_pos n)]
  exact covers_search (onGrid_isSome_ofBits hPos h)

end Shortest

end DocumentQuery
