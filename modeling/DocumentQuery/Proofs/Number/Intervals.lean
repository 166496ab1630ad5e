import DocumentQuery.Number.Shortest
import Mathlib.Algebra.Order.Field.Rat
import Mathlib.Algebra.Order.Field.Power
import Mathlib.Tactic.FieldSimp
import Mathlib.Tactic.Linarith
import Mathlib.Tactic.Positivity.Finset
import Mathlib.Tactic.Ring

/-!
# The intervals of doubles

The reals that round to a positive double form an interval around it. The
intervals of neighbouring doubles meet in their common end, and exactly one of
the two contains it: that with the even bit pattern. So no rational belongs to
two doubles.

Main results:

* `Binary.covers_iff` — the test on natural numbers is membership in the interval.
* `Binary.upper_eq_lower_succ`, `Binary.closed_ofBits` — neighbouring intervals.
* `Binary.eq_of_contains` — a rational lies in the interval of one double at most.
-/

namespace DocumentQuery

/-! ## Powers as rationals -/

theorem twoTo_cast (k : Nat) : (twoTo k : ℚ) = 2 ^ k := by
  unfold twoTo
  rw [Nat.pow_eq]
  push_cast
  rfl

theorem tenTo_cast (k : Nat) : (tenTo k : ℚ) = 10 ^ k := by
  unfold tenTo
  rw [Nat.pow_eq]
  push_cast
  rfl

/-- A power with an integer exponent as the quotient that computations on natural
numbers work with. -/
theorem zpow_eq_div (a : ℚ) (e : ℤ) : a ^ e = a ^ e.toNat / a ^ (-e).toNat := by
  obtain ⟨n, rfl | rfl⟩ := e.eq_nat_or_neg
  · simp
  · simp

/-- The rational that a decimal stands for. -/
def Decimal.toRat (d : Decimal) : ℚ := d.digits * 10 ^ d.exponent

theorem Decimal.toRat_eq_div (d : Decimal) :
    d.toRat = d.digits * tenTo d.exponent.toNat / tenTo (-d.exponent).toNat := by
  unfold Decimal.toRat
  rw [zpow_eq_div, tenTo_cast, tenTo_cast, mul_div_assoc]

/-! ## Intervals -/

namespace Binary

/-- The double as a rational. -/
def center (b : Binary) : ℚ := b.value / b.unit

def lower (b : Binary) : ℚ := b.low / b.unit

def upper (b : Binary) : ℚ := b.high / b.unit

/-- The rational rounds to the double. -/
def Contains (b : Binary) (x : ℚ) : Prop :=
  if b.closed then b.lower ≤ x ∧ x ≤ b.upper else b.lower < x ∧ x < b.upper

theorem Contains.bounds {b : Binary} {x : ℚ} (h : b.Contains x) : b.lower ≤ x ∧ x ≤ b.upper := by
  unfold Contains at h
  split at h
  · exact h
  · exact ⟨h.1.le, h.2.le⟩

theorem Contains.closed_of_end {b : Binary} {x : ℚ} (h : b.Contains x)
    (hEnd : x = b.lower ∨ x = b.upper) : b.closed = true := by
  by_contra hOpen
  unfold Contains at h
  rw [if_neg hOpen] at h
  rcases hEnd with rfl | rfl
  · exact lt_irrefl _ h.1
  · exact lt_irrefl _ h.2

theorem contains_of_lt {b : Binary} {x : ℚ} (hLower : b.lower < x) (hUpper : x < b.upper) :
    b.Contains x := by
  unfold Contains
  split
  · exact ⟨hLower.le, hUpper.le⟩
  · exact ⟨hLower, hUpper⟩

/-- The test for reading back decides membership in the interval. -/
theorem covers_iff {b : Binary} (hUnit : 0 < b.unit) (d : Decimal) :
    b.covers d = true ↔ b.Contains d.toRat := by
  have hUnit' : (0 : ℚ) < b.unit := by exact_mod_cast hUnit
  have hScale : (0 : ℚ) < tenTo (-d.exponent).toNat := by
    rw [tenTo_cast]
    positivity
  unfold covers Contains lower upper
  rw [d.toRat_eq_div]
  -- both sides compare with the same fraction, once its denominators are cleared
  cases b.closed
  · simp only [Bool.false_eq_true, if_false, Bool.and_eq_true, decide_eq_true_eq]
    rw [div_lt_div_iff₀ hUnit' hScale, div_lt_div_iff₀ hScale hUnit']
    norm_cast
  · simp only [if_true, Bool.and_eq_true, decide_eq_true_eq]
    rw [div_le_div_iff₀ hUnit' hScale, div_le_div_iff₀ hScale hUnit']
    norm_cast

/-! ## Doubles from their parts -/

theorem ofParts_unit_pos (mantissa : Nat) (exponent : ℤ) (narrowBelow : Bool) :
    0 < (ofParts mantissa exponent narrowBelow).unit :=
  Nat.pow_pos (by decide)

/-- A quarter of the distance to the next double. -/
theorem scale_div_unit (exponent : ℤ) :
    (twoTo (exponent - 2).toNat : ℚ) / twoTo (2 - exponent).toNat = 2 ^ (exponent - 2) := by
  rw [zpow_eq_div, twoTo_cast, twoTo_cast, neg_sub]

theorem center_ofParts (mantissa : Nat) (exponent : ℤ) (narrowBelow : Bool) :
    (ofParts mantissa exponent narrowBelow).center = 4 * mantissa * 2 ^ (exponent - 2) := by
  unfold center ofParts
  rw [← scale_div_unit]
  push_cast
  ring

theorem upper_ofParts (mantissa : Nat) (exponent : ℤ) (narrowBelow : Bool) :
    (ofParts mantissa exponent narrowBelow).upper = (4 * mantissa + 2) * 2 ^ (exponent - 2) := by
  unfold upper ofParts
  rw [← scale_div_unit]
  push_cast
  ring

theorem lower_ofParts {mantissa : Nat} (hPos : 0 < mantissa) (exponent : ℤ) (narrowBelow : Bool) :
    (ofParts mantissa exponent narrowBelow).lower =
      (4 * mantissa - if narrowBelow then 1 else 2) * 2 ^ (exponent - 2) := by
  unfold lower ofParts
  rw [← scale_div_unit]
  -- both distances below fit into a positive mantissa
  cases narrowBelow
  · simp only [Bool.false_eq_true, if_false]
    rw [Nat.cast_mul, Nat.cast_sub (by omega)]
    push_cast
    ring
  · simp only [if_true]
    rw [Nat.cast_mul, Nat.cast_sub (by omega)]
    push_cast
    ring

/-- Below zero nothing is left of the interval of zero. -/
theorem lower_ofParts_zero (exponent : ℤ) (narrowBelow : Bool) :
    (ofParts 0 exponent narrowBelow).lower = 0 := by
  unfold lower ofParts
  dsimp only
  rw [Nat.mul_zero, Nat.zero_sub, Nat.zero_mul, Nat.cast_zero, zero_div]

/-! ## Bit patterns -/

/-- A bit pattern by its exponent field and its fraction. -/
theorem ofBits_eq {field fraction : Nat} (hField : field < twoTo 11)
    (hFraction : fraction < twoTo 52) :
    ofBits (twoTo 52 * field + fraction) =
      if field = 0 then ofParts fraction (-1074) false
      else ofParts (twoTo 52 + fraction) ((field : ℤ) - 1075) (fraction == 0 && field != 1) := by
  have hMod : (twoTo 52 * field + fraction) % twoTo 52 = fraction := by
    rw [Nat.mul_add_mod, Nat.mod_eq_of_lt hFraction]
  have hDiv : (twoTo 52 * field + fraction) / twoTo 52 % twoTo 11 = field := by
    rw [Nat.mul_add_div (by decide), Nat.div_eq_of_lt hFraction, Nat.add_zero,
      Nat.mod_eq_of_lt hField]
  unfold ofBits
  rw [hMod, hDiv]

/-- Every bit pattern without a sign has the parts that `ofBits_eq` speaks of. -/
theorem exists_parts {n : Nat} (h : n < twoTo 63) :
    ∃ field fraction, field < twoTo 11 ∧ fraction < twoTo 52 ∧ n = twoTo 52 * field + fraction := by
  refine ⟨n / twoTo 52, n % twoTo 52, ?_, Nat.mod_lt _ (by decide), (Nat.div_add_mod _ _).symm⟩
  exact Nat.div_lt_of_lt_mul h

theorem ofBits_unit_pos (n : Nat) : 0 < (ofBits n).unit := by
  unfold ofBits
  dsimp only
  split
  · exact ofParts_unit_pos ..
  · exact ofParts_unit_pos ..

/-- The ends of an interval belong to it when the bit pattern is even. -/
theorem closed_ofBits {n : Nat} (h : n < twoTo 63) : (ofBits n).closed = (n % 2 == 0) := by
  obtain ⟨field, fraction, hField, hFraction, rfl⟩ := exists_parts h
  have hEven : ∀ k, (twoTo 52 * k + fraction) % 2 = fraction % 2 := by
    intro k
    have hTwo : twoTo 52 = 2 * twoTo 51 := rfl
    rw [hTwo, Nat.mul_assoc, Nat.mul_add_mod]
  rw [ofBits_eq hField hFraction, hEven]
  split
  · rfl
  · have hHidden := hEven 1
    rw [Nat.mul_one] at hHidden
    unfold ofParts
    simp only [hHidden]

theorem ofBits_subnormal {fraction : Nat} (h : fraction < twoTo 52) :
    ofBits fraction = ofParts fraction (-1074) false := by
  have hBits : ofBits (twoTo 52 * 0 + fraction) = _ := ofBits_eq (by decide) h
  rwa [Nat.mul_zero, Nat.zero_add, if_pos rfl] at hBits

theorem ofBits_normal {k fraction : Nat} (hField : k + 1 < twoTo 11)
    (hFraction : fraction < twoTo 52) :
    ofBits (twoTo 52 * (k + 1) + fraction) =
      ofParts (twoTo 52 + fraction) ((k : ℤ) - 1074) (fraction == 0 && k != 0) := by
  rw [ofBits_eq hField hFraction, if_neg (Nat.succ_ne_zero k)]
  have hExponent : ((k + 1 : Nat) : ℤ) - 1075 = k - 1074 := by omega
  have hNarrow : (k + 1 != 1) = (k != 0) := by simp [bne]
  rw [hExponent, hNarrow]

theorem upper_ofParts_eq_lower_succ (mantissa : Nat) (exponent : ℤ) (narrowBelow : Bool) :
    (ofParts mantissa exponent narrowBelow).upper =
      (ofParts (mantissa + 1) exponent false).lower := by
  rw [upper_ofParts, lower_ofParts (Nat.succ_pos _)]
  simp only [Bool.false_eq_true, if_false]
  push_cast
  ring

/-- Above the greatest fraction doubles are twice as far apart. -/
theorem upper_ofParts_eq_lower_next {fraction : Nat} (hLast : fraction + 1 = twoTo 52)
    (exponent : ℤ) (narrowBelow : Bool) :
    (ofParts (twoTo 52 + fraction) exponent narrowBelow).upper =
      (ofParts (twoTo 52) (exponent + 1) true).lower := by
  -- half a step above the one is a quarter of a step below the other, twice as long
  have hFull : (fraction : ℚ) = twoTo 52 - 1 := by
    rw [← hLast]
    push_cast
    ring
  have hStep : (2 : ℚ) ^ (exponent + 1 - 2) = 2 * 2 ^ (exponent - 2) := by
    rw [show exponent + 1 - 2 = 1 + (exponent - 2) by ring, zpow_add₀ (by norm_num), zpow_one]
  rw [upper_ofParts, lower_ofParts (by decide), if_pos rfl, hStep]
  push_cast
  rw [hFull]
  ring

/-- Neighbouring intervals meet. -/
theorem upper_eq_lower_succ {n : Nat} (h : n + 1 < twoTo 63) :
    (ofBits n).upper = (ofBits (n + 1)).lower := by
  obtain ⟨field, fraction, hField, hFraction, rfl⟩ := exists_parts (Nat.lt_of_succ_lt h)
  by_cases hLast : fraction + 1 = twoTo 52
  · -- the next double has the next exponent and no fraction
    have hNext : twoTo 52 * field + fraction + 1 = twoTo 52 * (field + 1) + 0 := by
      rw [Nat.mul_add]
      omega
    have hField' : field + 1 < twoTo 11 := by
      rw [hNext, Nat.add_zero] at h
      exact Nat.lt_of_mul_lt_mul_left (h : _ < twoTo 52 * twoTo 11)
    rw [hNext, ofBits_normal hField' (by decide)]
    cases field with
    | zero =>
      rw [Nat.mul_zero, Nat.zero_add, ofBits_subnormal hFraction, upper_ofParts_eq_lower_succ,
        hLast]
      rfl
    | succ k =>
      have hExponent : ((k + 1 : Nat) : ℤ) - 1074 = k - 1074 + 1 := by omega
      rw [ofBits_normal hField hFraction, upper_ofParts_eq_lower_next hLast, hExponent]
      rfl
  · have hNext : fraction + 1 < twoTo 52 := by omega
    rw [Nat.add_assoc]
    cases field with
    | zero =>
      rw [Nat.mul_zero, Nat.zero_add, Nat.zero_add, ofBits_subnormal hFraction,
        ofBits_subnormal hNext, upper_ofParts_eq_lower_succ]
    | succ k =>
      rw [ofBits_normal hField hFraction, ofBits_normal hField hNext, upper_ofParts_eq_lower_succ]
      rfl

theorem lower_lt_upper {n : Nat} (hPos : 0 < n) (h : n < twoTo 63) :
    (ofBits n).lower < (ofBits n).upper := by
  obtain ⟨field, fraction, hField, hFraction, rfl⟩ := exists_parts h
  rw [ofBits_eq hField hFraction]
  have hParts : ∀ mantissa exponent narrowBelow, 0 < mantissa →
      (ofParts mantissa exponent narrowBelow).lower <
        (ofParts mantissa exponent narrowBelow).upper := by
    intro mantissa exponent narrowBelow hMantissa
    rw [upper_ofParts, lower_ofParts hMantissa]
    have hPower : (0 : ℚ) < 2 ^ (exponent - 2) := by positivity
    apply mul_lt_mul_of_pos_right _ hPower
    split <;> linarith
  split
  · rename_i hZero
    subst hZero
    exact hParts _ _ _ (by omega)
  · have hHidden : 0 < twoTo 52 := by decide
    exact hParts _ _ _ (by omega)

/-- Upper ends ascend. -/
theorem upper_le_upper {m n : Nat} (hmn : m ≤ n) (h : n < twoTo 63) :
    (ofBits m).upper ≤ (ofBits n).upper := by
  induction n, hmn using Nat.le_induction with
  | base => exact le_refl _
  | succ n hmn ih =>
    have hLower := upper_eq_lower_succ h
    have hUpper := lower_lt_upper (Nat.succ_pos n) h
    have := ih (by omega)
    linarith

theorem not_contains_of_lt {m n : Nat} (hmn : m < n) (h : n < twoTo 63) {x : ℚ}
    (hm : (ofBits m).Contains x) : ¬ (ofBits n).Contains x := by
  intro hn
  obtain ⟨n, rfl⟩ := Nat.exists_eq_succ_of_ne_zero (Nat.ne_of_gt (Nat.lt_of_le_of_lt m.zero_le hmn))
  have hMeet := upper_eq_lower_succ h
  have hLast : (ofBits m).upper ≤ (ofBits n).upper := upper_le_upper (by omega) (by omega)
  have hUpper := hm.bounds.2
  have hLower := hn.bounds.1
  rw [Nat.succ_eq_add_one] at hLower
  -- the rational is the common end of neighbours, which cannot both be closed
  have hClosed := hm.closed_of_end (Or.inr (by linarith))
  have hClosed' := hn.closed_of_end (Or.inl (by rw [Nat.succ_eq_add_one]; linarith))
  have hNeighbours : m = n := by
    -- with a double between them the two intervals would not touch
    by_contra hNe
    have hBetween := upper_le_upper (by omega : m + 1 ≤ n) (by omega)
    have hStrict := lower_lt_upper (Nat.succ_pos m) (by omega)
    have hMeet' := upper_eq_lower_succ (by omega : m + 1 < twoTo 63)
    rw [Nat.succ_eq_add_one] at hStrict
    linarith
  subst hNeighbours
  rw [closed_ofBits (by omega)] at hClosed
  rw [closed_ofBits h] at hClosed'
  simp only [beq_iff_eq] at hClosed hClosed'
  omega

theorem contains_zero : (ofBits 0).Contains 0 := by
  have hClosed : (ofBits 0).closed = true := closed_ofBits (by decide)
  have hUpper : (0 : ℚ) ≤ (4 * (0 : Nat) + 2) * 2 ^ ((-1074 : ℤ) - 2) := by positivity
  unfold Contains
  rw [if_pos hClosed, ofBits_subnormal (by decide), lower_ofParts_zero, upper_ofParts]
  exact ⟨le_refl 0, hUpper⟩

/-- A rational lies in the interval of one double at most. -/
theorem eq_of_contains {m n : Nat} (hm : m < twoTo 63) (hn : n < twoTo 63) {x : ℚ}
    (h : (ofBits m).Contains x) (h' : (ofBits n).Contains x) : m = n := by
  rcases Nat.lt_trichotomy m n with hlt | heq | hgt
  · exact absurd h' (not_contains_of_lt hlt hn h)
  · exact heq
  · exact absurd h (not_contains_of_lt hgt hm h')

end Binary

end DocumentQuery
