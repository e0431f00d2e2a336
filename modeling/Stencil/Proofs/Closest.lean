import Stencil.Proofs.Whole

set_option autoImplicit false

namespace Stencil.Numeric

theorem one_le_apart (r : ℚ) {n m : Int} (other : m ≠ n) : 1 ≤ |r - n| + |r - m| := by
  have apart : (1 : ℚ) ≤ |(n : ℚ) - m| := by exact_mod_cast Int.one_le_abs (sub_ne_zero.mpr (Ne.symm other))
  have detour := abs_sub_le (n : ℚ) r m
  rw [abs_sub_comm (n : ℚ) r] at detour
  exact le_trans apart detour

theorem Nearest.least {r : ℚ} {n : Int} (nearest : Nearest r n) (m : Int) : |r - n| ≤ |r - m| := by
  by_cases same : m = n
  · rw [same]
  · have apart := one_le_apart r same
    have close := nearest.1
    linarith

theorem Nearest.even {r : ℚ} {n m : Int} (nearest : Nearest r n) (tie : |r - n| = |r - m|) (other : m ≠ n) :
    Even n := by
  have apart := one_le_apart r other
  rw [← tie] at apart
  exact nearest.2 (le_antisymm nearest.1 (by linarith))

theorem middle_le {r a b : ℚ} (less : b < a) (nearer : |r - a| ≤ |r - b|) : a + b ≤ 2 * r := by
  have squares := sq_le_sq.mpr nearer
  nlinarith

theorem le_middle {r a b : ℚ} (less : b < a) (nearer : |r - b| ≤ |r - a|) : 2 * r ≤ a + b := by
  have squares := sq_le_sq.mpr nearer
  nlinarith

namespace Binary64

-- No finite number is nearer, and of two that are as near as any this one is even.
structure Closest (x : Binary64) (r : ℚ) : Prop where
  finite : x.isFinite = true
  least : ∀ y : Binary64, y.isFinite = true → |r - x.value| ≤ |r - y.value|
  even : ∀ y : Binary64, y.isFinite = true → |r - x.value| = |r - y.value| → y.value ≠ x.value → Even x.significand

theorem closest_value {x : Binary64} (finite : x.isFinite = true) : x.Closest x.value where
  finite := finite
  least y _ := by
    rw [sub_self, abs_zero]
    exact abs_nonneg _
  even y _ tie other := by
    rw [sub_self, abs_zero, eq_comm, abs_eq_zero, sub_eq_zero] at tie
    exact absurd tie.symm other

theorem finite_neg {x : Binary64} : x.neg.isFinite = true ↔ x.isFinite = true := by
  rw [is_finite_congr x.magnitude_neg]

theorem Closest.neg {x : Binary64} {r : ℚ} (closest : x.Closest r) : x.neg.Closest (-r) := by
  have distance (y : Binary64) : |-r - y.value| = |r - y.neg.value| := by
    rw [value_neg, ← abs_neg]
    congr 1
    ring
  have own : |-r - x.neg.value| = |r - x.value| := by
    rw [value_neg, ← neg_sub', abs_neg]
  refine ⟨finite_neg.mpr closest.finite, fun y bounded => ?_, fun y bounded tie other => ?_⟩
  · rw [own, distance]
    exact closest.least _ (finite_neg.mpr bounded)
  · rw [own, distance] at tie
    rw [significand_congr x.magnitude_neg]
    refine closest.even _ (finite_neg.mpr bounded) tie fun same => other ?_
    rw [value_neg, ← same, value_neg, neg_neg]

theorem Closest.mono {x y : Binary64} {r s : ℚ} (first : x.Closest r) (second : y.Closest s) (below : r < s) :
    x.value ≤ y.value := by
  by_contra less
  have low := middle_le (not_le.mp less) (first.least y second.finite)
  have high := le_middle (not_le.mp less) (second.least x first.finite)
  linarith

theorem Closest.value_le {x y : Binary64} {r : ℚ} (closest : y.Closest r) (finite : x.isFinite = true)
    (below : x.value ≤ r) : x.value ≤ y.value := by
  rcases lt_or_eq_of_le below with less | same
  · exact (closest_value finite).mono closest less
  · have near := closest.least x finite
    rw [same, sub_self, abs_zero] at near
    have equal := abs_eq_zero.mp (le_antisymm near (abs_nonneg _))
    linarith

theorem Closest.le_value {x y : Binary64} {r : ℚ} (closest : y.Closest r) (finite : x.isFinite = true)
    (above : r ≤ x.value) : y.value ≤ x.value := by
  have negated := closest.neg.value_le (finite_neg.mpr finite)
    (by rw [value_neg]; exact neg_le_neg above)
  rw [value_neg, value_neg] at negated
  exact neg_le_neg_iff.mp negated

theorem abs_value_eq (x : Binary64) : |x.value| = x.significand * 2 ^ x.exponent := by
  have positive : (0 : ℚ) ≤ x.significand * 2 ^ x.exponent := by positivity
  rw [value, abs_mul, abs_sign, one_mul, abs_of_nonneg positive]

theorem even_hidden_bit : Even hiddenBit := by decide

theorem even_significand_iff (x : Binary64) : Even x.significand ↔ Even x.magnitude := by
  have fields : Even ((x.exponent + 1074).toNat * hiddenBit) := even_hidden_bit.mul_left _
  rw [← x.magnitude_eq, Nat.even_add, iff_true_left fields]

theorem abs_value_of_magnitude {x : Binary64} {m : Nat} {q : Int} (least : -1074 ≤ q)
    (normal : hiddenBit ≤ m ∨ q = -1074) (most : m ≤ 2 * hiddenBit)
    (whole : x.magnitude = (q + 1074).toNat * hiddenBit + m) : |x.value| = m * 2 ^ q := by
  have lower : 2 ^ 52 = hiddenBit := by decide
  have upper : 2 ^ 53 = 2 * hiddenBit := by decide
  rw [abs_value_eq]
  rcases Nat.lt_or_ge m hiddenBit with small | large
  · obtain rfl : q = -1074 := normal.resolve_left (Nat.not_le.mpr small)
    have field : x.magnitude = m := by simpa using whole
    have none : x.exponentField = 0 := by rw [exponentField, field, Nat.div_eq_of_lt small]
    rw [significand, exponent, if_pos none, if_pos none, fractionField, field, Nat.mod_eq_of_lt small]
  · rcases Nat.lt_or_eq_of_le most with fewer | carry
    · obtain ⟨significand, exponent⟩ := significand_exponent (lower ▸ large) (upper ▸ fewer) least whole
      rw [significand, exponent]
    · have step : (q + 1 + 1074).toNat = (q + 1074).toNat + 1 := by omega
      have carried : x.magnitude = (q + 1 + 1074).toNat * hiddenBit + hiddenBit := by
        rw [whole, carry, step, Nat.add_mul, Nat.one_mul, Nat.two_mul, Nat.add_assoc]
      obtain ⟨significand, exponent⟩ :=
        significand_exponent (Nat.le_of_eq lower) (by decide) (by omega : -1074 ≤ q + 1) carried
      rw [significand, exponent, carry, zpow_add_one₀ two_ne_zero]
      push_cast
      ring

theorem value_of_positive {x : Binary64} (positive : x.isNegative = false) : x.value = |x.value| := by
  have value := x.value_eq
  rwa [positive, if_neg Bool.false_ne_true] at value

theorem exists_units {y : Binary64} {unit : Int} (coarse : unit ≤ y.exponent) :
    ∃ z : Int, y.value = z * 2 ^ unit ∧ (Even y.significand → Even z) := by
  have scaled : (y.significand : ℚ) * 2 ^ y.exponent =
      ((y.significand * 2 ^ (y.exponent - unit).toNat : Nat) : ℚ) * 2 ^ unit := by
    have power : (2 : ℚ) ^ y.exponent = 2 ^ (y.exponent - unit).toNat * 2 ^ unit := by
      rw [← zpow_natCast, ← zpow_add₀ two_ne_zero]
      congr 1
      omega
    rw [power]
    push_cast
    ring
  refine ⟨withSign y.isNegative (y.significand * 2 ^ (y.exponent - unit).toNat), ?_, fun even => ?_⟩
  · rw [value, scaled, withSign]
    cases y.isNegative <;> simp
  · have multiple : Even ((y.significand * 2 ^ (y.exponent - unit).toNat : Nat) : Int) :=
      (Int.even_coe_nat _).mpr (even.mul_right _)
    cases y.isNegative
    · exact multiple
    · exact multiple.neg

theorem abs_value_lt {y : Binary64} {unit : Int} (fine : y.exponent < unit) : |y.value| < 2 ^ (unit + 52) := by
  have bits : (y.significand : ℚ) < 2 ^ (53 : Int) := by exact_mod_cast y.significand_lt
  have power : (2 : ℚ) ^ y.exponent ≤ 2 ^ (unit - 1) := zpow_le_zpow_right₀ one_le_two (by omega)
  calc |y.value| = y.significand * 2 ^ y.exponent := y.abs_value_eq
    _ < 2 ^ (53 : Int) * 2 ^ y.exponent := mul_lt_mul_of_pos_right bits (by positivity)
    _ ≤ 2 ^ (53 : Int) * 2 ^ (unit - 1) := mul_le_mul_of_nonneg_left power (by positivity)
    _ = 2 ^ (unit + 52) := by
      rw [← zpow_add₀ two_ne_zero]
      congr 1
      omega

theorem apart_units (r z : ℚ) (unit : Int) : |r - z * 2 ^ unit| = |r / 2 ^ unit - z| * 2 ^ unit := by
  have power : (0 : ℚ) < 2 ^ unit := by positivity
  rw [← abs_of_pos power, ← abs_mul, abs_of_pos power, sub_mul, div_mul_cancel₀ _ (ne_of_gt power)]

section Rounded

variable {num den : Nat}

theorem neg_of_ratio (num den : Nat) : (ofRatio false num den).neg = ofRatio true num den := by
  rw [neg, is_negative_of_ratio, magnitude_of_ratio]
  rfl

variable (positive : num ≠ 0) (below : den ≠ 0)
include positive below

theorem abs_value_of_ratio {negative : Bool} (finite : (ofRatio negative num den).isFinite = true) :
    |(ofRatio negative num den).value| = keptBits num den * 2 ^ unitExponent num den ∧
      (Even (ofRatio negative num den).significand ↔ Even (keptBits num den)) := by
  have unit := unit_exponent_eq positive below
  have bound : (ofRatio negative num den).magnitude < infinityMagnitude := of_decide_eq_true finite
  have whole : (ofRatio negative num den).magnitude =
      (unitExponent num den + 1074).toNat * hiddenBit + keptBits num den := by
    rw [magnitude_of_ratio, nearest_magnitude_eq positive] at bound ⊢
    omega
  refine ⟨abs_value_of_magnitude (by omega) ?_ (kept_bits_le positive below) whole, ?_⟩
  · rcases Int.lt_or_eq_of_le (by omega : -1074 ≤ unitExponent num den) with normal | least
    · exact .inl (hidden_bit_le_kept_bits positive below normal)
    · exact .inr least.symm
  · have fields : Even ((unitExponent num den + 1074).toNat * hiddenBit) := even_hidden_bit.mul_left _
    rw [even_significand_iff, whole, Nat.even_add, iff_true_left fields]

-- A finite number has units as large as those of the fraction, or it lies below all numbers of the fraction's binade.
theorem units_or_far (y : Binary64) :
    (∃ z : Int, y.value = z * 2 ^ unitExponent num den ∧ (Even y.significand → Even z)) ∨
      |(num : ℚ) / den - keptBits num den * 2 ^ unitExponent num den| < |(num : ℚ) / den - y.value| := by
  rcases Int.lt_or_le y.exponent (unitExponent num den) with fine | coarse
  · have reached := pow_unit_exponent_le positive below (Int.lt_of_le_of_lt y.exponent_ge fine)
    have power : ((hiddenBit : Int) : ℚ) * 2 ^ unitExponent num den = 2 ^ (unitExponent num den + 52) := by
      have bit : ((hiddenBit : Int) : ℚ) = 2 ^ (52 : Int) := by norm_num [hiddenBit]
      rw [bit, ← zpow_add₀ two_ne_zero, add_comm]
    have near := mul_le_mul_of_nonneg_right ((nearest_kept_bits num below).least hiddenBit)
      (by positivity : (0 : ℚ) ≤ 2 ^ unitExponent num den)
    rw [← apart_units, ← apart_units, power, abs_of_nonneg (sub_nonneg.mpr reached), Int.cast_natCast] at near
    have small := (abs_lt.mp (abs_value_lt fine)).2
    refine .inr (lt_of_le_of_lt near (lt_of_lt_of_le ?_ (le_abs_self _)))
    linarith
  · exact .inl (exists_units coarse)

end Rounded

theorem value_of_ratio_zero (den : Nat) : (ofRatio false 0 den).value = 0 := by
  refine value_of_is_zero ?_
  rw [isZero, magnitude_of_ratio, nearest_magnitude_zero]
  rfl

theorem value_of_ratio {num den : Nat} (positive : num ≠ 0) (below : den ≠ 0)
    (finite : (ofRatio false num den).isFinite = true) :
    (ofRatio false num den).value = keptBits num den * 2 ^ unitExponent num den := by
  rw [value_of_positive (is_negative_of_ratio ..)]
  exact (abs_value_of_ratio positive below finite).1

theorem closest_of_ratio_false {num den : Nat} (below : den ≠ 0) (finite : (ofRatio false num den).isFinite = true) :
    (ofRatio false num den).Closest ((num : ℚ) / den) := by
  by_cases zero : num = 0
  · subst zero
    have value : (ofRatio false 0 den).value = ((0 : Nat) : ℚ) / den := by
      rw [value_of_ratio_zero, Nat.cast_zero, zero_div]
    exact value ▸ closest_value finite
  · have value := value_of_ratio zero below finite
    have even := (abs_value_of_ratio zero below finite).2
    have nearest := nearest_kept_bits num below
    refine ⟨finite, fun y _ => ?_, fun y _ tie other => ?_⟩
    · rw [value]
      rcases units_or_far zero below y with ⟨z, units, _⟩ | far
      · rw [units, apart_units, apart_units]
        exact mul_le_mul_of_nonneg_right (nearest.least z) (by positivity)
      · exact le_of_lt far
    · rw [even]
      rw [value] at tie other
      rcases units_or_far zero below y with ⟨z, units, _⟩ | far
      · have power : (2 : ℚ) ^ unitExponent num den ≠ 0 := by positivity
        rw [units, apart_units, apart_units, mul_left_inj' power] at tie
        rw [units, Ne, mul_left_inj' power] at other
        exact (Int.even_coe_nat _).mp (nearest.even tie (by exact_mod_cast other))
      · exact absurd tie (ne_of_lt far)

theorem Closest.value_eq_false {num den : Nat} (below : den ≠ 0) (finite : (ofRatio false num den).isFinite = true)
    {y : Binary64} (closest : y.Closest ((num : ℚ) / den)) : y.value = (ofRatio false num den).value := by
  have rounded := closest_of_ratio_false below finite
  have tie := le_antisymm (closest.least _ finite) (rounded.least y closest.finite)
  by_contra other
  have even := closest.even _ finite tie (Ne.symm other)
  by_cases zero : num = 0
  · subst zero
    rw [value_of_ratio_zero, Nat.cast_zero, zero_div, sub_zero, abs_zero, zero_sub, abs_neg, abs_eq_zero] at tie
    exact other (tie.trans (value_of_ratio_zero den).symm)
  · have value := value_of_ratio zero below finite
    rcases units_or_far zero below y with ⟨z, units, whole⟩ | far
    · have power : (2 : ℚ) ^ unitExponent num den ≠ 0 := by positivity
      have nearest := nearest_kept_bits num below
      rw [units, value, apart_units, apart_units, mul_left_inj' power] at tie
      have second : Nearest ((num : ℚ) / den / 2 ^ unitExponent num den) z :=
        ⟨tie.trans_le nearest.1, fun _ => whole even⟩
      rw [units, value, second.unique nearest] at other
      exact other rfl
    · rw [← value] at far
      exact absurd tie (ne_of_gt far)

section Signed

variable {negative : Bool} {num den : Nat} (below : den ≠ 0) (finite : (ofRatio negative num den).isFinite = true)
include below finite

theorem closest_of_ratio :
    (ofRatio negative num den).Closest ((if negative then -1 else 1) * ((num : ℚ) / den)) := by
  cases negative with
  | false => simpa using closest_of_ratio_false below finite
  | true =>
    have opposite : (ofRatio false num den).isFinite = true := finite_neg.mp (neg_of_ratio num den ▸ finite)
    simpa [neg_of_ratio] using (closest_of_ratio_false below opposite).neg

theorem Closest.value_eq {y : Binary64} (closest : y.Closest ((if negative then -1 else 1) * ((num : ℚ) / den))) :
    y.value = (ofRatio negative num den).value := by
  cases negative with
  | false => exact Closest.value_eq_false below finite (by simpa using closest)
  | true =>
    have opposite : (ofRatio false num den).isFinite = true := finite_neg.mp (neg_of_ratio num den ▸ finite)
    have value := Closest.value_eq_false below opposite (by simpa using closest.neg)
    rw [← neg_of_ratio, value_neg, ← value, value_neg, neg_neg]

end Signed

theorem signed_nat_abs (n : Int) : (if decide (n < 0) then -1 else 1) * ((n.natAbs : ℚ) / (1 : Nat)) = n := by
  rw [Nat.cast_one, div_one, Nat.cast_natAbs, Int.cast_abs]
  by_cases negative : n < 0
  · rw [if_pos (decide_eq_true negative), abs_of_neg (by exact_mod_cast negative), neg_one_mul, neg_neg]
  · rw [decide_eq_false negative, if_neg Bool.false_ne_true, one_mul,
      abs_of_nonneg (by exact_mod_cast not_lt.mp negative)]

section Integer

variable {n : Int} (finite : (ofInt n).isFinite = true)
include finite

theorem closest_of_int : (ofInt n).Closest n :=
  signed_nat_abs n ▸ closest_of_ratio Nat.one_ne_zero finite

theorem value_of_int_ne_zero (nonzero : n ≠ 0) : (ofInt n).value ≠ 0 := by
  have rounded := closest_of_int finite
  have one : (ofInt 1).value = 1 := by exact_mod_cast value_of_int (n := 1) (by decide)
  rcases lt_or_gt_of_ne nonzero with negative | positive
  · have above : (n : ℚ) ≤ (ofInt 1).neg.value := by
      rw [value_neg, one]
      exact_mod_cast Int.le_sub_one_of_lt negative
    have most := rounded.le_value (finite_neg.mpr (is_finite_of_int (by decide))) above
    rw [value_neg, one] at most
    exact ne_of_lt (lt_of_le_of_lt most (by norm_num))
  · have below : (ofInt 1).value ≤ (n : ℚ) := by
      rw [one]
      exact_mod_cast positive
    have least := rounded.value_le (is_finite_of_int (by decide)) below
    rw [one] at least
    exact ne_of_gt (lt_of_lt_of_le one_pos least)

theorem closest_of_int_iff (nonzero : n ≠ 0) {x : Binary64} : x.Closest n ↔ x = ofInt n := by
  refine ⟨fun closest => ?_, fun same => same ▸ closest_of_int finite⟩
  have value : x.value = (ofInt n).value := Closest.value_eq Nat.one_ne_zero finite (by rwa [signed_nat_abs])
  have rounded := value_of_int_ne_zero finite nonzero
  refine eq_of_value closest.finite finite ?_ value
  rw [is_negative_eq rounded, is_negative_eq (value ▸ rounded), value]

end Integer

end Binary64

end Stencil.Numeric
