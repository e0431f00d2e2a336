import Stencil.Proofs.Monotone

set_option autoImplicit false

namespace Stencil.Numeric

theorem Decimal.exponent_le_normalize (d : Decimal) : d.exponent ≤ d.normalize.exponent := by
  fun_induction Decimal.normalize d with
  | case1 d more ih => exact Int.le_trans (Int.le_add_one (Int.le_refl _)) ih
  | case2 d _ => exact Int.le_refl _

theorem Decimal.den_of_whole {d : Decimal} (whole : 0 ≤ d.exponent) : d.den = 1 := by
  have none : (-d.exponent).toNat = 0 := by omega
  rw [Decimal.den, none, Nat.pow_eq, Nat.pow_zero]

theorem length_digits_le {n k : Nat} (small : n < 10 ^ k) (present : 0 < k) : (digits n).length ≤ k := by
  induction k generalizing n with
  | zero => exact absurd present (Nat.lt_irrefl 0)
  | succ k ih =>
    unfold digits
    split
    · exact Nat.succ_le_succ (Nat.zero_le k)
    · next large =>
      rw [Nat.pow_succ] at small
      have some : 0 < k := by
        apply Nat.pos_of_ne_zero
        rintro rfl
        omega
      rw [List.length_append, List.length_singleton]
      exact Nat.succ_le_succ (ih (Nat.div_lt_of_lt_mul (by omega)) some)

theorem digits_text_mul_ten {n : Nat} (positive : n ≠ 0) : digitsText (n * 10) = digitsText n ++ ['0'] := by
  have zero : ['0'] = [0].map digitChar := rfl
  rw [digitsText, digits, if_neg (by omega), Nat.mul_div_cancel n (by decide), Nat.mul_mod_left, List.map_append, zero,
    digitsText]

theorem digits_text_mul_pow {n zeros : Nat} (sound : n = 0 → zeros = 0) :
    digitsText (n * 10 ^ zeros) = digitsText n ++ List.replicate zeros '0' := by
  by_cases zero : n = 0
  · rw [sound zero, Nat.pow_zero, Nat.mul_one, List.replicate_zero, List.append_nil]
  · clear sound
    induction zeros with
    | zero => simp
    | succ zeros ih =>
      have positive : n * 10 ^ zeros ≠ 0 := Nat.mul_ne_zero zero (Nat.pos_iff_ne_zero.mp (Nat.pow_pos (by decide)))
      rw [Nat.pow_succ, ← Nat.mul_assoc, digits_text_mul_ten positive, ih, List.append_assoc, List.replicate_succ']

theorem positional_of_whole_num {d : Decimal} (whole : 0 ≤ d.exponent) (sound : d.coefficient = 0 → d.exponent = 0) :
    d.positional = digitsText d.num := by
  have none (zero : d.coefficient = 0) : d.exponent.toNat = 0 := by rw [sound zero]; rfl
  rw [Json.positional_of_whole whole, ← digits_text_mul_pow none]
  rfl

namespace Binary64

section Magnitude

variable {x y : Binary64} (same : x.magnitude = y.magnitude)
include same

theorem exponent_congr : x.exponent = y.exponent := by
  have field : x.exponentField = y.exponentField := congrArg (· / hiddenBit) same
  rw [exponent, exponent, field]

theorem significand_congr : x.significand = y.significand := by
  have field : x.exponentField = y.exponentField := congrArg (· / hiddenBit) same
  have fraction : x.fractionField = y.fractionField := congrArg (· % hiddenBit) same
  rw [significand, significand, field, fraction]

theorem num_congr : x.num = y.num := by
  rw [num, num, significand_congr same, exponent_congr same]

theorem den_congr : x.den = y.den := by
  rw [den, den, exponent_congr same]

theorem is_finite_congr : x.isFinite = y.isFinite := by
  rw [isFinite, isFinite, same]

theorem is_whole_congr : x.isWhole = y.isWhole := by
  rw [isWhole, isWhole, is_finite_congr same, num_congr same, den_congr same]

theorem units_congr (places : Nat) : x.units places = y.units places := by
  rw [units, units, num_congr same, den_congr same]

theorem on_grid_congr (tie : TieRule) (place : Int) : x.onGrid tie place = y.onGrid tie place := by
  simp only [onGrid, readsBack, num_congr same, den_congr same, same]

theorem shortest_congr (tie : TieRule) : x.shortest tie = y.shortest tie := by
  have zero : x.isZero = y.isZero := congrArg (· == 0) same
  have exact : x.exactDecimal = y.exactDecimal := by
    rw [exactDecimal, exactDecimal, num_congr same, exponent_congr same]
  simp only [shortest, num_congr same, den_congr same, on_grid_congr same]
  rw [zero, exact]

end Magnitude

theorem magnitude_neg (x : Binary64) : x.neg.magnitude = x.magnitude :=
  magnitude_of_magnitude _ (Nat.mod_lt _ (by decide))

theorem is_negative_neg (x : Binary64) : x.neg.isNegative = !x.isNegative :=
  is_negative_of_magnitude _ (Nat.mod_lt _ (by decide))

theorem value_neg (x : Binary64) : x.neg.value = -x.value := by
  rw [value, value, is_negative_neg, significand_congr x.magnitude_neg, exponent_congr x.magnitude_neg]
  cases x.isNegative <;> simp

theorem eq_of_value {x y : Binary64} (finite : x.isFinite = true) (bounded : y.isFinite = true)
    (sign : x.isNegative = y.isNegative) (same : x.value = y.value) : x = y := by
  have magnitude : x.magnitude = y.magnitude := by
    have ratio : (x.num : ℚ) / x.den = (y.num : ℚ) / y.den := by rw [← abs_value, ← abs_value, same]
    rw [div_eq_div_iff x.den_ne_zero y.den_ne_zero] at ratio
    rw [← nearest_magnitude_num_den finite, ← nearest_magnitude_num_den bounded]
    exact nearest_magnitude_congr x.den_pos y.den_pos (by exact_mod_cast ratio)
  rw [← of_magnitude_self x, ← of_magnitude_self y, sign, magnitude]

theorem value_of_is_zero {x : Binary64} (zero : x.isZero = true) : x.value = 0 := by
  rw [← abs_eq_zero, abs_value, Json.num_of_is_zero zero, Nat.cast_zero, zero_div]

theorem is_negative_eq {x : Binary64} (nonzero : x.value ≠ 0) : x.isNegative = decide (x.value < 0) := by
  have value := x.value_eq
  have positive : 0 < |x.value| := abs_pos.mpr nonzero
  cases negative : x.isNegative with
  | true =>
    rw [negative, if_pos rfl] at value
    exact (decide_eq_true (by linarith)).symm
  | false =>
    rw [negative, if_neg Bool.false_ne_true] at value
    exact (decide_eq_false (by linarith)).symm

theorem abs_value_of_int {n : Int} (small : |n| ≤ 2 ^ 53) : |(ofInt n).value| = n.natAbs := by
  have magnitude : (ofInt n).magnitude = (ofNat n.natAbs).magnitude := by
    rw [ofInt, ofNat, magnitude_of_ratio, magnitude_of_ratio]
  have product : (ofNat n.natAbs).num = n.natAbs * (ofNat n.natAbs).den := by
    rcases Nat.lt_or_ge n.natAbs (2 ^ 53) with fewer | reached
    · exact num_of_nat fewer
    · have last : n.natAbs = 2 ^ 53 := by
        rw [Int.abs_eq_natAbs] at small
        omega
      rw [last]
      decide +kernel
  rw [abs_value, num_congr magnitude, den_congr magnitude, div_eq_iff (den_ne_zero _), product, Nat.cast_mul]

theorem is_negative_of_int (n : Int) : (ofInt n).isNegative = decide (n < 0) :=
  is_negative_of_ratio ..

theorem value_of_int {n : Int} (small : |n| ≤ 2 ^ 53) : (ofInt n).value = n := by
  have cast : ((n.natAbs : Nat) : ℚ) = |(n : ℚ)| := by rw [Nat.cast_natAbs, Int.cast_abs]
  rw [value_eq, abs_value_of_int small, is_negative_of_int, cast]
  split
  · next negative => rw [abs_of_neg (by exact_mod_cast of_decide_eq_true negative), neg_neg]
  · next positive =>
    rw [decide_eq_true_eq, not_lt] at positive
    exact abs_of_nonneg (by exact_mod_cast positive)

theorem length_digits_of_exponent_neg {x : Binary64} (negative : x.exponent < 0) :
    (digits (x.num / x.den)).length ≤ 17 := by
  have whole : x.exponent.toNat = 0 := by omega
  have bits : x.num < 2 ^ 53 := by
    rw [num, whole, Nat.pow_eq, Nat.pow_zero, Nat.mul_one]
    exact x.significand_lt
  have small : x.num / x.den < 10 ^ 17 := Nat.lt_of_le_of_lt (Nat.div_le_self _ _) (Nat.lt_trans bits (by decide))
  exact length_digits_le small (by decide)

theorem text_plain {x : Binary64} (finite : x.isFinite = true) :
    x.text .plain = signed x.isNegative (x.shortest .up).positional := by
  have positional : x.magnitudeText .plain = (x.shortest .up).positional := if_pos (Bool.or_true _)
  rw [text, if_pos finite, positional]

section Whole

variable {x : Binary64} (whole : x.isWhole = true)
include whole

theorem is_finite_of_whole : x.isFinite = true := (Bool.and_eq_true_iff.mp whole).1

theorem div_mul_den : x.num / x.den * x.den = x.num :=
  Nat.div_mul_cancel (Nat.dvd_of_mod_eq_zero (beq_iff_eq.mp (Bool.and_eq_true_iff.mp whole).2))

theorem abs_value_of_whole : |x.value| = (x.num / x.den : Nat) := by
  rw [abs_value, div_eq_iff x.den_ne_zero]
  exact_mod_cast (div_mul_den whole).symm

theorem value_of_whole : x.value = withSign x.isNegative (x.num / x.den) := by
  rw [value_eq, abs_value_of_whole whole, withSign]
  split
  · push_cast
    rfl
  · rfl

theorem nearest_magnitude_of_whole : nearestMagnitude (x.num / x.den) 1 = x.magnitude := by
  have ratio : x.num / x.den * x.den = x.num * 1 := (div_mul_den whole).trans (Nat.mul_one _).symm
  exact (nearest_magnitude_congr Nat.one_pos x.den_pos ratio).trans
    (nearest_magnitude_num_den (is_finite_of_whole whole))

theorem is_some_on_grid_zero (tie : TieRule) : (x.onGrid tie 0).isSome = true := by
  refine is_some_on_grid ?_
  have ones : x.num * Nat.pow 10 (-(0 : Int)).toNat / (x.den * Nat.pow 10 (0 : Int).toNat) = x.num / x.den := by
    simp
  have value : (Decimal.mk (x.num / x.den) 0).num = x.num / x.den := Nat.mul_one _
  rw [ones, readsBack, value, Decimal.den_of_whole (Int.le_refl 0), beq_iff_eq]
  exact nearest_magnitude_of_whole whole

theorem point_position_of_whole (nonzero : x.isZero = false) :
    pointPosition x.num x.den = (digits (x.num / x.den)).length := by
  have positive : 0 < x.num := Nat.pos_of_ne_zero (num_ne_zero (magnitude_ne_zero nonzero))
  have divides : x.den ∣ x.num := Dvd.intro_left _ (div_mul_den whole)
  exact if_pos (Nat.le_of_dvd positive divides)

theorem exists_hit (tie : TieRule) {count : Nat} (present : 0 < count) :
    ∃ d, ((List.range count).findSome? fun (done : Nat) => x.onGrid tie (count - (done + 1 : Nat))) = some d ∧
      0 ≤ d.exponent := by
  have reached : ((List.range count).findSome? fun (done : Nat) => x.onGrid tie (count - (done + 1 : Nat))).isSome := by
    refine List.findSome?_isSome_iff.mpr ⟨count - 1, List.mem_range.mpr (by omega), ?_⟩
    have ones : (count : Int) - (count - 1 + 1 : Nat) = 0 := by omega
    rw [ones]
    exact is_some_on_grid_zero whole tie
  obtain ⟨d, hit⟩ := Option.isSome_iff_exists.mp reached
  obtain ⟨done, member, found⟩ := List.exists_of_findSome?_eq_some hit
  have before := List.mem_range.mp member
  refine ⟨d, hit, ?_⟩
  rw [(on_grid_eq_some found).2]
  omega

-- Either the search comes to the ones and ends there at the latest, or it does not come so far.
theorem exponent_shortest_of_whole (tie : TieRule) : 0 ≤ (x.shortest tie).exponent := by
  cases zero : x.isZero with
  | true => rw [shortest, if_pos zero]
  | false =>
    have present : 0 < (digits (x.num / x.den)).length := List.length_pos_iff.mpr (digits_ne_nil _)
    rw [shortest, zero]
    refine Int.le_trans ?_ (Decimal.exponent_le_normalize _)
    simp only [point_position_of_whole whole zero]
    by_cases few : (digits (x.num / x.den)).length ≤ 17
    · obtain ⟨more, split⟩ := Nat.exists_eq_add_of_le few
      obtain ⟨d, hit, least⟩ := exists_hit whole tie present
      rw [split, List.range_add, List.findSome?_append, hit]
      exact least
    · cases hit : (List.range 17).findSome? fun (done : Nat) =>
          x.onGrid tie ((digits (x.num / x.den)).length - (done + 1 : Nat)) with
      | none =>
        have large : 0 ≤ x.exponent := by
          by_contra negative
          exact few (length_digits_of_exponent_neg (not_le.mp negative))
        simp only [Option.getD_none, exactDecimal]
        omega
      | some d =>
        obtain ⟨done, member, found⟩ := List.exists_of_findSome?_eq_some hit
        have before := List.mem_range.mp member
        simp only [Option.getD_some, (on_grid_eq_some found).2]
        omega

theorem num_shortest_of_whole (tie : TieRule) (small : x.num / x.den ≤ 2 ^ 53) :
    (x.shortest tie).num = x.num / x.den := by
  rcases Nat.lt_or_eq_of_le small with less | power
  · have back := reads_back_shortest (is_finite_of_whole whole) tie
    rw [readsBack, Decimal.den_of_whole (exponent_shortest_of_whole whole tie), beq_iff_eq,
      ← nearest_magnitude_of_whole whole] at back
    exact (eq_of_nearest_magnitude_eq less back.symm).symm
  -- The next whole number is rounded to this one, so reading back does not tell its digits; the search is run instead.
  · have same := nearest_magnitude_of_whole whole
    rw [power] at same ⊢
    have first : x.magnitude = (Binary64.mk 0x4340000000000000).magnitude := same.symm.trans (by decide +kernel)
    rw [shortest_congr first]
    cases tie <;> decide +kernel

theorem text_of_whole : x.text .plain = signed x.isNegative (digitsText (x.shortest .up).num) := by
  have place := exponent_shortest_of_whole whole .up
  rw [text_plain (is_finite_of_whole whole), positional_of_whole_num place Json.exponent_shortest_of_zero]

end Whole

theorem whole_of_value {x : Binary64} (finite : x.isFinite = true) {m : Int} (same : x.value = m) :
    x.isWhole = true ∧ x.num / x.den = m.natAbs := by
  have product : x.num = m.natAbs * x.den := by
    have ratio := x.abs_value
    rw [same, ← Int.cast_abs, Int.abs_eq_natAbs, eq_div_iff x.den_ne_zero] at ratio
    exact_mod_cast ratio.symm
  rw [isWhole, finite, product, Nat.mul_mod_left, Nat.mul_div_cancel _ x.den_pos]
  exact ⟨rfl, rfl⟩

theorem is_whole_iff {x : Binary64} (finite : x.isFinite = true) : x.isWhole = true ↔ ∃ m : Int, x.value = m := by
  constructor
  · exact fun whole => ⟨_, value_of_whole whole⟩
  · rintro ⟨m, same⟩
    exact (whole_of_value finite same).1

end Binary64

end Stencil.Numeric
