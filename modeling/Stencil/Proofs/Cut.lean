import Stencil.Proofs.Decimals

set_option autoImplicit false

namespace Stencil.Numeric

namespace Decimal96

theorem cut_eq_none {negative : Bool} {num den most : Nat} (missing : cut? negative num den most = none) :
    2 ^ 96 ≤ num / den := by
  induction most with
  | zero => exact of_parts_eq_none missing (by decide)
  | succ most ih => exact ih (Option.or_eq_none_iff.mp missing).2

theorem cut_eq_some {negative : Bool} {num den most : Nat} {d : Decimal96} (few : most ≤ 28)
    (found : cut? negative num den most = some d) :
    d.negative = negative ∧ d.coefficient = num * 10 ^ d.places / den ∧
      (d.places = most ∨ 2 ^ 96 ≤ num * 10 ^ (d.places + 1) / den) := by
  induction most with
  | zero =>
    obtain ⟨sign, coefficient, places⟩ := of_parts_eq_some found
    exact ⟨sign, by rw [coefficient, places, pow_zero, mul_one], .inl places⟩
  | succ most ih =>
    rcases Option.or_eq_some_iff.mp found with here | ⟨missing, shorter⟩
    · obtain ⟨sign, coefficient, places⟩ := of_parts_eq_some here
      exact ⟨sign, by rw [coefficient, places, Nat.pow_eq], .inl places⟩
    · obtain ⟨sign, coefficient, last⟩ := ih (by omega) shorter
      refine ⟨sign, coefficient, .inr ?_⟩
      rcases last with most_places | excess
      · rw [most_places]
        exact of_parts_eq_none missing few
      · exact excess

theorem magnitude_le {num den : Nat} (positive : 0 < den) {d : Decimal96}
    (cut : d.coefficient = num * 10 ^ d.places / den) :
    d.magnitude ≤ (num : ℚ) / den ∧ (num : ℚ) / den < d.magnitude + 1 / 10 ^ d.places := by
  have under : (0 : ℚ) < den := by exact_mod_cast positive
  have power : (0 : ℚ) < 10 ^ d.places := by positivity
  have low : (d.coefficient : ℚ) * den ≤ num * 10 ^ d.places := by
    rw [cut]
    exact_mod_cast Nat.div_mul_le_self _ _
  have high : (num : ℚ) * 10 ^ d.places < (d.coefficient + 1) * den := by
    rw [cut]
    exact_mod_cast Nat.lt_mul_of_div_lt (Nat.lt_succ_self _) positive
  rw [magnitude, ← add_div]
  exact ⟨(div_le_div_iff₀ power under).mpr low, (div_lt_div_iff₀ under power).mpr high⟩

theorem cut_of_middle {num den places n more : Nat} (positive : 0 < den)
    (middle : 2 * 10 ^ places * num = (2 * n + 1) * den) :
    num * 10 ^ (places + 1 + more) / den = (2 * n + 1) * (5 * 10 ^ more) := by
  refine Nat.div_eq_of_eq_mul_left positive ?_
  calc num * 10 ^ (places + 1 + more) = 2 * 10 ^ places * num * (5 * 10 ^ more) := by ring
    _ = (2 * n + 1) * (5 * 10 ^ more) * den := by
      rw [middle]
      ring

theorem magnitude_of_middle {num den places n : Nat} (positive : 0 < den) {d : Decimal96}
    (cut : d.coefficient = num * 10 ^ d.places / den) (deep : places < d.places)
    (meets : 10 ^ places * ((num : ℚ) / den) = n + 1 / 2) :
    10 ^ places * d.magnitude = 10 ^ places * ((num : ℚ) / den) := by
  have under : (den : ℚ) ≠ 0 := by exact_mod_cast Nat.pos_iff_ne_zero.mp positive
  have middle : 2 * 10 ^ places * num = (2 * n + 1) * den := by
    rw [← mul_div_assoc, div_eq_iff under] at meets
    have doubled : (2 * 10 ^ places * num : ℚ) = (2 * n + 1) * den := by linarith
    exact_mod_cast doubled
  obtain ⟨more, split⟩ := Nat.exists_eq_add_of_lt deep
  have length : d.places = places + 1 + more := by omega
  rw [length, cut_of_middle positive middle] at cut
  rw [meets, magnitude, cut, length, pow_add, pow_add]
  push_cast
  field_simp
  ring

theorem middle_add_le {num den places n : Nat} (positive : 0 < den)
    (beyond : (n + 1 / 2 : ℚ) < 10 ^ places * (num / den)) :
    (n + 1 / 2 : ℚ) + 1 / (2 * den) ≤ 10 ^ places * (num / den) := by
  have under : (0 : ℚ) < den := by exact_mod_cast positive
  have whole : (2 * n + 1) * den < 2 * 10 ^ places * num := by
    rw [← mul_div_assoc, lt_div_iff₀ under] at beyond
    have doubled : ((2 * n + 1) * den : ℚ) < 2 * 10 ^ places * num := by linarith
    exact_mod_cast doubled
  have cast : ((2 * n + 1) * den + 1 : ℚ) ≤ 2 * 10 ^ places * num := by exact_mod_cast whole
  have left : (n + 1 / 2 : ℚ) + 1 / (2 * den) = ((2 * n + 1) * den + 1) / (2 * den) := by field_simp
  have right : (10 : ℚ) ^ places * (num / den) = 2 * 10 ^ places * num / (2 * den) := by field_simp
  rw [left, right]
  exact div_le_div_of_nonneg_right cast (by positivity)

theorem same_side_of_cut {num den places : Nat} (positive : 0 < den) {d : Decimal96}
    (cut : d.coefficient = num * 10 ^ d.places / den) (fine : den * (2 * 10 ^ places) ≤ 10 ^ d.places) (n : Nat) :
    SameSide (10 ^ places * ((num : ℚ) / den)) (10 ^ places * d.magnitude) n := by
  have under : (0 : ℚ) < den := by exact_mod_cast positive
  have scale : (0 : ℚ) < 10 ^ places := by positivity
  have deep : places < d.places := by
    have power : 0 < 10 ^ places := Nat.pow_pos (by decide)
    have less : 10 ^ places < 10 ^ d.places := by nlinarith
    exact (Nat.pow_lt_pow_iff_right (by decide)).mp less
  have narrow : (10 : ℚ) ^ places * (1 / 10 ^ d.places) ≤ 1 / (2 * den) := by
    have cast : (den * (2 * 10 ^ places) : ℚ) ≤ 10 ^ d.places := by exact_mod_cast fine
    rw [mul_one_div, div_le_div_iff₀ (by positivity) (by positivity)]
    linarith
  obtain ⟨low, high⟩ := magnitude_le positive cut
  have near := mul_lt_mul_of_pos_left high scale
  rw [mul_add] at near
  refine same_side_of_le (mul_le_mul_of_nonneg_left low (le_of_lt scale)) (fun beyond => ?_)
    (magnitude_of_middle positive cut deep)
  have apart := middle_add_le positive beyond
  linarith

-- What has a fraction has at most 53 bits, so it is cut late enough, or it is nearer to zero than the first middle.
theorem fine_or_small {x : Binary64} (fractional : x.exponent < 0) {places cut : Nat} (few : places ≤ 2)
    (last : cut = 28 ∨ 2 ^ 96 ≤ x.num * 10 ^ (cut + 1) / x.den) :
    x.den * (2 * 10 ^ places) ≤ 10 ^ cut ∨ 10 ^ places * ((x.num : ℚ) / x.den) < 1 / 2 := by
  have whole : x.exponent.toNat = 0 := by omega
  have bits : x.num < 2 ^ 53 := by
    rw [Binary64.num, whole]
    simpa using x.significand_lt
  have hundred : 10 ^ places ≤ 100 := Nat.pow_le_pow_right (by decide) few
  have scaled : x.den * (2 * 10 ^ places) ≤ x.den * 200 := Nat.mul_le_mul_left _ (by omega)
  rcases last with all | excess
  · subst all
    by_cases fine : x.den ≤ 2 ^ 85
    · exact .inl (by omega)
    · have tiny : 2 * (10 ^ places * x.num) < x.den := by
        have most : 10 ^ places * x.num ≤ 100 * x.num := Nat.mul_le_mul_right _ hundred
        omega
      have cast : (2 * (10 ^ places * x.num) : ℚ) < x.den := by exact_mod_cast tiny
      have under : (0 : ℚ) < x.den := by exact_mod_cast x.den_pos
      refine .inr ?_
      rw [← mul_div_assoc, div_lt_div_iff₀ under two_pos]
      linarith
  · left
    have reached : 2 ^ 96 * x.den ≤ x.num * 10 ^ (cut + 1) := (Nat.le_div_iff_mul_le x.den_pos).mp excess
    have most : x.num * 10 ^ (cut + 1) ≤ 2 ^ 53 * 10 ^ (cut + 1) := Nat.mul_le_mul_right _ (Nat.le_of_lt bits)
    rw [pow_succ 10 cut] at reached most
    omega

theorem cut_of_binary {x : Binary64} {d : Decimal96} (found : ofBinary? x = some d) :
    cut? x.isNegative x.num x.den 28 = some d := by
  unfold ofBinary? at found
  split at found
  · exact found
  · cases found

theorem den_of_whole {x : Binary64} (whole : 0 ≤ x.exponent) : x.den = 1 := by
  have none : (-x.exponent).toNat = 0 := by omega
  rw [Binary64.den, none, Nat.pow_eq, pow_zero]

theorem same_side_of_binary {places : Nat} (few : places ≤ 2) {x : Binary64} {d : Decimal96}
    (found : ofBinary? x = some d) (n : Nat) :
    SameSide (10 ^ places * |x.value|) (10 ^ places * d.magnitude) n := by
  obtain ⟨_, cut, last⟩ := cut_eq_some (Nat.le_refl 28) (cut_of_binary found)
  rw [Binary64.abs_value]
  rcases Int.lt_or_le x.exponent 0 with fractional | whole
  · rcases fine_or_small fractional few last with fine | small
    · exact same_side_of_cut x.den_pos cut fine n
    · have low : 10 ^ places * d.magnitude ≤ 10 ^ places * ((x.num : ℚ) / x.den) :=
        mul_le_mul_of_nonneg_left (magnitude_le x.den_pos cut).1 (by positivity)
      exact same_side_of_small small (lt_of_le_of_lt low small) n
  · rw [den_of_whole whole, Nat.div_one] at cut
    have same : d.magnitude = (x.num : ℚ) / x.den := by
      rw [den_of_whole whole, magnitude, cut]
      push_cast
      field_simp
    rw [same]
    exact SameSide.refl _ n

theorem retains_of_binary {places : Nat} (few : places ≤ 2) : Retains places ofBinary? := by
  refine ⟨fun x finite missing => ?_, fun x d found _ => ?_, fun x d found n _ => same_side_of_binary few found n⟩
  · rw [ofBinary?, if_pos finite] at missing
    have large : 2 ^ 96 * x.den ≤ x.num := (Nat.le_div_iff_mul_le x.den_pos).mp (cut_eq_none missing)
    rw [Binary64.abs_value, le_div_iff₀ (by exact_mod_cast x.den_pos)]
    exact_mod_cast large
  · exact (cut_eq_some (Nat.le_refl 28) (cut_of_binary found)).1

end Decimal96

end Stencil.Numeric
