import Stencil.Proofs.Nearest
import Stencil.Proofs.Reread

set_option autoImplicit false

namespace Stencil.Numeric.Binary64

theorem nearest_kept_bits (num : Nat) {den : Nat} (below : den ≠ 0) :
    Nearest ((num : ℚ) / den / 2 ^ unitExponent num den) (keptBits num den : Nat) := by
  have power (k : Nat) : 0 < Nat.pow 2 k := Nat.pow_pos (by decide)
  have under : (den : ℚ) ≠ 0 := by exact_mod_cast below
  have scaled : (num : ℚ) / den / 2 ^ unitExponent num den =
      ((num * Nat.pow 2 (-unitExponent num den).toNat : Nat) : ℚ) /
        (den * Nat.pow 2 (unitExponent num den).toNat : Nat) := by
    simp only [Nat.pow_eq]
    push_cast
    rw [div_div, div_eq_div_iff (by positivity) (by positivity), ← zpow_mul_pow]
    ring
  rw [scaled]
  exact nearest_round_half_even _ (Nat.mul_pos (Nat.pos_of_ne_zero below) (power _))

theorem pow_unit_exponent_le {num den : Nat} (positive : num ≠ 0) (below : den ≠ 0)
    (normal : -1074 < unitExponent num den) : (2 : ℚ) ^ (unitExponent num den + 52) ≤ (num : ℚ) / den := by
  apply (le_log_iff (ratio_pos positive below) _).mp
  have unit := unit_exponent_eq positive below
  omega

theorem hidden_bit_le_kept_bits {num den : Nat} (positive : num ≠ 0) (below : den ≠ 0)
    (normal : -1074 < unitExponent num den) : hiddenBit ≤ keptBits num den := by
  have large : ((hiddenBit : Int) : ℚ) ≤ (num : ℚ) / den / 2 ^ unitExponent num den := by
    have bit : ((hiddenBit : Int) : ℚ) = 2 ^ (52 : Int) := by norm_num [hiddenBit]
    rw [bit, le_div_iff₀ (by positivity), ← zpow_add₀ (by norm_num), add_comm]
    exact pow_unit_exponent_le positive below normal
  exact_mod_cast (nearest_int_cast (hiddenBit : Int)).mono (nearest_kept_bits num below) large

theorem nearest_magnitude_mono {num den other under : Nat} (below : den ≠ 0) (beneath : under ≠ 0)
    (ordered : num * under ≤ other * den) : nearestMagnitude num den ≤ nearestMagnitude other under := by
  by_cases zero : num = 0
  · rw [zero, nearest_magnitude_zero]
    exact Nat.zero_le _
  · have positive : other ≠ 0 := by
      rintro rfl
      have some := Nat.mul_pos (Nat.pos_of_ne_zero zero) (Nat.pos_of_ne_zero beneath)
      omega
    have ratio : (num : ℚ) / den ≤ (other : ℚ) / under := by
      rw [div_le_div_iff₀ (by exact_mod_cast Nat.pos_of_ne_zero below) (by exact_mod_cast Nat.pos_of_ne_zero beneath)]
      exact_mod_cast ordered
    have log := Int.log_mono_right (ratio_pos zero below) ratio (b := 2)
    have unit := unit_exponent_eq zero below
    have other_unit := unit_exponent_eq positive beneath
    rw [nearest_magnitude_eq zero, nearest_magnitude_eq positive]
    refine Nat.le_min_of_le_of_le (Nat.min_le_left _ _) (Nat.le_trans (Nat.min_le_right _ _) ?_)
    rcases Int.lt_or_eq_of_le (by omega : unitExponent num den ≤ unitExponent other under) with fewer | same
    · have most := kept_bits_le zero below
      have least := hidden_bit_le_kept_bits positive beneath (by omega)
      have steps : (unitExponent num den + 1074).toNat + 1 ≤ (unitExponent other under + 1074).toNat := by omega
      have fields := Nat.mul_le_mul_right hiddenBit steps
      rw [Nat.add_mul, Nat.one_mul] at fields
      omega
    · have scaled :
          (num : ℚ) / den / 2 ^ unitExponent num den ≤ (other : ℚ) / under / 2 ^ unitExponent other under := by
        rw [same]
        exact div_le_div_of_nonneg_right ratio (by positivity)
      have kept := (nearest_kept_bits num below).mono (nearest_kept_bits other beneath) scaled
      rw [same]
      exact Nat.add_le_add_left (by exact_mod_cast kept) _

theorem eq_of_nearest_magnitude_eq {n m : Nat} (small : n < 2 ^ 53)
    (same : nearestMagnitude n 1 = nearestMagnitude m 1) : n = m := by
  have few : m < 2 ^ 53 := by
    by_contra large
    have above : nearestMagnitude (2 ^ 53) 1 ≤ nearestMagnitude m 1 :=
      nearest_magnitude_mono Nat.one_ne_zero Nat.one_ne_zero (Nat.mul_le_mul_right 1 (Nat.le_of_not_lt large))
    have under : nearestMagnitude n 1 ≤ nearestMagnitude (2 ^ 53 - 1) 1 :=
      nearest_magnitude_mono Nat.one_ne_zero Nat.one_ne_zero (Nat.mul_le_mul_right 1 (Nat.le_sub_one_of_lt small))
    have step : nearestMagnitude (2 ^ 53 - 1) 1 < nearestMagnitude (2 ^ 53) 1 := by decide +kernel
    omega
  have equal : ofNat n = ofNat m := by rw [ofNat, ofNat, ofRatio, ofRatio, same]
  have first := num_of_nat small
  rw [equal, num_of_nat few] at first
  exact (Nat.eq_of_mul_eq_mul_right (den_pos _) first).symm

end Stencil.Numeric.Binary64
