import Mathlib.Algebra.Order.Field.Power
import Mathlib.Data.Int.Log
import Mathlib.Data.Rat.Floor
import Mathlib.Tactic.Positivity
import Mathlib.Tactic.Ring
import Stencil.Json.Basic

set_option autoImplicit false

namespace Stencil.Numeric

theorem round_half_even_mul (num den : Nat) {k : Nat} (positive : 0 < k) :
    roundHalfEven (num * k) (den * k) = roundHalfEven num den := by
  have twice : 2 * (num % den * k) = 2 * (num % den) * k := (Nat.mul_assoc ..).symm
  simp only [roundHalfEven, Nat.mul_div_mul_right _ _ positive, Nat.mul_mod_mul_right, twice,
    Nat.mul_lt_mul_right positive]

theorem round_half_even_congr {num den other below : Nat} (positive : 0 < den) (below_pos : 0 < below)
    (same : num * below = other * den) : roundHalfEven num den = roundHalfEven other below := by
  rw [← round_half_even_mul num den below_pos, ← round_half_even_mul other below positive, same, Nat.mul_comm den]

theorem round_half_even_exact (n : Nat) {k : Nat} (positive : 0 < k) : roundHalfEven (n * k) k = n := by
  simp [roundHalfEven, positive]

namespace Binary64

theorem zpow_mul_pow (e : Int) : (2 : ℚ) ^ e * 2 ^ (-e).toNat = 2 ^ e.toNat := by
  rw [← zpow_natCast, ← zpow_natCast, ← zpow_add₀ (by norm_num)]
  congr 1
  omega

theorem pow_le_iff (e : Int) (num : Nat) {den : Nat} (positive : 0 < den) :
    den * Nat.pow 2 e.toNat ≤ num * Nat.pow 2 (-e).toNat ↔ (2 : ℚ) ^ e ≤ (num : ℚ) / den := by
  have below : (0 : ℚ) < den := by exact_mod_cast positive
  have power : (0 : ℚ) < 2 ^ (-e).toNat := by positivity
  rw [le_div_iff₀ below, ← mul_le_mul_iff_of_pos_right power]
  have left : (2 : ℚ) ^ e * den * 2 ^ (-e).toNat = den * 2 ^ e.toNat := by
    rw [mul_comm ((2 : ℚ) ^ e), mul_assoc, zpow_mul_pow]
  rw [left]
  simp only [Nat.pow_eq]
  exact_mod_cast Iff.rfl

theorem ratio_pos {num den : Nat} (positive : num ≠ 0) (below : den ≠ 0) : (0 : ℚ) < (num : ℚ) / den := by
  have above : 0 < num := Nat.pos_of_ne_zero positive
  have under : 0 < den := Nat.pos_of_ne_zero below
  positivity

theorem log_lt_iff {r : ℚ} (positive : 0 < r) (e : Int) : Int.log 2 r < e ↔ r < (2 : ℚ) ^ e := by
  have bound := Int.lt_zpow_iff_log_lt (b := 2) (x := e) (by decide) positive
  rw [← bound, Nat.cast_ofNat]

theorem le_log_iff {r : ℚ} (positive : 0 < r) (e : Int) : e ≤ Int.log 2 r ↔ (2 : ℚ) ^ e ≤ r := by
  have bound := Int.zpow_le_iff_le_log (b := 2) (x := e) (by decide) positive
  rw [← bound, Nat.cast_ofNat]

theorem log_le_guess {num den : Nat} (positive : num ≠ 0) (below : den ≠ 0) :
    Int.log 2 ((num : ℚ) / den) ≤ (num.log2 : Int) - den.log2 := by
  have above : (num : ℚ) < 2 ^ (num.log2 + 1) := by exact_mod_cast Nat.lt_log2_self
  have under : (2 : ℚ) ^ den.log2 ≤ den := by exact_mod_cast Nat.log2_self_le below
  have most : (num : ℚ) / den < (2 : ℚ) ^ ((num.log2 : Int) - den.log2 + 1) := by
    have power : (2 : ℚ) ^ ((num.log2 : Int) - den.log2 + 1) = 2 ^ (num.log2 + 1) / 2 ^ den.log2 := by
      rw [← zpow_natCast, ← zpow_natCast, ← zpow_sub₀ (by norm_num)]
      congr 1
      push_cast
      ring
    rw [power]
    exact div_lt_div₀ above under (by positivity) (by positivity)
  exact Int.lt_add_one_iff.mp ((log_lt_iff (ratio_pos positive below) _).mpr most)

theorem guess_le_log {num den : Nat} (positive : num ≠ 0) (below : den ≠ 0) :
    (num.log2 : Int) - den.log2 - 1 ≤ Int.log 2 ((num : ℚ) / den) := by
  have under : (2 : ℚ) ^ num.log2 ≤ num := by exact_mod_cast Nat.log2_self_le positive
  have above : (den : ℚ) ≤ 2 ^ (den.log2 + 1) := by exact_mod_cast Nat.le_of_lt Nat.lt_log2_self
  have least : (2 : ℚ) ^ ((num.log2 : Int) - den.log2 - 1) ≤ (num : ℚ) / den := by
    have power : (2 : ℚ) ^ ((num.log2 : Int) - den.log2 - 1) = 2 ^ num.log2 / 2 ^ (den.log2 + 1) := by
      rw [← zpow_natCast, ← zpow_natCast, ← zpow_sub₀ (by norm_num)]
      congr 1
      push_cast
      ring
    have some : (0 : ℚ) < den := by exact_mod_cast Nat.pos_of_ne_zero below
    rw [power]
    exact div_le_div₀ (by positivity) under some above
  exact (le_log_iff (ratio_pos positive below) _).mpr least

theorem floor_log2_eq {num den : Nat} (positive : num ≠ 0) (below : den ≠ 0) :
    floorLog2 num den = Int.log 2 ((num : ℚ) / den) := by
  have ratio := ratio_pos positive below
  have most := log_le_guess positive below
  have least := guess_le_log positive below
  simp only [floorLog2, pow_le_iff _ num (Nat.pos_of_ne_zero below)]
  split
  · next reached =>
    have enough := (le_log_iff ratio _).mpr reached
    omega
  · next missed =>
    have short : Int.log 2 ((num : ℚ) / den) < (num.log2 : Int) - den.log2 :=
      (log_lt_iff ratio _).mpr (not_le.mp missed)
    omega

theorem unit_exponent_eq {num den : Nat} (positive : num ≠ 0) (below : den ≠ 0) :
    unitExponent num den = max (Int.log 2 ((num : ℚ) / den) - 52) (-1074) := by
  rw [unitExponent, floor_log2_eq positive below]

def keptBits (num den : Nat) : Nat :=
  roundHalfEven (num * Nat.pow 2 (-unitExponent num den).toNat) (den * Nat.pow 2 (unitExponent num den).toNat)

theorem nearest_magnitude_eq {num den : Nat} (positive : num ≠ 0) :
    nearestMagnitude num den =
      min infinityMagnitude ((unitExponent num den + 1074).toNat * hiddenBit + keptBits num den) :=
  if_neg positive

theorem kept_bits_congr {num den other under : Nat} (below : 0 < den) (beneath : 0 < under)
    (same : num * under = other * den) (unit : unitExponent num den = unitExponent other under) :
    keptBits num den = keptBits other under := by
  have power (k : Nat) : 0 < Nat.pow 2 k := Nat.pow_pos (by decide)
  unfold keptBits
  rw [unit]
  refine round_half_even_congr (Nat.mul_pos below (power _)) (Nat.mul_pos beneath (power _)) ?_
  rw [Nat.mul_mul_mul_comm, same, Nat.mul_mul_mul_comm]

theorem nearest_magnitude_zero (den : Nat) : nearestMagnitude 0 den = 0 := if_pos rfl

-- Rounding to 53 bits may reach the next power of two, and goes no further.
theorem kept_bits_le {num den : Nat} (positive : num ≠ 0) (below : den ≠ 0) : keptBits num den ≤ 2 * hiddenBit := by
  have ratio := ratio_pos positive below
  have under : 0 < 2 ^ 53 * den := by omega
  have above : (num : ℚ) / den < 2 ^ (unitExponent num den + 53) := by
    apply (log_lt_iff ratio _).mp
    rw [unit_exponent_eq positive below]
    omega
  have scaled : (num : ℚ) / (2 ^ 53 * den : Nat) < 2 ^ unitExponent num den := by
    rw [zpow_add₀ (by norm_num), ← div_lt_iff₀ (by positivity), div_div, mul_comm] at above
    exact_mod_cast above
  have missed := mt (pow_le_iff _ num under).mp (not_le.mpr scaled)
  have quotient : num * Nat.pow 2 (-unitExponent num den).toNat / (den * Nat.pow 2 (unitExponent num den).toNat) <
      2 ^ 53 := by
    apply Nat.div_lt_of_lt_mul
    rw [Nat.mul_comm _ (2 ^ 53), ← Nat.mul_assoc]
    exact not_le.mp missed
  have carry : 2 ^ 53 = 2 * hiddenBit := by decide
  rw [keptBits, ← carry]
  exact Nat.le_trans (round_half_even_le _ _) quotient

theorem nearest_magnitude_le {num den bits : Nat} (below : den ≠ 0) (small : num < 2 ^ bits * den) :
    nearestMagnitude num den ≤ (bits + 1023) * hiddenBit := by
  by_cases zero : num = 0
  · rw [zero, nearest_magnitude_zero]
    exact Nat.zero_le _
  · have bound : (num : ℚ) / den < 2 ^ (bits : Int) := by
      rw [div_lt_iff₀ (by exact_mod_cast Nat.pos_of_ne_zero below), zpow_natCast]
      exact_mod_cast small
    have fewer := (log_lt_iff (ratio_pos zero below) _).mpr bound
    have exponent : (unitExponent num den + 1074).toNat ≤ bits + 1021 := by
      rw [unit_exponent_eq zero below]
      omega
    calc nearestMagnitude num den
        ≤ (unitExponent num den + 1074).toNat * hiddenBit + keptBits num den := by
          rw [nearest_magnitude_eq zero]
          exact Nat.min_le_right _ _
      _ ≤ (bits + 1021) * hiddenBit + 2 * hiddenBit :=
          Nat.add_le_add (Nat.mul_le_mul_right _ exponent) (kept_bits_le zero below)
      _ = (bits + 1023) * hiddenBit := (Nat.add_mul ..).symm

theorem nearest_magnitude_congr {num den other under : Nat} (below : 0 < den) (beneath : 0 < under)
    (same : num * under = other * den) : nearestMagnitude num den = nearestMagnitude other under := by
  by_cases zero : num = 0
  · have none : other = 0 := by
      rw [zero, Nat.zero_mul] at same
      exact (Nat.mul_eq_zero.mp same.symm).resolve_right (by omega)
    rw [zero, none, nearest_magnitude_zero, nearest_magnitude_zero]
  · have positive : other ≠ 0 := by
      intro none
      rw [none, Nat.zero_mul] at same
      exact Nat.mul_ne_zero zero (by omega) same
    have ratio : (num : ℚ) / den = (other : ℚ) / under := by
      rw [div_eq_div_iff (by positivity) (by positivity)]
      exact_mod_cast same
    have unit : unitExponent num den = unitExponent other under := by
      rw [unit_exponent_eq zero (by omega), unit_exponent_eq positive (by omega), ratio]
    rw [nearest_magnitude_eq zero, nearest_magnitude_eq positive, unit, kept_bits_congr below beneath same unit]

theorem unit_exponent_exact {m : Nat} {q : Int} (positive : m ≠ 0) (small : m < 2 ^ 53) (least : -1074 ≤ q)
    (normal : 2 ^ 52 ≤ m ∨ q = -1074) : unitExponent (m * 2 ^ q.toNat) (2 ^ (-q).toNat) = q := by
  have value : ((m * 2 ^ q.toNat : Nat) : ℚ) / (2 ^ (-q).toNat : Nat) = m * (2 : ℚ) ^ q := by
    push_cast
    rw [div_eq_iff (by positivity), mul_assoc, zpow_mul_pow]
  have some : (0 : ℚ) < m := by exact_mod_cast Nat.pos_of_ne_zero positive
  have powers (k : Nat) : 2 ^ k ≠ 0 := Nat.pos_iff_ne_zero.mp (Nat.pow_pos (by decide))
  have scaled : (0 : ℚ) < m * 2 ^ q := by positivity
  have most : Int.log 2 ((m : ℚ) * 2 ^ q) < q + 53 := by
    refine (log_lt_iff scaled _).mpr ?_
    rw [zpow_add₀ (by norm_num), mul_comm]
    exact mul_lt_mul_of_pos_left (by exact_mod_cast small) (by positivity)
  rw [unit_exponent_eq (Nat.mul_ne_zero positive (powers _)) (powers _), value]
  rcases normal with large | subnormal
  · have enough : q + 52 ≤ Int.log 2 ((m : ℚ) * 2 ^ q) := by
      refine (le_log_iff scaled _).mpr ?_
      rw [zpow_add₀ (by norm_num), mul_comm (m : ℚ)]
      exact mul_le_mul_of_nonneg_left (by exact_mod_cast large) (by positivity)
    omega
  · omega

theorem nearest_magnitude_exact {m : Nat} {q : Int} (positive : m ≠ 0) (small : m < 2 ^ 53) (least : -1074 ≤ q)
    (normal : 2 ^ 52 ≤ m ∨ q = -1074) :
    nearestMagnitude (m * 2 ^ q.toNat) (2 ^ (-q).toNat) =
      min infinityMagnitude ((q + 1074).toNat * hiddenBit + m) := by
  have unit := unit_exponent_exact positive small least normal
  have kept : keptBits (m * 2 ^ q.toNat) (2 ^ (-q).toNat) = m := by
    rw [keptBits, unit, Nat.mul_assoc, Nat.mul_comm (2 ^ (-q).toNat)]
    exact round_half_even_exact m (Nat.mul_pos (Nat.pow_pos (by decide)) (Nat.pow_pos (by decide)))
  have powers : 2 ^ q.toNat ≠ 0 := Nat.pos_iff_ne_zero.mp (Nat.pow_pos (by decide))
  rw [nearest_magnitude_eq (Nat.mul_ne_zero positive powers), unit, kept]

theorem den_pos (x : Binary64) : 0 < x.den := Nat.pow_pos (by decide)

theorem significand_lt (x : Binary64) : x.significand < 2 ^ 53 := by
  have fraction : x.fractionField < hiddenBit := Nat.mod_lt _ (by decide)
  have whole : 2 ^ 53 = hiddenBit + hiddenBit := by decide
  unfold significand
  split <;> omega

theorem exponent_ge (x : Binary64) : -1074 ≤ x.exponent := by
  unfold exponent
  split <;> omega

theorem normal_or_least (x : Binary64) : 2 ^ 52 ≤ x.significand ∨ x.exponent = -1074 := by
  have whole : 2 ^ 52 = hiddenBit := by decide
  unfold significand exponent
  split
  · exact .inr rfl
  · exact .inl (by omega)

theorem magnitude_eq (x : Binary64) : (x.exponent + 1074).toNat * hiddenBit + x.significand = x.magnitude := by
  have whole : hiddenBit * x.exponentField + x.fractionField = x.magnitude := Nat.div_add_mod ..
  unfold significand exponent
  split
  · next subnormal =>
    have least : ((-1074 : Int) + 1074).toNat = 0 := rfl
    rw [subnormal, Nat.mul_zero] at whole
    rw [least, Nat.zero_mul]
    exact whole
  · next normal =>
    have field : ((x.exponentField : Int) - 1075 + 1074).toNat + 1 = x.exponentField := by omega
    rw [← field, Nat.mul_add, Nat.mul_one, Nat.mul_comm hiddenBit] at whole
    omega

theorem nearest_magnitude_num_den {x : Binary64} (finite : x.isFinite = true) :
    nearestMagnitude x.num x.den = x.magnitude := by
  have bound : x.magnitude < infinityMagnitude := by simpa [isFinite] using finite
  have whole := x.magnitude_eq
  by_cases zero : x.significand = 0
  · have least := x.normal_or_least
    have power : 2 ^ 52 ≠ 0 := by decide
    rw [zero] at whole least
    have subnormal := least.resolve_left (by omega)
    have none : x.num = 0 := by rw [num, zero, Nat.zero_mul]
    have unit : ((-1074 : Int) + 1074).toNat = 0 := rfl
    rw [subnormal, unit, Nat.zero_mul] at whole
    rw [none, nearest_magnitude_zero]
    exact whole
  · have exact := nearest_magnitude_exact zero x.significand_lt x.exponent_ge x.normal_or_least
    rw [whole] at exact
    exact exact.trans (Nat.min_eq_right (Nat.le_of_lt bound))

theorem to_nat_bits_of_magnitude (negative : Bool) {magnitude : Nat} (small : magnitude < signBit) :
    (ofMagnitude negative magnitude).bits.toNat = if negative then signBit + magnitude else magnitude := by
  unfold signBit at *
  cases negative <;> simp only [ofMagnitude, signBit, UInt64.toNat_ofNat', if_true, Bool.false_eq_true, if_false] <;>
    omega

theorem magnitude_of_magnitude (negative : Bool) {magnitude : Nat} (small : magnitude < signBit) :
    (ofMagnitude negative magnitude).magnitude = magnitude := by
  rw [Binary64.magnitude, to_nat_bits_of_magnitude negative small]
  cases negative
  · exact Nat.mod_eq_of_lt small
  · simp [Nat.mod_eq_of_lt small]

theorem is_finite_of_ratio {negative : Bool} {num den bits : Nat} (below : den ≠ 0) (small : num < 2 ^ bits * den)
    (bounded : bits < 1024) : (ofRatio negative num den).isFinite = true := by
  have most := nearest_magnitude_le below small
  have least : (bits + 1023) * hiddenBit < infinityMagnitude := by
    unfold hiddenBit infinityMagnitude
    omega
  have signed : infinityMagnitude < signBit := by decide
  rw [isFinite, ofRatio, magnitude_of_magnitude negative (by omega)]
  simp only [decide_eq_true_eq]
  omega

theorem is_finite_of_int {n : Int} (inRange : Json.InRange n) : (ofInt n).isFinite = true := by
  obtain ⟨least, most⟩ := inRange
  have lower : Int64.minValue.toInt = -2 ^ 63 := by decide
  have upper : (UInt64.size : Int) = 2 ^ 64 := by decide
  have small : n.natAbs < 2 ^ 64 * 1 := by omega
  exact is_finite_of_ratio Nat.one_ne_zero small (by decide)

def finiteBinary32 (bits : UInt32) : Bool := bits.toNat / 0x800000 % 0x100 ≠ 0xff

theorem is_finite_of_binary32 (bits : UInt32) : (ofBinary32 bits).isFinite = finiteBinary32 bits := by
  have short : bits.toNat % 0x800000 < 0x800000 := Nat.mod_lt _ (by decide)
  have narrow : bits.toNat / 0x800000 % 0x100 < 0x100 := Nat.mod_lt _ (by decide)
  have powers (k : Nat) : Nat.pow 2 k ≠ 0 := Nat.pos_iff_ne_zero.mp (Nat.pow_pos (by decide))
  unfold ofBinary32 finiteBinary32
  generalize bits.toNat % 0x800000 = fraction at short ⊢
  generalize bits.toNat / 0x800000 % 0x100 = field at narrow ⊢
  by_cases infinite : field = 0xff
  · have small : infinityMagnitude + fraction * 0x20000000 < signBit := by
      unfold infinityMagnitude signBit
      omega
    simp only [if_pos infinite, isFinite, magnitude_of_magnitude _ small]
    simp [infinite]
  · simp only [if_neg infinite, decide_eq_true (show field ≠ 0xff from infinite)]
    split
    · have small : fraction < 2 ^ 128 * Nat.pow 2 149 := Nat.lt_trans short (by decide)
      exact is_finite_of_ratio (powers _) small (by decide)
    · have small : (0x800000 + fraction) * Nat.pow 2 field < 2 ^ 128 * Nat.pow 2 150 :=
        calc (0x800000 + fraction) * Nat.pow 2 field
            < 2 ^ 24 * Nat.pow 2 field := Nat.mul_lt_mul_of_pos_right (by omega) (Nat.pow_pos (by decide))
          _ ≤ 2 ^ 24 * Nat.pow 2 254 := Nat.mul_le_mul_left _ (Nat.pow_le_pow_right (by decide) (by omega))
          _ = 2 ^ 128 * Nat.pow 2 150 := by decide
      exact is_finite_of_ratio (powers _) small (by decide)

end Binary64

end Stencil.Numeric
