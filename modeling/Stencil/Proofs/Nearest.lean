import Mathlib.Algebra.Order.Ring.Abs
import Mathlib.Tactic.Linarith
import Stencil.Proofs.Rounding

set_option autoImplicit false

namespace Stencil.Numeric

-- A whole number is at most one half away, and it is even where an odd one would be as near.
def Nearest (r : ℚ) (n : Int) : Prop := |r - n| ≤ 1 / 2 ∧ (|r - n| = 1 / 2 → Even n)

theorem nearest_int_cast (n : Int) : Nearest n n := by
  simp [Nearest]

theorem Nearest.neg {r : ℚ} {n : Int} (nearest : Nearest r n) : Nearest (-r) (-n) := by
  have distance : |(-r) - ((-n : Int) : ℚ)| = |r - n| := by
    rw [Int.cast_neg, ← neg_sub', abs_neg]
  refine ⟨distance ▸ nearest.1, fun tie => ?_⟩
  exact even_neg.mpr (nearest.2 (distance ▸ tie))

theorem Nearest.unique {r : ℚ} {n m : Int} (first : Nearest r n) (second : Nearest r m) : n = m := by
  wlog below : n < m
  · rcases Int.lt_trichotomy n m with less | same | more
    · exact absurd less below
    · exact same
    · exact (this second first more).symm
  have apart : (n : ℚ) + 1 ≤ m := by exact_mod_cast below
  have high := (abs_le.mp first.1).2
  have low := (abs_le.mp second.1).1
  have even_n : Even n := first.2 (by rw [abs_of_nonneg] <;> linarith)
  have even_m : Even m := second.2 (by rw [abs_of_nonpos] <;> linarith)
  have next : (m : ℚ) = n + 1 := by linarith
  have successor : m = n + 1 := by exact_mod_cast next
  rw [successor] at even_m
  exact absurd even_m (Int.not_even_iff_odd.mpr even_n.add_one)

theorem Nearest.mono {r s : ℚ} {n m : Int} (first : Nearest r n) (second : Nearest s m) (below : r ≤ s) : n ≤ m := by
  by_contra more
  have apart : (m : ℚ) + 1 ≤ n := by exact_mod_cast not_le.mp more
  have low := (abs_le.mp first.1).1
  have high := (abs_le.mp second.1).2
  have same : r = s := by linarith
  exact more (le_of_eq (first.unique (same ▸ second)))

theorem nearest_iff {r : ℚ} {n : Int} :
    Nearest r n ↔ (r < n + 1 / 2 ∨ r = n + 1 / 2 ∧ Even n) ∧ (n - 1 / 2 < r ∨ r = n - 1 / 2 ∧ Even n) := by
  constructor
  · rintro ⟨near, even⟩
    obtain ⟨low, high⟩ := abs_le.mp near
    constructor
    · rcases lt_or_eq_of_le high with less | tie
      · exact .inl (by linarith)
      · exact .inr ⟨by linarith, even (by rw [tie]; norm_num)⟩
    · rcases lt_or_eq_of_le low with more | tie
      · exact .inl (by linarith)
      · exact .inr ⟨by linarith, even (by rw [← tie]; norm_num)⟩
  · rintro ⟨high, low⟩
    refine ⟨abs_le.mpr ⟨?_, ?_⟩, fun tie => ?_⟩
    · rcases low with more | ⟨same, _⟩ <;> linarith
    · rcases high with less | ⟨same, _⟩ <;> linarith
    · rcases high with less | ⟨_, even⟩
      · rcases low with more | ⟨_, even⟩
        · exact absurd tie (ne_of_lt (abs_lt.mpr ⟨by linarith, by linarith⟩))
        · exact even
      · exact even

theorem nearest_round_half_even (num : Nat) {den : Nat} (positive : 0 < den) :
    Nearest ((num : ℚ) / den) (roundHalfEven num den : Nat) := by
  have under : (0 : ℚ) < den := by exact_mod_cast positive
  have whole : (num : ℚ) = den * (num / den : Nat) + (num % den : Nat) := by exact_mod_cast (Nat.div_add_mod ..).symm
  have value : (num : ℚ) / den = (num / den : Nat) + (num % den : Nat) / den := by
    rw [whole, add_div, mul_div_cancel_left₀ _ (ne_of_gt under)]
  have least : 0 ≤ ((num % den : Nat) : ℚ) / den := by positivity
  have most : ((num % den : Nat) : ℚ) / den < 1 := (div_lt_one under).mpr (by exact_mod_cast Nat.mod_lt num positive)
  rw [value, nearest_iff, Int.cast_natCast, Int.even_coe_nat]
  simp only [roundHalfEven]
  split
  · next less =>
    have small : ((num % den : Nat) : ℚ) / den < 1 / 2 := by
      rw [div_lt_div_iff₀ under two_pos]
      exact_mod_cast (by omega : num % den * 2 < 1 * den)
    exact ⟨.inl (by linarith), .inl (by linarith)⟩
  · split
    · next more =>
      have large : 1 / 2 < ((num % den : Nat) : ℚ) / den := by
        rw [div_lt_div_iff₀ two_pos under]
        exact_mod_cast (by omega : 1 * den < num % den * 2)
      rw [Nat.cast_add_one]
      exact ⟨.inl (by linarith), .inl (by linarith)⟩
    · have tie : ((num % den : Nat) : ℚ) / den = 1 / 2 := by
        rw [div_eq_div_iff (ne_of_gt under) two_ne_zero]
        exact_mod_cast (by omega : num % den * 2 = 1 * den)
      rw [tie]
      rcases Nat.mod_two_eq_zero_or_one (num / den) with even | odd
      · rw [even, Nat.add_zero]
        exact ⟨.inr ⟨rfl, Nat.even_iff.mpr even⟩, .inl (by linarith)⟩
      · rw [odd, Nat.cast_add_one]
        exact ⟨.inl (by linarith), .inr ⟨by ring, Nat.even_add_one.mpr (Nat.not_even_iff.mpr odd)⟩⟩

def SameSide (r s : ℚ) (n : Nat) : Prop := (r < n + 1 / 2 ↔ s < n + 1 / 2) ∧ (n + 1 / 2 < r ↔ n + 1 / 2 < s)

theorem SameSide.eq_iff {r s : ℚ} {n : Nat} (same : SameSide r s n) : r = n + 1 / 2 ↔ s = n + 1 / 2 := by
  simp only [eq_iff_le_not_lt, ← not_lt, same.1, same.2]

theorem SameSide.refl (r : ℚ) (n : Nat) : SameSide r r n := ⟨Iff.rfl, Iff.rfl⟩

theorem same_side_of_small {r s : ℚ} (first : r < 1 / 2) (second : s < 1 / 2) (n : Nat) : SameSide r s n := by
  have positive : (0 : ℚ) ≤ n := n.cast_nonneg
  exact ⟨⟨fun _ => by linarith, fun _ => by linarith⟩, ⟨fun _ => by linarith, fun _ => by linarith⟩⟩

-- A number that is cut off keeps its sides if no middle comes between, and if a middle is not cut itself.
theorem same_side_of_le {r s : ℚ} {n : Nat} (cut : s ≤ r) (beyond : n + 1 / 2 < r → n + 1 / 2 < s)
    (exact : r = n + 1 / 2 → s = r) : SameSide r s n := by
  refine ⟨⟨fun less => lt_of_le_of_lt cut less, fun less => ?_⟩, beyond, fun more => lt_of_lt_of_le more cut⟩
  by_contra reached
  rcases eq_or_lt_of_le (not_lt.mp reached) with same | more
  · rw [exact same.symm, same] at less
    exact lt_irrefl _ less
  · exact lt_asymm less (beyond more)

theorem Nearest.of_sides {r s : ℚ} {n : Nat} (nearest : Nearest s n) (positive : 0 ≤ r)
    (same : ∀ m ≤ n, SameSide r s m) : Nearest r n := by
  obtain ⟨high, low⟩ := nearest_iff.mp nearest
  refine nearest_iff.mpr ⟨?_, ?_⟩
  · rw [Int.cast_natCast] at high ⊢
    rwa [(same n (Nat.le_refl n)).1, (same n (Nat.le_refl n)).eq_iff]
  · cases n with
    | zero => exact .inl (by norm_num; linarith)
    | succ m =>
      have middle : (((m + 1 : Nat) : Int) : ℚ) - 1 / 2 = m + 1 / 2 := by
        push_cast
        ring
      rw [middle] at low ⊢
      rwa [(same m (Nat.le_succ m)).2, (same m (Nat.le_succ m)).eq_iff]

def withSign (negative : Bool) (n : Nat) : Int := if negative then -(n : Int) else n

theorem nat_abs_with_sign (negative : Bool) (n : Nat) : (withSign negative n).natAbs = n := by
  cases negative
  · rfl
  · exact Int.natAbs_neg n

theorem decide_with_sign_neg (negative : Bool) (n : Nat) : decide (withSign negative n < 0) = (negative && n != 0) := by
  unfold withSign
  cases negative <;> grind

theorem with_sign_not (negative : Bool) (n : Nat) : withSign (!negative) n = -withSign negative n := by
  cases negative
  · rfl
  · exact (Int.neg_neg _).symm

theorem abs_sign (negative : Bool) : |(if negative then -1 else 1 : ℚ)| = 1 := by
  cases negative <;> simp

namespace Binary64

def value (x : Binary64) : ℚ := (if x.isNegative then -1 else 1) * (x.significand * 2 ^ x.exponent)

theorem den_ne_zero (x : Binary64) : (x.den : ℚ) ≠ 0 := by exact_mod_cast Nat.pos_iff_ne_zero.mp x.den_pos

theorem abs_value (x : Binary64) : |x.value| = (x.num : ℚ) / x.den := by
  rw [value, abs_mul, abs_sign, one_mul, abs_of_nonneg (by positivity), eq_div_iff x.den_ne_zero, num, den, mul_assoc]
  simp only [Nat.pow_eq]
  push_cast
  rw [zpow_mul_pow]

theorem value_eq (x : Binary64) : x.value = if x.isNegative then -|x.value| else |x.value| := by
  have positive : (0 : ℚ) ≤ x.significand * 2 ^ x.exponent := by positivity
  unfold value
  split
  · rw [neg_one_mul, abs_neg, abs_of_nonneg positive]
  · rw [one_mul, abs_of_nonneg positive]

def units (places : Nat) (x : Binary64) : Nat := roundHalfEven (x.num * Nat.pow 10 places) x.den

theorem nearest_units (places : Nat) (x : Binary64) : Nearest (10 ^ places * |x.value|) (x.units places) := by
  have scaled : 10 ^ places * |x.value| = ((x.num * Nat.pow 10 places : Nat) : ℚ) / x.den := by
    rw [abs_value, Nat.pow_eq]
    push_cast
    ring
  rw [scaled]
  exact nearest_round_half_even _ x.den_pos

def signedUnits (places : Nat) (x : Binary64) : Int :=
  if x.isNegative then -(x.units places : Int) else x.units places

theorem nat_abs_signed_units (places : Nat) (x : Binary64) : (x.signedUnits places).natAbs = x.units places :=
  nat_abs_with_sign _ _

theorem decide_signed_units_neg (places : Nat) (x : Binary64) :
    decide (x.signedUnits places < 0) = (x.isNegative && x.units places != 0) :=
  decide_with_sign_neg _ _

theorem nearest_signed_units (places : Nat) (x : Binary64) :
    Nearest (10 ^ places * x.value) (x.signedUnits places) := by
  rw [value_eq, signedUnits]
  split
  · rw [mul_neg]
    exact (nearest_units places x).neg
  · exact nearest_units places x

end Binary64

end Stencil.Numeric
