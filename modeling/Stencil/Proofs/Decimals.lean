import Mathlib.Tactic.FieldSimp
import Stencil.Numeric.Decimal96
import Stencil.Proofs.Nearest

set_option autoImplicit false

namespace Stencil.Numeric

namespace Decimal96

def magnitude (d : Decimal96) : ℚ := d.coefficient / 10 ^ d.places

theorem magnitude_nonneg (d : Decimal96) : 0 ≤ d.magnitude := by
  unfold magnitude
  positivity

theorem of_parts_eq_some {negative : Bool} {coefficient places : Nat} {d : Decimal96}
    (made : ofParts? negative coefficient places = some d) :
    d.negative = negative ∧ d.coefficient = coefficient ∧ d.places = places := by
  unfold ofParts? at made
  split at made
  · obtain rfl := Option.some.inj made
    exact ⟨rfl, rfl, rfl⟩
  · cases made

theorem of_parts_eq_none {negative : Bool} {coefficient places : Nat}
    (missing : ofParts? negative coefficient places = none) (few : places ≤ 28) : 2 ^ 96 ≤ coefficient := by
  unfold ofParts? at missing
  split at missing
  · cases missing
  · next excess => exact Nat.not_lt.mp fun small => excess ⟨small, few⟩

theorem extend_sound (more : Nat) (d : Decimal96) :
    (d.extend more).negative = d.negative ∧ (d.extend more).magnitude = d.magnitude := by
  induction more generalizing d with
  | zero => exact ⟨rfl, rfl⟩
  | succ more ih =>
    rw [extend]
    split
    · next wider made =>
      obtain ⟨sign, coefficient, places⟩ := of_parts_eq_some made
      have same : wider.magnitude = d.magnitude := by
        rw [magnitude, magnitude, coefficient, places, pow_succ]
        push_cast
        exact mul_div_mul_right _ _ (by norm_num)
      exact ⟨(ih wider).1.trans sign, (ih wider).2.trans same⟩
    · exact ⟨rfl, rfl⟩

theorem places_extend_zero {more : Nat} {d : Decimal96} (zero : d.coefficient = 0) (few : d.places + more ≤ 28) :
    (d.extend more).places = d.places + more := by
  induction more generalizing d with
  | zero => rfl
  | succ more ih =>
    rw [extend]
    split
    · next wider made =>
      obtain ⟨_, coefficient, places⟩ := of_parts_eq_some made
      rw [ih (by rw [coefficient, zero, Nat.zero_mul]) (by omega), places]
      omega
    · next missing =>
      have large := of_parts_eq_none missing (by omega)
      rw [zero] at large
      exact absurd large (by decide)

theorem coefficient_eq_zero_iff (d : Decimal96) : d.coefficient = 0 ↔ d.magnitude = 0 := by
  have power : (10 : ℚ) ^ d.places ≠ 0 := by positivity
  rw [magnitude, div_eq_zero_iff, or_iff_left power, Nat.cast_eq_zero]

theorem coefficient_eq (d : Decimal96) : (d.coefficient : ℚ) = 10 ^ d.places * d.magnitude := by
  rw [magnitude, mul_div_cancel₀]
  positivity

theorem round_of_le {places : Nat} {d : Decimal96} (few : d.places ≤ places) : d.round places = d :=
  dif_neg (Nat.not_lt.mpr few)

theorem nearest_round {places : Nat} {d : Decimal96} (more : places < d.places) :
    Nearest (10 ^ places * d.magnitude) (d.round places).coefficient := by
  have value : 10 ^ places * d.magnitude = (d.coefficient : ℚ) / (Nat.pow 10 (d.places - places) : Nat) := by
    have split : (10 : ℚ) ^ d.places = 10 ^ places * 10 ^ (d.places - places) := by
      rw [← pow_add, Nat.add_sub_cancel' (Nat.le_of_lt more)]
    rw [magnitude, split, Nat.pow_eq]
    push_cast
    field_simp
  rw [value, round, dif_pos more]
  exact nearest_round_half_even d.coefficient (Nat.pow_pos (by decide))

theorem negative_round (places : Nat) (d : Decimal96) : (d.round places).negative = d.negative := by
  unfold round
  split <;> rfl

theorem places_round {places : Nat} {d : Decimal96} (more : places ≤ d.places) : (d.round places).places = places := by
  rcases Nat.lt_or_eq_of_le more with fewer | same
  · rw [round, dif_pos fewer]
  · rw [round_of_le (by omega), same]

theorem magnitude_rounded (places : Nat) (d : Decimal96) : (d.rounded places).magnitude = (d.round places).magnitude :=
  (extend_sound _ _).2

theorem negative_rounded (places : Nat) (d : Decimal96) :
    (d.rounded places).negative = (d.negative && (d.rounded places).coefficient != 0) := by
  have sign : (d.rounded places).negative = ((d.round places).negative && (d.round places).coefficient != 0) :=
    (extend_sound _ _).1
  have zero : (d.rounded places).coefficient = 0 ↔ (d.round places).coefficient = 0 := by
    rw [coefficient_eq_zero_iff, magnitude_rounded, ← coefficient_eq_zero_iff]
  have nonzero : ((d.round places).coefficient != 0) = ((d.rounded places).coefficient != 0) := by
    rw [Bool.eq_iff_iff, bne_iff_ne, bne_iff_ne, Ne, Ne, zero]
  rw [sign, negative_round, nonzero]

theorem nearest_rounded {places : Nat} {d : Decimal96} (reached : (d.rounded places).places = places) :
    Nearest (10 ^ places * d.magnitude) (d.rounded places).coefficient := by
  have value : ((d.rounded places).coefficient : ℚ) = 10 ^ places * (d.round places).magnitude := by
    rw [coefficient_eq, reached, magnitude_rounded]
  rcases Nat.lt_or_ge places d.places with more | few
  · have same : (d.rounded places).coefficient = (d.round places).coefficient := by
      have cast := (d.round places).coefficient_eq
      rw [places_round (Nat.le_of_lt more), ← value] at cast
      exact_mod_cast cast.symm
    rw [same]
    exact nearest_round more
  · rw [round_of_le few] at value
    rw [← value]
    exact nearest_int_cast _

theorem coefficient_rounded_zero {places : Nat} {d : Decimal96} (reached : (d.rounded places).places = places)
    (zero : d.coefficient = 0) : (d.rounded places).coefficient = 0 := by
  have nearest := nearest_rounded reached
  rw [(coefficient_eq_zero_iff d).mp zero, mul_zero] at nearest
  exact_mod_cast nearest.unique (nearest_int_cast 0)

theorem places_unsigned_zero (d : Decimal96) : d.unsignedZero.places = d.places := rfl

theorem one_le_of_unreached {places : Nat} {d : Decimal96} (few : places ≤ 28)
    (unreached : (d.rounded places).places ≠ places) : 1 ≤ 10 ^ places * d.magnitude := by
  have fewer : d.places < places := by
    by_contra enough
    have same := places_round (Nat.le_of_not_lt enough)
    have none : places - (d.round places).unsignedZero.places = 0 := by
      rw [places_unsigned_zero, same, Nat.sub_self]
    refine unreached ?_
    rw [rounded, pad, none]
    exact same
  have nonzero : d.coefficient ≠ 0 := by
    intro zero
    have zeros : d.unsignedZero.coefficient = 0 := zero
    have total : d.unsignedZero.places + (places - d.unsignedZero.places) = places := by
      rw [places_unsigned_zero]
      omega
    refine unreached ?_
    rw [rounded, pad, round_of_le (Nat.le_of_lt fewer), places_extend_zero zeros (by omega), total]
  have unit : (1 : ℚ) ≤ d.coefficient := by exact_mod_cast Nat.pos_of_ne_zero nonzero
  have power : (10 : ℚ) ^ d.places ≤ 10 ^ places := pow_le_pow_right₀ (by norm_num) (Nat.le_of_lt fewer)
  calc (1 : ℚ) ≤ d.coefficient := unit
    _ = 10 ^ d.places * d.magnitude := d.coefficient_eq
    _ ≤ 10 ^ places * d.magnitude := mul_le_mul_of_nonneg_right power d.magnitude_nonneg

end Decimal96

-- What is relied on of the decimals that stand for binary numbers: only numbers of more than 96 bits have none, and no
-- digit is lost that decides a rounding to at most 96 bits.
structure Retains (places : Nat) (decimal? : Binary64 → Option Decimal96) : Prop where
  missing : ∀ x, x.isFinite = true → decimal? x = none → 2 ^ 96 ≤ |x.value|
  sign : ∀ x d, decimal? x = some d → d.coefficient ≠ 0 → d.negative = x.isNegative
  deciding : ∀ x d, decimal? x = some d → ∀ n < 2 ^ 96, SameSide (10 ^ places * |x.value|) (10 ^ places * d.magnitude) n

structure RetainsAt (places : Nat) (decimal? : Binary64 → Option Decimal96) (x : Binary64) : Prop where
  missing : decimal? x = none → 2 ^ 96 ≤ |x.value|
  sign : ∀ d, decimal? x = some d → d.coefficient ≠ 0 → d.negative = x.isNegative
  deciding : ∀ d, decimal? x = some d → ∀ n < 2 ^ 96, SameSide (10 ^ places * |x.value|) (10 ^ places * d.magnitude) n

theorem Retains.retains_at {places : Nat} {decimal? : Binary64 → Option Decimal96} (retains : Retains places decimal?)
    {x : Binary64} (finite : x.isFinite = true) : RetainsAt places decimal? x :=
  ⟨retains.missing x finite, retains.sign x, retains.deciding x⟩

namespace Binary64

theorem units_ne_zero {places : Nat} {x : Binary64} (large : 1 / 2 < 10 ^ places * |x.value|) : x.units places ≠ 0 := by
  intro zero
  have near := (nearest_iff.mp (nearest_units places x)).1
  rw [zero, Nat.cast_zero, Int.cast_zero, zero_add] at near
  rcases near with less | ⟨same, _⟩ <;> linarith

theorem fixed_text_eq {places : Nat} {x : Binary64} (finite : x.isFinite = true)
    (large : 1 / 2 < 10 ^ places * |x.value|) :
    x.fixedText places =
      signed (x.isNegative && x.units places != 0) (pointText places (digitsText (x.units places))) := by
  have nonzero : (x.units places != 0) = true := bne_iff_ne.mpr (units_ne_zero large)
  rw [nonzero, Bool.and_true]
  exact if_pos finite

theorem rounded_text_eq {places : Nat} {decimal? : Binary64 → Option Decimal96} {x : Binary64}
    (retains : RetainsAt places decimal? x) (few : places ≤ 28) (finite : x.isFinite = true) :
    x.roundedText decimal? places =
      signed (x.isNegative && x.units places != 0) (pointText places (digitsText (x.units places))) := by
  have scale : (1 : ℚ) ≤ 10 ^ places := one_le_pow₀ (by norm_num)
  unfold roundedText
  split
  · next none =>
    have beyond := retains.missing none
    have scaled : |x.value| ≤ 10 ^ places * |x.value| := le_mul_of_one_le_left (abs_nonneg _) scale
    exact fixed_text_eq finite (by linarith)
  · next d found =>
    have deciding := retains.deciding d found
    split
    · next reached =>
      have nearest : Nearest (10 ^ places * |x.value|) (d.rounded places).coefficient := by
        refine (Decimal96.nearest_rounded reached).of_sides (by positivity) fun m most => deciding m ?_
        exact Nat.lt_of_le_of_lt most (d.rounded places).coefficient_lt
      have same : (d.rounded places).coefficient = x.units places := by
        exact_mod_cast nearest.unique (nearest_units places x)
      have sign : (d.negative && x.units places != 0) = (x.isNegative && x.units places != 0) := by
        by_cases zero : x.units places = 0
        · rw [bne_eq_false_iff_eq.mpr zero, Bool.and_false, Bool.and_false]
        · have some : d.coefficient ≠ 0 := fun none => zero (same ▸ Decimal96.coefficient_rounded_zero reached none)
          rw [retains.sign d found some]
      rw [Decimal96.text, Decimal96.negative_rounded, reached, same, sign]
    · next unreached =>
      have least := Decimal96.one_le_of_unreached few unreached
      refine fixed_text_eq finite ?_
      have first := (deciding 0 (by decide)).2
      rw [Nat.cast_zero, zero_add] at first
      exact first.mpr (by linarith)

end Binary64

end Stencil.Numeric
