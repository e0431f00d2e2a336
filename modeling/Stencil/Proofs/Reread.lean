import Stencil.Proofs.Rounding
import Stencil.Proofs.NumberText

set_option autoImplicit false

namespace Stencil

namespace Numeric.Binary64

theorem nearest_magnitude_lt_sign_bit (num den : Nat) : nearestMagnitude num den < signBit := by
  have bound : infinityMagnitude < signBit := by decide
  unfold nearestMagnitude
  split
  · decide
  · exact Nat.lt_of_le_of_lt (Nat.min_le_left ..) bound

theorem is_negative_of_magnitude (negative : Bool) {magnitude : Nat} (small : magnitude < signBit) :
    (ofMagnitude negative magnitude).isNegative = negative := by
  rw [isNegative, to_nat_bits_of_magnitude negative small]
  cases negative <;> simp [small]

theorem magnitude_of_ratio (negative : Bool) (num den : Nat) :
    (ofRatio negative num den).magnitude = nearestMagnitude num den :=
  magnitude_of_magnitude _ (nearest_magnitude_lt_sign_bit ..)

theorem is_negative_of_ratio (negative : Bool) (num den : Nat) : (ofRatio negative num den).isNegative = negative :=
  is_negative_of_magnitude _ (nearest_magnitude_lt_sign_bit ..)

theorem of_magnitude_self (x : Binary64) : ofMagnitude x.isNegative x.magnitude = x := by
  have small : x.magnitude < signBit := Nat.mod_lt _ (by decide)
  have bound : x.bits.toNat < signBit + signBit := x.bits.toNat_lt
  have same : (ofMagnitude x.isNegative x.magnitude).bits.toNat = x.bits.toNat := by
    rw [to_nat_bits_of_magnitude _ small, isNegative, magnitude]
    by_cases negative : signBit ≤ x.bits.toNat
    · rw [if_pos (decide_eq_true negative), Nat.mod_eq_sub_mod negative, Nat.mod_eq_of_lt (by omega)]
      omega
    · rw [if_neg (by simp [negative]), Nat.mod_eq_of_lt (by omega)]
  obtain ⟨bits⟩ := x
  exact congrArg Binary64.mk (UInt64.toNat_inj.mp same)

theorem significand_exponent {x : Binary64} {m : Nat} {q : Int} (normal : 2 ^ 52 ≤ m) (small : m < 2 ^ 53)
    (least : -1074 ≤ q) (whole : x.magnitude = (q + 1074).toNat * hiddenBit + m) :
    x.significand = m ∧ x.exponent = q := by
  have lower : 2 ^ 52 = hiddenBit := by decide
  have upper : 2 ^ 53 = hiddenBit + hiddenBit := by decide
  have split : x.magnitude = hiddenBit * ((q + 1074).toNat + 1) + (m - hiddenBit) := by
    rw [whole, Nat.mul_add, Nat.mul_comm hiddenBit]
    omega
  have field : x.exponentField = (q + 1074).toNat + 1 := by
    rw [exponentField, split, Nat.mul_add_div (by decide), Nat.div_eq_of_lt (by omega), Nat.add_zero]
  have fraction : x.fractionField = m - hiddenBit := by
    rw [fractionField, split, Nat.mul_add_mod, Nat.mod_eq_of_lt (by omega)]
  have present : x.exponentField ≠ 0 := by omega
  constructor
  · rw [significand, if_neg present, fraction]
    omega
  · rw [exponent, if_neg present, field]
    omega

theorem num_of_nat {n : Nat} (small : n < 2 ^ 53) : (ofNat n).num = n * (ofNat n).den := by
  by_cases zero : n = 0
  · rw [zero, Nat.zero_mul]
    decide
  · have lower : 2 ^ n.log2 ≤ n := Nat.log2_self_le zero
    have upper : n < 2 ^ (n.log2 + 1) := Nat.lt_log2_self
    have few : n.log2 < 53 := (Nat.pow_lt_pow_iff_right (by decide)).mp (Nat.lt_of_le_of_lt lower small)
    obtain ⟨unit, places⟩ : ∃ unit, n.log2 + unit = 52 := ⟨52 - n.log2, by omega⟩
    have whole : (-(unit : Int)).toNat = 0 := by omega
    have parts : (-(-(unit : Int))).toNat = unit := by omega
    have normal : 2 ^ 52 ≤ n * 2 ^ unit := by
      rw [← places, Nat.pow_add]
      exact Nat.mul_le_mul_right _ lower
    have bound : n * 2 ^ unit < 2 ^ 53 := by
      have top : 2 ^ 53 = 2 ^ (n.log2 + 1) * 2 ^ unit := by
        rw [← Nat.pow_add]
        congr 1
        omega
      rw [top]
      exact Nat.mul_lt_mul_of_pos_right upper (Nat.pow_pos (by decide))
    have nearest : nearestMagnitude n 1 = (-(unit : Int) + 1074).toNat * hiddenBit + n * 2 ^ unit := by
      have exact := nearest_magnitude_exact (q := -unit) (by omega) bound (by omega) (.inl normal)
      rw [whole, parts, Nat.pow_zero, Nat.mul_one] at exact
      have same : nearestMagnitude n 1 = nearestMagnitude (n * 2 ^ unit) (2 ^ unit) :=
        nearest_magnitude_congr (by decide) (Nat.pow_pos (by decide)) (Nat.mul_one _).symm
      rw [same, exact]
      refine Nat.min_eq_right ?_
      have field : (-(unit : Int) + 1074).toNat * hiddenBit ≤ 1074 * hiddenBit :=
        Nat.mul_le_mul_right _ (by omega)
      have room : 1074 * hiddenBit + 2 ^ 53 ≤ infinityMagnitude := by decide
      omega
    have magnitude : (ofNat n).magnitude = (-(unit : Int) + 1074).toNat * hiddenBit + n * 2 ^ unit := by
      rw [ofNat, magnitude_of_ratio, nearest]
    obtain ⟨significand, exponent⟩ := significand_exponent normal bound (by omega) magnitude
    rw [num, den, significand, exponent, whole, parts]
    exact Nat.mul_one _

theorem num_power_of_ten : ∀ n ≤ 22, (Json.powerOfTen n).num = 10 ^ n * (Json.powerOfTen n).den := by
  decide +kernel

end Numeric.Binary64

namespace Json

open Numeric

def extend (n : Nat) (ds : List Nat) : Nat := ds.foldl (fun n d => 10 * n + d) n

theorem le_extend (n : Nat) (ds : List Nat) : n ≤ extend n ds := by
  induction ds generalizing n with
  | nil => exact Nat.le_refl _
  | cons d ds ih =>
    have more := ih (10 * n + d)
    change n ≤ extend (10 * n + d) ds
    omega

theorem fits_of_extend {n d : Nat} {ds : List Nat} (small : extend n (d :: ds) < UInt64.size) : fits n d = true := by
  have more := le_extend (10 * n + d) ds
  change extend (10 * n + d) ds < UInt64.size at small
  simp only [fits, decide_eq_true_eq]
  omega

theorem take_whole_eq {n : Nat} {ds : List Nat} (small : extend n ds < UInt64.size) :
    takeWhole n ds = ⟨extend n ds, 0⟩ := by
  induction ds generalizing n with
  | nil => rfl
  | cons d ds ih =>
    rw [takeWhole, if_pos (fits_of_extend small), Nat.mul_comm n]
    exact ih small

theorem take_fraction_eq {n : Nat} {e : Int} {ds : List Nat} (small : extend n ds < UInt64.size) :
    takeFraction ⟨n, e⟩ ds = ⟨extend n ds, e - ds.length⟩ := by
  induction ds generalizing n e with
  | nil => simp [takeFraction, extend]
  | cons d ds ih =>
    rw [takeFraction, if_pos (fits_of_extend small), Nat.mul_comm n, ih small, List.length_cons]
    simp only [extend, List.foldl_cons, Scaled.mk.injEq, true_and]
    omega

def Literal.units (literal : Literal) : Nat := ofDigits (literal.whole ++ literal.fraction?.getD [])

def Literal.place (literal : Literal) : Int :=
  literal.exponent?.getD 0 - (literal.fraction?.getD []).length

theorem scaled_eq {literal : Literal} (small : literal.units < UInt64.size) :
    literal.scaled = ⟨literal.units, literal.place⟩ := by
  have together : literal.units = extend (extend 0 literal.whole) (literal.fraction?.getD []) :=
    List.foldl_append ..
  have first : extend 0 literal.whole < UInt64.size := by
    have more := le_extend (extend 0 literal.whole) (literal.fraction?.getD [])
    omega
  rw [Literal.scaled, take_whole_eq first, together]
  rw [together] at small
  rw [take_fraction_eq small, Literal.place]
  simp only [Scaled.mk.injEq, true_and]
  omega

theorem num_of_is_zero {x : Binary64} (zero : x.isZero = true) : x.num = 0 := by
  have none : x.magnitude = 0 := by simpa [Binary64.isZero] using zero
  have significand : x.significand = 0 := by
    simp [Binary64.significand, Binary64.exponentField, Binary64.fractionField, none]
  rw [Binary64.num, significand, Nat.zero_mul]

theorem is_negative_of_nat (n : Nat) : (Binary64.ofNat n).isNegative = false :=
  Binary64.is_negative_of_ratio ..

theorem eq_zero_of_is_zero_of_nat {s : Nat} (small : s < 2 ^ 53) (zero : (Binary64.ofNat s).isZero = true) : s = 0 := by
  have exact := Binary64.num_of_nat small
  have below := Binary64.den_pos (.ofNat s)
  rw [num_of_is_zero zero] at exact
  exact (Nat.mul_eq_zero.mp exact.symm).resolve_right (by omega)

theorem scale_down_power_of_ten {s n : Nat} (small : s < 2 ^ 53) (few : n ≤ 22) :
    (Binary64.ofNat s).scaleDown (powerOfTen n) =
      .ofMagnitude false (Binary64.nearestMagnitude s (10 ^ n)) := by
  have power := Binary64.num_power_of_ten n few
  have below : 0 < (Binary64.ofNat s).den * (powerOfTen n).num := by
    rw [power]
    exact Nat.mul_pos (Binary64.den_pos _) (Nat.mul_pos (Nat.pow_pos (by decide)) (Binary64.den_pos _))
  rw [Binary64.scaleDown, Binary64.ofRatio, is_negative_of_nat]
  congr 1
  refine Binary64.nearest_magnitude_congr below (Nat.pow_pos (by decide)) ?_
  rw [Binary64.num_of_nat small, power]
  ring

theorem scale_up_power_of_ten {s n : Nat} (small : s < 2 ^ 53) (few : n ≤ 22) :
    (Binary64.ofNat s).scaleUp (powerOfTen n) = .ofMagnitude false (Binary64.nearestMagnitude (s * 10 ^ n) 1) := by
  have below := Nat.mul_pos (Binary64.den_pos (.ofNat s)) (Binary64.den_pos (powerOfTen n))
  rw [Binary64.scaleUp, Binary64.ofRatio, is_negative_of_nat]
  congr 1
  refine Binary64.nearest_magnitude_congr below (by decide) ?_
  rw [Binary64.num_of_nat small, Binary64.num_power_of_ten n few]
  ring

-- The one multiplication or division by an exact power of ten is rounded as the decimal itself is.
theorem to_float_eq {s : Nat} {e : Int} (small : s < 2 ^ 53) (near : -22 ≤ e ∧ e ≤ 22) :
    (Scaled.mk s e).toFloat? =
      some (.ofMagnitude false (Binary64.nearestMagnitude (Decimal.mk s e).num (Decimal.mk s e).den)) := by
  rw [Scaled.toFloat?, shrink]
  simp only [Decimal.num, Decimal.den, Nat.pow_eq]
  cases zero : (Binary64.ofNat s).isZero with
  | true =>
    obtain rfl := eq_zero_of_is_zero_of_nat small zero
    have none : Binary64.ofNat 0 = .ofMagnitude false 0 := rfl
    simp only [if_true, Nat.zero_mul, Binary64.nearest_magnitude_zero, none]
    split <;> rfl
  | false =>
    by_cases negative : e < 0
    · have whole : e.toNat = 0 := by omega
      have places : (-e).toNat = e.natAbs := by omega
      have bounded : e.natAbs ≤ 308 := by omega
      simp only [negative, bounded, whole, places, if_true, Bool.false_eq_true, if_false, Nat.pow_zero, Nat.mul_one,
        scale_down_power_of_ten small (show e.natAbs ≤ 22 by omega)]
    · have places : (-e).toNat = 0 := by omega
      have bounded : e ≤ 308 := by omega
      simp only [negative, bounded, places, if_true, Bool.false_eq_true, if_false, Nat.pow_zero,
        scale_up_power_of_ten small (show e.toNat ≤ 22 by omega)]

-- Its digits fit 53 bits, and the power of ten that belongs to the last of them is a binary number.
def Literal.Short (literal : Literal) : Prop :=
  literal.units < 2 ^ 53 ∧ -22 ≤ literal.place ∧ literal.place ≤ 22

instance (literal : Literal) : Decidable literal.Short := inferInstanceAs (Decidable (_ ∧ _))

theorem nearest_of_denotes {literal : Literal} {d : Decimal} (denotes : literal.Denotes d) :
    Binary64.nearestMagnitude (Decimal.mk literal.units literal.place).num
        (Decimal.mk literal.units literal.place).den =
      Binary64.nearestMagnitude d.num d.den := by
  obtain ⟨zeros, units, place⟩ := denotes
  rw [Literal.units, units, Literal.place, place]
  exact Decimal.nearest_shift ..

theorem signed_magnitude (x : Binary64) :
    (if x.isNegative then (Binary64.ofMagnitude false x.magnitude).neg else .ofMagnitude false x.magnitude) = x := by
  have small : x.magnitude < Binary64.signBit := Nat.mod_lt _ (by decide)
  have whole := x.of_magnitude_self
  cases negative : x.isNegative with
  | true =>
    rw [negative] at whole
    rw [if_pos rfl, Binary64.neg, Binary64.is_negative_of_magnitude false small,
      Binary64.magnitude_of_magnitude false small]
    exact whole
  | false =>
    rw [negative] at whole
    exact whole

theorem float_of_short {literal : Literal} {x : Binary64} (finite : x.isFinite = true)
    (sign : literal.negative = x.isNegative) (denotes : literal.Denotes (x.shortest .even)) (short : literal.Short) :
    literal.float? = some (.float x finite) := by
  obtain ⟨few, near⟩ := short
  have held : literal.units < UInt64.size := Nat.lt_trans few (by decide)
  have back : Binary64.nearestMagnitude (x.shortest .even).num (x.shortest .even).den = x.magnitude :=
    beq_iff_eq.mp (Binary64.reads_back_shortest finite .even)
  rw [Literal.float?, scaled_eq held, to_float_eq few near, nearest_of_denotes denotes, back, Option.bind_some, sign,
    signed_magnitude]
  exact dif_pos finite

theorem float_of_text {x : Binary64} (finite : x.isFinite = true) {literal : Literal}
    (read : readLiteral (x.text .json) = some (literal, [])) (short : literal.Short) :
    literal.float? = some (.float x finite) := by
  obtain ⟨written, sign, denotes, _, whole⟩ := exists_literal finite
  have alone := whole [] (by simp [Delimited])
  rw [List.append_nil] at alone
  cases read.symm.trans alone
  exact float_of_short finite sign denotes short

end Json

end Stencil
