import Stencil.Proofs.Cut
import Stencil.Proofs.Whole
import Stencil.Value.Render

set_option autoImplicit false

namespace Stencil

open Numeric

def Numeral (run : List Char) (n : Nat) : Prop :=
  (∀ c ∈ run, c.isDigit = true) ∧ run ≠ [] ∧ (run.head? = some '0' → run.length = 1) ∧
    ofDigits (run.map digitValue) = n

theorem numeral_digits_text (n : Nat) : Numeral (digitsText n) n := by
  refine ⟨fun c => is_digit_digits_text, digits_text_ne_nil n, Json.led_digits_text n, ?_⟩
  rw [map_digit_value_digits_text, of_digits_digits]

namespace Numeric.Binary64

def ones (x : Binary64) : Nat := if x.isWhole then (x.shortest .up).num else x.units 0

def signedOnes (x : Binary64) : Int := withSign x.isNegative x.ones

theorem ones_neg (x : Binary64) : x.neg.ones = x.ones := by
  rw [ones, ones, is_whole_congr x.magnitude_neg, shortest_congr x.magnitude_neg, units_congr x.magnitude_neg]

theorem signed_ones_neg (x : Binary64) : x.neg.signedOnes = -x.signedOnes := by
  rw [signedOnes, signedOnes, is_negative_neg, ones_neg, with_sign_not]

theorem is_whole_of_is_zero {x : Binary64} (zero : x.isZero = true) : x.isWhole = true := by
  have none : x.magnitude = (Binary64.mk 0).magnitude := beq_iff_eq.mp zero
  exact (is_whole_congr none).trans (by decide +kernel)

theorem ones_of_is_zero {x : Binary64} (zero : x.isZero = true) : x.ones = 0 := by
  rw [ones, if_pos (is_whole_of_is_zero zero), shortest, if_pos zero]
  rfl

theorem ones_ne_zero {x : Binary64} (whole : x.isWhole = true) (nonzero : x.isZero = false) : x.ones ≠ 0 := by
  rw [ones, if_pos whole]
  exact Nat.mul_ne_zero (coefficient_shortest .up nonzero) (Nat.pos_iff_ne_zero.mp (Nat.pow_pos (by decide)))

theorem nearest_signed_ones {x : Binary64} (fraction : x.isWhole = false) : Nearest x.value x.signedOnes := by
  have nearest := x.nearest_signed_units 0
  rw [pow_zero, one_mul] at nearest
  rw [signedOnes, ones, fraction]
  exact nearest

theorem signed_ones_of_value {x : Binary64} (finite : x.isFinite = true) {m : Int} (same : x.value = m)
    (small : |m| ≤ 2 ^ 53) : x.signedOnes = m := by
  obtain ⟨whole, magnitude⟩ := whole_of_value finite same
  have few : x.num / x.den ≤ 2 ^ 53 := by
    rw [Int.abs_eq_natAbs] at small
    omega
  have value := value_of_whole whole
  rw [same] at value
  rw [signedOnes, ones, if_pos whole, num_shortest_of_whole whole .up few]
  exact_mod_cast value.symm

theorem rounded_text_of_fraction {decimal? : Binary64 → Option Decimal96} {x : Binary64}
    (retains : RetainsAt 0 decimal? x) (finite : x.isFinite = true) (fraction : x.isWhole = false) :
    x.roundedText decimal? 0 = signed (decide (x.signedOnes < 0)) (digitsText x.signedOnes.natAbs) := by
  have digits : x.ones = x.units 0 := by
    rw [ones, fraction]
    rfl
  rw [rounded_text_eq retains (by decide) finite, Json.point_text_zero (digits_text_ne_nil _), signedOnes,
    decide_with_sign_neg, nat_abs_with_sign, digits]

theorem text_of_nonzero {x : Binary64} (whole : x.isWhole = true) (nonzero : x.isZero = false) :
    x.text .plain = signed (decide (x.signedOnes < 0)) (digitsText x.signedOnes.natAbs) := by
  have digits : x.ones = (x.shortest .up).num := if_pos whole
  rw [text_of_whole whole, signedOnes, decide_with_sign_neg, nat_abs_with_sign,
    bne_iff_ne.mpr (ones_ne_zero whole nonzero), Bool.and_true, digits]

end Numeric.Binary64

theorem float_text_round {x : Binary64} (finite : x.isFinite = true) :
    NumberFormat.floatText .round x =
      .ok (String.ofList (Binary64.signed (decide (x.signedOnes < 0)) (digitsText x.signedOnes.natAbs))) := by
  rw [NumberFormat.floatText]
  cases zero : x.isZero with
  | true =>
    have none : x.signedOnes = 0 := by
      rw [Binary64.signedOnes, Binary64.ones_of_is_zero zero]
      cases x.isNegative <;> rfl
    have text : String.ofList (Binary64.signed (decide ((0 : Int) < 0)) (digitsText (0 : Int).natAbs)) = "0" := by
      decide +kernel
    rw [none, text]
    rfl
  | false =>
    cases whole : x.isWhole with
    | true =>
      rw [Binary64.text_of_nonzero whole zero]
      rfl
    | false =>
      have retains := (Decimal96.retains_of_binary (Nat.zero_le 2)).retains_at finite
      rw [NumberFormat.roundedText, Binary64.rounded_text_of_fraction retains finite whole]
      rfl

-- One whole number is written for a finite number, the nearest one to a fraction and up to 53 bits the number itself;
-- for the number of the other sign it is the one of the other sign.
theorem render_round {config : Config} (round : config.numberFormat = .round) {x : Binary64}
    (finite : x.isFinite = true) :
    ∃ (n : Int) (run : List Char), Numeral run n.natAbs ∧
      Value.render config (.float x) = .ok (String.ofList (Binary64.signed (decide (n < 0)) run)) ∧
      x.neg.value = -x.value ∧
      Value.render config (.float x.neg) = .ok (String.ofList (Binary64.signed (decide (0 < n)) run)) ∧
      ((¬∃ m : Int, x.value = m) →
        |x.value - n| ≤ 1 / 2 ∧ (|x.value - n| = 1 / 2 → Even n) ∧
          ∀ decimal? : Binary64 → Option Decimal96, RetainsAt 0 decimal? x →
            x.roundedText decimal? 0 = Binary64.signed (decide (n < 0)) run) ∧
      ∀ m : Int, x.value = m → |m| ≤ 2 ^ 53 → n = m := by
  refine ⟨x.signedOnes, digitsText x.signedOnes.natAbs, numeral_digits_text _, ?_, x.value_neg, ?_, ?_, ?_⟩
  · rw [Value.render, round, float_text_round finite]
  · have negated : x.neg.isFinite = true := (Binary64.is_finite_congr x.magnitude_neg).trans finite
    have sign : decide (-x.signedOnes < 0) = decide (0 < x.signedOnes) := decide_eq_decide.mpr (by omega)
    rw [Value.render, round, float_text_round negated, Binary64.signed_ones_neg, sign, Int.natAbs_neg]
  · intro apart
    have fraction : x.isWhole = false :=
      Bool.eq_false_iff.mpr fun whole => apart ((Binary64.is_whole_iff finite).mp whole)
    obtain ⟨near, even⟩ := Binary64.nearest_signed_ones fraction
    exact ⟨near, even, fun decimal? retains => Binary64.rounded_text_of_fraction retains finite fraction⟩
  · exact fun m same small => Binary64.signed_ones_of_value finite same small

theorem render_round_branches :
    (∃ (n : Int) (run : List Char), Numeral run n.natAbs ∧
      "-2" = String.ofList (Binary64.signed (decide (n < 0)) run) ∧
      "2" = String.ofList (Binary64.signed (decide (0 < n)) run) ∧
      |(Binary64.mk 0xc004000000000000).value - n| ≤ 1 / 2 ∧
      (|(Binary64.mk 0xc004000000000000).value - n| = 1 / 2 → Even n) ∧
      (Binary64.mk 0xc004000000000000).roundedText Decimal96.ofBinary? 0 = Binary64.signed (decide (n < 0)) run) ∧
    (∃ (n : Int) (run : List Char), Numeral run n.natAbs ∧
      "0" = String.ofList (Binary64.signed (decide (n < 0)) run) ∧
      "0" = String.ofList (Binary64.signed (decide (0 < n)) run) ∧
      |(Binary64.mk 0xbfd999999999999a).value - n| ≤ 1 / 2) ∧
    (Binary64.mk 0x4340000000000000).value = (2 ^ 53 : Int) ∧
      ∃ run, Numeral run (2 ^ 53) ∧ "9007199254740992" = String.ofList run := by
  have rounds (x : Binary64) (finite : x.isFinite = true) := @render_round { numberFormat := .round } rfl x finite
  have apart {x : Binary64} (finite : x.isFinite = true) (fraction : x.isWhole = false) : ¬∃ m : Int, x.value = m :=
    fun whole => absurd ((Binary64.is_whole_iff finite).mpr whole) (Bool.eq_false_iff.mp fraction)
  refine ⟨?_, ?_, ?_⟩
  · obtain ⟨n, run, numeral, text, _, negated, near, _⟩ := rounds ⟨0xc004000000000000⟩ (by decide)
    obtain ⟨close, even, same⟩ := near (apart (by decide) (by decide +kernel))
    have two : Value.render { numberFormat := .round } (.float ⟨0xc004000000000000⟩) = .ok "-2" := by decide +kernel
    have opposite : Value.render { numberFormat := .round } (.float (Binary64.neg ⟨0xc004000000000000⟩)) = .ok "2" := by
      decide +kernel
    exact ⟨n, run, numeral, Except.ok.inj (two.symm.trans text), Except.ok.inj (opposite.symm.trans negated), close,
      even, same _ ((Decimal96.retains_of_binary (Nat.zero_le 2)).retains_at (by decide))⟩
  · obtain ⟨n, run, numeral, text, _, negated, near, _⟩ := rounds ⟨0xbfd999999999999a⟩ (by decide)
    have zero : Value.render { numberFormat := .round } (.float ⟨0xbfd999999999999a⟩) = .ok "0" := by decide +kernel
    have opposite : Value.render { numberFormat := .round } (.float (Binary64.neg ⟨0xbfd999999999999a⟩)) = .ok "0" := by
      decide +kernel
    exact ⟨n, run, numeral, Except.ok.inj (zero.symm.trans text), Except.ok.inj (opposite.symm.trans negated),
      (near (apart (by decide) (by decide +kernel))).1⟩
  · have value : (Binary64.mk 0x4340000000000000).value = (2 ^ 53 : Int) := by
      have ones : withSign (Binary64.mk 0x4340000000000000).isNegative
          ((Binary64.mk 0x4340000000000000).num / (Binary64.mk 0x4340000000000000).den) = 2 ^ 53 := by decide +kernel
      rw [Binary64.value_of_whole (by decide +kernel), ones]
    obtain ⟨n, run, numeral, text, _, _, _, exact⟩ := rounds ⟨0x4340000000000000⟩ (by decide)
    obtain rfl := exact _ value (by decide +kernel)
    have last : Value.render { numberFormat := .round } (.float ⟨0x4340000000000000⟩) = .ok "9007199254740992" := by
      decide +kernel
    exact ⟨value, run, numeral, Except.ok.inj (last.symm.trans text)⟩

end Stencil
