import Stencil.Proofs.Cut
import Stencil.Proofs.NumberText
import Stencil.Value.Render

set_option autoImplicit false

namespace Stencil

open Numeric

def Amount (text : List Char) (n : Int) : Prop :=
  ∃ whole fraction, text = Binary64.signed (decide (n < 0)) (whole ++ '.' :: fraction) ∧
    (∀ c ∈ whole ++ fraction, c.isDigit = true) ∧ whole ≠ [] ∧ (whole.head? = some '0' → whole.length = 1) ∧
    fraction.length = 2 ∧ ofDigits ((whole ++ fraction).map digitValue) = n.natAbs

theorem is_digit_zeros_digits_text {n count : Nat} {c : Char}
    (member : c ∈ List.replicate count '0' ++ digitsText n) : c.isDigit = true := by
  rcases List.mem_append.mp member with zero | digit
  · rw [List.eq_of_mem_replicate zero]
    rfl
  · exact is_digit_digits_text digit

theorem of_digits_zeros_digits_text (n count : Nat) :
    ofDigits ((List.replicate count '0' ++ digitsText n).map digitValue) = n := by
  rw [List.map_append, List.map_replicate, map_digit_value_digits_text]
  exact (Json.of_digits_zeros_append _ _).trans (of_digits_digits n)

theorem amount_point_text (n : Int) :
    Amount (Binary64.signed (decide (n < 0)) (pointText 2 (digitsText n.natAbs))) n := by
  obtain ⟨whole, fraction, text, present, length, run, led⟩ :=
    Json.exists_point_text (by decide : 2 ≠ 0) (Json.led_digits_text n.natAbs)
  refine ⟨whole, fraction, by rw [text], fun c member => ?_, present, led, length, ?_⟩
  · exact is_digit_zeros_digits_text (run ▸ member)
  · rw [run]
    exact of_digits_zeros_digits_text _ _

theorem amount_int_text (n : Int) : Amount (intText n ++ ['.', '0', '0']) (100 * n) := by
  have sign : decide (100 * n < 0) = decide (n < 0) := decide_eq_decide.mpr (by omega)
  have zeros : ['0', '0'] = List.replicate 2 '0' := rfl
  refine ⟨digitsText n.natAbs, ['0', '0'], ?_, fun c member => ?_, digits_text_ne_nil _, Json.led_digits_text _, rfl,
    ?_⟩
  · rw [sign, intText]
    by_cases negative : n < 0 <;> simp [negative, Binary64.signed]
  · exact Json.is_digit_digits_text_zeros (zeros ▸ member)
  · rw [zeros, Json.map_digit_value_digits_text_zeros, Json.of_digits_append_zeros, of_digits_digits]
    omega

def RoundedAmount (text : List Char) (value : ℚ) : Prop :=
  ∃ n : Int, Amount text n ∧ |100 * value - n| ≤ 1 / 2 ∧ (|100 * value - n| = 1 / 2 → Even n)

theorem rounded_amount_rounded_text {decimal? : Binary64 → Option Decimal96} (retains : Retains 2 decimal?)
    {x : Binary64} (finite : x.isFinite = true) : RoundedAmount (x.roundedText decimal? 2) x.value := by
  have hundred : (100 : ℚ) = 10 ^ 2 := by norm_num
  refine ⟨x.signedUnits 2, ?_, hundred ▸ x.nearest_signed_units 2⟩
  rw [Binary64.rounded_text_eq (retains.retains_at finite) (by decide) finite, ← Binary64.decide_signed_units_neg,
    ← Binary64.nat_abs_signed_units]
  exact amount_point_text _

-- An amount is rounded once and exactly: by a decimal, where a decimal has no room for the places, and where there is
-- none.
theorem render_cents :
    (∀ decimal? : Binary64 → Option Decimal96, Retains 2 decimal? → ∀ x : Binary64, x.isFinite = true →
      RoundedAmount (x.roundedText decimal? 2) x.value) ∧
    ∀ config : Config, config.numberFormat = .cents →
      (∀ x : Binary64, x.isFinite = true →
        ∃ text : String, Value.render config (.float x) = .ok text ∧ RoundedAmount text.toList x.value) ∧
      ∀ i : Int64, ∃ text : String, Value.render config (.int i) = .ok text ∧ Amount text.toList (100 * i.toInt) := by
  refine ⟨fun decimal? retains x finite => rounded_amount_rounded_text retains finite, fun config cents => ⟨?_, ?_⟩⟩
  · intro x finite
    refine ⟨NumberFormat.roundedText 2 x, ?_, ?_⟩
    · rw [Value.render, cents]
      rfl
    · rw [NumberFormat.roundedText, String.toList_ofList]
      exact rounded_amount_rounded_text (Decimal96.retains_of_binary (Nat.le_refl 2)) finite
  · intro i
    refine ⟨String.ofList (intText i.toInt ++ ['.', '0', '0']), ?_, ?_⟩
    · rw [Value.render, cents]
      rfl
    · rw [String.toList_ofList]
      exact amount_int_text _

theorem render_cents_branches :
    Retains 2 Decimal96.ofBinary? ∧
    (Value.render { numberFormat := .cents } (.float ⟨0xbfc0000000000000⟩) = .ok "-0.12" ∧
      RoundedAmount "-0.12".toList (Binary64.mk 0xbfc0000000000000).value) ∧
    ((Decimal96.ofBinary? ⟨0x4589d971e4fe8402⟩).map fun d => (d.rounded 2).places) = some 1 ∧
    RoundedAmount ((Binary64.mk 0x4589d971e4fe8402).roundedText Decimal96.ofBinary? 2)
      (Binary64.mk 0x4589d971e4fe8402).value ∧
    Decimal96.ofBinary? ⟨0x46293e5939a08cea⟩ = none ∧
    RoundedAmount ((Binary64.mk 0x46293e5939a08cea).roundedText Decimal96.ofBinary? 2)
      (Binary64.mk 0x46293e5939a08cea).value ∧
    Value.render { numberFormat := .cents } (.int (-5)) = .ok "-5.00" ∧ Amount "-5.00".toList (-500) := by
  have retains := Decimal96.retains_of_binary (Nat.le_refl 2)
  obtain ⟨rounded, rendered⟩ := render_cents
  obtain ⟨floats, ints⟩ := rendered { numberFormat := .cents } rfl
  have tie : Value.render { numberFormat := .cents } (.float ⟨0xbfc0000000000000⟩) = .ok "-0.12" := by
    decide +kernel
  have whole : Value.render { numberFormat := .cents } (.int (-5)) = .ok "-5.00" := by decide +kernel
  obtain ⟨text, same, amount⟩ := floats ⟨0xbfc0000000000000⟩ (by decide)
  obtain ⟨digits, equal, units⟩ := ints (-5)
  obtain rfl := Except.ok.inj (tie.symm.trans same)
  obtain rfl := Except.ok.inj (whole.symm.trans equal)
  exact ⟨retains, ⟨tie, amount⟩, by decide +kernel, rounded _ retains _ (by decide), by decide +kernel,
    rounded _ retains _ (by decide), whole, units⟩

end Stencil
