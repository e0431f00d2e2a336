import Stencil.Proofs.Cents
import Stencil.Proofs.WholeText
import Stencil.Proofs.Wrapping

set_option autoImplicit false

namespace Stencil

open Numeric

namespace Numeric

theorem int_text_eq (n : Int) : intText n = Binary64.signed (decide (n < 0)) (digitsText n.natAbs) := by
  by_cases negative : n < 0 <;> simp [intText, Binary64.signed, negative]

theorem point_text_append {whole fraction : List Char} (some : whole ≠ []) (present : fraction ≠ []) :
    pointText fraction.length (whole ++ fraction) = whole ++ '.' :: fraction := by
  have digit : 0 < whole.length := List.length_pos_iff.mpr some
  have long : fraction.length + 1 - (whole ++ fraction).length = 0 := by
    rw [List.length_append]
    omega
  have cut : (whole ++ fraction).length - fraction.length = whole.length := by
    rw [List.length_append, Nat.add_sub_cancel]
  simp only [pointText, long, List.replicate_zero, List.nil_append, if_neg (mt List.length_eq_zero_iff.mp present), cut,
    List.take_left', List.drop_left']

theorem point_text_hundred (n : Nat) : pointText 2 (digitsText (100 * n)) = digitsText n ++ ['.', '0', '0'] := by
  by_cases zero : n = 0
  · rw [zero]
    decide +kernel
  · have digits : digitsText (n * 10 ^ 2) = digitsText n ++ List.replicate 2 '0' :=
      digits_text_mul_pow fun none => absurd none zero
    have zeros : ['0', '0'] ≠ [] := List.cons_ne_nil _ _
    have hundred : 100 * n = n * 10 ^ 2 := Nat.mul_comm ..
    rw [hundred, digits]
    exact point_text_append (digits_text_ne_nil n) zeros

namespace Binary64

theorem rounded_text_of_value {decimal? : Binary64 → Option Decimal96} {x : Binary64} (retains : RetainsAt 2 decimal? x)
    (finite : x.isFinite = true) {n : Int} (same : x.value = n) :
    x.roundedText decimal? 2 = intText n ++ ['.', '0', '0'] := by
  have hundred : ((100 * n : Int) : ℚ) = 10 ^ 2 * x.value := by
    rw [same]
    push_cast
    ring
  have units : x.signedUnits 2 = 100 * n :=
    (x.nearest_signed_units 2).unique (hundred ▸ nearest_int_cast (100 * n))
  have sign : decide (100 * n < 0) = decide (n < 0) := decide_eq_decide.mpr (by omega)
  have magnitude : (100 * n).natAbs = 100 * n.natAbs := Int.natAbs_mul 100 n
  rw [rounded_text_eq retains (by decide) finite, ← decide_signed_units_neg, ← nat_abs_signed_units, units, sign,
    magnitude, point_text_hundred, int_text_eq]
  cases decide (n < 0) <;> rfl

theorem text_of_value {x : Binary64} (finite : x.isFinite = true) {n : Int} (same : x.value = n)
    (small : |n| ≤ 2 ^ 53) (signed : x.isNegative = decide (n < 0)) : x.text .plain = intText n := by
  obtain ⟨whole, magnitude⟩ := whole_of_value finite same
  have few : x.num / x.den ≤ 2 ^ 53 := by
    rw [Int.abs_eq_natAbs] at small
    omega
  rw [text_of_whole whole, num_shortest_of_whole whole .up few, magnitude, signed, int_text_eq]

end Binary64

end Numeric

theorem float_text_of_value {x : Binary64} (finite : x.isFinite = true) {n : Int64} (same : x.value = n.toInt)
    (small : |n.toInt| ≤ 2 ^ 53) {format : NumberFormat}
    (signed : format = .plain → x.isNegative = decide (n.toInt < 0)) : format.floatText x = format.intText n := by
  cases format with
  | plain => rw [NumberFormat.floatText, NumberFormat.intText, Binary64.text_of_value finite same small (signed rfl)]
  | round =>
    rw [float_text_round finite, Binary64.signed_ones_of_value finite same small, ← int_text_eq, NumberFormat.intText]
  | cents =>
    have retains := (Decimal96.retains_of_binary (Nat.le_refl 2)).retains_at finite
    rw [NumberFormat.floatText, NumberFormat.roundedText, Binary64.rounded_text_of_value retains finite same,
      NumberFormat.intText]
  | percent => rfl

-- A whole number has one text in either form, and so have the lists and maps around it. But for the zero with a sign,
-- one binary number is equal to it.
theorem render_integral {n : Int64} (small : |n.toInt| ≤ 2 ^ 53) :
    ((Binary64.ofInt n.toInt).isFinite = true ∧ (Binary64.ofInt n.toInt).value = n.toInt ∧
      ∀ x : Binary64, x.isFinite = true → x.value = n.toInt → x.isNegative = decide (n.toInt < 0) →
        x = Binary64.ofInt n.toInt) ∧
    (∀ config : Config, config.numberFormat = .plain ∨ config.numberFormat = .round →
      Value.render config (.int n) = .ok (String.ofList (intText n.toInt)) ∧
      Value.render config (.float (Binary64.ofInt n.toInt)) = .ok (String.ofList (intText n.toInt))) ∧
    (∀ config : Config, config.numberFormat = .cents →
      Value.render config (.int n) = .ok (String.ofList (intText n.toInt) ++ ".00") ∧
      Value.render config (.float (Binary64.ofInt n.toInt)) = .ok (String.ofList (intText n.toInt) ++ ".00")) ∧
    (∀ decimal? : Binary64 → Option Decimal96, RetainsAt 2 decimal? (Binary64.ofInt n.toInt) →
      (Binary64.ofInt n.toInt).roundedText decimal? 2 = intText n.toInt ++ ['.', '0', '0']) ∧
    ∀ x : Binary64, x.isFinite = true → x.value = n.toInt → ∀ config : Config,
      (config.numberFormat = .plain → x.isNegative = decide (n.toInt < 0)) → ∀ wrapping : Value.Wrapping,
        (wrapping.around (.float x)).render config = (wrapping.around (.int n)).render config := by
  have finite := Binary64.is_finite_of_int (Json.in_range_to_int n)
  have value := Binary64.value_of_int small
  have sign := Binary64.is_negative_of_int n.toInt
  have alike {x : Binary64} (bounded : x.isFinite = true) (same : x.value = n.toInt) (config : Config)
      (signed : config.numberFormat = .plain → x.isNegative = decide (n.toInt < 0)) :
      Value.render config (.float x) = Value.render config (.int n) := by
    rw [Value.render, Value.render, float_text_of_value bounded same small signed]
  refine ⟨⟨finite, value, ?_⟩, ?_, ?_, ?_, ?_⟩
  · intro x bounded same signed
    exact Binary64.eq_of_value bounded finite (signed.trans sign.symm) (same.trans value.symm)
  · intro config chosen
    have text : Value.render config (.int n) = .ok (String.ofList (intText n.toInt)) := by
      rcases chosen with plain | round
      · rw [Value.render, plain, NumberFormat.intText]
      · rw [Value.render, round, NumberFormat.intText]
    exact ⟨text, (alike finite value config fun _ => sign).trans text⟩
  · intro config cents
    have text : Value.render config (.int n) = .ok (String.ofList (intText n.toInt) ++ ".00") := by
      rw [Value.render, cents, NumberFormat.intText, String.ofList_append]
    exact ⟨text, (alike finite value config fun _ => sign).trans text⟩
  · exact fun decimal? retains => Binary64.rounded_text_of_value retains finite value
  · exact fun x bounded same config signed wrapping => Value.render_around (alike bounded same config signed) wrapping

theorem render_integral_last :
    |(0x20000000000000 : Int64).toInt| ≤ 2 ^ 53 ∧
    Value.render { separator := "|" } (.list [.str "x", .map [("n", .float ⟨0x4340000000000000⟩)]]) =
      Value.render { separator := "|" } (.list [.str "x", .map [("n", .int 0x20000000000000)]]) ∧
    |(-0x20000000000000 : Int64).toInt| ≤ 2 ^ 53 ∧
    Value.render { numberFormat := .cents } (.float ⟨0xc340000000000000⟩) = .ok "-9007199254740992.00" ∧
    Value.render { numberFormat := .round } (.float ⟨0x8000000000000000⟩) =
      Value.render { numberFormat := .round } (.int 0) := by
  have last : |(0x20000000000000 : Int64).toInt| ≤ 2 ^ 53 := by decide
  have first : |(-0x20000000000000 : Int64).toInt| ≤ 2 ^ 53 := by decide
  have power : Binary64.ofInt (0x20000000000000 : Int64).toInt = ⟨0x4340000000000000⟩ := by decide +kernel
  have below : Binary64.ofInt (-0x20000000000000 : Int64).toInt = ⟨0xc340000000000000⟩ := by decide +kernel
  refine ⟨last, ?_, first, ?_, ?_⟩
  · obtain ⟨⟨finite, value, _⟩, _, _, _, wrapped⟩ := render_integral last
    rw [power] at finite value
    exact wrapped _ finite value _ (fun _ => by decide) (.item [.str "x"] (.entry [] "n" .place []) [])
  · obtain ⟨_, _, cents, _⟩ := render_integral first
    rw [below] at cents
    have text : String.ofList (intText (-0x20000000000000 : Int64).toInt) ++ ".00" = "-9007199254740992.00" := by
      decide +kernel
    exact text ▸ (cents { numberFormat := .cents } rfl).2
  · obtain ⟨_, _, _, _, wrapped⟩ := render_integral (by decide : |(0 : Int64).toInt| ≤ 2 ^ 53)
    have zero : (Binary64.mk 0x8000000000000000).value = (0 : Int64).toInt := Binary64.value_of_is_zero (by decide)
    exact wrapped _ (by decide) zero _ (fun plain => by cases plain) .place

end Stencil
