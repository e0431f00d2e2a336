import Stencil.Datum
import Stencil.Proofs.Closest
import Stencil.Proofs.TreeText

set_option autoImplicit false

namespace Stencil

open Numeric

def Wide (n : Int) : Prop := -2 ^ 127 ≤ n ∧ n < 2 ^ 128

theorem is_finite_of_wide {n : Int} (wide : Wide n) : (Binary64.ofInt n).isFinite = true := by
  obtain ⟨least, most⟩ := wide
  have small : n.natAbs < 2 ^ 128 * 1 := by omega
  exact Binary64.is_finite_of_ratio Nat.one_ne_zero small (by decide)

namespace Value

def number? : Value → Option ℚ
  | .int n => some n.toInt
  | .float x => if x.isFinite then some x.value else none
  | _ => none

section Narrow

variable {n : Int} (narrow : Int64.minValue.toInt ≤ n ∧ n ≤ Int64.maxValue.toInt)
include narrow

theorem to_int_of_narrow : (Int64.ofInt n).toInt = n := by
  have next : Int64.maxValue.toInt + 1 = 2 ^ 63 := by decide
  exact Int64.toInt_ofInt_of_le narrow.1 (next ▸ Int.lt_add_one_of_le narrow.2)

theorem of_int_of_narrow : ofInt n = .int (Int64.ofInt n) := if_pos narrow

theorem number_of_narrow : (ofInt n).number? = some (n : ℚ) := by
  rw [of_int_of_narrow narrow, number?, to_int_of_narrow narrow]

end Narrow

section Broad

variable {n : Int} (wide : Wide n) (broad : ¬(Int64.minValue.toInt ≤ n ∧ n ≤ Int64.maxValue.toInt))

include broad in
theorem of_int_of_broad : ofInt n = .float (Binary64.ofInt n) := if_neg broad

include wide broad

theorem number_of_broad : (ofInt n).number? = some (Binary64.ofInt n).value := by
  rw [of_int_of_broad broad, number?, if_pos (is_finite_of_wide wide)]

theorem closest_of_broad (x : Binary64) : x.Closest n ↔ x = Binary64.ofInt n := by
  refine Binary64.closest_of_int_iff (is_finite_of_wide wide) ?_
  rintro rfl
  exact broad (by decide)

end Broad

theorem value_power : (Binary64.mk 0x43e0000000000000).value = 2 ^ 63 := by
  have significand : (Binary64.mk 0x43e0000000000000).significand = 2 ^ 52 := by decide
  have exponent : (Binary64.mk 0x43e0000000000000).exponent = 11 := by decide
  have positive : (Binary64.mk 0x43e0000000000000).isNegative = false := by decide
  rw [Binary64.value, significand, exponent, positive]
  norm_num

-- The two powers at the ends of the 64 bits need no rounding, so no number is rounded past them.
theorem exists_number_le {n m : Int} (wide : Wide n) (other : Wide m) (below : n ≤ m) :
    ∃ a b, (ofInt n).number? = some a ∧ (ofInt m).number? = some b ∧ a ≤ b := by
  have least : Int64.minValue.toInt = -2 ^ 63 := by decide
  have most : Int64.maxValue.toInt = 2 ^ 63 - 1 := by decide
  have finite : (Binary64.mk 0x43e0000000000000).isFinite = true := by decide
  have ordered : (n : ℚ) ≤ m := by exact_mod_cast below
  by_cases first : Int64.minValue.toInt ≤ n ∧ n ≤ Int64.maxValue.toInt <;>
    by_cases second : Int64.minValue.toInt ≤ m ∧ m ≤ Int64.maxValue.toInt
  · exact ⟨n, m, number_of_narrow first, number_of_narrow second, ordered⟩
  · refine ⟨n, _, number_of_narrow first, number_of_broad other second, ?_⟩
    have above : (Binary64.mk 0x43e0000000000000).value ≤ (m : ℚ) := by
      rw [value_power]
      exact_mod_cast (by omega : 2 ^ 63 ≤ m)
    have reached := (Binary64.closest_of_int (is_finite_of_wide other)).value_le finite above
    rw [value_power] at reached
    exact le_trans (by exact_mod_cast (by omega : n ≤ 2 ^ 63)) reached
  · refine ⟨_, m, number_of_broad wide first, number_of_narrow second, ?_⟩
    have under : (n : ℚ) ≤ (Binary64.mk 0x43e0000000000000).neg.value := by
      rw [Binary64.value_neg, value_power]
      exact_mod_cast (by omega : n ≤ -2 ^ 63)
    have reached := (Binary64.closest_of_int (is_finite_of_wide wide)).le_value (Binary64.finite_neg.mpr finite) under
    rw [Binary64.value_neg, value_power] at reached
    exact le_trans reached (by exact_mod_cast (by omega : -2 ^ 63 ≤ m))
  · refine ⟨_, _, number_of_broad wide first, number_of_broad other second, ?_⟩
    rcases Int.lt_or_eq_of_le below with less | rfl
    · exact (Binary64.closest_of_int (is_finite_of_wide wide)).mono (Binary64.closest_of_int (is_finite_of_wide other))
        (by exact_mod_cast less)
    · exact le_refl _

end Value

theorem parse_int_text {n : Int} (inRange : Json.InRange n) :
    Json.parse? (String.ofList (intText n)) = some (.number (.int n inRange)) := by
  have parsed := Json.parse_text (.number (.int n inRange))
  rw [Json.text, Json.Number.text] at parsed
  rw [parsed]
  simp [Json.echo, Json.settle]

-- The value does not depend on the way in which the number is offered, and a greater number never becomes a lesser one.
theorem value_of_wide {n : Int} (wide : Wide n) :
    ∃ value, (Datum.int n).toValue? = some value ∧ (Datum.int n).whole? = some value ∧
      (Int64.minValue.toInt ≤ n ∧ n ≤ Int64.maxValue.toInt ↔ ∃ i : Int64, i.toInt = n ∧ value = .int i) ∧
      (¬(Int64.minValue.toInt ≤ n ∧ n ≤ Int64.maxValue.toInt) →
        ∃ x, value = .float x ∧ ∀ y : Binary64, y.Closest n ↔ y = x) ∧
      (∀ inRange : Json.InRange n,
        Json.parse? (String.ofList (intText n)) = some (.number (.int n inRange)) ∧
        Value.ofJson (.number (.int n inRange)) = some value) ∧
      ∀ m, Wide m → n ≤ m →
        ∃ other a b, (Datum.int m).toValue? = some other ∧ value.number? = some a ∧ other.number? = some b ∧ a ≤ b := by
  refine ⟨Value.ofInt n, by rw [Datum.toValue?], by rw [Datum.whole?], ?_, fun broad => ?_, fun inRange => ?_,
    fun m other below => ?_⟩
  · constructor
    · exact fun narrow => ⟨_, Value.to_int_of_narrow narrow, Value.of_int_of_narrow narrow⟩
    · rintro ⟨i, rfl, -⟩
      exact ⟨Int64.minValue_le_toInt i, Int64.toInt_le i⟩
  · exact ⟨_, Value.of_int_of_broad broad, Value.closest_of_broad wide broad⟩
  · exact ⟨parse_int_text inRange, by rw [Value.ofJson, Value.ofNumber]⟩
  · obtain ⟨a, b, first, second, ordered⟩ := Value.exists_number_le wide other below
    exact ⟨Value.ofInt m, a, b, by rw [Datum.toValue?], first, second, ordered⟩

theorem value_of_wide_tie :
    Wide 0x8000000000000400 ∧ Wide 0xffffffffffffffff ∧ (0x8000000000000400 : Int) ≤ 0xffffffffffffffff ∧
      (Datum.int 0x8000000000000400).toValue? = some (.float ⟨0x43e0000000000000⟩) ∧
      (∀ y : Binary64, y.Closest (0x8000000000000400 : Int) ↔ y = ⟨0x43e0000000000000⟩) ∧
      (∃ inRange : Json.InRange 0x8000000000000400,
        Value.ofJson (.number (.int 0x8000000000000400 inRange)) = some (.float ⟨0x43e0000000000000⟩)) ∧
      ∃ b, (Value.float ⟨0x43f0000000000000⟩).number? = some b ∧ 2 ^ 63 ≤ b := by
  have wide : Wide 0x8000000000000400 := by unfold Wide; omega
  have last : Wide 0xffffffffffffffff := by unfold Wide; omega
  have tie : (Datum.int 0x8000000000000400).toValue? = some (.float ⟨0x43e0000000000000⟩) := by
    have rounded : Binary64.ofInt 0x8000000000000400 = ⟨0x43e0000000000000⟩ := by decide +kernel
    rw [Datum.toValue?, Value.of_int_of_broad (by decide), rounded]
  have next : (Datum.int 0xffffffffffffffff).toValue? = some (.float ⟨0x43f0000000000000⟩) := by
    have rounded : Binary64.ofInt 0xffffffffffffffff = ⟨0x43f0000000000000⟩ := by decide +kernel
    rw [Datum.toValue?, Value.of_int_of_broad (by decide), rounded]
  obtain ⟨value, present, -, -, broad, json, ordered⟩ := value_of_wide wide
  obtain rfl : value = .float ⟨0x43e0000000000000⟩ := Option.some.inj (present.symm.trans tie)
  obtain ⟨x, same, closest⟩ := broad (by decide)
  obtain rfl : _ = x := Value.float.inj same
  obtain ⟨other, a, b, found, first, second, below⟩ := ordered _ last (by decide)
  obtain rfl : other = .float ⟨0x43f0000000000000⟩ := Option.some.inj (found.symm.trans next)
  have power : a = 2 ^ 63 := by
    rw [Value.number?, if_pos (by decide), Value.value_power] at first
    exact (Option.some.inj first).symm
  exact ⟨wide, last, by decide, tie, closest, ⟨by decide, (json _).2⟩, b, second, power ▸ below⟩

end Stencil
