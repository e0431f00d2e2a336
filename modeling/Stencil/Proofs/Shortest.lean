import Stencil.Numeric.Shortest
import Stencil.Proofs.Rounding

set_option autoImplicit false

namespace Stencil.Numeric

theorem Decimal.coefficient_normalize {d : Decimal} (positive : d.coefficient ≠ 0) :
    d.normalize.coefficient ≠ 0 := by
  fun_induction Decimal.normalize d with
  | case1 d more ih => exact ih (by simp only; omega)
  | case2 d _ => exact positive

theorem Decimal.den_pos (d : Decimal) : 0 < d.den := Nat.pow_pos (by decide)

theorem Decimal.num_mul_den_shift (coefficient zeros : Nat) (exponent : Int) :
    (Decimal.mk (coefficient * 10 ^ zeros) (exponent - zeros)).num * (Decimal.mk coefficient exponent).den =
      (Decimal.mk coefficient exponent).num * (Decimal.mk (coefficient * 10 ^ zeros) (exponent - zeros)).den := by
  have powers : zeros + (exponent - zeros).toNat + (-exponent).toNat =
      exponent.toNat + (-(exponent - zeros)).toNat := by omega
  simp only [Decimal.num, Decimal.den, Nat.pow_eq, Nat.mul_assoc, ← Nat.pow_add, powers]

theorem Decimal.nearest_shift (coefficient zeros : Nat) (exponent : Int) :
    Binary64.nearestMagnitude (Decimal.mk (coefficient * 10 ^ zeros) (exponent - zeros)).num
        (Decimal.mk (coefficient * 10 ^ zeros) (exponent - zeros)).den =
      Binary64.nearestMagnitude (Decimal.mk coefficient exponent).num (Decimal.mk coefficient exponent).den :=
  Binary64.nearest_magnitude_congr (Decimal.den_pos _) (Decimal.den_pos _) (Decimal.num_mul_den_shift ..)

theorem Decimal.nearest_normalize (d : Decimal) :
    Binary64.nearestMagnitude d.normalize.num d.normalize.den = Binary64.nearestMagnitude d.num d.den := by
  fun_induction Decimal.normalize d with
  | case1 d more ih =>
    rw [ih]
    have shifted := Decimal.nearest_shift (d.coefficient / 10) 1 (d.exponent + 1)
    have whole : d.coefficient / 10 * 10 ^ 1 = d.coefficient := by omega
    have place : d.exponent + 1 - (1 : Nat) = d.exponent := by omega
    rw [whole, place] at shifted
    exact shifted.symm
  | case2 d _ => rfl

namespace Binary64

theorem on_grid_eq_some {tie : TieRule} {x : Binary64} {place : Int} {d : Decimal}
    (found : x.onGrid tie place = some d) : x.readsBack d = true ∧ d.exponent = place := by
  unfold onGrid at found
  simp only at found
  split at found
  · cases found
  · next lower _ =>
    cases found
    exact ⟨lower, rfl⟩
  · next _ upper =>
    cases found
    exact ⟨upper, rfl⟩
  · next lower upper =>
    split at found
    · cases found
      exact ⟨lower, rfl⟩
    · cases found
      exact ⟨upper, rfl⟩
    · split at found
      · cases found
        exact ⟨upper, rfl⟩
      · cases found
        split
        · exact ⟨lower, rfl⟩
        · exact ⟨upper, rfl⟩

theorem is_some_on_grid {tie : TieRule} {x : Binary64} {place : Int}
    (lower : x.readsBack ⟨x.num * Nat.pow 10 (-place).toNat / (x.den * Nat.pow 10 place.toNat), place⟩ = true) :
    (x.onGrid tie place).isSome = true := by
  simp only [onGrid, lower]
  split
  · next contrary _ => cases contrary
  · rfl
  · rfl
  · split
    · rfl
    · rfl
    · cases tie <;> rfl

theorem coefficient_of_reads_back {x : Binary64} {d : Decimal} (back : x.readsBack d = true)
    (nonzero : x.magnitude ≠ 0) : d.coefficient ≠ 0 := by
  intro zero
  have num : d.num = 0 := by rw [Decimal.num, zero, Nat.zero_mul]
  rw [readsBack, num, nearest_magnitude_zero, beq_iff_eq] at back
  exact nonzero back.symm

theorem significand_ne_zero {x : Binary64} (nonzero : x.magnitude ≠ 0) : x.significand ≠ 0 := by
  unfold significand
  split
  · next small =>
    have whole := Nat.div_add_mod x.magnitude hiddenBit
    rw [exponentField] at small
    rw [fractionField]
    rw [small] at whole
    omega
  · unfold hiddenBit
    omega

theorem magnitude_ne_zero {x : Binary64} (nonzero : x.isZero = false) : x.magnitude ≠ 0 :=
  beq_eq_false_iff_ne.mp nonzero

theorem num_ne_zero {x : Binary64} (nonzero : x.magnitude ≠ 0) : x.num ≠ 0 :=
  Nat.mul_ne_zero (significand_ne_zero nonzero) (Nat.pos_iff_ne_zero.mp (Nat.pow_pos (by decide)))

theorem coefficient_exact_decimal {x : Binary64} (nonzero : x.magnitude ≠ 0) : x.exactDecimal.coefficient ≠ 0 :=
  Nat.mul_ne_zero (num_ne_zero nonzero) (Nat.pos_iff_ne_zero.mp (Nat.pow_pos (by decide)))

theorem coefficient_shortest {x : Binary64} (tie : TieRule) (nonzero : x.isZero = false) :
    (x.shortest tie).coefficient ≠ 0 := by
  have positive := magnitude_ne_zero nonzero
  rw [shortest, nonzero]
  refine Decimal.coefficient_normalize ?_
  cases hit : (List.range 17).findSome? fun (count : Nat) =>
      x.onGrid tie (pointPosition x.num x.den - (count + 1 : Nat)) with
  | none => exact coefficient_exact_decimal positive
  | some d =>
    obtain ⟨count, _, found⟩ := List.exists_of_findSome?_eq_some hit
    exact coefficient_of_reads_back (on_grid_eq_some found).1 positive

theorem reads_back_exact_decimal {x : Binary64} (finite : x.isFinite = true) : x.readsBack x.exactDecimal = true := by
  have ratio : x.exactDecimal.num * x.den = x.num * x.exactDecimal.den := by
    have places : (-(-((-x.exponent).toNat : Int))).toNat = (-x.exponent).toNat := by omega
    have whole : (-((-x.exponent).toNat : Int)).toNat = 0 := by omega
    simp only [Decimal.num, Decimal.den, exactDecimal, den, places, whole, Nat.pow_eq, Nat.pow_zero, Nat.mul_one,
      Nat.mul_assoc, ← Nat.mul_pow]
  have nearest := nearest_magnitude_congr (Decimal.den_pos _) x.den_pos ratio
  rw [readsBack, beq_iff_eq, nearest]
  exact nearest_magnitude_num_den finite

theorem reads_back_shortest {x : Binary64} (finite : x.isFinite = true) (tie : TieRule) :
    x.readsBack (x.shortest tie) = true := by
  cases zero : x.isZero with
  | true =>
    have none : x.magnitude = 0 := by simpa [isZero] using zero
    rw [shortest, if_pos zero, readsBack, none]
    rfl
  | false =>
    rw [shortest, zero]
    simp only [Bool.false_eq_true, if_false]
    rw [readsBack, Decimal.nearest_normalize]
    cases hit : (List.range 17).findSome? fun (count : Nat) =>
        x.onGrid tie (pointPosition x.num x.den - (count + 1 : Nat)) with
    | none => exact reads_back_exact_decimal finite
    | some d =>
      obtain ⟨count, _, found⟩ := List.exists_of_findSome?_eq_some hit
      exact (on_grid_eq_some found).1

end Binary64

end Stencil.Numeric
