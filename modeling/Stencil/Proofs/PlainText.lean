import Stencil.Proofs.Integral
import Stencil.Proofs.Closest

set_option autoImplicit false

namespace Stencil

namespace Numeric

@[ext]
structure Positional where
  negative : Bool
  whole : List Char
  fraction : List Char
  digit : ∀ c ∈ whole ++ fraction, c.isDigit = true
  present : whole ≠ []
  led : Json.Led whole
  ended : fraction.getLast? ≠ some '0'

namespace Positional

def pointed (fraction : List Char) : List Char := if fraction = [] then [] else '.' :: fraction

def text (p : Positional) : List Char := Binary64.signed p.negative (p.whole ++ pointed p.fraction)

def num (p : Positional) : Nat := ofDigits ((p.whole ++ p.fraction).map digitValue)

def den (p : Positional) : Nat := 10 ^ p.fraction.length

def value (p : Positional) : ℚ := (if p.negative then -1 else 1) * ((p.num : ℚ) / p.den)

theorem den_ne_zero (p : Positional) : p.den ≠ 0 := Nat.pos_iff_ne_zero.mp (Nat.pow_pos (by decide))

theorem abs_value (p : Positional) : |p.value| = (p.num : ℚ) / p.den := by
  rw [value, abs_mul, abs_sign, one_mul, abs_of_nonneg (by positivity)]

theorem pointed_inj {first second : List Char} (same : pointed first = pointed second) : first = second := by
  unfold pointed at same
  split at same <;> split at same
  · next none other => rw [none, other]
  · cases same
  · cases same
  · exact (List.cons.inj same).2

theorem unnumbered_pointed (fraction : List Char) : Json.Unnumbered (pointed fraction) := by
  unfold pointed
  split
  · exact nofun
  · exact Json.unnumbered_cons rfl _

theorem take_while_text (p : Positional) : (p.whole ++ pointed p.fraction).takeWhile Char.isDigit = p.whole := by
  rw [List.takeWhile_append_of_pos fun c member => p.digit c (List.mem_append_left _ member),
    Json.take_while_is_digit (unnumbered_pointed _), List.append_nil]

theorem signed_inj {p q : Bool} {first second : List Char} (digit : first.head? ≠ some '-')
    (other : second.head? ≠ some '-') (same : Binary64.signed p first = Binary64.signed q second) :
    p = q ∧ first = second := by
  cases p with
  | false =>
    cases q with
    | false => exact ⟨rfl, same⟩
    | true => exact absurd (congrArg List.head? same) digit
  | true =>
    cases q with
    | false => exact absurd (congrArg List.head? same.symm) other
    | true => exact ⟨rfl, (List.cons.inj same).2⟩

theorem head_ne_sign (p : Positional) : (p.whole ++ pointed p.fraction).head? ≠ some '-' := by
  obtain ⟨first, others, whole⟩ := List.exists_cons_of_ne_nil p.present
  have digit : first.isDigit = true := p.digit first (by simp [whole])
  rw [whole]
  intro sign
  obtain rfl := Option.some.inj sign
  cases digit

theorem text_inj {p q : Positional} (same : p.text = q.text) : p = q := by
  obtain ⟨negative, body⟩ := signed_inj p.head_ne_sign q.head_ne_sign same
  have whole : p.whole = q.whole := by rw [← p.take_while_text, body, q.take_while_text]
  rw [whole] at body
  exact Positional.ext negative whole (pointed_inj (List.append_cancel_left body))

-- Half way from the largest finite number to the power of two above it. From there on a number is read as infinite.
def overflow : Nat := 2 ^ 1024 - 2 ^ 970

structure Reads (p : Positional) (x : Binary64) : Prop where
  sign : x.isNegative = p.negative
  closest : x.Closest p.value
  bounded : |p.value| < overflow

theorem abs_value_lt {p : Positional} (finite : (Binary64.ofRatio p.negative p.num p.den).isFinite = true) :
    |p.value| < overflow := by
  by_contra large
  have den : (0 : ℚ) < p.den := by exact_mod_cast Nat.pos_of_ne_zero p.den_ne_zero
  rw [abs_value, not_lt, le_div_iff₀ den] at large
  have above : Binary64.nearestMagnitude overflow 1 ≤ Binary64.nearestMagnitude p.num p.den :=
    Binary64.nearest_magnitude_mono Nat.one_ne_zero p.den_ne_zero (by rw [Nat.mul_one]; exact_mod_cast large)
  have infinite : Binary64.nearestMagnitude overflow 1 = Binary64.infinityMagnitude := by decide +kernel
  have bound := of_decide_eq_true finite
  rw [Binary64.magnitude_of_ratio] at bound
  omega

theorem reads_iff {p : Positional} {x : Binary64} (finite : x.isFinite = true)
    (rounded : Binary64.ofRatio p.negative p.num p.den = x) (y : Binary64) : p.Reads y ↔ y = x := by
  subst rounded
  constructor
  · intro reads
    have sign := Binary64.is_negative_of_ratio p.negative p.num p.den
    have value := Binary64.Closest.value_eq p.den_ne_zero finite reads.closest
    exact Binary64.eq_of_value reads.closest.finite finite (reads.sign.trans sign.symm) value
  · rintro rfl
    exact ⟨Binary64.is_negative_of_ratio .., Binary64.closest_of_ratio p.den_ne_zero finite, abs_value_lt finite⟩

def ofWhole (negative : Bool) (n : Nat) : Positional where
  negative := negative
  whole := digitsText n
  fraction := []
  digit _ member := is_digit_digits_text (List.append_nil _ ▸ member)
  present := digits_text_ne_nil n
  led := Json.led_digits_text n
  ended := nofun

theorem text_of_whole (negative : Bool) (n : Nat) :
    (ofWhole negative n).text = Binary64.signed negative (digitsText n) := by
  rw [text, ofWhole, pointed, if_pos rfl, List.append_nil]

theorem num_of_whole (negative : Bool) (n : Nat) : (ofWhole negative n).num = n := by
  rw [num, ofWhole, List.append_nil, map_digit_value_digits_text, of_digits_digits]

theorem value_of_whole (n : Int) : (ofWhole (decide (n < 0)) n.natAbs).value = n := by
  rw [value, num_of_whole]
  exact Binary64.signed_nat_abs n

end Positional

theorem get_last_digits_text (n : Nat) : (digitsText n).getLast? = some (digitChar (n % 10)) := by
  rw [digitsText, List.getLast?_map]
  unfold digits
  split
  · next small => rw [Nat.mod_eq_of_lt small]; rfl
  · rw [List.getLast?_concat]
    rfl

namespace Decimal

theorem mod_ten_normalize {d : Decimal} (positive : d.normalize.coefficient ≠ 0) :
    d.normalize.coefficient % 10 ≠ 0 := by
  fun_induction Decimal.normalize d with
  | case1 d more ih => exact ih positive
  | case2 d done => exact fun zero => done ⟨positive, zero⟩

theorem exists_positional_point (negative : Bool) {d : Decimal} (fractional : d.exponent < 0)
    (trimmed : d.coefficient % 10 ≠ 0) :
    ∃ p : Positional, p.negative = negative ∧ p.text = Binary64.signed negative d.positional ∧ p.num = d.num ∧
      p.den = d.den := by
  have placed : (-d.exponent).toNat ≠ 0 := by omega
  have unraised : d.exponent.toNat = 0 := by omega
  obtain ⟨whole, fraction, text, present, length, run, led⟩ :=
    Json.exists_point_text placed (Json.led_digits_text d.coefficient)
  have more : fraction ≠ [] := List.length_pos_iff.mp (by omega)
  have last : fraction.getLast? = some (digitChar (d.coefficient % 10)) := by
    rw [← List.getLast?_append_of_ne_nil whole more, run,
      List.getLast?_append_of_ne_nil _ (digits_text_ne_nil _), get_last_digits_text]
  have ended : fraction.getLast? ≠ some '0' := by
    rw [last]
    exact fun zero => trimmed (digit_char_eq_zero _ (Nat.mod_lt _ (by decide)) (Option.some.inj zero))
  refine ⟨⟨negative, whole, fraction, fun c member => is_digit_zeros_digits_text (run ▸ member), present, led, ended⟩,
    rfl, ?_, ?_, ?_⟩
  · rw [Positional.text, Positional.pointed, if_neg more, positional, unraised, List.replicate_zero,
      List.append_nil, text]
  · rw [Positional.num, run, of_digits_zeros_digits_text, Decimal.num, unraised]
    exact (Nat.mul_one _).symm
  · rw [Positional.den, length]
    rfl

theorem exists_positional (negative : Bool) {d : Decimal} (sound : d.coefficient = 0 → d.exponent = 0)
    (trimmed : d.coefficient ≠ 0 → d.coefficient % 10 ≠ 0) :
    ∃ p : Positional, p.negative = negative ∧ p.text = Binary64.signed negative d.positional ∧ p.num = d.num ∧
      p.den = d.den := by
  by_cases whole : 0 ≤ d.exponent
  · refine ⟨.ofWhole negative d.num, rfl, ?_, Positional.num_of_whole .., (den_of_whole whole).symm⟩
    rw [Positional.text_of_whole, positional_of_whole_num whole sound]
  · have positive : d.coefficient ≠ 0 := fun zero => whole (Int.le_of_eq (sound zero).symm)
    exact exists_positional_point negative (Int.not_le.mp whole) (trimmed positive)

end Decimal

namespace Binary64

theorem mod_ten_shortest {x : Binary64} (tie : TieRule) (positive : (x.shortest tie).coefficient ≠ 0) :
    (x.shortest tie).coefficient % 10 ≠ 0 := by
  cases zero : x.isZero with
  | true =>
    rw [shortest, if_pos zero] at positive
    exact absurd rfl positive
  | false =>
    rw [shortest, zero] at positive ⊢
    exact Decimal.mod_ten_normalize positive

theorem of_ratio_shortest {x : Binary64} (finite : x.isFinite = true) (tie : TieRule) :
    ofRatio x.isNegative (x.shortest tie).num (x.shortest tie).den = x := by
  have back := reads_back_shortest finite tie
  rw [readsBack, beq_iff_eq] at back
  rw [ofRatio, back, of_magnitude_self]

theorem exists_text_plain {x : Binary64} (finite : x.isFinite = true) :
    ∃ p : Positional, p.text = x.text .plain ∧ ∀ y, p.Reads y ↔ y = x := by
  obtain ⟨p, negative, text, num, den⟩ :=
    Decimal.exists_positional x.isNegative Json.exponent_shortest_of_zero (mod_ten_shortest .up)
  refine ⟨p, text.trans (text_plain finite).symm, Positional.reads_iff finite ?_⟩
  rw [negative, num, den, of_ratio_shortest finite]

theorem text_plain_inj {x y : Binary64} (finite : x.isFinite = true) (bounded : y.isFinite = true)
    (same : x.text .plain = y.text .plain) : x = y := by
  obtain ⟨p, first, reads⟩ := exists_text_plain finite
  obtain ⟨q, second, others⟩ := exists_text_plain bounded
  obtain rfl := Positional.text_inj (first.trans (same.trans second.symm))
  exact (others x).mp ((reads x).mpr rfl)

theorem eq_of_is_zero {x : Binary64} (zero : x.isZero = true) : x = ⟨0⟩ ∨ x = ⟨0x8000000000000000⟩ := by
  have none : x.magnitude = 0 := beq_iff_eq.mp zero
  rw [← of_magnitude_self x, none]
  cases x.isNegative with
  | false => exact .inl rfl
  | true => exact .inr rfl

end Binary64

end Numeric

open Numeric

theorem float_text_round_of_whole {x : Binary64} (whole : x.isWhole = true) (unsigned : x ≠ ⟨0x8000000000000000⟩) :
    NumberFormat.floatText .round x = .ok (String.ofList (x.text .plain)) := by
  cases zero : x.isZero with
  | false => simp [NumberFormat.floatText, zero, whole]
  | true =>
    obtain rfl := (Binary64.eq_of_is_zero zero).resolve_right unsigned
    decide +kernel

-- Without rounding nothing is lost, nor is it of whole numbers where they are rounded. The zero with a sign is the only
-- one of these that is not read back from there.
theorem render_reads_back :
    (∀ p q : Positional, p.text = q.text → p = q) ∧
    (∀ config : Config, config.numberFormat = .plain → ∀ x : Binary64, x.isFinite = true →
      ∃ p : Positional, Value.render config (.float x) = .ok (String.ofList p.text) ∧ ∀ y, p.Reads y ↔ y = x) ∧
    (∀ config : Config, config.numberFormat = .round → ∀ x : Binary64, x.isFinite = true →
      (∃ m : Int, x.value = m) → x ≠ ⟨0x8000000000000000⟩ →
      ∃ p : Positional, Value.render config (.float x) = .ok (String.ofList p.text) ∧ ∀ y, p.Reads y ↔ y = x) ∧
    (∀ config : Config, config.numberFormat = .plain ∨ config.numberFormat = .round → ∀ i : Int64,
      ∃ p : Positional, Value.render config (.int i) = .ok (String.ofList p.text) ∧ p.fraction = [] ∧
        p.negative = decide (i.toInt < 0) ∧ p.value = i.toInt) ∧
    ∀ config : Config, config.numberFormat = .plain → ∀ x y : Binary64, x.isFinite = true → y.isFinite = true →
      Value.render config (.float x) = Value.render config (.float y) → x = y := by
  refine ⟨fun p q => Positional.text_inj, ?_, ?_, ?_, ?_⟩
  · intro config plain x finite
    obtain ⟨p, text, reads⟩ := Binary64.exists_text_plain finite
    exact ⟨p, by rw [Value.render, plain, NumberFormat.floatText, text], reads⟩
  · intro config round x finite whole unsigned
    obtain ⟨p, text, reads⟩ := Binary64.exists_text_plain finite
    have same := float_text_round_of_whole ((Binary64.is_whole_iff finite).mpr whole) unsigned
    exact ⟨p, by rw [Value.render, round, same, text], reads⟩
  · intro config chosen i
    refine ⟨.ofWhole (decide (i.toInt < 0)) i.toInt.natAbs, ?_, rfl, rfl, Positional.value_of_whole _⟩
    rw [Positional.text_of_whole, ← int_text_eq, Value.render]
    rcases chosen with plain | round
    · rw [plain, NumberFormat.intText]
    · rw [round, NumberFormat.intText]
  · intro config plain x y finite bounded same
    rw [Value.render, Value.render, plain, NumberFormat.floatText, NumberFormat.floatText] at same
    exact Binary64.text_plain_inj finite bounded (String.ofList_injective (Except.ok.inj same))

theorem render_reads_back_bounds :
    (∃ p : Positional, "0.1" = String.ofList p.text ∧ ∀ y, p.Reads y ↔ y = ⟨0x3fb999999999999a⟩) ∧
    (∃ p : Positional, "-0" = String.ofList p.text ∧ ∀ y, p.Reads y ↔ y = ⟨0x8000000000000000⟩) ∧
    (∃ p : Positional, Value.render {} (.float ⟨1⟩) = .ok (String.ofList p.text) ∧ ∀ y, p.Reads y ↔ y = ⟨1⟩) ∧
    (Binary64.mk 0x4340000000000000).value = (2 ^ 53 : Int) ∧
    (∃ p : Positional, "9007199254740992" = String.ofList p.text ∧ ∀ y, p.Reads y ↔ y = ⟨0x4340000000000000⟩) ∧
    (∃ p : Positional, "-9223372036854775808" = String.ofList p.text ∧ p.value = Int64.minValue.toInt) ∧
    Value.render {} (.float ⟨0⟩) ≠ Value.render {} (.float ⟨0x8000000000000000⟩) := by
  obtain ⟨_, plain, round, ints, distinct⟩ := render_reads_back
  have tenth : Value.render {} (.float ⟨0x3fb999999999999a⟩) = .ok "0.1" := by decide +kernel
  have zero : Value.render {} (.float ⟨0x8000000000000000⟩) = .ok "-0" := by decide +kernel
  have power : Value.render { numberFormat := .round } (.float ⟨0x4340000000000000⟩) = .ok "9007199254740992" := by
    decide +kernel
  have least : Value.render {} (.int Int64.minValue) = .ok "-9223372036854775808" := by decide +kernel
  have value : (Binary64.mk 0x4340000000000000).value = (2 ^ 53 : Int) := by
    have same : Binary64.ofInt (2 ^ 53) = ⟨0x4340000000000000⟩ := by decide +kernel
    rw [← same, Binary64.value_of_int (by decide)]
  refine ⟨?_, ?_, plain {} rfl ⟨1⟩ (by decide), value, ?_, ?_, ?_⟩
  · obtain ⟨p, text, reads⟩ := plain {} rfl ⟨0x3fb999999999999a⟩ (by decide)
    exact ⟨p, Except.ok.inj (tenth.symm.trans text), reads⟩
  · obtain ⟨p, text, reads⟩ := plain {} rfl ⟨0x8000000000000000⟩ (by decide)
    exact ⟨p, Except.ok.inj (zero.symm.trans text), reads⟩
  · obtain ⟨p, text, reads⟩ :=
      round { numberFormat := .round } rfl ⟨0x4340000000000000⟩ (by decide) ⟨_, value⟩ (by decide)
    exact ⟨p, Except.ok.inj (power.symm.trans text), reads⟩
  · obtain ⟨p, text, _, _, digits⟩ := ints {} (.inl rfl) Int64.minValue
    exact ⟨p, Except.ok.inj (least.symm.trans text), digits⟩
  · exact fun same => absurd (distinct {} rfl _ _ (by decide) (by decide) same) (by decide)

end Stencil
