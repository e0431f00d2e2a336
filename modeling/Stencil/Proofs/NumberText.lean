import Stencil.Json.Token
import Stencil.Proofs.DigitRun
import Stencil.Proofs.Shortest

set_option autoImplicit false

namespace Stencil.Json

open Numeric

def Delimited (rest : List Char) : Prop := ∀ c ∈ rest.head?, c.isDigit = false ∧ c ≠ '.' ∧ c ≠ 'e' ∧ c ≠ 'E'

theorem Delimited.unnumbered {rest : List Char} (delimited : Delimited rest) : Unnumbered rest :=
  fun c next => (delimited c next).1

theorem read_fraction_delimited {rest : List Char} (pointless : ∀ c ∈ rest.head?, c ≠ '.') :
    readFraction rest = some (none, rest) := by
  cases rest with
  | nil => rfl
  | cons c rest => simp [readFraction, pointless c rfl]

theorem read_exponent_delimited {rest : List Char} (unmarked : ∀ c ∈ rest.head?, c ≠ 'e' ∧ c ≠ 'E') :
    readExponent rest = some (none, rest) := by
  cases rest with
  | nil => rfl
  | cons c rest => simp [readExponent, unmarked c rfl]

theorem read_fraction_point {run rest : List Char} (all : ∀ c ∈ run, c.isDigit = true) (present : run ≠ [])
    (ended : Unnumbered rest) : readFraction ('.' :: (run ++ rest)) = some (some (run.map digitValue), rest) := by
  rw [readFraction, read_digits_append all present ended]
  rfl

theorem read_power_digits_text (negative : Bool) (n : Nat) {rest : List Char} (ended : Unnumbered rest) :
    readPower negative (digitsText n ++ rest) = some (some (if negative then -(n : Int) else n), rest) := by
  have read := read_digits_append (fun c => is_digit_digits_text) (digits_text_ne_nil n) ended
  rw [readPower, read, map_digit_value_digits_text, Option.map_some, of_digits_digits]

theorem read_exponent_signed (lead : Int) {rest : List Char} (ended : Unnumbered rest) :
    readExponent ('e' :: ((if 0 ≤ lead then '+' :: intText lead else intText lead) ++ rest)) =
      some (some lead, rest) := by
  by_cases positive : 0 ≤ lead
  · have magnitude : (lead.natAbs : Int) = lead := by omega
    have read := read_power_digits_text false lead.natAbs ended
    simp only [readExponent, if_pos positive, intText, if_neg (Int.not_lt.mpr positive), List.cons_append, readSigned,
      read, magnitude, Bool.false_eq_true, if_false]
  · have magnitude : -(lead.natAbs : Int) = lead := by omega
    have read := read_power_digits_text true lead.natAbs ended
    simp only [readExponent, if_neg positive, intText, if_pos (Int.not_le.mp positive), List.cons_append, readSigned,
      read, magnitude, if_true]

theorem read_magnitude_eq {negative : Bool} {text afterWhole afterFraction rest : List Char} {whole : List Nat}
    {fraction? : Option (List Nat)} {exponent? : Option Int} (first : readWhole text = some (whole, afterWhole))
    (second : readFraction afterWhole = some (fraction?, afterFraction))
    (third : readExponent afterFraction = some (exponent?, rest)) :
    readMagnitude negative text = some (⟨negative, whole, fraction?, exponent?⟩, rest) := by
  simp [readMagnitude, first, second, third]

theorem point_text_zero {ds : List Char} (present : ds ≠ []) : pointText 0 ds = ds := by
  have long : 0 < ds.length := List.length_pos_iff.mpr present
  simp [pointText, Nat.sub_eq_zero_of_le long]

-- The point cuts the digits in two; zeros are put in front of them only as far as one digit before it is missing.
theorem exists_point_text {places : Nat} (placed : places ≠ 0) {ds : List Char} (led : Led ds) :
    ∃ whole fraction, pointText places ds = whole ++ '.' :: fraction ∧ whole ≠ [] ∧ fraction.length = places ∧
      whole ++ fraction = List.replicate (places + 1 - ds.length) '0' ++ ds ∧ Led whole := by
  have long : (List.replicate (places + 1 - ds.length) '0' ++ ds).length = max (places + 1) ds.length := by
    rw [List.length_append, List.length_replicate]
    omega
  refine ⟨_, _, if_neg placed, ?_, ?_, List.take_append_drop .., fun zero => ?_⟩
  · rw [Ne, ← List.length_eq_zero_iff, List.length_take]
    omega
  · rw [List.length_drop]
    omega
  · rw [List.length_take, long]
    by_cases padded : ds.length ≤ places
    · omega
    · have whole : List.replicate (places + 1 - ds.length) '0' ++ ds = ds := by
        rw [Nat.sub_eq_zero_of_le (by omega), List.replicate_zero, List.nil_append]
      rw [whole, List.head?_take, if_neg (by omega)] at zero
      have single := led zero
      omega

theorem of_digits_zeros_append (count : Nat) (ds : List Nat) :
    ofDigits (List.replicate count 0 ++ ds) = ofDigits ds := by
  induction count with
  | zero => rfl
  | succ count ih => exact ih

theorem of_digits_append_zeros (ds : List Nat) (count : Nat) :
    ofDigits (ds ++ List.replicate count 0) = ofDigits ds * 10 ^ count := by
  induction count with
  | zero => simp
  | succ count ih =>
    rw [List.replicate_succ', ← List.append_assoc, of_digits_append, ih, Nat.pow_succ, Nat.add_zero, Nat.mul_comm,
      Nat.mul_assoc]

-- The literal stands for the decimal; it may have zeros that the decimal has in its exponent.
def Literal.Denotes (literal : Literal) (d : Decimal) : Prop :=
  ∃ zeros : Nat, ofDigits (literal.whole ++ literal.fraction?.getD []) = d.coefficient * 10 ^ zeros ∧
    literal.exponent?.getD 0 - (literal.fraction?.getD []).length = d.exponent - zeros

structure Written (negative : Bool) (d : Decimal) (text : List Char) (literal : Literal) : Prop where
  sign : literal.negative = negative
  denotes : literal.Denotes d
  binary : literal.fraction? ≠ none ∨ literal.exponent? ≠ none
  read : ∀ rest, Delimited rest → readMagnitude negative (text ++ rest) = some (literal, rest)

theorem unnumbered_cons {c : Char} (other : c.isDigit = false) (rest : List Char) : Unnumbered (c :: rest) := by
  simpa [Unnumbered] using other

theorem is_digit_digits_text_zeros {n count : Nat} {c : Char}
    (member : c ∈ digitsText n ++ List.replicate count '0') : c.isDigit = true := by
  rcases List.mem_append.mp member with digit | zero
  · exact is_digit_digits_text digit
  · rw [List.eq_of_mem_replicate zero]
    rfl

theorem led_digits_text_zeros {n count : Nat} (sound : n = 0 → count = 0) :
    Led (digitsText n ++ List.replicate count '0') := by
  by_cases zero : n = 0
  · rw [sound zero, List.replicate_zero, List.append_nil]
    exact led_digits_text n
  · obtain ⟨first, others, front⟩ := List.exists_cons_of_ne_nil (digits_text_ne_nil n)
    have unled := head_digits_text zero
    rw [front] at unled ⊢
    exact fun same => absurd same unled

theorem map_digit_value_digits_text_zeros (n count : Nat) :
    (digitsText n ++ List.replicate count '0').map digitValue = digits n ++ List.replicate count 0 := by
  rw [List.map_append, map_digit_value_digits_text, List.map_replicate]
  rfl

theorem positional_of_whole {d : Decimal} (whole : 0 ≤ d.exponent) :
    d.positional = digitsText d.coefficient ++ List.replicate d.exponent.toNat '0' := by
  have places : (-d.exponent).toNat = 0 := by omega
  rw [Decimal.positional, places]
  exact point_text_zero (by simp [digits_text_ne_nil])

theorem written_positional_point (negative : Bool) {d : Decimal} (whole : 0 ≤ d.exponent)
    (sound : d.coefficient = 0 → d.exponent = 0) :
    ∃ literal, Written negative d (d.positional ++ ['.', '0']) literal := by
  have text := positional_of_whole whole
  have led : Led d.positional := by
    rw [text]
    exact led_digits_text_zeros fun zero => by simp [sound zero]
  refine ⟨⟨negative, digits d.coefficient ++ List.replicate d.exponent.toNat 0, some [0], none⟩, rfl,
    ⟨d.exponent.toNat + 1, ?_, ?_⟩, .inl nofun, ?_⟩
  · have run := of_digits_append_zeros (digits d.coefficient) (d.exponent.toNat + 1)
    rw [of_digits_digits, List.replicate_succ', ← List.append_assoc] at run
    exact run
  · simp
    omega
  · intro rest delimited
    have point : Unnumbered ('.' :: '0' :: rest) := unnumbered_cons rfl _
    have first := read_whole_append (fun c => is_digit_digits_text_zeros) (by simp [digits_text_ne_nil])
      (text ▸ led) point
    have second : readFraction ('.' :: (['0'] ++ rest)) = _ :=
      read_fraction_point (by simp) (by simp) delimited.unnumbered
    have third := read_exponent_delimited fun c next => (delimited c next).2.2
    rw [map_digit_value_digits_text_zeros] at first
    rw [text, List.append_assoc]
    exact read_magnitude_eq first second third

theorem exists_mantissa (places n : Nat) :
    ∃ whole fraction?, ofDigits (whole ++ fraction?.getD []) = n ∧ (fraction?.getD []).length = places ∧
      (places ≠ 0 → fraction? ≠ none) ∧
      ∀ rest, Unnumbered rest → (∀ c ∈ rest.head?, c ≠ '.') →
        ∃ after, readWhole (pointText places (digitsText n) ++ rest) = some (whole, after) ∧
          readFraction after = some (fraction?, rest) := by
  by_cases unplaced : places = 0
  · subst unplaced
    refine ⟨digits n, none, ?_, rfl, by simp, fun rest ended pointless => ⟨rest, ?_, ?_⟩⟩
    · simp [of_digits_digits]
    · rw [point_text_zero (digits_text_ne_nil n), ← map_digit_value_digits_text]
      exact read_whole_append (fun c => is_digit_digits_text) (digits_text_ne_nil n) (led_digits_text n) ended
    · exact read_fraction_delimited pointless
  · obtain ⟨whole, fraction, text, present, length, run, led⟩ := exists_point_text unplaced (led_digits_text n)
    have all : ∀ c ∈ whole ++ fraction, c.isDigit = true := by
      intro c member
      rw [run] at member
      rcases List.mem_append.mp member with zero | digit
      · rw [List.eq_of_mem_replicate zero]
        rfl
      · exact is_digit_digits_text digit
    have value := congrArg (List.map digitValue) run
    rw [List.map_append, List.map_append, map_digit_value_digits_text, List.map_replicate] at value
    refine ⟨whole.map digitValue, some (fraction.map digitValue), ?_, ?_, nofun, fun rest ended _ =>
      ⟨'.' :: (fraction ++ rest), ?_, ?_⟩⟩
    · rw [Option.getD_some, value]
      exact (of_digits_zeros_append _ _).trans (of_digits_digits n)
    · rw [Option.getD_some, List.length_map, length]
    · rw [text, List.append_assoc]
      exact read_whole_append (fun c member => all c (List.mem_append_left _ member)) present led
        (unnumbered_cons rfl _)
    · refine read_fraction_point (fun c member => all c (List.mem_append_right _ member)) ?_ ended
      exact List.length_pos_iff.mp (by omega)

theorem written_positional (negative : Bool) {d : Decimal} (fractional : d.exponent < 0) :
    ∃ literal, Written negative d d.positional literal := by
  obtain ⟨whole, fraction?, value, length, pointed, read⟩ :=
    exists_mantissa (-d.exponent).toNat d.coefficient
  have zeros : d.exponent.toNat = 0 := by omega
  refine ⟨⟨negative, whole, fraction?, none⟩, rfl, ⟨0, ?_, ?_⟩, .inl (pointed (by omega)), ?_⟩
  · simpa using value
  · simp only [Option.getD_none, length]
    omega
  · intro rest delimited
    obtain ⟨after, first, second⟩ := read rest delimited.unnumbered fun c next => (delimited c next).2.1
    have third := read_exponent_delimited fun c next => (delimited c next).2.2
    rw [Decimal.positional, zeros, List.replicate_zero, List.append_nil]
    exact read_magnitude_eq first second third

theorem written_scientific (negative : Bool) (d : Decimal) :
    ∃ literal, Written negative d (d.scientific true) literal := by
  obtain ⟨whole, fraction?, value, length, _, read⟩ :=
    exists_mantissa ((digits d.coefficient).length - 1) d.coefficient
  have present : 0 < (digits d.coefficient).length := List.length_pos_iff.mpr (digits_ne_nil _)
  refine ⟨⟨negative, whole, fraction?, some d.leadingExponent⟩, rfl, ⟨0, ?_, ?_⟩, .inr nofun, ?_⟩
  · simpa using value
  · simp only [Option.getD_some, length, Decimal.leadingExponent]
    omega
  · intro rest delimited
    have third := read_exponent_signed d.leadingExponent delimited.unnumbered
    obtain ⟨after, first, second⟩ := read ('e' :: _) (unnumbered_cons rfl _) (by simp)
    rw [Decimal.scientific, Bool.true_and]
    simpa using read_magnitude_eq first second third

theorem exponent_shortest_of_zero {x : Binary64} {tie : TieRule} (zero : (x.shortest tie).coefficient = 0) :
    (x.shortest tie).exponent = 0 := by
  cases nonzero : x.isZero with
  | true => rw [Binary64.shortest, if_pos nonzero]
  | false => exact absurd zero (Binary64.coefficient_shortest tie nonzero)

theorem written_magnitude_text (negative : Bool) (x : Binary64) :
    ∃ literal, Written negative (x.shortest .even) (x.magnitudeText .json) literal := by
  have pointed : Style.json.keepsPoint = true := rfl
  unfold Binary64.magnitudeText
  simp only [pointed, Bool.true_and, decide_eq_true_eq]
  split
  · split
    · next whole =>
      exact written_positional_point negative whole exponent_shortest_of_zero
    · next fractional =>
      exact written_positional negative (Int.not_le.mp fractional)
  · exact written_scientific negative _

theorem head_of_read_whole {text rest : List Char} {whole : List Nat} (found : readWhole text = some (whole, rest)) :
    ∃ c more, text = c :: more ∧ c.isDigit = true := by
  cases text with
  | nil => cases found
  | cons c more =>
    refine ⟨c, more, rfl, ?_⟩
    by_cases digit : c.isDigit = true
    · exact digit
    · simp [readWhole, digitRun, digit] at found

theorem head_of_read_magnitude {negative : Bool} {text rest : List Char} {literal : Literal}
    (found : readMagnitude negative text = some (literal, rest)) : ∃ c more, text = c :: more ∧ c.isDigit = true := by
  obtain ⟨⟨whole, after⟩, first, _⟩ := Option.bind_eq_some_iff.mp found
  exact head_of_read_whole first

theorem read_literal_digit {c : Char} {more : List Char} (digit : c.isDigit = true) :
    readLiteral (c :: more) = readMagnitude false (c :: more) := by
  unfold readLiteral
  split
  · next same =>
    cases same
    cases digit
  · rfl

theorem read_literal_signed {negative : Bool} {text rest : List Char} {literal : Literal}
    (found : readMagnitude negative text = some (literal, rest)) :
    readLiteral (Binary64.signed negative text) = some (literal, rest) := by
  cases negative with
  | true => exact found
  | false =>
    obtain ⟨c, more, rfl, digit⟩ := head_of_read_magnitude found
    exact (read_literal_digit digit).trans found

theorem signed_append (negative : Bool) (text rest : List Char) :
    Binary64.signed negative text ++ rest = Binary64.signed negative (text ++ rest) := by
  cases negative <;> rfl

theorem exists_literal {x : Binary64} (finite : x.isFinite = true) :
    ∃ literal : Literal, literal.negative = x.isNegative ∧ literal.Denotes (x.shortest .even) ∧
      literal.number? = literal.float? ∧
      ∀ rest, Delimited rest → readLiteral (x.text .json ++ rest) = some (literal, rest) := by
  obtain ⟨literal, sign, denotes, binary, read⟩ := written_magnitude_text x.isNegative x
  refine ⟨literal, sign, denotes, ?_, fun rest delimited => ?_⟩
  · unfold Literal.number?
    split
    · next fractionless whole =>
      rcases binary with fraction | exponent
      · exact absurd fractionless fraction
      · exact absurd whole exponent
    · rfl
  · rw [Binary64.text, if_pos finite, signed_append]
    exact read_literal_signed (read rest delimited)

theorem read_literal_int_text (n : Int) {rest : List Char} (delimited : Delimited rest) :
    readLiteral (intText n ++ rest) = some (⟨decide (n < 0), digits n.natAbs, none, none⟩, rest) := by
  have text : intText n = Binary64.signed (decide (n < 0)) (digitsText n.natAbs) := by
    by_cases negative : n < 0 <;> simp [intText, negative, Binary64.signed]
  have first := read_whole_append (fun c => is_digit_digits_text) (digits_text_ne_nil n.natAbs)
    (led_digits_text n.natAbs) delimited.unnumbered
  have second := read_fraction_delimited fun c next => (delimited c next).2.1
  have third := read_exponent_delimited fun c next => (delimited c next).2.2
  rw [map_digit_value_digits_text] at first
  rw [text, signed_append]
  exact read_literal_signed (read_magnitude_eq first second third)

theorem number_int {n : Int} (inRange : InRange n) :
    (Literal.mk (decide (n < 0)) (digits n.natAbs) none none).number? = some (.int n inRange) := by
  have value : Literal.int? ⟨decide (n < 0), digits n.natAbs, none, none⟩ = some (.int n inRange) := by
    by_cases negative : n < 0
    · have magnitude : -(n.natAbs : Int) = n := by omega
      have nonzero : n.natAbs ≠ 0 := by omega
      simp only [Literal.int?, of_digits_digits, decide_eq_true negative, Bool.not_true, Bool.false_eq_true, if_false,
        if_neg nonzero, magnitude]
      exact dif_pos inRange
    · have magnitude : (n.natAbs : Int) = n := by omega
      simp only [Literal.int?, of_digits_digits, decide_eq_false negative, Bool.not_false, if_true, magnitude]
      exact dif_pos inRange
  simp [Literal.number?, value]

end Stencil.Json
