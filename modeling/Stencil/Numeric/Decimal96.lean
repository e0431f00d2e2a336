import Stencil.Numeric.Notation

set_option autoImplicit false

namespace Stencil.Numeric

structure Decimal96 where
  negative : Bool
  coefficient : Nat
  places : Nat
  coefficient_lt : coefficient < Nat.pow 2 96
  places_le : places ≤ 28
deriving DecidableEq

namespace Decimal96

def ofParts? (negative : Bool) (coefficient places : Nat) : Option Decimal96 :=
  if fits : coefficient < Nat.pow 2 96 ∧ places ≤ 28 then some ⟨negative, coefficient, places, fits.1, fits.2⟩ else none

-- A fraction cut after as many places, up to `most`, as leave it 96 bits.
def cut? (negative : Bool) (num den : Nat) : Nat → Option Decimal96
  | 0 => ofParts? negative (num / den) 0
  | most + 1 =>
    (ofParts? negative (num * Nat.pow 10 (most + 1) / den) (most + 1)).or (cut? negative num den most)

def ofBinary? (x : Binary64) : Option Decimal96 :=
  if x.isFinite then cut? x.isNegative x.num x.den 28 else none

theorem round_half_even_lt {coefficient : Nat} (small : coefficient < Nat.pow 2 96) {extra : Nat}
    (present : 0 < extra) : roundHalfEven coefficient (Nat.pow 10 extra) < Nat.pow 2 96 := by
  have tenth : coefficient / Nat.pow 10 extra ≤ coefficient / 10 :=
    Nat.div_le_div_left (Nat.le_self_pow (Nat.pos_iff_ne_zero.mp present) 10) (by decide)
  have most := round_half_even_le coefficient (Nat.pow 10 extra)
  have wide : 2 ≤ Nat.pow 2 96 := by decide
  omega

def round (places : Nat) (d : Decimal96) : Decimal96 :=
  if fewer : places < d.places then
    ⟨d.negative, roundHalfEven d.coefficient (Nat.pow 10 (d.places - places)), places,
      round_half_even_lt d.coefficient_lt (Nat.sub_pos_of_lt fewer),
      Nat.le_trans (Nat.le_of_lt fewer) d.places_le⟩
  else d

def unsignedZero (d : Decimal96) : Decimal96 := { d with negative := d.negative && d.coefficient != 0 }

def extend : Nat → Decimal96 → Decimal96
  | 0, d => d
  | more + 1, d =>
    match ofParts? d.negative (d.coefficient * 10) (d.places + 1) with
    | some wider => extend more wider
    | none => d

def pad (places : Nat) (d : Decimal96) : Decimal96 := d.extend (places - d.places)

def rounded (places : Nat) (d : Decimal96) : Decimal96 := ((d.round places).unsignedZero).pad places

def text (d : Decimal96) : List Char := Binary64.signed d.negative (pointText d.places (digitsText d.coefficient))

end Decimal96

-- The exact value rounded to `places` digits after the point, an exact tie to an even last digit. A zero that comes
-- of rounding has no sign.
def Binary64.roundedText (decimal? : Binary64 → Option Decimal96) (places : Nat) (x : Binary64) : List Char :=
  match decimal? x with
  | none => x.fixedText places
  | some d => if (d.rounded places).places = places then (d.rounded places).text else x.fixedText places

end Stencil.Numeric
