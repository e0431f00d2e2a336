import Stencil.Numeric.Shortest

set_option autoImplicit false

namespace Stencil.Numeric

def pointText (places : Nat) (ds : List Char) : List Char :=
  let padded := List.replicate (places + 1 - ds.length) '0' ++ ds
  if places = 0 then padded
  else
    let whole := padded.length - places
    padded.take whole ++ '.' :: padded.drop whole

namespace Decimal

def positional (d : Decimal) : List Char :=
  pointText (-d.exponent).toNat (digitsText d.coefficient ++ List.replicate d.exponent.toNat '0')

def scientific (plus : Bool) (d : Decimal) : List Char :=
  let mantissa := pointText ((digits d.coefficient).length - 1) (digitsText d.coefficient)
  let lead := d.leadingExponent
  mantissa ++ 'e' :: (if plus && 0 ≤ lead then '+' :: intText lead else intText lead)

end Decimal

structure Style where
  tie : TieRule
  -- The least and the greatest power of ten of a first digit that is written in place; `none` is no bound.
  inPlace : Option (Int × Int)
  keepsPoint : Bool
  plus : Bool
deriving DecidableEq, Repr

namespace Style

def plain : Style := ⟨.up, none, false, false⟩

def described : Style := ⟨.up, some (-4, 15), true, false⟩

def json : Style := ⟨.even, some (-5, 15), true, true⟩

def inPlaceAt (style : Style) (lead : Int) : Bool :=
  match style.inPlace with
  | none => true
  | some (least, greatest) => least ≤ lead && lead ≤ greatest

end Style

namespace Binary64

def magnitudeText (style : Style) (x : Binary64) : List Char :=
  let d := x.shortest style.tie
  if x.isZero || style.inPlaceAt d.leadingExponent then
    if style.keepsPoint && 0 ≤ d.exponent then d.positional ++ ['.', '0'] else d.positional
  else d.scientific style.plus

def signed (negative : Bool) (text : List Char) : List Char := if negative then '-' :: text else text

def nonFiniteText (x : Binary64) : List Char :=
  if x.isNaN then ['N', 'a', 'N'] else signed x.isNegative ['i', 'n', 'f']

def text (style : Style) (x : Binary64) : List Char :=
  if x.isFinite then signed x.isNegative (x.magnitudeText style) else x.nonFiniteText

-- All digits of the exact value up to `places` of them after the point, an exact tie going to an even last digit.
-- The sign stays where the digits are all zero.
def fixedText (places : Nat) (x : Binary64) : List Char :=
  if x.isFinite then
    signed x.isNegative (pointText places (digitsText (roundHalfEven (x.num * Nat.pow 10 places) x.den)))
  else x.nonFiniteText

end Binary64

end Stencil.Numeric
