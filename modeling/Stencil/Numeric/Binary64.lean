import Stencil.Numeric.Digits

set_option autoImplicit false

namespace Stencil.Numeric

structure Binary64 where
  bits : UInt64
deriving DecidableEq, Inhabited

namespace Binary64

def signBit : Nat := 0x8000000000000000

def hiddenBit : Nat := 0x10000000000000

def infinityMagnitude : Nat := 0x7ff0000000000000

def isNegative (x : Binary64) : Bool := signBit ≤ x.bits.toNat

-- The bit pattern without its sign. Finite magnitudes are ordered as their patterns are.
def magnitude (x : Binary64) : Nat := x.bits.toNat % signBit

def exponentField (x : Binary64) : Nat := x.magnitude / hiddenBit

def fractionField (x : Binary64) : Nat := x.magnitude % hiddenBit

def isFinite (x : Binary64) : Bool := x.magnitude < infinityMagnitude

def isNaN (x : Binary64) : Bool := infinityMagnitude < x.magnitude

def isZero (x : Binary64) : Bool := x.magnitude == 0

def significand (x : Binary64) : Nat :=
  if x.exponentField = 0 then x.fractionField else hiddenBit + x.fractionField

def exponent (x : Binary64) : Int :=
  if x.exponentField = 0 then -1074 else (x.exponentField : Int) - 1075

def num (x : Binary64) : Nat := x.significand * Nat.pow 2 x.exponent.toNat

def den (x : Binary64) : Nat := Nat.pow 2 (-x.exponent).toNat

def isWhole (x : Binary64) : Bool := x.isFinite && x.num % x.den == 0

def ofMagnitude (negative : Bool) (magnitude : Nat) : Binary64 :=
  ⟨UInt64.ofNat (if negative then signBit + magnitude else magnitude)⟩

def floorLog2 (num den : Nat) : Int :=
  let guess : Int := (Nat.log2 num : Int) - (Nat.log2 den : Int)
  if den * Nat.pow 2 guess.toNat ≤ num * Nat.pow 2 (-guess).toNat then guess else guess - 1

def unitExponent (num den : Nat) : Int := max (floorLog2 num den - 52) (-1074)

-- A normal number with significand `2 ^ 52 + f` at unit exponent `e` has the pattern
-- `(e + 1075) * 2 ^ 52 + f`, so the hidden bit adds one to the field, and a significand rounded up to
-- `2 ^ 53` carries into it.
def nearestMagnitude (num den : Nat) : Nat :=
  if num = 0 then 0
  else
    let unit := unitExponent num den
    let kept := roundHalfEven (num * Nat.pow 2 (-unit).toNat) (den * Nat.pow 2 unit.toNat)
    min infinityMagnitude ((unit + 1074).toNat * hiddenBit + kept)

def ofRatio (negative : Bool) (num den : Nat) : Binary64 :=
  ofMagnitude negative (nearestMagnitude num den)

def ofNat (n : Nat) : Binary64 := ofRatio false n 1

def ofInt (n : Int) : Binary64 := ofRatio (n < 0) n.natAbs 1

def neg (x : Binary64) : Binary64 := ofMagnitude (!x.isNegative) x.magnitude

def scaleUp (x y : Binary64) : Binary64 :=
  ofRatio x.isNegative (x.num * y.num) (x.den * y.den)

def scaleDown (x y : Binary64) : Binary64 :=
  ofRatio x.isNegative (x.num * y.den) (x.den * y.num)

def ofBinary32 (bits : UInt32) : Binary64 :=
  let negative := decide (0x80000000 ≤ bits.toNat)
  let field := bits.toNat / 0x800000 % 0x100
  let fraction := bits.toNat % 0x800000
  if field = 0xff then ofMagnitude negative (infinityMagnitude + fraction * 0x20000000)
  else if field = 0 then ofRatio negative fraction (Nat.pow 2 149)
  else ofRatio negative ((0x800000 + fraction) * Nat.pow 2 field) (Nat.pow 2 150)

def numericEq (x y : Binary64) : Bool :=
  !x.isNaN && !y.isNaN && (x == y || (x.isZero && y.isZero))

end Binary64

end Stencil.Numeric
