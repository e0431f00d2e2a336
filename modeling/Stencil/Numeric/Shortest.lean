import Stencil.Numeric.Binary64

set_option autoImplicit false

namespace Stencil.Numeric

structure Decimal where
  coefficient : Nat
  exponent : Int
deriving DecidableEq, Repr

namespace Decimal

def num (d : Decimal) : Nat := d.coefficient * Nat.pow 10 d.exponent.toNat

def den (d : Decimal) : Nat := Nat.pow 10 (-d.exponent).toNat

def normalize (d : Decimal) : Decimal :=
  if d.coefficient ≠ 0 ∧ d.coefficient % 10 = 0 then
    normalize ⟨d.coefficient / 10, d.exponent + 1⟩
  else d
termination_by d.coefficient
decreasing_by exact Nat.div_lt_self (by omega) (by decide)

def leadingExponent (d : Decimal) : Int := (digits d.coefficient).length - 1 + d.exponent

end Decimal

inductive TieRule where
  | up
  | even
deriving DecidableEq, Repr

def pointPosition (num den : Nat) : Int :=
  if den ≤ num then (digits (num / den)).length
  else 1 - (digits ((den - 1) / num)).length

namespace Binary64

def readsBack (x : Binary64) (d : Decimal) : Bool := nearestMagnitude d.num d.den == x.magnitude

-- Of the two neighbours of `x` on the grid of multiples of `10 ^ place`, the nearer one that reads back.
def onGrid (tie : TieRule) (x : Binary64) (place : Int) : Option Decimal :=
  let up := Nat.pow 10 place.toNat
  let down := Nat.pow 10 (-place).toNat
  let low := x.num * down / (x.den * up)
  let lower : Decimal := ⟨low, place⟩
  let upper : Decimal := ⟨low + 1, place⟩
  match x.readsBack lower, x.readsBack upper with
  | false, false => none
  | true, false => some lower
  | false, true => some upper
  | true, true =>
    match compare (2 * (x.num * down)) ((2 * low + 1) * (x.den * up)) with
    | .lt => some lower
    | .gt => some upper
    | .eq =>
      match tie with
      | .up => some upper
      | .even => some (if low % 2 = 0 then lower else upper)

def exactDecimal (x : Binary64) : Decimal :=
  ⟨x.num * Nat.pow 5 (-x.exponent).toNat, -((-x.exponent).toNat : Int)⟩

-- Seventeen digits always suffice; the exact value stands in the place of a search without a hit.
def shortest (tie : TieRule) (x : Binary64) : Decimal :=
  if x.isZero then ⟨0, 0⟩
  else
    let point := pointPosition x.num x.den
    let hit := (List.range 17).findSome? fun (count : Nat) => x.onGrid tie (point - (count + 1 : Nat))
    (hit.getD x.exactDecimal).normalize

end Binary64

end Stencil.Numeric
