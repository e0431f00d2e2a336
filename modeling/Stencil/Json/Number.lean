import Stencil.Json.Basic

set_option autoImplicit false

namespace Stencil.Json

open Numeric

structure Literal where
  negative : Bool
  whole : List Nat
  fraction? : Option (List Nat)
  exponent? : Option Int
deriving DecidableEq, Repr

structure Scaled where
  significand : Nat
  exponent : Int
deriving DecidableEq, Repr

def fits (significand digit : Nat) : Bool := significand * 10 + digit < UInt64.size

-- Digits before the point: from the first that does not fit, each one only raises the exponent.
def takeWhole (significand : Nat) : List Nat → Scaled
  | [] => ⟨significand, 0⟩
  | digit :: rest =>
    if fits significand digit then takeWhole (significand * 10 + digit) rest
    else ⟨significand, rest.length + 1⟩

def takeFraction (scaled : Scaled) : List Nat → Scaled
  | [] => scaled
  | digit :: rest =>
    if fits scaled.significand digit then
      takeFraction ⟨scaled.significand * 10 + digit, scaled.exponent - 1⟩ rest
    else scaled

def powerOfTen (n : Nat) : Binary64 := Binary64.ofNat (Nat.pow 10 n)

def shrink (x : Binary64) (n : Nat) : Binary64 :=
  if x.isZero then x
  else if n ≤ 308 then x.scaleDown (powerOfTen n)
  else shrink (x.scaleDown (powerOfTen 308)) (n - 308)
termination_by n

-- Beyond the largest power of ten that is finite, only zero can be multiplied.
def Scaled.toFloat? (scaled : Scaled) : Option Binary64 :=
  let x := Binary64.ofNat scaled.significand
  if scaled.exponent < 0 then some (shrink x scaled.exponent.natAbs)
  else if x.isZero then some x
  else if scaled.exponent ≤ 308 then some (x.scaleUp (powerOfTen scaled.exponent.toNat))
  else none

namespace Literal

def scaled (literal : Literal) : Scaled :=
  let whole := takeWhole 0 literal.whole
  let kept := takeFraction whole (literal.fraction?.getD [])
  ⟨kept.significand, kept.exponent + literal.exponent?.getD 0⟩

def float? (literal : Literal) : Option Number :=
  literal.scaled.toFloat?.bind fun x => Number.ofFloat? (if literal.negative then x.neg else x)

-- Zero with a minus sign is no whole number but the binary number that has one.
def int? (literal : Literal) : Option Number :=
  let n := ofDigits literal.whole
  if !literal.negative then Number.ofInt? n
  else if n = 0 then none
  else Number.ofInt? (-n)

def number? (literal : Literal) : Option Number :=
  match literal.fraction?, literal.exponent? with
  | none, none => literal.int?.or literal.float?
  | _, _ => literal.float?

end Literal

def digitRun (text : List Char) : List Nat × List Char :=
  ((text.takeWhile Char.isDigit).map digitValue, text.dropWhile Char.isDigit)

def readWhole (text : List Char) : Option (List Nat × List Char) :=
  match digitRun text with
  | ([], _) => none
  | (0 :: _ :: _, _) => none
  | run => some run

def readDigits (text : List Char) : Option (List Nat × List Char) :=
  match digitRun text with
  | ([], _) => none
  | run => some run

def readFraction (text : List Char) : Option (Option (List Nat) × List Char) :=
  match text with
  | '.' :: rest => (readDigits rest).map fun run => (some run.1, run.2)
  | _ => some (none, text)

def readPower (negative : Bool) (text : List Char) : Option (Option Int × List Char) :=
  (readDigits text).map fun run =>
    (some (if negative then -(ofDigits run.1 : Int) else ofDigits run.1), run.2)

def readSigned (text : List Char) : Option (Option Int × List Char) :=
  match text with
  | '-' :: rest => readPower true rest
  | '+' :: rest => readPower false rest
  | _ => readPower false text

def readExponent (text : List Char) : Option (Option Int × List Char) :=
  match text with
  | 'e' :: rest => readSigned rest
  | 'E' :: rest => readSigned rest
  | _ => some (none, text)

def readMagnitude (negative : Bool) (text : List Char) : Option (Literal × List Char) := do
  let (whole, afterWhole) ← readWhole text
  let (fraction?, afterFraction) ← readFraction afterWhole
  let (exponent?, rest) ← readExponent afterFraction
  return (⟨negative, whole, fraction?, exponent?⟩, rest)

def readLiteral (text : List Char) : Option (Literal × List Char) :=
  match text with
  | '-' :: rest => readMagnitude true rest
  | _ => readMagnitude false text

theorem length_lt_of_digit_run {text rest : List Char} {digit : Nat} {more : List Nat}
    (found : digitRun text = (digit :: more, rest)) : rest.length < text.length := by
  obtain ⟨first, last⟩ := Prod.mk.inj found
  have whole := congrArg List.length (List.takeWhile_append_dropWhile (p := Char.isDigit) (l := text))
  rw [List.length_append] at whole
  have count := congrArg List.length first
  rw [List.length_map, List.length_cons] at count
  rw [← last]
  omega

theorem length_lt_of_read_digits {text rest : List Char} {ds : List Nat}
    (found : readDigits text = some (ds, rest)) : rest.length < text.length := by
  unfold readDigits at found
  split at found
  · cases found
  · next notEmpty =>
    have same := Option.some.inj found
    cases ds with
    | nil => exact absurd same (notEmpty rest)
    | cons digit more => exact length_lt_of_digit_run same

theorem read_digits_of_read_whole {text : List Char} {run : List Nat × List Char} (found : readWhole text = some run) :
    readDigits text = some run := by
  unfold readWhole at found
  split at found
  · cases found
  · cases found
  · next notEmpty _ =>
    rw [readDigits]
    split
    · next rest empty => exact (notEmpty rest empty).elim
    · exact found

theorem length_le_of_read_fraction {text rest : List Char} {fraction? : Option (List Nat)}
    (found : readFraction text = some (fraction?, rest)) : rest.length ≤ text.length := by
  unfold readFraction at found
  split at found
  · obtain ⟨run, inner, same⟩ := Option.map_eq_some_iff.mp found
    obtain ⟨_, rfl⟩ := Prod.mk.inj same
    have shorter := length_lt_of_read_digits inner
    simp only [List.length_cons]
    omega
  · obtain ⟨_, rfl⟩ := Prod.mk.inj (Option.some.inj found)
    exact Nat.le_refl _

theorem length_lt_of_read_power {negative : Bool} {text rest : List Char} {exponent? : Option Int}
    (found : readPower negative text = some (exponent?, rest)) : rest.length < text.length := by
  obtain ⟨run, inner, same⟩ := Option.map_eq_some_iff.mp found
  obtain ⟨_, rfl⟩ := Prod.mk.inj same
  exact length_lt_of_read_digits inner

theorem length_lt_of_read_signed {text rest : List Char} {exponent? : Option Int}
    (found : readSigned text = some (exponent?, rest)) : rest.length < text.length := by
  unfold readSigned at found
  split at found
  · exact Nat.lt_succ_of_lt (length_lt_of_read_power found)
  · exact Nat.lt_succ_of_lt (length_lt_of_read_power found)
  · exact length_lt_of_read_power found

theorem length_le_of_read_exponent {text rest : List Char} {exponent? : Option Int}
    (found : readExponent text = some (exponent?, rest)) : rest.length ≤ text.length := by
  unfold readExponent at found
  split at found
  · exact Nat.le_of_lt (Nat.lt_succ_of_lt (length_lt_of_read_signed found))
  · exact Nat.le_of_lt (Nat.lt_succ_of_lt (length_lt_of_read_signed found))
  · obtain ⟨_, rfl⟩ := Prod.mk.inj (Option.some.inj found)
    exact Nat.le_refl _

theorem length_lt_of_read_magnitude {negative : Bool} {text rest : List Char} {literal : Literal}
    (found : readMagnitude negative text = some (literal, rest)) : rest.length < text.length := by
  obtain ⟨⟨whole, afterWhole⟩, first, found⟩ := Option.bind_eq_some_iff.mp found
  obtain ⟨⟨fraction?, afterFraction⟩, second, found⟩ := Option.bind_eq_some_iff.mp found
  obtain ⟨⟨exponent?, after⟩, third, found⟩ := Option.bind_eq_some_iff.mp found
  obtain ⟨_, rfl⟩ := Prod.mk.inj (Option.some.inj found)
  have wholeShorter := length_lt_of_read_digits (read_digits_of_read_whole first)
  have fractionShorter := length_le_of_read_fraction second
  have exponentShorter := length_le_of_read_exponent third
  omega

theorem length_lt_of_read_literal {text rest : List Char} {literal : Literal}
    (found : readLiteral text = some (literal, rest)) : rest.length < text.length := by
  unfold readLiteral at found
  split at found
  · exact Nat.lt_succ_of_lt (length_lt_of_read_magnitude found)
  · exact length_lt_of_read_magnitude found

end Stencil.Json
