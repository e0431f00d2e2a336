set_option autoImplicit false

namespace Stencil.Numeric

def digits (n : Nat) : List Nat :=
  if n < 10 then [n] else digits (n / 10) ++ [n % 10]

def ofDigits (ds : List Nat) : Nat := ds.foldl (fun n d => 10 * n + d) 0

def digitChar (d : Nat) : Char := Char.ofNat ('0'.toNat + d)

def digitValue (c : Char) : Nat := c.toNat - '0'.toNat

def digitsText (n : Nat) : List Char := (digits n).map digitChar

def intText (n : Int) : List Char :=
  if n < 0 then '-' :: digitsText n.natAbs else digitsText n.natAbs

def roundHalfEven (num den : Nat) : Nat :=
  let low := num / den
  let twice := 2 * (num % den)
  if twice < den then low
  else if den < twice then low + 1
  else low + low % 2

theorem round_half_even_le (num den : Nat) : roundHalfEven num den ≤ num / den + 1 := by
  simp only [roundHalfEven]
  split
  · omega
  · split <;> omega

theorem of_digits_append (front : List Nat) (last : Nat) :
    ofDigits (front ++ [last]) = 10 * ofDigits front + last := by
  simp only [ofDigits, List.foldl_append, List.foldl_cons, List.foldl_nil]

theorem of_digits_digits (n : Nat) : ofDigits (digits n) = n := by
  fun_induction digits n with
  | case1 n _ => simp [ofDigits]
  | case2 n _ ih =>
    rw [of_digits_append, ih]
    omega

def radixDigits : List Char := "0123456789abcdef".toList

def radixDigit? (base : Nat) (c : Char) : Option Nat := (radixDigits.take base).findIdx? (· == c.toLower)

def ofRadix? (base : Nat) (text : List Char) : Option Nat :=
  match text.filter (· != '_') with
  | [] => none
  | digits => digits.foldlM (fun n c => (radixDigit? base c).map (base * n + ·)) 0

def wholeNumber? (text : List Char) : Option Nat :=
  match text with
  | '0' :: 'x' :: digits => ofRadix? 16 digits
  | '0' :: 'o' :: digits => ofRadix? 8 digits
  | '0' :: 'b' :: digits => ofRadix? 2 digits
  | digits => ofRadix? 10 digits

end Stencil.Numeric
