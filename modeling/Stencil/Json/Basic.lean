import Stencil.Numeric.Notation

set_option autoImplicit false

namespace Stencil

open Numeric

namespace Json

def InRange (n : Int) : Prop := Int64.minValue.toInt ≤ n ∧ n < UInt64.size

instance (n : Int) : Decidable (InRange n) := inferInstanceAs (Decidable (_ ∧ _))

theorem in_range_to_int (n : Int64) : InRange n.toInt :=
  ⟨Int64.minValue_le_toInt n, Int.lt_trans (Int64.toInt_lt n) (by decide)⟩

inductive Number where
  | int (n : Int) (inRange : InRange n)
  | float (x : Binary64) (finite : x.isFinite = true)
deriving DecidableEq

namespace Number

def ofInt? (n : Int) : Option Number := if inRange : InRange n then some (.int n inRange) else none

def ofFloat? (x : Binary64) : Option Number :=
  if finite : x.isFinite = true then some (.float x finite) else none

def text : Number → List Char
  | .int n _ => intText n
  | .float x _ => x.text .json

end Number

end Json

inductive Json where
  | null
  | bool (b : Bool)
  | number (n : Json.Number)
  | str (text : String)
  | array (items : List Json)
  | object (members : List (String × Json))
deriving Inhabited

namespace Json

-- A number that is not finite has no text of its own, and `null` stands for it.
def ofFloat (x : Binary64) : Json :=
  match Number.ofFloat? x with
  | some n => .number n
  | none => .null

def hexDigit (n : Nat) : Char := Nat.digitChar (n % 16)

def escapeChar (c : Char) : List Char :=
  match c with
  | '"' => ['\\', '"']
  | '\\' => ['\\', '\\']
  | '\x08' => ['\\', 'b']
  | '\x0c' => ['\\', 'f']
  | '\n' => ['\\', 'n']
  | '\r' => ['\\', 'r']
  | '\t' => ['\\', 't']
  | c =>
    if c.toNat < 0x20 then ['\\', 'u', '0', '0', hexDigit (c.toNat / 16), hexDigit c.toNat]
    else [c]

def stringText (text : String) : List Char := '"' :: (text.toList.flatMap escapeChar ++ ['"'])

mutual

def text : Json → List Char
  | .null => ['n', 'u', 'l', 'l']
  | .bool true => ['t', 'r', 'u', 'e']
  | .bool false => ['f', 'a', 'l', 's', 'e']
  | .number n => n.text
  | .str s => stringText s
  | .array [] => ['[', ']']
  | .array (item :: rest) => '[' :: (text item ++ itemsText rest)
  | .object [] => ['{', '}']
  | .object ((key, value) :: rest) =>
    '{' :: (stringText key ++ ':' :: (text value ++ membersText rest))

def itemsText : List Json → List Char
  | [] => [']']
  | item :: rest => ',' :: (text item ++ itemsText rest)

def membersText : List (String × Json) → List Char
  | [] => ['}']
  | (key, value) :: rest => ',' :: (stringText key ++ ':' :: (text value ++ membersText rest))

end

mutual

def hasNull : Json → Bool
  | .null => true
  | .array items => itemsHaveNull items
  | .object members => membersHaveNull members
  | _ => false

def itemsHaveNull : List Json → Bool
  | [] => false
  | item :: rest => hasNull item || itemsHaveNull rest

def membersHaveNull : List (String × Json) → Bool
  | [] => false
  | (_, value) :: rest => hasNull value || membersHaveNull rest

end

end Json

end Stencil
