import Stencil.Numeric.Notation
import Stencil.Text

set_option autoImplicit false

namespace Stencil

open Numeric

inductive Value where
  | bool (b : Bool)
  | int (n : Int64)
  | float (x : Binary64)
  | str (text : String)
  | list (items : List Value)
  -- Entries in ascending order of their names, each name once.
  | map (entries : List (String × Value))
deriving Inhabited

namespace Value

def isNumber : Value → Bool
  | .int _ | .float _ => true
  | _ => false

def ofInt (n : Int) : Value :=
  if Int64.minValue.toInt ≤ n ∧ n ≤ Int64.maxValue.toInt then .int (Int64.ofInt n) else .float (Binary64.ofInt n)

mutual

def dataEq : Value → Value → Bool
  | .bool a, .bool b => a == b
  | .int a, .int b => a == b
  | .float x, .float y => x.numericEq y
  | .str a, .str b => a == b
  | .list a, .list b => itemsEq a b
  | .map a, .map b => entriesEq a b
  | _, _ => false

def itemsEq : List Value → List Value → Bool
  | [], [] => true
  | a :: restA, b :: restB => dataEq a b && itemsEq restA restB
  | _, _ => false

def entriesEq : List (String × Value) → List (String × Value) → Bool
  | [], [] => true
  | (key, a) :: restA, (name, b) :: restB => key == name && dataEq a b && entriesEq restA restB
  | _, _ => false

end

mutual

def describe : Value → String
  | .bool b => "Bool(" ++ (if b then "true" else "false") ++ ")"
  | .int n => "Int(" ++ String.ofList (intText n.toInt) ++ ")"
  | .float x => "Float(" ++ String.ofList (x.text .described) ++ ")"
  | .str text => "String(" ++ Text.quoted text ++ ")"
  | .list items => "List(" ++ Text.bracketed (describeItems items) ++ ")"
  | .map entries => "Map(\x7b" ++ String.intercalate ", " (describeEntries entries) ++ "\x7d)"

def describeItems : List Value → List String
  | [] => []
  | item :: rest => describe item :: describeItems rest

def describeEntries : List (String × Value) → List String
  | [] => []
  | (key, value) :: rest => (Text.quoted key ++ ": " ++ describe value) :: describeEntries rest

end

end Value

end Stencil
