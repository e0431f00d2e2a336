import Stencil.Json.Object
import Stencil.Value.Basic
import Stencil.Value.Entries

set_option autoImplicit false

namespace Stencil

open Numeric

namespace Value

mutual

def toJson : Value → Json
  | .bool b => .bool b
  | .int n => .number (.int n.toInt (Json.in_range_to_int n))
  | .float x => Json.ofFloat x
  | .str text => .str text
  | .list items => .array (itemsToJson items)
  | .map entries => .object (entriesToJson entries)

def itemsToJson : List Value → List Json
  | [] => []
  | item :: rest => toJson item :: itemsToJson rest

def entriesToJson : List (String × Value) → List (String × Json)
  | [] => []
  | (key, value) :: rest => (key, toJson value) :: entriesToJson rest

end

def jsonText (value : Value) : String := String.ofList value.toJson.text

def ofNumber : Json.Number → Value
  | .int n _ => ofInt n
  | .float x _ => .float x

def presentEntries (members : List (String × Option Value)) : List (String × Value) :=
  (Entries.ofList members).filterMap fun member => member.2.map fun value => (member.1, value)

mutual

def ofJson : Json → Option Value
  | .null => none
  | .bool b => some (.bool b)
  | .number n => some (ofNumber n)
  | .str text => some (.str text)
  | .array items => some (.list ((itemsOfJson items).filterMap id))
  | .object members => some (.map (presentEntries (membersOfJson members)))

def itemsOfJson : List Json → List (Option Value)
  | [] => []
  | item :: rest => ofJson item :: itemsOfJson rest

def membersOfJson : List (String × Json) → List (String × Option Value)
  | [] => []
  | (key, tree) :: rest => (key, ofJson tree) :: membersOfJson rest

end

def bool? : Json → Option Value
  | .bool b => some (.bool b)
  | _ => none

def int? : Json → Option Value
  | .number (.int n _) =>
    if Int64.minValue.toInt ≤ n ∧ n ≤ Int64.maxValue.toInt then some (.int (Int64.ofInt n)) else none
  | _ => none

def float? : Json → Option Value
  | .number (.int n _) => some (.float (Binary64.ofInt n))
  | .number (.float x _) => some (.float x)
  | _ => none

def str? : Json → Option Value
  | .str text => some (.str text)
  | _ => none

def scalarKinds : List (Json → Option Value) := [bool?, int?, float?, str?]

mutual

-- The value of the first kind that takes the tree. An array or object is taken only if each part of it is of
-- some kind, and `null` is of none.
def ofKind? : Json → Option Value
  | .array items => (itemsOfKind? items).map .list
  | .object members => (membersOfKind? members).map fun pairs => .map (Entries.ofList pairs)
  | scalar => scalarKinds.findSome? fun kind => kind scalar

def itemsOfKind? : List Json → Option (List Value)
  | [] => some []
  | item :: rest => do
    let first ← ofKind? item
    let others ← itemsOfKind? rest
    return first :: others

def membersOfKind? : List (String × Json) → Option (List (String × Value))
  | [] => some []
  | (key, tree) :: rest => do
    let first ← ofKind? tree
    let others ← membersOfKind? rest
    return (key, first) :: others

end

def ofCompleteJson (tree : Json) : Except Json.Fault Value :=
  match ofKind? tree with
  | some value => .ok value
  | none => .error .absentValue

-- The value of a text without nulls. A null in a well-formed value is found before anything after it.
def ofText (text : String) : Except Json.Fault Value :=
  match Json.readValue Json.maxDepth (Json.tokens text.toList) with
  | none => .error .malformed
  | some (tree, rest) => do
    let value ← ofCompleteJson tree
    if rest = [] then return value else throw .malformed

end Value

end Stencil
