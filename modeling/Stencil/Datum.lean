import Stencil.Value.Json

set_option autoImplicit false

namespace Stencil

open Numeric

inductive Datum.Key where
  | text (name : String)
  | int (n : Int)
  | other
deriving DecidableEq, Repr

inductive Datum where
  | bool (b : Bool)
  | int (n : Int)
  | float (x : Binary64)
  | single (bits : UInt32)
  | char (c : Char)
  | text (s : String)
  | value (v : Value)
  | json (tree : Json)
  | absent
  | present (d : Datum)
  | seq (items : List Datum)
  | map (entries : List (Datum.Key × Datum))
deriving Inhabited

namespace Datum

namespace Key

def text? : Key → Option String
  | .text name => some name
  | .int n => some (String.ofList (intText n))
  | .other => none

end Key

def ofOption {α : Type} (datum : α → Datum) : Option α → Datum
  | none => .absent
  | some a => .present (datum a)

mutual

def toValue? : Datum → Option Value
  | .bool b => some (.bool b)
  | .int n => some (Value.ofInt n)
  | .float x => some (.float x)
  | .single bits => some (.float (Binary64.ofBinary32 bits))
  | .char c => some (.str (String.singleton c))
  | .text s => some (.str s)
  | .value v => some v
  | .json tree => Value.ofJson tree
  | .absent => none
  | .present d => toValue? d
  | .seq items => some (.list ((itemValues items).filterMap id))
  | .map entries => some (.map (Value.presentEntries (entryValues entries)))

def itemValues : List Datum → List (Option Value)
  | [] => []
  | item :: rest => toValue? item :: itemValues rest

-- An entry whose key has no text is left out.
def entryValues : List (Key × Datum) → List (String × Option Value)
  | [] => []
  | (key, item) :: rest =>
    match key.text? with
    | some name => (name, toValue? item) :: entryValues rest
    | none => entryValues rest

end

mutual

def whole? : Datum → Option Value
  | .bool b => some (.bool b)
  | .int n => some (Value.ofInt n)
  | .float x => some (.float x)
  | .single bits => some (.float (Binary64.ofBinary32 bits))
  | .text s => some (.str s)
  | .value v => some v
  | .seq items => (wholeItems? items).map .list
  | .map entries => (wholeEntries? entries).map fun pairs => .map (Entries.ofList pairs)
  | .char _ | .json _ | .absent | .present _ => none

def wholeItems? : List Datum → Option (List Value)
  | [] => some []
  | item :: rest => do
    let first ← whole? item
    let others ← wholeItems? rest
    return first :: others

def wholeEntries? : List (Key × Datum) → Option (List (String × Value))
  | [] => some []
  | (key, item) :: rest => do
    let name ← key.text?
    let first ← whole? item
    let others ← wholeEntries? rest
    return (name, first) :: others

end

inductive JsonError where
  | keyWithoutText
  | numberOutOfRange
deriving DecidableEq, Repr

namespace JsonError

def message : JsonError → String
  | .keyWithoutText => "key must be a string"
  | .numberOutOfRange => "number out of range"

end JsonError

def intJson (n : Int) : Except JsonError Json :=
  match Json.Number.ofInt? n with
  | some number => .ok (.number number)
  | none => .error .numberOutOfRange

mutual

def toJson : Datum → Except JsonError Json
  | .bool b => .ok (.bool b)
  | .int n => intJson n
  | .float x => .ok (Json.ofFloat x)
  | .single bits => .ok (Json.ofFloat (Binary64.ofBinary32 bits))
  | .char c => .ok (.str (String.singleton c))
  | .text s => .ok (.str s)
  | .value v => .ok v.toJson
  | .json tree => .ok tree
  | .absent => .ok .null
  | .present d => toJson d
  | .seq items => (itemsToJson items).map .array
  | .map entries => (entriesToJson entries).map .object

def itemsToJson : List Datum → Except JsonError (List Json)
  | [] => .ok []
  | item :: rest => do
    let first ← toJson item
    let others ← itemsToJson rest
    return first :: others

def entriesToJson : List (Key × Datum) → Except JsonError (List (String × Json))
  | [] => .ok []
  | (key, item) :: rest =>
    match key.text? with
    | none => .error .keyWithoutText
    | some name => do
      let first ← toJson item
      let others ← entriesToJson rest
      return (name, first) :: others

end

end Datum

end Stencil
