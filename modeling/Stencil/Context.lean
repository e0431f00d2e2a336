import Stencil.Datum

set_option autoImplicit false

namespace Stencil

structure Context where
  bindings : List (String × Value) := []
  ascending : Entries.Ascending bindings := by exact List.Pairwise.nil

namespace Context

def empty : Context := {}

instance : EmptyCollection Context := ⟨empty⟩

instance : Inhabited Context := ⟨empty⟩

def get? (context : Context) (key : String) : Option Value := context.bindings.lookup key

def contains (context : Context) (key : String) : Bool := (context.get? key).isSome

def size (context : Context) : Nat := context.bindings.length

def isEmpty (context : Context) : Bool := context.bindings.isEmpty

def insert (context : Context) (key : String) (value : Value) : Context :=
  ⟨Entries.insert key value context.bindings, Entries.ascending_insert key value context.ascending⟩

def replace (context : Context) (key : String) (value : Value) : Context × Option Value :=
  (context.insert key value, context.get? key)

def insertAll (context : Context) (pairs : List (String × Value)) : Context :=
  ⟨Entries.insertAll context.bindings pairs, Entries.ascending_insert_all context.ascending pairs⟩

def ofList (pairs : List (String × Value)) : Context := empty.insertAll pairs

def toList (context : Context) : List (String × Value) := context.bindings

def dataEq (a b : Context) : Bool := Value.entriesEq a.bindings b.bindings

def toValue (context : Context) : Value := .map context.bindings

theorem to_value_inj {a b : Context} (same : a.toValue = b.toValue) : a = b := by
  obtain ⟨bindings, ascending⟩ := a
  obtain rfl := Value.map.inj same
  rfl

def jsonText (context : Context) : String := context.toValue.jsonText

def readBinding : Json.MemberReader Context := fun context key toks => do
  let (tree, rest) ← Json.readMemberValue (Json.maxDepth - 1) toks
  let value ← Value.ofCompleteJson tree
  return (context.insert key value, rest)

def ofText (text : String) : Except Json.Fault Context :=
  match Json.tokens text.toList with
  | .openBrace :: rest => (Json.readObject readBinding empty rest).bind Json.atEnd
  | toks => .error (.unexpected "a map" toks)

inductive DatumError where
  | noJson (error : Datum.JsonError)
  | notObject (found : Value)

namespace DatumError

def message : DatumError → String
  | .noJson error => "JSON error: " ++ error.message
  | .notObject found => "JSON error: context must serialize to an object, got " ++ found.describe

end DatumError

def ofJson (tree : Json) : Except DatumError Context :=
  match Value.ofJson tree with
  | none => .ok empty
  | some (.map entries) => .ok (ofList entries)
  | some found => .error (.notObject found)

def ofDatum (datum : Datum) : Except DatumError Context :=
  match datum.toJson with
  | .ok tree => ofJson tree
  | .error error => .error (.noJson error)

end Context

end Stencil
