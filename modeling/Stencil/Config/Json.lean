import Stencil.Config
import Stencil.Json.Object

set_option autoImplicit false

namespace Stencil

namespace Config

inductive Field where
  | globalDefault
  | separator
  | numberFormat
deriving DecidableEq, Repr

namespace Field

def name : Field → String
  | .globalDefault => "global_default"
  | .separator => "separator"
  | .numberFormat => "number_format"

def all : List Field := [.globalDefault, .separator, .numberFormat]

def ofName? (text : String) : Option Field := all.find? fun field => field.name == text

end Field

def toJson (config : Config) : Json :=
  .object [
    (Field.globalDefault.name, .str config.globalDefault),
    (Field.separator.name, .str config.separator),
    (Field.numberFormat.name, .str config.numberFormat.name)]

def jsonText (config : Config) : String := String.ofList config.toJson.text

structure Partial where
  globalDefault? : Option String := none
  separator? : Option String := none
  numberFormat? : Option NumberFormat := none
deriving DecidableEq, Repr

namespace Partial

def has (fields : Partial) : Field → Bool
  | .globalDefault => fields.globalDefault?.isSome
  | .separator => fields.separator?.isSome
  | .numberFormat => fields.numberFormat?.isSome

def complete (fields : Partial) : Config where
  globalDefault := fields.globalDefault?.getD ({} : Config).globalDefault
  separator := fields.separator?.getD ({} : Config).separator
  numberFormat := fields.numberFormat?.getD ({} : Config).numberFormat

end Partial

def readString (toks : List Json.Token) : Except Json.Fault (String × Json.Shorter toks) :=
  match toks with
  | .str (some text) :: _ => .ok (text, .tail)
  | toks => .error (.unexpected "a string" toks)

def formatOfName (name : String) : Except Json.Fault NumberFormat :=
  match NumberFormat.ofName? name with
  | some format => .ok format
  | none => .error (.unknownVariant name (NumberFormat.all.map NumberFormat.name))

def readNullEnd (toks : List Json.Token) : Except Json.Fault (Json.Shorter toks) :=
  match toks with
  | .colon :: .null :: .closeBrace :: _ => .ok Json.Shorter.tail.after.after
  | .colon :: .null :: _ => .error .malformed
  | .colon :: value => .error (.unexpected "unit" value)
  | _ => .error .malformed

def readFormat (toks : List Json.Token) : Except Json.Fault (NumberFormat × Json.Shorter toks) :=
  match toks with
  | .str (some name) :: _ => (formatOfName name).map fun format => (format, .tail)
  | .openBrace :: .str (some name) :: after => do
    let format ← formatOfName name
    let rest ← readNullEnd after
    return (format, rest.after.after)
  | _ => .error .malformed

def readField (fields : Partial) (field : Field) (toks : List Json.Token) :
    Except Json.Fault (Partial × Json.Shorter toks) :=
  match field with
  | .globalDefault =>
    (readString toks).map fun read => ({ fields with globalDefault? := some read.1 }, read.2)
  | .separator =>
    (readString toks).map fun read => ({ fields with separator? := some read.1 }, read.2)
  | .numberFormat =>
    (readFormat toks).map fun read => ({ fields with numberFormat? := some read.1 }, read.2)

def skipValue (toks : List Json.Token) : Except Json.Fault (Json.Shorter toks) :=
  match found : Json.readOutline toks with
  | some (_, rest) => .ok ⟨rest, Json.length_lt_of_read_outline found⟩
  | none => .error .malformed

-- A known name may occur once; any value may stand under an unknown one.
def readMember : Json.MemberReader Partial := fun fields key toks =>
  match Field.ofName? key with
  | some field =>
    if fields.has field then .error (.duplicateField field.name)
    else
      match toks with
      | .colon :: rest =>
        (readField fields field rest).map fun read => (read.1, read.2.after)
      | _ => .error .malformed
  | none =>
    match toks with
    | .colon :: rest =>
      (skipValue rest).map fun left => (fields, left.after)
    | _ => .error .malformed

def readItems (fields : Partial) (toks : List Json.Token) :
    List Field → Except Json.Fault (Partial × Json.Shorter toks)
  | [] => .error .malformed
  | field :: later =>
    match readField fields field toks with
    | .error fault => .error fault
    | .ok (fields, ⟨.closeBracket :: rest, shorter⟩) =>
      .ok (fields, ⟨rest, Nat.lt_of_succ_lt shorter⟩)
    | .ok (fields, ⟨.comma :: rest, shorter⟩) =>
      (readItems fields rest later).map fun read => (read.1, read.2.further shorter)
    | .ok _ => .error .malformed

def readArray (toks : List Json.Token) : Except Json.Fault (Partial × Json.Shorter toks) :=
  match toks with
  | .closeBracket :: _ => .ok ({}, .tail)
  | toks => readItems {} toks Field.all

def ofText (text : String) : Except Json.Fault Config :=
  match Json.tokens text.toList with
  | .openBrace :: rest =>
    ((Json.readObject readMember {} rest).bind Json.atEnd).map Partial.complete
  | .openBracket :: rest => ((readArray rest).bind Json.atEnd).map Partial.complete
  | toks => .error (.unexpected "struct TemplateConfig" toks)

end Config

end Stencil
