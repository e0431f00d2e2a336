import Stencil.Record.TypeText

set_option autoImplicit false

namespace Stencil

namespace Declaration

inductive Argument where
  | none
  | text (s : String)
  | number (n : Int)
deriving DecidableEq, Repr

structure Directive where
  name : String
  argument : Argument
deriving DecidableEq, Repr

structure Attribute where
  name : String
  directives : List Directive
deriving DecidableEq, Repr

inductive Visibility where
  | everyone
  | restricted
deriving DecidableEq, Repr

structure Member where
  visibility : Visibility
  name : String
  type : String
  attributes : List Attribute
deriving DecidableEq, Repr

inductive Body where
  | named (members : List Member)
  | positional
  | unit
  | alternatives
deriving DecidableEq, Repr

inductive Kind where
  | named
  | positional
  | unit
  | enumeration
  | union
deriving DecidableEq, Repr

def Body.ofMembers (kind : Kind) (members : List Member) : Body :=
  match kind with
  | .named => .named members
  | .positional => .positional
  | .unit => .unit
  | .enumeration | .union => .alternatives

inductive Parameter where
  | lifetime (name : String)
  | type (name : String)
  | constant (name : String)
deriving DecidableEq, Repr

end Declaration

structure Declaration where
  name : String
  parameters : List (Declaration.Listed Declaration.Parameter)
  body : Declaration.Body
deriving DecidableEq, Repr

inductive DerivationError where
  | notARecord
  | unknownDirective
  | badName
  | missingArgument
  | argumentNotText
  | unexpectedArgument
  | renamedFlatten
deriving DecidableEq, Repr

namespace DerivationError

def message : DerivationError → String
  | .notARecord => "Record can only be derived for structs"
  | .unknownDirective => "unknown record attribute"
  | .badName => "rename must use only letters, digits, `_` and `-`"
  | .missingArgument => "expected `=`"
  | .argumentNotText => "expected string literal"
  | .unexpectedArgument => "expected `,`"
  | .renamedFlatten => "`flatten` and `rename` cannot be combined"

end DerivationError

namespace Declaration

namespace Parameter

def ofParts? (parts : List Part) : Option Parameter :=
  match Part.withoutAttributes parts with
  | .single (.lifetime name) _ :: _ => some (.lifetime (String.ofList name))
  | .single (.word "const") _ :: .single (.word name) _ :: _ => some (.constant name)
  | .single (.word name) _ :: _ => some (.type name)
  | _ => none

def ofText (text : String) : List (Listed Parameter) :=
  (Part.items (Part.read text)).filterMap fun listed =>
    (ofParts? listed.item).map fun parameter => ⟨parameter, listed.comma⟩

def name : Parameter → String
  | .lifetime name => name
  | .type name => name
  | .constant name => name

def isLifetime : Parameter → Bool
  | .lifetime _ => true
  | _ => false

def isType : Parameter → Bool
  | .type _ => true
  | _ => false

end Parameter

structure Options where
  key? : Option String := none
  skip : Bool := false
  flatten : Bool := false
deriving DecidableEq, Repr

def isKeyChar (c : Char) : Bool := c.isAlphanum || c == '_' || c == '-'

def isKey (text : String) : Bool := !text.isEmpty && text.toList.all isKeyChar

def bare (argument : Argument) (options : Options) : Except DerivationError Options :=
  match argument with
  | .none => .ok options
  | _ => .error .unexpectedArgument

def apply (options : Options) (directive : Directive) : Except DerivationError Options :=
  if directive.name = "rename" then
    match directive.argument with
    | .none => .error .missingArgument
    | .number _ => .error .argumentNotText
    | .text key => if isKey key then .ok { options with key? := some key } else .error .badName
  else if directive.name = "skip" then bare directive.argument { options with skip := true }
  else if directive.name = "flatten" then bare directive.argument { options with flatten := true }
  else .error .unknownDirective

def directives (attributes : List Attribute) : List Directive :=
  (attributes.filter fun group => group.name == "record").flatMap Attribute.directives

def options (attributes : List Attribute) : Except DerivationError Options :=
  (directives attributes).foldlM apply {}

inductive Reading where
  | leaf (key field type : String)
  | embedded (field type : String)
deriving DecidableEq, Repr

-- The name as it is spoken of: without the mark that lets a keyword be a name.
def spokenName (name : String) : String :=
  match name.toList with
  | 'r' :: '#' :: rest => String.ofList rest
  | _ => name

def reading? (member : Member) : Except DerivationError (Option Reading) :=
  match member.visibility with
  | .restricted => .ok none
  | .everyone => do
    let options ← options member.attributes
    if options.skip then return none
    else if options.flatten then
      if options.key?.isSome then throw .renamedFlatten
      else return some (.embedded member.name member.type)
    else return some (.leaf (options.key?.getD (spokenName member.name)) member.name member.type)

def readingsOf : List Member → Except DerivationError (List Reading)
  | [] => .ok []
  | member :: rest => do
    let first? ← reading? member
    let others ← readingsOf rest
    return first?.toList ++ others

def readings (declaration : Declaration) : Except DerivationError (List Reading) :=
  match declaration.body with
  | .named members => readingsOf members
  | .positional | .unit => .ok []
  | .alternatives => .error .notARecord

inductive Bound where
  | static
  | readable
  | record
deriving DecidableEq, Repr

def Reading.bound : Reading → String × Bound
  | .leaf _ _ type => (boundedText type, .readable)
  | .embedded _ type => (boundedText type, .record)

def bounds (parameters : List Parameter) (readings : List Reading) : List (String × Bound) :=
  let types := parameters.filter Parameter.isType
  types.map (fun parameter => (parameter.name, .static))
    ++ (if types.isEmpty then [] else readings.map Reading.bound)

def selfType (declaration : Declaration) : String :=
  if declaration.parameters.isEmpty then declaration.name
  else
    let parameters := Listed.inFront Parameter.isLifetime declaration.parameters
    declaration.name ++ "<"
      ++ String.ofList (Listed.text (fun parameter => parameter.name.toList) parameters) ++ ">"

structure Derivation where
  selfType : String
  typeName : String
  readings : List Reading
  bounds : List (String × Bound)
deriving DecidableEq, Repr

def derive (declaration : Declaration) : Except DerivationError Derivation := do
  let readings ← declaration.readings
  let parameters := declaration.parameters.map Listed.item
  return ⟨declaration.selfType, declaration.name, readings, bounds parameters readings⟩

end Declaration

end Stencil
