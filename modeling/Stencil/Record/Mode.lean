import Stencil.Record.Part

set_option autoImplicit false

namespace Stencil.Declaration

inductive Definition where
  | function
  | fields
  | variants
  | signatures
  | alias
  | members
deriving DecidableEq, Repr

def Definition.ofWord? : String → Option Definition
  | "fn" => some .function
  | "struct" => some .fields
  | "union" => some .fields
  | "enum" => some .variants
  | "trait" => some .signatures
  | "type" => some .alias
  | "mod" => some .members
  | _ => none

-- What the lexemes of a group are, from one point of it on: in types `<` and `>` are brackets, in expressions they
-- compare.
inductive Mode where
  | types
  | expression
  | cast
  | pattern
  | parameters
  | result
  | constant
  | head (definition : Definition)
  | free
deriving DecidableEq, Repr

inductive Role where
  | types
  | arguments
  | generics
  | binder
  | inputs
  | pointed
  | variants
  | pattern
  | expression
  | arms
  | signatures
  | foreign
  | attribute
  | free
deriving DecidableEq, Repr

def Role.mode : Role → Mode
  | .types | .arguments | .generics | .binder | .inputs | .pointed | .variants => .types
  | .pattern | .arms => .pattern
  | .expression | .signatures | .foreign => .expression
  | .attribute | .free => .free

namespace Part

def endsInDefinition : List Part → Bool
  | .single (.word _) _ :: .single (.word word) _ :: _ => (Definition.ofWord? word).isSome
  | _ => false

def endsInSignature : List Part → Bool
  | .group .angle _ _ :: parts => endsInDefinition parts
  | parts => endsInDefinition parts

def endsInConstant : List Part → Bool
  | .single (.word "const") _ :: .single (.word "raw") _ :: _ => false
  | .single (.word "const") _ :: _ => true
  | .single (.word "static") _ :: _ => true
  | .single (.word "mut") _ :: .single (.word "static") _ :: _ => true
  | _ => false

end Part

namespace Mode

def opensAngle (mode : Mode) (parts : List Part) : Bool :=
  match mode with
  | .free => false
  | .expression => !Part.endsInOperand parts
  | .cast => !Part.endsInOperand parts || Part.endsInPath parts
  | _ => true

def continuesType : Lexeme → Bool
  | .joint marks => marks == "::" || marks == "->"
  | .mark c => c == '!'
  | .word word => word == "fn" || word == "unsafe" || word == "extern"
  | _ => false

def afterValue (parts : List Part) (lexeme : Lexeme) : Mode :=
  match lexeme, parts with
  | _, .single (.word "for") _ :: _ => .pattern
  | .word "let", _ => .pattern
  | .word "as", _ => .cast
  | .word "impl", _ => .head .members
  | .word name, .single (.word word) _ :: _ =>
    if !Part.isName name then .expression
    else
      match Definition.ofWord? word with
      | some definition => .head definition
      | none => if Part.endsInConstant parts then .constant else .expression
  | .mark '|', _ => if Part.endsInOperand parts then .expression else .parameters
  | .joint "->", _ => .result
  | _, _ => .expression

def endsBinding (lexeme : Lexeme) : Bool := lexeme == .mark '=' || lexeme == .mark ';'

def endsPattern (lexeme : Lexeme) : Bool :=
  endsBinding lexeme || lexeme == .joint "=>" || lexeme == .word "if" || lexeme == .word "in"

def next (mode : Mode) (parts : List Part) (lexeme : Lexeme) : Mode :=
  match mode with
  | .expression => afterValue parts lexeme
  | .cast =>
    if Part.endsInOperand parts && !continuesType lexeme then afterValue parts lexeme else .cast
  | .pattern => if endsPattern lexeme then .expression else .pattern
  | .constant => if endsBinding lexeme then .expression else .constant
  | .parameters => if lexeme = .mark '|' then .expression else .parameters
  | .head definition => if lexeme = .mark ';' then .expression else .head definition
  | .types => .types
  | .result => .result
  | .free => .free

end Mode

end Stencil.Declaration
