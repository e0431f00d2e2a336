import Stencil.Record.Mode

set_option autoImplicit false

namespace Stencil.Declaration

inductive Verdict where
  | inside
  | outside
  | open
deriving DecidableEq, Repr

namespace Part

def walk (verdict : Part → List Part → Verdict) : List Part → Bool
  | [] => false
  | part :: before =>
    match verdict part before with
    | .inside => true
    | .outside => false
    | .open => walk verdict before

def divides : Part → Bool
  | .single (.mark c) _ => [',', ';', '=', ':', '|'].contains c
  | .single (.joint marks) _ => marks == "=>" || marks == "||"
  | .single (.word word) _ => ["as", "where", "in", "if", "let"].contains word
  | .group .curly _ _ => true
  | _ => false

def beforeBound (bracket : Bracket) : List Part → Bool
  | [] => bracket = .round
  | .single (.mark c) _ :: _ => [':', '+', '=', '~'].contains c
  | .single (.word word) _ :: _ => word == "impl" || word == "dyn"
  | .group .angle _ _ :: .single (.word "for") _ :: _ => true
  | _ => false

def pointerVerdict : Part → List Part → Verdict
  | .single (.mark '*') _, .single (.word "dyn") _ :: _ => .inside
  | part, _ => if divides part then .outside else .open

def boundVerdict (bracket : Bracket) : Part → List Part → Verdict
  | .single (.word "const") _, before | .single (.word "async") _, before =>
    if beforeBound bracket before then .inside else .outside
  | .group .square _ written, before =>
    if written = "[const]".toList && beforeBound bracket before then .inside else .open
  | part, _ => if divides part || part == .ofLexeme (.mark '+') then .outside else .open

def boxVerdict : Part → List Part → Verdict
  | .single (.word "box") _, _ => .inside
  | part, _ => if divides part then .outside else .open

def becomeVerdict : Part → List Part → Verdict
  | .single (.word "become") _, _ => .inside
  | part, _ => if part == .ofLexeme (.joint "=>") then .outside else .open

def isChangeable (parts : List Part) : Bool :=
  match withoutAttributes parts with
  | .single (.word "mut") _ :: .single (.word "self") _ :: _ => true
  | _ => false

-- What comes after the parts, which go from the last to the first, is shown as it was written.
def beforeKept (bracket : Bracket) (role : Role) (mode : Mode) (parts : List Part) : Bool :=
  match mode with
  | .free => false
  | .expression => walk becomeVerdict parts
  | _ => walk pointerVerdict parts || walk (boundVerdict bracket) parts || walk boxVerdict parts
    || walk becomeVerdict parts || (role == .pointed && isChangeable parts.reverse)

def beforeFor? : List Part → Option (List Part)
  | [] => none
  | .single (.word "where") _ :: _ => none
  | .single (.word "for") first :: .group .angle shown written :: rest =>
    (beforeFor? rest).map fun parts => .single (.word "for") first :: .group .angle shown written :: parts
  | .single (.word "for") _ :: _ => some []
  | part :: rest => (beforeFor? rest).map fun parts => part :: parts

def isPath (parts : List Part) : Bool :=
  let begins := match parts with
    | .single (.word word) _ :: _ => isName word
    | .single (.joint "::") _ :: _ => true
    | _ => false
  begins && !parts.contains (.ofLexeme (.mark '+')) && !parts.contains (.ofLexeme (.mark '!'))

def implementsOther : List Part → Bool
  | .single (.word "const") _ :: _ => true
  | .single (.mark '?') _ :: .single (.word "const") _ :: _ => true
  | .single (.mark '!') _ :: rest => ((beforeFor? rest).map isPath) == some false
  | parts => ((beforeFor? parts).map isPath) == some false

def isConditional : List Part → Bool
  | .single (.word "const") _ :: .single (.word name) _ :: rest =>
    isName name && (rest.contains (.ofLexeme (.word "where")) || (withoutArguments rest).length < rest.length)
  | _ => false

def isUntyped : List Part → Bool
  | .single (.word "static") _ :: rest => beginsWith [.mark '='] ((withoutWords ["mut"] rest).drop 1)
  | _ => false

-- A definition that ends here, with a body or without one, is shown as it was written. The parts are those of its
-- statement.
def isKept (role : Role) (mode : Mode) (body : Bool) (parts : List Part) : Bool :=
  let statement := withoutAttributes parts
  let definition := withoutWords ["default", "unsafe"] (withoutVisibility statement)
  let defines := statement.contains (.ofLexeme (.mark '='))
  let isBounded := beginsWith [.mark ':'] (withoutArguments (definition.drop 2))
  match role, mode with
  | .signatures, _ => beginsWith [.word "pub", .word "default"] statement || isConditional definition
  | .foreign, .head .function => body || beginsWith [.word "safe"] definition
  | .foreign, .head .alias => defines || isBounded
  | .foreign, _ => defines || beginsWith [.word "safe", .word "unsafe"] (withoutVisibility statement)
  | _, .head .function => !body
  | _, .head .alias => !defines || isBounded
  | _, .head .signatures => beginsWith [.word "const"] definition
  | _, .head .members =>
    beginsWith [.word "impl"] definition
      && (beginsWith [.word "pub"] statement || implementsOther (withoutArguments (definition.drop 1)))
  | _, .constant => true
  | _, .expression => isConditional definition || isUntyped definition
  | _, _ => false

end Part

end Stencil.Declaration
