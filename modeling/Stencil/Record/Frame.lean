import Stencil.Record.Kept

set_option autoImplicit false

namespace Stencil.Declaration

-- An open group, with its parts from the last to the first: those since the last statement ended, and those
-- before them.
structure Frame where
  bracket : Bracket
  role : Role
  mode : Mode
  parts : List Part
  past : List Part
deriving DecidableEq, Repr

namespace Frame

def opened (bracket : Bracket) (role : Role) : Frame := ⟨bracket, role, role.mode, [], []⟩

def beforeKept (frame : Frame) : Bool := Part.beforeKept frame.bracket frame.role frame.mode frame.parts

-- How many of the last parts say nothing before a lexeme: an empty list of bounds or conditions, the marks
-- before the arguments of a function type, and the visibility of an alternative.
def vainBefore (frame : Frame) (lexeme : Lexeme) : Nat :=
  match frame.mode, frame.role, frame.parts with
  | .head _, _, .single (.word "where") _ :: _ =>
    if [.mark '{', .mark ';', .mark '='].contains lexeme then 1 else 0
  | .head .signatures, _, .single (.mark ':') _ :: parts | .head .alias, _, .single (.mark ':') _ :: parts =>
    if Part.endsInSignature parts && [.mark '{', .mark ';', .mark '=', .word "where"].contains lexeme then 1
    else 0
  | .types, .generics, .single (.mark ':') _ :: _ | .types, .binder, .single (.mark ':') _ :: _ =>
    if [.mark ',', .mark '=', .mark '>'].contains lexeme then 1 else 0
  | .types, .variants, .single (.word "pub") _ :: _ => if lexeme = .mark '(' then 0 else 1
  | .types, .variants, .group .round _ _ :: .single (.word "pub") _ :: _ => 2
  | .free, _, _ | .expression, _, _ => 0
  | _, _, .single (.joint "::") _ :: parts =>
    if lexeme = .mark '(' ∧ !{ frame with parts := parts }.beforeKept then 1 else 0
  | _, _, _ => 0

def losesAttributes (frame : Frame) (lexeme : Lexeme) : Bool :=
  frame.mode = .expression && frame.role = .expression && frame.bracket = .curly &&
    match Part.withoutAttributes frame.parts.reverse with
    | [] => lexeme = .word "become"
    | [.single (.word "builtin") _, .single (.mark '#') _, .single (.word _) _, .group .round _ _] =>
      !([.mark '.', .mark '?', .mark '(', .mark '['].contains lexeme)
    | _ => false

-- What a closure takes, if it has no type and is shown as it was written, is shown without its attributes.
def withoutInputAttributes (parts : List Part) : List Part :=
  let divides := fun part => part == .ofLexeme (.mark ',') || part == .ofLexeme (.mark '|')
  let input := parts.takeWhile fun part => !divides part
  if Part.beginsWith [.word "box", .word "const"] (Part.withoutAttributes input.reverse)
    && !input.contains (.ofLexeme (.mark ':')) then
    Part.hideAttributes input ++ parts.drop input.length
  else parts

def withoutVain (frame : Frame) (lexeme : Lexeme) : Frame :=
  let n := frame.vainBefore lexeme
  if 0 < n then { frame with parts := (frame.parts.take n).map Part.hide ++ frame.parts.drop n }
  else if frame.losesAttributes lexeme then { frame with parts := Part.hideAttributes frame.parts }
  else if frame.mode = .parameters ∧ (lexeme = .mark ',' ∨ lexeme = .mark '|') then
    { frame with parts := withoutInputAttributes frame.parts }
  else frame

-- What follows a lexeme. In square brackets a semicolon ends the type of the items, and their number follows.
def modeAfter (frame : Frame) (lexeme : Lexeme) : Mode :=
  match frame.role, frame.mode, lexeme with
  | .attribute, .free, .mark '=' => .expression
  | .variants, .types, .mark '=' => .expression
  | .variants, _, .mark ',' => .types
  | .arms, .expression, .mark ',' | .arms, .cast, .mark ',' => .pattern
  | .arms, .pattern, .word "else" => .expression
  | .arms, .pattern, .mark '.' | .arms, .pattern, .mark '?' =>
    if frame.parts.isEmpty then .expression else .pattern
  | _, .types, .mark ';' => if frame.bracket = .square then .expression else .types
  | _, mode, lexeme => mode.next frame.parts lexeme

-- What is shown of a lexeme: a range that contains its end has one sign, and members have their places to base
-- ten, however they are written.
def textOf (frame : Frame) (lexeme : Lexeme) : List Char :=
  if frame.mode = .free ∨ frame.beforeKept then lexeme.text
  else
    match lexeme with
    | .joint "..." => if Part.endsInOperand frame.parts then ['.', '.', '='] else ['.', '.', '.']
    | .number text => if Part.endsInPoint frame.parts then Part.memberText text else text
    | lexeme => lexeme.text

def withMember (frame : Frame) (lexeme : Lexeme) : Frame :=
  match frame.parts, lexeme with
  | .single (.number text) _ :: parts, .mark ':' =>
    if frame.bracket = .curly ∧ (frame.mode = .expression ∨ frame.mode = .pattern) then
      { frame with parts := .single (.number text) (Part.memberText text) :: parts }
    else frame
  | _, _ => frame

def leave (frame : Frame) : Frame := { frame with parts := [], past := frame.parts ++ frame.past }

def finish (frame : Frame) (mode : Mode) (body : Bool) : Frame :=
  if Part.isKept frame.role mode body frame.parts.reverse then
    { frame with parts := frame.parts.map Part.asWritten }.leave
  else frame.leave

def take (lexeme : Lexeme) (frame : Frame) : Frame :=
  let tidy := (frame.withoutVain lexeme).withMember lexeme
  let mode := tidy.modeAfter lexeme
  let after := { tidy with mode := mode, parts := .single lexeme (tidy.textOf lexeme) :: tidy.parts }
  if lexeme = .mark ';' then after.finish frame.mode false
  else if lexeme = .mark ',' ∧ (mode = .types ∨ mode = .expression ∨ mode = frame.role.mode) then after.leave
  else if lexeme.isAround then after.leave
  else after

def beforeArguments (frame : Frame) : List Part :=
  match frame.role, frame.parts with
  | .inputs, .single (.word word) shown :: parts =>
    if Part.isName word ∧ Part.withoutAttributes parts.reverse = [] then
      .single (.word word) ('_' :: ':' :: shown) :: parts
    else frame.parts
  | _, parts => parts

-- The group before another one in it is opened. A type that is expanded has no quantifier.
def beforeGroup (frame : Frame) (bracket : Bracket) : Frame :=
  let tidy := frame.withoutVain (.mark bracket.opening)
  match tidy.mode, bracket, tidy.parts with
  | .head _, _, _ | .expression, _, _ | .free, _, _ => tidy
  | _, .angle, _ => { tidy with parts := tidy.beforeArguments }
  | _, _, .single (.mark '!') shown :: parts =>
    { tidy with parts := .single (.mark '!') shown :: Part.hideQuantifier parts }
  | _, _, _ => tidy

def roleOfList (frame : Frame) : Role :=
  match frame.mode, frame.parts with
  | .expression, .single (.word "for") _ :: _ => .pattern
  | .expression, _ => .expression
  | .pattern, _ | .parameters, _ => .pattern
  | _, _ => .types

def roleOfRound (frame : Frame) : Role :=
  match frame.mode, frame.parts with
  | .expression, _ => frame.roleOfList
  | _, .single (.word "fn") _ :: _ => .pointed
  | .head .function, parts => if Part.endsInSignature parts then .inputs else .types
  | _, _ => frame.roleOfList

def roleOfAngle (frame : Frame) : Role :=
  match frame.mode, frame.parts with
  | _, .single (.word "for") _ :: _ => .binder
  | .head _, .single (.word "impl") _ :: _ => .generics
  | .head _, parts => if Part.endsInDefinition parts then .generics else .arguments
  | _, _ => .arguments

def beforeArms (parts : List Part) : Bool :=
  Part.walk (fun part _ =>
    match part with
    | .single (.word "match") _ => .inside
    | .group .curly _ _ => .outside
    | _ => .open) parts

def roleOfCurly (frame : Frame) : Role :=
  match frame.mode, frame.parts with
  | .head .fields, _ => .types
  | .head .variants, _ => .variants
  | .head .signatures, _ => .signatures
  | .head _, _ | .result, _ | .cast, _ => .expression
  | .expression, .single (.word "extern") _ :: _ => .foreign
  | .expression, .single (.literal _) _ :: .single (.word "extern") _ :: _ => .foreign
  | .expression, parts => if beforeArms parts then .arms else .expression
  | _, .single (.word "const") _ :: .single (.joint "..=") _ :: _ => .expression
  | _, .single (.word "const") _ :: .single (.joint "...") _ :: _ => .expression
  | _, .single (.word "const") _ :: .single (.mark '.') _ :: _ => .expression
  | _, .single (.word word) _ :: _ =>
    if ["const", "struct", "union"].contains word then .free
    else if frame.role = .variants then .types
    else .pattern
  | _, _ => if frame.bracket = .angle then .expression else .pattern

def roleOf (frame : Frame) (bracket : Bracket) : Role :=
  if frame.mode = .free ∨ Part.endsInExpansion frame.parts then .free
  else
    match bracket with
    | .round => frame.roleOfRound
    | .square => if Part.endsInHash frame.parts then .attribute else frame.roleOfList
    | .angle => frame.roleOfAngle
    | .curly => frame.roleOfCurly

def content (frame : Frame) : List Part := (frame.parts ++ frame.past).reverse

def shown (frame : Frame) : List Char :=
  match frame.role with
  | .arguments => frame.bracket.enclose (Part.argumentsText frame.content)
  | .generics =>
    if frame.content.isEmpty then [] else frame.bracket.enclose (Part.argumentsText frame.content)
  | _ => frame.bracket.enclose (Part.shownText frame.content)

def closed (frame : Frame) : Part :=
  .group frame.bracket frame.shown (frame.bracket.enclose (Part.writtenText frame.content))

def endsWithBlock (frame : Frame) : Bool :=
  let value := frame.parts.takeWhile (· != .ofLexeme (.joint "=>"))
  frame.bracket = .curly && Part.beginsBlock value.reverse
    && !(frame.role = .arms && Part.isExpansion value)

def add (frame inner : Frame) : Frame :=
  let part := if frame.beforeKept then inner.closed.asWritten else inner.closed
  let after := { frame with parts := part :: frame.parts }
  if inner.bracket ≠ .curly then if Part.endsInOuterHash frame.parts then after.leave else after
  else
    match frame.mode with
    | .head _ => { after.finish frame.mode true with mode := frame.role.mode }
    | .result => { after with mode := .expression }
    | .expression | .cast =>
      if frame.endsWithBlock then { after.leave with mode := frame.role.mode }
      else { after with mode := .expression }
    | _ => after

def dissolve (frame inner : Frame) : Frame :=
  { frame with
    parts := inner.parts ++ inner.past ++ .ofLexeme (.mark inner.bracket.opening) :: frame.parts }

end Frame

end Stencil.Declaration
