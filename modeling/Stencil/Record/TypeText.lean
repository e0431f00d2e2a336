import Stencil.Record.Frame

set_option autoImplicit false

namespace Stencil.Declaration

structure Nest where
  inner : Frame
  outer : List Frame
deriving DecidableEq, Repr

namespace Nest

def start : Nest := ⟨.opened .round .types, []⟩

def take (lexeme : Lexeme) (nest : Nest) : Nest := { nest with inner := nest.inner.take lexeme }

def openGroup (bracket : Bracket) (nest : Nest) : Nest :=
  let around := nest.inner.beforeGroup bracket
  ⟨.opened bracket (around.roleOf bracket), around :: nest.outer⟩

def closeGroup (bracket : Bracket) (nest : Nest) : Nest :=
  match nest.outer with
  | [] => nest.take (.mark bracket.closing)
  | frame :: outer => ⟨frame.add (nest.inner.withoutVain (.mark bracket.closing)), outer⟩

-- Without the groups in angle brackets that are open where another bracket is closed.
def leaveAngles (inner : Frame) : List Frame → Nest
  | [] => ⟨inner, []⟩
  | frame :: outer =>
    if inner.bracket = .angle then leaveAngles (frame.dissolve inner) outer else ⟨inner, frame :: outer⟩

def step (nest : Nest) (lexeme : Lexeme) : Nest :=
  match lexeme with
  | .mark '(' => nest.openGroup .round
  | .mark '[' => nest.openGroup .square
  | .mark '{' => nest.openGroup .curly
  | .mark ')' => (leaveAngles nest.inner nest.outer).closeGroup .round
  | .mark ']' => (leaveAngles nest.inner nest.outer).closeGroup .square
  | .mark '}' => (leaveAngles nest.inner nest.outer).closeGroup .curly
  | .mark '<' =>
    if nest.inner.mode.opensAngle nest.inner.parts then nest.openGroup .angle else nest.take lexeme
  | .joint "<<" =>
    if nest.inner.mode.opensAngle nest.inner.parts then (nest.openGroup .angle).openGroup .angle
    else nest.take lexeme
  | .mark '>' => if nest.inner.bracket = .angle then nest.closeGroup .angle else nest.take lexeme
  | _ => nest.take lexeme

def content (nest : Nest) : List Part :=
  (nest.outer.foldl (fun inner frame => frame.dissolve inner) nest.inner).content

end Nest

namespace Part

def read (text : String) : List Part := ((Lexeme.scan text.toList).foldl Nest.step Nest.start).content

def withoutQuantifier : List Part → List Part
  | .single (.word "for") _ :: .group .angle _ _ :: rest => rest
  | parts => parts

end Part

def typeText (text : String) : String := String.ofList (Text.withoutBlanks (Part.shownText (Part.read text)))

def boundedText (text : String) : String :=
  String.ofList (Text.withoutBlanks (Part.shownText (Part.withoutQuantifier (Part.read text))))

end Stencil.Declaration
