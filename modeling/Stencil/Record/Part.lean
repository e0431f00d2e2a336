import Stencil.Numeric.Digits
import Stencil.Record.Lexeme

set_option autoImplicit false

namespace Stencil.Declaration

structure Listed (α : Type) where
  item : α
  comma : Bool
deriving DecidableEq, Repr

namespace Listed

variable {α : Type}

def ofList : List α → List (Listed α)
  | [] => []
  | [last] => [⟨last, false⟩]
  | item :: rest => ⟨item, true⟩ :: ofList rest

def inFront (p : α → Bool) (items : List (Listed α)) : List (Listed α) :=
  (items.filter fun listed => p listed.item) ++ items.filter fun listed => !p listed.item

def text (itemText : α → List Char) : List (Listed α) → List Char
  | [] => []
  | [last] => if last.comma then itemText last.item ++ [','] else itemText last.item
  | listed :: rest => itemText listed.item ++ ',' :: text itemText rest

end Listed

inductive Bracket where
  | round
  | square
  | curly
  | angle
deriving DecidableEq, Repr

namespace Bracket

def opening : Bracket → Char
  | .round => '('
  | .square => '['
  | .curly => '{'
  | .angle => '<'

def closing : Bracket → Char
  | .round => ')'
  | .square => ']'
  | .curly => '}'
  | .angle => '>'

def enclose (bracket : Bracket) (text : List Char) : List Char := bracket.opening :: (text ++ [bracket.closing])

end Bracket

inductive Part where
  | single (lexeme : Lexeme) (shown : List Char)
  | group (bracket : Bracket) (shown written : List Char)
deriving DecidableEq, Repr

namespace Part

def ofLexeme (lexeme : Lexeme) : Part := .single lexeme lexeme.text

def shown : Part → List Char
  | .single _ shown => shown
  | .group _ shown _ => shown

def written : Part → List Char
  | .single lexeme _ => lexeme.text
  | .group _ _ written => written

def hide : Part → Part
  | .single lexeme _ => .single lexeme []
  | .group bracket _ written => .group bracket [] written

def asWritten : Part → Part
  | .single lexeme _ => .ofLexeme lexeme
  | .group bracket _ written => .group bracket written written

def shownText (parts : List Part) : List Char := parts.flatMap shown

def writtenText (parts : List Part) : List Char := parts.flatMap written

def addTo (part : Part) (items : List (Listed (List Part))) : List (Listed (List Part)) :=
  match part, items with
  | .single (.mark ',') _, items => ⟨[], true⟩ :: items
  | part, [] => [⟨[part], false⟩]
  | part, first :: rest => ⟨part :: first.item, first.comma⟩ :: rest

def items (parts : List Part) : List (Listed (List Part)) := parts.foldr addTo []

def withoutAttributes : List Part → List Part
  | .single (.documentation _) _ :: rest => withoutAttributes rest
  | .single (.mark '#') _ :: .group _ _ _ :: rest => withoutAttributes rest
  | parts => parts

def withoutVisibility : List Part → List Part
  | .single (.word "pub") _ :: .group .round _ _ :: rest => rest
  | .single (.word "pub") _ :: rest => rest
  | parts => parts

-- A lifetime is an argument of its own, unless it is the first of several bounds.
def isLifetime (parts : List Part) : Bool :=
  match withoutAttributes parts with
  | .single (.lifetime _) _ :: .single (.mark '+') _ :: _ => false
  | .single (.lifetime _) _ :: _ => true
  | _ => false

def argumentsText (parts : List Part) : List Char :=
  Listed.text shownText (Listed.inFront isLifetime (items parts))

def keywords : List String :=
  ["as", "async", "become", "box", "break", "const", "continue", "do", "dyn", "else", "enum", "extern", "fn", "for",
    "if", "impl", "in", "let", "loop", "macro", "match", "mod", "move", "mut", "pub", "ref", "return", "static",
    "struct", "trait", "type", "unsafe", "use", "where", "while", "yield"]

def isName (word : String) : Bool := !keywords.contains word

def endsInOperand : List Part → Bool
  | .group .angle _ _ :: .single (.word "for") _ :: _ => false
  | .group .square _ _ :: .single (.mark '#') _ :: _ => false
  | .group _ _ _ :: _ => true
  | .single (.literal _) _ :: _ => true
  | .single (.number _) _ :: _ => true
  | .single (.mark '?') _ :: _ => true
  | .single (.word word) _ :: _ => isName word
  | _ => false

def endsInPath : List Part → Bool
  | .single (.word word) _ :: _ => isName word && word != "_"
  | _ => false

-- The parts, from the last to the first, end with a point after which a number names a member. Two points are the
-- sign of a range.
def endsInPoint : List Part → Bool
  | .single (.mark '.') _ :: .single (.mark '.') _ :: _ => false
  | .single (.mark '.') _ :: _ => true
  | .single (.number text) _ :: parts => text.getLast? = some '.' && endsInPoint parts
  | _ => false

def placeText (text : List Char) : List Char :=
  match Numeric.wholeNumber? text with
  | some n => Numeric.digitsText n
  | none => text

def memberText (number : List Char) : List Char :=
  match number.dropWhile (· != '.') with
  | [] => placeText number
  | point :: rest => placeText (number.takeWhile (· != '.')) ++ point :: placeText rest

def endsInExpansion : List Part → Bool
  | .single (.mark '!') _ :: .single (.word word) _ :: _ => isName word
  | .single (.word _) _ :: .single (.mark '!') _ :: .single (.word word) _ :: _ => isName word
  | .single (.word _) _ :: .single (.word "macro") _ :: _ => true
  | .group .round _ _ :: .single (.word _) _ :: .single (.word "macro") _ :: _ => true
  | .single (.word _) _ :: .single (.mark '#') _ :: .single (.word "builtin") _ :: _ => true
  | _ => false

def hideQuantifier : List Part → List Part
  | .single (.word word) shown :: .single (.joint "::") marks :: rest =>
    .single (.word word) shown :: .single (.joint "::") marks :: hideQuantifier rest
  | .single (.word word) shown :: .group .angle names written :: .single (.word "for") first :: rest =>
    .single (.word word) shown :: hide (.group .angle names written) :: hide (.single (.word "for") first) :: rest
  | parts => parts

def endsInOuterHash : List Part → Bool
  | .single (.mark '!') _ :: .single (.mark '#') _ :: _ => true
  | _ => false

def endsInHash : List Part → Bool
  | .single (.mark '#') _ :: _ => true
  | parts => endsInOuterHash parts

def isExpansion (parts : List Part) : Bool :=
  parts.contains (.ofLexeme (.mark '!')) && parts.all fun part =>
    match part with
    | .single (.word word) _ => isName word
    | .single lexeme _ => lexeme == .mark '!' || lexeme == .joint "::"
    | _ => false

def beginsBlock (parts : List Part) : Bool :=
  match withoutVisibility (withoutAttributes parts) with
  | [] => true
  | [.single (.word "const") _] => true
  | .single (.lifetime _) _ :: .single (.mark ':') _ :: _ => true
  | .single (.word word) shown :: rest =>
    ["if", "else", "match", "while", "loop", "for", "unsafe", "try", "extern", "macro"].contains word
      || isExpansion (.single (.word word) shown :: rest)
  | _ => false

def withoutWords (words : List String) : List Part → List Part
  | .single (.word word) shown :: rest =>
    if words.contains word then withoutWords words rest else .single (.word word) shown :: rest
  | parts => parts

def hideAttributes (parts : List Part) : List Part :=
  let n := (withoutAttributes parts.reverse).length
  parts.take n ++ (parts.drop n).map hide

def beginsWith (lexemes : List Lexeme) : List Part → Bool
  | .single lexeme _ :: _ => lexemes.contains lexeme
  | _ => false

def withoutArguments : List Part → List Part
  | .group .angle _ _ :: rest => rest
  | parts => parts

end Part

end Stencil.Declaration
