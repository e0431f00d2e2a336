import Stencil.Json.Outline
import Stencil.Text

set_option autoImplicit false

namespace Stencil.Json

inductive Kind where
  | null
  | bool (b : Bool)
  | number (n : Number)
  | str (text : String)
  | array
  | object
deriving DecidableEq

namespace Kind

def ofToken? : Token → Option Kind
  | .null => some .null
  | .bool b => some (.bool b)
  | .number n? => n?.map .number
  | .str text? => text?.map .str
  | .openBracket => some .array
  | .openBrace => some .object
  | _ => none

def describe : Kind → String
  | .null => "null"
  | .bool b => "boolean `" ++ (if b then "true" else "false") ++ "`"
  | .number (.int n _) => "integer `" ++ String.ofList (Numeric.intText n) ++ "`"
  | .number (.float x _) => "floating point `" ++ String.ofList (x.text .json) ++ "`"
  | .str text => "string " ++ Text.quoted text
  | .array => "sequence"
  | .object => "map"

end Kind

inductive Fault where
  | malformed
  | mismatch (found : Kind) (wanted : String)
  | duplicateField (name : String)
  | unknownVariant (name : String) (known : List String)
  | absentValue
deriving DecidableEq

namespace Fault

def unexpected (wanted : String) : List Token → Fault
  | [] => .malformed
  | token :: _ =>
    match Kind.ofToken? token with
    | some kind => .mismatch kind wanted
    | none => .malformed

def message? : Fault → Option String
  | .malformed => none
  | .mismatch found wanted => some ("invalid type: " ++ found.describe ++ ", expected " ++ wanted)
  | .duplicateField name => some ("duplicate field `" ++ name ++ "`")
  | .unknownVariant name known =>
    some ("unknown variant `" ++ name ++ "`, expected one of "
      ++ String.intercalate ", " (known.map fun other => "`" ++ other ++ "`"))
  | .absentValue => some "data did not match any variant of untagged enum Value"

end Fault

abbrev Shorter (toks : List Token) := { rest : List Token // rest.length < toks.length }

namespace Shorter

def tail {token : Token} {rest : List Token} : Shorter (token :: rest) := ⟨rest, Nat.lt_succ_self _⟩

def after {token : Token} {toks : List Token} (left : Shorter toks) : Shorter (token :: toks) :=
  ⟨left.1, Nat.lt_succ_of_lt left.2⟩

def further {token : Token} {toks more : List Token} (shorter : (token :: more).length < toks.length)
    (left : Shorter more) : Shorter toks :=
  ⟨left.1, Nat.lt_trans left.2 (Nat.lt_of_succ_lt shorter)⟩

end Shorter

-- Adds one member to a state: it is given the name and the tokens after it, the colon included.
abbrev MemberReader (σ : Type) :=
  σ → String → (toks : List Token) → Except Fault (σ × Shorter toks)

def readMembers {σ : Type} (member : MemberReader σ) (state : σ) (toks : List Token) :
    Except Fault (σ × Shorter toks) :=
  match toks with
  | .str (some key) :: rest =>
    match member state key rest with
    | .error fault => .error fault
    | .ok (state, ⟨.comma :: more, shorter⟩) =>
      match readMembers member state more with
      | .error fault => .error fault
      | .ok (state, left) => .ok (state, (left.further shorter).after)
    | .ok (state, ⟨.closeBrace :: more, shorter⟩) =>
      .ok (state, Shorter.after ⟨more, Nat.lt_of_succ_lt shorter⟩)
    | .ok _ => .error .malformed
  | _ => .error .malformed
termination_by toks.length
decreasing_by
  simp only [List.length_cons] at *
  omega

def readObject {σ : Type} (member : MemberReader σ) (state : σ) (toks : List Token) :
    Except Fault (σ × Shorter toks) :=
  match toks with
  | .closeBrace :: _ => .ok (state, Shorter.tail)
  | toks => readMembers member state toks

def readMemberValue (room : Nat) (toks : List Token) : Except Fault (Json × Shorter toks) :=
  match toks with
  | .colon :: rest =>
    match found : readValue room rest with
    | some (tree, left) => .ok (tree, Shorter.after ⟨left, length_lt_of_read_value found⟩)
    | none => .error .malformed
  | _ => .error .malformed

def atEnd {α : Type} {toks : List Token} (read : α × Shorter toks) : Except Fault α :=
  if read.2.1 = [] then .ok read.1 else .error .malformed

end Stencil.Json
