import Stencil.Config
import Stencil.Numeric.Decimal96
import Stencil.Value.Basic

set_option autoImplicit false

namespace Stencil

inductive RenderError where
  | notImplemented (format : NumberFormat)
deriving DecidableEq, Repr

namespace RenderError

def message : RenderError → String
  | .notImplemented format => "Number format '" ++ format.name ++ "' is not implemented"

end RenderError

open Numeric

namespace NumberFormat

def intText (format : NumberFormat) (n : Int64) : Except RenderError String :=
  match format with
  | .plain | .round => .ok (String.ofList (Numeric.intText n.toInt))
  | .cents => .ok (String.ofList (Numeric.intText n.toInt ++ ['.', '0', '0']))
  | .percent => .error (.notImplemented .percent)

def roundedText (places : Nat) (x : Binary64) : String := String.ofList (x.roundedText Decimal96.ofBinary? places)

-- A whole number is rounded to itself and keeps its shortest digits; zero then has no sign.
def floatText (format : NumberFormat) (x : Binary64) : Except RenderError String :=
  match format with
  | .plain => .ok (String.ofList (x.text .plain))
  | .round =>
    if x.isZero then .ok "0"
    else if x.isWhole then .ok (String.ofList (x.text .plain))
    else .ok (roundedText 0 x)
  | .cents => .ok (roundedText 2 x)
  | .percent => .error (.notImplemented .percent)

end NumberFormat

namespace Value

mutual

def render (config : Config) : Value → Except RenderError String
  | .str text => .ok text
  | .bool b => .ok (if b then "true" else "false")
  | .int n => config.numberFormat.intText n
  | .float x => config.numberFormat.floatText x
  | .list items => (renderItems config items).map (String.intercalate config.separator)
  | .map entries => (renderEntries config entries).map (String.intercalate config.separator)

def renderItems (config : Config) : List Value → Except RenderError (List String)
  | [] => .ok []
  | item :: rest => do
    let text ← render config item
    let texts ← renderItems config rest
    return text :: texts

def renderEntries (config : Config) : List (String × Value) → Except RenderError (List String)
  | [] => .ok []
  | (key, value) :: rest => do
    let text ← render config value
    let texts ← renderEntries config rest
    return (key ++ "=" ++ text) :: texts

end

end Value

end Stencil
